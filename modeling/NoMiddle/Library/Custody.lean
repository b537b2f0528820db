import NoMiddle.Library.Program

/-! Items a program carries around. It takes a copy of an item with one event and
may use it later, when the original has changed. A program has an item in hand
when it may still use its copy before taking another; what it would use is what
it took last and has not given up since. -/
namespace Library

structure Custody (S : Sig) (Item Data : Type) where
  takes : Item → Event S → Option Data
  gives : Item → Event S → Bool
  uses : Item → S.Op → Prop

variable {S : Sig} {Item Data Value Output : Type} (custody : Custody S Item Data) (item : Item)

/-- The latest event stands first. -/
def Custody.held : List (Event S) → Option Data
  | [] => none
  | event :: earlier =>
      match custody.takes item event with
      | some data => some data
      | none => if custody.gives item event then none else Custody.held earlier

def Program.InHand (possible : (operation : S.Op) → S.Res operation → Prop) :
    Program S Value → Prop
  | .ret _ => False
  | .op operation next => custody.uses item operation ∨
      ∃ answer, possible operation answer ∧ custody.takes item ⟨operation, answer⟩ = none ∧
        (next answer).InHand possible

variable {custody item}

@[simp] theorem Custody.held_nil : custody.held item [] = none := rfl

theorem Custody.held_taken {event : Event S} {data : Data} (earlier : List (Event S))
    (taken : custody.takes item event = some data) :
    custody.held item (event :: earlier) = some data := by
  simp [Custody.held, taken]

theorem Custody.held_kept {event : Event S} (earlier : List (Event S))
    (untaken : custody.takes item event = none) (kept : custody.gives item event = false) :
    custody.held item (event :: earlier) = custody.held item earlier := by
  simp [Custody.held, untaken, kept]

theorem Custody.held_given {event : Event S} (earlier : List (Event S))
    (untaken : custody.takes item event = none) (given : custody.gives item event = true) :
    custody.held item (event :: earlier) = none := by
  simp [Custody.held, untaken, given]

/-- What is held was taken by an event of the history. -/
theorem Custody.held_source {history : List (Event S)} {data : Data}
    (held : custody.held item history = some data) :
    ∃ event ∈ history, custody.takes item event = some data := by
  induction history with
  | nil => simp at held
  | cons event earlier ih =>
      cases taken : custody.takes item event with
      | some other =>
          rw [custody.held_taken earlier taken] at held
          exact ⟨event, List.mem_cons_self, taken.trans held⟩
      | none =>
          cases given : custody.gives item event with
          | true =>
              rw [custody.held_given earlier taken given] at held
              cases held
          | false =>
              rw [custody.held_kept earlier taken given] at held
              obtain ⟨source, member, same⟩ := ih held
              exact ⟨source, List.mem_cons_of_mem event member, same⟩

variable {discipline : Discipline S}

/-- A program that uses only what it holds has nothing in hand that it does not hold. -/
theorem Program.held_of_inHand
    (careful : ∀ history operation, discipline.allowed history operation →
      custody.uses item operation → ∃ data, custody.held item history = some data)
    (program : Program S Value) (post : Value → List (Event S) → Prop) (history : List (Event S))
    (complies : program.wp discipline.contract post history)
    (inHand : program.InHand custody item discipline.possible) :
    ∃ data, custody.held item history = some data := by
  induction program generalizing history with
  | ret value => exact inHand.elim
  | op operation next ih =>
      rcases inHand with use | ⟨answer, possible, untaken, later⟩
      · exact careful history operation complies.1 use
      · obtain ⟨data, held⟩ := ih answer _ (complies.2 answer possible) later
        cases given : custody.gives item ⟨operation, answer⟩ with
        | true =>
            rw [custody.held_given history untaken given] at held
            cases held
        | false =>
            rw [custody.held_kept history untaken given] at held
            exact ⟨data, held⟩

end Library
