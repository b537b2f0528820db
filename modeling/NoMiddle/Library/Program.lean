import Mathlib.Tactic

/-! Sequential programs as trees of operations. A signature lists the operations
and the type each one answers with; a program either returns or performs one
operation and continues with the answer. The tree leaves open what an operation
does, so one program can be run alone, interleaved with others, or checked
against a discipline, each time under a different contract. -/
namespace Library

structure Sig where
  Op : Type
  Res : Op → Type

inductive Program (S : Sig) (Value : Type) where
  | ret (value : Value)
  | op (operation : S.Op) (next : S.Res operation → Program S Value)

namespace Program
variable {S : Sig} {Value Output : Type}

def bind : Program S Value → (Value → Program S Output) → Program S Output
  | ret value, rest => rest value
  | op operation next, rest => op operation fun answer => (next answer).bind rest

def perform (operation : S.Op) : Program S (S.Res operation) := op operation ret

instance : Monad (Program S) where
  pure := ret
  bind := bind

def finished : Program S Value → Bool
  | ret _ => true
  | op _ _ => false

/-- What a program that has finished returned. -/
def result : Program S Value → Option Value
  | ret value => some value
  | op _ _ => none

theorem result_eq_some {program : Program S Value} {value : Value} :
    program.result = some value ↔ program = ret value := by
  cases program <;> simp [result]

@[simp] theorem pure_eq (value : Value) : (pure value : Program S Value) = ret value := rfl

@[simp] theorem ret_bind (value : Value) (rest : Value → Program S Output) :
    ret value >>= rest = rest value := rfl

@[simp] theorem op_bind (operation : S.Op) (next : S.Res operation → Program S Value)
    (rest : Value → Program S Output) :
    op operation next >>= rest = op operation fun answer => next answer >>= rest := rfl

theorem bind_assoc {Last : Type} (program : Program S Value)
    (first : Value → Program S Output) (second : Output → Program S Last) :
    program >>= first >>= second = program >>= fun value => first value >>= second := by
  induction program with
  | ret value => rfl
  | op operation next ih => exact congrArg (op operation) (funext ih)

end Program

/-! A contract says, for one operation and a condition on what follows it, what
must hold before. Folding a contract over a program gives the program's weakest
precondition. Nothing is assumed of the state, which may be a store, a whole
network or the history of the program itself. -/
abbrev Contract (S : Sig) (State : Type) :=
  (operation : S.Op) → (S.Res operation → State → Prop) → State → Prop

namespace Contract
variable {S : Sig} {State : Type}

def Monotone (contract : Contract S State) : Prop :=
  ∀ operation (weak strong : S.Res operation → State → Prop) state,
    (∀ answer after, strong answer after → weak answer after) →
    contract operation strong state → contract operation weak state

/-- Every answer and successor state the step relation allows. -/
def demonic (step : (operation : S.Op) → State → S.Res operation → State → Prop) :
    Contract S State :=
  fun operation post state => ∀ answer after, step operation state answer after → post answer after

theorem demonic_monotone (step : (operation : S.Op) → State → S.Res operation → State → Prop) :
    (demonic step).Monotone :=
  fun _ _ _ _ implies strong answer after taken => implies _ _ (strong answer after taken)

end Contract

namespace Program
variable {S : Sig} {State Value Output Item : Type} {contract : Contract S State}

def wp (contract : Contract S State) : Program S Value → (Value → State → Prop) → State → Prop
  | ret value, post => post value
  | op operation next, post => contract operation fun answer => (next answer).wp contract post

@[simp] theorem wp_ret (value : Value) (post : Value → State → Prop) (state : State) :
    (ret value : Program S Value).wp contract post state ↔ post value state := Iff.rfl

@[simp] theorem wp_op (operation : S.Op) (next : S.Res operation → Program S Value)
    (post : Value → State → Prop) (state : State) :
    (op operation next).wp contract post state ↔
      contract operation (fun answer => (next answer).wp contract post) state := Iff.rfl

theorem wp_bind (program : Program S Value) (rest : Value → Program S Output)
    (post : Output → State → Prop) :
    (program >>= rest).wp contract post =
      program.wp contract fun value => (rest value).wp contract post := by
  induction program with
  | ret value => rfl
  | op operation next ih => exact congrArg (contract operation) (funext ih)

theorem wp_mono (monotone : contract.Monotone) (program : Program S Value)
    {strong weak : Value → State → Prop}
    (implies : ∀ value state, strong value state → weak value state) (state : State)
    (holds : program.wp contract strong state) : program.wp contract weak state := by
  induction program generalizing state with
  | ret value => exact implies value state holds
  | op operation next ih =>
      exact monotone operation _ _ state (fun answer after => ih answer after) holds

/-- Sequencing with a named condition in between. -/
theorem wp_seq (monotone : contract.Monotone) (program : Program S Value)
    (rest : Value → Program S Output) {middle : Value → State → Prop}
    {post : Output → State → Prop} (state : State)
    (first : program.wp contract middle state)
    (second : ∀ value after, middle value after → (rest value).wp contract post after) :
    (program >>= rest).wp contract post state := by
  rw [wp_bind]
  exact wp_mono monotone program second state first

/-- The loop rule. The invariant speaks about the items still to come and the
accumulator, so a body may rely on later items being untouched. -/
theorem wp_foldlM (monotone : contract.Monotone) (body : Value → Item → Program S Value)
    (invariant : List Item → Value → State → Prop)
    (step : ∀ item rest value state, invariant (item :: rest) value state →
      (body value item).wp contract (invariant rest) state)
    (items : List Item) (value : Value) (state : State)
    (start : invariant items value state) :
    (items.foldlM body value).wp contract (invariant []) state := by
  induction items generalizing value state with
  | nil => exact start
  | cons item rest ih =>
      rw [List.foldlM_cons]
      exact wp_seq monotone _ _ state (step item rest value state start) (ih · ·)

theorem wp_forM (monotone : contract.Monotone) (body : Item → Program S Unit)
    (invariant : List Item → State → Prop)
    (step : ∀ item rest state, invariant (item :: rest) state →
      (body item).wp contract (fun _ => invariant rest) state)
    (items : List Item) (state : State) (start : invariant items state) :
    (items.forM body).wp contract (fun _ => invariant []) state := by
  induction items generalizing state with
  | nil => exact start
  | cons item rest ih =>
      change (body item >>= fun _ => rest.forM body).wp contract (fun _ => invariant []) state
      exact wp_seq monotone _ _ state (step item rest state start) fun _ => ih

/-- A loop that hands on whether all has gone well so far. In the end the flag says that every
item was met, save those exempt, as a turn meets its own item only. -/
theorem wp_foldlM_flag (monotone : contract.Monotone) {body : Bool → Item → Program S Bool}
    {exempt : Item → Prop} {met : Item → State → Prop} {items : List Item}
    (distinct : items.Nodup)
    (turn : ∀ item ∈ items, ∀ flag state, ¬met item state →
      (body flag item).wp contract (fun later after =>
        (later = true ↔ flag = true ∧ (exempt item ∨ met item after)) ∧
        ∀ other ∈ items, other ≠ item → (met other after ↔ met other state)) state)
    (state : State) (fresh : ∀ item ∈ items, ¬met item state) :
    (items.foldlM body true).wp contract
      (fun flag after => flag = true ↔ ∀ item ∈ items, exempt item ∨ met item after) state := by
  refine wp_mono monotone _ ?_ state (wp_foldlM monotone body (fun rest flag state =>
    ∃ past, items = past ++ rest ∧ (flag = true ↔ ∀ item ∈ past, exempt item ∨ met item state) ∧
      ∀ item ∈ rest, ¬met item state) ?_ items true state ⟨[], rfl, by simp, fresh⟩)
  · rintro flag after ⟨past, split, flagged, _⟩
    rwa [split, List.append_nil]
  · rintro item rest flag state ⟨past, split, flagged, unmet⟩
    rw [split] at distinct turn
    obtain ⟨_, unrepeated, apart⟩ := List.nodup_append.mp distinct
    have here : item ∈ past ++ item :: rest := List.mem_append_right past List.mem_cons_self
    refine wp_mono monotone _ ?_ state (turn item here flag state (unmet item List.mem_cons_self))
    rintro later after ⟨decided, others⟩
    have kept : ∀ other ∈ past, (met other after ↔ met other state) := fun other member =>
      others other (List.mem_append_left _ member)
        fun same => apart other member item List.mem_cons_self same
    refine ⟨past ++ [item], by rw [split, List.append_assoc]; rfl, ?_, fun other member => ?_⟩
    · rw [decided, flagged, List.forall_mem_append, List.forall_mem_singleton]
      exact and_congr_left' (forall₂_congr fun other member => or_congr_right
        (kept other member).symm)
    · have different : other ≠ item := fun same =>
        (List.nodup_cons.mp unrepeated).1 (same ▸ member)
      rw [others other (List.mem_append_right past (List.mem_cons_of_mem item member)) different]
      exact unmet other (List.mem_cons_of_mem item member)

/-- The same for an invariant that only has to know the items belong to the list. -/
theorem wp_forM_mem (monotone : contract.Monotone) (body : Item → Program S Unit)
    (invariant : State → Prop) (items : List Item)
    (step : ∀ item ∈ items, ∀ state, invariant state →
      (body item).wp contract (fun _ => invariant) state)
    (state : State) (start : invariant state) :
    (items.forM body).wp contract (fun _ => invariant) state := by
  refine wp_mono monotone _ (fun _ _ holds => holds.2) state
    (wp_forM monotone body (fun rest state => rest ⊆ items ∧ invariant state)
      (fun item rest state holds => ?_) items state ⟨List.Subset.refl items, start⟩)
  obtain ⟨member, among⟩ := List.cons_subset.mp holds.1
  exact wp_mono monotone _ (fun _ _ kept => ⟨among, kept⟩) state (step item member state holds.2)

/-- One complete execution under a step relation. -/
def Runs (step : (operation : S.Op) → State → S.Res operation → State → Prop) :
    Program S Value → State → Value → State → Prop
  | ret value, state, output, after => output = value ∧ after = state
  | op operation next, state, output, after =>
      ∃ answer middle, step operation state answer middle ∧
        (next answer).Runs step middle output after

theorem wp_demonic_iff (step : (operation : S.Op) → State → S.Res operation → State → Prop)
    (program : Program S Value) (post : Value → State → Prop) (state : State) :
    program.wp (Contract.demonic step) post state ↔
      ∀ value after, program.Runs step state value after → post value after := by
  induction program generalizing state with
  | ret value =>
      constructor
      · rintro holds _ _ ⟨rfl, rfl⟩
        exact holds
      · intro all
        exact all value state ⟨rfl, rfl⟩
  | op operation next ih =>
      constructor
      · rintro holds value after ⟨answer, middle, taken, rest⟩
        exact (ih answer middle).mp (holds answer middle taken) value after rest
      · intro all answer middle taken
        exact (ih answer middle).mpr fun value after rest =>
          all value after ⟨answer, middle, taken, rest⟩

/-- The step relation of a handler that draws whatever it does not determine
itself from an input. -/
def Answers {Input : Type}
    (handle : Input → (operation : S.Op) → State → S.Res operation × State)
    (operation : S.Op) (state : State) (answer : S.Res operation) (after : State) : Prop :=
  ∃ input, handle input operation state = (answer, after)

/-- Executes a program on a list of inputs, one for each operation. -/
def exec {Input : Type}
    (handle : Input → (operation : S.Op) → State → S.Res operation × State) :
    Program S Value → List Input → State → Option (Value × State)
  | ret value, _, state => some (value, state)
  | op _ _, [], _ => none
  | op operation next, input :: inputs, state =>
      let taken := handle input operation state
      (next taken.1).exec handle inputs taken.2

theorem exec_runs {Input : Type}
    (handle : Input → (operation : S.Op) → State → S.Res operation × State)
    (program : Program S Value) (inputs : List Input) (state after : State) (value : Value)
    (executed : program.exec handle inputs state = some (value, after)) :
    program.Runs (Answers handle) state value after := by
  induction program generalizing inputs state with
  | ret output =>
      simp only [exec, Option.some.injEq, Prod.mk.injEq] at executed
      exact ⟨executed.1.symm, executed.2.symm⟩
  | op operation next ih =>
      cases inputs with
      | nil => simp [exec] at executed
      | cons input rest =>
          exact ⟨_, _, ⟨input, rfl⟩, ih _ rest _ executed⟩

/-- With a handler, every program runs to its end. -/
theorem runs_total {Input : Type} [Nonempty Input]
    (handle : Input → (operation : S.Op) → State → S.Res operation × State)
    (program : Program S Value) (state : State) :
    ∃ value after, program.Runs (Answers handle) state value after := by
  induction program generalizing state with
  | ret value => exact ⟨value, state, rfl, rfl⟩
  | op operation next ih =>
      obtain ⟨input⟩ := (inferInstance : Nonempty Input)
      obtain ⟨value, after, rest⟩ := ih _ (handle input operation state).2
      exact ⟨value, after, _, _, ⟨input, rfl⟩, rest⟩

/-- The one execution on a stream of inputs, each operation taking the next. -/
def play {Input : Type}
    (handle : Input → (operation : S.Op) → State → S.Res operation × State) :
    Program S Value → (Nat → Input) → State → Value × State
  | ret value, _, state => (value, state)
  | op operation next, drawn, state =>
      let taken := handle (drawn 0) operation state
      (next taken.1).play handle (fun index => drawn (index + 1)) taken.2

@[simp] theorem play_ret {Input : Type}
    (handle : Input → (operation : S.Op) → State → S.Res operation × State) (value : Value)
    (drawn : Nat → Input) (state : State) :
    (ret value : Program S Value).play handle drawn state = (value, state) := rfl

theorem play_op {Input : Type}
    (handle : Input → (operation : S.Op) → State → S.Res operation × State)
    (operation : S.Op) (next : S.Res operation → Program S Value) (drawn : Nat → Input)
    (state : State) :
    (op operation next).play handle drawn state =
      (next (handle (drawn 0) operation state).1).play handle (fun index => drawn (index + 1))
        (handle (drawn 0) operation state).2 := rfl

/-- What follows draws from where the first part stopped. -/
theorem play_bind {Input : Type}
    (handle : Input → (operation : S.Op) → State → S.Res operation × State)
    (program : Program S Value) (rest : Value → Program S Output) (drawn : Nat → Input)
    (state : State) :
    ∃ later, (program >>= rest).play handle drawn state =
      (rest (program.play handle drawn state).1).play handle later
        (program.play handle drawn state).2 := by
  induction program generalizing drawn state with
  | ret value => exact ⟨drawn, rfl⟩
  | op operation next ih => exact ih _ _ _

/-- Every execution is the one on some stream. -/
theorem runs_play {Input : Type} [Nonempty Input]
    {handle : Input → (operation : S.Op) → State → S.Res operation × State}
    {program : Program S Value} {state after : State} {value : Value}
    (run : program.Runs (Answers handle) state value after) :
    ∃ drawn : Nat → Input, program.play handle drawn state = (value, after) := by
  induction program generalizing state with
  | ret output =>
      obtain ⟨rfl, rfl⟩ := run
      exact ⟨fun _ => Classical.arbitrary Input, rfl⟩
  | op operation next ih =>
      obtain ⟨answer, middle, ⟨input, taken⟩, later⟩ := run
      obtain ⟨drawn, rest⟩ := ih answer later
      refine ⟨fun index => match index with
        | 0 => input
        | index + 1 => drawn index, ?_⟩
      rw [play_op, taken]
      exact rest

/-- Part of an execution: the program has come from one point to another. -/
inductive Leads (step : (operation : S.Op) → State → S.Res operation → State → Prop)
    (program : Program S Value) (state : State) : Program S Value → State → Prop where
  | refl : Leads step program state program state
  | op {operation next middle answer after}
      (before : Leads step program state (.op operation next) middle)
      (taken : step operation middle answer after) : Leads step program state (next answer) after

theorem Leads.runs {step : (operation : S.Op) → State → S.Res operation → State → Prop}
    {program rest : Program S Value} {state middle after : State} {value : Value}
    (part : program.Leads step state rest middle) (run : rest.Runs step middle value after) :
    program.Runs step state value after := by
  induction part with
  | refl => exact run
  | op before taken ih => exact ih ⟨_, _, taken, run⟩

/-! One signature's operations as programs of another. -/
section Translation
variable {T : Sig}

def translate (each : (operation : S.Op) → Program T (S.Res operation)) :
    Program S Value → Program T Value
  | ret value => ret value
  | op operation next => each operation >>= fun answer => (next answer).translate each

theorem translate_bind (each : (operation : S.Op) → Program T (S.Res operation))
    (program : Program S Value) (rest : Value → Program S Output) :
    (program >>= rest).translate each =
      program.translate each >>= fun value => (rest value).translate each := by
  induction program with
  | ret value => rfl
  | op operation next ih =>
      rw [op_bind, translate, translate, bind_assoc]
      exact congrArg _ (funext ih)

theorem runs_bind {step : (operation : S.Op) → State → S.Res operation → State → Prop}
    {program : Program S Value} {rest : Value → Program S Output} {state after : State}
    {output : Output} :
    (program >>= rest).Runs step state output after ↔
      ∃ value middle, program.Runs step state value middle ∧
        (rest value).Runs step middle output after := by
  induction program generalizing state with
  | ret value =>
      constructor
      · intro run
        exact ⟨value, state, ⟨rfl, rfl⟩, run⟩
      · rintro ⟨_, _, ⟨rfl, rfl⟩, run⟩
        exact run
  | op operation next ih =>
      constructor
      · rintro ⟨answer, middle, taken, run⟩
        obtain ⟨value, later, first, second⟩ := (ih answer).mp run
        exact ⟨value, later, ⟨answer, middle, taken, first⟩, second⟩
      · rintro ⟨value, later, ⟨answer, middle, taken, first⟩, second⟩
        exact ⟨answer, middle, taken, (ih answer).mpr ⟨value, later, first, second⟩⟩

/-- If each operation's program does what the operation does, so does the whole. -/
theorem runs_translate
    {step : (operation : S.Op) → State → S.Res operation → State → Prop}
    {finer : (operation : T.Op) → State → T.Res operation → State → Prop}
    {each : (operation : S.Op) → Program T (S.Res operation)}
    (same : ∀ operation state answer after,
      (each operation).Runs finer state answer after ↔ step operation state answer after)
    {program : Program S Value} {state after : State} {value : Value} :
    (program.translate each).Runs finer state value after ↔ program.Runs step state value after := by
  induction program generalizing state with
  | ret value => exact Iff.rfl
  | op operation next ih =>
      rw [translate, runs_bind]
      simp only [same, ih]
      rfl

end Translation

end Program

/-! A discipline is a contract over the history of the program: which operation
it may perform after which events. It names no store, so checking a program
against it is a matter of reading the program. -/
abbrev Event (S : Sig) := (operation : S.Op) × S.Res operation

structure Discipline (S : Sig) where
  possible : (operation : S.Op) → S.Res operation → Prop
  allowed : List (Event S) → S.Op → Prop

namespace Discipline
variable {S : Sig}

/-- The latest event stands first. -/
def contract (discipline : Discipline S) : Contract S (List (Event S)) :=
  fun operation post history => discipline.allowed history operation ∧
    ∀ answer, discipline.possible operation answer → post answer (⟨operation, answer⟩ :: history)

theorem contract_monotone (discipline : Discipline S) : discipline.contract.Monotone :=
  fun _ _ _ _ implies holds =>
    ⟨holds.1, fun answer can => implies _ _ (holds.2 answer can)⟩

end Discipline

/-- Nothing happened since but permitted operations. -/
def Grown {S : Sig} (permits : S.Op → Bool) (history after : List (Event S)) : Prop :=
  ∃ newer, after = newer ++ history ∧ ∀ event ∈ newer, permits event.1 = true

namespace Grown
variable {S : Sig} {permits : S.Op → Bool} {history middle after : List (Event S)} {event : Event S}

theorem refl (history : List (Event S)) : Grown permits history history :=
  ⟨[], rfl, fun _ none => absurd none List.not_mem_nil⟩

theorem cons (grown : Grown permits history after) (permitted : permits event.1 = true) :
    Grown permits history (event :: after) := by
  obtain ⟨newer, rfl, among⟩ := grown
  exact ⟨event :: newer, rfl, List.forall_mem_cons.mpr ⟨permitted, among⟩⟩

theorem trans (first : Grown permits history middle) (second : Grown permits middle after) :
    Grown permits history after := by
  obtain ⟨newer, rfl, among⟩ := first
  obtain ⟨newest, rfl, amongst⟩ := second
  refine ⟨newest ++ newer, by rw [List.append_assoc], fun event member => ?_⟩
  exact (List.mem_append.mp member).elim (amongst event) (among event)

theorem mono {wider : S.Op → Bool}
    (implies : ∀ operation, permits operation = true → wider operation = true)
    (grown : Grown permits history after) : Grown wider history after := by
  obtain ⟨newer, split, among⟩ := grown
  exact ⟨newer, split, fun event member => implies event.1 (among event member)⟩

theorem mem (grown : Grown permits history after) (member : event ∈ history) : event ∈ after := by
  obtain ⟨newer, rfl, _⟩ := grown
  exact List.mem_append_right newer member

/-- What is not permitted happened before. -/
theorem mem_before (grown : Grown permits history after) (member : event ∈ after)
    (refused : permits event.1 = false) : event ∈ history := by
  obtain ⟨newer, rfl, among⟩ := grown
  rcases List.mem_append.mp member with new | old
  · rw [among event new] at refused
    cases refused
  · exact old

end Grown

/-! The same program run with a record of what it did and was told. -/
namespace Program
section Traced
variable {S : Sig} {State Value Input : Type}

/-- The latest event stands first. -/
def traced (handle : Input → (operation : S.Op) → State → S.Res operation × State)
    (input : Input) (operation : S.Op) (state : State × List (Event S)) :
    S.Res operation × State × List (Event S) :=
  let taken := handle input operation state.1
  (taken.1, taken.2, ⟨operation, taken.1⟩ :: state.2)

theorem runs_traced {handle : Input → (operation : S.Op) → State → S.Res operation × State}
    {program : Program S Value} {state after : State} {value : Value} (past : List (Event S)) :
    (∃ trace, program.Runs (Answers (traced handle)) (state, past) value (after, trace)) ↔
      program.Runs (Answers handle) state value after := by
  induction program generalizing state past with
  | ret output =>
      constructor
      · rintro ⟨trace, same, ended⟩
        exact ⟨same, congrArg Prod.fst ended⟩
      · rintro ⟨same, rfl⟩
        exact ⟨past, same, rfl⟩
  | op operation next ih =>
      constructor
      · rintro ⟨trace, _, _, ⟨input, ⟨⟩⟩, later⟩
        exact ⟨_, _, ⟨input, rfl⟩, (ih _ _).mp ⟨trace, later⟩⟩
      · rintro ⟨answer, middle, ⟨input, taken⟩, later⟩
        obtain ⟨trace, rest⟩ := (ih answer (⟨operation, answer⟩ :: past)).mpr later
        exact ⟨trace, answer, _, ⟨input, by rw [traced, taken]⟩, rest⟩

end Traced
end Program

namespace Program
variable {S : Sig} {Value Output Item : Type} {permits : S.Op → Bool}

/-- Whatever the answers, the program performs only permitted operations. -/
def Only (permits : S.Op → Bool) : Program S Value → Prop
  | ret _ => True
  | op operation next => permits operation = true ∧ ∀ answer, (next answer).Only permits

theorem only_bind {program : Program S Value} {rest : Value → Program S Output}
    (first : program.Only permits) (second : ∀ value, (rest value).Only permits) :
    (program >>= rest).Only permits := by
  induction program with
  | ret value => exact second value
  | op operation next ih => exact ⟨first.1, fun answer => ih answer (first.2 answer)⟩

theorem only_translate {T : Sig} {each : (operation : S.Op) → Program T (S.Res operation)}
    {finer : T.Op → Bool} {program : Program S Value} (only : program.Only permits)
    (those : ∀ operation, permits operation = true → (each operation).Only finer) :
    (program.translate each).Only finer := by
  induction program with
  | ret value => trivial
  | op operation next ih =>
      exact only_bind (those operation only.1) fun answer => ih answer (only.2 answer)

theorem only_foldlM {body : Value → Item → Program S Value}
    (each : ∀ value item, (body value item).Only permits) (items : List Item) (value : Value) :
    (items.foldlM body value).Only permits := by
  induction items generalizing value with
  | nil => trivial
  | cons item rest ih =>
      rw [List.foldlM_cons]
      exact only_bind (each value item) ih

theorem only_forM {body : Item → Program S Unit} (each : ∀ item, (body item).Only permits)
    (items : List Item) : (items.forM body).Only permits := by
  induction items with
  | nil => trivial
  | cons item rest ih => exact only_bind (each item) fun _ => ih

theorem only_mono {wider : S.Op → Bool} (implies : ∀ operation, permits operation = true →
      wider operation = true) (program : Program S Value) (only : program.Only permits) :
    program.Only wider := by
  induction program with
  | ret value => trivial
  | op operation next ih =>
      exact ⟨implies operation only.1, fun answer => ih answer (only.2 answer)⟩

/-- What every permitted step keeps, a program of such steps keeps. -/
theorem keeps_of_only {State : Type}
    (step : (operation : S.Op) → State → S.Res operation → State → Prop) (keeps : State → Prop)
    (kept : ∀ operation state answer after, permits operation = true → keeps state →
      step operation state answer after → keeps after)
    (program : Program S Value) (only : program.Only permits) (state : State)
    (start : keeps state) :
    program.wp (Contract.demonic step) (fun _ => keeps) state := by
  induction program generalizing state with
  | ret value => exact start
  | op operation next ih =>
      intro answer after taken
      have reached := kept operation state answer after only.1 start taken
      exact ih answer (only.2 answer) after reached

theorem wp_of_only {discipline : Discipline S}
    (harmless : ∀ history operation, permits operation = true →
      discipline.allowed history operation)
    (program : Program S Value) (only : program.Only permits) (history : List (Event S)) :
    program.wp discipline.contract (fun _ _ => True) history := by
  induction program generalizing history with
  | ret value => trivial
  | op operation next ih =>
      exact ⟨harmless history operation only.1, fun answer _ => ih answer (only.2 answer) _⟩

/-- Where everything is allowed, every program complies. -/
theorem wp_free {discipline : Discipline S} (free : ∀ history operation,
      discipline.allowed history operation) (program : Program S Value) (history : List (Event S)) :
    program.wp discipline.contract (fun _ _ => True) history := by
  induction program generalizing history with
  | ret value => trivial
  | op operation next ih => exact ⟨free history operation, fun answer _ => ih answer _⟩

/-- The same where the permitted operations also keep the history in a certain state. -/
theorem wp_of_kept {discipline : Discipline S} {keeps : List (Event S) → Prop}
    (harmless : ∀ history operation, permits operation = true → keeps history →
      discipline.allowed history operation ∧ ∀ answer, keeps (⟨operation, answer⟩ :: history))
    (program : Program S Value) (only : program.Only permits) (history : List (Event S))
    (start : keeps history) : program.wp discipline.contract (fun _ => keeps) history := by
  induction program generalizing history with
  | ret value => exact start
  | op operation next ih =>
      obtain ⟨allowed, kept⟩ := harmless history operation only.1 start
      exact ⟨allowed, fun answer _ => ih answer (only.2 answer) _ (kept answer)⟩

/-- What a program whose operations are permitted brings about, and nothing else happened. -/
theorem wp_grown {discipline : Discipline S} {post : Value → List (Event S) → Prop}
    (program : Program S Value) (only : program.Only permits) {start history : List (Event S)}
    (grown : Grown permits start history) (complies : program.wp discipline.contract post history) :
    program.wp discipline.contract (fun value after => post value after ∧ Grown permits start after)
      history := by
  induction program generalizing history with
  | ret value => exact ⟨complies, grown⟩
  | op operation next ih =>
      exact ⟨complies.1, fun answer can =>
        ih answer (only.2 answer) (grown.cons only.1) (complies.2 answer can)⟩

/-- A discipline that permits more and expects more of the answers is easier to keep. -/
theorem wp_weaken {strict loose : Discipline S}
    (possible : ∀ operation answer, loose.possible operation answer →
      strict.possible operation answer)
    (allowed : ∀ history operation, strict.allowed history operation →
      loose.allowed history operation)
    (program : Program S Value) {post : Value → List (Event S) → Prop} (history : List (Event S))
    (complies : program.wp strict.contract post history) :
    program.wp loose.contract post history := by
  induction program generalizing history with
  | ret value => exact complies
  | op operation next ih =>
      exact ⟨allowed history operation complies.1, fun answer can =>
        ih answer _ (complies.2 answer (possible operation answer can))⟩

/-- What is expected of the answers to operations the program never performs does not matter. -/
theorem wp_weaken_only {strict loose : Discipline S}
    (possible : ∀ operation answer, permits operation = true →
      loose.possible operation answer → strict.possible operation answer)
    (allowed : ∀ history operation, strict.allowed history operation →
      loose.allowed history operation)
    (program : Program S Value) (only : program.Only permits)
    {post : Value → List (Event S) → Prop} (history : List (Event S))
    (complies : program.wp strict.contract post history) :
    program.wp loose.contract post history := by
  induction program generalizing history with
  | ret value => exact complies
  | op operation next ih =>
      exact ⟨allowed history operation complies.1, fun answer can =>
        ih answer (only.2 answer) _ (complies.2 answer (possible operation answer only.1 can))⟩

end Program
end Library
