import Mathlib.Tactic

/-! What still holds of a record of events, the latest first: something happened and
nothing since took it back. -/
namespace Library

def Since {Event : Type} (gained lost : Event → Prop) (past : List Event) : Prop :=
  ∃ newer event older, past = newer ++ event :: older ∧ gained event ∧
    ∀ later ∈ newer, ¬lost later

namespace Since
variable {Event : Type} {gained lost : Event → Prop} {past : List Event} {latest : Event}

theorem not_nil : ¬Since gained lost [] := by
  rintro ⟨newer, event, older, split, _⟩
  cases newer <;> cases split

theorem now (gains : gained latest) : Since gained lost (latest :: past) :=
  ⟨[], latest, past, rfl, gains, fun _ member => absurd member List.not_mem_nil⟩

theorem cons_iff : Since gained lost (latest :: past) ↔
    gained latest ∨ (¬lost latest ∧ Since gained lost past) := by
  constructor
  · rintro ⟨newer, event, older, split, gains, kept⟩
    cases newer with
    | nil =>
        cases split
        exact .inl gains
    | cons first newer =>
        cases split
        exact .inr ⟨kept _ List.mem_cons_self, newer, event, older, rfl, gains,
          fun later member => kept later (List.mem_cons_of_mem _ member)⟩
  · rintro (gains | ⟨keeps, newer, event, older, rfl, gains, kept⟩)
    · exact now gains
    · refine ⟨latest :: newer, event, older, rfl, gains, ?_⟩
      intro later member
      rcases List.mem_cons.mp member with rfl | earlier
      · exact keeps
      · exact kept later earlier

/-- An event that neither gains nor loses changes nothing. -/
theorem cons_idle (ungained : ¬gained latest) (unlost : ¬lost latest) :
    Since gained lost (latest :: past) ↔ Since gained lost past :=
  cons_iff.trans ⟨fun either => (either.resolve_left ungained).2, fun older => .inr ⟨unlost, older⟩⟩

theorem append_idle {newer : List Event} (idle : ∀ event ∈ newer, ¬gained event ∧ ¬lost event) :
    Since gained lost (newer ++ past) ↔ Since gained lost past := by
  induction newer with
  | nil => rfl
  | cons event newer ih =>
      obtain ⟨here, rest⟩ := List.forall_mem_cons.mp idle
      exact (cons_idle here.1 here.2).trans (ih rest)

theorem mono {wider : Event → Prop} (implies : ∀ event, gained event → wider event)
    (since : Since gained lost past) : Since wider lost past := by
  obtain ⟨newer, event, older, split, gains, kept⟩ := since
  exact ⟨newer, event, older, split, implies event gains, kept⟩

/-- What no longer holds was lost after each time it was gained. -/
theorem lost_later (gone : ¬Since gained lost past) {newer older : List Event} {event : Event}
    (split : past = newer ++ event :: older) (gains : gained event) :
    ∃ later ∈ newer, lost later := by
  by_contra kept
  push Not at kept
  exact gone ⟨newer, event, older, split, gains, kept⟩

/-- What is only lost while it holds is lost no more often than it was gained, and less often
while it holds. -/
theorem countP_lost (gained lost : Event → Prop) [DecidablePred gained] [DecidablePred lost]
    (matched : ∀ newer event older, past = newer ++ event :: older → lost event →
      Since gained lost older) (disjoint : ∀ event, lost event → ¬gained event) :
    past.countP (lost ·) ≤ past.countP (gained ·) ∧
      (Since gained lost past → past.countP (lost ·) < past.countP (gained ·)) := by
  induction past with
  | nil => exact ⟨Nat.le_refl _, fun since => absurd since not_nil⟩
  | cons event older ih =>
      obtain ⟨atMost, less⟩ := ih fun newer other before split =>
        matched (event :: newer) other before (congrArg (event :: ·) split)
      by_cases gains : gained event
      · have unlost : ¬lost event := fun loses => disjoint event loses gains
        rw [List.countP_cons_of_neg (by simpa using unlost),
          List.countP_cons_of_pos (by simpa using gains)]
        exact ⟨Nat.le_succ_of_le atMost, fun _ => Nat.lt_succ_of_le atMost⟩
      · rw [List.countP_cons_of_neg (p := (gained ·)) (by simpa using gains)]
        by_cases loses : lost event
        · have fewer := less (matched [] event older rfl loses)
          rw [List.countP_cons_of_pos (by simpa using loses)]
          refine ⟨fewer, fun since => ?_⟩
          exact absurd loses ((cons_iff.mp since).resolve_left gains).1
        · rw [List.countP_cons_of_neg (by simpa using loses)]
          exact ⟨atMost, fun since => less ((cons_idle gains loses).mp since)⟩

end Since
end Library
