import Mathlib.Tactic

/-! The latest item of a list, looked up in two ways: as the last one in ascending order of
time and as the first one in descending order. Both sorts are stable, so among items of the
same time the first takes the last and the second the first, and the two agree exactly when
the latest time belongs to one item. -/
namespace Library.Latest

variable {Item Time : Type} [LinearOrder Time] (time : Item → Time)

def ascending (items : List Item) : List Item :=
  items.insertionSort (time · ≤ time ·)

def descending (items : List Item) : List Item :=
  items.insertionSort (time · ≥ time ·)

/-- No item of the list is later. -/
def Greatest (items : List Item) (item : Item) : Prop :=
  item ∈ items ∧ ∀ other ∈ items, time other ≤ time item

/-- Two latest items are one. -/
def Single (items : List Item) : Prop :=
  ∀ item other, Greatest time items item → Greatest time items other → item = other

variable {time} {items : List Item} {item : Item}

theorem ascending_perm (time : Item → Time) (items : List Item) : (ascending time items).Perm items :=
  List.perm_insertionSort _ items

theorem descending_perm (time : Item → Time) (items : List Item) : (descending time items).Perm items :=
  List.perm_insertionSort _ items

theorem ascending_sorted (time : Item → Time) (items : List Item) :
    (ascending time items).Pairwise (time · ≤ time ·) := by
  have : Std.Total fun left right : Item => time left ≤ time right :=
    ⟨fun left right => le_total _ _⟩
  have : IsTrans Item fun left right => time left ≤ time right := ⟨fun _ _ _ => le_trans⟩
  exact List.pairwise_insertionSort _ items

theorem descending_sorted (time : Item → Time) (items : List Item) :
    (descending time items).Pairwise (time · ≥ time ·) := by
  have : Std.Total fun left right : Item => time left ≥ time right :=
    ⟨fun left right => le_total _ _⟩
  have : IsTrans Item fun left right => time left ≥ time right :=
    ⟨fun _ _ _ first second => le_trans second first⟩
  exact List.pairwise_insertionSort _ items

theorem greatest_of_last (last : (ascending time items).getLast? = some item) :
    Greatest time items item := by
  obtain ⟨front, split⟩ := List.getLast?_eq_some_iff.mp last
  have sorted := ascending_sorted time items
  rw [split, List.pairwise_append] at sorted
  have mem : ∀ {other}, other ∈ items ↔ other ∈ front ∨ other = item := by
    intro other
    rw [← (ascending_perm time items).mem_iff, split, List.mem_append,
      List.mem_singleton]
  refine ⟨mem.mpr (.inr rfl), fun other member => ?_⟩
  rcases mem.mp member with before | rfl
  · exact sorted.2.2 other before item List.mem_cons_self
  · exact le_rfl

theorem greatest_of_first (first : (descending time items).head? = some item) :
    Greatest time items item := by
  obtain ⟨rest, split⟩ := List.head?_eq_some_iff.mp first
  have sorted := descending_sorted time items
  rw [split, List.pairwise_cons] at sorted
  have mem : ∀ {other}, other ∈ items ↔ other = item ∨ other ∈ rest := by
    intro other
    rw [← (descending_perm time items).mem_iff, split, List.mem_cons]
  refine ⟨mem.mpr (.inl rfl), fun other member => ?_⟩
  rcases mem.mp member with rfl | after
  · exact le_rfl
  · exact sorted.1 other after

/-- Two members of a list stand in one of two orders. -/
theorem pair_sublist {left right : Item} (items : List Item) (first : left ∈ items)
    (second : right ∈ items) (differ : left ≠ right) :
    [left, right].Sublist items ∨ [right, left].Sublist items := by
  induction items with
  | nil => cases first
  | cons head rest ih =>
      by_cases here : left = head
      · subst here
        have later := (List.mem_cons.mp second).resolve_left differ.symm
        exact .inl (.cons_cons _ (List.singleton_sublist.mpr later))
      have firstLater := (List.mem_cons.mp first).resolve_left here
      by_cases there : right = head
      · subst there
        exact .inr (.cons_cons _ (List.singleton_sublist.mpr firstLater))
      · have secondLater := (List.mem_cons.mp second).resolve_left there
        exact (ih firstLater secondLater).imp (.cons _) (.cons _)

/-- Without repetitions, nothing stands before the first item. -/
theorem not_before_first {other : Item} (distinct : items.Nodup)
    (first : items.head? = some item) : ¬[other, item].Sublist items := by
  intro pair
  obtain ⟨rest, rfl⟩ := List.head?_eq_some_iff.mp first
  have later : item ∈ rest := List.singleton_sublist.mp pair.tail
  exact (List.nodup_cons.mp distinct).1 later

/-- And nothing stands after the last one. -/
theorem not_after_last {other : Item} (distinct : items.Nodup)
    (last : items.getLast? = some item) : ¬[item, other].Sublist items := by
  intro pair
  have reversed : items.reverse.head? = some item := by rw [List.head?_reverse, last]
  exact not_before_first (List.nodup_reverse.mpr distinct) reversed pair.reverse

theorem last_eq_first_iff (distinct : items.Nodup) :
    (ascending time items).getLast? = (descending time items).head? ↔ Single time items := by
  constructor
  · intro same
    -- The other one stands before this item or after it, and each sort keeps that order.
    have alone : ∀ item, (descending time items).head? = some item →
        ∀ other, Greatest time items other → other = item := by
      intro item first other rival
      by_contra differ
      have latest := greatest_of_first first
      rcases pair_sublist items latest.1 rival.1 (Ne.symm differ) with before | after
      · have kept : [item, other].Sublist (ascending time items) :=
          List.pair_sublist_insertionSort (rival.2 item latest.1) before
        exact not_after_last ((ascending_perm time items).nodup_iff.mpr distinct) (same.trans first) kept
      · have kept : [other, item].Sublist (descending time items) :=
          List.pair_sublist_insertionSort (rival.2 item latest.1) after
        exact not_before_first ((descending_perm time items).nodup_iff.mpr distinct) first kept
    intro item other latest rival
    cases first : (descending time items).head? with
    | none =>
        have empty := (descending_perm time items).symm
        rw [List.head?_eq_none_iff.mp first] at empty
        rw [List.perm_nil.mp empty] at latest
        cases latest.1
    | some found => rw [alone found first item latest, alone found first other rival]
  · intro single
    cases last : (ascending time items).getLast? with
    | none =>
        have empty := (ascending_perm time items).symm
        rw [List.getLast?_eq_none_iff.mp last] at empty
        rw [List.perm_nil.mp empty]
        rfl
    | some item =>
        cases first : (descending time items).head? with
        | none =>
            have latest := (greatest_of_last last).1
            rw [← (descending_perm time items).mem_iff,
              List.head?_eq_none_iff.mp first] at latest
            cases latest
        | some other => rw [single item other (greatest_of_last last) (greatest_of_first first)]

end Library.Latest
