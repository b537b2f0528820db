import Mathlib.Tactic

/-! A relational table with a primary key. Rows stand in insertion order, no two
rows share a key and every row is valid, so a table that breaks its constraints
cannot be built. Statements act on whole tables; `find` is the view the proofs
use, and one equation for each statement says what it does to that view. -/
namespace Library

structure Table (Key Row : Type) (key : Row → Key) (valid : Row → Prop) where
  rows : List Row
  unique : (rows.map key).Nodup
  clean : ∀ row ∈ rows, valid row

namespace Table
variable {Key Row : Type} [DecidableEq Key] {key : Row → Key} {valid : Row → Prop}

def empty : Table Key Row key valid := ⟨[], List.nodup_nil, by simp⟩

instance : Inhabited (Table Key Row key valid) := ⟨empty⟩

def find (table : Table Key Row key valid) (wanted : Key) : Option Row :=
  table.rows.find? fun row => decide (key row = wanted)

def has (table : Table Key Row key valid) (wanted : Key) : Bool := (table.find wanted).isSome

/-- A row whose key is taken violates the constraint and changes nothing. -/
def insert (table : Table Key Row key valid) (row : Row) (fits : valid row) :
    Table Key Row key valid :=
  if taken : key row ∈ table.rows.map key then table else
    { rows := table.rows ++ [row]
      unique := by
        rw [List.map_append, List.nodup_append]
        exact ⟨table.unique, by simp, by simpa using taken⟩
      clean := by
        intro other member
        rcases List.mem_append.mp member with old | new
        · exact table.clean other old
        · simpa [List.mem_singleton.mp new] using fits }

def update (table : Table Key Row key valid) (here : Row → Bool) (change : Row → Row)
    (keeps : ∀ row, key (change row) = key row)
    (fits : ∀ row, valid row → valid (change row)) : Table Key Row key valid where
  rows := table.rows.map fun row => if here row then change row else row
  unique := by
    have same : (table.rows.map fun row => if here row then change row else row).map key =
        table.rows.map key := by
      rw [List.map_map]
      apply List.map_congr_left
      intro row _
      by_cases hit : here row = true <;> simp [hit, keeps]
    rw [same]
    exact table.unique
  clean := by
    intro row member
    obtain ⟨old, present, rfl⟩ := List.mem_map.mp member
    split
    · exact fits old (table.clean old present)
    · exact table.clean old present

def delete (table : Table Key Row key valid) (here : Row → Bool) : Table Key Row key valid where
  rows := table.rows.filter fun row => !here row
  unique := table.unique.sublist (List.filter_sublist.map key)
  clean := fun row member => table.clean row (List.mem_of_mem_filter member)

theorem find_eq_some (table : Table Key Row key valid) (wanted : Key) (row : Row) :
    table.find wanted = some row ↔ row ∈ table.rows ∧ key row = wanted := by
  constructor
  · intro found
    exact ⟨List.mem_of_find?_eq_some found, by simpa using List.find?_some found⟩
  · rintro ⟨member, rfl⟩
    have distinct := List.inj_on_of_nodup_map table.unique
    cases found : table.find (key row) with
    | none =>
        have absent := List.find?_eq_none.mp found row member
        simp at absent
    | some other =>
        have same : key other = key row := by simpa using List.find?_some found
        rw [distinct (List.mem_of_find?_eq_some found) member same]

theorem find_eq_none (table : Table Key Row key valid) (wanted : Key) :
    table.find wanted = none ↔ ∀ row ∈ table.rows, key row ≠ wanted := by
  simp [find]

theorem find_key (table : Table Key Row key valid) {wanted : Key} {row : Row}
    (found : table.find wanted = some row) : key row = wanted :=
  ((table.find_eq_some wanted row).mp found).2

theorem find_valid (table : Table Key Row key valid) {wanted : Key} {row : Row}
    (found : table.find wanted = some row) : valid row :=
  table.clean row ((table.find_eq_some wanted row).mp found).1

theorem mem_rows_iff (table : Table Key Row key valid) (row : Row) :
    row ∈ table.rows ↔ table.find (key row) = some row := by
  simp [find_eq_some]

theorem has_iff (table : Table Key Row key valid) (wanted : Key) :
    table.has wanted = true ↔ ∃ row, table.find wanted = some row :=
  Option.isSome_iff_exists

@[simp] theorem find_empty (wanted : Key) :
    (empty : Table Key Row key valid).find wanted = none := rfl

theorem taken_iff (table : Table Key Row key valid) (wanted : Key) :
    wanted ∈ table.rows.map key ↔ table.has wanted = true := by
  rw [has_iff]
  simp only [List.mem_map, find_eq_some]

theorem rows_insert (table : Table Key Row key valid) (row : Row) (fits : valid row) :
    (table.insert row fits).rows =
      if table.has (key row) then table.rows else table.rows ++ [row] := by
  unfold insert
  by_cases taken : key row ∈ table.rows.map key
  · simp [taken, (table.taken_iff _).mp taken]
  · have fresh : table.has (key row) = false :=
      Bool.eq_false_iff.mpr fun there => taken ((table.taken_iff _).mpr there)
    simp [taken, fresh]

theorem mem_insert (table : Table Key Row key valid) {row other : Row} (fits : valid row)
    (member : other ∈ (table.insert row fits).rows) : other ∈ table.rows ∨ other = row := by
  rw [rows_insert] at member
  split at member
  · exact .inl member
  · simpa using member

theorem insert_kept (table : Table Key Row key valid) {row other : Row} (fits : valid row)
    (member : other ∈ table.rows) : other ∈ (table.insert row fits).rows := by
  rw [rows_insert]
  split
  · exact member
  · exact List.mem_append_left _ member

theorem insert_taken (table : Table Key Row key valid) (row : Row) (fits : valid row)
    (taken : table.has (key row) = true) : table.insert row fits = table := by
  unfold insert
  rw [dif_pos ((table.taken_iff _).mpr taken)]

/-- The old row wins a conflict. -/
theorem find_insert (table : Table Key Row key valid) (row : Row) (fits : valid row)
    (wanted : Key) :
    (table.insert row fits).find wanted =
      (table.find wanted).or (if key row = wanted then some row else none) := by
  unfold find
  rw [rows_insert]
  by_cases taken : table.has (key row) = true
  · obtain ⟨old, found⟩ := (table.has_iff _).mp taken
    by_cases same : key row = wanted
    · subst same
      unfold find at found
      simp [taken, found]
    · simp [taken, same]
  · have fresh : table.has (key row) = false := Bool.eq_false_iff.mpr taken
    simp only [fresh, Bool.false_eq_true, ↓reduceIte, List.find?_append]
    by_cases same : key row = wanted <;> simp [same]

/-- The first row of each key, in the order of the list. -/
def firsts (key : Row → Key) : List Row → List Row
  | [] => []
  | row :: rest => row :: (firsts key rest).filter fun other => decide (key other ≠ key row)

theorem mem_firsts (rows : List Row) (row : Row) :
    row ∈ firsts key rows ↔
      ∃ front back, rows = front ++ row :: back ∧ ∀ other ∈ front, key other ≠ key row := by
  induction rows with
  | nil => simp [firsts]
  | cons head rest ih =>
      simp only [firsts, List.mem_cons, List.mem_filter, decide_eq_true_eq, ih]
      constructor
      · rintro (rfl | ⟨⟨front, back, rfl, fresh⟩, differs⟩)
        · exact ⟨[], rest, rfl, nofun⟩
        · exact ⟨head :: front, back, rfl, List.forall_mem_cons.mpr ⟨Ne.symm differs, fresh⟩⟩
      · rintro ⟨front, back, same, fresh⟩
        cases front with
        | nil => exact .inl (List.cons.inj same).1.symm
        | cons first others =>
            obtain ⟨rfl, rfl⟩ := List.cons.inj same
            obtain ⟨differs, later⟩ := List.forall_mem_cons.mp fresh
            exact .inr ⟨⟨others, back, rfl, later⟩, Ne.symm differs⟩

/-- Where no key is repeated, every row is the first of its key. -/
theorem firsts_of_nodup {rows : List Row} (distinct : (rows.map key).Nodup) :
    firsts key rows = rows := by
  induction rows with
  | nil => rfl
  | cons row rest ih =>
      rw [List.map_cons, List.nodup_cons] at distinct
      rw [firsts, ih distinct.2, List.filter_eq_self.mpr]
      intro other member
      have there : key other ∈ rest.map key := List.mem_map_of_mem member
      exact decide_eq_true fun same => distinct.1 (same ▸ there)

section InsertAll
variable {Item : Type} (row : Item → Row) (fits : ∀ item, valid (row item))

/-- One insert after another; a conflict stops none that follow. -/
def insertAll (items : List Item) (table : Table Key Row key valid) : Table Key Row key valid :=
  items.foldl (fun done item => done.insert (row item) (fits item)) table

theorem rows_insertAll (items : List Item) (table : Table Key Row key valid) :
    (insertAll row fits items table).rows =
      table.rows ++ (firsts key (items.map row)).filter fun other => !table.has (key other) := by
  induction items generalizing table with
  | nil => simp [insertAll, firsts]
  | cons item rest ih =>
      change (insertAll row fits rest (table.insert (row item) (fits item))).rows = _
      -- What shares the row's key is left out afterwards, whether or not the row went in.
      have free : ∀ other, (!(table.insert (row item) (fits item)).has (key other)) =
          (!table.has (key other) && decide (key other ≠ key (row item))) := by
        intro other
        rw [has, find_insert]
        by_cases same : key (row item) = key other
        · simp [same]
        · simp [same, Ne.symm same, has]
      rw [ih, rows_insert, List.map_cons, firsts, List.filter_cons, List.filter_filter]
      by_cases taken : table.has (key (row item)) = true
      · simp only [taken, free, if_true, Bool.not_true, Bool.false_eq_true, if_false]
      · simp only [taken, free, Bool.not_false, if_true, Bool.false_eq_true, if_false,
          List.append_assoc, List.singleton_append]

end InsertAll

theorem find_update (table : Table Key Row key valid) (here : Row → Bool) (change : Row → Row)
    (keeps : ∀ row, key (change row) = key row)
    (fits : ∀ row, valid row → valid (change row)) (wanted : Key) :
    (table.update here change keeps fits).find wanted =
      (table.find wanted).map fun row => if here row then change row else row := by
  have sameKey : ∀ row, key (if here row then change row else row) = key row := by
    intro row
    by_cases hit : here row = true <;> simp [hit, keeps]
  simp [find, update, List.find?_map, sameKey]

theorem find_delete (table : Table Key Row key valid) (here : Row → Bool) (wanted : Key) :
    (table.delete here).find wanted = (table.find wanted).filter fun row => !here row := by
  cases found : table.find wanted with
  | none =>
      have absent := (table.find_eq_none wanted).mp found
      simp only [Option.filter_none, find_eq_none]
      exact fun row member => absent row (List.mem_of_mem_filter member)
  | some row =>
      obtain ⟨member, same⟩ := (table.find_eq_some wanted row).mp found
      by_cases hit : here row = true
      · simp only [Option.filter_some, hit, Bool.not_true, Bool.false_eq_true, ↓reduceIte,
          find_eq_none]
        intro other survives clash
        have equal := (table.mem_rows_iff other).mp (List.mem_of_mem_filter survives)
        rw [clash, found] at equal
        cases equal
        have kept := (List.mem_filter.mp survives).2
        simp [hit] at kept
      · simp only [Option.filter_some, hit, Bool.not_false, ↓reduceIte, find_eq_some]
        exact ⟨List.mem_filter.mpr ⟨member, by simp [hit]⟩, same⟩

/-- After an insert the key is taken, by the new row or by the one in its way. -/
theorem has_insert (table : Table Key Row key valid) (row : Row) (fits : valid row) :
    (table.insert row fits).has (key row) = true := by
  rw [has, find_insert]
  cases table.find (key row) <;> simp

theorem has_update (table : Table Key Row key valid) (here : Row → Bool) (change : Row → Row)
    (keeps : ∀ row, key (change row) = key row)
    (fits : ∀ row, valid row → valid (change row)) (wanted : Key) :
    (table.update here change keeps fits).has wanted = table.has wanted := by
  rw [has, find_update, Option.isSome_map]
  rfl

/-! What is left of the rows from one side, in their order. -/
section Seen
variable {View : Type} (view : Row → View)

theorem insert_extends (table : Table Key Row key valid) (row : Row) (fits : valid row) :
    table.rows.map view <+: (table.insert row fits).rows.map view := by
  rw [rows_insert]
  split
  · exact List.prefix_refl _
  · rw [List.map_append]
    exact List.prefix_append _ _

omit [DecidableEq Key] in
theorem update_extends (table : Table Key Row key valid) {here : Row → Bool} {change : Row → Row}
    {keeps : ∀ row, key (change row) = key row} {fits : ∀ row, valid row → valid (change row)}
    (unseen : ∀ row, view (change row) = view row) :
    table.rows.map view <+: (table.update here change keeps fits).rows.map view := by
  have same : (table.update here change keeps fits).rows.map view = table.rows.map view := by
    rw [update, List.map_map]
    refine List.map_congr_left fun row _ => ?_
    rw [Function.comp_apply]
    split
    · exact unseen row
    · rfl
  rw [same]

end Seen

omit [DecidableEq Key] in
theorem rows_ext {left right : Table Key Row key valid} (same : left.rows = right.rows) :
    left = right := by
  cases left
  cases right
  cases same
  rfl

end Table
end Library
