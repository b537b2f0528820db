import NoMiddle.Rejection

/-! What replacing a member list makes of the table. The group's rows are deleted and the
entries of the list inserted one by one, so of several entries for one member the first is
stored and the others are refused. -/
namespace NoMiddle.MemberLists
open Library Text DbManager DbViews Rejection

/-- The key of a row. -/
def place (m : GroupMember) : Str × Str := (m.groupId, m.memberId)

section Rows
variable (groupId : Str) (members : List GroupMember)

theorem stored_fits (m : GroupMember) : AllClean (m.stored groupId).texts :=
  allClean_map [groupId, m.memberId, m.serverAddress, m.role]

theorem foldl_insertAll (done : Bool × GroupMembers) :
    (members.foldl (insertMember groupId) done).2 =
      Table.insertAll (·.stored groupId) (stored_fits groupId) members done.2 := by
  induction members generalizing done with
  | nil => rfl
  | cons m rest ih => exact ih (insertMember groupId done m)

/-- The rows that stay, and the first entry of each member behind them. -/
theorem rows_replaced (table : GroupMembers) :
    (replaceGroupMembers groupId members table).2.rows =
      table.rows.filter (fun row => !decide (row.groupId = cstr groupId)) ++
        Table.firsts place (members.map (·.stored groupId)) := by
  have kept : (table.delete (·.groupId = cstr groupId)).rows =
      table.rows.filter fun row => !decide (row.groupId = cstr groupId) := rfl
  unfold replaceGroupMembers
  rw [foldl_insertAll, Table.rows_insertAll, kept]
  congr 1
  apply List.filter_eq_self.mpr
  intro row member
  obtain ⟨front, back, split, _⟩ := (Table.mem_firsts _ row).mp member
  have among : row ∈ members.map (·.stored groupId) := by simp [split]
  obtain ⟨m, _, rfl⟩ := List.mem_map.mp among
  -- The group has no row left that could be in the way.
  have gone : (table.delete (·.groupId = cstr groupId)).find (place (m.stored groupId)) = none := by
    refine (Table.find_eq_none _ _).mpr fun other there same => ?_
    have out := (List.mem_filter.mp there).2
    have equal : other.groupId = cstr groupId := congrArg Prod.fst same
    simp [equal] at out
  exact congrArg (fun found : Option GroupMember => !found.isSome) gone

theorem firsts_group (row : GroupMember)
    (member : row ∈ Table.firsts place (members.map (·.stored groupId))) :
    row.groupId = cstr groupId := by
  obtain ⟨front, back, split, _⟩ := (Table.mem_firsts _ row).mp member
  have among : row ∈ members.map (·.stored groupId) := by simp [split]
  obtain ⟨m, _, rfl⟩ := List.mem_map.mp among
  rfl

/-- The group's own rows. -/
theorem own_rows_replaced (table : GroupMembers) :
    (replaceGroupMembers groupId members table).2.rows.filter
        (fun row => decide (row.groupId = cstr groupId)) =
      Table.firsts place (members.map (·.stored groupId)) := by
  have others : (table.rows.filter fun row => !decide (row.groupId = cstr groupId)).filter
      (fun row => decide (row.groupId = cstr groupId)) = [] := by
    simp
  rw [rows_replaced, List.filter_append, others, List.nil_append, List.filter_eq_self]
  exact fun row member => decide_eq_true (firsts_group groupId members row member)

theorem other_rows_replaced (table : GroupMembers) :
    (replaceGroupMembers groupId members table).2.rows.filter
        (fun row => !decide (row.groupId = cstr groupId)) =
      table.rows.filter fun row => !decide (row.groupId = cstr groupId) := by
  have own : (Table.firsts place (members.map (·.stored groupId))).filter
      (fun row => !decide (row.groupId = cstr groupId)) = [] := by
    apply List.filter_eq_nil_iff.mpr
    intro row member
    simp [firsts_group groupId members row member]
  rw [rows_replaced, List.filter_append, own, List.append_nil, List.filter_filter]
  simp

/-- The list that is read back. -/
theorem listing_replaced (table : GroupMembers) :
    groupMembersOf groupId (replaceGroupMembers groupId members table).2 =
      (Table.firsts place (members.map (·.stored groupId))).insertionSort
        (·.addedAt ≤ ·.addedAt) := by
  rw [groupMembersOf, own_rows_replaced]

/-- A list of distinct members is stored as a whole and read back in the order of its
times. -/
theorem listing_distinct {members : List GroupMember} (distinct : (members.map (·.memberId)).Nodup)
    (clean : ∀ m ∈ members, Clean m.memberId) (table : GroupMembers) :
    groupMembersOf groupId (replaceGroupMembers groupId members table).2 =
      (members.map (·.stored groupId)).insertionSort (·.addedAt ≤ ·.addedAt) := by
  have keys : (members.map (·.stored groupId)).map place =
      (members.map (·.memberId)).map (Prod.mk (cstr groupId)) := by
    rw [List.map_map, List.map_map]
    exact List.map_congr_left fun m member => Prod.ext rfl (cstr_of_clean (clean m member))
  have nodup : ((members.map (·.stored groupId)).map place).Nodup := by
    rw [keys]
    exact distinct.map (Prod.mk_right_injective _)
  rw [listing_replaced, Table.firsts_of_nodup nodup]

end Rows

/-- No entry before this one is for the same member. -/
def First (members : List GroupMember) (m : GroupMember) : Prop :=
  ∃ front back, members = front ++ m :: back ∧ ∀ other ∈ front, other.memberId ≠ m.memberId

/-- An entry whose texts are stored as they are. -/
def Plain (m : GroupMember) : Prop := Clean m.memberId ∧ Clean m.serverAddress ∧ Clean m.role

instance (m : GroupMember) : Decidable (Plain m) := inferInstanceAs (Decidable (_ ∧ _ ∧ _))

/-- What replacing the list of a group comes to. -/
structure Replaced (groupId : Str) (members : List GroupMember) (before after : Store)
    (answer : Bool) : Prop where
  rows : ∀ row, row ∈ after.groupMembers.rows ∧ row.groupId = groupId ↔
    ∃ m, First members m ∧ row = { m with groupId := groupId }
  listed : (groupMembersOf groupId after.groupMembers).Perm
    (after.groupMembers.rows.filter fun row => decide (row.groupId = groupId))
  ascending : (groupMembersOf groupId after.groupMembers).Pairwise (·.addedAt ≤ ·.addedAt)
  others : (after.groupMembers.rows.filter fun row => !decide (row.groupId = groupId)) =
    before.groupMembers.rows.filter fun row => !decide (row.groupId = groupId)
  untouched : after = { before with groupMembers := after.groupMembers }
  answers : answer = true ↔ (members.map (·.memberId)).Nodup

theorem stored_plain {groupId : Str} {m : GroupMember} (clean : Clean groupId) (plain : Plain m) :
    m.stored groupId = { m with groupId := groupId } := by
  obtain ⟨id, address, role⟩ := plain
  rw [GroupMember.stored, cstr_of_clean clean, cstr_of_clean id, cstr_of_clean address,
    cstr_of_clean role]

theorem mem_firsts_plain {groupId : Str} {members : List GroupMember} (clean : Clean groupId)
    (plain : ∀ m ∈ members, Plain m) (row : GroupMember) :
    row ∈ Table.firsts place (members.map (·.stored groupId)) ↔
      ∃ m, First members m ∧ row = { m with groupId := groupId } := by
  rw [Table.mem_firsts]
  constructor
  · rintro ⟨front, back, split, fresh⟩
    obtain ⟨before, rest, rfl, rfl, tail⟩ := List.map_eq_append_iff.mp split
    obtain ⟨m, after, rfl, rfl, rfl⟩ := List.map_eq_cons_iff.mp tail
    have plainM : Plain m := plain m (by simp)
    refine ⟨m, ⟨before, after, rfl, fun other member same => ?_⟩, stored_plain clean plainM⟩
    apply fresh _ (List.mem_map_of_mem member)
    rw [place, place, GroupMember.stored, GroupMember.stored, same]
  · rintro ⟨m, ⟨before, after, rfl, fresh⟩, rfl⟩
    rw [← stored_plain clean (plain m (by simp)), List.map_append, List.map_cons]
    refine ⟨_, _, rfl, ?_⟩
    rw [List.forall_mem_map]
    intro other member same
    have plainOther : Plain other := plain other (by simp [member])
    have ids : cstr other.memberId = cstr m.memberId := congrArg Prod.snd same
    rw [cstr_of_clean plainOther.1, cstr_of_clean (plain m (by simp)).1] at ids
    exact fresh other member ids

theorem replace_group_members_complete (now : Int) (store : Store) {groupId : Str}
    {members : List GroupMember} (clean : Clean groupId) (plain : ∀ m ∈ members, Plain m) :
    Replaced groupId members store (Call.exec now store (.replaceGroupMembers groupId members)).2
      (Call.exec now store (.replaceGroupMembers groupId members)).1 := by
  have key := cstr_of_clean clean
  have own := own_rows_replaced groupId members store.groupMembers
  have others := other_rows_replaced groupId members store.groupMembers
  rw [key] at own others
  refine ⟨fun row => ?_, ?_, ?_, others, rfl, ?_⟩
  · rw [← mem_firsts_plain clean plain row, ← own, List.mem_filter, decide_eq_true_eq]
    rfl
  · rw [groupMembersOf, key]
    exact List.perm_insertionSort _ _
  · exact List.pairwise_insertionSort _ _
  · refine (replaced_iff groupId members store.groupMembers).trans ?_
    rw [List.map_congr_left fun m member => cstr_of_clean (plain m member).1]

/-- Two entries for one member, and one for another that was there before both. -/
def repeated : List GroupMember :=
  [⟨[], str "m", str "first", str "admin", 2⟩, ⟨[], str "n", str "host", str "member", 1⟩,
    ⟨[], str "m", str "second", str "member", 0⟩]

theorem repeated_replaced : Replaced (str "g") repeated Store.initial
    (Call.exec 0 Store.initial (.replaceGroupMembers (str "g") repeated)).2 false :=
  replace_group_members_complete 0 Store.initial (by decide) (by decide)

end NoMiddle.MemberLists
