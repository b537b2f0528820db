import NoMiddle.DbManager

/-! What each call does to the rows the proofs look at. A call is described by its
effect on the one row with a given key; every other fact about it follows. -/
namespace NoMiddle.DbViews
open Library Text DbManager

/-- The effect on the message with the given id. -/
def onMessage (now : Int) (id : Str) : Call → Option Message → Option Message
  | .addMessage msg, row => row.or (if cstr msg.messageId = id then some msg.stored else none)
  | .updateMessages messageId recipientId mark, row =>
      row.map fun old => if addressed messageId recipientId old then mark.set now old else old
  | _, row => row

theorem messages_exec (now : Int) (store : Store) (call : Call) (id : Str) :
    (call.exec now store).2.messages.find id = onMessage now id call (store.messages.find id) := by
  cases call with
  | addMessage msg => exact store.messages.find_insert msg.stored msg.stored_clean id
  | updateMessages messageId recipientId mark =>
      simp only [Call.exec, updateMessages, Table.find_update, onMessage]
  | _ => rfl

/-- Where a row comes from: it was there, it was inserted or it was marked. -/
theorem onMessage_cases {now : Int} {id : Str} {call : Call} {old : Option Message}
    {row : Message} (after : onMessage now id call old = some row) :
    old = some row ∨
    (∃ msg, call = .addMessage msg ∧ old = none ∧ cstr msg.messageId = id ∧ row = msg.stored) ∨
    ∃ before messageId recipientId mark, call = .updateMessages messageId recipientId mark ∧
      old = some before ∧ addressed messageId recipientId before = true ∧
      row = mark.set now before := by
  cases call with
  | addMessage msg =>
      cases old with
      | some before => exact .inl after
      | none =>
          simp only [onMessage, Option.none_or] at after
          split at after
          · next same => exact .inr (.inl ⟨msg, rfl, rfl, same, (Option.some.inj after).symm⟩)
          · cases after
  | updateMessages messageId recipientId mark =>
      cases old with
      | none => cases after
      | some before =>
          simp only [onMessage, Option.map_some, Option.some.injEq] at after
          split at after
          · next hit =>
            exact .inr (.inr ⟨before, messageId, recipientId, mark, rfl, rfl, hit, after.symm⟩)
          · exact .inl (congrArg some after)
  | _ => exact .inl after

/-- A row that is there stays, as it was or marked. -/
theorem onMessage_some (now : Int) (id : Str) (call : Call) (row : Message) :
    onMessage now id call (some row) = some row ∨
    ∃ messageId recipientId mark, call = .updateMessages messageId recipientId mark ∧
      addressed messageId recipientId row = true ∧
      onMessage now id call (some row) = some (mark.set now row) := by
  cases call with
  | updateMessages messageId recipientId mark =>
      by_cases hit : addressed messageId recipientId row = true
      · exact .inr ⟨messageId, recipientId, mark, rfl, hit, by simp [onMessage, hit]⟩
      · exact .inl (by simp [onMessage, hit])
  | _ => exact .inl rfl

/-- The first entry of the list that names the member. -/
def entryFor (groupId memberId : Str) (members : List GroupMember) : Option GroupMember :=
  (members.find? fun m => cstr m.memberId = memberId).map (·.stored groupId)

/-- The effect on one row of `group_members`. -/
def onMember (groupId memberId : Str) : Call → Option GroupMember → Option GroupMember
  | .replaceGroupMembers other members, row =>
      if cstr other = groupId then entryFor other memberId members else row
  | .deleteGroup other, row => if cstr other = groupId then none else row
  | _, row => row

theorem find_insertMember (groupId : Str) (done : Bool × GroupMembers) (m : GroupMember)
    (key : Str × Str) :
    (insertMember groupId done m).2.find key = (done.2.find key).or
      (if (cstr groupId, cstr m.memberId) = key then some (m.stored groupId) else none) :=
  Table.find_insert done.2 (m.stored groupId)
    (allClean_map [groupId, m.memberId, m.serverAddress, m.role]) key

theorem foldl_insertMember (groupId : Str) (members : List GroupMember)
    (done : Bool × GroupMembers) (key : Str × Str) :
    (members.foldl (insertMember groupId) done).2.find key =
      (done.2.find key).or
        (if cstr groupId = key.1 then entryFor groupId key.2 members else none) := by
  induction members generalizing done with
  | nil => simp [entryFor]
  | cons m rest ih =>
      rw [List.foldl_cons, ih]
      obtain ⟨group, member⟩ := key
      rw [find_insertMember]
      by_cases same : cstr groupId = group
      · by_cases head : cstr m.memberId = member <;>
          simp [same, head, entryFor]
      · simp [same]

theorem find_replaceGroupMembers (other : Str) (members : List GroupMember)
    (table : GroupMembers) (groupId memberId : Str) :
    (replaceGroupMembers other members table).2.find (groupId, memberId) =
      if cstr other = groupId then entryFor other memberId members
      else table.find (groupId, memberId) := by
  simp only [replaceGroupMembers, foldl_insertMember, Table.find_delete]
  cases found : table.find (groupId, memberId) with
  | none => by_cases same : cstr other = groupId <;> simp [same]
  | some row =>
      have key := table.find_key found
      simp only [Prod.mk.injEq] at key
      by_cases same : cstr other = groupId
      · simp [same, Option.filter, key.1]
      · have different : ¬row.groupId = cstr other := fun h => same (h.symm.trans key.1)
        simp [same, different]

theorem groupMembers_exec (now : Int) (store : Store) (call : Call) (groupId memberId : Str) :
    (call.exec now store).2.groupMembers.find (groupId, memberId) =
      onMember groupId memberId call (store.groupMembers.find (groupId, memberId)) := by
  cases call with
  | replaceGroupMembers other members =>
      exact find_replaceGroupMembers other members store.groupMembers groupId memberId
  | deleteGroup other =>
      simp only [Call.exec, Table.find_delete, onMember]
      cases found : store.groupMembers.find (groupId, memberId) with
      | none => simp
      | some row =>
          have key := store.groupMembers.find_key found
          simp only [Prod.mk.injEq] at key
          by_cases same : cstr other = groupId
          · simp [same, Option.filter, key.1]
          · have different : ¬row.groupId = cstr other := fun h => same (h.symm.trans key.1)
            simp [same, different]
  | _ => rfl

/-- The effect on one row of `group_updates`. -/
def onGroupUpdate (now : Int) (key : Str × Str) : Call → Option GroupUpdate → Option GroupUpdate
  | .upsertGroupUpdate u, row =>
      if (cstr u.groupId, cstr u.memberId) = key then
        match row with
        | some old =>
            some { old with snapshotJson := u.snapshotJson, version := u.version, accepted := 0 }
        | none => some ⟨key.1, key.2, u.snapshotJson, u.version, 0, now⟩
      else row
  | .markGroupUpdateAccepted groupId memberId, row =>
      if (cstr groupId, cstr memberId) = key then
        row.map fun old => { old with accepted := 1 }
      else row
  | _, row => row

theorem find_upsertGroupUpdate (now : Int) (u : GroupUpdate) (updates : GroupUpdates)
    (key : Str × Str) :
    (upsertGroupUpdate now u updates).find key =
      if (cstr u.groupId, cstr u.memberId) = key then
        match updates.find key with
        | some old =>
            some { old with snapshotJson := u.snapshotJson, version := u.version, accepted := 0 }
        | none => some ⟨key.1, key.2, u.snapshotJson, u.version, 0, now⟩
      else updates.find key := by
  have updated := Table.find_update updates
    (fun row => row.groupId = cstr u.groupId && row.memberId = cstr u.memberId)
    (fun row => { row with snapshotJson := u.snapshotJson, version := u.version, accepted := 0 })
    (fun _ => rfl) (fun _ clean => clean) key
  have inserted := Table.find_insert updates
    ⟨cstr u.groupId, cstr u.memberId, u.snapshotJson, u.version, 0, now⟩ (allClean_map u.texts) key
  unfold upsertGroupUpdate
  split
  · next present =>
    refine updated.trans ?_
    cases found : updates.find key with
    | none =>
        have other : (cstr u.groupId, cstr u.memberId) ≠ key := by
          rintro rfl
          simp [Table.has, found] at present
        simp [other]
    | some old =>
        have same := updates.find_key found
        subst same
        by_cases hit : cstr u.groupId = old.groupId ∧ cstr u.memberId = old.memberId
        · simp [hit.1, hit.2]
        · have miss : ¬(old.groupId = cstr u.groupId ∧ old.memberId = cstr u.memberId) :=
            fun h => hit ⟨h.1.symm, h.2.symm⟩
          simp [hit, miss]
  · next absent =>
    refine inserted.trans ?_
    by_cases hit : (cstr u.groupId, cstr u.memberId) = key
    · subst hit
      cases found : updates.find (cstr u.groupId, cstr u.memberId) with
      | none => simp
      | some old => simp [Table.has, found] at absent
    · simp [hit]

theorem find_markGroupUpdateAccepted (groupId memberId : Str) (updates : GroupUpdates)
    (key : Str × Str) :
    (markGroupUpdateAccepted groupId memberId updates).find key =
      if (cstr groupId, cstr memberId) = key then
        (updates.find key).map fun old => { old with accepted := 1 }
      else updates.find key := by
  have updated := Table.find_update updates
    (fun row => row.groupId = cstr groupId && row.memberId = cstr memberId)
    (fun row => { row with accepted := 1 }) (fun _ => rfl) (fun _ clean => clean) key
  refine updated.trans ?_
  cases found : updates.find key with
  | none => simp
  | some old =>
      have same := updates.find_key found
      subst same
      by_cases hit : cstr groupId = old.groupId ∧ cstr memberId = old.memberId
      · simp [hit.1, hit.2]
      · have miss : ¬(old.groupId = cstr groupId ∧ old.memberId = cstr memberId) :=
          fun h => hit ⟨h.1.symm, h.2.symm⟩
        simp [hit, miss]

theorem groupUpdates_exec (now : Int) (store : Store) (call : Call) (key : Str × Str) :
    (call.exec now store).2.groupUpdates.find key =
      onGroupUpdate now key call (store.groupUpdates.find key) := by
  cases call with
  | upsertGroupUpdate u => exact find_upsertGroupUpdate now u store.groupUpdates key
  | markGroupUpdateAccepted groupId memberId =>
      exact find_markGroupUpdateAccepted groupId memberId store.groupUpdates key
  | _ => rfl

theorem mem_rows (query : Query) (messages : Messages) (row : Message) :
    row ∈ query.rows messages ↔
      messages.find row.messageId = some row ∧ query.selects row = true := by
  unfold Query.rows
  by_cases sorted : query.sorted = true
  · simp [sorted, (List.perm_insertionSort _ _).mem_iff, messages.mem_rows_iff]
  · simp [sorted, messages.mem_rows_iff]

theorem rows_nodup (query : Query) (messages : Messages) :
    ((query.rows messages).map (·.messageId)).Nodup := by
  have filtered : ((messages.rows.filter query.selects).map (·.messageId)).Nodup :=
    messages.unique.sublist (List.filter_sublist.map _)
  unfold Query.rows
  by_cases sorted : query.sorted = true
  · simp only [sorted, ↓reduceIte]
    exact ((List.perm_insertionSort _ _).map _).nodup_iff.mpr filtered
  · simpa [sorted] using filtered

theorem mem_groupMembersOf (groupId : Str) (table : GroupMembers) (m : GroupMember) :
    m ∈ groupMembersOf groupId table ↔
      m.groupId = cstr groupId ∧ table.find (cstr groupId, m.memberId) = some m := by
  simp only [groupMembersOf, (List.perm_insertionSort _ _).mem_iff, List.mem_filter,
    decide_eq_true_eq]
  constructor
  · rintro ⟨member, same⟩
    exact ⟨same, same ▸ (table.mem_rows_iff m).mp member⟩
  · rintro ⟨same, found⟩
    exact ⟨((table.find_eq_some _ m).mp found).1, same⟩

theorem groupMembersOf_nodup (groupId : Str) (table : GroupMembers) :
    ((groupMembersOf groupId table).map (·.memberId)).Nodup := by
  have distinct : ((groupMembersOf groupId table).map fun m => (m.groupId, m.memberId)).Nodup :=
    ((List.perm_insertionSort _ _).map _).nodup_iff.mpr
      (table.unique.sublist (List.filter_sublist.map _))
  rw [List.nodup_map_iff_inj_on (List.Nodup.of_map _ distinct)]
  intro a memberA b memberB same
  refine List.inj_on_of_nodup_map distinct memberA memberB ?_
  rw [((mem_groupMembersOf groupId table a).mp memberA).1,
    ((mem_groupMembersOf groupId table b).mp memberB).1, same]

theorem mem_pendingGroupUpdates (updates : GroupUpdates) (u : GroupUpdate) :
    u ∈ pendingGroupUpdates updates ↔
      updates.find (u.groupId, u.memberId) = some u ∧ u.accepted = 0 := by
  simp [pendingGroupUpdates, (List.perm_insertionSort _ _).mem_iff, updates.mem_rows_iff]

theorem pendingGroupUpdates_nodup (updates : GroupUpdates) :
    ((pendingGroupUpdates updates).map fun u => (u.groupId, u.memberId)).Nodup :=
  ((List.perm_insertionSort _ _).map _).nodup_iff.mpr
    (updates.unique.sublist (List.filter_sublist.map _))

end NoMiddle.DbViews
