import NoMiddle.Solo

/-! What a snapshot that is not accepted leaves behind. The group is recorded before the
members are read, and the old list is deleted before the new one is inserted, so a
rejection is without effect only where the first changes nothing and the second is not
reached. -/
namespace NoMiddle.Rejection
open Library Text DbManager DbViews Node Handlers Solo

/-- What the handler has read when it records the group. -/
structure Header where
  dataJson : Json
  groupId : Str
  senderId : Str
  groupName : Str

def header : Option Json → Option Header
  | none => none
  | some dataJson =>
      match dataJson.hasAll? ["group_id", "members"], dataJson.s? "group_id",
        (if dataJson.has "sender_id" then dataJson.s? "sender_id" else some []),
        (if dataJson.has "name" then dataJson.s? "name" else some []) with
      | some true, some groupId, some senderId, some groupName =>
          some ⟨dataJson, groupId, senderId, groupName⟩
      | _, _, _, _ => none

/-- The three texts of one entry, unless one of them is missing or no string. -/
def memberEntry (e : Json) : Option (Str × Str × Str) :=
  match e.s? "member_id", e.s? "server_address", e.s? "role" with
  | some memberId, some serverAddress, some role => some (memberId, serverAddress, role)
  | _, _, _ => none

def memberEntries (dataJson : Json) : Option (List (Str × Str × Str)) :=
  match dataJson.items? "members" with
  | some entries => entries.mapM memberEntry
  | none => none

/-- The handler after it has recorded the group. -/
def storeMembers (dataJson : Json) (groupId : Str) : Proc Response := do
  let some entries := dataJson.items? "members" | return thrown
  let some members ← entries.foldlM (readMember groupId) (some []) | return thrown
  if !(← call (.replaceGroupMembers groupId members)) then
    return error 500 "Failed to store snapshot"
  return ⟨200, .empty⟩

/-- The group is there and the name, where one is given, is the one it has. -/
def RecordsNothing (store : Store) (sent : Header) : Prop :=
  ∃ g, store.groups.find (cstr sent.groupId) = some g ∧
    (sent.groupName = [] ∨ cstr sent.groupName = g.name)

/-- Where the members cannot be read, nothing was recorded; where they can, they are all
stored. -/
def Harmless (store : Store) (body : Option Json) : Prop :=
  ∀ sent, header body = some sent →
    match memberEntries sent.dataJson with
    | none => RecordsNothing store sent
    | some entries => (entries.map fun e => cstr e.1).Nodup

/-- A response other than 200 leaves both tables as they were. -/
def Spares (store : Store) (response : Response) (after : Desk) : Prop :=
  response.code ≠ 200 →
    after.store.groups = store.groups ∧ after.store.groupMembers = store.groupMembers

variable {Value : Type} {post : Value → Desk → Prop} {store : Store}
  {sent : List (Request × Option Response)}

theorem accept_cases (body : Option Json) :
    (header body = none ∧ ∃ response, response.code ≠ 200 ∧
      acceptGroupUpdate body = .ret response) ∨
    ∃ read, header body = some read ∧ acceptGroupUpdate body =
      recordGroup read.groupId read.senderId read.groupName >>= fun _ =>
        storeMembers read.dataJson read.groupId := by
  cases body with
  | none => exact .inl ⟨rfl, _, by decide, rfl⟩
  | some dataJson =>
      unfold header acceptGroupUpdate
      dsimp only
      cases dataJson.hasAll? ["group_id", "members"] with
      | none => exact .inl ⟨rfl, _, by decide, rfl⟩
      | some present =>
      cases present with
      | false => exact .inl ⟨rfl, _, by decide, rfl⟩
      | true =>
      cases dataJson.s? "group_id" with
      | none => exact .inl ⟨rfl, _, by decide, rfl⟩
      | some groupId =>
      generalize (if dataJson.has "sender_id" then dataJson.s? "sender_id" else some []) = sender
      cases sender with
      | none => exact .inl ⟨rfl, _, by decide, rfl⟩
      | some senderId =>
      generalize (if dataJson.has "name" then dataJson.s? "name" else some []) = name
      cases name with
      | none => exact .inl ⟨rfl, _, by decide, rfl⟩
      | some groupName => exact .inr ⟨_, rfl, rfl⟩

theorem perform_iff {operation : LocalOp} {rest : operation.Res → Proc Value} {desk : Desk} :
    (perform operation >>= rest).wp contract post desk ↔
      ∀ input, (rest (handle input operation desk.store).1).wp contract post
        ⟨(handle input operation desk.store).2, desk.sent⟩ := by
  constructor
  · intro holds input
    exact holds _ _ ⟨(input, none), rfl⟩
  · exact wp_perform

theorem call_iff {db : Call} {rest : db.Res → Proc Value} {desk : Desk} :
    (call db >>= rest).wp contract post desk ↔
      ∀ now, (rest (db.exec now desk.store).1).wp contract post
        ⟨(db.exec now desk.store).2, desk.sent⟩ := by
  constructor
  · intro holds now
    exact perform_iff.mp holds ⟨now, fun _ => 0, fun _ => 0, 0⟩
  · exact wp_call

theorem time_iff {rest : Int → Proc Value} {desk : Desk} :
    (time >>= rest).wp contract post desk ↔ ∀ now, (rest now).wp contract post desk := by
  constructor
  · intro holds now
    exact perform_iff.mp holds ⟨now, fun _ => 0, fun _ => 0, 0⟩
  · exact wp_time

theorem uninitialised_iff {rest : Int → Proc Value} {desk : Desk} :
    (uninitialised >>= rest).wp contract post desk ↔
      ∀ value, (rest value).wp contract post desk := by
  constructor
  · intro holds value
    exact perform_iff.mp holds ⟨0, fun _ => 0, fun _ => 0, value⟩
  · exact wp_uninitialised

/-- What `record_group` makes of the groups at a given time. -/
def recorded (createdAt : Int) (read : Header) (groups : Groups) : Groups :=
  match groups.find (cstr read.groupId) with
  | none => createGroup ⟨read.groupId,
      if read.groupName.isEmpty then read.groupId else read.groupName, read.senderId, createdAt⟩
      groups
  | some g =>
      if !read.groupName.isEmpty && g.name ≠ read.groupName then
        updateGroupName read.groupId read.groupName groups
      else groups

theorem recordGroup_iff {read : Header} {rest : Unit → Proc Value} :
    (recordGroup read.groupId read.senderId read.groupName >>= rest).wp contract post
        ⟨store, sent⟩ ↔
      ∀ createdAt, (rest ()).wp contract post
        ⟨{ store with groups := recorded createdAt read store.groups }, sent⟩ := by
  unfold recordGroup recorded
  rw [Program.bind_assoc, call_iff]
  simp only [Call.exec, forall_const]
  cases found : store.groups.find (cstr read.groupId) with
  | none =>
      change (time >>= fun createdAt => call (.createGroup ⟨_, _, _, createdAt⟩) >>= fun _ =>
        rest ()).wp contract post _ ↔ _
      rw [time_iff]
      apply forall_congr'
      intro createdAt
      rw [call_iff]
      exact ⟨fun holds => holds 0, fun holds _ => holds⟩
  | some g =>
      dsimp only
      split
      · change (call (.updateGroupName _ _) >>= fun _ => rest ()).wp contract post _ ↔ _
        rw [call_iff]
        rfl
      · exact (forall_const Int).symm

/-- The row a list entry is, but for the time nobody set. -/
def ident (m : GroupMember) : Str × Str × Str × Str :=
  (m.groupId, m.memberId, m.serverAddress, m.role)

theorem readMember_iff {groupId : Str} {before : List GroupMember} {e : Json}
    {rest : Option (List GroupMember) → Proc Value} {desk : Desk} :
    (readMember groupId (some before) e >>= rest).wp contract post desk ↔
      match memberEntry e with
      | none => (rest none).wp contract post desk
      | some entry => ∀ m, ident m = (groupId, entry) →
          (rest (some (before ++ [m]))).wp contract post desk := by
  unfold readMember memberEntry
  cases e.s? "member_id" with
  | none => rfl
  | some memberId =>
  cases e.s? "server_address" with
  | none => rfl
  | some serverAddress =>
  cases e.s? "role" with
  | none => rfl
  | some role =>
      change (uninitialised >>= fun addedAt => rest (some (before ++ [⟨groupId, memberId,
        serverAddress, role, addedAt⟩]))).wp contract post desk ↔ _
      rw [uninitialised_iff]
      constructor
      · rintro holds ⟨_, _, _, _, addedAt⟩ same
        cases same
        exact holds addedAt
      · intro holds addedAt
        exact holds _ rfl

theorem readMembers_none (groupId : Str) (entries : List Json)
    (rest : Option (List GroupMember) → Proc Value) :
    entries.foldlM (readMember groupId) none >>= rest = rest none := by
  induction entries with
  | nil => rfl
  | cons e later ih =>
      rw [List.foldlM_cons]
      exact ih

/-- The list read has the given entries and any times. -/
theorem readMembers_iff {groupId : Str} {before : List GroupMember} {entries : List Json}
    {rest : Option (List GroupMember) → Proc Value} {desk : Desk} :
    (entries.foldlM (readMember groupId) (some before) >>= rest).wp contract post desk ↔
      match entries.mapM memberEntry with
      | none => (rest none).wp contract post desk
      | some list => ∀ members : List GroupMember, members.map ident = list.map (groupId, ·) →
          (rest (some (before ++ members))).wp contract post desk := by
  induction entries generalizing before with
  | nil =>
      change (rest (some before)).wp contract post desk ↔
        ∀ members : List GroupMember, members.map ident = [] → _
      constructor
      · intro holds members same
        rw [List.map_eq_nil_iff.mp same, List.append_nil]
        exact holds
      · intro holds
        have none := holds [] rfl
        rwa [List.append_nil] at none
  | cons e later ih =>
      rw [List.foldlM_cons, Program.bind_assoc, readMember_iff, List.mapM_cons]
      cases memberEntry e with
      | none =>
          change (List.foldlM (readMember groupId) none later >>= rest).wp contract post desk ↔ _
          rw [readMembers_none]
          rfl
      | some entry =>
          simp only [ih]
          cases tail : later.mapM memberEntry with
          | none =>
              constructor
              · intro holds
                exact holds ⟨groupId, entry.1, entry.2.1, entry.2.2, 0⟩ rfl
              · intro holds m _
                exact holds
          | some list =>
              constructor
              · intro holds members same
                obtain ⟨m, others, rfl, first, following⟩ := List.map_eq_cons_iff.mp same
                have whole := holds m first others following
                rwa [List.append_assoc] at whole
              · intro holds m first others following
                rw [List.append_assoc]
                exact holds (m :: others) (by rw [List.map_cons, first, following]; rfl)

theorem storeMembers_iff {dataJson : Json} {groupId : Str} {post : Response → Desk → Prop} :
    (storeMembers dataJson groupId).wp contract post ⟨store, sent⟩ ↔
      match memberEntries dataJson with
      | none => post thrown ⟨store, sent⟩
      | some list => ∀ members : List GroupMember, members.map ident = list.map (groupId, ·) →
          post (if (replaceGroupMembers groupId members store.groupMembers).1 then ⟨200, .empty⟩
              else error 500 "Failed to store snapshot")
            ⟨{ store with
              groupMembers := (replaceGroupMembers groupId members store.groupMembers).2 }, sent⟩ := by
  unfold storeMembers memberEntries
  cases dataJson.items? "members" with
  | none => rfl
  | some entries =>
      dsimp only
      rw [readMembers_iff]
      cases entries.mapM memberEntry with
      | none => rfl
      | some list =>
          apply forall_congr'
          intro members
          apply imp_congr_right
          intro same
          change (call (.replaceGroupMembers groupId members) >>= _).wp contract post _ ↔ _
          rw [call_iff]
          cases stored : (replaceGroupMembers groupId members store.groupMembers).1 <;>
            simp only [Call.exec, stored, Bool.not_true, Bool.not_false,
              Bool.false_eq_true, ↓reduceIte] <;>
            exact ⟨fun holds => holds 0, fun holds _ => holds⟩

/-! When all entries are stored, and when the group is left as it is. -/

theorem inserted_iff (groupId : Str) (members : List GroupMember) (done : Bool × GroupMembers) :
    (members.foldl (insertMember groupId) done).1 = true ↔
      done.1 = true ∧ (members.map fun m => cstr m.memberId).Nodup ∧
        ∀ m ∈ members, done.2.has (cstr groupId, cstr m.memberId) = false := by
  induction members generalizing done with
  | nil => simp
  | cons m rest ih =>
      have looked : ∀ id, (insertMember groupId done m).2.has (cstr groupId, id) =
          (done.2.has (cstr groupId, id) || decide (cstr m.memberId = id)) := by
        intro id
        rw [Table.has, find_insertMember]
        by_cases same : cstr m.memberId = id <;> simp [same, Table.has]
      rw [List.foldl_cons, ih, List.map_cons, List.nodup_cons, List.forall_mem_cons]
      simp only [looked, Bool.or_eq_false_iff, decide_eq_false_iff_not, List.mem_map, not_exists,
        not_and]
      simp only [insertMember, Bool.and_eq_true, Bool.not_eq_true']
      constructor
      · rintro ⟨⟨fine, free⟩, distinct, others⟩
        exact ⟨fine, ⟨fun other member same => (others other member).2 same.symm, distinct⟩, free,
          fun other member => (others other member).1⟩
      · rintro ⟨fine, ⟨fresh, distinct⟩, free, others⟩
        exact ⟨⟨fine, free⟩, distinct, fun other member =>
          ⟨others other member, fun same => fresh other member same.symm⟩⟩

theorem replaced_iff (groupId : Str) (members : List GroupMember) (table : GroupMembers) :
    (replaceGroupMembers groupId members table).1 = true ↔
      (members.map fun m => cstr m.memberId).Nodup := by
  unfold replaceGroupMembers
  rw [inserted_iff]
  have cleared : ∀ id,
      (table.delete (·.groupId = cstr groupId)).has (cstr groupId, id) = false := by
    intro id
    rw [Table.has, Table.find_delete]
    cases found : table.find (cstr groupId, id) with
    | none => rfl
    | some row =>
        have key : row.groupId = cstr groupId := congrArg Prod.fst (table.find_key found)
        simp [Option.filter, key]
  simp [cleared]

theorem recorded_iff (read : Header) :
    (∀ createdAt, recorded createdAt read store.groups = store.groups) ↔
      RecordsNothing store read := by
  unfold recorded RecordsNothing
  cases found : store.groups.find (cstr read.groupId) with
  | none =>
      refine iff_of_false ?_ nofun
      intro same
      -- A new group takes its key.
      have there : (createGroup ⟨read.groupId, if read.groupName.isEmpty then read.groupId
          else read.groupName, read.senderId, 0⟩ store.groups).has (cstr read.groupId) = true :=
        store.groups.has_insert ⟨cstr read.groupId, _, _, 0⟩ (allClean_map [_, _, _])
      rw [show createGroup _ store.groups = store.groups from same 0, Table.has, found] at there
      cases there
  | some g =>
      have clean : cstr g.name = g.name := by
        have valid := store.groups.find_valid found
        simp only [AllClean, Group.texts, List.forall_mem_cons] at valid
        exact cstr_of_clean valid.2.1
      simp only [Option.some.injEq, exists_eq_left', forall_const]
      split
      · next renames =>
        simp only [Bool.and_eq_true, Bool.not_eq_true', List.isEmpty_eq_false_iff,
          decide_eq_true_eq] at renames
        simp only [renames.1, false_or]
        constructor
        · intro same
          have looked := store.groups.find_update (·.groupId = cstr read.groupId)
            (fun row => { row with name := cstr read.groupName }) (fun _ => rfl)
            (by
              intro row clean
              have cleanName := cstr_clean read.groupName
              simp only [AllClean, Group.texts, List.forall_mem_cons] at clean ⊢
              simp [clean, cleanName]) (cstr read.groupId)
          rw [show Table.update _ _ _ _ _ = store.groups from same, found] at looked
          have key := store.groups.find_key found
          simp only [Option.map_some, key, decide_true, ↓reduceIte, Option.some.injEq] at looked
          exact (congrArg Group.name looked).symm
        · intro same
          apply Table.rows_ext
          refine (List.map_congr_left fun row member => ?_).trans (List.map_id _)
          split
          · next here =>
            have same' := (store.groups.mem_rows_iff row).mp member
            rw [of_decide_eq_true here, found] at same'
            cases same'
            change ({ g with name := cstr read.groupName } : Group) = g
            rw [same]
          · rfl
      · next keeps =>
        refine iff_of_true rfl ?_
        simp only [Bool.and_eq_true, Bool.not_eq_true', List.isEmpty_eq_false_iff,
          decide_eq_true_eq, not_and, not_not] at keeps
        by_cases empty : read.groupName = []
        · exact .inl empty
        · rw [← keeps empty]
          exact .inr clean

/-- Read at a time no stored row has, a repeated list is stored in part and visibly so. -/
theorem repeated_differs {groupId : Str} {list : List (Str × Str × Str)} (table : GroupMembers)
    (repeated : ¬(list.map fun e => cstr e.1).Nodup) :
    ∃ members : List GroupMember, members.map ident = list.map (groupId, ·) ∧
      (replaceGroupMembers groupId members table).1 = false ∧
      (replaceGroupMembers groupId members table).2 ≠ table := by
  cases list with
  | nil => exact absurd List.nodup_nil repeated
  | cons e rest =>
      obtain ⟨unused, other⟩ : ∃ unused : Int, ∀ row,
          table.find (cstr groupId, cstr e.1) = some row → row.addedAt ≠ unused := by
        cases table.find (cstr groupId, cstr e.1) with
        | none => exact ⟨0, nofun⟩
        | some row =>
            refine ⟨row.addedAt + 1, ?_⟩
            rintro _ ⟨⟩
            omega
      let readAt : Str × Str × Str → GroupMember := fun entry =>
        ⟨groupId, entry.1, entry.2.1, entry.2.2, unused⟩
      refine ⟨(e :: rest).map readAt, by rw [List.map_map]; rfl, ?_, ?_⟩
      · rw [← Bool.not_eq_true, replaced_iff, List.map_map]
        exact repeated
      · intro same
        have stored := find_replaceGroupMembers groupId ((e :: rest).map readAt) table
          (cstr groupId) (cstr e.1)
        rw [same, if_pos rfl] at stored
        have first : entryFor groupId (cstr e.1) ((e :: rest).map readAt) =
            some ((readAt e).stored groupId) := by
          simp [entryFor, readAt]
        exact other _ (stored.trans first) rfl

/-- Every run spares the tables of a request it rejects exactly if the body is harmless. -/
theorem rejected_unchanged_iff (body : Option Json) (store : Store) :
    (∀ response after, Solo.Runs (acceptGroupUpdate body) ⟨store, []⟩ response after →
      Spares store response after) ↔ Harmless store body := by
  unfold Harmless
  apply Iff.trans (Program.wp_demonic_iff Solo.step _ (Spares store) ⟨store, []⟩).symm
  rcases accept_cases body with ⟨unread, response, _, refused⟩ | ⟨read, known, goesOn⟩
  · rw [refused]
    exact iff_of_true (fun _ => ⟨rfl, rfl⟩) (fun sent known => by rw [unread] at known; cases known)
  rw [goesOn, recordGroup_iff]
  simp only [storeMembers_iff, known, Option.some.injEq, forall_eq']
  cases readable : memberEntries read.dataJson with
  | none =>
      rw [← recorded_iff]
      apply forall_congr'
      intro createdAt
      exact ⟨fun spares => (spares (by decide)).1, fun same _ => ⟨same, rfl⟩⟩
  | some list =>
      dsimp only
      constructor
      · intro spares
        by_contra repeated
        obtain ⟨members, same, failed, differs⟩ := repeated_differs store.groupMembers repeated
        have kept := spares 0 members same
        rw [failed] at kept
        exact differs (kept (by decide)).2
      · intro distinct createdAt members same
        have stored : (replaceGroupMembers read.groupId members store.groupMembers).1 = true := by
          rw [replaced_iff]
          have ids := congrArg (List.map fun row => cstr row.2.1) same
          rw [List.map_map, List.map_map] at ids
          exact ids ▸ distinct
        rw [stored]
        exact fun failed => absurd rfl failed

/-- One entry that names nobody: the group is created before the handler throws. -/
def unreadable : Json :=
  .obj [("group_id", .str (str "g")), ("members", .arr [.obj []])]

/-- Two entries for one member: the old list is gone when the second is refused. -/
def repeating : Json :=
  let entry : Json := .obj [("member_id", .str (str "m")), ("server_address", .str (str "a")),
    ("role", .str (str "member"))]
  .obj [("group_id", .str (str "g")), ("members", .arr [entry, entry])]

/-- The group is there and has another member. -/
def settled : Store :=
  { Store.initial with
    groups := createGroup ⟨str "g", str "g", str "a", 0⟩ .empty
    groupMembers := (replaceGroupMembers (str "g") [⟨str "g", str "b", str "b", str "admin", 0⟩]
      .empty).2 }

theorem rejected_runs {body : Json} {store : Store}
    (fails : (((acceptGroupUpdate (some body)).exec Solo.act
      (List.replicate 10 (⟨0, fun _ => 0, fun _ => 0, 0⟩, none)) ⟨store, []⟩).any fun done =>
        decide (done.1.code = 500) &&
        (decide (done.2.store.groups.rows ≠ store.groups.rows) ||
          decide (done.2.store.groupMembers.rows ≠ store.groupMembers.rows))) = true) :
    ∃ response after, Solo.Runs (acceptGroupUpdate (some body)) ⟨store, []⟩ response after ∧
      ¬Spares store response after := by
  obtain ⟨⟨response, after⟩, executed, holds⟩ := (Option.any_eq_true _ _).mp fails
  simp only [Bool.and_eq_true, Bool.or_eq_true, decide_eq_true_eq] at holds
  refine ⟨response, after, Program.exec_runs Solo.act _ _ _ _ _ executed, fun spares => ?_⟩
  obtain ⟨groups, members⟩ := spares (by rw [holds.1]; decide)
  rcases holds.2 with differs | differs
  · exact differs (congrArg (·.rows) groups)
  · exact differs (congrArg (·.rows) members)

theorem rejected_changes :
    (∃ response after, Solo.Runs (acceptGroupUpdate (some unreadable)) ⟨Store.initial, []⟩
      response after ∧ ¬Spares Store.initial response after) ∧
    ∃ response after, Solo.Runs (acceptGroupUpdate (some repeating)) ⟨settled, []⟩
      response after ∧ ¬Spares settled response after :=
  ⟨rejected_runs (by decide +kernel), rejected_runs (by decide +kernel)⟩

end NoMiddle.Rejection
