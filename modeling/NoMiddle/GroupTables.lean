import NoMiddle.GroupMembership
import NoMiddle.Rejection

/-! The three tables about groups. No foreign key ties them together, so the four routes
that write them have to keep every member and every pending update with its group and
every group with a member. -/
namespace NoMiddle.GroupTables
open Library Text Crypto DbManager DbViews Node MessageDelivery Handlers GroupHandlers Solo
open Network (userRequest clockAt registered pair)
open GroupMembership (remaining founded foundation admission)
open Rejection (Header header memberEntries storeMembers)

structure Consistent (store : Store) : Prop where
  members : ∀ m ∈ store.groupMembers.rows, store.groups.has m.groupId = true
  updates : ∀ u ∈ store.groupUpdates.rows, u.accepted = 0 → store.groups.has u.groupId = true
  groups : ∀ g ∈ store.groups.rows, ∃ m ∈ store.groupMembers.rows, m.groupId = g.groupId

/-! The ids the three tables know, which is all their consistency is about. -/

def grouped (store : Store) : Set Str := {id | store.groups.has id = true}
def peopled (store : Store) : Set Str := {id | ∃ m ∈ store.groupMembers.rows, m.groupId = id}

def awaited (store : Store) : Set Str :=
  {id | ∃ u ∈ store.groupUpdates.rows, u.accepted = 0 ∧ u.groupId = id}

theorem consistent_iff (store : Store) :
    Consistent store ↔ peopled store = grouped store ∧ awaited store ⊆ grouped store := by
  constructor
  · rintro ⟨members, updates, groups⟩
    constructor
    · ext id
      constructor
      · rintro ⟨m, member, rfl⟩
        exact members m member
      · intro known
        obtain ⟨g, found⟩ := (Table.has_iff _ _).mp known
        obtain ⟨among, rfl⟩ := (Table.find_eq_some _ _ _).mp found
        exact groups g among
    · rintro id ⟨u, member, pending, rfl⟩
      exact updates u member pending
  · rintro ⟨same, pending⟩
    refine ⟨?_, ?_, ?_⟩
    · intro m member
      have there : m.groupId ∈ peopled store := ⟨m, member, rfl⟩
      rwa [same] at there
    · intro u member waits
      exact pending ⟨u, member, waits, rfl⟩
    · intro g member
      have known : g.groupId ∈ grouped store :=
        (Table.has_iff _ _).mpr ⟨g, (Table.mem_rows_iff _ _).mp member⟩
      rwa [← same] at known

instance (store : Store) : Decidable (Consistent store) :=
  decidable_of_iff
    ((∀ m ∈ store.groupMembers.rows, store.groups.has m.groupId = true) ∧
      (∀ u ∈ store.groupUpdates.rows, u.accepted = 0 → store.groups.has u.groupId = true) ∧
      ∀ g ∈ store.groups.rows, ∃ m ∈ store.groupMembers.rows, m.groupId = g.groupId)
    ⟨fun ⟨members, updates, groups⟩ => ⟨members, updates, groups⟩,
      fun ⟨members, updates, groups⟩ => ⟨members, updates, groups⟩⟩

/-! The requests and what they ask for. -/
inductive Route where
  | create (req : HttpRequest)
  | addMember (req : HttpRequest) (group : PathId)
  | removeMember (req : HttpRequest) (group : PathId)
  | accept (body : Option Json)

section Requests
variable (sodium : Sodium) (keys : KeyPair)

def program : Route → Proc Response
  | .create req => groupsCreate sodium keys req
  | .addMember req group => GroupHandlers.addMember sodium keys req group
  | .removeMember req group => GroupHandlers.removeMember sodium keys req group
  | .accept body => acceptGroupUpdate body

/-- The credentials are those of a registered client. -/
def authed (req : HttpRequest) (store : Store) : Bool :=
  !(req.clientId.isEmpty || req.clientSecret.isEmpty) &&
    match store.clients.find (cstr req.clientId) with
    | none => false
    | some info => hashSecret sodium req.clientSecret info.salt = info.secretHash

/-- The request is let in and brings these strings. -/
def Asks (req : HttpRequest) (store : Store) (fields : List (String × Str)) : Prop :=
  authed sodium req store = true ∧ ∃ body, req.body = some body ∧
    ∀ field ∈ fields, body.s? field.1 = some field.2

/-- What the tables need of a request: members are added to a group that is there, a
group that loses its last member has no update pending, and a snapshot has an entry and,
where it tells of a new group, entries that can be read. -/
def Meets (store : Store) : Route → Prop
  | .create _ => True
  | .addMember req group => ∀ memberId serverAddress,
      Asks sodium req store [("member_id", memberId), ("server_address", serverAddress)] →
        group.text ∈ grouped store
  | .removeMember req group => ∀ memberId, Asks sodium req store [("member_id", memberId)] →
      remaining group.text memberId store = [] → group.text ∉ awaited store
  | .accept body => ∀ read, header body = some read →
      match memberEntries read.dataJson with
      | none => cstr read.groupId ∈ grouped store
      | some entries => entries ≠ []

/-- The request does nothing. -/
def Idles (store : Store) : Route → Prop
  | .create _ => True
  | .addMember req _ => ∀ memberId serverAddress,
      ¬Asks sodium req store [("member_id", memberId), ("server_address", serverAddress)]
  | .removeMember req group => ∀ memberId, Asks sodium req store [("member_id", memberId)] →
      (remaining group.text memberId store).length =
        (groupMembersOf group.text store.groupMembers).length
  | .accept body => header body = none

/-- All that a request can do to the known ids. -/
inductive Effect (before after : Store) : Route → Prop where
  | idle {route} (idles : Idles sodium before route) (same : after = before) :
      Effect before after route
  | created {req groupId} (grouped : grouped after = insert groupId (grouped before))
      (peopled : peopled after = insert groupId (peopled before))
      (awaited : awaited after = awaited before) : Effect before after (.create req)
  | added {req group memberId serverAddress}
      (asks : Asks sodium req before
        [("member_id", memberId), ("server_address", serverAddress)])
      (grouped : grouped after = grouped before)
      (peopled : peopled after = insert group.text (peopled before))
      (awaited : awaited after ⊆ insert group.text (awaited before)) :
      Effect before after (.addMember req group)
  | left {req group memberId} (asks : Asks sodium req before [("member_id", memberId)])
      (some : remaining group.text memberId before ≠ [])
      (grouped : grouped after = grouped before)
      (peopled : peopled after = insert group.text (peopled before))
      (awaited : awaited after ⊆ insert group.text (awaited before)) :
      Effect before after (.removeMember req group)
  | emptied {req group memberId} (asks : Asks sodium req before [("member_id", memberId)])
      (none : remaining group.text memberId before = [])
      (grouped : grouped after = grouped before \ {group.text})
      (peopled : peopled after = peopled before \ {group.text})
      (awaited : awaited after = awaited before) : Effect before after (.removeMember req group)
  | unread {body read} (known : header body = some read)
      (unreadable : memberEntries read.dataJson = none)
      (grouped : grouped after = insert (cstr read.groupId) (grouped before))
      (peopled : peopled after = peopled before)
      (awaited : awaited after = awaited before) : Effect before after (.accept body)
  | replaced {body read entries} (known : header body = some read)
      (readable : memberEntries read.dataJson = some entries)
      (grouped : grouped after = insert (cstr read.groupId) (grouped before))
      (peopled : peopled after =
        {id | if cstr read.groupId = id then entries ≠ [] else id ∈ peopled before})
      (awaited : awaited after = awaited before) : Effect before after (.accept body)

end Requests

/-! What each statement does to the known ids. -/
section Statements
variable {store : Store} {groupId : Str}

theorem mem_peopled {id : Str} :
    id ∈ peopled store ↔ ∃ memberId m, store.groupMembers.find (id, memberId) = some m := by
  constructor
  · rintro ⟨m, member, rfl⟩
    exact ⟨m.memberId, m, (Table.mem_rows_iff _ m).mp member⟩
  · rintro ⟨memberId, m, found⟩
    obtain ⟨member, key⟩ := (Table.find_eq_some _ _ _).mp found
    exact ⟨m, member, congrArg Prod.fst key⟩

theorem mem_awaited {id : Str} :
    id ∈ awaited store ↔
      ∃ memberId u, store.groupUpdates.find (id, memberId) = some u ∧ u.accepted = 0 := by
  constructor
  · rintro ⟨u, member, pending, rfl⟩
    exact ⟨u.memberId, u, (Table.mem_rows_iff _ u).mp member, pending⟩
  · rintro ⟨memberId, u, found, pending⟩
    obtain ⟨member, key⟩ := (Table.find_eq_some _ _ _).mp found
    exact ⟨u, member, pending, congrArg Prod.fst key⟩

/-- A list replaces the group's members, so they are there unless it is empty. -/
theorem peopled_replaced (now : Int) (members : List GroupMember) :
    peopled ((Call.replaceGroupMembers groupId members).exec now store).2 =
      {id | if cstr groupId = id then members ≠ [] else id ∈ peopled store} := by
  ext id
  simp only [mem_peopled, groupMembers_exec, onMember, Set.mem_ofPred_eq]
  split
  · cases members with
    | nil => simp [entryFor]
    | cons m rest => simpa using ⟨cstr m.memberId, m.stored groupId, by simp [entryFor]⟩
  · rfl

theorem replaced_nonempty {Item : Type} {entries : List Item} (some : entries ≠ []) :
    {id | if cstr groupId = id then entries ≠ [] else id ∈ peopled store} =
      insert (cstr groupId) (peopled store) := by
  ext id
  by_cases same : cstr groupId = id
  · simp [same, some]
  · simp [same, Ne.symm same]

theorem peopled_deleted (now : Int) :
    peopled ((Call.deleteGroup groupId).exec now store).2 = peopled store \ {cstr groupId} := by
  ext id
  simp only [mem_peopled, groupMembers_exec, onMember, Set.mem_sdiff, Set.mem_singleton_iff]
  by_cases same : cstr groupId = id
  · simp [same]
  · simp [same, Ne.symm same]

theorem grouped_deleted (now : Int) :
    grouped ((Call.deleteGroup groupId).exec now store).2 = grouped store \ {cstr groupId} := by
  ext id
  simp only [grouped, Call.exec, Table.has, Table.find_delete, Set.mem_ofPred_eq, Set.mem_sdiff,
    Set.mem_singleton_iff]
  cases found : store.groups.find id with
  | none => simp
  | some g =>
      have key : g.groupId = id := Table.find_key _ found
      by_cases same : id = cstr groupId <;> simp [Option.filter, key, same]

theorem grouped_created (now : Int) (g : Group) :
    grouped ((Call.createGroup g).exec now store).2 = insert (cstr g.groupId) (grouped store) := by
  have inserted := Table.find_insert store.groups
    ⟨cstr g.groupId, cstr g.name, cstr g.createdBy, g.createdAt⟩ (allClean_map g.texts)
  ext id
  simp only [grouped, Call.exec, createGroup, Table.has, inserted, Set.mem_ofPred_eq,
    Set.mem_insert_iff]
  by_cases same : cstr g.groupId = id
  · cases store.groups.find id <;> simp [same]
  · simp [same, Ne.symm same]

/-- The insert that fails changes nothing. -/
theorem createGroup_taken (now : Int) (g : Group)
    (taken : store.groups.has (cstr g.groupId) = true) :
    ((Call.createGroup g).exec now store).2 = store := by
  have same : createGroup g store.groups = store.groups :=
    Table.insert_taken store.groups ⟨cstr g.groupId, cstr g.name, cstr g.createdBy, g.createdAt⟩
      (allClean_map g.texts) taken
  rw [Call.exec, same]

theorem awaited_upserted (now : Int) (u : GroupUpdate) :
    awaited ((Call.upsertGroupUpdate u).exec now store).2 ⊆
      insert (cstr u.groupId) (awaited store) := by
  intro id waits
  obtain ⟨memberId, row, found, pending⟩ := mem_awaited.mp waits
  simp only [groupUpdates_exec, onGroupUpdate] at found
  split at found
  · next same => exact .inl (congrArg Prod.fst same).symm
  · exact .inr (mem_awaited.mpr ⟨memberId, row, found, pending⟩)

theorem awaited_accepted (now : Int) (memberId : Str) :
    awaited ((Call.markGroupUpdateAccepted groupId memberId).exec now store).2 ⊆
      awaited store := by
  intro id waits
  obtain ⟨other, row, found, pending⟩ := mem_awaited.mp waits
  simp only [groupUpdates_exec, onGroupUpdate] at found
  split at found
  · obtain ⟨old, there, rfl⟩ := Option.map_eq_some_iff.mp found
    cases pending
  · exact mem_awaited.mpr ⟨other, row, found, pending⟩

end Statements

/-! What the routes do between them. -/
section Parts
variable {sodium : Sodium} {keys : KeyPair} {desk : Desk} {post : Response → Desk → Prop}
  {groupId : Str}

/-- Pushing a list changes no list, and only this group's updates become pending. -/
structure Pushes (groupId : Str) (before after : Store) : Prop where
  grouped : grouped after = grouped before
  peopled : peopled after = peopled before
  awaited : awaited after ⊆ insert (cstr groupId) (awaited before)

theorem pushGroupUpdate_pushes {before : Store} {senderId : Str} {version : Int}
    {snapshotJson : Json} {allOnline : Bool} {m : GroupMember}
    (pushes : Pushes groupId before desk.store) :
    (pushGroupUpdate groupId senderId version snapshotJson allOnline m).wp contract
      (fun _ after => Pushes groupId before after.store) desk := by
  unfold pushGroupUpdate
  split
  · exact pushes
  apply wp_call
  intro now
  have upserted : Pushes groupId before
      ((Call.upsertGroupUpdate ⟨groupId, m.memberId, snapshotJson, version, 0, 0⟩).exec now
        desk.store).2 := by
    refine ⟨pushes.grouped, pushes.peopled, (awaited_upserted now _).trans ?_⟩
    exact Set.insert_subset (Set.mem_insert _ _) pushes.awaited
  dsimp only
  split
  · exact upserted
  apply wp_send
  intro answer
  dsimp only
  split
  · apply wp_call
    intro later
    exact ⟨upserted.grouped, upserted.peopled, (awaited_accepted later _).trans upserted.awaited⟩
  · exact upserted

theorem deliverGroupUpdate_pushes (senderId : Str) (members : List GroupMember) (version : Int) :
    (deliverGroupUpdate groupId senderId members version).wp contract
      (fun _ after => Pushes groupId desk.store after.store) desk := by
  unfold deliverGroupUpdate
  apply wp_call
  intro now
  apply Program.wp_foldlM monotone _ (fun _ _ after => Pushes groupId desk.store after.store)
  · intro m rest allOnline after pushes
    exact pushGroupUpdate_pushes pushes
  · exact ⟨rfl, rfl, Set.subset_insert _ _⟩

/-- A list is stored and, unless that failed, pushed. -/
theorem wp_stored {senderId : Str} {members : List GroupMember} {refused : Response}
    {rest : Bool → Proc Response}
    (later : ∀ after, Pushes groupId
        ((Call.replaceGroupMembers groupId members).exec 0 desk.store).2 after.store →
      post refused after ∧ ∀ delivered, (rest delivered).wp contract post after) :
    (do if !(← call (.replaceGroupMembers groupId members)) then return refused
        let version ← time
        let delivered ← deliverGroupUpdate groupId senderId members version
        rest delivered).wp contract post desk := by
  apply wp_call
  intro now
  split
  · exact (later ⟨_, desk.sent⟩ ⟨rfl, rfl, Set.subset_insert _ _⟩).1
  apply wp_time
  intro version
  apply Program.wp_seq monotone _ _ _ (deliverGroupUpdate_pushes senderId members version)
  intro delivered after pushes
  exact (later after pushes).2 delivered

theorem withMember_nonempty (groupId memberId serverAddress : Str) (existing : List GroupMember) :
    (withMember groupId memberId serverAddress existing).wp contract
      (fun members after => members ≠ [] ∧ after = desk) desk := by
  unfold withMember
  split
  · next known =>
    refine ⟨?_, rfl⟩
    intro none
    have ids := congrArg (List.map (·.memberId)) none
    rw [GroupMembership.setAddress_ids, List.map_nil, List.map_eq_nil_iff] at ids
    rw [ids] at known
    cases known
  · apply wp_time
    intro addedAt
    exact ⟨List.append_ne_nil_of_right_ne_nil _ (List.cons_ne_nil _ _), rfl⟩

/-- The credential check, with what it finds. -/
theorem wp_checked {req : HttpRequest} {refused : Response} {rest : Proc Response}
    (refusal : authed sodium req desk.store = false → post refused desk)
    (later : authed sodium req desk.store = true → rest.wp contract post desk) :
    (do if !(← isAuthed sodium req) then return refused
        rest).wp contract post desk := by
  have checked : (isAuthed sodium req).wp contract
      (fun answer after => answer = authed sodium req desk.store ∧ after = desk) desk := by
    unfold isAuthed authenticate authed
    split
    · next missing => exact ⟨by simp [missing], rfl⟩
    · next given =>
      apply wp_call
      intro now
      simp only [Bool.not_eq_true] at given
      simp only [given, Bool.not_false, Bool.true_and]
      cases found : desk.store.clients.find (cstr req.clientId) with
      | none =>
          simp only [Call.exec, found]
          exact ⟨rfl, rfl⟩
      | some info =>
          simp only [Call.exec, found]
          exact ⟨rfl, rfl⟩
  apply Program.wp_seq monotone _ _ desk checked
  rintro _ after ⟨rfl, rfl⟩
  cases valid : authed sodium req after.store with
  | true => exact later valid
  | false => exact refusal valid

theorem asks_unique {req : HttpRequest} {store : Store} {memberId other : Str}
    (asks : Asks sodium req store [("member_id", memberId)])
    (also : Asks sodium req store [("member_id", other)]) : memberId = other := by
  obtain ⟨_, body, brought, named⟩ := asks
  obtain ⟨_, _, same, otherwise⟩ := also
  cases brought.symm.trans same
  exact Option.some.inj ((named _ List.mem_cons_self).symm.trans (otherwise _ List.mem_cons_self))

/-- A body with these strings has these fields. -/
theorem hasAll_of_strings {body : Json} {fields : List (String × Str)} (nonempty : fields ≠ [])
    (strings : ∀ field ∈ fields, body.s? field.1 = some field.2) :
    body.hasAll? (fields.map (·.1)) = some true := by
  apply Json.hasAll?_of_get?
  · simpa using nonempty
  · intro key member
    obtain ⟨field, among, rfl⟩ := List.mem_map.mp member
    simp only [Json.get?_of_s? (strings field among)]

end Parts

section Routes
variable {sodium : Sodium} {keys : KeyPair} {desk : Desk} {req : HttpRequest} {group : PathId}

theorem groupsCreate_effect :
    (groupsCreate sodium keys req).wp contract
      (fun _ after => Effect sodium desk.store after.store (.create req)) desk := by
  have idle : Effect sodium desk.store desk.store (.create req) := .idle trivial rfl
  unfold groupsCreate
  apply wp_checked (fun _ => idle)
  intro _
  split
  case h_2 => exact idle
  next dataJson _ =>
  split
  case h_2 => exact idle
  split
  · exact idle
  apply wp_generateUuid
  intro dice
  split
  case h_2 => exact idle
  next name _ =>
  apply wp_time
  intro createdAt
  apply wp_call
  intro now
  let g : DbManager.Group := ⟨uuidOf dice, name, keys.publicKeyB64, createdAt⟩
  cases taken : desk.store.groups.has (cstr (uuidOf dice)) with
  | true =>
      simp only [Call.exec, taken, Bool.not_true, Bool.not_false, ↓reduceIte]
      exact .idle trivial (createGroup_taken now g taken)
  | false =>
      simp only [Call.exec, taken, Bool.not_false, Bool.not_true, Bool.false_eq_true, ↓reduceIte]
      apply wp_time
      intro addedAt
      apply wp_call
      intro later
      -- Whether the founder's row can be inserted decides on the answer only.
      have founded : Effect sodium desk.store
          ((Call.replaceGroupMembers (uuidOf dice) [⟨uuidOf dice, keys.publicKeyB64,
            (dataJson.optional "server_address").getD [], str "admin", addedAt⟩]).exec later
            ((Call.createGroup g).exec now desk.store).2).2 (.create req) :=
        .created (grouped_created now g)
          ((peopled_replaced later _).trans (replaced_nonempty (List.cons_ne_nil _ _))) rfl
      split <;> exact founded

/-- A request to add a member is refused, for want of one of the things asked for, or goes
on with the list it has read. -/
theorem wp_addMember {post : Response → Desk → Prop}
    (refuse : (∀ memberId serverAddress, ¬Asks sodium req desk.store
      [("member_id", memberId), ("server_address", serverAddress)]) →
      ∀ response, post response desk)
    (goesOn : ∀ dataJson memberId serverAddress, req.body = some dataJson →
      Asks sodium req desk.store [("member_id", memberId), ("server_address", serverAddress)] →
      (withMember group.text memberId serverAddress (withSelfAddress keys.publicKeyB64
          (dataJson.optional "self_server_address")
          (groupMembersOf group.text desk.store.groupMembers)) >>= fun members => do
        if !(← call (.replaceGroupMembers group.text members)) then
          return error 500 "Failed to update membership"
        let version ← time
        let delivered ← deliverGroupUpdate group.text keys.publicKeyB64 members version
        return ok [("delivered", .bool delivered)]).wp contract post desk) :
    (GroupHandlers.addMember sodium keys req group).wp contract post desk := by
  have absent : ∀ body, req.body = some body →
      ((∀ memberId serverAddress, body.s? "member_id" = some memberId →
        body.s? "server_address" ≠ some serverAddress)) → ∀ response, post response desk := by
    intro body brought lacks
    apply refuse
    rintro memberId serverAddress ⟨_, _, same, strings⟩
    cases brought.symm.trans same
    simp only [List.forall_mem_cons] at strings
    exact lacks memberId serverAddress strings.1 strings.2.1
  unfold GroupHandlers.addMember
  apply wp_checked
  · intro unknown
    apply refuse
    intro _ _ asks
    cases unknown.symm.trans asks.1
  intro known
  split
  case h_2 missing =>
    apply refuse
    rintro _ _ ⟨_, body, brought, _⟩
    exact missing body brought
  next dataJson brought =>
  -- If the fields can be read as strings, they are all there.
  have whole : ∀ memberId serverAddress, dataJson.s? "member_id" = some memberId →
      dataJson.s? "server_address" = some serverAddress →
      dataJson.hasAll? ["member_id", "server_address"] = some true := by
    intro memberId serverAddress named addressed
    have strings : ∀ field ∈ [("member_id", memberId), ("server_address", serverAddress)],
        dataJson.s? field.1 = some field.2 := by
      simp [named, addressed]
    exact hasAll_of_strings (List.cons_ne_nil _ _) strings
  split
  case h_2 lacks =>
    apply absent dataJson brought
    intro memberId serverAddress named addressed
    exact lacks _ (whole memberId serverAddress named addressed)
  next present listed =>
  split
  · next lacks =>
    apply absent dataJson brought
    intro memberId serverAddress named addressed
    rw [whole memberId serverAddress named addressed] at listed
    cases listed
    cases lacks
  split
  case h_2 lacks =>
    apply absent dataJson brought
    intro memberId _ named
    exact absurd named (lacks memberId)
  next memberId named =>
  split
  case h_2 lacks =>
    apply absent dataJson brought
    intro _ serverAddress _ addressed
    exact lacks serverAddress addressed
  next serverAddress addressed =>
  apply wp_call
  intro now
  exact goesOn dataJson memberId serverAddress brought
    ⟨known, dataJson, brought, by simp [named, addressed]⟩

theorem addMember_effect :
    (GroupHandlers.addMember sodium keys req group).wp contract
      (fun _ after => Effect sodium desk.store after.store (.addMember req group)) desk := by
  refine wp_addMember (fun idles _ => .idle idles rfl) ?_
  intro dataJson memberId serverAddress _ asks
  apply Program.wp_seq monotone _ _ desk (withMember_nonempty _ _ _ _)
  rintro members _ ⟨some, rfl⟩
  apply wp_stored
  rintro after ⟨grouped, peopled, awaited⟩
  rw [peopled_replaced, replaced_nonempty some, cstr_of_clean group.clean] at peopled
  rw [cstr_of_clean group.clean] at awaited
  have added := Effect.added asks grouped peopled awaited
  exact ⟨added, fun _ => added⟩

/-- The same of a request to remove one. -/
theorem wp_removeMember {post : Response → Desk → Prop}
    (refuse : (∀ memberId, ¬Asks sodium req desk.store [("member_id", memberId)]) →
      ∀ response, post response desk)
    (unknown : ∀ memberId, Asks sodium req desk.store [("member_id", memberId)] →
      (remaining group.text memberId desk.store).length =
        (groupMembersOf group.text desk.store.groupMembers).length →
      post (error 404 "Member not in group") desk)
    (goesOn : ∀ memberId, Asks sodium req desk.store [("member_id", memberId)] →
      (remaining group.text memberId desk.store).length ≠
        (groupMembersOf group.text desk.store.groupMembers).length →
      (do if !(← call (.replaceGroupMembers group.text
              (remaining group.text memberId desk.store))) then
            return error 500 "Failed to update membership"
          let version ← time
          let delivered ← deliverGroupUpdate group.text keys.publicKeyB64
            (remaining group.text memberId desk.store) version
          if delivered && (remaining group.text memberId desk.store).isEmpty then
            call (.deleteGroup group.text)
          return ok [("delivered", .bool delivered)] : Proc Response).wp contract post desk) :
    (GroupHandlers.removeMember sodium keys req group).wp contract post desk := by
  have absent : ∀ body, req.body = some body →
      (∀ memberId, body.s? "member_id" ≠ some memberId) → ∀ response, post response desk := by
    intro body brought lacks
    apply refuse
    rintro memberId ⟨_, _, same, strings⟩
    cases brought.symm.trans same
    exact absurd (strings _ List.mem_cons_self) (lacks memberId)
  unfold GroupHandlers.removeMember
  apply wp_checked
  · intro denied
    apply refuse
    intro _ asks
    cases denied.symm.trans asks.1
  intro known
  split
  case h_2 missing =>
    apply refuse
    rintro _ ⟨_, body, brought, _⟩
    exact absurd brought (missing body)
  next dataJson brought =>
  -- If the field can be read as a string, it is there.
  have whole : ∀ memberId, dataJson.s? "member_id" = some memberId →
      dataJson.hasAll? ["member_id"] = some true := by
    intro memberId named
    have strings : ∀ field ∈ [("member_id", memberId)], dataJson.s? field.1 = some field.2 := by
      simp [named]
    exact hasAll_of_strings (List.cons_ne_nil _ _) strings
  split
  case h_2 lacks =>
    apply absent dataJson brought
    intro memberId named
    exact lacks _ (whole memberId named)
  next present listed =>
  split
  · next lacks =>
    apply absent dataJson brought
    intro memberId named
    rw [whole memberId named] at listed
    cases listed
    cases lacks
  split
  case h_2 lacks => exact absent dataJson brought lacks _
  next memberId named =>
  have asks : Asks sodium req desk.store [("member_id", memberId)] :=
    ⟨known, dataJson, brought, by simp [named]⟩
  apply wp_call
  intro now
  dsimp only
  split
  · next nobody => exact unknown memberId asks nobody
  · next somebody => exact goesOn memberId asks somebody

/-- When nobody is left to be told, the delivery succeeds and the group is deleted. -/
theorem emptied_effect {memberId : Str}
    (asks : Asks sodium req desk.store [("member_id", memberId)])
    (left : remaining group.text memberId desk.store = []) (now later : Int) :
    Effect sodium desk.store ((Call.deleteGroup group.text).exec later
      ((Call.replaceGroupMembers group.text []).exec now desk.store).2).2
      (.removeMember req group) := by
  refine .emptied asks left ?_ ?_ rfl
  · rw [grouped_deleted, cstr_of_clean group.clean]
    rfl
  · rw [peopled_deleted, cstr_of_clean group.clean]
    have nobody : peopled ((Call.replaceGroupMembers group.text []).exec now desk.store).2 =
        {id | if cstr group.text = id then [] ≠ [] else id ∈ peopled desk.store} :=
      peopled_replaced now []
    refine (congrArg (· \ {group.text}) nobody).trans ?_
    rw [cstr_of_clean group.clean]
    ext id
    by_cases same : group.text = id
    · simp [same]
    · simp [same, Ne.symm same]

theorem removeMember_effect :
    (GroupHandlers.removeMember sodium keys req group).wp contract
      (fun _ after => Effect sodium desk.store after.store (.removeMember req group)) desk := by
  have idle : (∀ memberId, Asks sodium req desk.store [("member_id", memberId)] →
      (remaining group.text memberId desk.store).length =
        (groupMembersOf group.text desk.store.groupMembers).length) →
      Effect sodium desk.store desk.store (.removeMember req group) := fun idles => .idle idles rfl
  refine wp_removeMember (fun silent _ => idle fun memberId asks => absurd asks (silent memberId))
    (fun memberId asks nobody => idle fun other also => asks_unique asks also ▸ nobody)
    fun memberId asks _ => ?_
  cases left : remaining group.text memberId desk.store with
  | nil =>
      apply wp_call
      intro now
      apply wp_time
      intro version
      apply wp_call
      intro _
      apply wp_call
      intro later
      exact emptied_effect asks left now later
  | cons m rest =>
      -- Somebody is left, so the group stays and its list is pushed.
      have some : remaining group.text memberId desk.store ≠ [] := by
        rw [left]
        exact List.cons_ne_nil m rest
      apply wp_stored
      rintro after ⟨grouped, peopled, awaited⟩
      rw [peopled_replaced, replaced_nonempty (List.cons_ne_nil m rest),
        cstr_of_clean group.clean] at peopled
      rw [cstr_of_clean group.clean] at awaited
      rw [← left] at awaited
      have left := Effect.left asks some grouped peopled awaited
      refine ⟨left, fun delivered => ?_⟩
      rw [List.isEmpty_cons, Bool.and_false]
      exact left

theorem grouped_recorded (createdAt : Int) (read : Header) (store : Store) :
    grouped { store with groups := Rejection.recorded createdAt read store.groups } =
      insert (cstr read.groupId) (grouped store) := by
  unfold Rejection.recorded
  cases found : store.groups.find (cstr read.groupId) with
  | none => exact grouped_created 0 _
  | some g =>
      have known : cstr read.groupId ∈ grouped store := (Table.has_iff _ _).mpr ⟨g, found⟩
      rw [Set.insert_eq_of_mem known]
      dsimp only
      split
      · ext id
        simp only [grouped, updateGroupName, Table.has_update, Set.mem_ofPred_eq]
      · rfl

theorem acceptGroupUpdate_effect (body : Option Json) :
    (acceptGroupUpdate body).wp contract
      (fun _ after => Effect sodium desk.store after.store (.accept body)) desk := by
  rcases Rejection.accept_cases body with ⟨unread, response, _, refused⟩ | ⟨read, known, goesOn⟩
  · rw [refused]
    exact .idle unread rfl
  rw [goesOn, Rejection.recordGroup_iff]
  intro createdAt
  rw [Rejection.storeMembers_iff]
  have recorded := grouped_recorded createdAt read desk.store
  cases readable : memberEntries read.dataJson with
  | none => exact .unread known readable recorded rfl rfl
  | some entries =>
      intro members same
      have lengths : members.length = entries.length := by
        simpa using congrArg List.length same
      refine .replaced known readable recorded ?_ rfl
      refine (peopled_replaced 0 members).trans ?_
      have empty : members ≠ [] ↔ entries ≠ [] := by
        rw [← List.length_pos_iff, ← List.length_pos_iff, lengths]
      simp only [empty]
      rfl

theorem program_effect (route : Route) :
    (program sodium keys route).wp contract
      (fun _ after => Effect sodium desk.store after.store route) desk := by
  cases route with
  | create req => exact groupsCreate_effect
  | addMember req group => exact addMember_effect
  | removeMember req group => exact removeMember_effect
  | accept body => exact acceptGroupUpdate_effect body

end Routes

section Steps
variable {sodium : Sodium} {keys : KeyPair} {before after : Store} {route : Route}

theorem peopled_iff {group : PathId} :
    group.text ∈ peopled before ↔ groupMembersOf group.text before.groupMembers ≠ [] := by
  have clean := cstr_of_clean group.clean
  rw [mem_peopled]
  constructor
  · rintro ⟨memberId, m, found⟩
    obtain ⟨key, rfl⟩ := Prod.mk.inj (before.groupMembers.find_key found)
    apply List.ne_nil_of_mem
    exact (mem_groupMembersOf _ _ m).mpr ⟨key.trans clean.symm, by rwa [clean]⟩
  · intro some
    obtain ⟨m, member⟩ := List.exists_mem_of_ne_nil _ some
    have found := ((mem_groupMembersOf _ _ m).mp member).2
    rw [clean] at found
    exact ⟨m.memberId, m, found⟩

theorem remaining_peopled {group : PathId} {memberId : Str}
    (some : remaining group.text memberId before ≠ []) : group.text ∈ peopled before := by
  rw [peopled_iff]
  intro none
  rw [remaining, none] at some
  exact some rfl

theorem effect_keeps (consistent : Consistent before) (meets : Meets sodium before route)
    (effect : Effect sodium before after route) : Consistent after := by
  rw [consistent_iff] at consistent ⊢
  obtain ⟨same, pending⟩ := consistent
  cases effect with
  | idle idles unchanged =>
      rw [unchanged]
      exact ⟨same, pending⟩
  | created grouped peopled awaited =>
      rw [grouped, peopled, awaited, same]
      exact ⟨rfl, pending.trans (Set.subset_insert _ _)⟩
  | added asks grouped peopled awaited =>
      have known := meets _ _ asks
      rw [grouped, peopled, same, Set.insert_eq_of_mem known]
      exact ⟨rfl, awaited.trans (Set.insert_subset known pending)⟩
  | left asks some grouped peopled awaited =>
      have known := remaining_peopled some
      rw [same] at known
      rw [grouped, peopled, same, Set.insert_eq_of_mem known]
      exact ⟨rfl, awaited.trans (Set.insert_subset known pending)⟩
  | emptied asks none grouped peopled awaited =>
      have settled := meets _ asks none
      rw [grouped, peopled, awaited, same]
      exact ⟨rfl, Set.subset_sdiff_singleton pending settled⟩
  | unread known unreadable grouped peopled awaited =>
      have there := meets _ known
      rw [unreadable] at there
      rw [grouped, peopled, awaited, same, Set.insert_eq_of_mem there]
      exact ⟨rfl, pending⟩
  | replaced known readable grouped peopled awaited =>
      have some := meets _ known
      rw [readable] at some
      rw [grouped, peopled, awaited, replaced_nonempty some, same]
      exact ⟨rfl, pending.trans (Set.subset_insert _ _)⟩

/-- A request outside the condition breaks the consistency, whatever its peers answer. -/
theorem effect_breaks (consistent : Consistent before) (fails : ¬Meets sodium before route)
    (effect : Effect sodium before after route) : ¬Consistent after := by
  rw [consistent_iff] at consistent ⊢
  obtain ⟨same, pending⟩ := consistent
  rintro ⟨sameAfter, pendingAfter⟩
  apply fails
  cases effect with
  | @idle route idles unchanged =>
      cases route with
      | create req => trivial
      | addMember req group => exact fun _ _ asks => absurd asks (idles _ _)
      | removeMember req group =>
          intro memberId asks none waits
          have nobody := idles memberId asks
          rw [none, List.length_nil, eq_comm, List.length_eq_zero_iff] at nobody
          have there := pending waits
          rw [← same, peopled_iff] at there
          exact there nobody
      | accept body =>
          intro read known
          cases known.symm.trans idles
  | created => trivial
  | @added req group _ _ _ grouped peopled _ =>
      intro _ _ _
      rw [← grouped, ← sameAfter, peopled]
      exact Set.mem_insert _ _
  | left asks some _ _ _ =>
      intro other also none
      cases asks_unique asks also
      exact absurd none some
  | emptied _ _ grouped _ awaited =>
      intro _ _ _ waits
      rw [← awaited] at waits
      have there := pendingAfter waits
      rw [grouped] at there
      exact there.2 rfl
  | @unread body read known unreadable grouped peopled _ =>
      rintro _ also
      cases known.symm.trans also
      rw [unreadable]
      have there : cstr read.groupId ∈ GroupTables.grouped after := by
        rw [grouped]
        exact Set.mem_insert _ _
      rwa [← sameAfter, peopled, same] at there
  | @replaced body read entries known readable grouped peopled _ =>
      rintro _ also
      cases known.symm.trans also
      rw [readable]
      have there : cstr read.groupId ∈ GroupTables.grouped after := by
        rw [grouped]
        exact Set.mem_insert _ _
      rw [← sameAfter, peopled] at there
      simpa using there

theorem step_consistent (consistent : Consistent before) (meets : Meets sodium before route)
    {response : Response} {after : Desk}
    (ran : Runs (program sodium keys route) ⟨before, []⟩ response after) :
    Consistent after.store :=
  effect_keeps consistent meets
    ((Program.wp_demonic_iff Solo.step _ _ _).mp (program_effect route) _ _ ran)

theorem visited_consistent {initial store : Store} (start : Consistent initial)
    (visits : Visits (program sodium keys) (Meets sodium) initial store) : Consistent store := by
  refine Visits.invariant Consistent start ?_ visits
  intro before route response after consistent meets ran
  exact step_consistent consistent meets ran

/-- Whatever the requests were, if each met the condition, the tables are consistent and
the next request keeps them so exactly if it meets the condition too. -/
theorem tables_consistent_iff {initial store : Store}
    (start : initial.groups = .empty ∧ initial.groupMembers = .empty ∧
      initial.groupUpdates = .empty)
    (visits : Visits (program sodium keys) (Meets sodium) initial store) :
    Consistent store ∧ ∀ route,
      (∀ response after, Runs (program sodium keys route) ⟨store, []⟩ response after →
        Consistent after.store) ↔ Meets sodium store route := by
  obtain ⟨noGroups, noMembers, noUpdates⟩ := start
  have empty : Consistent initial := by
    refine ⟨?_, ?_, ?_⟩
    · rw [noMembers]
      exact fun _ member => absurd member List.not_mem_nil
    · rw [noUpdates]
      exact fun _ member => absurd member List.not_mem_nil
    · rw [noGroups]
      exact fun _ member => absurd member List.not_mem_nil
  have consistent := visited_consistent empty visits
  refine ⟨consistent, fun route => ⟨fun keeps => ?_, fun meets _ _ ran =>
    step_consistent consistent meets ran⟩⟩
  by_contra fails
  have : Nonempty (Input × Option Response) := ⟨(clockAt 0, none)⟩
  obtain ⟨response, after, ran⟩ :=
    Program.runs_total Solo.act (program sodium keys route) ⟨store, []⟩
  have effect := (Program.wp_demonic_iff Solo.step _ _ _).mp (program_effect route) _ _ ran
  exact effect_breaks consistent fails effect (keeps response after ran)

end Steps
section Runs

/-- A node with a registered device and no groups. -/
def blank : Store := registered .initial

def served : Route → Proc Response := program .transparent (pair.keys true)

/-- Nobody answers. -/
def offline : List (Input × Option Response) := List.replicate 20 (clockAt 0, none)

def removal (memberId : Str) : HttpRequest := userRequest [("member_id", .str memberId)]

theorem founding_kept : ∃ store, Visits served (Meets .transparent) blank store ∧
    store.groups.has founded.text = true ∧ Consistent store ∧
    ∀ response after, Runs (served (.addMember admission founded)) ⟨store, []⟩ response after →
      Consistent after.store := by
  have ran : (visit served [(.create foundation, offline)] blank).map (fun store =>
      store.groups.has founded.text) = some true := by
    decide +kernel
  obtain ⟨store, visited, known⟩ := Option.map_eq_some_iff.mp ran
  have visits : Visits served (Meets .transparent) blank store := by
    refine visit_visits _ ?_ .start visited
    intro _ route member
    rw [List.mem_singleton.mp member]
    trivial
  obtain ⟨consistent, next⟩ := tables_consistent_iff ⟨rfl, rfl, rfl⟩ visits
  exact ⟨store, visits, known, consistent, (next _).mpr fun _ _ _ => known⟩

/-- A member is added to a group that was never made. -/
def unfounded : List Route := [.addMember admission founded]

/-- A member whom no push has reached is taken off, and then the last one. -/
def dissolved : List Route :=
  [.create foundation, .addMember admission founded,
    .removeMember (removal (pair.id false)) founded, .removeMember (removal (pair.id true)) founded]

/-- A snapshot tells of a group with nobody in it. -/
def deserted : List Route :=
  [.accept (some (.obj [("group_id", .str (str "g")), ("members", .arr [])]))]

theorem served_breaks {routes : List Route}
    (breaks : ((visit served (routes.map (·, offline)) blank).any
      fun store => !decide (Consistent store)) = true) :
    ∃ store, visit served (routes.map (·, offline)) blank = some store ∧
      Visits served (fun _ _ => True) blank store ∧ ¬Consistent store := by
  obtain ⟨store, visited, inconsistent⟩ := (Option.any_eq_true _ _).mp breaks
  refine ⟨store, visited, visit_visits _ (fun _ _ _ => trivial) .start visited, ?_⟩
  simpa using inconsistent

theorem tables_break :
    (∃ store, visit served (unfounded.map (·, offline)) blank = some store ∧
      Visits served (fun _ _ => True) blank store ∧ ¬Consistent store) ∧
    (∃ store, visit served (dissolved.map (·, offline)) blank = some store ∧
      Visits served (fun _ _ => True) blank store ∧ ¬Consistent store) ∧
    ∃ store, visit served (deserted.map (·, offline)) blank = some store ∧
      Visits served (fun _ _ => True) blank store ∧ ¬Consistent store :=
  ⟨served_breaks (by decide +kernel), served_breaks (by decide +kernel),
    served_breaks (by decide +kernel)⟩

end Runs
end NoMiddle.GroupTables
