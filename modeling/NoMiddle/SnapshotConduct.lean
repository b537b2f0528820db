import NoMiddle.GroupMembership
import NoMiddle.Rejection
import NoMiddle.TaskConduct

/-! What a node does about the snapshots it pushes: it posts to a member what it has
stored or listed for that member, and an accepted push is marked next. Nothing here
compares versions. -/
namespace NoMiddle.SnapshotConduct
open Library Text Crypto DbManager DbViews Node MessageDelivery RetryWorker Handlers
open GroupHandlers Network Conduct Footprint TaskConduct
open GroupMembership (Entry entry snapshot_fields)
open Rejection (memberEntries memberEntry replaced_iff)

/-- The body is a snapshot of the group. -/
def describes (groupId : Str) (body : Json) : Bool :=
  match body.s? "group_id" with
  | some named => cstr named = groupId
  | none => false

def takesSnapshot (key : Str × Str) : Event nodeSig → Option Json
  | ⟨.inl (.call (.upsertGroupUpdate u)), _⟩ =>
      if (cstr u.groupId, cstr u.memberId) = key then some u.snapshotJson else none
  | ⟨.inl (.call .getPendingGroupUpdates), updates⟩ =>
      (List.find? (fun u : GroupUpdate => (u.groupId, u.memberId) = key) updates).map
        (·.snapshotJson)
  | _ => none

def usesSnapshot (key : Str × Str) : nodeSig.Op → Prop
  | .inl (.call (.markGroupUpdateAccepted groupId memberId)) =>
      (cstr groupId, cstr memberId) = key
  | _ => False

/-- The copies of a row of `group_updates`. One is in hand as long as it may still be
marked as accepted. -/
def snapshotCustody : Custody nodeSig (Str × Str) Json :=
  ⟨takesSnapshot, fun _ _ => false, usesSnapshot⟩

/-- The member whose row or address was looked at last. -/
def meant : Trace → Option Str
  | ⟨.inl (.call (.upsertGroupUpdate u)), _⟩ :: _ => some (cstr u.memberId)
  | ⟨.inl (.call (.getContactAddress contactId)), _⟩ :: _ => some (cstr contactId)
  | _ => none

/-- A push was accepted just now. -/
def due : Trace → Bool
  | ⟨.inr request, answer⟩ :: _ =>
      request.endpoint = .acceptGroupUpdate && delivered (Option.map Response.code answer)
  | _ => false

def isMark : nodeSig.Op → Bool
  | .inl (.call (.markGroupUpdateAccepted ..)) => true
  | _ => false

theorem mark_of_isMark {operation : nodeSig.Op} (marks : isMark operation = true) :
    ∃ groupId memberId,
      operation = .inl (.call (.markGroupUpdateAccepted groupId memberId)) := by
  cases operation with
  | inl operation =>
      cases operation with
      | call call =>
          cases call with
          | markGroupUpdateAccepted groupId memberId => exact ⟨groupId, memberId, rfl⟩
          | _ => cases marks
      | _ => cases marks
  | inr request => cases marks

/-- A snapshot as an edit of the member list writes it. -/
structure Written (groupId : Str) (version : Int) (snapshotJson : Json) : Prop where
  groupId : snapshotJson.s? "group_id" = some groupId
  version : snapshotJson.i? "version" = some version
  entries : ∃ entries, memberEntries snapshotJson = some entries ∧
    (entries.map fun e => cstr e.1).Nodup

/-- The snapshot was written here or comes from the list of pending updates. -/
def Drawn (history : Trace) (groupId : Str) (snapshotJson : Json) : Prop :=
  snapshotJson.s? "group_id" = some groupId ∨
  ∃ updates, (⟨.inl (.call .getPendingGroupUpdates), updates⟩ : Event nodeSig) ∈ history ∧
    ∃ u ∈ (updates : List GroupUpdate), u.groupId = groupId ∧ u.snapshotJson = snapshotJson

/-- The request brings the member what is held for it. -/
structure Towards (history : Trace) (groupId memberId : Str) (request : Request) : Prop where
  endpoint : request.endpoint = .acceptGroupUpdate
  member : meant history = some (cstr memberId)
  held : snapshotCustody.held (cstr groupId, cstr memberId) history = some request.body
  drawn : Drawn history groupId request.body

/-- The ids of a list that was stored without a conflict are distinct. -/
def Answered : (operation : nodeSig.Op) → nodeSig.Res operation → Prop
  | .inl (.call (.replaceGroupMembers _ members)), stored =>
      stored = true → (members.map fun m => cstr m.memberId).Nodup
  | operation, answer => Possible operation answer

theorem answered_handle (input : Input) (operation : LocalOp) (store : Store) :
    Answered (.inl operation) (handle input operation store).1 := by
  have possible := possible_handle input operation store
  cases operation with
  | call call =>
      cases call with
      | replaceGroupMembers groupId members =>
          exact (replaced_iff groupId members store.groupMembers).mp
      | _ => exact possible
  | _ => exact possible

/-- An accepted push is marked before anything else is done. -/
def prompt : Discipline nodeSig where
  possible := Answered
  allowed history operation := due history = true → isMark operation = true

/-- The conduct of a node's own tasks. -/
def pushing : Discipline nodeSig where
  possible := Answered
  allowed history operation := (due history = true → isMark operation = true) ∧
    match operation with
    | .inl (.call (.upsertGroupUpdate u)) => Written u.groupId u.version u.snapshotJson
    | .inl (.call (.markGroupUpdateAccepted groupId memberId)) =>
        ∃ request answer earlier, history = ⟨.inr request, some answer⟩ :: earlier ∧
          answer.code = 200 ∧ Towards earlier groupId memberId request
    | .inr request => request.endpoint = .acceptGroupUpdate →
        ∃ groupId memberId, Towards history groupId memberId request
    | _ => True

/-- The conduct of a node that serves a request. Its list of members is the request's. -/
def taking (request : Request) : Discipline nodeSig where
  possible := Answered
  allowed _ operation :=
    match operation with
    | .inl (.call (.replaceGroupMembers groupId members)) =>
        request.endpoint = .acceptGroupUpdate ∧ request.body.s? "group_id" = some groupId ∧
          memberEntries request.body = some (members.map entry)
    | .inl (.call (.deleteGroup _)) | .inl (.call (.upsertGroupUpdate _))
    | .inl (.call (.markGroupUpdateAccepted ..)) => False
    | .inr sent => sent.endpoint ≠ .acceptGroupUpdate
    | _ => True

/-- What a 200 of the service says was done. -/
def took (request : Request) (answer : Response) (history : Trace) : Prop :=
  answer.code = 200 → request.endpoint = .acceptGroupUpdate →
    ∃ groupId members stored, request.body.s? "group_id" = some groupId ∧
      (⟨.inl (.call (.replaceGroupMembers groupId members)), stored⟩ : Event nodeSig) ∈ history

/-- Free of pushes. -/
def pushFree : nodeSig.Op → Bool
  | .inl (.call (.upsertGroupUpdate _)) | .inl (.call (.markGroupUpdateAccepted ..)) => false
  | .inr request => request.endpoint ≠ .acceptGroupUpdate
  | _ => true

theorem groupFree_pushFree (operation : nodeSig.Op) (free : groupFree operation = true) :
    pushFree operation = true := by
  cases operation with
  | inl operation =>
      cases operation with
      | call call => cases call <;> first | rfl | cases free
      | _ => rfl
  | inr request => exact free

theorem undue {history : Trace} {goal : Prop} (calm : due history = false)
    (pressing : due history = true) : goal := by
  cases calm.symm.trans pressing

theorem pushFree_calm (history : Trace) (operation : nodeSig.Op)
    (free : pushFree operation = true) (calm : due history = false) :
    pushing.allowed history operation ∧ ∀ answer, due (⟨operation, answer⟩ :: history) = false := by
  cases operation using operation_cases with
  | call db =>
      refine ⟨⟨undue calm, ?_⟩, fun _ => rfl⟩
      cases db <;> trivial
  | sent request =>
      have other : request.endpoint ≠ .acceptGroupUpdate := of_decide_eq_true free
      exact ⟨⟨undue calm, fun push => absurd push other⟩, fun answer => by simp [due, other]⟩
  | _ => exact ⟨⟨undue calm, trivial⟩, fun _ => rfl⟩

section Rules
variable {Value : Type} {history : Trace}

abbrev Calm {Value : Type} (_ : Value) (history : Trace) : Prop := due history = false

theorem wp_free {program : Proc Value} (only : program.Only pushFree)
    (calm : due history = false) : program.wp pushing.contract Calm history :=
  Program.wp_of_kept pushFree_calm program only history calm

theorem wp_then {Output : Type} {program : Proc Output} {rest : Output → Proc Value}
    (first : program.wp pushing.contract Calm history)
    (later : ∀ value after, due after = false → (rest value).wp pushing.contract Calm after) :
    (program >>= rest).wp pushing.contract Calm history :=
  Program.wp_seq pushing.contract_monotone program rest history first later

theorem wp_does {operation : LocalOp} {rest : operation.Res → Proc Value}
    {post : Value → Trace → Prop}
    (free : pushFree (.inl operation) = true) (calm : due history = false)
    (later : ∀ answer, Answered (.inl operation) answer →
      (rest answer).wp pushing.contract post (⟨.inl operation, answer⟩ :: history)) :
    (perform operation >>= rest).wp pushing.contract post history :=
  ⟨(pushFree_calm history _ free calm).1, later⟩

end Rules

section Routes
variable {groupId senderId : Str} {version : Int} {history : Trace}

theorem memberEntries_snapshot (groupId senderId : Str) (version : Int) (grp : Option Group)
    (members : List GroupMember) :
    memberEntries (snapshot groupId senderId version grp members) = some (members.map entry) := by
  have read : (members.map memberJson).mapM memberEntry = some (members.map entry) := by
    induction members with
    | nil => rfl
    | cons m rest ih =>
        rw [List.map_cons, List.mapM_cons, ih]
        rfl
  have items := (snapshot_fields groupId senderId version grp members).2.2.2.2.2.2
  unfold memberEntries
  rw [items]
  exact read

theorem snapshot_written {members : List GroupMember}
    (distinct : (members.map fun m => cstr m.memberId).Nodup) (grp : Option Group) :
    Written groupId version (snapshot groupId senderId version grp members) where
  groupId := (snapshot_fields groupId senderId version grp members).2.1
  version := by cases grp <;> rfl
  entries := by
    refine ⟨_, memberEntries_snapshot groupId senderId version grp members, ?_⟩
    rwa [List.map_map]

theorem accepted_marked {request : Request} {answer : Response} {earlier : Trace}
    {memberId : Str} (towards : Towards earlier groupId memberId request)
    (code : answer.code = 200) :
    pushing.allowed (⟨.inr request, some answer⟩ :: earlier)
      (.inl (.call (.markGroupUpdateAccepted groupId memberId))) :=
  ⟨fun _ => rfl, request, answer, earlier, rfl, code, towards⟩

/-- A request that was not answered with 200 leaves nothing due. -/
theorem refused_calm {serverAddress : Str} {endpoint : Endpoint} {body : Json}
    {answer : Option Response} {earlier : Trace}
    (refused : ¬delivered (answer.map (·.code)) = true) :
    due (⟨.inr ⟨serverAddress, endpoint, body⟩, answer⟩ :: earlier) = false := by
  simp [due, refused]

theorem pushGroupUpdate_pushing {snapshotJson : Json} {allOnline : Bool} {m : GroupMember}
    (written : Written groupId version snapshotJson) (calm : due history = false) :
    (pushGroupUpdate groupId senderId version snapshotJson allOnline m).wp pushing.contract Calm
      history := by
  unfold pushGroupUpdate
  split
  · exact calm
  refine ⟨⟨undue calm, written⟩, fun _ _ => ?_⟩
  dsimp only
  split
  · rfl
  -- The row was written just now, so what is posted is what is held.
  have towards : ∀ done serverAddress, Towards (⟨.inl (.call (.upsertGroupUpdate
      ⟨groupId, m.memberId, snapshotJson, version, 0, 0⟩)), done⟩ :: history) groupId m.memberId
      ⟨serverAddress, .acceptGroupUpdate, snapshotJson⟩ := by
    intro done serverAddress
    exact ⟨rfl, rfl, Custody.held_taken history (if_pos rfl), .inl written.groupId⟩
  refine wp_send ⟨undue rfl, fun _ => ⟨_, _, towards _ _⟩⟩ fun answer => ?_
  split
  · next ok =>
    obtain ⟨response, rfl, code⟩ := (delivered_iff answer).mp ok
    exact ⟨accepted_marked (towards _ _) code, fun _ _ => rfl⟩
  · next refused => exact refused_calm refused

theorem deliverGroupUpdate_pushing {members : List GroupMember}
    (distinct : (members.map fun m => cstr m.memberId).Nodup) (calm : due history = false) :
    (deliverGroupUpdate groupId senderId members version).wp pushing.contract Calm history := by
  refine wp_does rfl calm fun grp _ => ?_
  exact Program.wp_foldlM pushing.contract_monotone _ (fun _ _ after => due after = false)
    (fun _ _ _ _ calm => pushGroupUpdate_pushing (snapshot_written distinct grp) calm) members true _ rfl

variable (sodium : Sodium) (keys : KeyPair)

/-- Any program may follow the credential check. -/
theorem wp_checked (req : HttpRequest) (response : Response) {rest : Proc Response}
    (calm : due history = false)
    (later : ∀ after, due after = false → rest.wp pushing.contract Calm after) :
    (do if !(← isAuthed sodium req) then return response
        rest).wp pushing.contract Calm history := by
  have checked : (isAuthed sodium req).Only pushFree := by
    unfold isAuthed authenticate
    split
    · trivial
    · exact ⟨rfl, fun found => by cases found <;> trivial⟩
  refine wp_then (wp_free checked calm) fun authed after calm => ?_
  cases authed with
  | true => exact later after calm
  | false => exact calm

theorem addMember_pushing (req : HttpRequest) (group : PathId) :
    (addMember sodium keys req group).wp pushing.contract Calm [] := by
  refine wp_checked sodium req _ rfl fun history calm => ?_
  split
  · split
    · split
      · exact calm
      · split
        · split
          · refine wp_does rfl calm fun stored _ => wp_then ?_ fun members after calm => ?_
            · unfold withMember
              split
              · rfl
              · exact wp_does rfl rfl fun _ _ => rfl
            · refine wp_does rfl calm fun (replaced : Bool) distinct => ?_
              cases replaced with
              | false => rfl
              | true =>
                  refine wp_does rfl rfl fun now _ => wp_then ?_ fun _ _ calm => calm
                  exact deliverGroupUpdate_pushing (distinct rfl) rfl
          · exact calm
        · exact calm
    · exact calm
  · exact calm

theorem removeMember_pushing (req : HttpRequest) (group : PathId) :
    (removeMember sodium keys req group).wp pushing.contract Calm [] := by
  refine wp_checked sodium req _ rfl fun history calm => ?_
  split
  · split
    · split
      · exact calm
      · split
        · refine wp_does rfl calm fun existing _ => ?_
          dsimp only
          split
          · rfl
          · refine wp_does rfl rfl fun (replaced : Bool) distinct => ?_
            cases replaced with
            | false => rfl
            | true =>
                refine wp_does rfl rfl fun now _ => wp_then
                  (deliverGroupUpdate_pushing (distinct rfl) rfl) fun delivered after calm => ?_
                split
                · exact wp_does rfl calm fun _ _ => rfl
                · exact calm
        · exact calm
    · exact calm
  · exact calm

/-- The list the worker works on is still what it holds. -/
structure Listing (start after : Trace) : Prop where
  calm : due after = false
  held : ∀ key, snapshotCustody.held key after = snapshotCustody.held key start
  events : ∀ event ∈ start, event ∈ after

/-- An event that takes nothing leaves the list as it is. -/
theorem Listing.next {start after : Trace} {event : Event nodeSig} (listing : Listing start after)
    (untaken : ∀ key, takesSnapshot key event = none) (calm : due (event :: after) = false) :
    Listing start (event :: after) where
  calm := calm
  held key := (Custody.held_kept after (untaken key) rfl).trans (listing.held key)
  events other member := List.mem_cons_of_mem event (listing.events other member)

theorem retryGroupUpdate_pushing {start : Trace} {updates : List GroupUpdate} {u : GroupUpdate}
    (listing : Listing start history) (among : u ∈ updates) (clean : AllClean u.texts)
    (listed : (⟨.inl (.call .getPendingGroupUpdates), updates⟩ : Event nodeSig) ∈ start)
    (held : snapshotCustody.held (u.groupId, u.memberId) start = some u.snapshotJson) :
    (retryGroupUpdate u).wp pushing.contract (fun _ => Listing start) history := by
  have group : cstr u.groupId = u.groupId := cstr_of_clean (clean _ (by simp [GroupUpdate.texts]))
  have member : cstr u.memberId = u.memberId :=
    cstr_of_clean (clean _ (by simp [GroupUpdate.texts]))
  refine wp_does rfl listing.calm fun (address : Str) _ => ?_
  have asked : Listing start
      (⟨.inl (.call (.getContactAddress u.memberId)), address⟩ :: history) :=
    listing.next (fun _ => rfl) rfl
  split
  · exact asked
  have towards : Towards (⟨.inl (.call (.getContactAddress u.memberId)), address⟩ :: history)
      u.groupId u.memberId ⟨cutServerAddress address, .acceptGroupUpdate, u.snapshotJson⟩ := by
    refine ⟨rfl, rfl, ?_, .inr ⟨updates, asked.events _ listed, u, among, rfl, rfl⟩⟩
    rw [group, member, asked.held, held]
  refine wp_send ⟨undue rfl, fun _ => ⟨_, _, towards⟩⟩ fun answer => ?_
  dsimp only
  split
  · next ok =>
    obtain ⟨response, rfl, code⟩ := (delivered_iff answer).mp ok
    refine ⟨accepted_marked towards code, fun _ _ => ?_⟩
    refine ⟨rfl, fun key => ?_, fun event past => ?_⟩
    · exact (Custody.held_kept _ rfl rfl).trans
        ((Custody.held_kept _ rfl rfl).trans (asked.held key))
    · exact List.mem_cons_of_mem _ (List.mem_cons_of_mem _ (asked.events event past))
  · next refused => exact asked.next (fun _ => rfl) (refused_calm refused)

/-- The first update listed for a member is the only one. -/
theorem listed_unique {updates : List GroupUpdate} {u : GroupUpdate}
    (distinct : (updates.map fun u => (u.groupId, u.memberId)).Nodup) (among : u ∈ updates) :
    updates.find? (fun other : GroupUpdate => (other.groupId, other.memberId) =
      (u.groupId, u.memberId)) = some u := by
  induction updates with
  | nil => cases among
  | cons head rest ih =>
      obtain ⟨fresh, distinct⟩ := List.nodup_cons.mp distinct
      rcases List.mem_cons.mp among with rfl | later
      · exact List.find?_cons_of_pos (decide_eq_true rfl)
      · have other : (head.groupId, head.memberId) ≠ (u.groupId, u.memberId) :=
          fun same => fresh (List.mem_map.mpr ⟨u, later, same.symm⟩)
        rw [List.find?_cons_of_neg (by simpa using other)]
        exact ih distinct later

theorem retryPass_pushing : retryPass.wp pushing.contract Calm [] := by
  have monotone := pushing.contract_monotone
  refine wp_does rfl rfl fun messages _ => wp_does rfl rfl fun edits _ => ?_
  refine wp_does rfl rfl fun (updates : List GroupUpdate) ⟨distinct, clean⟩ => ?_
  generalize start : (⟨.inl (.call .getPendingGroupUpdates), updates⟩ :: _ : Trace) = listed
  have held : ∀ u ∈ updates, snapshotCustody.held (u.groupId, u.memberId) listed =
      some u.snapshotJson := by
    intro u among
    rw [← start]
    exact Custody.held_taken _ (congrArg (Option.map _) (listed_unique distinct among))
  have there : (⟨.inl (.call .getPendingGroupUpdates), updates⟩ : Event nodeSig) ∈ listed := by
    simp [← start]
  have begun : Listing listed listed := ⟨by rw [← start]; rfl, fun _ => rfl, fun _ past => past⟩
  refine Program.wp_seq monotone _ _ _ (Program.wp_forM_mem monotone _ (Listing listed) updates
    (fun u among after listing => ?_) _ begun) fun _ after listing => ?_
  · exact Program.wp_seq monotone _ _ _
      (retryGroupUpdate_pushing listing among (clean u among) there (held u among))
      fun _ _ kept => kept
  refine wp_does rfl listing.calm fun deletes _ => wp_does rfl rfl fun now _ => ?_
  refine wp_then (wp_free (Program.only_mono groupFree_pushFree _
    (Program.only_forM (retryPendingMessage_groupFree now) messages)) rfl) fun _ _ calm => ?_
  refine wp_then (wp_free (Program.only_mono groupFree_pushFree _
    (Program.only_forM (retryPendingEdit_groupFree now) edits)) calm) fun _ _ calm => ?_
  exact wp_free (Program.only_mono groupFree_pushFree _
    (Program.only_forM (retryPendingDelete_groupFree now) deletes)) calm

theorem founds_pushFree (operation : nodeSig.Op) (founding : founds operation = true) :
    pushFree operation = true := by
  cases operation with
  | inl operation =>
      cases operation with
      | call call => cases call <;> first | rfl | cases founding
      | _ => rfl
  | inr request => cases founding

end Routes

section Served

theorem groupFree_taking (request : Request) (history : Trace) (operation : nodeSig.Op)
    (free : groupFree operation = true) : (taking request).allowed history operation := by
  cases operation using operation_cases with
  | call db => cases db <;> trivial
  | sent request =>
      have other : request.endpoint ≠ .acceptGroupUpdate := of_decide_eq_true free
      exact other
  | _ => trivial

/-- What the handler has read is the body it was given. -/
theorem header_read {dataJson : Json} {read : Rejection.Header}
    (known : Rejection.header (some dataJson) = some read) :
    read.dataJson = dataJson ∧ dataJson.s? "group_id" = some read.groupId := by
  unfold Rejection.header at known
  dsimp only at known
  split at known
  · next named _ _ =>
    cases known
    exact ⟨rfl, named⟩
  · cases known

/-- The entries read so far are the first ones of the list. -/
def ReadSoFar (entries rest : List Json) (read : Option (List GroupMember)) : Prop :=
  ∀ members, read = some members → ∀ left, rest.mapM memberEntry = some left →
    entries.mapM memberEntry = some (members.map entry ++ left)

theorem readMember_taking {request : Request} {entries : List Json} (groupId : Str) (e : Json)
    (rest : List Json) (read : Option (List GroupMember)) (history : Trace)
    (soFar : ReadSoFar entries (e :: rest) read) :
    (readMember groupId read e).wp (taking request).contract
      (fun later _ => ReadSoFar entries rest later) history := by
  unfold readMember
  cases read with
  | none => exact fun _ absent => by cases absent
  | some members =>
  dsimp only
  cases member : e.s? "member_id" with
  | none => exact fun _ absent => by cases absent
  | some memberId =>
  cases address : e.s? "server_address" with
  | none => exact fun _ absent => by cases absent
  | some serverAddress =>
  cases named : e.s? "role" with
  | none => exact fun _ absent => by cases absent
  | some role =>
  refine ⟨trivial, fun addedAt _ => ?_⟩
  rintro _ ⟨⟩ left readable
  have known : memberEntry e = some (memberId, serverAddress, role) := by
    simp [memberEntry, member, address, named]
  have whole : (e :: rest).mapM memberEntry = some ((memberId, serverAddress, role) :: left) := by
    rw [List.mapM_cons, known, readable]
    rfl
  rw [soFar members rfl _ whole]
  simp [entry]

theorem acceptGroupUpdate_taking (request : Request)
    (endpoint : request.endpoint = .acceptGroupUpdate) :
    (acceptGroupUpdate (some request.body)).wp (taking request).contract (took request) [] := by
  have monotone := (taking request).contract_monotone
  rcases Rejection.accept_cases (some request.body) with
    ⟨_, response, code, refused⟩ | ⟨read, known, goesOn⟩
  · rw [refused]
    exact fun ok => absurd ok code
  obtain ⟨same, named⟩ := header_read known
  have recorded : (recordGroup read.groupId read.senderId read.groupName).wp
      (taking request).contract (fun _ _ => True) [] := by
    refine ⟨trivial, fun found _ => ?_⟩
    cases found with
    | none => exact ⟨trivial, fun _ _ => ⟨trivial, fun _ _ => trivial⟩⟩
    | some g =>
        change (if (!List.isEmpty read.groupName && decide (g.name ≠ read.groupName)) = true then _
          else _ : Proc Unit).wp _ _ _
        split
        · exact ⟨trivial, fun _ _ => trivial⟩
        · trivial
  rw [goesOn]
  refine Program.wp_seq monotone _ _ [] recorded fun _ history _ => ?_
  unfold Rejection.storeMembers
  rw [same]
  cases items : request.body.items? "members" with
  | none => exact fun code => by cases code
  | some entries =>
  dsimp only
  have start : ReadSoFar entries entries (some []) := by
    rintro _ ⟨⟩ left readable
    exact readable
  refine Program.wp_seq monotone _ _ history (Program.wp_foldlM monotone _
    (fun rest so _ => ReadSoFar entries rest so)
    (fun e rest so after => readMember_taking read.groupId e rest so after) entries _ _ start) ?_
  intro members after soFar
  cases members with
  | none => exact fun code => by cases code
  | some members =>
  have readable : memberEntries request.body = some (members.map entry) := by
    unfold memberEntries
    rw [items]
    simpa using soFar members rfl [] rfl
  refine wp_perform ⟨endpoint, named, readable⟩ fun (stored : Bool) _ => ?_
  cases stored with
  | false => exact fun code => by cases code
  | true => exact fun _ _ => ⟨read.groupId, members, true, named, List.mem_cons_self⟩

theorem serve_taking {Host : Type} (network : Deployment Host) (host : Host) (request : Request) :
    (network.serve host request).wp (taking request).contract (took request) [] := by
  have other : ∀ {program : Proc Response}, request.endpoint ≠ .acceptGroupUpdate →
      program.Only groupFree → program.wp (taking request).contract (took request) [] := by
    intro program differs only
    refine Program.wp_mono (taking request).contract_monotone _ ?_ []
      (Program.wp_of_only (groupFree_taking request) _ only [])
    exact fun _ _ _ _ push => absurd push differs
  unfold Deployment.serve Handlers.serve
  cases endpoint : request.endpoint with
  | acceptMessage => exact other (by simp [endpoint]) (acceptMessage_groupFree _ _ _)
  | acceptEdit => exact other (by simp [endpoint]) (acceptEdit_groupFree _ _ _)
  | acceptDelete => exact other (by simp [endpoint]) (acceptDelete_groupFree _ _)
  | acceptGroupUpdate => exact acceptGroupUpdate_taking request endpoint
  | publicKey => exact fun _ push => by cases endpoint.symm.trans push

end Served

/-! The conduct of a whole network. -/
section Whole
variable {Host : Type} (network : Deployment Host) (host : Host)

theorem program_pushing (task : Task) (inside : isIncoming task = false) :
    (network.program host task).wp pushing.contract Calm [] := by
  cases about : aboutGroups task with
  | false =>
      exact wp_free (Program.only_mono groupFree_pushFree _
        (program_groupFree network host task about)) rfl
  | true =>
      cases task with
      | groupsCreate req =>
          exact wp_free (Program.only_mono founds_pushFree _ (groupsCreate_founds _ _ req)) rfl
      | addMember req group => exact addMember_pushing _ _ req group
      | removeMember req group => exact removeMember_pushing _ _ req group
      | retryPass => exact wp_then retryPass_pushing fun _ _ calm => calm
      | incoming => cases inside
      | _ => cases about

def grouped (_ : Host) : Option Request → Discipline nodeSig
  | none => pushing
  | some request => taking request

theorem grouped_disciplined : Rpc.Disciplined grouped (fun _ : Host => took) network.system
    fun _ task => isIncoming task = false where
  possible host origin input operation store := by
    cases origin <;> exact answered_handle input operation store
  answers host origin request answer := by
    cases origin <;> trivial
  program host task enters :=
    Program.wp_mono pushing.contract_monotone _ (fun _ _ _ => trivial) []
      (program_pushing network host task enters)
  serve host request _ := serve_taking network host request

/-- Nobody marks a push as accepted that was not in hand. -/
theorem careful_snapshot : Rpc.Careful network.system snapshotCustody Answered grouped where
  uniform host origin := by cases origin <;> rfl
  handled host input operation store := answered_handle input operation store
  answered _ _ := trivial
  untaken _ _ _ := rfl
  uses host origin key history operation allowed uses := by
    match operation with
    | .inl (.call (.markGroupUpdateAccepted groupId memberId)) =>
        cases origin with
        | none =>
            obtain ⟨_, request, answer, earlier, rfl, _, towards⟩ := allowed
            subst uses
            exact ⟨_, (Custody.held_kept earlier rfl rfl).trans towards.held⟩
        | some request => exact allowed.elim

/-- Whoever runs a program of the node marks an accepted push next. -/
def Prompt (program : Proc Response) (history : Trace) : Prop :=
  program.wp prompt.contract Calm history

/-- Free of pushes to other nodes. -/
def pushless : nodeSig.Op → Bool
  | .inr request => request.endpoint ≠ .acceptGroupUpdate
  | _ => true

theorem pushless_prompt {program : Proc Response} (only : program.Only pushless) :
    Prompt program [] := by
  refine Program.wp_of_kept (fun history operation free calm => ⟨undue calm, fun answer => ?_⟩)
    program only [] rfl
  match operation with
  | .inl _ => rfl
  | .inr request => simp [due, of_decide_eq_true free]

theorem groupFree_pushless (operation : nodeSig.Op) (free : groupFree operation = true) :
    pushless operation = true := by
  cases operation with
  | inl operation => rfl
  | inr request => exact free

theorem silent_pushless (operation : nodeSig.Op) (free : silent operation = true) :
    pushless operation = true := by
  cases operation with
  | inl operation => rfl
  | inr request => cases free

theorem receive_pushless (endpoint : Endpoint) (body : Option Json) :
    (network.receive host endpoint body).Only pushless := by
  cases endpoint with
  | acceptMessage => exact Program.only_mono groupFree_pushless _ (acceptMessage_groupFree _ _ body)
  | acceptEdit => exact Program.only_mono groupFree_pushless _ (acceptEdit_groupFree _ _ body)
  | acceptDelete => exact Program.only_mono groupFree_pushless _ (acceptDelete_groupFree _ body)
  | acceptGroupUpdate => exact Program.only_mono silent_pushless _ (acceptGroupUpdate_silent body)
  | publicKey => trivial

theorem program_prompt (task : Task) : Prompt (network.program host task) [] := by
  cases incoming : isIncoming task with
  | false =>
      have loose : ∀ history operation, pushing.allowed history operation →
          prompt.allowed history operation := fun _ _ allowed => allowed.1
      exact @Program.wp_weaken _ _ pushing prompt (fun _ _ possible => possible) loose _ Calm []
        (program_pushing network host task incoming)
  | true =>
      cases task with
      | incoming endpoint body => exact pushless_prompt (receive_pushless network host endpoint body)
      | _ => cases incoming

theorem serve_prompt (request : Request) : Prompt (network.serve host request) [] := by
  have same : network.serve host request =
      network.receive host request.endpoint (some request.body) := by
    unfold Deployment.serve Handlers.serve Deployment.receive
    cases request.endpoint <;> rfl
  rw [same]
  exact pushless_prompt (receive_pushless network host _ _)

variable {network} [DecidableEq Host] {before after : World Host} {label : Action Host}

theorem prompt_step (step : Rpc.Step network.system label before after)
    (all : ∀ thread ∈ before.threads, Prompt thread.program thread.history) :
    ∀ thread ∈ after.threads, Prompt thread.program thread.history :=
  Rpc.each_step (fun _ _ _ _ answer possible keeps => keeps.2 answer possible)
    (fun _ input operation store => answered_handle input operation store) (fun _ _ => trivial)
    (fun host task => program_prompt network host task)
    (fun host request => serve_prompt network host request) step all

/-- At a push that may be accepted the program may still mark it. -/
theorem prompt_marks {request : Request} {next : Option Response → Proc Response}
    {history : Trace} (prompts : Prompt (.op (.inr request) next) history)
    (push : request.endpoint = .acceptGroupUpdate) (answer : Response)
    (code : answer.code = 200) : ∃ groupId memberId rest, next (some answer) =
      .op (.inl (.call (.markGroupUpdateAccepted groupId memberId))) rest := by
  have later : Prompt (next (some answer)) (⟨.inr request, some answer⟩ :: history) :=
    prompts.2 (some answer) trivial
  have pressing : due (⟨.inr request, some answer⟩ :: history) = true := by
    simp [due, push, delivered, code]
  cases goesOn : next (some answer) with
  | ret value =>
      rw [goesOn] at later
      cases pressing.symm.trans later
  | op operation rest =>
      rw [goesOn] at later
      obtain ⟨groupId, memberId, rfl⟩ := mark_of_isMark (later.1 pressing)
      exact ⟨groupId, memberId, rest, rfl⟩

end Whole

end NoMiddle.SnapshotConduct
