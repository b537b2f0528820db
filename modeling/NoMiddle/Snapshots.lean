import NoMiddle.Library.RpcTrace
import NoMiddle.Edits
import NoMiddle.SnapshotConduct

/-! A membership snapshot and its acknowledgement. A snapshot carries a version that
neither the member nor the mark that follows a 200 looks at. As long as a member's row
is renewed only while no earlier snapshot is on its way to that member, the snapshot that
is acknowledged is the list the member has, and it never goes back to an older one. -/
namespace NoMiddle.Snapshots
open Library Text Crypto DbManager DbViews Node Network Conduct TaskConduct Recall
open SnapshotConduct
open Edits (Begins id_injective)
open Handlers (HttpRequest)
open GroupMembership (Sound entry listed listed_replaced foundation founded admission)
open Rejection (memberEntries)

/-- The store lists exactly the members the snapshot names. -/
def Shows (groupId : Str) (snapshotJson : Json) (store : Store) : Prop :=
  ∃ entries, memberEntries snapshotJson = some entries ∧
    listed store groupId = {e | e ∈ entries}

/-- A row that was written by an edit and whose list can be stored as it is. -/
structure Proper (row : GroupUpdate) : Prop where
  version : row.snapshotJson.i? "version" = some row.version
  entries : ∃ entries, memberEntries row.snapshotJson = some entries ∧ Sound entries

/-- Each row of the table has a snapshot of its own group. -/
def Described (store : Store) : Prop :=
  ∀ key row, store.groupUpdates.find key = some row → describes key.1 row.snapshotJson = true

section Model
variable {Host : Type} (network : Deployment Host) (sender receiver : Host) (groupId : Str)

/-- The snapshots of the group for one member and their copy at its node. -/
def copies : Rpc.Replica localSig Host Store Request Response (Str × Str) Json where
  sender := sender
  receiver := receiver
  custody := snapshotCustody
  item := (groupId, network.id receiver)
  possible := Answered
  fits snapshotJson store := ∃ row,
    store.groupUpdates.find (groupId, network.id receiver) = some row ∧
      snapshotJson = row.snapshotJson
  about request := request.endpoint = .acceptGroupUpdate ∧
    describes groupId request.body = true ∧ network.routes request.serverAddress receiver = true
  carries request store :=
    (∀ peer, network.routes request.serverAddress peer = true → peer = receiver) ∧
    ∃ row, store.groupUpdates.find (groupId, network.id receiver) = some row ∧
      request.body = row.snapshotJson
  accepts answer := answer.code = 200
  applies _ operation _ := ∃ named members,
    operation = .call (.replaceGroupMembers named members) ∧ cstr named = groupId
  same mine theirs := ∀ row,
    mine.groupUpdates.find (groupId, network.id receiver) = some row →
      Shows groupId row.snapshotJson theirs
  settled store := ∃ row,
    store.groupUpdates.find (groupId, network.id receiver) = some row ∧ row.accepted = 1

/-- A push of the group is posted to an address that leads to nobody but the member it is
meant for. -/
def Led (host : Host) (history : Trace) (request : Request) : Prop :=
  host = sender → request.endpoint = .acceptGroupUpdate → describes groupId request.body = true →
    ∀ peer, network.routes request.serverAddress peer = true →
      meant history = some (network.id peer)

/-- The member's row is renewed only when no earlier snapshot is under way to it, never by
an older one, and by a list that the C strings of the table hold. -/
structure Renewable (state : World Host) (index : Nat) (u : GroupUpdate) : Prop where
  quiet : (copies network sender receiver groupId).Quiet state index
  newer : ∀ row, (state.stores sender).groupUpdates.find (groupId, network.id receiver) = some row →
    row.version ≤ u.version
  clean : ∀ entries, memberEntries u.snapshotJson = some entries →
    ∀ e ∈ entries, Clean e.1 ∧ Clean e.2.1 ∧ Clean e.2.2

structure Timely (state : World Host) (label : Action Host) : Prop where
  posts : ∀ index thread request next, label = .post index →
    state.threads[index]? = some thread → thread.program = .op (.inr request) next →
    Led network sender groupId thread.node thread.history request
  renews : ∀ index input thread u next, label = .act index input →
    state.threads[index]? = some thread → thread.node = sender →
    thread.program = .op (.inl (.call (.upsertGroupUpdate u))) next →
    (cstr u.groupId, cstr u.memberId) = (groupId, network.id receiver) →
    Renewable network sender receiver groupId state index u

/-- What holds in every state of such a run. -/
structure Tended (state : World Host) : Prop where
  linked : Rpc.Linked state
  complies : ∀ thread ∈ state.threads, thread.Complies grouped (fun _ => took)
  prompts : ∀ thread ∈ state.threads, Prompt thread.program thread.history
  serving : Serving sender state
  reached : Rpc.Reached network.system state
  vouched : Rpc.Vouched (Led network sender groupId) state
  described : Described (state.stores sender)
  recalled : ∀ thread ∈ state.threads, thread.node = sender → ∀ updates,
    (⟨.inl (.call .getPendingGroupUpdates), updates⟩ : Event nodeSig) ∈ thread.history →
    ∀ u ∈ (updates : List GroupUpdate), describes u.groupId u.snapshotJson = true
  proper : ∀ row, (state.stores sender).groupUpdates.find (groupId, network.id receiver) = some row →
    Proper row
  faithful : (copies network sender receiver groupId).Faithful state

end Model

variable {Host : Type} {network : Deployment Host} {sender receiver : Host} {groupId : Str}
  {state before after : World Host} {label : Action Host} {key : Str × Str}

/-! What an operation does to the row. -/

structure SameSnapshot (old row : GroupUpdate) : Prop where
  snapshotJson : old.snapshotJson = row.snapshotJson
  version : old.version = row.version

def Rewrites (key : Str × Str) : LocalOp → Prop
  | .call (.upsertGroupUpdate u) => (cstr u.groupId, cstr u.memberId) = key
  | _ => False

theorem row_kept (input : Input) {operation : LocalOp} (other : ¬Rewrites key operation)
    {store : Store} {old : GroupUpdate} (found : store.groupUpdates.find key = some old) :
    ∃ row, (handle input operation store).2.groupUpdates.find key = some row ∧
      SameSnapshot old row := by
  cases operation with
  | call call =>
      have changed := groupUpdates_exec input.now store call key
      rw [found] at changed
      cases call with
      | upsertGroupUpdate u => exact ⟨old, changed.trans (if_neg other), rfl, rfl⟩
      | markGroupUpdateAccepted named memberId =>
          by_cases hit : (cstr named, cstr memberId) = key
          · exact ⟨_, changed.trans (if_pos hit), rfl, rfl⟩
          · exact ⟨old, changed.trans (if_neg hit), rfl, rfl⟩
      | _ => exact ⟨old, changed, rfl, rfl⟩
  | _ => exact ⟨old, found, rfl, rfl⟩

/-- Where a row comes from that was not written just now, and its acceptance. -/
theorem row_before (input : Input) {operation : LocalOp} (other : ¬Rewrites key operation)
    {store : Store} {row : GroupUpdate}
    (found : (handle input operation store).2.groupUpdates.find key = some row) :
    ∃ old, store.groupUpdates.find key = some old ∧ SameSnapshot old row ∧
      (row.accepted = 1 → old.accepted = 1 ∨ ∃ named memberId,
        operation = .call (.markGroupUpdateAccepted named memberId) ∧
          (cstr named, cstr memberId) = key) := by
  cases operation with
  | call call =>
      have changed := (groupUpdates_exec input.now store call key).symm.trans found
      cases call with
      | upsertGroupUpdate u => exact ⟨row, (if_neg other).symm.trans changed, ⟨rfl, rfl⟩, .inl⟩
      | markGroupUpdateAccepted named memberId =>
          by_cases hit : (cstr named, cstr memberId) = key
          · obtain ⟨old, there, rfl⟩ := Option.map_eq_some_iff.mp ((if_pos hit).symm.trans changed)
            exact ⟨old, there, ⟨rfl, rfl⟩, fun _ => .inr ⟨named, memberId, rfl, hit⟩⟩
          · exact ⟨row, (if_neg hit).symm.trans changed, ⟨rfl, rfl⟩, .inl⟩
      | _ => exact ⟨row, changed, ⟨rfl, rfl⟩, .inl⟩
  | _ => exact ⟨row, found, ⟨rfl, rfl⟩, .inl⟩

theorem row_written (input : Input) (store : Store) {u : GroupUpdate}
    (hit : (cstr u.groupId, cstr u.memberId) = key) :
    ∃ row, (handle input (.call (.upsertGroupUpdate u)) store).2.groupUpdates.find key = some row ∧
      SameSnapshot u row ∧ row.accepted = 0 := by
  have changed := (find_upsertGroupUpdate input.now u store.groupUpdates key).trans (if_pos hit)
  cases there : store.groupUpdates.find key with
  | none =>
      rw [there] at changed
      exact ⟨_, changed, ⟨rfl, rfl⟩, rfl⟩
  | some old =>
      rw [there] at changed
      exact ⟨_, changed, ⟨rfl, rfl⟩, rfl⟩

theorem taken_row (input : Input) {operation : LocalOp} {store : Store} {snapshotJson : Json}
    (took : takesSnapshot key ⟨.inl operation, (handle input operation store).1⟩ =
      some snapshotJson) :
    ∃ row, (handle input operation store).2.groupUpdates.find key = some row ∧
      snapshotJson = row.snapshotJson := by
  match operation with
  | .call (.upsertGroupUpdate u) =>
      by_cases hit : (cstr u.groupId, cstr u.memberId) = key
      · obtain ⟨row, found, same, _⟩ := row_written input store hit
        cases (if_pos hit).symm.trans took
        exact ⟨row, found, same.snapshotJson⟩
      · cases (if_neg hit).symm.trans took
  | .call .getPendingGroupUpdates =>
      obtain ⟨u, first, rfl⟩ := Option.map_eq_some_iff.mp took
      have among := (mem_pendingGroupUpdates store.groupUpdates u).mp
        (List.mem_of_find?_eq_some first)
      have holds := List.find?_some first
      have same : (u.groupId, u.memberId) = key := of_decide_eq_true holds
      exact ⟨u, same ▸ among.1, rfl⟩

/-! What an operation does to the list of members. -/

theorem listed_cstr (store : Store) (named : Str) :
    listed store (cstr named) = listed store named := by
  unfold listed groupMembersOf
  rw [cstr_of_clean (cstr_clean named)]

theorem shows_replaced {snapshotJson : Json} {named : Str} {members : List GroupMember}
    {store : Store} (group : cstr named = groupId)
    (read : memberEntries snapshotJson = some (members.map entry))
    (proper : ∃ entries, memberEntries snapshotJson = some entries ∧ Sound entries)
    (now : Int) :
    Shows groupId snapshotJson ((Call.replaceGroupMembers named members).exec now store).2 := by
  obtain ⟨entries, same, sound⟩ := proper
  cases read.symm.trans same
  refine ⟨_, read, ?_⟩
  rw [← group, listed_cstr]
  exact listed_replaced sound store.groupMembers rfl

theorem listed_other {named : Str} {members : List GroupMember} {store : Store}
    (clean : Clean groupId) (other : cstr named ≠ groupId) (now : Int) :
    listed ((Call.replaceGroupMembers named members).exec now store).2 groupId =
      listed store groupId := by
  have same : ∀ m, m ∈ groupMembersOf groupId
      ((Call.replaceGroupMembers named members).exec now store).2.groupMembers ↔
      m ∈ groupMembersOf groupId store.groupMembers := by
    intro m
    rw [mem_groupMembersOf, mem_groupMembersOf, groupMembers_exec, cstr_of_clean clean]
    rw [onMember, if_neg other]
  ext e
  simp only [listed, List.mem_map, same, Set.mem_ofPred_eq]

/-! What the threads of such a network do. -/
section Threads

theorem describes_iff {body : Json} : describes groupId body = true ↔
    ∃ named, body.s? "group_id" = some named ∧ cstr named = groupId := by
  unfold describes
  cases body.s? "group_id" <;> simp

theorem describes_unique {left right : Str} {body : Json} (first : describes left body = true)
    (second : describes right body = true) : left = right := by
  obtain ⟨named, read, rfl⟩ := describes_iff.mp first
  obtain ⟨other, again, rfl⟩ := describes_iff.mp second
  cases read.symm.trans again
  rfl

/-- Only the sender's own tasks push, and they follow its conduct. -/
theorem own_allowed (tended : Tended network sender receiver groupId state) {thread : Thread Host}
    (member : thread ∈ state.threads) {operation : nodeSig.Op}
    {next : nodeSig.Res operation → Proc Response} (here : thread.program = .op operation next)
    (pushes : pushFree operation = false) :
    thread.node = sender ∧ thread.origin = none ∧ pushing.allowed thread.history operation := by
  have allowed := Rpc.complies_allowed (tended.complies thread member) here
  cases serves : thread.origin with
  | none =>
      rw [serves] at allowed
      refine ⟨?_, rfl, allowed⟩
      -- Every other node runs threads that serve.
      by_contra peer
      obtain ⟨job, request, other⟩ := tended.serving thread member peer
      cases serves.symm.trans other
  | some served =>
      rw [serves] at allowed
      match operation with
      | .inl (.call (.upsertGroupUpdate _)) | .inl (.call (.markGroupUpdateAccepted ..)) =>
          exact allowed.elim
      | .inr request => exact absurd (of_not_not (of_decide_eq_false pushes)) allowed

theorem drawn_describes (tended : Tended network sender receiver groupId state)
    {thread : Thread Host} (member : thread ∈ state.threads) (node : thread.node = sender)
    {history : Trace} (past : ∀ event ∈ history, event ∈ thread.history) {named : Str}
    {snapshotJson : Json} (drawn : Drawn history named snapshotJson) :
    describes (cstr named) snapshotJson = true := by
  rcases drawn with read | ⟨updates, listed, u, among, rfl, rfl⟩
  · exact describes_iff.mpr ⟨named, read, rfl⟩
  · obtain ⟨other, read, same⟩ := describes_iff.mp
      (tended.recalled thread member node updates (past _ listed) u among)
    rw [← same, cstr_of_clean (cstr_clean other)]
    exact describes_iff.mpr ⟨other, read, rfl⟩

theorem led_alone {thread : Thread Host} {request : Request} {history : Trace}
    {named memberId : Str} (led : Led network sender groupId thread.node history request)
    (node : thread.node = sender) (towards : Towards history named memberId request)
    (names : describes groupId request.body = true) :
    ∀ peer, network.routes request.serverAddress peer = true →
      cstr memberId = network.id peer := by
  intro peer leads
  have whom := led node towards.endpoint names peer leads
  exact Option.some.inj (towards.member.symm.trans whom)

/-- The sender marks the member's row only when the member has answered 200. -/
theorem own_marked (tended : Tended network sender receiver groupId state) {thread : Thread Host}
    (member : thread ∈ state.threads) {named memberId : Str} {next : Unit → Proc Response}
    (here : thread.program =
      .op (.inl (.call (.markGroupUpdateAccepted named memberId))) next)
    (key : (cstr named, cstr memberId) = (groupId, network.id receiver)) :
    (copies network sender receiver groupId).Holds thread ∧
      (copies network sender receiver groupId).Acknowledged thread := by
  obtain ⟨node, _, _, request, answer, earlier, past, code, towards⟩ :=
    own_allowed tended member here rfl
  obtain ⟨rfl, whom⟩ := Prod.mk.inj key
  constructor
  · refine ⟨node, ?_⟩
    rw [here]
    exact .inl key
  have names : describes (cstr named) request.body = true := by
    refine drawn_describes tended member node (fun event before => ?_) towards.drawn
    rw [past]
    exact List.mem_cons_of_mem _ before
  -- Somebody was reached, and nobody but the member could be.
  have led := tended.vouched.received thread member request (some answer) earlier past
  obtain ⟨peer, leads⟩ := tended.reached.received thread member request answer earlier past
  have same : peer = receiver := by
    have whose := led_alone led node towards names peer leads
    exact id_injective (whose.symm.trans whom)
  exact ⟨request, answer, earlier, past, ⟨towards.endpoint, names, same ▸ leads⟩, code⟩

theorem own_posted (tended : Tended network sender receiver groupId state) {thread : Thread Host}
    (member : thread ∈ state.threads) {request : Request}
    {next : Option Response → Proc Response} (here : thread.program = .op (.inr request) next)
    {named memberId : Str} (push : request.endpoint = .acceptGroupUpdate)
    (group : ∀ other otherMember, Towards thread.history other otherMember request →
      (cstr other, cstr otherMember) = (named, memberId)) :
    thread.program.InHand snapshotCustody (named, memberId) Answered := by
  obtain ⟨other, otherMember, rest, marks⟩ := prompt_marks (here ▸ tended.prompts thread member)
    push ⟨200, .empty⟩ rfl
  have complies := tended.complies thread member
  have owned := own_allowed tended member here (by simp [pushFree, push])
  rw [here]
  refine .inr ⟨some ⟨200, .empty⟩, trivial, rfl, ?_⟩
  rw [marks]
  refine .inl (group other otherMember ?_)
  -- What is allowed after the answer is the mark of what was posted.
  have later := (Rpc.complies_act here complies (some ⟨200, .empty⟩) (by
    rw [owned.2.1]
    trivial)).2
  have allowed := Rpc.complies_allowed later marks
  rw [show (thread.resume (.inr request) next (some ⟨200, .empty⟩)).origin = none from
    owned.2.1] at allowed
  obtain ⟨_, sent, answer, earlier, same, _, towards⟩ := allowed
  cases same
  exact towards

end Threads

/-! What one step keeps. -/
section Step

theorem keeps_other (tended : Tended network sender receiver groupId before)
    {thread : Thread Host} (member : thread ∈ before.threads) (node : thread.node = sender)
    {input : Input} {operation : LocalOp} {next : operation.Res → Proc Response}
    (here : thread.program = .op (.inl operation) next)
    (other : ¬Rewrites (groupId, network.id receiver) operation) :
    (copies network sender receiver groupId).Keeps before thread
      ⟨.inl operation, (handle input operation (before.stores thread.node)).1⟩
      (handle input operation (before.stores thread.node)).2 := by
  subst node
  constructor
  · rintro _ ⟨old, found, rfl⟩
    obtain ⟨row, there, same⟩ := row_kept input other found
    exact ⟨row, there, same.snapshotJson⟩
  · rintro request ⟨alone, old, found, body⟩
    obtain ⟨row, there, same⟩ := row_kept input other found
    exact ⟨alone, row, there, body.trans same.snapshotJson⟩
  · intro theirs shown row found
    obtain ⟨old, there, same, _⟩ := row_before input other found
    rw [← same.snapshotJson]
    exact shown old there
  · intro snapshotJson took
    exact taken_row input took
  · rintro ⟨row, found, accepted⟩
    obtain ⟨old, there, _, marked⟩ := row_before input other found
    rcases marked accepted with earlier | ⟨named, memberId, rfl, key⟩
    · exact .inl ⟨old, there, earlier⟩
    · exact .inr (own_marked tended member here key)

theorem renews_row (timely : Timely network sender receiver groupId before label) {index : Nat} {input : Input}
    {thread : Thread Host} {u : GroupUpdate} {next : Unit → Proc Response}
    (acts : label = .act index input) (current : before.threads[index]? = some thread)
    (node : thread.node = sender)
    (here : thread.program = .op (.inl (.call (.upsertGroupUpdate u))) next)
    (key : (cstr u.groupId, cstr u.memberId) = (groupId, network.id receiver)) :
    (copies network sender receiver groupId).Renews before index
      ⟨.inl (.call (.upsertGroupUpdate u)),
        (handle input (.call (.upsertGroupUpdate u)) (before.stores thread.node)).1⟩
      (handle input (.call (.upsertGroupUpdate u)) (before.stores thread.node)).2 := by
  obtain ⟨row, found, same, unaccepted⟩ := row_written input (before.stores thread.node) key
  refine ⟨(timely.renews index input thread u next acts current node here key).quiet, ?_, ?_⟩
  · exact ⟨u.snapshotJson, if_pos key, row, found, same.snapshotJson⟩
  · rintro ⟨other, there, accepted⟩
    cases found.symm.trans there
    cases unaccepted.symm.trans accepted

theorem written_proper {u row : GroupUpdate} (same : SameSnapshot u row)
    (written : Written u.groupId u.version u.snapshotJson)
    (clean : ∀ entries, memberEntries u.snapshotJson = some entries →
      ∀ e ∈ entries, Clean e.1 ∧ Clean e.2.1 ∧ Clean e.2.2) : Proper row := by
  obtain ⟨entries, read, distinct⟩ := written.entries
  refine ⟨?_, entries, ?_, ?_, clean entries read⟩
  · rw [← same.snapshotJson, ← same.version, written.version]
  · rw [← same.snapshotJson, read]
  · have ids : entries.map (·.1) = entries.map fun e => cstr e.1 := by
      apply List.map_congr_left
      intro e member
      exact (cstr_of_clean (clean entries read e member).1).symm
    rw [ids]
    exact distinct

theorem theirs_replaced (tended : Tended network sender receiver groupId before)
    (apart : receiver ≠ sender) (clean : Clean groupId) {thread : Thread Host}
    (member : thread ∈ before.threads) (node : thread.node = receiver) {input : Input}
    {operation : LocalOp} {next : operation.Res → Proc Response}
    (here : thread.program = .op (.inl operation) next) :
    listed (handle input operation (before.stores thread.node)).2 groupId =
        listed (before.stores thread.node) groupId ∨
    ∃ job request, thread.origin = some (job, request) ∧
      (copies network sender receiver groupId).about request ∧
      ((∃ entries, memberEntries request.body = some entries ∧ Sound entries) →
        Shows groupId request.body (handle input operation (before.stores thread.node)).2) := by
  subst node
  obtain ⟨job, request, serves⟩ := tended.serving thread member apart
  have allowed := Rpc.complies_allowed (tended.complies thread member) here
  rw [serves] at allowed
  cases operation with
  | call call =>
      cases call with
      | replaceGroupMembers named members =>
          obtain ⟨endpoint, group, read⟩ := allowed
          by_cases same : cstr named = groupId
          · have about : (copies network sender thread.node groupId).about request :=
              ⟨endpoint, describes_iff.mpr ⟨named, group, same⟩,
                tended.reached.origin thread member job request serves⟩
            refine .inr ⟨job, request, serves, about, fun proper => ?_⟩
            exact shows_replaced same read proper input.now
          · exact .inl (listed_other clean same input.now)
      | deleteGroup _ => exact allowed.elim
      | _ => exact .inl rfl
  | _ => exact .inl rfl

/-- What a request carries is the row's snapshot, and that one is proper. -/
theorem carried_row (tended : Tended network sender receiver groupId before) {request : Request}
    (carries : (copies network sender receiver groupId).carries request (before.stores sender)) :
    ∃ row, (before.stores sender).groupUpdates.find (groupId, network.id receiver) = some row ∧
      request.body = row.snapshotJson ∧ Proper row := by
  obtain ⟨_, row, found, body⟩ := carries
  exact ⟨row, found, body, tended.proper row found⟩

theorem theirs_kept (tended : Tended network sender receiver groupId before)
    (apart : receiver ≠ sender) {thread : Thread Host} (member : thread ∈ before.threads)
    (node : thread.node = receiver) {input : Input} {operation : LocalOp}
    {next : operation.Res → Proc Response} (here : thread.program = .op (.inl operation) next)
    (carried : ∀ job request, thread.origin = some (job, request) →
      (copies network sender receiver groupId).about request →
      (copies network sender receiver groupId).carries request (before.stores sender))
    (shown : (copies network sender receiver groupId).same (before.stores sender)
      (before.stores receiver)) :
    (copies network sender receiver groupId).same (before.stores sender)
      (handle input operation (before.stores thread.node)).2 := by
  intro row found
  have clean : Clean groupId := by
    have valid := (before.stores sender).groupUpdates.find_valid found
    obtain ⟨rfl, _⟩ := Prod.mk.inj ((before.stores sender).groupUpdates.find_key found)
    exact valid _ (by simp [GroupUpdate.texts])
  rcases theirs_replaced tended apart clean member node here with
    kept | ⟨job, request, serves, about, replaced⟩
  · obtain ⟨entries, read, same⟩ := shown row found
    exact ⟨entries, read, kept.trans (node ▸ same)⟩
  · obtain ⟨other, there, body, proper⟩ := carried_row tended (carried job request serves about)
    cases found.symm.trans there
    rw [← body]
    exact replaced (body ▸ proper.entries)

theorem puts_row (tended : Tended network sender receiver groupId before) {thread : Thread Host}
    (member : thread ∈ before.threads) (input : Input) {named : Str} {members : List GroupMember}
    {next : Bool → Proc Response}
    (here : thread.program = .op (.inl (.call (.replaceGroupMembers named members))) next)
    (group : cstr named = groupId) {job : Nat} {request : Request}
    (serves : thread.origin = some (job, request))
    (carries : (copies network sender receiver groupId).carries request (before.stores sender)) :
    thread.node = receiver ∧ (copies network sender receiver groupId).same (before.stores sender)
      (handle input (.call (.replaceGroupMembers named members))
        (before.stores thread.node)).2 := by
  have allowed := Rpc.complies_allowed (tended.complies thread member) here
  rw [serves] at allowed
  obtain ⟨_, _, read⟩ := allowed
  refine ⟨carries.1 _ (tended.reached.origin thread member job request serves), ?_⟩
  intro row found
  obtain ⟨other, there, body, proper⟩ := carried_row tended carries
  cases found.symm.trans there
  rw [← body]
  exact shows_replaced group read (body ▸ proper.entries) input.now

theorem posts_row (tended : Tended network sender receiver groupId before)
    {thread : Thread Host} (member : thread ∈ before.threads) {request : Request}
    {next : Option Response → Proc Response} (here : thread.program = .op (.inr request) next)
    (led : Led network sender groupId thread.node thread.history request)
    (about : (copies network sender receiver groupId).about request) :
    (copies network sender receiver groupId).Holds thread ∧
    ∀ snapshotJson,
      snapshotCustody.held (groupId, network.id receiver) thread.history = some snapshotJson →
      (copies network sender receiver groupId).fits snapshotJson (before.stores sender) →
      (copies network sender receiver groupId).carries request (before.stores sender) := by
  obtain ⟨endpoint, names, leads⟩ := about
  obtain ⟨node, _, _, allowed⟩ := own_allowed tended member here (by simp [pushFree, endpoint])
  -- It is meant for the member, as its address leads there.
  have mine : ∀ named memberId, Towards thread.history named memberId request →
      (cstr named, cstr memberId) = (groupId, network.id receiver) := by
    intro named memberId towards
    have group := drawn_describes tended member node (fun _ past => past) towards.drawn
    rw [describes_unique group names, led_alone led node towards names receiver leads]
  refine ⟨⟨node, own_posted tended member here endpoint mine⟩, ?_⟩
  rintro _ holds ⟨row, found, rfl⟩
  obtain ⟨named, memberId, towards⟩ := allowed endpoint
  have held := towards.held
  rw [mine named memberId towards, holds] at held
  refine ⟨fun peer reaches => ?_, row, found, (Option.some.inj held).symm⟩
  have first := led_alone led node towards names peer reaches
  have second := led_alone led node towards names receiver leads
  exact id_injective (first.symm.trans second)

theorem upkeep (closed : ∀ request, network.foreign request = false)
    (tended : Tended network sender receiver groupId before) (apart : receiver ≠ sender)
    (timely : Timely network sender receiver groupId before label) :
    (copies network sender receiver groupId).Upkeep network.system before label where
  own index input thread operation next acts current here node := by
    by_cases other : Rewrites (groupId, network.id receiver) operation
    · match operation with
      | .call (.upsertGroupUpdate u) => exact .inr (renews_row timely acts current node here other)
    · exact .inl (keeps_other tended (List.mem_of_getElem? current) node here other)
  theirs index input thread operation next acts current here node carried shown :=
    theirs_kept tended apart (List.mem_of_getElem? current) node here carried shown
  puts index input thread operation next acts current here job request serves about carries := by
    rintro ⟨named, members, rfl, group⟩
    exact puts_row tended (List.mem_of_getElem? current) input here group serves carries
  posts index thread request next posts current here about :=
    posts_row tended (List.mem_of_getElem? current) here
      (timely.posts index thread request next posts current here) about
  replies thread member job request answer serves done about accepts := by
    obtain ⟨named, members, stored, read, past⟩ :=
      Rpc.complies_ensures (tended.complies thread member) serves done accepts about.1
    refine ⟨_, _, past, named, members, rfl, ?_⟩
    exact describes_unique (describes_iff.mpr ⟨named, read, rfl⟩) about.2.1
  closed := closed

variable [DecidableEq Host]

theorem row_step (step : Rpc.Step network.system label before after) {row : GroupUpdate}
    (found : (after.stores sender).groupUpdates.find key = some row) :
    (∃ old, (before.stores sender).groupUpdates.find key = some old ∧ SameSnapshot old row) ∨
    ∃ index input thread u next, label = .act index input ∧
      before.threads[index]? = some thread ∧ thread.node = sender ∧
      thread.program = .op (.inl (.call (.upsertGroupUpdate u))) next ∧
      (cstr u.groupId, cstr u.memberId) = key ∧ SameSnapshot u row := by
  rcases Rpc.stores_step step with
    unchanged | ⟨index, input, thread, operation, next, rfl, current, here, changed⟩
  · exact .inl ⟨row, unchanged ▸ found, rfl, rfl⟩
  by_cases node : thread.node = sender
  · subst node
    rw [changed, Function.update_self] at found
    by_cases other : Rewrites key operation
    · match operation with
      | .call (.upsertGroupUpdate u) =>
          obtain ⟨written, there, same, _⟩ := row_written input (before.stores thread.node) other
          cases found.symm.trans there
          exact .inr ⟨index, input, thread, u, next, rfl, current, rfl, here, other, same⟩
    · obtain ⟨old, there, same, _⟩ := row_before input other found
      exact .inl ⟨old, there, same⟩
  · rw [changed, Function.update_of_ne (Ne.symm node)] at found
    exact .inl ⟨row, found, rfl, rfl⟩

theorem row_stays (step : Rpc.Step network.system label before after) {old : GroupUpdate}
    (found : (before.stores sender).groupUpdates.find key = some old) :
    ∃ row, (after.stores sender).groupUpdates.find key = some row := by
  rcases Rpc.stores_step step with
    unchanged | ⟨index, input, thread, operation, next, rfl, current, here, changed⟩
  · exact ⟨old, unchanged ▸ found⟩
  by_cases node : thread.node = sender
  · subst node
    rw [changed, Function.update_self]
    by_cases other : Rewrites key operation
    · match operation with
      | .call (.upsertGroupUpdate u) =>
          obtain ⟨row, there, _⟩ := row_written input (before.stores thread.node) other
          exact ⟨row, there⟩
    · obtain ⟨row, there, _⟩ := row_kept input other found
      exact ⟨row, there⟩
  · rw [changed, Function.update_of_ne (Ne.symm node)]
    exact ⟨old, found⟩

theorem described_step (tended : Tended network sender receiver groupId before)
    (step : Rpc.Step network.system label before after) : Described (after.stores sender) := by
  intro key row found
  rcases row_step step found with
    ⟨old, there, same⟩ | ⟨index, input, thread, u, next, _, current, _, here, rfl, same⟩
  · rw [← same.snapshotJson]
    exact tended.described key old there
  · obtain ⟨_, _, _, written⟩ := own_allowed tended (List.mem_of_getElem? current) here rfl
    rw [← same.snapshotJson]
    exact describes_iff.mpr ⟨u.groupId, written.groupId, rfl⟩

theorem proper_step (tended : Tended network sender receiver groupId before)
    (timely : Timely network sender receiver groupId before label)
    (step : Rpc.Step network.system label before after) {row : GroupUpdate}
    (found : (after.stores sender).groupUpdates.find (groupId, network.id receiver) = some row) :
    Proper row := by
  rcases row_step step found with
    ⟨old, there, same⟩ | ⟨index, input, thread, u, next, acts, current, node, here, hit, same⟩
  · obtain ⟨version, entries⟩ := tended.proper old there
    exact ⟨same.snapshotJson ▸ same.version ▸ version, same.snapshotJson ▸ entries⟩
  · obtain ⟨_, _, _, written⟩ := own_allowed tended (List.mem_of_getElem? current) here rfl
    have renewable := timely.renews index input thread u next acts current node here hit
    exact written_proper same written renewable.clean

theorem recalled_step (tended : Tended network sender receiver groupId before)
    (step : Rpc.Step network.system label before after) {thread : Thread Host}
    (member : thread ∈ after.threads) (node : thread.node = sender) {updates : List GroupUpdate}
    (past : (⟨.inl (.call .getPendingGroupUpdates), updates⟩ : Event nodeSig) ∈ thread.history)
    {u : GroupUpdate} (among : u ∈ updates) : describes u.groupId u.snapshotJson = true := by
  obtain ⟨index, present⟩ := List.getElem?_of_mem member
  rcases Rpc.event_step step present past with
    ⟨old, current, same, _, earlier⟩ |
    ⟨input, old, operation, next, rfl, current, same, _, here, new⟩ | ⟨_, _, new⟩
  · exact tended.recalled old (List.mem_of_getElem? current) (same.trans node) updates earlier u
      among
  · cases operation with
    | call call =>
        cases call with
        | getPendingGroupUpdates =>
            have listed := eq_of_heq (Sigma.mk.inj new).2
            have inTable := (mem_pendingGroupUpdates _ u).mp (listed ▸ among)
            rw [same.trans node] at inTable
            exact tended.described _ u inTable.1
        | _ => cases (Sigma.mk.inj new).1
    | _ => cases (Sigma.mk.inj new).1
  · cases (Sigma.mk.inj new).1

theorem tended_step (closed : ∀ request, network.foreign request = false)
    (apart : receiver ≠ sender) (begins : Begins sender label)
    (timely : Timely network sender receiver groupId before label)
    (step : Rpc.Step network.system label before after)
    (tended : Tended network sender receiver groupId before) :
    Tended network sender receiver groupId after where
  linked := Rpc.linked_step step tended.linked
  complies := Rpc.complies_step (grouped_disciplined network)
    (fun host task starts => (begins host task starts).2) step tended.complies
  prompts := prompt_step step tended.prompts
  serving := serving_step step (fun host task starts => (begins host task starts).1)
    tended.serving
  reached := Rpc.reached_step closed step tended.linked tended.reached
  vouched := Rpc.vouched_step step timely.posts tended.vouched
  described := described_step tended step
  recalled _ member node _ past _ among := recalled_step tended step member node past among
  proper _ found := proper_step tended timely step found
  faithful := Rpc.Replica.faithful_step (careful_snapshot network) apart step tended.linked
    (Rpc.complies_step (grouped_disciplined network)
      (fun host task starts => (begins host task starts).2) step tended.complies)
    (upkeep closed tended apart timely) tended.faithful

omit [DecidableEq Host] in
theorem tended_idle {stores : Host → Store}
    (unpushed : (stores sender).groupUpdates.find (groupId, network.id receiver) = none)
    (described : Described (stores sender)) :
    Tended network sender receiver groupId ⟨stores, [], []⟩ where
  linked := ⟨fun _ member => absurd member List.not_mem_nil,
    fun _ member => absurd member List.not_mem_nil⟩
  complies _ member := absurd member List.not_mem_nil
  prompts _ member := absurd member List.not_mem_nil
  serving _ member := absurd member List.not_mem_nil
  reached :=
    { origin := fun _ member => absurd member List.not_mem_nil
      answered := by simp
      received := fun _ member => absurd member List.not_mem_nil }
  vouched := ⟨fun _ member => absurd member List.not_mem_nil,
    fun _ member => absurd member List.not_mem_nil⟩
  described := described
  recalled _ member := absurd member List.not_mem_nil
  proper _ found := by cases unpushed.symm.trans found
  faithful :=
    { inHand := fun _ member => absurd member List.not_mem_nil
      flight := by simp
      serving := fun _ member => absurd member List.not_mem_nil
      applied := fun _ member => absurd member List.not_mem_nil
      answered := fun _ member => absurd member List.not_mem_nil
      acknowledged := fun _ member => absurd member List.not_mem_nil
      settled := fun ⟨_, found, _⟩ => by cases unpushed.symm.trans found }

/-- The member's list is that of a snapshot that is at least as new. -/
structure UpToDate (network : Deployment Host) (sender receiver : Host) (groupId : Str)
    (least : Int) (state : World Host) : Prop where
  row : ∃ row, (state.stores sender).groupUpdates.find (groupId, network.id receiver) = some row ∧
    least ≤ row.version
  shown : ∃ snapshotJson version, snapshotJson.i? "version" = some version ∧ least ≤ version ∧
    Shows groupId snapshotJson (state.stores receiver)

theorem upToDate_step {least : Int} (apart : receiver ≠ sender)
    (timely : Timely network sender receiver groupId before label)
    (step : Rpc.Step network.system label before after)
    (tended : Tended network sender receiver groupId before)
    (current : UpToDate network sender receiver groupId least before) :
    UpToDate network sender receiver groupId least after := by
  obtain ⟨⟨old, there, atLeast⟩, snapshotJson, version, carries, newer, shown⟩ := current
  constructor
  · obtain ⟨row, found⟩ := row_stays step there
    refine ⟨row, found, ?_⟩
    rcases row_step step found with
      ⟨earlier, same, kept⟩ | ⟨index, input, thread, u, next, acts, now, node, here, hit, kept⟩
    · cases there.symm.trans same
      rwa [← kept.version]
    · have renewable := timely.renews index input thread u next acts now node here hit
      rw [← kept.version]
      exact atLeast.trans (renewable.newer old there)
  rcases Rpc.stores_step step with
    unchanged | ⟨index, input, thread, operation, next, rfl, present, here, changed⟩
  · exact ⟨snapshotJson, version, carries, newer, unchanged ▸ shown⟩
  by_cases node : thread.node = receiver
  · subst node
    have member := List.mem_of_getElem? present
    have clean : Clean groupId := by
      obtain ⟨rfl, _⟩ := Prod.mk.inj ((before.stores sender).groupUpdates.find_key there)
      exact (before.stores sender).groupUpdates.find_valid there _ (by simp [GroupUpdate.texts])
    rw [changed, Function.update_self]
    rcases theirs_replaced tended apart clean member rfl here with
      kept | ⟨job, request, serves, about, replaced⟩
    · obtain ⟨entries, read, same⟩ := shown
      exact ⟨snapshotJson, version, carries, newer, entries, read, kept.trans same⟩
    · have running := Rpc.Replica.unfinished here
      obtain ⟨row, found, body, proper⟩ := carried_row tended
        (tended.faithful.serving thread member job request serves about running)
      cases there.symm.trans found
      refine ⟨old.snapshotJson, old.version, proper.version, atLeast, ?_⟩
      rw [← body]
      exact replaced (body ▸ proper.entries)
  · rw [changed, Function.update_of_ne (Ne.symm node)]
    exact ⟨snapshotJson, version, carries, newer, shown⟩

/-- In a run whose snapshots are pushed in time, the snapshot a member has acknowledged is
the list it has, and from then on its list is that of a snapshot at least as new. -/
theorem acknowledged_snapshot_held (closed : ∀ request, network.foreign request = false)
    (apart : receiver ≠ sender) {stores : Host → Store}
    (unpushed : (stores sender).groupUpdates.find (groupId, network.id receiver) = none)
    (described : Described (stores sender))
    (run : Rpc.Reachable network.system
      (fun state label => Begins sender label ∧
        Timely network sender receiver groupId state label) ⟨stores, [], []⟩ state)
    {row : GroupUpdate}
    (found : (state.stores sender).groupUpdates.find (groupId, network.id receiver) = some row)
    (accepted : row.accepted = 1) :
    Shows groupId row.snapshotJson (state.stores receiver) ∧
    ∀ later, Rpc.Reachable network.system
      (fun state label => Begins sender label ∧
        Timely network sender receiver groupId state label) state later →
      ∃ snapshotJson version, snapshotJson.i? "version" = some version ∧
        row.version ≤ version ∧ Shows groupId snapshotJson (later.stores receiver) := by
  have tended : Tended network sender receiver groupId state :=
    run.invariant _ (tended_idle unpushed described) fun before label after ih meets step =>
      tended_step closed apart meets.1 meets.2 step ih
  have shown := tended.faithful.settled ⟨row, found, accepted⟩ row found
  refine ⟨shown, fun later goesOn => ?_⟩
  have start : UpToDate network sender receiver groupId row.version state :=
    ⟨⟨row, found, le_refl _⟩, row.snapshotJson, row.version, (tended.proper row found).version,
      le_refl _, shown⟩
  have both : Tended network sender receiver groupId later ∧
      UpToDate network sender receiver groupId row.version later :=
    goesOn.invariant (fun state => Tended network sender receiver groupId state ∧
      UpToDate network sender receiver groupId row.version state) ⟨tended, start⟩
      fun before label after ih meets step =>
        ⟨tended_step closed apart meets.1 meets.2 step ih.1,
          upToDate_step apart meets.2 step ih.1 ih.2⟩
  exact both.2.shown

end Step

section Runs

/-- Nothing was pushed so far, and nobody else is at work. -/
def undisturbed (state : World Bool) (index : Nat) (u : GroupUpdate) : Bool :=
  state.jobs.isEmpty && (state.threads.eraseIdx index).all (·.finished) &&
    state.threads.all (·.origin.isNone) && (state.stores true).groupUpdates.rows.isEmpty &&
    (memberEntries u.snapshotJson).all fun entries =>
      entries.all fun e => decide (Clean e.1 ∧ Clean e.2.1 ∧ Clean e.2.2)

/-- A check that implies the condition: there is but one push. -/
def checked (state : World Bool) : Action Bool → Bool
  | .start host task => host && !isIncoming task
  | .post index =>
      match state.threads[index]? with
      | some thread =>
          match thread.program with
          | .op (.inr request) _ => [true, false].all fun peer =>
              !pair.routes request.serverAddress peer || meant thread.history = some (pair.id peer)
          | _ => true
      | none => true
  | .act index _ =>
      match state.threads[index]? with
      | some thread =>
          match thread.program with
          | .op (.inl (.call (.upsertGroupUpdate u))) _ => undisturbed state index u
          | _ => true
      | none => true
  | _ => true

theorem undisturbed_renewable {state : World Bool} {index : Nat} {u : GroupUpdate}
    (passes : undisturbed state index u = true) :
    Renewable pair true false founded.text state index u := by
  simp only [undisturbed, Bool.and_eq_true, List.isEmpty_iff, List.all_eq_true,
    Option.isNone_iff_eq_none, Option.all_eq_true] at passes
  obtain ⟨⟨⟨⟨none, rest⟩, own⟩, empty⟩, clean⟩ := passes
  constructor
  · constructor
    · rintro other thread different present ⟨_, inHand⟩
      have done := rest thread (List.mem_eraseIdx_iff_getElem?.mpr ⟨other, different, present⟩)
      cases stands : thread.program with
      | ret answer =>
          rw [stands] at inHand
          exact inHand
      | op operation next =>
          rw [Rpc.Replica.unfinished stands] at done
          cases done
    · intro job request flies
      rw [none] at flies
      cases flies
    · intro thread member job request serves
      cases (own thread member).symm.trans serves
  · intro row found
    have member := ((state.stores true).groupUpdates.find_eq_some _ row).mp found
    rw [empty] at member
    cases member.1
  · intro entries read e member
    exact of_decide_eq_true (clean entries read e member)

theorem meets_of_checked (state : World Bool) (label : Action Bool)
    (passes : checked state label = true) :
    Begins true label ∧ Timely pair true false founded.text state label := by
  refine ⟨?_, ?_, ?_⟩
  · rintro host task rfl
    simpa [checked] using passes
  · rintro index thread request next rfl current here _ _ _ peer leads
    simp only [checked, current, here, List.all_eq_true, Bool.or_eq_true, Bool.not_eq_true',
      decide_eq_true_eq] at passes
    rcases passes peer (by cases peer <;> decide) with off | whom
    · cases off.symm.trans leads
    · exact whom
  · rintro index input thread u next rfl current _ here _
    simp only [checked, current, here] at passes
    exact undisturbed_renewable passes

def founding : List (Action Bool) :=
  .start true (.groupsCreate foundation) :: List.replicate 6 (.act 0 (clockAt 5))

/-- It takes somebody in; the next step posts the first push. -/
def takingIn (thread : Nat) (now : Int) (req : HttpRequest) : List (Action Bool) :=
  .start true (.addMember req founded) :: List.replicate 7 (.act thread (clockAt now))

def serving (job thread operations : Nat) : List (Action Bool) :=
  .deliver job false :: List.replicate operations (.act thread (clockAt 8)) ++ [.reply thread]

def acknowledged : List (Action Bool) :=
  founding ++ takingIn 1 7 admission ++ .post 1 :: serving 0 2 6 ++
    [.receive 1, .act 1 (clockAt 9)]

def place : Str × Str := (founded.text, pair.id false)

theorem admission_held : ∃ (state : World Bool) (row : GroupUpdate),
    (state.stores true).groupUpdates.find place = some row ∧ row.accepted = 1 ∧
    Shows founded.text row.snapshotJson (state.stores false) := by
  have ran : (Rpc.run pair.system checked acknowledged ⟨acquainted, [], []⟩).any (fun state =>
      ((state.stores true).groupUpdates.find place).any (·.accepted = 1)) = true := by
    decide +kernel
  obtain ⟨state, scheduled, holds⟩ := (Option.any_eq_true _ _).mp ran
  obtain ⟨row, found, accepted⟩ := (Option.any_eq_true _ _).mp holds
  have taken : row.accepted = 1 := of_decide_eq_true accepted
  have unpushed : ∀ key, (acquainted true).groupUpdates.find key = none := Table.find_empty
  have described : Described (acquainted true) := by
    intro key other there
    cases (unpushed key).symm.trans there
  have held := acknowledged_snapshot_held (fun _ => rfl) (by decide) (unpushed place) described
    (Rpc.run_reachable meets_of_checked acknowledged scheduled) found taken
  exact ⟨state, row, found, taken, held.1⟩

/-- A third member that no request can reach. -/
def stranger : HttpRequest :=
  userRequest [("member_id", .str (str "x")), ("server_address", .str [])]

/-- The first push is late: the member stores the second list, which is acknowledged, and
then the first. -/
def overtaken : List (Action Bool) :=
  founding ++ takingIn 1 7 admission ++ .post 1 :: takingIn 2 9 stranger ++ .post 2 ::
    serving 1 3 7 ++ [.receive 2, .act 2 (clockAt 9), .act 2 (clockAt 9)] ++ serving 0 4 4

def begun (_ : World Bool) : Action Bool → Bool
  | .start host task => host && !isIncoming task
  | _ => true

def landed (state : World Bool) : Bool :=
  state.jobs.all fun job => match job.stage with
    | .flight => false
    | _ => true

theorem older_snapshot_shown : ∃ (state : World Bool) (row : GroupUpdate),
    Rpc.Reachable pair.system (fun _ label => Begins true label) ⟨acquainted, [], []⟩ state ∧
    (state.stores true).groupUpdates.find place = some row ∧ row.accepted = 1 ∧
    (∀ (job : Nat) request, state.jobs[job]? ≠ some ⟨request, .flight⟩) ∧
    ¬Shows founded.text row.snapshotJson (state.stores false) := by
  have ran : (Rpc.run pair.system begun overtaken ⟨acquainted, [], []⟩).any (fun state =>
      landed state && ((state.stores true).groupUpdates.find place).any (fun row =>
        decide (row.accepted = 1) && (memberEntries row.snapshotJson).any fun entries =>
          entries.any fun e => decide (e.1 = str "x") &&
            (groupMembersOf founded.text (state.stores false).groupMembers).all fun m =>
              decide (m.memberId ≠ e.1))) = true := by
    decide +kernel
  obtain ⟨state, scheduled, holds⟩ := (Option.any_eq_true _ _).mp ran
  obtain ⟨settled, holds⟩ := Bool.and_eq_true_iff.mp holds
  obtain ⟨row, found, holds⟩ := (Option.any_eq_true _ _).mp holds
  obtain ⟨accepted, holds⟩ := Bool.and_eq_true_iff.mp holds
  obtain ⟨entries, read, holds⟩ := (Option.any_eq_true _ _).mp holds
  obtain ⟨e, among, holds⟩ := List.any_eq_true.mp holds
  have absent := List.all_eq_true.mp (Bool.and_eq_true_iff.mp holds).2
  refine ⟨state, row, ?_, found, of_decide_eq_true accepted, ?_, ?_⟩
  · refine Rpc.run_reachable (fun state label passes => ?_) overtaken scheduled
    rintro host task rfl
    simpa [begun] using passes
  · intro job request flies
    have done := List.all_eq_true.mp settled _ (List.mem_of_getElem? flies)
    cases done
  · rintro ⟨others, again, same⟩
    cases read.symm.trans again
    -- The stranger is on the snapshot and not on the list.
    have there : e ∈ listed (state.stores false) founded.text := by
      rw [same]
      exact among
    obtain ⟨m, stored, rfl⟩ := List.mem_map.mp there
    exact of_decide_eq_true (absent m stored) rfl

end Runs
end NoMiddle.Snapshots
