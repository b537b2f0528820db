import NoMiddle.Status

/-! An acknowledged delete. A peer that has the message hides it for good, and one
that does not answers 200 as well; nothing then keeps out the message when it comes
late. What is shown here is that nothing else can bring it back. -/
namespace NoMiddle.Deletion
open Library Text Crypto DbManager DbViews Node Network Conduct TaskConduct Recall

variable {Host : Type}

def Hidden (store : Store) (id : Str) : Prop :=
  ∀ row, store.messages.find id = some row → row.accepted = messageDeleted

def Buried (store : Store) (id : Str) : Prop :=
  ∃ row, store.messages.find id = some row ∧ row.accepted = messageDeleted

/-- The node was asked to delete a message and did not find it. -/
def LetPass (state : World Host) (host : Host) (id : Str) : Prop :=
  ∃ thread ∈ state.threads, thread.node = host ∧
    (∃ job request, thread.origin = some (job, request) ∧ request.endpoint = .acceptDelete) ∧
    ∃ messageId, (⟨.inl (.call (.getMessage messageId)), none⟩ : Event nodeSig) ∈
      thread.history ∧ cstr messageId = id

/-- A thread of the node has marked the delete of the message pending. -/
def Requested (state : World Host) (host : Host) (id : Str) : Prop :=
  ∃ thread ∈ state.threads, thread.node = host ∧ ∃ messageId only done,
    (⟨.inl (.call (.updateMessages messageId only .deletePending)), done⟩ : Event nodeSig) ∈
      thread.history ∧ cstr messageId = id

/-- Only the sender starts tasks, and no node stores a message it did not find when it
was asked to delete it. -/
structure Meets (sender : Host) (state : World Host) (label : Action Host) : Prop where
  scenario : ∀ host task, label = .start host task → host = sender
  inTime : ∀ index input thread msg next, label = .act index input →
    state.threads[index]? = some thread →
    thread.program = .op (.inl (.call (.addMessage msg))) next →
    ¬LetPass state thread.node (cstr msg.messageId)

/-- The node has hidden the message or let its delete pass. -/
def Closed (state : World Host) (host : Host) (id : Str) : Prop :=
  LetPass state host id ∨ Buried (state.stores host) id

variable (network : Deployment Host) (sender : Host)

/-- What a 200 to `/accept_delete` says. -/
def granted (request : Request) (answer : Response) (state : World Host) : Prop :=
  answer.code = 200 → request.endpoint = .acceptDelete →
    ∃ host messageId senderId,
      ReceivedDelete (network.keys host) request.body messageId senderId ∧
      (host ≠ sender → Closed state host (cstr messageId))

/-- What a mark or an answer says about the stores ever after. -/
def shows (host : Host) (event : Event nodeSig) (state : World Host) : Prop :=
  match event with
  | ⟨.inl (.call (.updateMessages messageId _ mark)), _⟩ =>
      mark = .deleted ∨ mark = .deletePending →
        ∃ row, (state.stores host).messages.find (cstr messageId) = some row ∧
          (host ≠ sender → mark = .deleted → row.accepted = messageDeleted)
  | ⟨.inr request, some answer⟩ => granted network sender request answer state
  | _ => True

/-- A delete of a direct message is taken for acknowledged only when the recipient is
done with the message. -/
def NeverEarly (state : World Host) : Prop :=
  ∀ id row, (state.stores sender).messages.find id = some row → row.groupId = [] →
    row.deleteAccepted = 1 → Requested state sender id →
    ∀ host, network.id host = row.recipientId → host ≠ sender → Closed state host id

variable [DecidableEq Host]

/-- The invariant of every run that meets the condition. -/
structure Sound (state : World Host) : Prop where
  orderly : Orderly network state
  serving : Serving sender state
  recalled : Recalled state
  letPass : ∀ host id, host ≠ sender → LetPass state host id → Hidden (state.stores host) id
  testified : Rpc.Testified (shows network sender) (granted network sender) state
  neverEarly : NeverEarly network sender state

variable {network sender} {before after : World Host} {label : Action Host}

theorem letPass_kept (step : Rpc.Step network.system label before after) {host : Host} {id : Str}
    (passed : LetPass before host id) : LetPass after host id := by
  obtain ⟨thread, member, node, ⟨job, request, serves, endpoint⟩, messageId, past, key⟩ := passed
  obtain ⟨index, present⟩ := List.getElem?_of_mem member
  obtain ⟨later, kept, sameNode, sameOrigin, history⟩ := Rpc.thread_kept step present
  exact ⟨later, List.mem_of_getElem? kept, sameNode.trans node,
    ⟨job, request, sameOrigin.trans serves, endpoint⟩, messageId, history _ past, key⟩

/-- What a step does to a message row of a node that only serves: it is hidden or left
visible as it was; where there is none, only a stored message makes one. -/
theorem peer_step (sound : Sound network sender before)
    (step : Rpc.Step network.system label before after) {host : Host} (peer : host ≠ sender)
    (id : Str) :
    (∀ row, (before.stores host).messages.find id = some row →
      ∃ next, (after.stores host).messages.find id = some next ∧
        (next.accepted = row.accepted ∨ next.accepted = messageDeleted)) ∧
    ((before.stores host).messages.find id = none →
      (after.stores host).messages.find id = none ∨
      ∃ index input thread msg next, label = .act index input ∧
        before.threads[index]? = some thread ∧ thread.node = host ∧
        thread.program = .op (.inl (.call (.addMessage msg))) next ∧ cstr msg.messageId = id) := by
  rcases message_step step host id with
    same | ⟨index, input, thread, call, next, acts, current, rfl, here, changed⟩
  · exact ⟨fun row found => ⟨row, same.trans found, .inl rfl⟩, fun none => .inl (same.trans none)⟩
  constructor
  · intro row found
    rw [found] at changed
    rcases onMessage_some input.now id call row with
      kept | ⟨messageId, only, mark, rfl, hit, marked⟩
    · exact ⟨row, changed.trans kept, .inl rfl⟩
    refine ⟨_, changed.trans marked, ?_⟩
    have member := List.mem_of_getElem? current
    have allowed := Rpc.complies_allowed (sound.orderly.complies thread member) here
    obtain ⟨job, request, serves⟩ := sound.serving thread member peer
    rw [serves] at allowed
    -- A node that only serves never sets an accepted message to another status.
    have mine := allowed.2
    cases mark with
    | deleted => exact .inr rfl
    | edit | editAccepted => exact .inl rfl
    | _ => exact mine.elim
  · intro none
    rw [none] at changed
    cases call with
    | addMessage msg =>
        by_cases key : cstr msg.messageId = id
        · exact .inr ⟨index, input, thread, msg, next, acts, current, rfl, here, key⟩
        · exact .inl (changed.trans (by simp [onMessage, key]))
    | _ => exact .inl changed

theorem buried_kept (sound : Sound network sender before)
    (step : Rpc.Step network.system label before after) {host : Host} (peer : host ≠ sender)
    {id : Str} (buried : Buried (before.stores host) id) : Buried (after.stores host) id := by
  obtain ⟨row, found, deleted⟩ := buried
  obtain ⟨next, kept, same | hidden⟩ := (peer_step sound step peer id).1 row found
  · exact ⟨next, kept, same.trans deleted⟩
  · exact ⟨next, kept, hidden⟩

theorem closed_kept (sound : Sound network sender before)
    (step : Rpc.Step network.system label before after) {host : Host} (peer : host ≠ sender)
    {id : Str} (closed : Closed before host id) : Closed after host id :=
  closed.imp (letPass_kept step) (buried_kept sound step peer)

theorem letPass_step (step : Rpc.Step network.system label before after) {host : Host} {id : Str}
    (passed : LetPass after host id) :
    LetPass before host id ∨ (after.stores host).messages.find id = none := by
  obtain ⟨thread, member, rfl, serves, messageId, past, rfl⟩ := passed
  obtain ⟨index, present⟩ := List.getElem?_of_mem member
  rcases Rpc.event_step step present past with
    ⟨old, current, node, origin, earlier⟩ |
    ⟨input, old, operation, next, rfl, current, node, _, here, new⟩ | ⟨request, answer, new⟩
  · exact .inl ⟨old, List.mem_of_getElem? current, node, origin ▸ serves, messageId, earlier, rfl⟩
  · generalize absent :
      (network.system.handle old.node input operation (before.stores old.node)).1 = found at new
    cases new
    have store := Rpc.acted_store step current here
    exact .inr (node ▸ (congrArg (·.messages.find (cstr messageId)) store).trans absent)
  · cases new

theorem hidden_step (sound : Sound network sender before) (meets : Meets sender before label)
    (step : Rpc.Step network.system label before after) {host : Host} (peer : host ≠ sender)
    {id : Str} (passed : LetPass after host id) : Hidden (after.stores host) id := by
  intro row found
  rcases letPass_step step passed with earlier | absent
  · have hidden := sound.letPass host id peer earlier
    obtain ⟨kept, new⟩ := peer_step sound step peer id
    cases present : (before.stores host).messages.find id with
    | some old =>
        obtain ⟨next, there, same | deleted⟩ := kept old present
        · cases found.symm.trans there
          exact same.trans (hidden old present)
        · cases found.symm.trans there
          exact deleted
    | none =>
        rcases new present with none | ⟨index, input, thread, msg, next, acts, current, rfl, here,
          rfl⟩
        · cases found.symm.trans none
        · exact absurd earlier (meets.inTime index input thread msg next acts current here)
  · cases found.symm.trans absent

theorem granted_kept (sound : Sound network sender before)
    (step : Rpc.Step network.system label before after) {request : Request} {answer : Response}
    (said : granted network sender request answer before) :
    granted network sender request answer after := by
  intro code endpoint
  obtain ⟨host, messageId, senderId, received, closed⟩ := said code endpoint
  exact ⟨host, messageId, senderId, received, fun peer => closed_kept sound step peer (closed peer)⟩

theorem shows_kept (sound : Sound network sender before)
    (step : Rpc.Step network.system label before after) {host : Host} {event : Event nodeSig}
    (shown : shows network sender host event before) : shows network sender host event after := by
  obtain ⟨operation, answer⟩ := event
  cases operation with
  | inl operation =>
      cases operation with
      | call call =>
          cases call with
          | updateMessages messageId only mark =>
              intro either
              obtain ⟨row, found, deleted⟩ := shown either
              by_cases own : host = sender
              -- What the sender shows is that the row is there; a peer shows its status too.
              · obtain ⟨next, kept, _⟩ := stored_step step host (core row) (stored_found found)
                have key : (core row).messageId = cstr messageId :=
                  (before.stores host).messages.find_key found
                exact ⟨next, key ▸ kept, fun peer => absurd own peer⟩
              · obtain ⟨next, kept, status⟩ := (peer_step sound step own _).1 row found
                refine ⟨next, kept, fun peer hides => ?_⟩
                rcases status with same | hidden
                · exact same.trans (deleted peer hides)
                · exact hidden
          | _ => trivial
      | _ => trivial
  | inr request =>
      cases answer with
      | none => trivial
      | some answer => exact granted_kept sound step shown

theorem find_marked (now : Int) {store : Store} {messageId : Str} {row : Message} (mark : Mark)
    (found : store.messages.find (cstr messageId) = some row) :
    ((Call.updateMessages messageId none mark).exec now store).2.messages.find (cstr messageId) =
      some (mark.set now row) := by
  have key : row.messageId = cstr messageId := store.messages.find_key found
  rw [messages_exec, found]
  simp [onMessage, addressed, key]

omit [DecidableEq Host] in
theorem shows_marked (sound : Sound network sender before) {thread : Thread Host}
    (member : thread ∈ before.threads) {messageId : Str} {only : Option Str} {mark : Mark}
    {next : Bool → Proc Response}
    (here : thread.program = .op (.inl (.call (.updateMessages messageId only mark))) next)
    (either : mark = .deleted ∨ mark = .deletePending) :
    only = none ∧ ∃ row, (before.stores thread.node).messages.find (cstr messageId) = some row := by
  have read : ∀ row, Read thread.history messageId row →
      ∃ row, (before.stores thread.node).messages.find (cstr messageId) = some row := by
    intro row past
    obtain ⟨key, next, found, _⟩ := sound.recalled thread member _ past row rfl
    exact ⟨next, key ▸ found⟩
  have allowed := Rpc.complies_allowed (sound.orderly.complies thread member) here
  rcases either with rfl | rfl
  · rcases conduct_allowed network thread.node allowed with
      ⟨everyone, row, seen, _⟩ | ⟨request, everyone, _, row, _, seen⟩
    · exact ⟨everyone, read row seen⟩
    · exact ⟨everyone, read row seen⟩
  · rcases conduct_allowed network thread.node allowed with
      ⟨everyone, done, earlier, past⟩ | ⟨request, _, no⟩
    · have marked := sound.testified.event thread member _ (past ▸ List.mem_cons_self)
      obtain ⟨row, found, _⟩ := marked (.inl rfl)
      exact ⟨everyone, row, found⟩
    · exact no.elim

theorem testifies (sound : Sound network sender before)
    (step : Rpc.Step network.system label before after)
    (closed : ∀ request, network.foreign request = false) :
    Rpc.Testifies (shows network sender) (granted network sender) step where
  keepEvent host event shown := shows_kept sound step shown
  keepAnswer request answer said := granted_kept sound step said
  act index input thread operation next answer store labelled current here taken := by
    subst labelled
    have left : after.stores thread.node = store := by
      rw [Rpc.acted_store step current here]
      exact congrArg Prod.snd taken
    have stored : (network.system.handle thread.node input operation
        (before.stores thread.node)).2 = store := congrArg Prod.snd taken
    cases operation with
    | call call =>
        cases call with
        | updateMessages messageId only mark =>
            intro either
            obtain ⟨rfl, row, found⟩ :=
              shows_marked sound (List.mem_of_getElem? current) here either
            refine ⟨mark.set input.now row, ?_, ?_⟩
            · exact (congrArg (·.messages.find (cstr messageId)) left).trans
                (stored ▸ find_marked input.now mark found)
            · rintro _ rfl
              rfl
        | _ => trivial
    | _ => trivial
  receive host request answer said := granted_kept sound step said
  giveUp _ _ := trivial
  reply thread member job request answer serves done := by
    intro code endpoint
    have ensured := Rpc.complies_ensures (sound.orderly.complies thread member) serves done code
    simp only [endpoint] at ensured
    obtain ⟨messageId, senderId, received, unknown | ⟨marked, past⟩⟩ := ensured
    · exact ⟨thread.node, messageId, senderId, received, fun _ => .inl
        ⟨thread, member, rfl, ⟨job, request, serves, endpoint⟩, messageId, unknown, rfl⟩⟩
    · refine ⟨thread.node, messageId, senderId, received, fun peer => .inr ?_⟩
      obtain ⟨row, found, deleted⟩ := sound.testified.event thread member _ past (.inl rfl)
      exact ⟨row, found, deleted peer rfl⟩
  foreign request answer outside := by
    rw [show network.system.foreign request = network.foreign request from rfl, closed] at outside
    cases outside

theorem requested_step (step : Rpc.Step network.system label before after) {host : Host} {id : Str}
    (requested : Requested after host id) :
    Requested before host id ∨ ∃ index input thread messageId only next,
      label = .act index input ∧ before.threads[index]? = some thread ∧ thread.node = host ∧
      thread.program = .op (.inl (.call (.updateMessages messageId only .deletePending))) next ∧
      cstr messageId = id := by
  obtain ⟨thread, member, rfl, messageId, only, done, past, rfl⟩ := requested
  obtain ⟨index, present⟩ := List.getElem?_of_mem member
  rcases Rpc.event_step step present past with
    ⟨old, current, node, _, earlier⟩ |
    ⟨input, old, operation, next, acts, current, node, _, here, new⟩ | ⟨request, answer, new⟩
  · exact .inl ⟨old, List.mem_of_getElem? current, node, messageId, only, done, earlier, rfl⟩
  · generalize (network.system.handle old.node input operation (before.stores old.node)).1 =
      found at new
    cases new
    exact .inr ⟨index, input, old, messageId, only, next, acts, current, node, here, rfl⟩
  · cases new

omit [DecidableEq Host] in
theorem closed_of_acknowledged (sound : Sound network sender before) {thread : Thread Host}
    (member : thread ∈ before.threads) {messageId : Str} {only : Option Str} {row : Message}
    (allowed : ownMark network.sodium (network.keys thread.node) thread.history messageId only
      .deleteAccepted)
    (found : (before.stores thread.node).messages.find (cstr messageId) = some row)
    (direct : row.groupId = []) {host : Host} (recipient : network.id host = row.recipientId)
    (peer : host ≠ sender) : Closed before host (cstr messageId) := by
  obtain ⟨senderId, recipientId, ⟨seen, key, _, source, whom⟩, acknowledged, _⟩ := allowed
  have stored : Stored (before.stores thread.node) (core seen) := by
    rcases source with read | ⟨rows, listed, among⟩
    · exact (sound.recalled thread member _ read seen rfl).2
    · exact sound.recalled thread member _ listed seen among
  obtain ⟨other, there, same⟩ := stored
  rw [show (core seen).messageId = cstr messageId from key, found] at there
  cases there
  have sameRecipient : row.recipientId = seen.recipientId := congrArg Core.recipientId same
  have sameGroup : row.groupId = seen.groupId := congrArg Core.groupId same
  have addressee : seen.recipientId = recipientId := by
    rcases whom with same | group
    · exact same
    · exact absurd (sameGroup.symm.trans direct) group
  obtain ⟨request, answer, earlier, past, code, endpoint, carries⟩ := acknowledged
  have said := sound.testified.event thread member ⟨.inr request, some answer⟩
    (past ▸ List.mem_cons_self)
  obtain ⟨server, named, claimed, received, closed⟩ := said code endpoint
  cases carries.messageId.symm.trans received.messageId
  have served : network.id server = recipientId :=
    (Option.some.inj (carries.recipientId.symm.trans received.recipientId)).symm
  -- The answer came from the node whose id the request named, so from the recipient.
  have here : server = host := by
    apply network.distinct
    apply publicKeyB64_injective
    exact served.trans (addressee.symm.trans (sameRecipient.symm.trans recipient.symm))
  subst here
  exact closed peer

omit [DecidableEq Host] in
theorem requested_there (sound : Sound network sender before) {host : Host} {id : Str}
    (requested : Requested before host id) :
    ∃ row, (before.stores host).messages.find id = some row := by
  obtain ⟨thread, member, rfl, messageId, only, done, past, rfl⟩ := requested
  obtain ⟨row, found, _⟩ := sound.testified.event thread member _ past (.inr rfl)
  exact ⟨row, found⟩

theorem neverEarly_step (sound : Sound network sender before)
    (step : Rpc.Step network.system label before after) : NeverEarly network sender after := by
  intro id row found direct acknowledged requested host recipient peer
  rcases requested_step step requested with
    earlier | ⟨index, input, thread, messageId, only, next, rfl, current, rfl, here, rfl⟩
  · rcases message_step step sender id with
      same | ⟨index, input, thread, call, next, _, current, rfl, here, changed⟩
    · exact closed_kept sound step peer
        (sound.neverEarly id row (same.symm.trans found) direct acknowledged earlier host recipient
          peer)
    have member := List.mem_of_getElem? current
    rcases onMessage_cases (changed.symm.trans found) with
      kept | ⟨msg, _, absent, _⟩ | ⟨old, messageId, only, mark, rfl, there, hit, rfl⟩
    · exact closed_kept sound step peer
        (sound.neverEarly id row kept direct acknowledged earlier host recipient peer)
    · obtain ⟨old, there⟩ := requested_there sound earlier
      cases absent.symm.trans there
    have key : cstr messageId = id := by
      have same := (before.stores thread.node).messages.find_key there
      simp only [addressed, Bool.and_eq_true, decide_eq_true_eq] at hit
      rw [← hit.1, same]
    -- What the step leaves acknowledged was so before, unless it is the mark itself.
    have unchanged : old.deleteAccepted = 1 → old.groupId = [] →
        network.id host = old.recipientId → Closed after host id := fun stands group whose =>
      closed_kept sound step peer
        (sound.neverEarly id old there group stands earlier host whose peer)
    cases mark with
    | deletePending => cases acknowledged
    | deleteFailed => cases acknowledged
    | deleteAccepted =>
        subst key
        have allowed := Rpc.complies_allowed (sound.orderly.complies thread member) here
        rcases conduct_allowed network thread.node allowed with mine | ⟨request, _, no⟩
        · exact closed_kept sound step peer
            (closed_of_acknowledged sound member mine there direct recipient peer)
        · exact no.elim
    | _ => exact unchanged acknowledged direct recipient
  · obtain ⟨rfl, old, there⟩ := shows_marked sound (List.mem_of_getElem? current) here (.inr rfl)
    have store := Rpc.acted_store step current here
    rw [store] at found
    cases found.symm.trans (find_marked input.now .deletePending there)
    cases acknowledged

theorem sound_step (closed : ∀ request, network.foreign request = false)
    (meets : Meets sender before label) (step : Rpc.Step network.system label before after)
    (sound : Sound network sender before) : Sound network sender after where
  orderly := orderly_step step sound.orderly
  serving := serving_step step meets.scenario sound.serving
  recalled := recalled_step step sound.recalled
  letPass _ _ peer passed := hidden_step sound meets step peer passed
  testified := Rpc.testified_step step sound.orderly.linked (testifies sound step closed)
    sound.testified
  neverEarly := neverEarly_step sound step

omit [DecidableEq Host] in
theorem sound_idle (stores : Host → Store)
    (empty : ∀ host id, (stores host).messages.find id = none) :
    Sound network sender ⟨stores, [], []⟩ where
  orderly := orderly_idle stores
  serving _ member := absurd member List.not_mem_nil
  recalled := recalled_idle stores
  letPass host id _ _ row found := by
    rw [empty host id] at found
    cases found
  testified := ⟨fun _ member => absurd member List.not_mem_nil, by simp⟩
  neverEarly id row found := by
    rw [empty sender id] at found
    cases found

/-- In a run in which no node stores a message it was asked to delete and did not find,
an acknowledged delete hides the message at its recipient then and ever after. -/
theorem acknowledged_hidden (closed : ∀ request, network.foreign request = false)
    (stores : Host → Store) (empty : ∀ host id, (stores host).messages.find id = none)
    {state : World Host}
    (run : Rpc.Reachable network.system (Meets sender) ⟨stores, [], []⟩ state)
    {id : Str} {row : Message} (found : (state.stores sender).messages.find id = some row)
    (direct : row.groupId = []) (requested : Requested state sender id)
    (acknowledged : row.deleteAccepted = 1) {host : Host}
    (recipient : network.id host = row.recipientId) (peer : host ≠ sender) {later : World Host}
    (rest : Rpc.Reachable network.system (Meets sender) state later) :
    ∀ copy, (later.stores host).messages.find id = some copy → copy.accepted = messageDeleted := by
  have always : ∀ {state}, Rpc.Reachable network.system (Meets sender) ⟨stores, [], []⟩ state →
      Sound network sender state := fun run =>
    run.invariant (Sound network sender) (sound_idle stores empty)
      fun _ _ _ sound meets step => sound_step closed meets step sound
  have done : Closed later host id := by
    induction rest with
    | start =>
        exact (always run).neverEarly id row found direct acknowledged requested host recipient peer
    | step before _ step ih =>
        exact closed_kept (always (run.trans before)) step peer ih
  rcases done with passed | ⟨old, there, deleted⟩
  · exact (always (run.trans rest)).letPass host id peer passed
  · intro copy present
    cases there.symm.trans present
    exact deleted

section Runs

/-- A check that implies the condition: nothing is stored once a delete is served. -/
def checked (state : World Bool) : Action Bool → Bool
  | .start host _ => host
  | .act index _ =>
      match state.threads[index]? with
      | some thread =>
          match thread.program with
          | .op (.inl (.call (.addMessage _))) _ =>
              state.threads.all fun other =>
                match other.origin with
                | some (_, request) => request.endpoint ≠ .acceptDelete
                | none => true
          | _ => true
      | none => true
  | _ => true

theorem meets_of_checked (state : World Bool) (label : Action Bool)
    (passes : checked state label = true) : Meets true state label where
  scenario host task starts := by
    subst starts
    exact passes
  inTime := by
    rintro index input thread msg next rfl current here ⟨other, member, _, ⟨job, request, serves,
      endpoint⟩, _⟩
    simp only [checked, current, here, List.all_eq_true] at passes
    have different := passes other member
    simp [serves, endpoint] at different

def requestedFirst (state : World Bool) : Bool :=
  state.threads.any fun thread => thread.node && thread.history.any fun event =>
    match event with
    | ⟨.inl (.call (.updateMessages messageId _ .deletePending)), _⟩ => cstr messageId = firstId
    | _ => false

theorem requested_of_first {state : World Bool} (passes : requestedFirst state = true) :
    Requested state true firstId := by
  obtain ⟨thread, member, found⟩ := List.any_eq_true.mp passes
  obtain ⟨node, past⟩ := Bool.and_eq_true_iff.mp found
  obtain ⟨event, among, marks⟩ := List.any_eq_true.mp past
  split at marks
  · next messageId only done =>
    exact ⟨thread, member, node, messageId, only, done, among, of_decide_eq_true marks⟩
  · cases marks

/-- What the runs below are about: the sender's row, whether its delete was requested,
and the status the recipient has. -/
def outcome (state : World Bool) : Option ((Str × Str × Int × Int) × Bool × Option Int) :=
  ((state.stores true).messages.find firstId).map fun row =>
    ((row.groupId, row.recipientId, row.accepted, row.deleteAccepted), requestedFirst state,
      ((state.stores false).messages.find firstId).map (·.accepted))

/-- A delivered message is deleted, and the delete acknowledged. -/
def deletion : List (Action Bool) :=
  Status.deletion ++ [.act 2 (clockAt 9), .post 2, .deliver 1 false, .act 3 (clockAt 9),
    .act 3 (clockAt 9), .act 3 (clockAt 9), .reply 3, .receive 2, .act 2 (clockAt 9)]

theorem deletion_acknowledged : ∃ (state : World Bool) (row copy : Message),
    (state.stores true).messages.find firstId = some row ∧
    row.accepted = messageDeleted ∧ row.deleteAccepted = 1 ∧
    (state.stores false).messages.find firstId = some copy ∧
    copy.accepted = messageDeleted := by
  have ran : (Rpc.run pair.system checked deletion ⟨acquainted, [], []⟩).bind outcome =
      some (([], pair.id false, 3, 1), true, some 3) := by
    decide +kernel
  obtain ⟨state, scheduled, found⟩ := Option.bind_eq_some_iff.mp ran
  obtain ⟨row, found, facts⟩ := Option.map_eq_some_iff.mp found
  simp only [Prod.mk.injEq, Option.map_eq_some_iff] at facts
  obtain ⟨⟨direct, recipient, accepted, acknowledged⟩, requested, copy, there, _⟩ := facts
  exact ⟨state, row, copy, found, accepted, acknowledged, there,
    acknowledged_hidden (fun _ => rfl) acquainted (fun _ _ => rfl)
      (Rpc.run_reachable meets_of_checked deletion scheduled) found direct
      (requested_of_first requested) acknowledged recipient.symm (by decide) .start copy there⟩

/-- The user deletes a message that is still on its way. The recipient does not have it
yet and answers 200. -/
def overtaking : List (Action Bool) :=
  Delivery.greeting.take 8 ++ [Status.userDeletes, .act 1 (clockAt 9), .act 1 (clockAt 9),
    .act 1 (clockAt 9), .act 1 (clockAt 9), .act 1 (clockAt 9), .post 1, .deliver 1 false,
    .act 2 (clockAt 9), .reply 2, .receive 1, .act 1 (clockAt 9)]

def arrival : List (Action Bool) := [.deliver 0 false, .act 3 (clockAt 9), .act 3 (clockAt 9)]

theorem deletion_overtaken : ∃ (state later : World Bool) (row copy : Message),
    Rpc.Reachable pair.system (fun _ _ => True) ⟨acquainted, [], []⟩ state ∧
    (state.stores true).messages.find firstId = some row ∧ row.groupId = [] ∧
    row.recipientId = pair.id false ∧ Requested state true firstId ∧
    row.accepted = messageDeleted ∧ row.deleteAccepted = 1 ∧
    Rpc.Reachable pair.system (fun _ _ => True) state later ∧
    (later.stores false).messages.find firstId = some copy ∧
    copy.accepted = messageDelivered := by
  have ran : (Rpc.run pair.system (fun _ _ => true) overtaking ⟨acquainted, [], []⟩).bind
      (fun state => (Rpc.run pair.system (fun _ _ => true) arrival state).map fun later =>
        (decide (outcome state = some (([], pair.id false, 3, 1), true, none)),
          ((later.stores false).messages.find firstId).map (·.accepted))) =
      some (true, some 1) := by
    decide +kernel
  obtain ⟨state, scheduled, rest⟩ := Option.bind_eq_some_iff.mp ran
  obtain ⟨later, continued, facts⟩ := Option.map_eq_some_iff.mp rest
  simp only [Prod.mk.injEq, decide_eq_true_eq, Option.map_eq_some_iff] at facts
  obtain ⟨known, copy, there, visible⟩ := facts
  obtain ⟨row, found, columns⟩ := Option.map_eq_some_iff.mp known
  simp only [Prod.mk.injEq] at columns
  obtain ⟨⟨direct, recipient, accepted, acknowledged⟩, requested, _⟩ := columns
  exact ⟨state, later, row, copy, Rpc.run_reachable (fun _ _ _ => trivial) overtaking scheduled,
    found, direct, recipient, requested_of_first requested, accepted, acknowledged,
    Rpc.run_reachable (fun _ _ _ => trivial) arrival continued, there, visible⟩

end Runs
end NoMiddle.Deletion
