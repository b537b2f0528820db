import NoMiddle.Recall

/-! A message counts as delivered only when its recipient has it. Once stored, a
row keeps its id, its two parties, its group and its time for good, so whoever saw
it stored may rely on it later: the receiving thread when it answers, the answer on
its way back, and the sender when it marks its own row. -/
namespace NoMiddle.Delivery
open Library Text Crypto DbManager DbViews Node Network Conduct TaskConduct Recall

variable {Host : Type} (network : Deployment Host)

/-- The node with the recipient's key has the message. -/
def Delivered (state : World Host) (message : Core) : Prop :=
  ∃ host, network.id host = message.recipientId ∧ Stored (state.stores host) message

/-- What a 200 to `/accept_message` says. -/
def granted (request : Request) (answer : Response) (state : World Host) : Prop :=
  answer.code = 200 → request.endpoint = .acceptMessage →
    ∃ host msg, Received network.sodium (network.keys host) request.body msg ∧
      Stored (state.stores host) (core msg.stored)

/-- What an event of a thread says about the stores ever after. -/
def shows (host : Host) (event : Event nodeSig) (state : World Host) : Prop :=
  match event with
  | ⟨.inl (.call (.addMessage msg)), added⟩ =>
      added = true → Stored (state.stores host) (core msg.stored)
  | ⟨.inl (.call (.getMessages _)), rows⟩ =>
      ∀ row ∈ (rows : List Message), Stored (state.stores host) (core row)
  | ⟨.inr request, some answer⟩ => granted network request answer state
  | _ => True

variable {network} {before after : World Host} {label : Action Host} [DecidableEq Host]

theorem granted_step (step : Rpc.Step network.system label before after) (request : Request)
    (answer : Response) (before_granted : granted network request answer before) :
    granted network request answer after := by
  intro code endpoint
  obtain ⟨host, msg, received, stored⟩ := before_granted code endpoint
  exact ⟨host, msg, received, stored_step step host _ stored⟩

theorem shows_step (step : Rpc.Step network.system label before after) (host : Host)
    (event : Event nodeSig) (shown : shows network host event before) :
    shows network host event after := by
  obtain ⟨operation, answer⟩ := event
  cases operation with
  | inl operation =>
      cases operation with
      | call call =>
          cases call with
          | addMessage msg => exact fun success => stored_step step host _ (shown success)
          | getMessages query => exact fun row member => stored_step step host _ (shown row member)
          | _ => trivial
      | _ => trivial
  | inr request =>
      cases answer with
      | none => trivial
      | some answer => exact granted_step step request answer shown

omit [DecidableEq Host] in
/-- What an operation answers is true of the store it leaves. -/
theorem shows_handle (state : World Host) (host : Host) {input : Input} {operation : LocalOp}
    {store : Store} {answer : operation.Res}
    (taken : handle input operation store = (answer, state.stores host)) :
    shows network host ⟨.inl operation, answer⟩ state := by
  cases operation with
  | call call =>
      obtain ⟨answered, left⟩ := Prod.mk.inj taken
      cases call with
      | addMessage msg =>
          intro success
          rw [← left]
          exact stored_insert input.now store msg (answered.trans success)
      | getMessages query =>
          intro row member
          have listed : query.rows store.messages = answer := answered
          rw [← left]
          exact stored_listed store query row (listed ▸ member)
      | _ => trivial
  | _ => trivial

theorem testifies (step : Rpc.Step network.system label before after)
    (orderly : Orderly network before)
    (testified : Rpc.Testified (shows network) (granted network) before)
    (closed : ∀ request, network.foreign request = false) :
    Rpc.Testifies (shows network) (granted network) step where
  keepEvent host event shown := shows_step step host event shown
  keepAnswer request answer said := granted_step step request answer said
  act index input thread operation next answer store labelled current here taken := by
    subst labelled
    cases step with
    | @act _ _ _ other _ rest _ left found there done =>
        rw [current] at found
        cases found
        rw [here] at there
        cases there
        rw [taken] at done
        cases done
        exact shows_handle _ _ (taken.trans (by simp))
  receive host request answer said := granted_step step request answer said
  giveUp _ _ := trivial
  reply thread member job request answer serves done := by
    intro code endpoint
    have ensured := Rpc.complies_ensures (orderly.complies thread member) serves done code
    simp only [endpoint] at ensured
    obtain ⟨msg, received, event⟩ := ensured
    exact ⟨thread.node, msg, received, testified.event thread member _ event rfl⟩
  foreign request answer outside := by
    rw [show network.system.foreign request = network.foreign request from rfl, closed] at outside
    cases outside

theorem delivered_step (step : Rpc.Step network.system label before after) {message : Core}
    (delivered : Delivered network before message) : Delivered network after message := by
  obtain ⟨host, recipient, stored⟩ := delivered
  exact ⟨host, recipient, stored_step step host message stored⟩

/-- No direct message of a node is marked accepted before its recipient has it. -/
def NeverEarly (network : Deployment Host) (state : World Host) : Prop :=
  ∀ host id row, (state.stores host).messages.find id = some row →
    row.senderId = network.id host → row.groupId = [] → row.accepted = 1 →
    Delivered network state (core row)

omit [DecidableEq Host] in
theorem stored_taken {state : World Host} {host : Host} {event : Event nodeSig} {id : Str}
    {copy : Message} (shown : shows network host event state)
    (taken : takesMessage id event = some copy) : Stored (state.stores host) (core copy) := by
  unfold takesMessage at taken
  split at taken
  · next msg added =>
    split at taken
    · next success =>
      cases taken
      exact shown success.1
    · cases taken
  · next rows => exact shown copy (List.mem_of_find?_eq_some taken)
  · cases taken

omit [DecidableEq Host] in
/-- A message acknowledged to the thread that holds it, read off its own row. -/
theorem delivered_of_acknowledged {state : World Host} {thread : Thread Host}
    (testified : Rpc.Testified (shows network) (granted network) state)
    (member : thread ∈ state.threads) {copy row : Message}
    (held : messageCustody.held copy.messageId thread.history = some copy)
    (acknowledged : Acknowledged .acceptMessage (CarriesMessage · copy) thread.history)
    (found : (state.stores thread.node).messages.find copy.messageId = some row) :
    Delivered network state (core row) := by
  obtain ⟨event, past, taken⟩ := Custody.held_source held
  have stored := stored_taken (testified.event thread member event past) taken
  have sameRow : core row = core copy := by
    obtain ⟨other, there, same⟩ := stored
    rw [show (core copy).messageId = copy.messageId from rfl, found] at there
    cases there
    exact same
  obtain ⟨request, answer, earlier, history, code, endpoint, carries⟩ := acknowledged
  have granted := testified.event thread member ⟨.inr request, some answer⟩ (by simp [history])
  obtain ⟨host, msg, received, there⟩ := granted code endpoint
  have clean : AllClean row.texts := (state.stores thread.node).messages.find_valid found
  -- Field for field: what the answer acknowledges is what the row was sent as.
  have sameMessage : core msg.stored = core row := by
    have ids := received.messageId.symm.trans carries.messageId
    have senders := received.senderId.symm.trans carries.senderId
    have recipients := received.recipientId.symm.trans carries.recipientId
    have groups := received.groupId.symm.trans carries.groupId
    have times := received.timestamp.symm.trans carries.timestamp
    simp only [Option.some.injEq] at ids senders recipients times
    simp only [AllClean, Message.texts, List.forall_mem_cons] at clean
    simp only [core, Core.mk.injEq] at sameRow
    simp [core, Message.stored, ids, senders, recipients, groups, times, ← sameRow.1,
      ← sameRow.2.1, ← sameRow.2.2.1, ← sameRow.2.2.2.1, sameRow.2.2.2.2, cstr_of_clean, clean]
  refine ⟨host, ?_, sameMessage ▸ there⟩
  rw [← sameMessage]
  change network.id host = cstr msg.recipientId
  rw [received.own, cstr_of_clean (publicKeyB64_clean _)]
  rfl

/-- One step: only the mark after a 200 makes a row accepted, and only a row whose
recipient is this very node is stored as accepted. -/
theorem neverEarly_step (step : Rpc.Step network.system label before after)
    (orderly : Orderly network before)
    (testified : Rpc.Testified (shows network) (granted network) before)
    (neverEarly : NeverEarly network before) : NeverEarly network after := by
  intro host id row found sender direct accepted
  rcases message_step step host id with
    same | ⟨index, input, thread, call, next, _, current, rfl, here, changed⟩
  · rw [same] at found
    exact delivered_step step (neverEarly host id row found sender direct accepted)
  have member := List.mem_of_getElem? current
  have allowed := Rpc.complies_allowed (orderly.complies thread member) here
  have origin := changed.symm.trans found
  rcases onMessage_cases origin with kept | ⟨msg, rfl, absent, key, rfl⟩ |
    ⟨old, messageId, recipientId, mark, rfl, there, hit, rfl⟩
  · exact delivered_step step (neverEarly thread.node id row kept sender direct accepted)
  · rcases conduct_allowed network thread.node allowed with composed | ⟨request, _, received⟩
    · -- A direct message of the node's own is inserted pending, not accepted.
      have group : msg.groupId = [] := (cstr_of_clean composed.groupId).symm.trans direct
      have pending : msg.accepted = 1 := accepted
      rw [composed.direct group] at pending
      cases pending
    · refine ⟨thread.node, ?_, msg.stored, ?_, rfl⟩
      · change network.id thread.node = cstr msg.recipientId
        rw [received.own, cstr_of_clean (publicKeyB64_clean _)]
        rfl
      · rw [show (core msg.stored).messageId = id from key]
        exact found
  · rw [core_set]
    have sameSender : old.senderId = network.id thread.node :=
      (congrArg Core.senderId (core_set input.now old mark)).symm.trans sender
    have sameGroup : old.groupId = [] :=
      (congrArg Core.groupId (core_set input.now old mark)).symm.trans direct
    by_cases already : old.accepted = 1
    · exact delivered_step step
        (neverEarly thread.node id old there sameSender sameGroup already)
    -- Only one mark makes a row accepted that was not.
    have marked : mark = .accepted := by
      cases mark with
      | accepted => rfl
      | failed | deleted => cases accepted
      | _ => exact absurd accepted already
    subst marked
    rcases conduct_allowed network thread.node allowed with mine | ⟨request, _, theirs⟩
    · obtain ⟨copy, held, rfl, clean, _, acknowledged⟩ := mine
      have key : id = copy.messageId := by
        have found := (before.stores thread.node).messages.find_key there
        simp only [addressed, Bool.and_eq_true, decide_eq_true_eq] at hit
        rw [← found, hit.1, cstr_of_clean clean]
      exact delivered_step step
        (delivered_of_acknowledged testified member held acknowledged (key ▸ there))
    · exact theirs.elim

/-- The invariant of every run. -/
structure Sound (network : Deployment Host) (state : World Host) : Prop where
  orderly : Orderly network state
  testified : Rpc.Testified (shows network) (granted network) state
  neverEarly : NeverEarly network state

theorem sound_step (closed : ∀ request, network.foreign request = false)
    (step : Rpc.Step network.system label before after) (sound : Sound network before) :
    Sound network after where
  orderly := orderly_step step sound.orderly
  testified := Rpc.testified_step step sound.orderly.linked
    (testifies step sound.orderly sound.testified closed) sound.testified
  neverEarly := neverEarly_step step sound.orderly sound.testified sound.neverEarly

omit [DecidableEq Host] in
theorem sound_idle (stores : Host → Store)
    (empty : ∀ host id, (stores host).messages.find id = none) :
    Sound network ⟨stores, [], []⟩ where
  orderly := orderly_idle stores
  testified := ⟨fun _ member => absurd member List.not_mem_nil, by simp⟩
  neverEarly host id row found := by
    rw [empty host id] at found
    cases found

/-- A message is sent, stored and acknowledged. -/
def greeting : List (Action Bool) :=
  [.start true (.sendMessage (userRequest
      [("recipient_id", .str (pair.id false)), ("text", .str (str "hi"))])),
    .act 0 (clockAt 7), .act 0 (clockAt 7), .act 0 (clockAt 7), .act 0 (clockAt 7),
    .act 0 (clockAt 7), .act 0 (clockAt 7), .post 0, .deliver 0 false, .act 1 (clockAt 7),
    .act 1 (clockAt 7), .reply 1, .receive 0, .act 0 (clockAt 7)]

end NoMiddle.Delivery
