import NoMiddle.TaskConduct

/-! What a thread has read of a message stays true of the columns no statement
changes: who wrote it, to whom, in which group and when. -/
namespace NoMiddle.Recall
open Library Text Crypto DbManager DbViews Node Network Conduct TaskConduct

/-- The columns of a message no statement changes. -/
structure Core where
  messageId : Str
  senderId : Str
  recipientId : Str
  groupId : Str
  timestamp : Int

def core (row : Message) : Core :=
  ⟨row.messageId, row.senderId, row.recipientId, row.groupId, row.timestamp⟩

/-- The store has a row for the message. -/
def Stored (store : Store) (message : Core) : Prop :=
  ∃ row, store.messages.find message.messageId = some row ∧ core row = message

theorem core_set (now : Int) (row : Message) (mark : Mark) : core (mark.set now row) = core row := by
  cases mark <;> rfl

theorem stored_exec (now : Int) (store : Store) (call : Call) (message : Core)
    (stored : Stored store message) : Stored (call.exec now store).2 message := by
  obtain ⟨row, found, same⟩ := stored
  unfold Stored
  rw [messages_exec, found]
  cases call with
  | updateMessages messageId recipientId mark =>
      refine ⟨_, rfl, ?_⟩
      dsimp only
      split
      · exact (core_set now row mark).trans same
      · exact same
  | addMessage msg => exact ⟨row, rfl, same⟩
  | _ => exact ⟨row, rfl, same⟩

theorem stored_handle (input : Input) (operation : LocalOp) (store : Store) (message : Core)
    (stored : Stored store message) : Stored (handle input operation store).2 message := by
  cases operation with
  | call call => exact stored_exec input.now store call message stored
  | _ => exact stored

theorem stored_insert (now : Int) (store : Store) (msg : Message)
    (added : ((Call.addMessage msg).exec now store).1 = true) :
    Stored ((Call.addMessage msg).exec now store).2 (core msg.stored) := by
  have fresh : store.messages.find (cstr msg.messageId) = none := by
    simpa [Call.exec, Table.has] using added
  refine ⟨msg.stored, ?_, rfl⟩
  rw [messages_exec]
  simp [onMessage, core, Message.stored, fresh]

theorem stored_found {store : Store} {id : Str} {row : Message}
    (found : store.messages.find id = some row) : Stored store (core row) := by
  have key := store.messages.find_key found
  subst key
  exact ⟨row, found, rfl⟩

theorem stored_listed (store : Store) (query : Query) (row : Message)
    (listed : row ∈ query.rows store.messages) : Stored store (core row) :=
  stored_found ((mem_rows query store.messages row).mp listed).1

variable {Host : Type} {network : Deployment Host} {before after : World Host}
  {label : Action Host} [DecidableEq Host]

theorem stored_step (step : Rpc.Step network.system label before after) (host : Host)
    (message : Core) (stored : Stored (before.stores host) message) :
    Stored (after.stores host) message :=
  Rpc.store_step (Stored · message) host
    (fun input operation store => stored_handle input operation store message) step stored

/-- What a read says about its store ever after. -/
def recalls (host : Host) (event : Event nodeSig) (state : World Host) : Prop :=
  match event with
  | ⟨.inl (.call (.getMessage messageId)), found⟩ =>
      ∀ row, found = some row →
        row.messageId = cstr messageId ∧ Stored (state.stores host) (core row)
  | ⟨.inl (.call (.getMessages _)), rows⟩ =>
      ∀ row ∈ (rows : List Message), Stored (state.stores host) (core row)
  | _ => True

/-- All threads recall what is still so. -/
def Recalled (state : World Host) : Prop :=
  ∀ thread ∈ state.threads, ∀ event ∈ thread.history, recalls thread.node event state

theorem recalls_kept (step : Rpc.Step network.system label before after) {host : Host}
    {event : Event nodeSig} (known : recalls host event before) : recalls host event after := by
  obtain ⟨operation, answer⟩ := event
  cases operation with
  | inl operation =>
      cases operation with
      | call call =>
          cases call with
          | getMessage messageId =>
              intro row found
              obtain ⟨key, stored⟩ := known row found
              exact ⟨key, stored_step step host _ stored⟩
          | getMessages query =>
              exact fun row member => stored_step step host _ (known row member)
          | _ => trivial
      | _ => trivial
  | inr request => trivial

omit [DecidableEq Host] in
/-- What an operation reads is true of the store it leaves. -/
theorem recalls_handle (state : World Host) (host : Host) {input : Input} {operation : LocalOp}
    {store : Store} (left : state.stores host = (handle input operation store).2) :
    recalls host ⟨.inl operation, (handle input operation store).1⟩ state := by
  cases operation with
  | call call =>
      cases call with
      | getMessage messageId =>
          intro row found
          refine ⟨store.messages.find_key found, ?_⟩
          rw [left]
          exact stored_found found
      | getMessages query =>
          intro row member
          rw [left]
          exact stored_listed store query row member
      | _ => trivial
  | _ => trivial

theorem recalled_step (step : Rpc.Step network.system label before after)
    (recalled : Recalled before) : Recalled after := by
  intro thread member event past
  obtain ⟨index, present⟩ := List.getElem?_of_mem member
  rcases Rpc.event_step step present past with
    ⟨old, current, node, _, earlier⟩ |
    ⟨input, old, operation, next, rfl, current, node, _, here, rfl⟩ | ⟨request, answer, rfl⟩
  · exact recalls_kept step
      (node ▸ recalled old (List.mem_of_getElem? current) event earlier)
  · rw [← node]
    exact recalls_handle after old.node (Rpc.acted_store step current here)
  · trivial

omit [DecidableEq Host] in
theorem recalled_idle (stores : Host → Store) : Recalled (⟨stores, [], []⟩ : World Host) :=
  fun _ member => absurd member List.not_mem_nil

/-- Only the given node starts anything; all others serve. -/
def Serving (sender : Host) (state : World Host) : Prop :=
  ∀ thread ∈ state.threads, thread.node ≠ sender →
    ∃ job request, thread.origin = some (job, request)

theorem serving_step {sender : Host} (step : Rpc.Step network.system label before after)
    (starts : ∀ host task, label = .start host task → host = sender)
    (serving : Serving sender before) : Serving sender after := by
  intro thread member peer
  obtain ⟨index, present⟩ := List.getElem?_of_mem member
  cases Rpc.thread_step step present with
  | still current node origin _ _ _ =>
      exact origin ▸ serving _ (List.mem_of_getElem? current) (node ▸ peer)
  | @acted old _ _ _ _ current _ resumed =>
      subst resumed
      exact serving old (List.mem_of_getElem? current) peer
  | @answered old _ _ _ _ current _ resumed =>
      subst resumed
      exact serving old (List.mem_of_getElem? current) peer
  | started host task begins fresh =>
      subst fresh
      exact absurd (starts host task begins) peer
  | served host job request _ _ _ fresh =>
      subst fresh
      exact ⟨job, request, rfl⟩

end NoMiddle.Recall
