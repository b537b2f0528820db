import NoMiddle.Library.RpcTrace
import NoMiddle.Delivery

/-! What the worker finds to send again. A received message is kept out of the worker's
lists by the values of its columns only, and `/accept_edit` sets the one that keeps its
edit out with a statement of its own, after the edit. -/
namespace NoMiddle.Pending
open Library Text Crypto DbManager DbViews Node Handlers Network Conduct TaskConduct Recall
open Footprint

/-- The message an operation makes a pending edit of. No edit counts as made at time 0. -/
def edits : nodeSig.Op → Option Str
  | .inl (.call (.updateMessages messageId _ (.edit _ _ editedAt))) =>
      if editedAt = 0 then none else some messageId
  | _ => none

def justEdited : Trace → Option Str
  | [] => none
  | event :: _ => edits event.1

/-- The conduct of a served request once more: an edit is at once marked accepted. -/
def prompt : Discipline nodeSig where
  possible := Possible
  allowed history operation := ∀ messageId, justEdited history = some messageId →
    operation = .inl (.call (.updateMessages messageId none .editAccepted))

def Settled {Value : Type} (_ : Value) (history : Trace) : Prop := justEdited history = none

def editFree (operation : nodeSig.Op) : Bool := (edits operation).isNone

theorem prompt_of_only {Value : Type} {program : Proc Value} (only : program.Only editFree)
    {history : Trace} (settled : justEdited history = none) :
    program.wp prompt.contract Settled history := by
  induction program generalizing history with
  | ret value => exact settled
  | op operation next ih =>
      refine ⟨fun messageId edited => ?_, fun answer _ => ih answer (only.2 answer) ?_⟩
      · cases settled.symm.trans edited
      · exact Option.isNone_iff_eq_none.mp only.1

variable (sodium : Sodium) (keys : KeyPair)

theorem acceptMessage_editFree (body : Option Json) :
    (acceptMessage sodium keys body).Only editFree := by
  unfold acceptMessage
  repeat' split
  all_goals first
    | trivial
    | refine only_perform rfl fun (added : Bool) => ?_
  cases added with
  | false => trivial
  | true => exact ⟨rfl, fun _ => trivial⟩

theorem acceptDelete_editFree (body : Option Json) :
    (acceptDelete keys body).Only editFree := by
  unfold acceptDelete
  repeat' split
  all_goals first
    | trivial
    | refine only_perform rfl fun found => ?_
  cases found with
  | none => trivial
  | some msg =>
      dsimp only
      split
      · trivial
      · exact ⟨rfl, fun _ => ⟨rfl, fun _ => trivial⟩⟩

theorem editFree_of_silent (operation : nodeSig.Op) (free : silent operation = true) :
    editFree operation = true := by
  cases operation using operation_cases with
  | call db => cases db <;> first | rfl | cases free
  | sent request => cases free
  | _ => rfl

theorem acceptEdit_prompt (body : Option Json) :
    (acceptEdit sodium keys body).wp prompt.contract Settled [] := by
  unfold acceptEdit
  repeat' split
  all_goals first
    | rfl
    | refine wp_perform (fun _ edited => by cases edited) fun found _ => ?_
  all_goals rcases found with _ | msg
  all_goals try rfl
  refine wp_perform (fun _ edited => by cases edited) fun (updated : Bool) possible => ?_
  cases (possible : updated = true)
  refine wp_mark (fun messageId edited => ?_) fun _ _ => ?_
  · simp only [justEdited, edits, Option.ite_none_left_eq_some, Option.some.injEq] at edited
    rw [edited.2]
  · exact ⟨(fun _ edited => by cases edited), fun _ _ => rfl⟩

variable {Host : Type} (network : Deployment Host) (host : Host)

theorem receive_prompt (endpoint : Endpoint) (body : Option Json) :
    (network.receive host endpoint body).wp prompt.contract Settled [] := by
  cases endpoint with
  | acceptMessage => exact prompt_of_only (acceptMessage_editFree _ _ body) rfl
  | acceptEdit => exact acceptEdit_prompt _ _ body
  | acceptDelete => exact prompt_of_only (acceptDelete_editFree _ body) rfl
  | acceptGroupUpdate =>
      exact prompt_of_only (Program.only_mono editFree_of_silent _ (acceptGroupUpdate_silent body)) rfl
  | publicKey => rfl

/-- A thread works on its node's own business or serves a request, and keeps to the
conduct of the one or of the other. -/
def Lawful (host : Host) (program : Proc Response) (history : Trace) : Prop :=
  ((own network.sodium (network.keys host)).Followed history ∧
    program.wp (own network.sodium (network.keys host)).contract (fun _ _ => True) history) ∨
  (program.wp prompt.contract Settled history ∧ ∃ request, program.wp
    (served network.sodium (network.keys host) request).contract (fun _ _ => True) history)

theorem lawful_resumes (operation : nodeSig.Op) (next : nodeSig.Res operation → Proc Response)
    (history : Trace) (answer : nodeSig.Res operation) (possible : Possible operation answer)
    (lawful : Lawful network host (.op operation next) history) :
    Lawful network host (next answer) (⟨operation, answer⟩ :: history) := by
  rcases lawful with ⟨followed, mine⟩ | ⟨promptly, request, theirs⟩
  · exact .inl ⟨⟨mine.1, possible, followed⟩, mine.2 answer possible⟩
  · exact .inr ⟨promptly.2 answer possible, request, theirs.2 answer possible⟩

theorem serve_receive (request : Request) :
    network.serve host request = network.receive host request.endpoint (some request.body) := by
  unfold Deployment.serve Handlers.serve Deployment.receive
  cases request.endpoint <;> rfl

theorem lawful_serve (request : Request) :
    Lawful network host (network.serve host request) [] := by
  refine .inr ⟨?_, request, ?_⟩
  · rw [serve_receive]
    exact receive_prompt network host request.endpoint (some request.body)
  · exact Program.wp_mono (served _ _ _).contract_monotone _ (fun _ _ _ => trivial) []
      (ServedConduct.serve_served network host request)

theorem lawful_program (task : Task) : Lawful network host (network.program host task) [] := by
  cases incoming : isIncoming task with
  | false => exact .inl ⟨trivial, program_own network host task incoming⟩
  | true =>
      cases task with
      | incoming endpoint body =>
          refine .inr ⟨receive_prompt network host endpoint body, ?_⟩
          cases body with
          | none =>
              refine ⟨⟨[], endpoint, .null⟩, ?_⟩
              cases endpoint <;> trivial
          | some body => exact ⟨_, receive_served network host endpoint body⟩
      | _ => cases incoming

/-- The thread has edited the message and is about to mark its edit accepted. -/
def Midway (id : Str) (program : Proc Response) (history : Trace) : Prop :=
  ∃ messageId next, cstr messageId = id ∧ justEdited history = some messageId ∧
    program = .op (.inl (.call (.updateMessages messageId none .editAccepted))) next

theorem midway_of_prompt {program : Proc Response} {history : Trace} {messageId : Str}
    (promptly : program.wp prompt.contract Settled history)
    (edited : justEdited history = some messageId) :
    Midway (cstr messageId) program history := by
  cases program with
  | ret answer => cases edited.symm.trans promptly
  | op operation next =>
      have marks := promptly.1 messageId edited
      subst marks
      exact ⟨messageId, next, rfl, edited, rfl⟩

/-- The lists the worker sends again from. -/
def resent : Query → Bool
  | .pendingMessages | .pendingEdits | .pendingDeletes => true
  | _ => false

/-- When the worker asks for the pending edits, no request of its node has edited a
message of somebody else without marking that edit. -/
def Clear (state : World Host) (label : Action Host) : Prop :=
  ∀ index input thread next, label = .act index input → state.threads[index]? = some thread →
    thread.node = host → thread.program = .op (.inl (.call (.getMessages .pendingEdits))) next →
    ∀ other ∈ state.threads, other.node = host → ∀ id row,
      Midway id other.program other.history →
      (state.stores host).messages.find id = some row → row.senderId = network.id host

/-- What keeps received messages out of the worker's lists. -/
structure Guarded (state : World Host) : Prop where
  lawful : ∀ thread ∈ state.threads, Lawful network thread.node thread.program thread.history
  recalled : Recalled state
  messages : ∀ id row, (state.stores host).messages.find id = some row →
    row.accepted = messagePending → row.senderId = network.id host
  deletes : ∀ id row, (state.stores host).messages.find id = some row →
    row.deleteAccepted = 0 → row.senderId = network.id host
  edits : ∀ id row, (state.stores host).messages.find id = some row →
    row.editAccepted = 0 → row.editedAt ≠ 0 → row.senderId = network.id host ∨
      ∃ thread ∈ state.threads, thread.node = host ∧ Midway id thread.program thread.history
  listed : ∀ thread ∈ state.threads, thread.node = host → ∀ query row, resent query = true →
    Listed thread.history query row → row.senderId = network.id host

section Steps
variable {network} {host} [DecidableEq Host] {before after : World Host} {label : Action Host}

theorem lawful_step (step : Rpc.Step network.system label before after)
    (lawful : ∀ thread ∈ before.threads,
      Lawful network thread.node thread.program thread.history) :
    ∀ thread ∈ after.threads, Lawful network thread.node thread.program thread.history :=
  Rpc.each_step (fun host operation next history answer => lawful_resumes network host operation
      next history answer)
    (fun _ input operation store => possible_handle input operation store) (fun _ _ => trivial)
    (lawful_program network) (lawful_serve network) step lawful

omit [DecidableEq Host] in
/-- The message a thread has read is the one its node still has. -/
theorem sender_read {state : World Host} (recalled : Recalled state) {thread : Thread Host}
    (member : thread ∈ state.threads) {messageId : Str} {row old : Message}
    (read : Read thread.history messageId row)
    (found : (state.stores thread.node).messages.find (cstr messageId) = some old) :
    old.senderId = row.senderId := by
  obtain ⟨key, there, stored, same⟩ := recalled thread member _ read row rfl
  have here : (state.stores thread.node).messages.find row.messageId = some there := stored
  rw [key, found] at here
  cases here
  exact congrArg Core.senderId same

omit [DecidableEq Host] in
theorem find_addressed {store : Store} {id messageId : Str} {only : Option Str} {old : Message}
    (there : store.messages.find id = some old) (hit : addressed messageId only old = true) :
    store.messages.find (cstr messageId) = some old := by
  have key := store.messages.find_key there
  simp only [addressed, Bool.and_eq_true, decide_eq_true_eq] at hit
  rw [← hit.1, key]
  exact there

/-- A thread that is about to mark an edit keeps being so until the edit is marked. -/
theorem midway_step (step : Rpc.Step network.system label before after) {thread : Thread Host}
    (member : thread ∈ before.threads) {id : Str}
    (midway : Midway id thread.program thread.history) {row : Message}
    (found : (after.stores thread.node).messages.find id = some row) (open_ : row.editAccepted = 0) :
    thread ∈ after.threads := by
  obtain ⟨messageId, next, key, _, here⟩ := midway
  obtain ⟨index, present⟩ := List.getElem?_of_mem member
  -- Either the thread acts itself, and its mark closes the edit, or it stays where it is.
  by_cases acts : ∃ input, label = .act index input
  · obtain ⟨input, rfl⟩ := acts
    have left := Rpc.acted_store step present here
    have marked : onMessage input.now id (.updateMessages messageId none .editAccepted)
        ((before.stores thread.node).messages.find id) = some row := by
      rw [← found, left]
      exact (messages_exec input.now _ _ id).symm
    cases old : (before.stores thread.node).messages.find id with
    | none =>
        rw [old] at marked
        cases marked
    | some earlier =>
        have named : earlier.messageId = cstr messageId :=
          ((before.stores thread.node).messages.find_key old).trans key.symm
        rw [old] at marked
        simp only [onMessage, Option.map_some, addressed, named, decide_true, Bool.and_true,
          ↓reduceIte, Option.some.injEq] at marked
        subst marked
        cases open_
  · exact List.mem_of_getElem?
      (Rpc.thread_stays step present here fun input same => acts ⟨input, same⟩)

theorem messages_step (step : Rpc.Step network.system label before after)
    (guarded : Guarded network host before) (id : Str) (row : Message)
    (found : (after.stores host).messages.find id = some row)
    (pending : row.accepted = messagePending) : row.senderId = network.id host := by
  rcases message_step step host id with
    same | ⟨index, input, thread, call, next, _, current, rfl, here, changed⟩
  · exact guarded.messages id row (same ▸ found) pending
  rcases onMessage_cases (changed.symm.trans found) with
    kept | ⟨msg, rfl, _, _, rfl⟩ | ⟨old, messageId, only, mark, rfl, there, _, rfl⟩
  · exact guarded.messages id row kept pending
  · have lawful := guarded.lawful thread (List.mem_of_getElem? current)
    rw [here] at lawful
    rcases lawful with ⟨_, composed, _⟩ | ⟨_, request, ⟨_, received⟩, _⟩
    · exact (congrArg cstr composed.senderId).trans (cstr_of_clean (publicKeyB64_clean _))
    · cases received.accepted.symm.trans pending
  · have kept := guarded.messages id old there
    cases mark with
    | accepted | failed | deleted => cases pending
    | _ => exact kept pending

theorem deletes_step (step : Rpc.Step network.system label before after)
    (guarded : Guarded network host before) (id : Str) (row : Message)
    (found : (after.stores host).messages.find id = some row)
    (pending : row.deleteAccepted = 0) : row.senderId = network.id host := by
  rcases message_step step host id with
    same | ⟨index, input, thread, call, next, _, current, rfl, here, changed⟩
  · exact guarded.deletes id row (same ▸ found) pending
  rcases onMessage_cases (changed.symm.trans found) with
    kept | ⟨msg, rfl, _, _, rfl⟩ | ⟨old, messageId, only, mark, rfl, there, hit, rfl⟩
  · exact guarded.deletes id row kept pending
  · cases pending
  · have kept := guarded.deletes id old there
    cases mark with
    | deletePending =>
        have member := List.mem_of_getElem? current
        have lawful := guarded.lawful thread member
        rw [here] at lawful
        rcases lawful with ⟨followed, ⟨_, done, earlier, past⟩, _⟩ | ⟨_, request, ⟨_, none⟩, _⟩
        · -- The thread has just marked the message deleted, and before that read it as its own.
          rw [past] at followed
          obtain ⟨_, row, read, mine⟩ := followed.1
          have read : Read thread.history messageId row := by
            unfold Read
            rw [past]
            exact List.mem_cons_of_mem _ read
          change old.senderId = network.id thread.node
          exact (sender_read guarded.recalled member read (find_addressed there hit)).trans mine
        · exact none.elim
    | deleteAccepted | deleteFailed => cases pending
    | _ => exact kept pending

theorem edits_step (step : Rpc.Step network.system label before after)
    (guarded : Guarded network host before) (id : Str) (row : Message)
    (found : (after.stores host).messages.find id = some row)
    (pending : row.editAccepted = 0) (edited : row.editedAt ≠ 0) :
    row.senderId = network.id host ∨
      ∃ thread ∈ after.threads, thread.node = host ∧ Midway id thread.program thread.history := by
  -- An edit that was open before is accounted for by what held of it then.
  have earlier : ∀ old : Message, (before.stores host).messages.find id = some old →
      old.editAccepted = 0 → old.editedAt ≠ 0 → old.senderId = row.senderId →
      row.senderId = network.id host ∨ ∃ thread ∈ after.threads, thread.node = host ∧
        Midway id thread.program thread.history := by
    intro old there open_ made same
    rcases guarded.edits id old there open_ made with mine | ⟨thread, member, rfl, midway⟩
    · exact .inl (same ▸ mine)
    · exact .inr ⟨thread, midway_step step member midway found pending, rfl, midway⟩
  rcases message_step step host id with
    same | ⟨index, input, thread, call, next, rfl, current, rfl, here, changed⟩
  · exact earlier row (same ▸ found) pending edited rfl
  rcases onMessage_cases (changed.symm.trans found) with
    kept | ⟨msg, rfl, _, _, rfl⟩ | ⟨old, messageId, only, mark, rfl, there, hit, rfl⟩
  · exact earlier row kept pending edited rfl
  · exact absurd rfl edited
  · cases mark with
    | editAccepted | editFailed => cases pending
    | edit plaintext ciphertext editedAt =>
        have member := List.mem_of_getElem? current
        have named := find_addressed there hit
        have key := (before.stores thread.node).messages.find_key named
        have lawful := guarded.lawful thread member
        rw [here] at lawful
        rcases lawful with ⟨_, ⟨_, may, _⟩, _⟩ | ⟨promptly, request, _, _⟩
        · obtain ⟨seen, read, mine, _⟩ := may.row
          exact .inl ((sender_read guarded.recalled member read named).trans mine)
        · -- The request goes on to mark its edit.
          have resumed := Rpc.acted_thread step current here
          have goes := promptly.2 true rfl
          refine .inr ⟨_, List.mem_of_getElem? resumed, rfl, ?_⟩
          have same : cstr messageId = id :=
            key.symm.trans ((before.stores thread.node).messages.find_key there)
          rw [← same]
          exact midway_of_prompt goes (if_neg edited)
    | _ => exact earlier old there pending edited rfl

theorem listed_step (step : Rpc.Step network.system label before after)
    (clear : Clear network host before label) (guarded : Guarded network host before) :
    ∀ thread ∈ after.threads, thread.node = host → ∀ query row, resent query = true →
      Listed thread.history query row → row.senderId = network.id host := by
  rintro thread member here query row worker ⟨rows, past, listed⟩
  obtain ⟨index, present⟩ := List.getElem?_of_mem member
  rcases Rpc.event_step step present past with
    ⟨old, current, node, _, earlier⟩ |
    ⟨input, old, operation, next, rfl, current, node, _, asks, same⟩ | ⟨request, answer, sent⟩
  · exact guarded.listed old (List.mem_of_getElem? current) (node.trans here) query row worker
      ⟨rows, earlier, listed⟩
  · -- The list has just been read, so its rows are the store's.
    injection same with operations answers
    injection operations with operations
    subst operations
    cases eq_of_heq answers
    rw [node, here] at listed
    obtain ⟨found, selected⟩ := (mem_rows query (before.stores host).messages row).mp listed
    cases query with
    | pendingMessages =>
        exact guarded.messages _ row found (of_decide_eq_true selected)
    | pendingEdits =>
        simp only [Query.selects, Bool.and_eq_true, decide_eq_true_eq] at selected
        rcases guarded.edits _ row found selected.1 selected.2 with
          mine | ⟨other, among, there, midway⟩
        · exact mine
        · exact clear index input old next rfl current (node.trans here) asks other among there _ row
            midway found
    | pendingDeletes =>
        simp only [Query.selects, Bool.and_eq_true, decide_eq_true_eq] at selected
        exact guarded.deletes _ row found selected.1
    | between | forGroup => cases worker
  · cases sent

theorem guarded_step (step : Rpc.Step network.system label before after)
    (clear : Clear network host before label) (guarded : Guarded network host before) :
    Guarded network host after where
  lawful := lawful_step step guarded.lawful
  recalled := recalled_step step guarded.recalled
  messages := messages_step step guarded
  deletes := deletes_step step guarded
  edits := edits_step step guarded
  listed := listed_step step clear guarded

end Steps

/-- In every run in which the worker never asks for the pending edits while a request has
edited a message of somebody else without marking the edit, all the rows it is ever
given are messages of its own node. -/
theorem worker_lists_own [DecidableEq Host] (stores : Host → Store)
    (empty : ∀ id, (stores host).messages.find id = none) {state : World Host}
    (run : Rpc.Reachable network.system (Clear network host) ⟨stores, [], []⟩ state) :
    ∀ thread ∈ state.threads, thread.node = host → ∀ query row, resent query = true →
      Listed thread.history query row → row.senderId = network.id host := by
  have blank : ∀ id row, (stores host).messages.find id ≠ some row := by
    intro id row found
    cases (empty id).symm.trans found
  have guarded : Guarded network host state := by
    refine run.invariant (Guarded network host) ?_ fun before label after kept clear step =>
      guarded_step step clear kept
    exact {
      lawful := fun _ member => absurd member List.not_mem_nil
      recalled := recalled_idle stores
      messages := fun id row found => absurd found (blank id row)
      deletes := fun id row found => absurd found (blank id row)
      edits := fun id row found => absurd found (blank id row)
      listed := fun _ member => absurd member List.not_mem_nil }
  exact guarded.listed

section Runs

/-- What the program was given when it last asked. -/
def lists (query : Query) : Trace → List Message
  | [] => []
  | ⟨.inl (.call (.getMessages other)), rows⟩ :: rest =>
      if other = query then rows else lists query rest
  | _ :: rest => lists query rest

theorem listed_of_lists {query : Query} {history : Trace} {row : Message}
    (member : row ∈ lists query history) : Listed history query row := by
  have later : ∀ {event : Event nodeSig} {rest : Trace}, Listed rest query row →
      Listed (event :: rest) query row := by
    rintro event rest ⟨rows, past, among⟩
    exact ⟨rows, List.mem_cons_of_mem _ past, among⟩
  induction history with
  | nil => cases member
  | cons event rest ih =>
      unfold lists at member
      split at member
      · cases ‹_ :: _ = []›
      · next other rows _ same =>
        cases same
        split at member
        · next query_eq =>
          subst query_eq
          exact ⟨rows, List.mem_cons_self, member⟩
        · exact later (ih member)
      · next same =>
        cases same
        exact later (ih member)

/-- A user sends a message, its request is lost and the worker asks what to send again. -/
def unanswered : List (Action Bool) :=
  .start true (.sendMessage (userRequest
      [("recipient_id", .str (pair.id false)), ("text", .str (str "hi"))])) ::
    List.replicate 6 (.act 0 (clockAt 7)) ++ [.post 0, .drop 0, .giveUp 0, .start true .retryPass,
    .act 1 (clockAt 9), .act 1 (clockAt 9)]

/-- A check that implies the condition: no thread has just edited a message. -/
def quiet (state : World Bool) : Action Bool → Bool
  | .act _ _ => state.threads.all fun thread => (justEdited thread.history).isNone
  | _ => true

theorem clear_of_quiet (host : Bool) (state : World Bool) (label : Action Bool)
    (passes : quiet state label = true) : Clear pair host state label := by
  intro index input thread next acts _ _ _ other member _ id row midway _
  subst acts
  obtain ⟨messageId, _, _, edited, _⟩ := midway
  have settled := List.all_eq_true.mp passes other member
  rw [edited] at settled
  cases settled

theorem unanswered_listed : ∃ (state : World Bool) (thread : Thread Bool) (row : Message),
    thread ∈ state.threads ∧ thread.node = true ∧ Listed thread.history .pendingMessages row ∧
    row.senderId = pair.id true := by
  have ran : (Rpc.run pair.system quiet unanswered ⟨acquainted, [], []⟩).bind
      (fun state => state.threads[1]?.map fun thread =>
        (thread.node, (lists .pendingMessages thread.history).map (·.messageId))) =
      some (true, [firstId]) := by
    decide +kernel
  obtain ⟨state, scheduled, rest⟩ := Option.bind_eq_some_iff.mp ran
  obtain ⟨thread, present, facts⟩ := Option.map_eq_some_iff.mp rest
  simp only [Prod.mk.injEq] at facts
  obtain ⟨row, rows, _⟩ := List.map_eq_singleton_iff.mp facts.2
  have member := List.mem_of_getElem? present
  have listed : Listed thread.history .pendingMessages row := listed_of_lists (by simp [rows])
  exact ⟨state, thread, row, member, facts.1, listed, worker_lists_own pair true acquainted
    (fun _ => rfl) (Rpc.run_reachable (clear_of_quiet true) unanswered scheduled) thread member
    facts.1 .pendingMessages row rfl listed⟩

/-- A message is delivered and edited; the worker of its receiver asks for the pending
edits when the edit is stored there and not yet marked. -/
def betweenTwo : List (Action Bool) :=
  Delivery.greeting ++ .start true (.editMessage (userRequest
      [("message_id", .str firstId), ("text", .str (str "ho"))])) ::
    List.replicate 6 (.act 2 (clockAt 8)) ++ [.post 2, .deliver 1 false, .act 3 (clockAt 8),
    .act 3 (clockAt 8), .start false .retryPass, .act 4 (clockAt 9), .act 4 (clockAt 9)]

theorem received_edit_listed : ∃ (state : World Bool) (thread : Thread Bool) (row : Message),
    Rpc.Reachable pair.system (fun _ _ => True) ⟨acquainted, [], []⟩ state ∧
    thread ∈ state.threads ∧ thread.node = false ∧ Listed thread.history .pendingEdits row ∧
    row.senderId ≠ pair.id false := by
  have ran : (Rpc.run pair.system (fun _ _ => true) betweenTwo ⟨acquainted, [], []⟩).bind
      (fun state => state.threads[4]?.map fun thread =>
        (thread.node, (lists .pendingEdits thread.history).map (·.senderId))) =
      some (false, [pair.id true]) := by
    decide +kernel
  obtain ⟨state, scheduled, rest⟩ := Option.bind_eq_some_iff.mp ran
  obtain ⟨thread, present, facts⟩ := Option.map_eq_some_iff.mp rest
  simp only [Prod.mk.injEq] at facts
  obtain ⟨row, rows, sender⟩ := List.map_eq_singleton_iff.mp facts.2
  refine ⟨state, thread, row, Rpc.run_reachable (fun _ _ _ => trivial) betweenTwo scheduled,
    List.mem_of_getElem? present, facts.1, listed_of_lists (by simp [rows]), ?_⟩
  rw [sender]
  decide

end Runs
end NoMiddle.Pending
