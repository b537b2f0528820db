import NoMiddle.Library.RpcCustody
import NoMiddle.ServedConduct
import NoMiddle.RetryConduct

/-! The conduct of whole nodes: every task that is the node's own business, and
every request another node's program sends, also when it comes from elsewhere. -/
namespace NoMiddle.TaskConduct
open Library Text Crypto DbManager DbViews Node Handlers Network Conduct Footprint
open ServedConduct MessageConduct RetryConduct

def isIncoming : Task → Bool
  | .incoming .. => true
  | _ => false

/-- A node's tasks and requests from outside the network. -/
def anyTask (sodium : Sodium) (keys : KeyPair) : Discipline nodeSig where
  possible := Possible
  allowed history operation := (own sodium keys).allowed history operation ∨
    ∃ request, (served sodium keys request).allowed history operation

variable {Host : Type} (network : Deployment Host) (host : Host)

theorem program_own (task : Task) (inside : isIncoming task = false) :
    (network.program host task).wp (own network.sodium (network.keys host)).contract
      (fun _ _ => True) [] := by
  cases about : aboutMessages task with
  | false =>
      exact Program.wp_of_only (own_harmless _ _) _ (program_messageFree network host task about) []
  | true =>
      cases task with
      | sendMessage req => exact sendDirect_own _ _ req
      | editMessage req => exact editDirect_own _ _ req
      | deleteMessage req => exact deleteDirect_own _ _ req
      | groupSend req group => exact groupSend_own _ _ req group
      | groupEdit req group => exact groupEdit_own _ _ req group
      | groupDelete req group => exact groupDelete_own _ _ req group
      | retryPass =>
          exact Program.wp_seq (own _ _).contract_monotone _ _ [] (retryPass_own _ _ [])
            fun _ _ _ => trivial
      | incoming => cases inside
      | _ => cases about

theorem receive_served (endpoint : Endpoint) (body : Json) :
    (network.receive host endpoint (some body)).wp
      (served network.sodium (network.keys host) ⟨[], endpoint, body⟩).contract
      (fun _ _ => True) [] := by
  have complies := serve_served network host ⟨[], endpoint, body⟩
  have same : network.receive host endpoint (some body) =
      network.serve host ⟨[], endpoint, body⟩ := by
    cases endpoint <;> rfl
  rw [same]
  exact Program.wp_mono (served _ _ _).contract_monotone _ (fun _ _ _ => trivial) [] complies

theorem program_anyTask (task : Task) :
    (network.program host task).wp (anyTask network.sodium (network.keys host)).contract
      (fun _ _ => True) [] := by
  cases incoming : isIncoming task with
  | false =>
      refine Program.wp_weaken ?_ ?_ _ [] (program_own network host task incoming)
      · exact fun _ _ possible => possible
      · exact fun _ _ allowed => Or.inl allowed
  | true =>
      cases task with
      | incoming endpoint body =>
          cases body with
          | none => cases endpoint <;> trivial
          | some body =>
              refine Program.wp_weaken ?_ ?_ _ [] (receive_served network host endpoint body)
              · exact fun _ _ possible => possible
              · exact fun _ _ allowed => Or.inr ⟨_, allowed⟩
      | _ => cases incoming

/-! The conduct of a whole network, and what every run of it keeps. -/
def conduct (origin : Option Request) : Discipline nodeSig :=
  match origin with
  | none => anyTask network.sodium (network.keys host)
  | some request => served network.sodium (network.keys host) request

def promise : Request → Response → Trace → Prop :=
  ensures network.sodium (network.keys host)

/-- Whatever a thread does, its node does on its own account or for a request. -/
theorem conduct_allowed {origin : Option Request} {history : Trace} {operation : nodeSig.Op}
    (allowed : (conduct network host origin).allowed history operation) :
    (own network.sodium (network.keys host)).allowed history operation ∨
      ∃ request, (served network.sodium (network.keys host) request).allowed history operation := by
  cases origin with
  | none => exact allowed
  | some request => exact .inr ⟨request, allowed⟩

/-- The same of a network no request enters from outside. -/
def inside (origin : Option Request) : Discipline nodeSig :=
  match origin with
  | none => own network.sodium (network.keys host)
  | some request => served network.sodium (network.keys host) request

theorem inside_disciplined : Rpc.Disciplined (inside network) (promise network) network.system
    fun _ task => isIncoming task = false where
  possible host origin input operation store := by
    cases origin <;> exact possible_handle input operation store
  answers host origin request answer := by
    cases origin <;> trivial
  program host task enters := program_own network host task enters
  serve host request _ := serve_served network host request

variable [DecidableEq Host]

abbrev Thread (Host : Type) := Rpc.Thread nodeSig Host Request Response
abbrev World (Host : Type) := Rpc.Configuration localSig Host Store Request Response
abbrev Action (Host : Type) := Rpc.Label Host Task Input Response

omit [DecidableEq Host] in
theorem disciplined : Rpc.Disciplined (conduct network) (promise network) network.system
    fun _ _ => True where
  possible host origin input operation store := by
    cases origin <;> exact possible_handle input operation store
  answers host origin request answer := by
    cases origin <;> trivial
  program host task _ := program_anyTask network host task
  serve host request _ := serve_served network host request

/-- What holds of the threads and jobs in every state of every run. -/
structure Orderly (state : World Host) : Prop where
  linked : Rpc.Linked state
  complies : ∀ thread ∈ state.threads, thread.Complies (conduct network) (promise network)

variable {network} {before after : World Host} {label : Action Host}

theorem orderly_step (step : Rpc.Step network.system label before after)
    (orderly : Orderly network before) : Orderly network after :=
  ⟨Rpc.linked_step step orderly.linked,
    Rpc.complies_step (disciplined network) (fun _ _ _ => trivial) step orderly.complies⟩

omit [DecidableEq Host] in
theorem orderly_idle (stores : Host → Store) : Orderly network ⟨stores, [], []⟩ where
  linked := ⟨fun _ member => absurd member List.not_mem_nil,
    fun _ member => absurd member List.not_mem_nil⟩
  complies _ member := absurd member List.not_mem_nil

theorem names_iff {id : Str} {body : Json} {messageId : Str}
    (named : body.s? "message_id" = some messageId) :
    names id body = true ↔ cstr messageId = id := by
  simp [names, named]

omit [DecidableEq Host] in
/-- Nobody delivers or marks a message without holding a copy of it. -/
theorem careful_message (network : Deployment Host) :
    Rpc.Careful network.system messageCustody Possible (conduct network) where
  uniform host origin := by cases origin <;> rfl
  handled host input operation store := possible_handle input operation store
  answered _ _ := trivial
  untaken _ _ _ := rfl
  uses host origin id history operation allowed uses := by
    rcases conduct_allowed network host allowed with mine | ⟨request, theirs⟩
    · match operation with
      | .inl (.call (.updateMessages messageId only .accepted)) =>
          obtain ⟨copy, held, rfl, clean, _⟩ := mine
          exact ⟨copy, uses ▸ (cstr_of_clean clean).symm ▸ held⟩
      | .inl (.call (.updateMessages messageId only .failed)) =>
          obtain ⟨copy, held, _⟩ := mine
          exact ⟨copy, uses ▸ held⟩
      | .inr request =>
          obtain ⟨endpoint, named⟩ := uses
          have sent : ownRequest history request := mine
          simp only [ownRequest, endpoint] at sent
          obtain ⟨copy, held, clean, carries⟩ := sent
          have same := (names_iff carries.messageId).mp named
          exact ⟨copy, same ▸ (cstr_of_clean clean).symm ▸ held⟩
    · match operation with
      | .inl (.call (.updateMessages messageId only .accepted)) => exact theirs.2.elim
      | .inl (.call (.updateMessages messageId only .failed)) => exact theirs.2.elim
      | .inr request => exact theirs.elim

omit [DecidableEq Host] in
/-- Nobody delivers or acknowledges an edit without holding it. -/
theorem careful_edit (network : Deployment Host) :
    Rpc.Careful network.system editCustody Possible (conduct network) where
  uniform host origin := by cases origin <;> rfl
  handled host input operation store := possible_handle input operation store
  answered _ _ := trivial
  untaken _ _ _ := rfl
  uses host origin id history operation allowed uses := by
    rcases conduct_allowed network host allowed with mine | ⟨request, theirs⟩
    · match operation with
      | .inl (.call (.updateMessages messageId only .editAccepted)) =>
          obtain ⟨edit, senderId, recipientId, held, _⟩ := mine
          exact ⟨edit, uses ▸ held⟩
      | .inr request =>
          obtain ⟨endpoint, named⟩ := uses
          have sent : ownRequest history request := mine
          simp only [ownRequest, endpoint] at sent
          obtain ⟨messageId, senderId, recipientId, edit, _, held, carries⟩ := sent
          exact ⟨edit, (names_iff carries.messageId).mp named ▸ held⟩
    · match operation with
      | .inl (.call (.updateMessages messageId only .editAccepted)) =>
          obtain ⟨_, _, _, _, edit, held⟩ := theirs
          exact ⟨edit, uses ▸ held⟩
      | .inr request => exact theirs.elim

/-- A message row is as it was, or a thread of its node called the store. -/
theorem message_step (step : Rpc.Step network.system label before after) (host : Host) (id : Str) :
    (after.stores host).messages.find id = (before.stores host).messages.find id ∨
    ∃ index input thread call next, label = .act index input ∧
      before.threads[index]? = some thread ∧ thread.node = host ∧
      thread.program = .op (.inl (.call call)) next ∧
      (after.stores host).messages.find id =
        onMessage input.now id call ((before.stores host).messages.find id) := by
  cases step with
  | @act _ index input thread operation next answer store current here taken =>
      by_cases same : thread.node = host
      · subst same
        have left : (handle input operation (before.stores thread.node)).2 = store :=
          congrArg Prod.snd taken
        cases operation with
        | call call =>
            refine .inr ⟨index, input, thread, call, next, rfl, current, rfl, here, ?_⟩
            change (Function.update before.stores thread.node store thread.node).messages.find id = _
            rw [Function.update_self, ← left]
            exact messages_exec input.now _ call id
        | _ =>
            refine .inl ?_
            change (Function.update before.stores thread.node store thread.node).messages.find id = _
            rw [Function.update_self, ← left]
            rfl
      · refine .inl ?_
        change (Function.update before.stores thread.node store host).messages.find id = _
        rw [Function.update_of_ne (Ne.symm same)]
  | _ => exact .inl rfl

end NoMiddle.TaskConduct
