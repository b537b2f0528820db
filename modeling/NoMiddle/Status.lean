import NoMiddle.Delivery

/-! The delivery status of a message. The marks are unconditional updates, so a mark
that comes late undoes a delete. They are harmless as long as a message is marked
deleted or failed only while no other thread of its node holds a copy of it. -/
namespace NoMiddle.Status
open Library Text Crypto DbManager DbViews Node Network Conduct TaskConduct

/-- Pending to delivered, pending to failed, anything to deleted. -/
def Forward (before after : Int) : Prop :=
  after = before ∨ before = messagePending ∧ (after = messageDelivered ∨ after = messageFailed) ∨
    after = messageDeleted

theorem forward_deleted {after : Int} (forward : Forward messageDeleted after) :
    after = messageDeleted := by
  rcases forward with same | ⟨pending, _⟩ | deleted
  · exact same
  · cases pending
  · exact deleted

variable {Host : Type} {network : Deployment Host}

/-- The thread may still deliver its copy of the message or write its status. -/
def InHand (id : Str) (thread : Thread Host) : Prop :=
  thread.program.InHand messageCustody id Possible

/-- A thread of the node has marked the message accepted. -/
def MarkedAccepted (state : World Host) (host : Host) (id : Str) : Prop :=
  ∃ thread ∈ state.threads, thread.node = host ∧ ∃ messageId only done,
    (⟨.inl (.call (.updateMessages messageId only .accepted)), done⟩ : Event nodeSig) ∈
      thread.history ∧ cstr messageId = id

/-- No other thread of the node has the message in hand. -/
def Alone (state : World Host) (index : Nat) (host : Host) (id : Str) : Prop :=
  ∀ other thread, other ≠ index → state.threads[other]? = some thread → thread.node = host →
    ¬InHand id thread

/-- When a call may reach the store without upsetting a status. -/
def guard (state : World Host) (index : Nat) (host : Host) : Call → Prop
  | .addMessage msg => msg.accepted = messagePending ∨ msg.accepted = messageDelivered
  | .updateMessages messageId _ .deleted => Alone state index host (cstr messageId)
  | .updateMessages messageId _ .failed => Alone state index host (cstr messageId) ∧
      ¬MarkedAccepted state host (cstr messageId)
  | _ => True

def Guarded (state : World Host) (label : Action Host) : Prop :=
  ∀ index input thread call next, label = .act index input →
    state.threads[index]? = some thread → thread.program = .op (.inl (.call call)) next →
    guard state index thread.node call

variable [DecidableEq Host] {before after : World Host} {label : Action Host}

/-- A message in hand is pending or delivered; one held as pending is pending, unless
some thread has marked it. -/
structure Tidy (network : Deployment Host) (state : World Host) : Prop where
  orderly : Orderly network state
  row : ∀ thread ∈ state.threads, ∀ id, InHand id thread →
    ∃ row, (state.stores thread.node).messages.find id = some row ∧
      (row.accepted = messagePending ∨ row.accepted = messageDelivered) ∧
      ∀ copy, messageCustody.held id thread.history = some copy → copy.accepted = messagePending →
        row.accepted = messagePending ∨ MarkedAccepted state thread.node id

omit [DecidableEq Host] in
theorem inHand_accepted {thread : Thread Host} {messageId : Str} {only : Option Str}
    {next : Bool → Proc Response}
    (here : thread.program =
      .op (.inl (.call (.updateMessages messageId only .accepted))) next) :
    InHand (cstr messageId) thread := by
  unfold InHand
  rw [here]
  exact .inl rfl

omit [DecidableEq Host] in
theorem inHand_failed {thread : Thread Host} {messageId : Str} {only : Option Str}
    {next : Bool → Proc Response}
    (here : thread.program = .op (.inl (.call (.updateMessages messageId only .failed))) next) :
    InHand (cstr messageId) thread := by
  unfold InHand
  rw [here]
  exact .inl rfl

/-- One step moves every status forward or leaves it. -/
theorem forward_step (tidy : Tidy network before) (guarded : Guarded before label)
    (step : Rpc.Step network.system label before after) {host : Host} {id : Str} {row : Message}
    (found : (before.stores host).messages.find id = some row) :
    ∃ next, (after.stores host).messages.find id = some next ∧
      Forward row.accepted next.accepted := by
  rcases message_step step host id with
    same | ⟨index, input, thread, call, next, acts, current, rfl, here, changed⟩
  · exact ⟨row, same.trans found, .inl rfl⟩
  rw [found] at changed
  rcases onMessage_some input.now id call row with
    kept | ⟨messageId, only, mark, rfl, hit, marked⟩
  · exact ⟨row, changed.trans kept, .inl rfl⟩
  refine ⟨_, changed.trans marked, ?_⟩
  have member := List.mem_of_getElem? current
  have key : cstr messageId = id := by
    have same := (before.stores thread.node).messages.find_key found
    simp only [addressed, Bool.and_eq_true, decide_eq_true_eq] at hit
    rw [← hit.1, same]
  cases mark with
  | accepted =>
      -- Whoever may still mark the message accepted holds it pending or delivered.
      obtain ⟨held, there, status, _⟩ := tidy.row thread member id (key ▸ inHand_accepted here)
      rw [found] at there
      cases there
      rcases status with pending | delivered
      · exact .inr (.inl ⟨pending, .inl rfl⟩)
      · exact .inl delivered.symm
  | failed =>
      obtain ⟨held, there, _, source⟩ := tidy.row thread member id (key ▸ inHand_failed here)
      rw [found] at there
      cases there
      have allowed := Rpc.complies_allowed (tidy.orderly.complies thread member) here
      rcases conduct_allowed network thread.node allowed with ⟨copy, held, pending⟩ | ⟨_, _, no⟩
      · -- The guard keeps a thread from failing a message that was accepted meanwhile.
        rcases source copy (key ▸ held) pending with still | marked
        · exact .inr (.inl ⟨still, .inr rfl⟩)
        · exact absurd (key ▸ marked) (guarded index input thread _ next acts current here).2
      · exact no.elim
  | deleted => exact .inr (.inr rfl)
  | _ => exact .inl rfl

theorem markedAccepted_step (step : Rpc.Step network.system label before after) {host : Host}
    {id : Str} (marked : MarkedAccepted before host id) : MarkedAccepted after host id := by
  obtain ⟨thread, member, node, messageId, only, done, past, same⟩ := marked
  obtain ⟨index, present⟩ := List.getElem?_of_mem member
  obtain ⟨later, kept, sameNode, _, history⟩ := Rpc.thread_kept step present
  exact ⟨later, List.mem_of_getElem? kept, sameNode.trans node, messageId, only, done,
    history _ past, same⟩

theorem row_kept (tidy : Tidy network before) (guarded : Guarded before label)
    (step : Rpc.Step network.system label before after) {index : Nat} {thread : Thread Host}
    {id : Str} (current : before.threads[index]? = some thread) (inHand : InHand id thread)
    (ungiven : ∀ input operation next, label = .act index input →
      thread.program = .op (.inl operation) next → givesMessage id
        ⟨.inl operation, (handle input operation (before.stores thread.node)).1⟩ = false) :
    ∃ row, (after.stores thread.node).messages.find id = some row ∧
      (row.accepted = messagePending ∨ row.accepted = messageDelivered) ∧
      ∀ copy, messageCustody.held id thread.history = some copy →
        copy.accepted = messagePending →
        row.accepted = messagePending ∨ MarkedAccepted after thread.node id := by
  obtain ⟨row, found, status, source⟩ := tidy.row thread (List.mem_of_getElem? current) id inHand
  have later : ∀ copy, messageCustody.held id thread.history = some copy →
      copy.accepted = messagePending →
      row.accepted = messagePending ∨ MarkedAccepted after thread.node id :=
    fun copy held pending => (source copy held pending).imp_right (markedAccepted_step step)
  rcases message_step step thread.node id with
    same | ⟨other, input, actor, call, next, acts, acting, node, here, changed⟩
  · exact ⟨row, same.trans found, status, later⟩
  rw [found] at changed
  rcases onMessage_some input.now id call row with
    kept | ⟨messageId, only, mark, rfl, hit, marked⟩
  · exact ⟨row, changed.trans kept, status, later⟩
  have key : cstr messageId = id := by
    have same := (before.stores thread.node).messages.find_key found
    simp only [addressed, Bool.and_eq_true, decide_eq_true_eq] at hit
    rw [← hit.1, same]
  -- Of the marks that take the row out of the two states, none is made behind this thread.
  have undisturbed : Alone before other actor.node id →
      givesMessage id ⟨.inl (.call (.updateMessages messageId only mark)),
        (handle input (.call (.updateMessages messageId only mark))
          (before.stores actor.node)).1⟩ = true → False := by
    intro alone gives
    by_cases own : other = index
    · subst own
      rw [current] at acting
      cases acting
      exact absurd ((ungiven input _ next acts here).symm.trans gives) (by simp)
    · exact alone index thread (Ne.symm own) current node.symm inHand
  have guards := guarded other input actor _ next acts acting here
  cases mark with
  | accepted =>
      subst acts
      refine ⟨_, changed.trans marked, .inr rfl, fun _ _ _ => .inr ?_⟩
      exact ⟨_, List.mem_of_getElem? (Rpc.acted_thread step acting here), node, messageId, only, _,
        List.mem_cons_self, key⟩
  | failed => exact (undisturbed (key ▸ guards.1) (by simp [givesMessage, key])).elim
  | deleted => exact (undisturbed (key ▸ guards) (by simp [givesMessage, key])).elim
  | _ => exact ⟨_, changed.trans marked, status, later⟩

theorem row_taken (guarded : Guarded before label)
    (step : Rpc.Step network.system label before after) {index : Nat} {thread : Thread Host}
    {operation : LocalOp} {next : operation.Res → Proc Response} {input : Input} {id : Str}
    {copy : Message} (acts : label = .act index input)
    (current : before.threads[index]? = some thread)
    (here : thread.program = .op (.inl operation) next)
    (took : takesMessage id ⟨.inl operation,
      (handle input operation (before.stores thread.node)).1⟩ = some copy) :
    ∃ row, (after.stores thread.node).messages.find id = some row ∧
      (row.accepted = messagePending ∨ row.accepted = messageDelivered) ∧
      (copy.accepted = messagePending → row.accepted = messagePending) := by
  subst acts
  have store := Rpc.acted_store step current here
  cases operation with
  | call call =>
      replace store : after.stores thread.node =
        (call.exec input.now (before.stores thread.node)).2 := store
      cases call with
      | addMessage msg =>
          simp only [takesMessage] at took
          split at took
          · next added =>
            cases took
            -- A copy taken by an insert is the new row itself, one from a list is a pending row.
            have absent : (before.stores thread.node).messages.find id = none := by
              simpa [handle, Call.exec, Table.has, added.2] using added.1
            have guards : guard before index thread.node (.addMessage msg) :=
              guarded index input thread _ next rfl current here
            refine ⟨msg.stored, ?_, guards, fun same => same⟩
            rw [store, messages_exec, absent]
            simp [onMessage, added.2]
          · cases took
      | getMessages query =>
          cases query with
          | pendingMessages =>
              have member := List.mem_of_find?_eq_some took
              have key := List.find?_some took
              obtain ⟨found, pending⟩ := (mem_rows .pendingMessages _ copy).mp member
              refine ⟨copy, ?_, .inl (of_decide_eq_true pending), fun same => same⟩
              rw [store]
              exact of_decide_eq_true key ▸ found
          | _ => cases took
      | _ => cases took
  | _ => cases took

theorem tidy_step (tidy : Tidy network before) (guarded : Guarded before label)
    (step : Rpc.Step network.system label before after) : Tidy network after where
  orderly := orderly_step step tidy.orderly
  row thread member id inHand := by
    obtain ⟨index, present⟩ := List.getElem?_of_mem member
    have complies := (orderly_step step tidy.orderly).complies thread member
    cases Rpc.inHand_step (careful_message network) (Rpc.thread_step step present) complies
        inHand with
    | kept current node stillInHand same ungiven =>
        rw [← node, same]
        exact row_kept tidy guarded step current stillInHand ungiven
    | @taken old operation next data input acts current here resumed took =>
        subst resumed
        obtain ⟨row, found, status, pending⟩ := row_taken guarded step acts current here took
        refine ⟨row, found, status, fun copy held unmarked => .inl (pending ?_)⟩
        have same := held.symm.trans (Custody.held_taken old.history took)
        cases same
        exact unmarked

omit [DecidableEq Host] in
theorem tidy_idle (stores : Host → Store) : Tidy network ⟨stores, [], []⟩ where
  orderly := orderly_idle stores
  row _ member := absurd member List.not_mem_nil

/-- Neither of the two message lists a client is shown has the message. -/
def Hidden (store : Store) (id : Str) : Prop :=
  (∀ selfId otherId, ∀ row ∈ (Query.between selfId otherId).rows store.messages,
    row.messageId ≠ id) ∧
  ∀ groupId, ∀ row ∈ (Query.forGroup groupId).rows store.messages, row.messageId ≠ id

theorem hidden_deleted {store : Store} {id : Str} {row : Message}
    (found : store.messages.find id = some row) (deleted : row.accepted = messageDeleted) :
    Hidden store id := by
  have unshown : ∀ query : Query, (∀ shown, query.selects shown = true → shown.accepted ≠ 3) →
      ∀ shown ∈ query.rows store.messages, shown.messageId ≠ id := by
    rintro query excludes shown listed rfl
    obtain ⟨there, selected⟩ := (mem_rows query store.messages shown).mp listed
    rw [found] at there
    cases there
    exact excludes row selected deleted
  constructor
  · refine fun selfId otherId => unshown _ fun shown selected => ?_
    simpa using (Bool.and_eq_true_iff.mp selected).2
  · refine fun groupId => unshown _ fun shown selected => ?_
    simpa using (Bool.and_eq_true_iff.mp selected).2

/-- In a run that keeps to the guard, every step moves every status forward, and a
deleted message stays deleted: hidden, and listed for delivery of its delete until
that is accepted. -/
theorem deleted_stays {stores : Host → Store} {state : World Host}
    (run : Rpc.Reachable network.system Guarded ⟨stores, [], []⟩ state) :
    (∀ label after, Guarded state label → Rpc.Step network.system label state after →
      ∀ host id row, (state.stores host).messages.find id = some row →
        ∃ next, (after.stores host).messages.find id = some next ∧
          Forward row.accepted next.accepted) ∧
    ∀ later, Rpc.Reachable network.system Guarded state later →
      ∀ host id row, (state.stores host).messages.find id = some row →
        row.accepted = messageDeleted →
        ∃ last, (later.stores host).messages.find id = some last ∧
          last.accepted = messageDeleted ∧ Hidden (later.stores host) id ∧
          (last.deleteAccepted = 0 →
            last ∈ Query.pendingDeletes.rows (later.stores host).messages) := by
  have tidy : ∀ {state}, Rpc.Reachable network.system Guarded ⟨stores, [], []⟩ state →
      Tidy network state := fun run =>
    run.invariant (Tidy network) (tidy_idle stores) fun _ _ _ tidy => tidy_step tidy
  constructor
  · intro label after guarded step host id row found
    exact forward_step (tidy run) guarded step found
  intro later rest host id row found deleted
  -- The induction is on the rest of the run, with the deleted row carried along.
  have stays : ∃ last, (later.stores host).messages.find id = some last ∧
      last.accepted = messageDeleted := by
    induction rest with
    | start => exact ⟨row, found, deleted⟩
    | step before guarded step ih =>
        obtain ⟨last, found, deleted⟩ := ih
        obtain ⟨next, kept, forward⟩ :=
          forward_step (tidy (run.trans before)) guarded step found
        exact ⟨next, kept, forward_deleted (deleted ▸ forward)⟩
  obtain ⟨last, there, still⟩ := stays
  refine ⟨last, there, still, hidden_deleted there still, fun pending => ?_⟩
  have key := (later.stores host).messages.find_key there
  refine (mem_rows _ _ last).mpr ⟨key ▸ there, ?_⟩
  simp [Query.selects, pending, show last.accepted = 3 from still]

section Runs

def othersFinished (state : World Bool) (index : Nat) (host : Bool) : Bool :=
  (List.range state.threads.length).all fun other =>
    other = index || match state.threads[other]? with
      | some thread => thread.node ≠ host || thread.finished
      | none => true

/-- A check that implies the guard: nothing is marked failed, and deleted only when
no other thread runs. -/
def checked (state : World Bool) : Action Bool → Bool
  | .act index _ =>
      match state.threads[index]? with
      | some thread =>
          match thread.program with
          | .op (.inl (.call (.updateMessages _ _ .deleted))) _ =>
              othersFinished state index thread.node
          | .op (.inl (.call (.updateMessages _ _ .failed))) _ => false
          | .op (.inl (.call (.addMessage msg))) _ => msg.accepted = 0 || msg.accepted = 1
          | _ => true
      | none => true
  | _ => true

theorem alone_of_othersFinished {state : World Bool} {index : Nat} {host : Bool}
    (finished : othersFinished state index host = true) (id : Str) :
    Alone state index host id := by
  intro other thread different present node inHand
  have inside := (List.getElem?_eq_some_iff.mp present).1
  have done := List.all_eq_true.mp finished other (List.mem_range.mpr inside)
  simp only [different, decide_false, Bool.false_or, present, node, ne_eq, not_true_eq_false] at done
  unfold Rpc.Thread.finished at done
  unfold InHand at inHand
  cases program : thread.program with
  | ret answer => simp [program, Program.InHand] at inHand
  | op operation next => simp [program, Program.finished] at done

theorem guarded_of_checked (state : World Bool) (label : Action Bool)
    (passes : checked state label = true) : Guarded state label := by
  intro index input thread call next acts current here
  subst acts
  simp only [checked, current, here] at passes
  cases call with
  | addMessage msg => simpa [guard, messagePending, messageDelivered] using passes
  | updateMessages messageId only mark =>
      cases mark with
      | deleted => exact alone_of_othersFinished passes _
      | failed => cases passes
      | _ => trivial
  | _ => trivial

def userDeletes : Action Bool :=
  .start true (.deleteMessage (userRequest [("message_id", .str firstId)]))

/-- A message is sent and acknowledged, then deleted. -/
def deletion : List (Action Bool) :=
  Delivery.greeting ++ [.act 0 (clockAt 8), userDeletes, .act 2 (clockAt 9), .act 2 (clockAt 9),
    .act 2 (clockAt 9), .act 2 (clockAt 9)]

theorem deletion_hidden : ∃ (state : World Bool) (row : Message),
    (state.stores true).messages.find row.messageId = some row ∧
    row.accepted = messageDeleted ∧ row.deleteAccepted = 0 ∧
    Hidden (state.stores true) row.messageId ∧
    row ∈ Query.pendingDeletes.rows (state.stores true).messages := by
  have ran : (Rpc.run pair.system checked deletion ⟨acquainted, [], []⟩).bind
      (fun state => ((state.stores true).messages.find firstId).map fun row =>
        (row.accepted, row.deleteAccepted)) = some (messageDeleted, 0) := by
    decide +kernel
  obtain ⟨state, scheduled, found⟩ := Option.bind_eq_some_iff.mp ran
  obtain ⟨row, found, facts⟩ := Option.map_eq_some_iff.mp found
  simp only [Prod.mk.injEq] at facts
  have key := (state.stores true).messages.find_key found
  obtain ⟨last, there, deleted, hidden, listed⟩ :=
    (deleted_stays (Rpc.run_reachable guarded_of_checked deletion scheduled)).2 state .start true
      _ row found facts.1
  rw [found] at there
  cases there
  exact ⟨state, row, key ▸ found, deleted, facts.2, key ▸ hidden, listed facts.2⟩

/-- The user deletes the message between its delivery and the mark that follows it. -/
def revival : List (Action Bool) :=
  Delivery.greeting.dropLast ++ [userDeletes, .act 2 (clockAt 9), .act 2 (clockAt 9),
    .act 2 (clockAt 9), .act 2 (clockAt 9)]

theorem deleted_revived : ∃ (before after : World Bool) (row next : Message),
    Rpc.Reachable pair.system (fun _ _ => True) ⟨acquainted, [], []⟩ before ∧
    Rpc.Step pair.system (.act 0 (clockAt 9)) before after ∧
    (before.stores true).messages.find row.messageId = some row ∧
    (after.stores true).messages.find row.messageId = some next ∧
    row.accepted = messageDeleted ∧ next.accepted = messageDelivered ∧
    ¬Forward row.accepted next.accepted := by
  have ran : (Rpc.run pair.system (fun _ _ => true) revival ⟨acquainted, [], []⟩).bind
      (fun state => (Rpc.next pair.system (.act 0 (clockAt 9)) state).bind fun after =>
        ((state.stores true).messages.find firstId).bind fun row =>
          ((after.stores true).messages.find firstId).map fun next =>
            (row.accepted, next.accepted)) = some (messageDeleted, messageDelivered) := by
    decide +kernel
  obtain ⟨before, scheduled, rest⟩ := Option.bind_eq_some_iff.mp ran
  obtain ⟨after, taken, rest⟩ := Option.bind_eq_some_iff.mp rest
  obtain ⟨row, found, rest⟩ := Option.bind_eq_some_iff.mp rest
  obtain ⟨next, there, facts⟩ := Option.map_eq_some_iff.mp rest
  simp only [Prod.mk.injEq] at facts
  have key := (before.stores true).messages.find_key found
  refine ⟨before, after, row, next, Rpc.run_reachable (fun _ _ _ => trivial) revival scheduled,
    Rpc.next_step taken, key ▸ found, key ▸ there, facts.1, facts.2, ?_⟩
  rw [facts.1, facts.2]
  unfold Forward
  decide

end Runs
end NoMiddle.Status
