import NoMiddle.Library.Replica
import NoMiddle.Recall

/-! An edit and its acknowledgement. A 200 to `/accept_edit` does not say which edit
it answers and the mark that follows it is unconditional. As long as a message is
edited only while nothing of its earlier edits is under way, the edit that is
acknowledged is the one the recipient holds. -/
namespace NoMiddle.Edits
open Library Text Crypto DbManager DbViews Node Network Conduct TaskConduct Recall

section Model
variable {Host : Type} (network : Deployment Host) (sender receiver : Host) (id : Str)

structure Direct (row : Message) : Prop where
  senderId : row.senderId = network.id sender
  recipientId : row.recipientId = network.id receiver
  groupId : row.groupId = []

/-- The row's ciphertext seals its plaintext for the receiver. -/
def SealedRow (row : Message) : Prop :=
  ∃ text, Sealed network.sodium (network.keys sender) text (network.id receiver) row.ciphertext ∧
    cstr text = row.plaintext

structure Loads (row : Message) (body : Json) : Prop where
  senderId : body.s? "sender_id" = some (network.id sender)
  recipientId : body.s? "recipient_id" = some (network.id receiver)
  ciphertext : body.s? "ciphertext" = some row.ciphertext
  editedAt : body.i? "edited_at" = some row.editedAt

/-- The edits of one message and their copy at the receiver. -/
def copies : Rpc.Replica localSig Host Store Request Response Str (Str × Int) where
  sender := sender
  receiver := receiver
  custody := editCustody
  item := id
  possible := Possible
  fits edit store := ∃ row, store.messages.find id = some row ∧
    edit = (row.ciphertext, row.editedAt) ∧ SealedRow network sender receiver row
  about request := request.endpoint = .acceptEdit ∧ names id request.body = true
  carries request store := ∃ row, store.messages.find id = some row ∧
    Loads network sender receiver row request.body ∧ SealedRow network sender receiver row
  accepts answer := answer.code = 200
  applies _ operation _ := ∃ messageId plaintext ciphertext editedAt,
    operation = .call (.updateMessages messageId none (.edit plaintext ciphertext editedAt)) ∧
      cstr messageId = id
  same mine theirs := ∀ row, mine.messages.find id = some row → row.editedAt ≠ 0 →
    ∃ copy, theirs.messages.find id = some copy ∧ copy.plaintext = row.plaintext ∧
      copy.editedAt = row.editedAt
  settled store := ∃ row, store.messages.find id = some row ∧ row.editedAt ≠ 0 ∧
    row.editAccepted = 1

/-- Only the sender's users and its worker start anything. -/
def Begins (label : Action Host) : Prop :=
  ∀ host task, label = .start host task → host = sender ∧ isIncoming task = false

/-- The message is edited only when no earlier edit of it is under way. -/
def Timely (state : World Host) (label : Action Host) : Prop :=
  ∀ index input thread messageId only plaintext ciphertext editedAt next,
    label = .act index input → state.threads[index]? = some thread → thread.node = sender →
    thread.program =
      .op (.inl (.call (.updateMessages messageId only (.edit plaintext ciphertext editedAt)))) next →
    cstr messageId = id → (copies network sender receiver id).Quiet state index

structure Tended (state : World Host) : Prop where
  orderly : Orderly network state
  inside : ∀ thread ∈ state.threads, thread.Complies (inside network) (promise network)
  recalled : Recalled state
  serving : Serving sender state
  sealedText : ∀ row, (state.stores sender).messages.find id = some row → row.editedAt ≠ 0 →
    SealedRow network sender receiver row
  faithful : (copies network sender receiver id).Faithful state

end Model

variable {Host : Type} {network : Deployment Host} {sender receiver : Host} {id : Str}
  {state before after : World Host} {label : Action Host}

theorem id_injective {left right : Host} (same : network.id left = network.id right) :
    left = right :=
  network.distinct left right (publicKeyB64_injective same)

theorem opened_same
    (correct : network.sodium.Correct (network.keys sender) (network.keys receiver))
    {row : Message} {body : Json} (loads : Loads network sender receiver row body)
    (sealedRow : SealedRow network sender receiver row) {host : Host}
    {messageId plaintext ciphertext : Str} {editedAt : Int}
    (received : ReceivedEdit network.sodium (network.keys host) body messageId plaintext
      ciphertext editedAt) :
    host = receiver ∧ cstr plaintext = row.plaintext ∧ editedAt = row.editedAt := by
  have here : host = receiver :=
    id_injective (Option.some.inj (received.recipientId.symm.trans loads.recipientId))
  subst here
  obtain ⟨text, ⟨nonce, size, encrypted⟩, plain⟩ := sealedRow
  obtain ⟨senderId, claimed, opened⟩ := received.opened
  cases loads.senderId.symm.trans claimed
  cases loads.ciphertext.symm.trans received.sealedText
  cases (decrypt_encrypt correct size encrypted).symm.trans opened
  exact ⟨rfl, plain, Option.some.inj (received.time.symm.trans loads.editedAt)⟩

theorem source_stored (recalled : Recalled state) {thread : Thread Host}
    (member : thread ∈ state.threads) (query : Query) {messageId : Str} {seen : Message}
    (source : Read thread.history messageId seen ∨ Listed thread.history query seen) :
    Stored (state.stores thread.node) (core seen) := by
  rcases source with read | ⟨rows, listed, among⟩
  · exact (recalled thread member _ read seen rfl).2
  · exact recalled thread member _ listed seen among

theorem direct_core {row seen : Message} (same : core row = core seen)
    (direct : Direct network sender receiver row) : Direct network sender receiver seen where
  senderId := (congrArg Core.senderId same).symm.trans direct.senderId
  recipientId := (congrArg Core.recipientId same).symm.trans direct.recipientId
  groupId := (congrArg Core.groupId same).symm.trans direct.groupId

theorem stored_direct {store : Store} {seen : Message} {id : Str} (stored : Stored store (core seen))
    (key : seen.messageId = id)
    (direct : ∀ row, store.messages.find id = some row → Direct network sender receiver row) :
    Direct network sender receiver seen := by
  obtain ⟨row, found, same⟩ := stored
  rw [show (core seen).messageId = id from key] at found
  exact direct_core same (direct row found)

/-! What an operation does to the message's edit. -/

structure SameEdit (old row : Message) : Prop where
  plaintext : old.plaintext = row.plaintext
  ciphertext : old.ciphertext = row.ciphertext
  editedAt : old.editedAt = row.editedAt

theorem SameEdit.refl (row : Message) : SameEdit row row := ⟨rfl, rfl, rfl⟩

def isEdit : Mark → Bool
  | .edit .. => true
  | _ => false

theorem set_sameEdit (now : Int) (row : Message) {mark : Mark} (other : isEdit mark = false) :
    SameEdit row (mark.set now row) := by
  cases mark with
  | edit => cases other
  | _ => exact ⟨rfl, rfl, rfl⟩

def Rewrites (id : Str) : LocalOp → Prop
  | .call (.updateMessages messageId _ mark) => isEdit mark = true ∧ cstr messageId = id
  | _ => False

theorem addressed_key {store : Store} {row : Message} (found : store.messages.find id = some row)
    {messageId : Str} {only : Option Str} (hit : addressed messageId only row = true) :
    cstr messageId = id := by
  have same := store.messages.find_key found
  simp only [addressed, Bool.and_eq_true, decide_eq_true_eq] at hit
  rw [← hit.1, same]

theorem edit_kept (input : Input) {operation : LocalOp} (other : ¬Rewrites id operation)
    {store : Store} {old : Message} (found : store.messages.find id = some old) :
    ∃ row, (handle input operation store).2.messages.find id = some row ∧ SameEdit old row := by
  cases operation with
  | call call =>
      have changed := messages_exec input.now store call id
      rw [found] at changed
      rcases onMessage_some input.now id call old with
        kept | ⟨messageId, only, mark, rfl, hit, marked⟩
      · exact ⟨old, changed.trans kept, .refl old⟩
      · refine ⟨_, changed.trans marked, set_sameEdit input.now old ?_⟩
        exact Bool.eq_false_iff.mpr fun edits => other ⟨edits, addressed_key found hit⟩
  | _ => exact ⟨old, found, .refl old⟩

theorem edited_before (input : Input) {operation : LocalOp} (other : ¬Rewrites id operation)
    {store : Store} {row : Message}
    (found : (handle input operation store).2.messages.find id = some row)
    (edited : row.editedAt ≠ 0) :
    ∃ old, store.messages.find id = some old ∧ SameEdit old row := by
  cases operation with
  | call call =>
      have changed := messages_exec input.now store call id
      rcases onMessage_cases (changed.symm.trans found) with
        kept | ⟨msg, _, _, _, rfl⟩ | ⟨old, messageId, only, mark, rfl, there, hit, rfl⟩
      · exact ⟨row, kept, .refl row⟩
      · exact absurd rfl edited
      · refine ⟨old, there, set_sameEdit input.now old ?_⟩
        exact Bool.eq_false_iff.mpr fun edits => other ⟨edits, addressed_key there hit⟩
  | _ => exact ⟨row, found, .refl row⟩

theorem accepted_before (input : Input) {operation : LocalOp} {store : Store} {row : Message}
    (found : (handle input operation store).2.messages.find id = some row)
    (edited : row.editedAt ≠ 0) (accepted : row.editAccepted = 1) :
    (∃ old, store.messages.find id = some old ∧ old.editedAt ≠ 0 ∧ old.editAccepted = 1) ∨
    ∃ messageId only, operation = .call (.updateMessages messageId only .editAccepted) ∧
      cstr messageId = id := by
  cases operation with
  | call call =>
      have changed := messages_exec input.now store call id
      rcases onMessage_cases (changed.symm.trans found) with
        kept | ⟨msg, _, _, _, rfl⟩ | ⟨old, messageId, only, mark, rfl, there, hit, rfl⟩
      · exact .inl ⟨row, kept, edited, accepted⟩
      · exact absurd rfl edited
      · cases mark with
        | editAccepted => exact .inr ⟨messageId, only, rfl, addressed_key there hit⟩
        | editFailed | edit => cases accepted
        | _ => exact .inl ⟨old, there, edited, accepted⟩
  | _ => exact .inl ⟨row, found, edited, accepted⟩

theorem taken_cases {operation : LocalOp} {answer : operation.Res} {edit : Str × Int}
    (took : takesEdit id ⟨.inl operation, answer⟩ = some edit) :
    Rewrites id operation ∨ operation = .call (.getMessages .pendingEdits) := by
  unfold takesEdit at took
  split at took
  · next event messageId only plaintext ciphertext editedAt answer same =>
    cases same
    split at took
    · next key => exact .inl ⟨rfl, key⟩
    · cases took
  · next event rows same =>
    cases same
    exact .inr rfl
  · cases took

/-! What the threads of such a network do. -/
section Threads

theorem unserved (tended : Tended network sender receiver id state)
    (apart : receiver ≠ sender) {thread : Thread Host} (member : thread ∈ state.threads)
    {job : Nat} {request : Request} (serves : thread.origin = some (job, request))
    (running : thread.finished = false) (endpoint : request.endpoint = .acceptEdit)
    (named : names id request.body = true)
    (own : request.body.s? "recipient_id" = some (network.id sender)) : False := by
  obtain ⟨row, _, loads, _⟩ := tended.faithful.serving thread member job request serves
    ⟨endpoint, named⟩ running
  exact apart (id_injective (Option.some.inj (loads.recipientId.symm.trans own)))

/-- The sender edits the message on its own account and seals it for the receiver. -/
theorem own_edit (tended : Tended network sender receiver id state) (apart : receiver ≠ sender)
    (direct : ∀ row, (state.stores sender).messages.find id = some row →
      Direct network sender receiver row) {thread : Thread Host}
    (member : thread ∈ state.threads) (node : thread.node = sender) {messageId : Str}
    {only : Option Str} {plaintext ciphertext : Str} {editedAt : Int} {next : Bool → Proc Response}
    (here : thread.program = .op
      (.inl (.call (.updateMessages messageId only (.edit plaintext ciphertext editedAt)))) next)
    (key : cstr messageId = id) :
    only = none ∧ Sealed network.sodium (network.keys sender) plaintext (network.id receiver)
      ciphertext ∧ ∃ row, (state.stores sender).messages.find id = some row := by
  subst node
  have allowed := Rpc.complies_allowed (tended.inside thread member) here
  cases serves : thread.origin with
  | none =>
      rw [serves] at allowed
      obtain ⟨recipientId, ⟨seen, read, _, whom⟩, sealedText⟩ := allowed
      have stored := source_stored tended.recalled member .pendingEdits (.inl read)
      have same : seen.messageId = id := (tended.recalled thread member _ read seen rfl).1.trans key
      have known := stored_direct stored same direct
      obtain ⟨row, found, _⟩ := stored
      rw [show (core seen).messageId = id from same] at found
      rcases whom with ⟨rfl, rfl⟩ | group
      · -- The row it read is the direct message, so it sealed for the receiver.
        exact ⟨rfl, known.recipientId ▸ sealedText, row, found⟩
      · exact absurd known.groupId group
  | some served =>
      -- An edit served to the sender would have to be meant for it.
      obtain ⟨job, request⟩ := served
      rw [serves] at allowed
      obtain ⟨_, endpoint, received, _⟩ := allowed
      exact (unserved tended apart member serves (Rpc.Replica.unfinished here) endpoint
        ((names_iff received.messageId).mpr key) received.recipientId).elim

theorem own_accepted (tended : Tended network sender receiver id state)
    (apart : receiver ≠ sender) {thread : Thread Host} (member : thread ∈ state.threads)
    (node : thread.node = sender) {messageId : Str} {only : Option Str}
    {next : Bool → Proc Response}
    (here : thread.program =
      .op (.inl (.call (.updateMessages messageId only .editAccepted))) next)
    (key : cstr messageId = id) : (copies network sender receiver id).Holds thread ∧
      (copies network sender receiver id).Acknowledged thread := by
  constructor
  · refine ⟨node, ?_⟩
    rw [here]
    exact .inl key
  subst node
  have allowed := Rpc.complies_allowed (tended.inside thread member) here
  cases serves : thread.origin with
  | none =>
      rw [serves] at allowed
      obtain ⟨_, _, _, _, request, answer, earlier, past, code, endpoint, carries⟩ := allowed
      exact ⟨request, answer, earlier, past, ⟨endpoint, (names_iff carries.messageId).mpr key⟩,
        code⟩
  | some served =>
      obtain ⟨job, request⟩ := served
      rw [serves] at allowed
      obtain ⟨_, endpoint, named, own, _⟩ := allowed
      exact (unserved tended apart member serves (Rpc.Replica.unfinished here) endpoint
        (key ▸ named) own).elim

/-- A thread of another node edits the message because its request says so. -/
theorem their_edit (tended : Tended network sender receiver id state) {thread : Thread Host}
    (member : thread ∈ state.threads) {job : Nat} {request : Request}
    (serves : thread.origin = some (job, request)) {messageId : Str} {only : Option Str}
    {plaintext ciphertext : Str} {editedAt : Int} {next : Bool → Proc Response}
    (here : thread.program = .op
      (.inl (.call (.updateMessages messageId only (.edit plaintext ciphertext editedAt)))) next) :
    request.endpoint = .acceptEdit ∧
    ReceivedEdit network.sodium (network.keys thread.node) request.body messageId plaintext
      ciphertext editedAt ∧
    ∃ row, (state.stores thread.node).messages.find (cstr messageId) = some row := by
  have allowed := Rpc.complies_allowed (tended.inside thread member) here
  rw [serves] at allowed
  obtain ⟨_, endpoint, received, seen, read⟩ := allowed
  obtain ⟨same, row, found, _⟩ := tended.recalled thread member _ read seen rfl
  exact ⟨endpoint, received, row, same ▸ found⟩

end Threads

/-! What one step keeps. -/
section Step

theorem keeps_other (tended : Tended network sender receiver id before)
    (apart : receiver ≠ sender) {thread : Thread Host} (member : thread ∈ before.threads)
    (node : thread.node = sender) {input : Input} {operation : LocalOp}
    {next : operation.Res → Proc Response} (here : thread.program = .op (.inl operation) next)
    (other : ¬Rewrites id operation) :
    (copies network sender receiver id).Keeps before thread
      ⟨.inl operation, (handle input operation (before.stores thread.node)).1⟩
      (handle input operation (before.stores thread.node)).2 := by
  subst node
  constructor
  · rintro edit ⟨old, found, same, text, sealedText, plain⟩
    obtain ⟨row, there, kept⟩ := edit_kept input other found
    exact ⟨row, there, by rw [same, kept.ciphertext, kept.editedAt],
      text, kept.ciphertext ▸ sealedText, plain.trans kept.plaintext⟩
  · rintro request ⟨old, found, loads, text, sealedText, plain⟩
    obtain ⟨row, there, kept⟩ := edit_kept input other found
    exact ⟨row, there, ⟨loads.senderId, loads.recipientId, kept.ciphertext ▸ loads.ciphertext,
      kept.editedAt ▸ loads.editedAt⟩, text, kept.ciphertext ▸ sealedText,
      plain.trans kept.plaintext⟩
  · intro theirs same row found edited
    obtain ⟨old, there, kept⟩ := edited_before input other found edited
    obtain ⟨copy, copied, plain, time⟩ := same old there (kept.editedAt ▸ edited)
    exact ⟨copy, copied, plain.trans kept.plaintext, time.trans kept.editedAt⟩
  · intro edit took
    rcases taken_cases took with edits | rfl
    · exact absurd edits other
    -- A listed row is the stored one, as the list was read with this step.
    obtain ⟨row, listed, rfl⟩ := Option.map_eq_some_iff.mp took
    have among := List.mem_of_find?_eq_some listed
    have named := List.find?_some listed
    have key : row.messageId = id := of_decide_eq_true named
    obtain ⟨found, selected⟩ :=
      (mem_rows .pendingEdits (before.stores thread.node).messages row).mp among
    have edited : row.editedAt ≠ 0 := by
      simpa using (Bool.and_eq_true_iff.mp selected).2
    exact ⟨row, key ▸ found, rfl, tended.sealedText row (key ▸ found) edited⟩
  · rintro ⟨row, found, edited, accepted⟩
    rcases accepted_before input found edited accepted with
      ⟨old, there, was⟩ | ⟨messageId, only, rfl, key⟩
    · exact .inl ⟨old, there, was⟩
    · exact .inr (own_accepted tended apart member rfl here key)

theorem renews_edit (tended : Tended network sender receiver id before)
    (apart : receiver ≠ sender)
    (direct : ∀ row, (before.stores sender).messages.find id = some row →
      Direct network sender receiver row)
    (timely : Timely network sender receiver id before label) {index : Nat} {input : Input}
    {thread : Thread Host} (acts : label = .act index input)
    (current : before.threads[index]? = some thread) (node : thread.node = sender)
    {messageId : Str} {only : Option Str} {plaintext ciphertext : Str} {editedAt : Int}
    {next : Bool → Proc Response}
    (here : thread.program = .op
      (.inl (.call (.updateMessages messageId only (.edit plaintext ciphertext editedAt)))) next)
    (key : cstr messageId = id) :
    (copies network sender receiver id).Renews before index
      ⟨.inl (.call (.updateMessages messageId only (.edit plaintext ciphertext editedAt))),
        (handle input (.call (.updateMessages messageId only (.edit plaintext ciphertext editedAt)))
          (before.stores thread.node)).1⟩
      (handle input (.call (.updateMessages messageId only (.edit plaintext ciphertext editedAt)))
        (before.stores thread.node)).2 := by
  have quiet := timely index input thread messageId only plaintext ciphertext editedAt next acts
    current node here key
  subst node
  obtain ⟨rfl, sealedText, old, found⟩ :=
    own_edit tended apart direct (List.mem_of_getElem? current) rfl here key
  have same := (before.stores thread.node).messages.find_key found
  have changed := messages_exec input.now (before.stores thread.node)
    (.updateMessages messageId none (.edit plaintext ciphertext editedAt)) id
  rw [found] at changed
  -- The new row is pending and its edit is the copy the thread now holds.
  have hit : addressed messageId none old = true := by simp [addressed, same, key]
  simp only [onMessage, Option.map_some, hit, ↓reduceIte] at changed
  refine ⟨quiet, ⟨(cstr ciphertext, editedAt), if_pos key, _, changed, rfl, plaintext, ?_, rfl⟩, ?_⟩
  · have clean : Clean ciphertext := by
      obtain ⟨nonce, _, encrypted⟩ := sealedText
      exact (encryptMessage_clean encrypted).1
    exact ((cstr_of_clean clean).symm ▸ sealedText :
      Sealed _ _ plaintext (network.id receiver) (cstr ciphertext))
  · rintro ⟨row, there, _, accepted⟩
    cases changed.symm.trans there
    cases accepted

/-- The receiver's copy is touched only by what its requests carry. -/
theorem theirs_kept (tended : Tended network sender receiver id before)
    (apart : receiver ≠ sender)
    (correct : network.sodium.Correct (network.keys sender) (network.keys receiver))
    {thread : Thread Host} (member : thread ∈ before.threads) (node : thread.node = receiver)
    {input : Input} {operation : LocalOp} {next : operation.Res → Proc Response}
    (here : thread.program = .op (.inl operation) next)
    (carried : ∀ job request, thread.origin = some (job, request) →
      (copies network sender receiver id).about request →
      (copies network sender receiver id).carries request (before.stores sender))
    (same : (copies network sender receiver id).same (before.stores sender)
      (before.stores receiver)) :
    (copies network sender receiver id).same (before.stores sender)
      (handle input operation (before.stores thread.node)).2 := by
  subst node
  intro row found edited
  obtain ⟨copy, copied, plain, time⟩ := same row found edited
  by_cases other : Rewrites id operation
  · match operation with
    | .call (.updateMessages messageId only (.edit plaintext ciphertext editedAt)) =>
        have changed := messages_exec input.now (before.stores thread.node)
          (.updateMessages messageId only (.edit plaintext ciphertext editedAt)) id
        rw [copied] at changed
        obtain ⟨job, request, serves⟩ := tended.serving thread member apart
        obtain ⟨endpoint, received, _⟩ := their_edit tended member serves here
        -- The edit came with a request, and that carries what the sender has.
        obtain ⟨old, there, loads, sealedRow⟩ := carried job request serves
          ⟨endpoint, (names_iff received.messageId).mpr other.2⟩
        cases found.symm.trans there
        obtain ⟨_, text, now⟩ := opened_same correct loads sealedRow received
        rcases onMessage_some input.now id
            (.updateMessages messageId only (.edit plaintext ciphertext editedAt)) copy with
          kept | ⟨_, _, _, same, _, marked⟩
        · exact ⟨copy, changed.trans kept, plain, time⟩
        · cases same
          exact ⟨_, changed.trans marked, text, now⟩
  · obtain ⟨later, there, kept⟩ := edit_kept input other copied
    exact ⟨later, there, kept.plaintext.symm.trans plain, kept.editedAt.symm.trans time⟩

/-- Whoever serves an edit of the message is the receiver, and has the row's edit then. -/
theorem puts_row (tended : Tended network sender receiver id before)
    (correct : network.sodium.Correct (network.keys sender) (network.keys receiver))
    {thread : Thread Host} (member : thread ∈ before.threads) {input : Input}
    {messageId plaintext ciphertext : Str} {editedAt : Int} {next : Bool → Proc Response}
    (here : thread.program = .op
      (.inl (.call (.updateMessages messageId none (.edit plaintext ciphertext editedAt)))) next)
    (key : cstr messageId = id) {job : Nat} {request : Request}
    (serves : thread.origin = some (job, request))
    (carried : (copies network sender receiver id).carries request (before.stores sender)) :
    thread.node = receiver ∧ (copies network sender receiver id).same (before.stores sender)
      (handle input (.call (.updateMessages messageId none (.edit plaintext ciphertext editedAt)))
        (before.stores thread.node)).2 := by
  obtain ⟨_, received, copy, copied⟩ := their_edit tended member serves here
  obtain ⟨old, there, loads, sealedRow⟩ := carried
  obtain ⟨node, text, now⟩ := opened_same correct loads sealedRow received
  refine ⟨node, fun row found _ => ?_⟩
  cases there.symm.trans found
  have same := (before.stores thread.node).messages.find_key copied
  have hit : addressed messageId none copy = true := by simp [addressed, same]
  have changed := messages_exec input.now (before.stores thread.node)
    (.updateMessages messageId none (.edit plaintext ciphertext editedAt)) id
  rw [← key, copied] at changed
  simp only [onMessage, Option.map_some, hit, ↓reduceIte] at changed
  exact ⟨_, key ▸ changed, text, now⟩

/-- Edits are posted by the sender, as its row has them. -/
theorem posts_row (tended : Tended network sender receiver id before)
    (direct : ∀ row, (before.stores sender).messages.find id = some row →
      Direct network sender receiver row) {thread : Thread Host}
    (member : thread ∈ before.threads) {request : Request}
    {next : Option Response → Proc Response} (here : thread.program = .op (.inr request) next)
    (about : (copies network sender receiver id).about request) :
    (copies network sender receiver id).Holds thread ∧
    ∀ edit, editCustody.held id thread.history = some edit →
      (copies network sender receiver id).fits edit (before.stores sender) →
      (copies network sender receiver id).carries request (before.stores sender) := by
  have allowed := Rpc.complies_allowed (tended.inside thread member) here
  cases serves : thread.origin with
  | some served =>
      rw [serves] at allowed
      exact allowed.elim
  | none =>
      have node : thread.node = sender := by
        -- Every other node runs threads that serve, and those send nothing.
        by_contra peer
        obtain ⟨job, request, other⟩ := tended.serving thread member peer
        cases serves.symm.trans other
      subst node
      have inHand : thread.program.InHand editCustody id Possible := by
        rw [here]
        exact .inl about
      refine ⟨⟨rfl, inHand⟩, fun edit holds fits => ?_⟩
      rw [serves] at allowed
      have sent : ownRequest thread.history request := allowed
      simp only [ownRequest, about.1] at sent
      obtain ⟨messageId, senderId, recipientId, held, seen, has, carries⟩ := sent
      have key : cstr messageId = id := (names_iff carries.messageId).mp about.2
      rw [key, holds] at has
      cases has
      obtain ⟨row, same, rfl, source, whom⟩ := seen
      have known := stored_direct (source_stored tended.recalled member _ source)
        (same.trans key) direct
      obtain ⟨stored, found, rfl, sealedRow⟩ := fits
      have recipient : row.recipientId = recipientId := by
        rcases whom with same | group
        · exact same
        · exact absurd known.groupId group
      exact ⟨stored, found, ⟨known.senderId ▸ carries.senderId,
        (recipient.symm.trans known.recipientId) ▸ carries.recipientId, carries.ciphertext,
        carries.editedAt⟩, sealedRow⟩

theorem upkeep (closed : ∀ request, network.foreign request = false)
    (tended : Tended network sender receiver id before) (apart : receiver ≠ sender)
    (correct : network.sodium.Correct (network.keys sender) (network.keys receiver))
    (direct : ∀ row, (before.stores sender).messages.find id = some row →
      Direct network sender receiver row)
    (timely : Timely network sender receiver id before label) :
    (copies network sender receiver id).Upkeep network.system before label where
  own index input thread operation next acts current here node := by
    by_cases other : Rewrites id operation
    · match operation with
      | .call (.updateMessages messageId only (.edit plaintext ciphertext editedAt)) =>
          exact .inr (renews_edit tended apart direct timely acts current node here other.2)
    · exact .inl (keeps_other tended apart (List.mem_of_getElem? current) node here other)
  theirs index input thread operation next acts current here node carried same :=
    theirs_kept tended apart correct (List.mem_of_getElem? current) node here carried same
  puts index input thread operation next acts current here job request serves about carried := by
    rintro ⟨messageId, plaintext, ciphertext, editedAt, rfl, key⟩
    exact puts_row tended correct (List.mem_of_getElem? current) here key serves carried
  posts index thread request next acts current here about :=
    posts_row tended direct (List.mem_of_getElem? current) here about
  replies thread member job request answer serves done about accepts := by
    have ensured := Rpc.complies_ensures (tended.orderly.complies thread member) serves done
      accepts
    simp only [about.1] at ensured
    obtain ⟨messageId, plaintext, ciphertext, editedAt, done, received, past⟩ := ensured
    exact ⟨_, _, past, messageId, plaintext, ciphertext, editedAt, rfl,
      (names_iff received.messageId).mp about.2⟩
  closed := closed

variable [DecidableEq Host]

theorem sealed_step (tended : Tended network sender receiver id before)
    (apart : receiver ≠ sender)
    (direct : ∀ row, (before.stores sender).messages.find id = some row →
      Direct network sender receiver row)
    (timely : Timely network sender receiver id before label)
    (step : Rpc.Step network.system label before after) {row : Message}
    (found : (after.stores sender).messages.find id = some row) (edited : row.editedAt ≠ 0) :
    SealedRow network sender receiver row := by
  rcases Rpc.stores_step step with
    unchanged | ⟨index, input, thread, operation, next, rfl, current, here, changed⟩
  · exact tended.sealedText row (unchanged ▸ found) edited
  by_cases node : thread.node = sender
  · rw [changed, ← node, Function.update_self] at found
    by_cases other : Rewrites id operation
    · match operation with
      | .call (.updateMessages messageId only (.edit plaintext ciphertext editedAt)) =>
          obtain ⟨_, _, now, there, _, sealedRow⟩ :=
            (renews_edit tended apart direct timely rfl current node here other.2).taken
          cases found.symm.trans there
          exact sealedRow
    · obtain ⟨old, there, kept⟩ := edited_before input other found edited
      obtain ⟨text, sealedText, plain⟩ :=
        tended.sealedText old (node ▸ there) (kept.editedAt ▸ edited)
      exact ⟨text, kept.ciphertext ▸ sealedText, plain.trans kept.plaintext⟩
  · rw [changed, Function.update_of_ne (Ne.symm node)] at found
    exact tended.sealedText row found edited

theorem tended_step (closed : ∀ request, network.foreign request = false)
    (apart : receiver ≠ sender)
    (correct : network.sodium.Correct (network.keys sender) (network.keys receiver))
    (direct : ∀ row, (before.stores sender).messages.find id = some row →
      Direct network sender receiver row)
    (begins : Begins sender label) (timely : Timely network sender receiver id before label)
    (step : Rpc.Step network.system label before after)
    (tended : Tended network sender receiver id before) :
    Tended network sender receiver id after where
  orderly := orderly_step step tended.orderly
  inside := Rpc.complies_step (inside_disciplined network)
    (fun host task starts => (begins host task starts).2) step tended.inside
  recalled := recalled_step step tended.recalled
  serving := serving_step step (fun host task starts => (begins host task starts).1)
    tended.serving
  sealedText _ found edited := sealed_step tended apart direct timely step found edited
  faithful := Rpc.Replica.faithful_step (careful_edit network) apart step tended.orderly.linked
    (orderly_step step tended.orderly).complies
    (upkeep closed tended apart correct direct timely) tended.faithful

omit [DecidableEq Host] in
theorem tended_idle (stores : Host → Store)
    (unedited : ∀ row, (stores sender).messages.find id = some row → row.editedAt = 0) :
    Tended network sender receiver id ⟨stores, [], []⟩ where
  orderly := orderly_idle stores
  inside _ member := absurd member List.not_mem_nil
  recalled := recalled_idle stores
  serving _ member := absurd member List.not_mem_nil
  sealedText _ found edited := absurd (unedited _ found) edited
  faithful :=
    { inHand := fun _ member => absurd member List.not_mem_nil
      flight := by simp
      serving := fun _ member => absurd member List.not_mem_nil
      applied := fun _ member => absurd member List.not_mem_nil
      answered := fun _ member => absurd member List.not_mem_nil
      acknowledged := fun _ member => absurd member List.not_mem_nil
      settled := fun ⟨_, found, edited, _⟩ => absurd (unedited _ found) edited }

theorem direct_before (step : Rpc.Step network.system label before after)
    (direct : ∀ row, (after.stores sender).messages.find id = some row →
      Direct network sender receiver row) (row : Message)
    (found : (before.stores sender).messages.find id = some row) :
    Direct network sender receiver row := by
  have key : row.messageId = id := (before.stores sender).messages.find_key found
  exact stored_direct (stored_step step sender _ (stored_found found)) key direct

/-- In a run whose edits are made in time, an acknowledged edit of a direct message is
the edit its recipient has. -/
theorem acknowledged_edit_held (closed : ∀ request, network.foreign request = false)
    (apart : receiver ≠ sender)
    (correct : network.sodium.Correct (network.keys sender) (network.keys receiver))
    {stores : Host → Store}
    (unedited : ∀ row, (stores sender).messages.find id = some row → row.editedAt = 0)
    (run : Rpc.Reachable network.system
      (fun state label => Begins sender label ∧ Timely network sender receiver id state label)
      ⟨stores, [], []⟩ state) {row : Message}
    (found : (state.stores sender).messages.find id = some row)
    (direct : Direct network sender receiver row) (edited : row.editedAt ≠ 0)
    (accepted : row.editAccepted = 1) :
    ∃ copy, (state.stores receiver).messages.find id = some copy ∧
      copy.plaintext = row.plaintext ∧ copy.editedAt = row.editedAt := by
  have tended : (∀ row, (state.stores sender).messages.find id = some row →
      Direct network sender receiver row) → Tended network sender receiver id state := by
    refine run.invariant (fun state => (∀ row, (state.stores sender).messages.find id = some row →
      Direct network sender receiver row) → Tended network sender receiver id state)
      (fun _ => tended_idle stores unedited) fun before label after ih meets step later => ?_
    have earlier := direct_before step later
    exact tended_step closed apart correct earlier meets.1 meets.2 step (ih earlier)
  have faithful := (tended fun other there => by
    cases found.symm.trans there
    exact direct).faithful
  exact faithful.settled ⟨row, found, edited, accepted⟩ row found edited

end Step

section Runs

def letter : Message :=
  ⟨str "m", pair.id true, pair.id false, [], str "hi", [], 1, 5, 0, 0, 1, 0⟩

def corresponding (host : Bool) : Store :=
  { acquainted host with messages := addMessage letter .empty }

def userEdits (text : String) : Action Bool :=
  .start true (.editMessage (userRequest
    [("message_id", .str (str "m")), ("text", .str (str text))]))

def posting (thread : Nat) (now : Int) : List (Action Bool) :=
  List.replicate 6 (.act thread (clockAt now)) ++ [.post thread]

def serving (job thread : Nat) : List (Action Bool) :=
  .deliver job false :: List.replicate 4 (.act thread (clockAt 8)) ++ [.reply thread]

/-- A check that implies the condition: the message is edited by the only thread. -/
def checked (state : World Bool) : Action Bool → Bool
  | .start host task => host && !isIncoming task
  | .act index _ =>
      match state.threads[index]? with
      | some thread =>
          match thread.program with
          | .op (.inl (.call (.updateMessages _ _ (.edit ..)))) _ =>
              !thread.node ||
                state.threads.length = 1 && state.jobs.isEmpty && thread.origin.isNone
          | _ => true
      | none => true
  | _ => true

theorem meets_of_checked (state : World Bool) (label : Action Bool)
    (passes : checked state label = true) :
    Begins true label ∧ Timely pair true false (str "m") state label := by
  constructor
  · rintro host task rfl
    simpa [checked] using passes
  intro index input thread messageId only plaintext ciphertext editedAt next acts current node here
    key
  subst acts
  simp only [checked, current, here, node, Bool.not_true, Bool.false_or, Bool.and_eq_true,
    decide_eq_true_eq, List.isEmpty_iff, Option.isNone_iff_eq_none] at passes
  obtain ⟨⟨one, none⟩, own⟩ := passes
  have inside := (List.getElem?_eq_some_iff.mp current).1
  have only : ∀ other : Nat, other < state.threads.length → other = index := by omega
  constructor
  · intro other there different present
    exact absurd (only other (List.getElem?_eq_some_iff.mp present).1) different
  · intro job request flies
    rw [none] at flies
    cases flies
  · intro there member job request serves about
    obtain ⟨other, present⟩ := List.getElem?_of_mem member
    cases only other (List.getElem?_eq_some_iff.mp present).1
    cases current.symm.trans present
    cases own.symm.trans serves

/-- An edit is made, delivered and acknowledged. -/
def correction : List (Action Bool) :=
  userEdits "ho" :: posting 0 7 ++ serving 0 1 ++ [.receive 0, .act 0 (clockAt 9)]

theorem letter_direct {store : Store} {row : Message}
    (stored : Stored store (core letter)) (found : store.messages.find (str "m") = some row) :
    Direct pair true false row := by
  obtain ⟨other, there, same⟩ := stored
  cases found.symm.trans there
  exact direct_core same.symm ⟨rfl, rfl, rfl⟩

theorem letter_stays {condition : World Bool → Action Bool → Prop} {state : World Bool}
    (run : Rpc.Reachable pair.system condition ⟨corresponding, [], []⟩ state) :
    Stored (state.stores true) (core letter) :=
  run.invariant (fun state => Stored (state.stores true) (core letter))
    ⟨letter, by decide +kernel, rfl⟩
    fun _ _ _ stored _ step => stored_step step true _ stored

theorem correction_held : ∃ (state : World Bool) (row copy : Message),
    (state.stores true).messages.find (str "m") = some row ∧ row.editAccepted = 1 ∧
    row.plaintext = str "ho" ∧ (state.stores false).messages.find (str "m") = some copy ∧
    copy.plaintext = row.plaintext ∧ copy.editedAt = row.editedAt := by
  have ran : (Rpc.run pair.system checked correction ⟨corresponding, [], []⟩).bind
      (fun state => ((state.stores true).messages.find (str "m")).map fun row =>
        (row.plaintext, row.editedAt, row.editAccepted)) = some (str "ho", 7, 1) := by
    decide +kernel
  obtain ⟨state, scheduled, found⟩ := Option.bind_eq_some_iff.mp ran
  obtain ⟨row, found, facts⟩ := Option.map_eq_some_iff.mp found
  simp only [Prod.mk.injEq] at facts
  have run := Rpc.run_reachable meets_of_checked correction scheduled
  obtain ⟨copy, copied, plain, time⟩ := acknowledged_edit_held (fun _ => rfl) (by decide)
    (transparent_correct _ _) (by decide +kernel) run found
    (letter_direct (letter_stays run) found) (by rw [facts.2.1]; decide) facts.2.2
  exact ⟨state, row, copy, found, facts.2.2, facts.1, copied, plain, time⟩

/-- The first edit is delivered, the second is stored and its request lost; then the
answer to the first arrives. -/
def mixUp : List (Action Bool) :=
  userEdits "ho" :: posting 0 7 ++ serving 0 1 ++ userEdits "hu" :: posting 2 9 ++
    [.drop 1, .receive 0, .act 0 (clockAt 9)]

def begun (_ : World Bool) : Action Bool → Bool
  | .start host task => host && !isIncoming task
  | _ => true

def landed (state : World Bool) : Bool :=
  state.jobs.all fun job => match job.stage with
    | .flight => false
    | _ => true

theorem later_edit_lost : ∃ (state : World Bool) (row copy : Message),
    Rpc.Reachable pair.system (fun _ label => Begins true label) ⟨corresponding, [], []⟩ state ∧
    (state.stores true).messages.find (str "m") = some row ∧
    Direct pair true false row ∧ row.editedAt ≠ 0 ∧ row.editAccepted = 1 ∧
    (∀ (job : Nat) request, state.jobs[job]? ≠ some ⟨request, .flight⟩) ∧
    (state.stores false).messages.find (str "m") = some copy ∧
    copy.plaintext ≠ row.plaintext ∧ copy.editedAt ≠ row.editedAt := by
  have ran : (Rpc.run pair.system begun mixUp ⟨corresponding, [], []⟩).bind
      (fun state => ((state.stores true).messages.find (str "m")).bind fun row =>
        ((state.stores false).messages.find (str "m")).map fun copy =>
          (row.plaintext, row.editedAt, row.editAccepted, copy.plaintext, copy.editedAt,
            landed state)) = some (str "hu", 9, 1, str "ho", 7, true) := by
    decide +kernel
  obtain ⟨state, scheduled, rest⟩ := Option.bind_eq_some_iff.mp ran
  obtain ⟨row, found, rest⟩ := Option.bind_eq_some_iff.mp rest
  obtain ⟨copy, copied, facts⟩ := Option.map_eq_some_iff.mp rest
  simp only [Prod.mk.injEq] at facts
  obtain ⟨text, time, accepted, oldText, oldTime, settled⟩ := facts
  have run : Rpc.Reachable pair.system (fun _ label => Begins true label) ⟨corresponding, [], []⟩
      state := by
    refine Rpc.run_reachable (fun state label passes => ?_) mixUp scheduled
    rintro host task rfl
    simpa [begun] using passes
  refine ⟨state, row, copy, run, found, letter_direct (letter_stays run) found, ?_, accepted, ?_,
    copied, ?_, ?_⟩
  · rw [time]
    decide
  · intro job request flies
    have done := List.all_eq_true.mp settled _ (List.mem_of_getElem? flies)
    cases done
  · rw [oldText, text]
    decide
  · rw [oldTime, time]
    decide

end Runs
end NoMiddle.Edits
