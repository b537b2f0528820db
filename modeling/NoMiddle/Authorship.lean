import NoMiddle.Library.RpcTrace
import NoMiddle.TaskConduct

/-! Whose words a received message is, when others see, keep and replay every request.
A box shows which two nodes share its key. It shows neither which of the two made it nor
under which id, so that much and no more is known of the text stored for it. -/
namespace NoMiddle.Authorship
open Library Text Crypto DbManager DbViews Node Handlers Network Conduct TaskConduct

variable {Host : Type}

/-- `crypto_box` as an ideal: what one of the nodes sealed opens between two of them only
if one of these two sealed it for the other, and then to what was sealed. -/
def Ideal (sodium : Sodium) (keys : Host → KeyPair) : Prop :=
  ∀ maker left right message nonce recipientPk box opened,
    sodium.cryptoBoxEasy message nonce recipientPk (keys maker).privateKey = some box →
    sodium.cryptoBoxOpenEasy box nonce (keys left).publicKey (keys right).privateKey =
      some opened →
    opened = message ∧ (maker = left ∧ recipientPk = (keys right).publicKey ∨
      maker = right ∧ recipientPk = (keys left).publicKey)

theorem ideal_decrypt {sodium : Sodium} {keys : Host → KeyPair} (ideal : Ideal sodium keys)
    {maker left right : Host} {plaintext recipientId ciphertext opened : Str}
    (made : Sealed sodium (keys maker) plaintext recipientId ciphertext)
    (decrypted : decryptMessage sodium ciphertext (keys left).publicKeyB64
      (keys right).privateKeyB64 = some opened) :
    opened = plaintext ∧ (maker = left ∧ recipientId = (keys right).publicKeyB64 ∨
      maker = right ∧ recipientId = (keys left).publicKeyB64) := by
  obtain ⟨nonce, size, encrypted⟩ := made
  obtain ⟨_, recipientPk, senderSk, box, recipientKey, senderKey, boxed, rfl⟩ :=
    encryptMessage_eq_some encrypted
  obtain ⟨leftPk, rightSk, blob, leftKey, rightKey, decoded, unboxed⟩ :=
    decryptMessage_eq_some decrypted
  rw [base64ToBin_privateKey] at senderKey rightKey
  rw [base64ToBin_publicKey] at leftKey
  cases senderKey
  cases rightKey
  cases leftKey
  cases (Base64.decode_encode _ : _ = some (nonce ++ box)).symm.trans decoded
  rw [← size, List.drop_left, List.take_left] at unboxed
  obtain ⟨rfl, parties⟩ := ideal _ _ _ _ _ _ _ _ boxed unboxed
  have named := ((base64ToBin_eq_some _ _ _).mp recipientKey).1
  refine ⟨rfl, parties.imp (fun ⟨same, key⟩ => ⟨same, ?_⟩) (fun ⟨same, key⟩ => ⟨same, ?_⟩)⟩
  · rw [← named, key]
    rfl
  · rw [← named, key]
    rfl

theorem sealed_clean {sodium : Sodium} {keys : KeyPair} {plaintext recipientId ciphertext : Str}
    (made : Sealed sodium keys plaintext recipientId ciphertext) : Clean ciphertext := by
  obtain ⟨nonce, _, encrypted⟩ := made
  exact (encryptMessage_clean encrypted).1

section Network
variable (network : Deployment Host)

/-- The thread does this task, as far as it has come. -/
def Does (thread : Thread Host) (task : Task) : Prop :=
  Rpc.Thread.Continues (network.program thread.node task) thread

/-- The task's own message or edit, sealed for the recipient. -/
def Writes (sodium : Sodium) (keys : KeyPair) (history : Trace)
    (messageId recipientId text : Str) : Prop :=
  (∃ msg : Message, (⟨.inl (.call (.addMessage msg)), true⟩ : Event nodeSig) ∈ history ∧
    msg.messageId = messageId ∧ msg.recipientId = recipientId ∧ msg.plaintext = text) ∨
  ∃ only ciphertext editedAt done,
    (⟨.inl (.call (.updateMessages messageId only (.edit text ciphertext editedAt))), done⟩ :
      Event nodeSig) ∈ history ∧ Sealed sodium keys text recipientId ciphertext

/-- A task of the writer itself, no request that came in, wrote the text for the reader. -/
def Sent (state : World Host) (writer reader : Host) (messageId text : Str) : Prop :=
  ∃ thread ∈ state.threads, thread.node = writer ∧
    (∃ task, isIncoming task = false ∧ Does network thread task) ∧
    Writes network.sodium (network.keys writer) thread.history messageId (network.id reader) text

/-- The routes that open a box. -/
def Carried (endpoint : Endpoint) (body : Json) (ciphertext : Str) : Prop :=
  (endpoint = .acceptMessage ∨ endpoint = .acceptEdit) ∧
    body.s? "ciphertext" = some ciphertext

def Opens (ciphertext : Str) (sender receiver : Host) (text : Str) : Prop :=
  decryptMessage network.sodium ciphertext (network.id sender)
    (network.keys receiver).privateKeyB64 = some text

/-- Requests from outside say whatever their maker likes, except that a box which opens
between two of the nodes is one that was seen on its way. -/
def Symbolic (state : World Host) : Action Host → Prop
  | .start _ (.incoming endpoint (some body)) => ∀ ciphertext, Carried endpoint body ciphertext →
      (∃ sender receiver text, Opens network ciphertext sender receiver text) →
      ∃ job ∈ state.jobs, Carried job.request.endpoint job.request.body ciphertext
  | _ => True

/-- The row's text is what a request to one of the peers' routes brought, and the row's
sender the one this request claimed. -/
def Accepted (state : World Host) (host : Host) (row : Message) : Prop :=
  (state.stores host).messages.find row.messageId = some row ∧
  ∃ thread ∈ state.threads, thread.node = host ∧
    (∃ endpoint body, Does network thread (.incoming endpoint (some body)) ∧
      body.s? "sender_id" = some row.senderId) ∧
    ((∃ msg : Message, (⟨.inl (.call (.addMessage msg)), true⟩ : Event nodeSig) ∈ thread.history ∧
        cstr msg.messageId = row.messageId ∧ cstr msg.plaintext = row.plaintext) ∨
      ∃ messageId only plaintext ciphertext editedAt done,
        (⟨.inl (.call (.updateMessages messageId only (.edit plaintext ciphertext editedAt))),
          done⟩ : Event nodeSig) ∈ thread.history ∧
        cstr messageId = row.messageId ∧ cstr plaintext = row.plaintext)

/-- Whatever opens in the ciphertext, one of the two it opens between wrote it. -/
def Vouched (state : World Host) (ciphertext : Str) : Prop :=
  ∀ sender receiver text, Opens network ciphertext sender receiver text →
    ∃ messageId, Sent network state sender receiver messageId text ∨
      Sent network state receiver sender messageId text

/-- The ciphertext an event gives to the store. -/
inductive Puts : Event nodeSig → Str → Prop where
  | message (msg : Message) : Puts ⟨.inl (.call (.addMessage msg)), true⟩ msg.ciphertext
  | edit (messageId : Str) (only : Option Str) (plaintext ciphertext : Str) (editedAt : Int)
      (done : Bool) :
      Puts ⟨.inl (.call (.updateMessages messageId only
        (.edit plaintext ciphertext editedAt))), done⟩ ciphertext

/-- Every thread does some task, and a request from outside brings a vouched box. -/
structure Traced (state : World Host) : Prop where
  course : ∀ thread ∈ state.threads, ∃ task, Does network thread task ∧
    ∀ endpoint body ciphertext, task = .incoming endpoint (some body) →
      Carried endpoint body ciphertext → Vouched network state ciphertext
  possible : ∀ thread ∈ state.threads, ∀ event ∈ thread.history, Possible event.1 event.2

structure Sound (state : World Host) : Prop where
  traced : Traced network state
  listed : ∀ thread ∈ state.threads, ∀ query rows,
    (⟨.inl (.call (.getMessages query)), rows⟩ : Event nodeSig) ∈ thread.history →
    ∀ row ∈ (rows : List Message), Vouched network state row.ciphertext
  jobs : ∀ job ∈ state.jobs, ∀ ciphertext,
    Carried job.request.endpoint job.request.body ciphertext → Vouched network state ciphertext
  stored : ∀ host id row, (state.stores host).messages.find id = some row →
    Vouched network state row.ciphertext

variable {network}

theorem served_followed {thread : Thread Host} {endpoint : Endpoint} {body : Json}
    (does : Does network thread (.incoming endpoint (some body)))
    (possible : ∀ event ∈ thread.history, Possible event.1 event.2) :
    (served network.sodium (network.keys thread.node) ⟨[], endpoint, body⟩).Followed
      thread.history ∧
    thread.program.wp (served network.sodium (network.keys thread.node)
      ⟨[], endpoint, body⟩).contract (fun _ _ => True) thread.history :=
  does.followed (receive_served network thread.node endpoint body) possible

theorem own_followed {thread : Thread Host} {task : Task} (inside : isIncoming task = false)
    (does : Does network thread task)
    (possible : ∀ event ∈ thread.history, Possible event.1 event.2) :
    (own network.sodium (network.keys thread.node)).Followed thread.history ∧
    thread.program.wp (own network.sodium (network.keys thread.node)).contract
      (fun _ _ => True) thread.history :=
  does.followed (program_own network thread.node task inside) possible

/-- What a task of the node puts into the store, it sealed itself. -/
theorem own_puts {thread : Thread Host} {task : Task} (inside : isIncoming task = false)
    (does : Does network thread task)
    (possible : ∀ event ∈ thread.history, Possible event.1 event.2)
    {event : Event nodeSig} (past : event ∈ thread.history) {ciphertext : Str}
    (puts : Puts event ciphertext) : ∃ messageId recipientId text,
      Sealed network.sodium (network.keys thread.node) text recipientId ciphertext ∧
      Writes network.sodium (network.keys thread.node) thread.history messageId recipientId
        text := by
  obtain ⟨later, earlier, split⟩ := List.append_of_mem past
  have followed := (own_followed inside does possible).1
  rw [split] at followed
  have own := followed.past.1
  cases puts with
  | message msg => exact ⟨_, _, _, own.sealedText, .inl ⟨msg, past, rfl, rfl, rfl⟩⟩
  | edit =>
      obtain ⟨recipientId, _, made⟩ := own
      exact ⟨_, recipientId, _, made, .inr ⟨_, _, _, _, past, made⟩⟩

/-- What a request from outside puts into the store, it brought along, and it opened. -/
theorem served_puts {thread : Thread Host} {endpoint : Endpoint} {body : Json}
    (does : Does network thread (.incoming endpoint (some body)))
    (possible : ∀ event ∈ thread.history, Possible event.1 event.2)
    {event : Event nodeSig} (past : event ∈ thread.history) {ciphertext : Str}
    (puts : Puts event ciphertext) : Carried endpoint body ciphertext ∧ Clean ciphertext := by
  obtain ⟨later, earlier, split⟩ := List.append_of_mem past
  have followed := (served_followed does possible).1
  rw [split] at followed
  have served := followed.past.1
  cases puts with
  | message msg =>
      obtain ⟨route, received⟩ := served
      exact ⟨⟨.inl route, received.ciphertext⟩, (decryptMessage_clean received.opened).1⟩
  | edit =>
      obtain ⟨_, route, received, _⟩ := served
      obtain ⟨senderId, _, opened⟩ := received.opened
      exact ⟨⟨.inr route, received.sealedText⟩, (decryptMessage_clean opened).1⟩

def silent : Discipline nodeSig := ⟨fun _ _ => True, fun _ _ => False⟩

theorem silent_followed {thread : Thread Host} {endpoint : Endpoint}
    (does : Does network thread (.incoming endpoint none)) :
    silent.Followed thread.history ∧
      thread.program.wp silent.contract (fun _ _ => True) thread.history := by
  have refused : (network.receive thread.node endpoint none).wp silent.contract
      (fun _ _ => True) [] := by
    cases endpoint <;> trivial
  exact does.followed refused fun _ _ => trivial

theorem puts_vouched (ideal : Ideal network.sodium network.keys) {state : World Host}
    (traced : Traced network state) {thread : Thread Host} (member : thread ∈ state.threads)
    {event : Event nodeSig} (past : event ∈ thread.history) {ciphertext : Str}
    (puts : Puts event ciphertext) : Vouched network state (cstr ciphertext) := by
  obtain ⟨task, does, vouched⟩ := traced.course thread member
  have possible := traced.possible thread member
  cases incoming : isIncoming task with
  | false =>
      obtain ⟨messageId, recipientId, text, made, writes⟩ :=
        own_puts incoming does possible past puts
      rw [cstr_of_clean (sealed_clean made)]
      intro sender receiver opened opens
      obtain ⟨rfl, ⟨rfl, rfl⟩ | ⟨rfl, rfl⟩⟩ := ideal_decrypt ideal made opens
      · exact ⟨messageId, .inl ⟨thread, member, rfl, ⟨task, incoming, does⟩, writes⟩⟩
      · exact ⟨messageId, .inr ⟨thread, member, rfl, ⟨task, incoming, does⟩, writes⟩⟩
  | true =>
      cases task with
      | incoming endpoint body =>
          cases body with
          | none =>
              obtain ⟨later, earlier, split⟩ := List.append_of_mem past
              obtain ⟨followed, _⟩ := silent_followed does
              rw [split] at followed
              exact followed.past.1.elim
          | some body =>
              obtain ⟨carried, clean⟩ := served_puts does possible past puts
              rw [cstr_of_clean clean]
              exact vouched endpoint body ciphertext rfl carried
      | _ => cases incoming

theorem serve_program (host : Host) (request : Request) :
    network.serve host request =
      network.program host (.incoming request.endpoint (some request.body)) := by
  obtain ⟨serverAddress, endpoint, body⟩ := request
  cases endpoint <;> rfl

section Steps
variable [DecidableEq Host] {before after : World Host} {label : Action Host}

theorem sent_step (step : Rpc.Step network.system label before after) {writer reader : Host}
    {messageId text : Str} (sent : Sent network before writer reader messageId text) :
    Sent network after writer reader messageId text := by
  obtain ⟨thread, member, rfl, ⟨task, inside, does⟩, writes⟩ := sent
  obtain ⟨later, present, node, past, continues⟩ := Rpc.continues_kept step member
  refine ⟨later, present, node, ⟨task, inside, ?_⟩, ?_⟩
  · unfold Does at does ⊢
    rw [node]
    exact continues _ does
  · rcases writes with ⟨msg, added, about⟩ | ⟨only, ciphertext, editedAt, done, edited, made⟩
    · exact .inl ⟨msg, past _ added, about⟩
    · exact .inr ⟨only, ciphertext, editedAt, done, past _ edited, made⟩

theorem vouched_step (step : Rpc.Step network.system label before after) {ciphertext : Str}
    (vouched : Vouched network before ciphertext) : Vouched network after ciphertext := by
  intro sender receiver text opens
  obtain ⟨messageId, sent⟩ := vouched sender receiver text opens
  exact ⟨messageId, sent.imp (sent_step step) (sent_step step)⟩

theorem traced_step (step : Rpc.Step network.system label before after)
    (meets : Symbolic network before label) (sound : Sound network before) :
    Traced network after where
  course thread member := by
    obtain ⟨index, present⟩ := List.getElem?_of_mem member
    rcases Rpc.continues_step step present with
      ⟨old, current, node, continues⟩ | ⟨task, rfl, does⟩ | ⟨job, posted, does⟩
    · obtain ⟨task, does, vouched⟩ := sound.traced.course old current
      refine ⟨task, ?_, fun endpoint body ciphertext brings carried =>
        vouched_step step (vouched endpoint body ciphertext brings carried)⟩
      unfold Does at does ⊢
      rw [← node]
      exact continues _ does
    · refine ⟨task, does, fun endpoint body ciphertext brings carried => ?_⟩
      subst brings
      -- The outsider kept the box, so it was vouched for when it was posted.
      intro sender receiver text opens
      obtain ⟨job, posted, same⟩ := meets ciphertext carried ⟨sender, receiver, text, opens⟩
      exact vouched_step step (sound.jobs job posted ciphertext same) sender receiver text opens
    · refine ⟨.incoming job.request.endpoint (some job.request.body), ?_,
        fun endpoint body ciphertext brings carried => ?_⟩
      · change Rpc.Thread.Continues (network.serve thread.node job.request) thread at does
        rwa [serve_program] at does
      · cases brings
        exact vouched_step step (sound.jobs job posted ciphertext carried)
  possible thread member event past := by
    obtain ⟨index, present⟩ := List.getElem?_of_mem member
    rcases Rpc.event_step step present past with ⟨old, current, _, _, earlier⟩ |
      ⟨input, old, operation, _, _, _, _, _, _, rfl⟩ | ⟨request, answer, rfl⟩
    · exact sound.traced.possible old (List.mem_of_getElem? current) event earlier
    · exact possible_handle input operation (before.stores old.node)
    · trivial

theorem listed_step (step : Rpc.Step network.system label before after)
    (sound : Sound network before) {thread : Thread Host} (member : thread ∈ after.threads)
    {query : Query} {rows : List Message}
    (past : (⟨.inl (.call (.getMessages query)), rows⟩ : Event nodeSig) ∈ thread.history)
    {row : Message} (among : row ∈ rows) : Vouched network after row.ciphertext := by
  obtain ⟨index, present⟩ := List.getElem?_of_mem member
  rcases Rpc.event_step step present past with ⟨old, current, _, _, earlier⟩ |
    ⟨input, old, operation, _, _, _, _, _, _, same⟩ | ⟨request, answer, same⟩
  · exact vouched_step step
      (sound.listed old (List.mem_of_getElem? current) query rows earlier row among)
  · cases same
    have found := ((mem_rows query (before.stores old.node).messages row).mp among).1
    exact vouched_step step (sound.stored old.node _ row found)
  · cases same

omit [DecidableEq Host] in
theorem message_vouched (ideal : Ideal network.sodium network.keys)
    (sound : Sound network before) {thread : Thread Host} (member : thread ∈ before.threads)
    {id : Str} {copy : Message}
    (held : messageCustody.held id thread.history = some copy) :
    Vouched network before copy.ciphertext := by
  obtain ⟨event, past, taken⟩ := Custody.held_source held
  change takesMessage id event = some copy at taken
  unfold takesMessage at taken
  split at taken
  · next msg added =>
    split at taken
    · next success =>
      obtain ⟨rfl, _⟩ := success
      cases taken
      exact puts_vouched ideal sound.traced member past (.message msg)
    · cases taken
  · next rows =>
    exact sound.listed thread member _ rows past copy (List.mem_of_find?_eq_some taken)
  · cases taken

omit [DecidableEq Host] in
theorem edit_vouched (ideal : Ideal network.sodium network.keys)
    (sound : Sound network before) {thread : Thread Host} (member : thread ∈ before.threads)
    {id : Str} {edit : Str × Int} (held : editCustody.held id thread.history = some edit) :
    Vouched network before edit.1 := by
  obtain ⟨event, past, taken⟩ := Custody.held_source held
  change takesEdit id event = some edit at taken
  unfold takesEdit at taken
  split at taken
  · split at taken
    · cases taken
      exact puts_vouched ideal sound.traced member past (.edit ..)
    · cases taken
  · next rows =>
    obtain ⟨row, found, same⟩ := Option.map_eq_some_iff.mp taken
    cases same
    exact sound.listed thread member _ rows past row (List.mem_of_find?_eq_some found)
  · cases taken

omit [DecidableEq Host] in
/-- A node sends only what it holds, and on a request from outside it sends nothing. -/
theorem sends_vouched (ideal : Ideal network.sodium network.keys) (sound : Sound network before)
    {thread : Thread Host} (member : thread ∈ before.threads) {request : Request}
    {next : nodeSig.Res (.inr request) → Proc Response}
    (here : thread.program = .op (.inr request) next) {ciphertext : Str}
    (carried : Carried request.endpoint request.body ciphertext) :
    Vouched network before ciphertext := by
  obtain ⟨task, does, _⟩ := sound.traced.course thread member
  have possible := sound.traced.possible thread member
  obtain ⟨endpoint, text⟩ := carried
  cases incoming : isIncoming task with
  | false =>
      obtain ⟨_, rest⟩ := own_followed incoming does possible
      rw [here] at rest
      have sent : ownRequest thread.history request := rest.1
      rcases endpoint with endpoint | endpoint
      · simp only [ownRequest, endpoint] at sent
        obtain ⟨copy, held, _, carries⟩ := sent
        cases text.symm.trans carries.ciphertext
        exact message_vouched ideal sound member held
      · simp only [ownRequest, endpoint] at sent
        obtain ⟨messageId, senderId, recipientId, edit, _, held, carries⟩ := sent
        cases text.symm.trans carries.ciphertext
        exact edit_vouched ideal sound member held
  | true =>
      cases task with
      | incoming route body =>
          cases body with
          | none =>
              obtain ⟨_, rest⟩ := silent_followed does
              rw [here] at rest
              exact rest.1.elim
          | some body =>
              obtain ⟨_, rest⟩ := served_followed does possible
              rw [here] at rest
              exact rest.1.elim
      | _ => cases incoming

theorem jobs_step (ideal : Ideal network.sodium network.keys)
    (step : Rpc.Step network.system label before after) (sound : Sound network before)
    {job : Rpc.Job Request Response} (member : job ∈ after.jobs) {ciphertext : Str}
    (carried : Carried job.request.endpoint job.request.body ciphertext) :
    Vouched network after ciphertext := by
  rcases Rpc.request_step step member with ⟨old, posted, same⟩ | ⟨thread, caller, next, here⟩
  · exact vouched_step step (sound.jobs old posted ciphertext (same ▸ carried))
  · exact vouched_step step (sends_vouched ideal sound caller here carried)

theorem stored_step (ideal : Ideal network.sodium network.keys)
    (step : Rpc.Step network.system label before after) (sound : Sound network before)
    (traced : Traced network after) {host : Host} {id : Str} {row : Message}
    (found : (after.stores host).messages.find id = some row) :
    Vouched network after row.ciphertext := by
  rcases message_step step host id with
    same | ⟨index, input, thread, call, next, rfl, current, rfl, here, changed⟩
  · exact vouched_step step (sound.stored host id row (same ▸ found))
  have acted := List.mem_of_getElem? (Rpc.acted_thread step current here)
  rcases onMessage_cases (changed.symm.trans found) with kept | ⟨msg, rfl, absent, key, rfl⟩ |
    ⟨old, messageId, recipientId, mark, rfl, there, hit, rfl⟩
  · exact vouched_step step (sound.stored thread.node id row kept)
  · have added : ((Call.addMessage msg).exec input.now (before.stores thread.node)).1 = true := by
      simp [Call.exec, Table.has, key, absent]
    have past : (⟨.inl (.call (.addMessage msg)), true⟩ : Event nodeSig) ∈
        (⟨.inl (.call (.addMessage msg)),
          ((Call.addMessage msg).exec input.now (before.stores thread.node)).1⟩ ::
          thread.history : Trace) := by
      rw [added]
      exact List.mem_cons_self
    exact puts_vouched ideal traced acted past (.message msg)
  · have kept := vouched_step step (sound.stored thread.node id old there)
    cases mark with
    | edit plaintext ciphertext editedAt =>
        exact puts_vouched ideal traced acted List.mem_cons_self (.edit ..)
    | _ => exact kept

theorem sound_step (ideal : Ideal network.sodium network.keys)
    (step : Rpc.Step network.system label before after) (meets : Symbolic network before label)
    (sound : Sound network before) : Sound network after where
  traced := traced_step step meets sound
  listed _ member _ _ past _ among := listed_step step sound member past among
  jobs _ member _ carried := jobs_step ideal step sound member carried
  stored _ _ _ found := stored_step ideal step sound (traced_step step meets sound) found

omit [DecidableEq Host] in
theorem sound_idle (stores : Host → Store)
    (empty : ∀ host id, (stores host).messages.find id = none) :
    Sound network ⟨stores, [], []⟩ where
  traced := ⟨fun _ member => absurd member List.not_mem_nil,
    fun _ member => absurd member List.not_mem_nil⟩
  listed _ member := absurd member List.not_mem_nil
  jobs _ member := absurd member List.not_mem_nil
  stored host id row found := by
    rw [empty host id] at found
    cases found

theorem sound_run (ideal : Ideal network.sodium network.keys) (stores : Host → Store)
    (empty : ∀ host id, (stores host).messages.find id = none) {state : World Host}
    (run : Rpc.Reachable network.system (Symbolic network) ⟨stores, [], []⟩ state) :
    Sound network state :=
  run.invariant (Sound network) (sound_idle stores empty)
    fun _ _ _ sound meets step => sound_step ideal step meets sound

/-- The text an accepted row shows under a node's name was written by this node for the
row's host, or by the host for this node, under some id. -/
theorem accepted_authored (ideal : Ideal network.sodium network.keys) (stores : Host → Store)
    (empty : ∀ host id, (stores host).messages.find id = none) {state : World Host}
    (run : Rpc.Reachable network.system (Symbolic network) ⟨stores, [], []⟩ state)
    {host sender : Host} {row : Message} (accepted : Accepted network state host row)
    (claimed : row.senderId = network.id sender) :
    ∃ messageId text, row.plaintext = cstr text ∧
      (Sent network state sender host messageId text ∨
        Sent network state host sender messageId text) := by
  have traced := (sound_run ideal stores empty run).traced
  obtain ⟨_, thread, member, rfl, ⟨endpoint, body, does, named⟩, wrote⟩ := accepted
  have possible := traced.possible thread member
  rw [claimed] at named
  have opened : ∃ event ∈ thread.history, ∃ ciphertext text, Puts event ciphertext ∧
      Opens network ciphertext sender thread.node text ∧ row.plaintext = cstr text := by
    obtain ⟨followed, _⟩ := served_followed does possible
    rcases wrote with ⟨msg, past, _, same⟩ | ⟨messageId, only, plaintext, ciphertext, editedAt,
      done, past, _, same⟩
    · obtain ⟨later, earlier, split⟩ := List.append_of_mem past
      rw [split] at followed
      obtain ⟨_, received⟩ := followed.past.1
      have opens := received.opened
      rw [← Option.some.inj (named.symm.trans received.senderId)] at opens
      exact ⟨_, past, _, _, .message msg, opens, same.symm⟩
    · obtain ⟨later, earlier, split⟩ := List.append_of_mem past
      rw [split] at followed
      obtain ⟨_, _, received, _⟩ := followed.past.1
      obtain ⟨senderId, claims, opens⟩ := received.opened
      rw [← Option.some.inj (named.symm.trans claims)] at opens
      exact ⟨_, past, _, _, .edit .., opens, same.symm⟩
  obtain ⟨event, past, ciphertext, text, puts, opens, same⟩ := opened
  have vouched := puts_vouched ideal traced member past puts
  rw [cstr_of_clean (decryptMessage_clean opens).1] at vouched
  obtain ⟨messageId, sent⟩ := vouched sender thread.node text opens
  exact ⟨messageId, text, same, sent⟩

omit [DecidableEq Host] in
theorem accepted_of_received {state : World Host} (traced : Traced network state)
    {thread : Thread Host} (member : thread ∈ state.threads) {msg : Message}
    (past : (⟨.inl (.call (.addMessage msg)), true⟩ : Event nodeSig) ∈ thread.history)
    (direct : msg.groupId = []) (received : msg.accepted = 1)
    (found : (state.stores thread.node).messages.find (cstr msg.messageId) = some msg.stored) :
    Accepted network state thread.node msg.stored := by
  obtain ⟨task, does, _⟩ := traced.course thread member
  have possible := traced.possible thread member
  obtain ⟨later, earlier, split⟩ := List.append_of_mem past
  cases incoming : isIncoming task with
  | false =>
      have followed := (own_followed incoming does possible).1
      rw [split] at followed
      have pending := followed.past.1.direct direct
      rw [received] at pending
      cases pending
  | true =>
      cases task with
      | incoming endpoint body =>
          cases body with
          | none =>
              have followed := (silent_followed does).1
              rw [split] at followed
              exact followed.past.1.elim
          | some body =>
              have followed := (served_followed does possible).1
              rw [split] at followed
              obtain ⟨_, opened⟩ := followed.past.1
              refine ⟨found, thread, member, rfl, ⟨endpoint, body, does, ?_⟩,
                .inl ⟨msg, past, rfl, rfl⟩⟩
              rw [opened.senderId]
              exact congrArg some (cstr_of_clean (decryptMessage_clean opened.opened).2).symm
      | _ => cases incoming

end Steps

end Network

/-! One box, seen on its way and put to two other uses. -/
section Runs

def ordered (left right : UInt8) : Str := if left ≤ right then [left, right] else [right, left]

/-- A box that names the two keys it was made with, for public keys of one repeated byte. -/
def keyed : Sodium where
  ready := true
  cryptoBoxEasy message _ publicKey secretKey :=
    if publicKey = List.replicate 32 (publicKey.headD 0) then
      some (ordered (publicKey.headD 0) (secretKey.headD 0) ++ List.replicate 14 0 ++ message)
    else none
  cryptoBoxOpenEasy ciphertext _ publicKey secretKey :=
    if ciphertext.take 2 = ordered (publicKey.headD 0) (secretKey.headD 0) then
      some (ciphertext.drop 16)
    else none
  cryptoGenerichash message _ := message

theorem ordered_cases {a b c d : UInt8} (same : ordered a b = ordered c d) :
    a = c ∧ b = d ∨ a = d ∧ b = c := by
  unfold ordered at same
  split_ifs at same
  · simp only [List.cons.injEq, and_true] at same
    exact .inl same
  · simp only [List.cons.injEq, and_true] at same
    exact .inr same
  · simp only [List.cons.injEq, and_true] at same
    exact .inr same.symm
  · simp only [List.cons.injEq, and_true] at same
    exact .inl same.symm

theorem ordered_length (left right : UInt8) : (ordered left right).length = 2 := by
  unfold ordered
  split_ifs <;> rfl

theorem keyed_ideal : Ideal keyed pair.keys := by
  intro maker left right message nonce recipientPk box opened boxed unboxed
  have filled : ∀ host, (pair.keys host).publicKey =
      List.replicate 32 ((pair.keys host).publicKey.headD 0) := by decide
  have secret : ∀ host, (pair.keys host).privateKey.headD 0 =
      (pair.keys host).publicKey.headD 0 := by decide
  have apart : ∀ one other, (pair.keys one).publicKey.headD 0 =
      (pair.keys other).publicKey.headD 0 → one = other := by decide
  simp only [keyed, Option.ite_none_right_eq_some, Option.some.injEq] at boxed unboxed
  obtain ⟨repeated, rfl⟩ := boxed
  obtain ⟨tag, rfl⟩ := unboxed
  rw [List.append_assoc, List.take_left' (ordered_length _ _), secret, secret] at tag
  have text : List.drop 16 (ordered (recipientPk.headD 0) ((pair.keys maker).privateKey.headD 0) ++
      List.replicate 14 0 ++ message) = message :=
    List.drop_left' (by rw [List.length_append, ordered_length, List.length_replicate])
  refine ⟨text, ?_⟩
  rcases ordered_cases tag with ⟨sameLeft, sameRight⟩ | ⟨sameRight, sameLeft⟩
  · exact .inr ⟨apart _ _ sameRight, by rw [repeated, sameLeft, ← filled]⟩
  · exact .inl ⟨apart _ _ sameLeft, by rw [repeated, sameRight, ← filled]⟩

def sealing : Deployment Bool := { pair with sodium := keyed }

def box : Str :=
  (encryptMessage keyed (List.replicate 24 0) (str "hi") (pair.id false)
    (pair.keys true).privateKeyB64).getD []

def boxing (messageId : Str) (sender recipient : Bool) : Json :=
  .obj [("message_id", .str messageId), ("sender_id", .str (pair.id sender)),
    ("recipient_id", .str (pair.id recipient)), ("ciphertext", .str box), ("timestamp", .num 3)]

/-- The first node writes once. The box goes to the second under another id, and back to
the first as if the second had written. -/
def replays : List (Action Bool) :=
  [.start true (.sendMessage (userRequest
      [("recipient_id", .str (pair.id false)), ("text", .str (str "hi"))])),
    .act 0 (clockAt 7), .act 0 (clockAt 7), .act 0 (clockAt 7), .act 0 (clockAt 7),
    .act 0 (clockAt 7), .act 0 (clockAt 7), .post 0,
    .start false (.incoming .acceptMessage (some (boxing (str "x") true false))),
    .act 1 (clockAt 8),
    .start true (.incoming .acceptMessage (some (boxing (str "y") false true))),
    .act 2 (clockAt 9)]

/-- Whether a request from outside uses only boxes that were seen. -/
def seen (state : World Bool) : Action Bool → Bool
  | .start _ (.incoming _ (some body)) =>
      match body.s? "ciphertext" with
      | some ciphertext => state.jobs.any fun job =>
          decide (job.request.endpoint = .acceptMessage) &&
            decide (job.request.body.s? "ciphertext" = some ciphertext)
      | none => true
  | _ => true

theorem seen_symbolic (state : World Bool) (label : Action Bool)
    (allowed : seen state label = true) : Symbolic sealing state label := by
  unfold seen at allowed
  split at allowed
  · next node endpoint body =>
    intro ciphertext carried _
    rw [carried.2] at allowed
    obtain ⟨job, posted, same⟩ := List.any_eq_true.mp allowed
    obtain ⟨route, text⟩ := (Bool.and_eq_true _ _).mp same
    exact ⟨job, posted, .inl (of_decide_eq_true route), of_decide_eq_true text⟩
  · next other =>
    unfold Symbolic
    split
    · next node endpoint body => exact absurd rfl (other _ _ _)
    · trivial

def added : Event nodeSig → Option Message
  | ⟨.inl (.call (.addMessage msg)), stored⟩ => if stored = true then some msg else none
  | _ => none

def wrote : Event nodeSig → Option (Str × Option Str)
  | ⟨.inl (.call (.addMessage msg)), _⟩ => some (msg.messageId, some msg.recipientId)
  | ⟨.inl (.call (.updateMessages messageId _ (.edit ..))), _⟩ => some (messageId, none)
  | _ => none

theorem added_event {event : Event nodeSig} {msg : Message} (adds : added event = some msg) :
    event = ⟨.inl (.call (.addMessage msg)), true⟩ := by
  unfold added at adds
  split at adds
  · split at adds
    · next stored =>
      cases adds
      rw [stored]
    · cases adds
  · cases adds

theorem writes_wrote {sodium : Sodium} {keys : KeyPair} {history : Trace}
    {messageId recipientId text : Str} (writes : Writes sodium keys history messageId recipientId text) :
    (messageId, some recipientId) ∈ history.filterMap wrote ∨
      (messageId, none) ∈ history.filterMap wrote := by
  rcases writes with ⟨msg, past, rfl, rfl, rfl⟩ | ⟨only, ciphertext, editedAt, done, past, _⟩
  · exact .inl (List.mem_filterMap.mpr ⟨_, past, rfl⟩)
  · exact .inr (List.mem_filterMap.mpr ⟨_, past, rfl⟩)

def arrived (state : World Bool) (index : Nat) : Option (Bool × Message) :=
  (state.threads[index]?).bind fun thread => (thread.history.findSome? added).bind fun msg =>
    if (state.stores thread.node).messages.find (cstr msg.messageId) = some msg.stored then
      some (thread.node, msg)
    else none

def boxed (messageId : Str) (sender recipient : Bool) : Message :=
  ⟨messageId, pair.id sender, pair.id recipient, [], str "hi", box, 1, 3, 0, 0, 1, 0⟩

def outcome (state : World Bool) : List (Bool × List (Str × Option Str)) :=
  state.threads.map fun thread => (thread.node, thread.history.filterMap wrote)

/-- What the run leaves: the two messages, and everything any thread wrote. -/
structure Replayed (state : World Bool) : Prop where
  renamed : arrived state 1 = some (false, boxed (str "x") true false)
  reflected : arrived state 2 = some (true, boxed (str "y") false true)
  wrote : outcome state =
    [(true, [(firstId, some (pair.id false))]), (false, [(str "x", some (pair.id false))]),
      (true, [(str "y", some (pair.id true))])]

theorem replays_run : ∃ state : World Bool,
    Rpc.Reachable sealing.system (Symbolic sealing) ⟨acquainted, [], []⟩ state ∧
    Replayed state := by
  have ran : (Rpc.run sealing.system seen replays ⟨acquainted, [], []⟩).any (fun state =>
      decide (arrived state 1 = some (false, boxed (str "x") true false)) &&
      decide (arrived state 2 = some (true, boxed (str "y") false true)) &&
      decide (outcome state =
        [(true, [(firstId, some (pair.id false))]), (false, [(str "x", some (pair.id false))]),
          (true, [(str "y", some (pair.id true))])])) = true := by
    decide +kernel
  obtain ⟨state, scheduled, facts⟩ := (Option.any_eq_true _ _).mp ran
  simp only [Bool.and_eq_true, decide_eq_true_eq] at facts
  obtain ⟨⟨renamed, reflected⟩, wrote⟩ := facts
  exact ⟨state, Rpc.run_reachable seen_symbolic replays scheduled, renamed, reflected, wrote⟩

theorem arrived_accepted {state : World Bool} (traced : Traced sealing state) {index : Nat}
    {host : Bool} {messageId : Str} {sender recipient : Bool}
    (arrives : arrived state index = some (host, boxed messageId sender recipient)) :
    Accepted sealing state host (boxed messageId sender recipient).stored := by
  obtain ⟨thread, current, rest⟩ := Option.bind_eq_some_iff.mp arrives
  obtain ⟨msg, source, stands⟩ := Option.bind_eq_some_iff.mp rest
  simp only [Option.ite_none_right_eq_some, Option.some.injEq, Prod.mk.injEq] at stands
  obtain ⟨found, rfl, rfl⟩ := stands
  obtain ⟨event, past, adds⟩ := List.exists_of_findSome?_eq_some source
  rw [added_event adds] at past
  exact accepted_of_received traced (List.mem_of_getElem? current) past rfl rfl found

/-- Of all that the run wrote to another node, only the first text was. -/
theorem replayed_sent {state : World Bool} (replayed : Replayed state) {writer reader : Bool}
    {messageId text : Str} (sent : Sent sealing state writer reader messageId text) :
    writer = true ∧ messageId = firstId ∨ writer = reader := by
  obtain ⟨thread, member, rfl, _, writes⟩ := sent
  have named : ∀ one other, sealing.id one = pair.id other → one = other := by decide +kernel
  have among : (thread.node, thread.history.filterMap wrote) ∈ outcome state :=
    List.mem_map_of_mem member
  have written := writes_wrote writes
  rw [replayed.wrote] at among
  simp only [List.mem_cons, List.not_mem_nil, or_false, Prod.mk.injEq] at among
  rcases among with ⟨node, past⟩ | ⟨node, past⟩ | ⟨node, past⟩
  · simp only [past, List.mem_singleton, Prod.mk.injEq, reduceCtorEq, and_false, or_false] at written
    exact .inl ⟨node, written.1⟩
  · simp only [past, List.mem_singleton, Prod.mk.injEq, Option.some.injEq, reduceCtorEq,
      and_false, or_false] at written
    exact .inr (node.trans (named _ _ written.2).symm)
  · simp only [past, List.mem_singleton, Prod.mk.injEq, Option.some.injEq, reduceCtorEq,
      and_false, or_false] at written
    exact .inr (node.trans (named _ _ written.2).symm)

/-- The second node shows as the first's a message of an id under which the first wrote
nothing for it, and the first shows as the second's what the second never wrote. -/
theorem box_reused : Ideal sealing.sodium sealing.keys ∧ ∃ state : World Bool,
    Rpc.Reachable sealing.system (Symbolic sealing) ⟨acquainted, [], []⟩ state ∧
    (∃ row, Accepted sealing state false row ∧ row.senderId = sealing.id true ∧
      ∀ text, ¬Sent sealing state true false row.messageId text) ∧
    ∃ row, Accepted sealing state true row ∧ row.senderId = sealing.id false ∧
      ∀ messageId text, ¬Sent sealing state false true messageId text := by
  refine ⟨keyed_ideal, ?_⟩
  obtain ⟨state, run, replayed⟩ := replays_run
  have traced := (sound_run keyed_ideal acquainted (fun _ _ => rfl) run).traced
  refine ⟨state, run, ⟨_, arrived_accepted traced replayed.renamed, by decide +kernel, ?_⟩,
    ⟨_, arrived_accepted traced replayed.reflected, by decide +kernel, ?_⟩⟩
  · intro text sent
    rcases replayed_sent replayed sent with ⟨_, named⟩ | same
    · exact absurd named (by decide +kernel)
    · cases same
  · intro messageId text sent
    rcases replayed_sent replayed sent with ⟨other, _⟩ | same
    · cases other
    · cases same

/-- Still the renamed message is one of the first node's own texts. -/
theorem replayed_authored : ∃ (state : World Bool) (row : Message) (messageId text : Str),
    Accepted sealing state false row ∧ row.plaintext = str "hi" ∧ row.plaintext = cstr text ∧
    (Sent sealing state true false messageId text ∨
      Sent sealing state false true messageId text) := by
  obtain ⟨state, run, replayed⟩ := replays_run
  have traced := (sound_run keyed_ideal acquainted (fun _ _ => rfl) run).traced
  have accepted := arrived_accepted traced replayed.renamed
  have claimed : (boxed (str "x") true false).stored.senderId = sealing.id true := by
    decide +kernel
  obtain ⟨messageId, text, same, sent⟩ := accepted_authored keyed_ideal acquainted
    (fun _ _ => rfl) run accepted claimed
  exact ⟨state, _, messageId, text, accepted, by decide +kernel, same, sent⟩

end Runs
end NoMiddle.Authorship
