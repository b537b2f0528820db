import NoMiddle.Copies
import NoMiddle.Rejection
import NoMiddle.Status

/-! Two nodes on a network that loses requests and answers. The one sends, edits and deletes
direct messages to the other and makes its passes, one thing after another; what the losses
have left undone, a pass without losses does, as long as the answer to a message that was
taken in arrives. -/
namespace NoMiddle.Convergence
open Library Text Crypto DbManager DbViews Node MessageDelivery RetryWorker Handlers Network
open NoMiddle.Sequential (Stores Exchange)
open PassEffect (Kind Flagged)
open Copies

variable {Host : Type} [DecidableEq Host] (network : Deployment Host) (sender recipient : Host)

/-- No answer to a message that was taken in is lost, and no edit is dated with a zero. -/
def Meets (before : Stores Host) (after : Stores Host) :
    (operation : nodeSig.Op) → nodeSig.Res operation → Prop
  | .inl (.call (.updateMessages _ _ (.edit _ _ editedAt))), _ => editedAt ≠ 0
  | .inr request, answer => request.endpoint = .acceptMessage → answer = none → after = before
  | _, _ => True

/-- A step of a program on the sender that meets the condition. -/
def step (operation : nodeSig.Op) (before : Stores Host) (answer : nodeSig.Res operation)
    (after : Stores Host) : Prop :=
  Sequential.step network true sender operation before answer after ∧
    Meets before after operation answer

/-- What the sender does: messages to the recipient, edits, deletes and passes. -/
def Chore : Task → Prop
  | .sendMessage req => ∀ body recipientId, req.body = some body →
      body.s? "recipient_id" = some recipientId → recipientId = network.id recipient
  | .editMessage _ | .deleteMessage _ | .retryPass => True
  | _ => False

/-- The stores after some chores, whatever was lost, as long as the steps are of this kind. -/
inductive Reached (steps : (operation : nodeSig.Op) → Stores Host → nodeSig.Res operation →
    Stores Host → Prop) (start : Stores Host) : Stores Host → Prop where
  | start : Reached steps start start
  | done {before after} (task : Task) (response : Response) (earlier : Reached steps start before)
      (chore : Chore network recipient task)
      (ran : (network.program sender task).Runs steps before response after) :
      Reached steps start after

/-- The recipient is a contact of the sender whose address leads to it and nobody else, and no
message was sent yet. -/
structure Started (start : Stores Host) : Prop where
  apart : sender ≠ recipient
  known : Targets.contactAddress (start sender) (network.id recipient) ≠ []
  routed : ∀ peer, network.routes
    (cutServerAddress (Targets.contactAddress (start sender) (network.id recipient))) peer = true ↔
      peer = recipient
  unsent : (start sender).messages.rows = []
  unreceived : (start recipient).messages.rows = []

/-- The row was given up by the worker. -/
def GivenUp (row : Message) : Prop :=
  row.accepted = 2 ∨ row.editAccepted = 2 ∨ row.deleteAccepted = 2

/-- What was sent is there as it is here, and what was deleted here is not shown there. -/
def Converged (stores : Stores Host) : Prop :=
  ∀ row ∈ (stores sender).messages.rows,
    (row.accepted ≠ messageDeleted → row.accepted = messageDelivered ∧
      ∃ copy, (stores recipient).messages.find row.messageId = some copy ∧
        copy.plaintext = row.plaintext ∧ copy.accepted = messageDelivered ∧
        (row.editedAt ≠ 0 → row.editAccepted = 1 ∧ copy.editedAt = row.editedAt)) ∧
    (row.accepted = messageDeleted → row.deleteAccepted = 1 ∧
      Status.Hidden (stores recipient) row.messageId)

variable {network sender recipient}

/-! Steps that lose no answer to a message which was taken in. -/
section Careful
variable {lossy : Bool} {steps : (operation : nodeSig.Op) → Stores Host → nodeSig.Res operation →
    Stores Host → Prop}

variable (network sender) in
structure Careful (lossy : Bool) (steps : (operation : nodeSig.Op) → Stores Host →
    nodeSig.Res operation → Stores Host → Prop) : Prop where
  sequential : ∀ operation before answer after, steps operation before answer after →
    Sequential.step network lossy sender operation before answer after
  heard : ∀ request before after, steps (.inr request) before none after →
    request.endpoint = .acceptMessage → after = before

theorem careful_step : Careful network sender true (step network sender) where
  sequential _ _ _ _ taken := taken.1
  heard _ _ _ taken kind := taken.2 kind rfl

theorem careful_lossless : Careful network sender false (Sequential.step network false sender) where
  sequential _ _ _ _ taken := taken
  heard := by
    intro request before after exchanged _
    cases exchanged with
    | answerLost peer loses => cases loses
    | unreached fails => rfl

/-- Since the given state, the row and its copy have become these, and nothing else has
changed that matters. -/
structure Moved (sender recipient : Host) (before : Stores Host) (id : Str) (row copy : Option Message)
    (after : Stores Host) : Prop where
  contacts : (after sender).contacts = (before sender).contacts
  row : (after sender).messages.find id = row
  copy : (after recipient).messages.find id = copy
  others : ∀ other, other ≠ id →
    (after sender).messages.find other = (before sender).messages.find other ∧
    (after recipient).messages.find other = (before recipient).messages.find other

variable {before stores after : Stores Host} {id : Str} {row copy : Option Message}

omit [DecidableEq Host] in
theorem Moved.start (found : (stores sender).messages.find id = row) :
    Moved sender recipient stores id row ((stores recipient).messages.find id) stores :=
  ⟨rfl, found, rfl, fun _ _ => ⟨rfl, rfl⟩⟩

/-- A call of the sender, described by what it does to the rows. -/
theorem Moved.call (db : Call) (now : Int) (apart : sender ≠ recipient)
    (moved : Moved sender recipient before id row copy stores)
    (contacts : (db.exec now (stores sender)).2.contacts = (stores sender).contacts)
    (others : ∀ other, other ≠ id → ∀ there, (∀ found, there = some found → found.messageId = other) →
      onMessage now other db there = there) :
    Moved sender recipient before id (onMessage now id db row) copy
      (Function.update stores sender (db.exec now (stores sender)).2) where
  contacts := by
    rw [Function.update_self, contacts]
    exact moved.contacts
  row := by
    rw [Function.update_self, messages_exec, moved.row]
  copy := by
    rw [Function.update_of_ne apart.symm]
    exact moved.copy
  others other elsewhere := by
    obtain ⟨here, there⟩ := moved.others other elsewhere
    rw [Function.update_self, Function.update_of_ne apart.symm, messages_exec, here]
    exact ⟨others other elsewhere _ fun _ found => (before sender).messages.find_key found, there⟩

/-- What the recipient makes of a request. -/
theorem Moved.served {kind : Kind} {current : Message} {response : Response} {desk : Solo.Desk}
    (apart : sender ≠ recipient) (moved : Moved sender recipient before id row copy stores)
    (key : current.messageId = id)
    (takes : Takes kind current (stores recipient) response desk.store) :
    Moved sender recipient before id row (served current kind copy)
      (Function.update stores recipient desk.store) where
  contacts := by
    rw [Function.update_of_ne apart]
    exact moved.contacts
  row := by
    rw [Function.update_of_ne apart]
    exact moved.row
  copy := by
    rw [Function.update_self, takes.2, if_pos key.symm, moved.copy]
  others other elsewhere := by
    obtain ⟨here, there⟩ := moved.others other elsewhere
    rw [Function.update_self, Function.update_of_ne apart, takes.2, if_neg (key ▸ elsewhere)]
    exact ⟨here, there⟩

variable {Value : Type} {post : Value → Stores Host → Prop}

theorem wp_perform (careful : Careful network sender lossy steps) {operation : LocalOp}
    {rest : operation.Res → Proc Value}
    (later : ∀ input, steps (.inl operation) stores (handle input operation (stores sender)).1
        (Function.update stores sender (handle input operation (stores sender)).2) →
      (rest (handle input operation (stores sender)).1).wp (.demonic steps) post
        (Function.update stores sender (handle input operation (stores sender)).2)) :
    (perform operation >>= rest).wp (.demonic steps) post stores := by
  rintro answer after taken
  obtain ⟨input, handled, own⟩ := careful.sequential _ _ _ _ taken
  have outcome := later input
  rw [handled] at outcome
  rw [own] at taken ⊢
  exact outcome taken

/-- An operation that leaves the store alone. -/
theorem wp_read (careful : Careful network sender lossy steps) {operation : LocalOp}
    {rest : operation.Res → Proc Value}
    (reads : ∀ input, (handle input operation (stores sender)).2 = stores sender)
    (later : ∀ input, (rest (handle input operation (stores sender)).1).wp (.demonic steps) post
      stores) :
    (perform operation >>= rest).wp (.demonic steps) post stores := by
  refine wp_perform careful fun input taken => ?_
  rw [reads input, Function.update_eq_self]
  exact later input

theorem wp_call (careful : Careful network sender lossy steps) {db : Call}
    {rest : db.Res → Proc Value}
    (later : ∀ now, (rest (db.exec now (stores sender)).1).wp (.demonic steps) post
      (Function.update stores sender (db.exec now (stores sender)).2)) :
    (call db >>= rest).wp (.demonic steps) post stores :=
  wp_perform careful fun input _ => later input.now

theorem wp_generateUuid (careful : Careful network sender lossy steps) {rest : Str → Proc Value}
    (later : ∀ dice, (rest (uuidOf dice)).wp (.demonic steps) post stores) :
    (generateUuid >>= rest).wp (.demonic steps) post stores :=
  wp_read careful (fun _ => rfl) fun input => later input.dice

theorem wp_time (careful : Careful network sender lossy steps) {rest : Int → Proc Value}
    (later : ∀ now, (rest now).wp (.demonic steps) post stores) :
    (time >>= rest).wp (.demonic steps) post stores :=
  wp_read careful (fun _ => rfl) fun input => later input.now

theorem wp_encrypt (careful : Careful network sender lossy steps) {sodium : Sodium}
    {plaintext party key : Str} {rest : Option Str → Proc Value}
    (later : ∀ nonce : Str, nonce.length = nonceBytes →
      (rest (encryptMessage sodium nonce plaintext party key)).wp (.demonic steps) post stores) :
    (encrypt sodium plaintext party key >>= rest).wp (.demonic steps) post stores :=
  wp_read careful (fun _ => rfl) fun _ => later _ ((List.length_map ..).trans List.length_range)

theorem wp_getMessage (careful : Careful network sender lossy steps) {messageId : Str}
    {rest : Option Message → Proc Value}
    (later : (rest ((stores sender).messages.find (cstr messageId))).wp (.demonic steps) post stores) :
    (call (.getMessage messageId) >>= rest).wp (.demonic steps) post stores :=
  wp_read careful (fun _ => rfl) fun _ => later

/-- A mark on the row. -/
theorem wp_mark (careful : Careful network sender lossy steps) (apart : sender ≠ recipient)
    {current : Message} {messageId : Str} {only : Option Str} {mark : Mark}
    {rest : Bool → Proc Value}
    (moved : Moved sender recipient before id (some current) copy stores)
    (hit : addressed messageId only current = true)
    (later : ∀ now after, steps (.inl (.call (.updateMessages messageId only mark))) stores true
        after → Moved sender recipient before id (some (mark.set now current)) copy after →
      (rest true).wp (.demonic steps) post after) :
    (call (.updateMessages messageId only mark) >>= rest).wp (.demonic steps) post stores := by
  have key := (stores sender).messages.find_key moved.row
  have named : cstr messageId = id := by
    rw [← key]
    exact (of_decide_eq_true (Bool.and_eq_true_iff.mp hit).1).symm
  refine wp_perform careful fun input taken => later input.now _ taken ?_
  have marked := moved.call (.updateMessages messageId only mark) input.now apart rfl
    fun other elsewhere there keyed => by
      cases there with
      | none => rfl
      | some found =>
          have apart' : found.messageId ≠ cstr messageId := by
            rw [keyed found rfl, named]
            exact elsewhere
          simp [onMessage, addressed, apart']
  simp only [onMessage, Option.map_some, hit, ↓reduceIte] at marked
  exact marked

theorem wp_send (careful : Careful network sender lossy steps) {serverAddress : Str}
    {endpoint : Endpoint} {body : Json} {rest : Option Nat → Proc Value}
    (later : ∀ answer after, Exchange network lossy ⟨serverAddress, endpoint, body⟩ stores answer
        after → (answer = none → endpoint = .acceptMessage → after = stores) →
      (rest (answer.map (·.code))).wp (.demonic steps) post after) :
    (sendMessage serverAddress endpoint body >>= rest).wp (.demonic steps) post stores := by
  rintro answer after taken
  refine later answer after (careful.sequential _ _ _ _ taken) ?_
  rintro rfl message
  exact careful.heard _ _ _ taken message

/-- The address leads to the recipient and nobody else. -/
def Leads (network : Deployment Host) (recipient : Host) (serverAddress : Str) : Prop :=
  ∀ peer, network.routes serverAddress peer = true ↔ peer = recipient

/-- A request about the row, and what becomes of it. -/
theorem wp_attempt (careful : Careful network sender lossy steps) (apart : sender ≠ recipient)
    (kind : Kind) {current : Message} {serverAddress : Str} {body : Json}
    {rest : Option Nat → Proc Value}
    (moved : Moved sender recipient before id row copy stores) (key : current.messageId = id)
    (direct : Direct network sender recipient current)
    (author : ∀ there, copy = some there → there.senderId = network.id sender)
    (leads : Leads network recipient serverAddress)
    (tells : Tells network sender recipient kind current ⟨serverAddress, kind.endpoint, body⟩)
    (later : ∀ result copy' after, Attempt lossy kind current copy (delivered result) copy' →
      Moved sender recipient before id row copy' after →
      (rest result).wp (.demonic steps) post after) :
    (sendMessage serverAddress kind.endpoint body >>= rest).wp (.demonic steps) post stores := by
  have takes : ∀ peer response desk, network.routes serverAddress peer = true →
      Solo.Runs (network.serve peer ⟨serverAddress, kind.endpoint, body⟩) ⟨stores peer, []⟩
        response desk →
      peer = recipient ∧ Takes kind current (stores recipient) response desk.store := by
    intro peer response desk routed ran
    have same := (leads peer).mp routed
    subst same
    have own : ∀ there, (stores peer).messages.find current.messageId = some there →
        there.senderId = network.id sender := by
      rw [key, moved.copy]
      exact author
    exact ⟨rfl, (Program.wp_demonic_iff Solo.step _ _ _).mp
      (serve_takes direct tells own) response desk ran⟩
  apply wp_send careful
  intro answer after exchanged heard
  cases exchanged with
  | @served peer response desk routed ran =>
      obtain ⟨rfl, took⟩ := takes peer response desk routed ran
      refine later (some response.code) _ _ ?_ (moved.served apart key took)
      have code : delivered (some response.code) = granted kind copy := by
        have told := took.1
        rw [key, moved.copy] at told
        rw [Bool.eq_iff_iff, ← told]
        simp [delivered]
      rw [code]
      exact .answered
  | @answerLost peer response desk loses routed ran =>
      obtain ⟨rfl, took⟩ := takes peer response desk routed ran
      have served := moved.served apart key took
      by_cases message : kind = .message
      · have same := heard rfl (congrArg Kind.endpoint message)
        rw [same] at served ⊢
        exact later none _ _ (.lost loses) moved
      · exact later none _ _ (.answerLost loses message) served
  | unreached fails =>
      rcases fails with loses | nowhere
      · exact later none _ _ (.lost loses) moved
      · exact absurd ((leads recipient).mpr rfl) (Bool.eq_false_iff.mp (nowhere recipient))

/-- The sender reaches the recipient at this address. -/
structure Reaches (network : Deployment Host) (sender recipient : Host) (serverAddress : Str)
    (stores : Stores Host) : Prop where
  known : Targets.contactAddress (stores sender) (network.id recipient) = serverAddress
  nonempty : serverAddress ≠ []
  leads : Leads network recipient (cutServerAddress serverAddress)

omit [DecidableEq Host] in
theorem Reaches.moved {serverAddress : Str}
    (reaches : Reaches network sender recipient serverAddress before)
    (contacts : (after sender).contacts = (before sender).contacts) :
    Reaches network sender recipient serverAddress after := by
  refine ⟨?_, reaches.nonempty, reaches.leads⟩
  rw [← reaches.known]
  simp only [Targets.contactAddress, Call.exec, contacts]

theorem wp_getContactAddress (careful : Careful network sender lossy steps)
    {serverAddress recipientId : Str} {rest : Str → Proc Value}
    (reaches : Reaches network sender recipient serverAddress stores)
    (party : recipientId = network.id recipient)
    (later : (rest serverAddress).wp (.demonic steps) post stores) :
    (call (.getContactAddress recipientId) >>= rest).wp (.demonic steps) post stores := by
  refine wp_read careful (fun _ => rfl) fun input => ?_
  rw [show (handle input (.call (.getContactAddress recipientId)) (stores sender)).1 =
    serverAddress from party ▸ reaches.known]
  exact later

/-- An attempt to the contact's address. -/
theorem wp_delivery (careful : Careful network sender lossy steps) (apart : sender ≠ recipient)
    (kind : Kind) {current : Message} {serverAddress recipientId messageId : Str}
    {only : Option Str} {body : Json} {post : Bool → Stores Host → Prop}
    (party : recipientId = network.id recipient)
    (reaches : Reaches network sender recipient serverAddress stores)
    (moved : Moved sender recipient before id (some current) copy stores)
    (direct : Direct network sender recipient current)
    (author : ∀ there, copy = some there → there.senderId = network.id sender)
    (tells : Tells network sender recipient kind current
      ⟨cutServerAddress serverAddress, kind.endpoint, body⟩)
    (hit : addressed messageId only current = true)
    (later : ∀ success copy' t after, Attempt lossy kind current copy success copy' →
      Moved sender recipient before id (some (marked t kind success current)) copy' after →
      post success after) :
    (do
      let serverAddress ← call (.getContactAddress recipientId)
      if serverAddress.isEmpty then return false
      let result ← sendMessage (cutServerAddress serverAddress) kind.endpoint body
      if delivered result then (do let _ ← call (.updateMessages messageId only kind.done))
      return delivered result : Proc Bool).wp (.demonic steps) post stores := by
  have key := (stores sender).messages.find_key moved.row
  apply wp_getContactAddress careful reaches party
  have nonempty : ¬serverAddress.isEmpty = true := fun empty =>
    reaches.nonempty (List.isEmpty_iff.mp empty)
  simp only [nonempty, Bool.false_eq_true, if_false]
  apply wp_attempt careful apart kind moved key direct author reaches.leads tells
  intro result copy' middle attempt attempted
  by_cases fine : delivered result = true
  · rw [fine] at attempt ⊢
    refine wp_mark careful apart attempted hit fun now after _ done => ?_
    exact later true copy' now after attempt done
  · rw [Bool.eq_false_of_not_eq_true fine] at attempt ⊢
    exact later false copy' 0 middle attempt attempted

/-- An attempt that may be the last. -/
theorem wp_last (careful : Careful network sender lossy steps) (apart : sender ≠ recipient)
    {kind : Kind} {current : Message} {messageId : Str} {attempt : Proc Bool} {old : Prop}
    [Decidable old] (t : Int) (late : old ↔ kind.late t current)
    (hit : addressed messageId none current = true)
    (attempted : attempt.wp (.demonic steps) (fun success after => ∃ copy' t,
      Attempt lossy kind current copy success copy' ∧
      Moved sender recipient before id (some (marked t kind success current)) copy' after) stores) :
    (do if !(← attempt) then
          if old then (do let _ ← call (.updateMessages messageId none kind.failed)) :
        Proc Unit).wp (.demonic steps) (fun _ after => ∃ success copy',
      Attempt lossy kind current copy success copy' ∧
      Moved sender recipient before id (some (kind.settle t success current)) copy' after)
      stores := by
  refine Program.wp_seq (Contract.demonic_monotone _) _ _ _ attempted ?_
  rintro success middle ⟨copy', t', attempt, moved⟩
  cases success with
  | true =>
      refine ⟨true, copy', attempt, ?_⟩
      have same : marked t' kind true current = kind.settle t true current := by
        cases kind <;> rfl
      exact same ▸ moved
  | false =>
      simp only [Bool.not_false, if_true]
      split
      · next given =>
        refine wp_mark careful apart moved hit fun now after _ done => ⟨false, copy', attempt, ?_⟩
        have same : kind.failed.set now current = kind.settle t false current := by
          rw [Kind.settle, if_neg (by decide), if_pos (late.mp given)]
          cases kind <;> rfl
        exact same ▸ done
      · next young =>
        refine ⟨false, copy', attempt, ?_⟩
        rw [Kind.settle, if_neg (by decide), if_neg (mt late.mpr young)]
        exact moved

omit [DecidableEq Host] in
theorem addressed_row {only : Option Str} (found : (stores sender).messages.find id = some current)
    (party : only = none ∨ only = some current.recipientId) :
    addressed current.messageId only current = true := by
  have clean := (stores sender).messages.find_valid found
  simp only [AllClean, Message.texts, List.forall_mem_cons] at clean
  rcases party with rfl | rfl
  · simp [addressed, cstr_of_clean clean.1]
  · simp [addressed, cstr_of_clean clean.1, cstr_of_clean clean.2.2.1]

/-- The worker's turn for a row it listed before. -/
theorem wp_turn (careful : Careful network sender lossy steps) (apart : sender ≠ recipient)
    {serverAddress : Str} {listed current : Message} (t : Int) (kind : Kind)
    (reaches : Reaches network sender recipient serverAddress stores)
    (moved : Moved sender recipient before id (some current) copy stores)
    (flagged : Flagged listed current) (direct : Direct network sender recipient current)
    (author : ∀ there, copy = some there → there.senderId = network.id sender) :
    (kind.turn t listed).wp (.demonic steps) (fun _ after => ∃ success copy',
      Attempt lossy kind current copy success copy' ∧
      Moved sender recipient before id (some (kind.settle t success current)) copy' after)
      stores := by
  have messageId : current.messageId = listed.messageId := by rw [flagged]
  have recipientId : current.recipientId = listed.recipientId := by rw [flagged]
  have asked : Direct network sender recipient listed := by
    refine direct.same ?_ ?_ ?_ ?_ ?_ <;> rw [flagged]
  have clean := (stores sender).messages.find_valid moved.row
  simp only [AllClean, Message.texts, List.forall_mem_cons] at clean
  have tells : ∀ address, Tells network sender recipient kind current
      ⟨address, kind.endpoint, again listed kind⟩ := fun address =>
    (tells_again kind asked (by rw [← messageId]; exact cstr_of_clean clean.1)).flagged flagged
  have late : kind.late t listed ↔ kind.late t current := flagged.late.symm
  have once : addressed listed.messageId none current = true :=
    messageId ▸ addressed_row moved.row (.inl rfl)
  have both : addressed listed.messageId (some listed.recipientId) current = true :=
    messageId ▸ recipientId ▸ addressed_row moved.row (.inr rfl)
  have attempted : ∀ success copy' t after, Attempt lossy kind current copy success copy' →
      Moved sender recipient before id (some (marked t kind success current)) copy' after →
      ∃ copy' t, Attempt lossy kind current copy success copy' ∧
        Moved sender recipient before id (some (marked t kind success current)) copy' after :=
    fun _ copy' t _ attempt done => ⟨copy', t, attempt, done⟩
  -- Each of the three is an attempt that may be the last.
  cases kind with
  | message =>
      exact wp_last careful apart t late once (wp_delivery careful apart .message asked.recipientId
        reaches moved direct author (tells _) both attempted)
  | edit =>
      exact wp_last careful apart t late once (wp_delivery careful apart .edit asked.recipientId
        reaches moved direct author (tells _) both attempted)
  | delete =>
      exact wp_last careful apart t late once (wp_delivery careful apart .delete asked.recipientId
        reaches moved direct author (tells _) both attempted)

/-- Only the credential check reads the store before the route's own code. -/
theorem wp_authed (careful : Careful network sender lossy steps) (sodium : Sodium)
    (req : HttpRequest) (refused : Response) {rest : Proc Response}
    {post : Response → Stores Host → Prop} (refusal : post refused stores)
    (later : rest.wp (.demonic steps) post stores) :
    (do if !(← isAuthed sodium req) then return refused
        rest).wp (.demonic steps) post stores := by
  have checked : (isAuthed sodium req).wp (.demonic steps) (fun _ after => after = stores)
      stores := by
    unfold isAuthed authenticate
    split
    · rfl
    · refine wp_read careful (fun _ => rfl) fun input => ?_
      split <;> rfl
  refine Program.wp_seq (Contract.demonic_monotone _) _ _ stores checked ?_
  rintro authed _ rfl
  cases authed with
  | true => exact later
  | false => exact refusal

end Careful

/-! The chores keep the rows and their copies linked. -/
section Together
variable {lossy : Bool} {steps : (operation : nodeSig.Op) → Stores Host → nodeSig.Res operation →
    Stores Host → Prop} {serverAddress : Str} {before stores after : Stores Host}

/-- A copy has a row, and a row is linked to its copy. -/
def Paired (network : Deployment Host) (sender recipient : Host) :
    Option Message → Option Message → Prop
  | none, copy => copy = none
  | some row, copy => Linked network sender recipient row copy

structure Together (network : Deployment Host) (sender recipient : Host) (serverAddress : Str)
    (stores : Stores Host) : Prop where
  reaches : Reaches network sender recipient serverAddress stores
  paired : ∀ id, Paired network sender recipient ((stores sender).messages.find id)
    ((stores recipient).messages.find id)

omit [DecidableEq Host] in
theorem Together.moved {id : Str} {row copy : Option Message}
    (together : Together network sender recipient serverAddress before)
    (moved : Moved sender recipient before id row copy after)
    (paired : Paired network sender recipient row copy) :
    Together network sender recipient serverAddress after where
  reaches := together.reaches.moved moved.contacts
  paired other := by
    by_cases here : other = id
    · rw [here, moved.row, moved.copy]
      exact paired
    · obtain ⟨row, copy⟩ := moved.others other here
      rw [row, copy]
      exact together.paired other

omit [DecidableEq Host] in
theorem Together.linked {id : Str} {row : Message}
    (together : Together network sender recipient serverAddress stores)
    (found : (stores sender).messages.find id = some row) :
    Linked network sender recipient row ((stores recipient).messages.find id) := by
  have paired := together.paired id
  rw [found] at paired
  exact paired

variable (careful : Careful network sender lossy steps) (apart : sender ≠ recipient)
include careful apart

theorem deliverMessageEdit_together {id messageId recipientId ciphertext : Str} {current : Message}
    {copy : Option Message} {editedAt : Int} (party : recipientId = network.id recipient)
    (together : Together network sender recipient serverAddress before)
    (moved : Moved sender recipient before id (some current) copy stores)
    (linked : Linked network sender recipient current copy)
    (key : cstr messageId = current.messageId) (box : current.ciphertext = ciphertext)
    (time : current.editedAt = editedAt) :
    (deliverMessageEdit messageId (network.id sender) recipientId ciphertext editedAt).wp
      (.demonic steps)
      (fun _ after => Together network sender recipient serverAddress after) stores := by
  have hit : addressed messageId none current = true := by simp [addressed, key]
  refine wp_delivery careful apart .edit party (together.reaches.moved moved.contacts) moved linked.direct
    linked.author ?_ hit fun success copy' t after attempt attempted => ?_
  · exact {
      endpoint := rfl
      messageId := ⟨_, rfl, key⟩
      senderId := rfl
      recipientId := congrArg some party
      sealedText _ := congrArg some box.symm
      timestamp other := absurd other (by decide)
      groupId other := absurd other (by decide)
      editedAt _ := congrArg some time.symm }
  · exact together.moved attempted (linked.edit attempt)

theorem deliverMessageDelete_together {id messageId recipientId : Str} {current : Message}
    {copy : Option Message} (party : recipientId = network.id recipient) (together : Together network sender recipient serverAddress before)
    (moved : Moved sender recipient before id (some current) copy stores)
    (linked : Linked network sender recipient current copy)
    (key : cstr messageId = current.messageId) (deleted : current.accepted = 3) :
    (deliverMessageDelete messageId (network.id sender) recipientId).wp (.demonic steps)
      (fun _ after => Together network sender recipient serverAddress after) stores := by
  have hit : addressed messageId none current = true := by simp [addressed, key]
  refine wp_delivery careful apart .delete party (together.reaches.moved moved.contacts) moved linked.direct
    linked.author ?_ hit fun success copy' t after attempt attempted => ?_
  · exact {
      endpoint := rfl
      messageId := ⟨_, rfl, key⟩
      senderId := rfl
      recipientId := congrArg some party
      sealedText other := absurd rfl other
      timestamp other := absurd other (by decide)
      groupId other := absurd other (by decide)
      editedAt other := absurd other (by decide) }
  · exact together.moved attempted (linked.delete deleted attempt)

theorem editDirect_together
    (correct : network.sodium.Correct (network.keys sender) (network.keys recipient))
    (dated : ∀ messageId only plaintext ciphertext editedAt before answer after,
      steps (.inl (.call (.updateMessages messageId only (.edit plaintext ciphertext editedAt))))
        before answer after → editedAt ≠ 0)
    (together : Together network sender recipient serverAddress stores) (req : HttpRequest) :
    (editDirect network.sodium (network.keys sender) req).wp (.demonic steps)
      (fun _ after => Together network sender recipient serverAddress after) stores := by
  refine wp_authed careful network.sodium req _ together ?_
  rcases req.body with _ | dataJson
  · exact together
  dsimp only
  rcases dataJson.hasAll? ["message_id", "text"] with _ | _ | _
  · exact together
  · exact together
  rcases dataJson.s? "message_id" with _ | messageId
  · exact together
  rcases dataJson.s? "text" with _ | plaintext
  · exact together
  simp only [Bool.not_true, Bool.false_eq_true, if_false]
  apply wp_getMessage careful
  rcases there : (stores sender).messages.find (cstr messageId) with _ | msg
  · exact together
  have key := ((stores sender).messages.find_key there).symm
  have linked := together.linked there
  dsimp only
  split
  · exact together
  apply wp_encrypt careful
  intro nonce size
  rcases encrypted : encryptMessage network.sodium nonce plaintext msg.recipientId
    (network.keys sender).privateKeyB64 with _ | ciphertext
  · exact together
  apply wp_time careful
  intro editedAt
  refine wp_mark careful apart (.start there) (by simp [addressed, key])
    fun now middle taken moved => ?_
  have direct : Direct network sender recipient
      (Mark.set now msg (.edit plaintext ciphertext editedAt)) := by
    rw [linked.direct.recipientId] at encrypted
    refine ⟨linked.direct.senderId, linked.direct.recipientId, linked.direct.groupId, plaintext, ?_,
      rfl⟩
    simp only [Mark.set, cstr_of_clean (encryptMessage_clean encrypted).1]
    exact decrypt_encrypt correct size encrypted
  have edited := linked.edited direct rfl rfl (dated _ _ _ _ _ _ _ _ taken) rfl
  refine Program.wp_seq (Contract.demonic_monotone _) _ _ _
    (deliverMessageEdit_together careful apart linked.direct.recipientId together moved edited key
      (cstr_of_clean (encryptMessage_clean encrypted).1) rfl)
    fun _ after kept => ?_
  exact wp_read careful (fun _ => rfl) fun _ => kept

theorem deleteDirect_together
    (together : Together network sender recipient serverAddress stores) (req : HttpRequest) :
    (deleteDirect network.sodium (network.keys sender) req).wp (.demonic steps)
      (fun _ after => Together network sender recipient serverAddress after) stores := by
  refine wp_authed careful network.sodium req _ together ?_
  rcases req.body with _ | dataJson
  · exact together
  dsimp only
  rcases dataJson.hasAll? ["message_id"] with _ | _ | _
  · exact together
  · exact together
  rcases dataJson.s? "message_id" with _ | messageId
  · exact together
  simp only [Bool.not_true, Bool.false_eq_true, if_false]
  apply wp_getMessage careful
  rcases there : (stores sender).messages.find (cstr messageId) with _ | msg
  · exact together
  have key := ((stores sender).messages.find_key there).symm
  have linked := together.linked there
  dsimp only
  split
  · exact together
  refine wp_mark careful apart (.start there) (by simp [addressed, key]) fun now middle _ moved => ?_
  refine wp_mark careful apart moved (by simp [addressed, key, Mark.set])
    fun later middle _ moved => ?_
  refine Program.wp_seq (Contract.demonic_monotone _) _ _ _
    (deliverMessageDelete_together careful apart linked.direct.recipientId together moved (linked.deleted later) key rfl)
    fun _ after kept => ?_
  exact wp_read careful (fun _ => rfl) fun _ => kept

omit careful in
/-- A message that is stored under a new id. -/
theorem Moved.inserted (msg : Message) (now : Int) (clean : Clean msg.messageId) :
    Moved sender recipient stores msg.messageId
      (((stores sender).messages.find msg.messageId).or (some msg.stored))
      ((stores recipient).messages.find msg.messageId)
      (Function.update stores sender ((Call.addMessage msg).exec now (stores sender)).2) := by
  have moved : Moved sender recipient stores msg.messageId
      (onMessage now msg.messageId (.addMessage msg) ((stores sender).messages.find msg.messageId))
      ((stores recipient).messages.find msg.messageId)
      (Function.update stores sender ((Call.addMessage msg).exec now (stores sender)).2) := by
    refine Moved.call (.addMessage msg) now apart (.start rfl) rfl fun other elsewhere there _ => ?_
    have missed : cstr msg.messageId ≠ other := by
      rw [cstr_of_clean clean]
      exact Ne.symm elsewhere
    simp [onMessage, missed]
  simpa only [onMessage, cstr_of_clean clean, if_true] using moved

/-- The first attempt for a message that was just stored. -/
theorem firstAttempt_together {msg : Message}
    (together : Together network sender recipient serverAddress before)
    (moved : Moved sender recipient before msg.messageId (some msg.stored) none stores)
    (linked : Linked network sender recipient msg.stored none) (pending : msg.accepted = 0)
    (clean : Clean msg.messageId) (party : msg.recipientId = network.id recipient) {body : Json}
    (tells : Tells network sender recipient .message msg.stored
      ⟨cutServerAddress serverAddress, .acceptMessage, body⟩) :
    (do
      let serverAddress ← call (.getContactAddress msg.recipientId)
      let result ← sendMessage (cutServerAddress serverAddress) .acceptMessage body
      if delivered result then
        markAccepted msg.messageId msg.recipientId
        return some msg.messageId
      else
        return none : Proc (Option Str)).wp (.demonic steps)
      (fun _ after => Together network sender recipient serverAddress after) stores := by
  have reaches := together.reaches.moved moved.contacts
  apply wp_getContactAddress careful reaches party
  refine wp_attempt careful apart .message moved (cstr_of_clean clean) linked.direct linked.author
    reaches.leads tells fun result copy after attempt attempted => ?_
  by_cases fine : delivered result = true
  · rw [fine] at attempt
    simp only [fine, if_true]
    have hit : addressed msg.messageId (some msg.recipientId) msg.stored = true := by
      simp [addressed, Message.stored]
    refine wp_mark careful apart attempted hit fun later after _ done => ?_
    have kept : Linked network sender recipient (marked later .message true msg.stored) copy :=
      linked.message pending attempt
    exact together.moved done kept
  · rw [Bool.eq_false_of_not_eq_true fine] at attempt
    simp only [fine, Bool.false_eq_true, if_false]
    have kept : Linked network sender recipient (marked 0 .message false msg.stored) copy :=
      linked.message pending attempt
    exact together.moved attempted kept

theorem deliverMessage_together {ciphertext plaintext : Str} (timestamp : Int)
    (together : Together network sender recipient serverAddress stores)
    (opens : decryptMessage network.sodium ciphertext (network.id sender)
      (network.keys recipient).privateKeyB64 = some plaintext) :
    (deliverMessage (network.id sender) (network.id recipient) ciphertext plaintext timestamp).wp
      (.demonic steps)
      (fun _ after => Together network sender recipient serverAddress after) stores := by
  apply wp_generateUuid careful
  intro dice
  have clean := uuid_clean dice
  let msg : Message := ⟨uuidOf dice, network.id sender, network.id recipient, [], plaintext,
    ciphertext, 0, timestamp, 0, 0, 1, 0⟩
  apply wp_call careful
  intro now
  have moved : Moved sender recipient stores (uuidOf dice)
      (((stores sender).messages.find (uuidOf dice)).or (some msg.stored))
      ((stores recipient).messages.find (uuidOf dice))
      (Function.update stores sender ((Call.addMessage msg).exec now (stores sender)).2) :=
    Moved.inserted apart msg now clean
  have paired := together.paired (uuidOf dice)
  cases found : (stores sender).messages.find (uuidOf dice) with
  | some old =>
      -- A taken id fails the insert and nothing is sent.
      have refused : ((Call.addMessage msg).exec now (stores sender)).1 = false := by
        simp [Call.exec, Table.has, msg, cstr_of_clean clean, found]
      simp only [msg] at refused
      simp only [refused]
      rw [found] at moved paired
      exact together.moved moved paired
  | none =>
      have added : ((Call.addMessage msg).exec now (stores sender)).1 = true := by
        simp [Call.exec, Table.has, msg, cstr_of_clean clean, found]
      simp only [msg] at added
      simp only [added]
      rw [found] at moved paired
      have absent : (stores recipient).messages.find (uuidOf dice) = none := paired
      rw [absent] at moved
      have direct : Direct network sender recipient msg.stored := stored_direct rfl rfl rfl opens
      have linked : Linked network sender recipient msg.stored none := linked_new direct rfl rfl rfl
      refine firstAttempt_together careful apart together moved linked rfl clean rfl ?_
      exact {
        endpoint := rfl
        messageId := ⟨_, rfl, rfl⟩
        senderId := rfl
        recipientId := rfl
        sealedText _ := congrArg some (cstr_of_clean (decryptMessage_clean opens).1).symm
        timestamp _ := rfl
        groupId _ := rfl
        editedAt other := absurd other (by decide) }

theorem sendDirect_together
    (correct : network.sodium.Correct (network.keys sender) (network.keys recipient))
    (together : Together network sender recipient serverAddress stores) {req : HttpRequest}
    (chore : Chore network recipient (.sendMessage req)) :
    (sendDirect network.sodium (network.keys sender) req).wp (.demonic steps)
      (fun _ after => Together network sender recipient serverAddress after) stores := by
  refine wp_authed careful network.sodium req _ together ?_
  rcases body : req.body with _ | dataJson
  · exact together
  dsimp only
  rcases dataJson.hasAll? ["recipient_id", "text"] with _ | _ | _
  · exact together
  · exact together
  rcases party : dataJson.s? "recipient_id" with _ | recipientId
  · exact together
  rcases dataJson.s? "text" with _ | plaintext
  · exact together
  simp only [Bool.not_true, Bool.false_eq_true, if_false]
  apply wp_time careful
  intro timestamp
  apply wp_encrypt careful
  intro nonce size
  rcases encrypted : encryptMessage network.sodium nonce plaintext recipientId
    (network.keys sender).privateKeyB64 with _ | ciphertext
  · exact together
  have same := chore dataJson recipientId body party
  subst same
  refine Program.wp_seq (Contract.demonic_monotone _) _ _ _
    (deliverMessage_together careful apart timestamp together
      (decrypt_encrypt correct size encrypted)) fun delivered after kept => ?_
  cases delivered with
  | none => exact kept
  | some messageId => exact wp_read careful (fun _ => rfl) fun _ => kept

end Together

/-! Group updates on their way concern neither messages nor contacts. -/
section Aside
variable {lossy : Bool} {steps : (operation : nodeSig.Op) → Stores Host → nodeSig.Res operation →
    Stores Host → Prop} {stores after : Stores Host}

def Aside (before after : Stores Host) : Prop :=
  ∀ host, (after host).messages = (before host).messages ∧
    (after host).contacts = (before host).contacts

theorem acceptGroupUpdate_aside (body : Option Json) (desk : Solo.Desk) :
    (acceptGroupUpdate body).wp Solo.contract (fun _ after =>
      after.store.messages = desk.store.messages ∧ after.store.contacts = desk.store.contacts)
      desk := by
  rcases Rejection.accept_cases body with ⟨_, response, _, refused⟩ | ⟨read, _, goesOn⟩
  · rw [refused]
    exact ⟨rfl, rfl⟩
  · rw [goesOn, Rejection.recordGroup_iff]
    intro createdAt
    rw [Rejection.storeMembers_iff]
    split
    · exact ⟨rfl, rfl⟩
    · exact fun members _ => ⟨rfl, rfl⟩

theorem Aside.update {host : Host} {store : Store} (aside : Aside stores after)
    (messages : store.messages = (after host).messages)
    (contacts : store.contacts = (after host).contacts) :
    Aside stores (Function.update after host store) := by
  intro other
  by_cases same : other = host
  · subst same
    rw [Function.update_self, messages, contacts]
    exact aside other
  · rw [Function.update_of_ne same]
    exact aside other

theorem retryPendingGroupUpdate_aside (careful : Careful network sender lossy steps)
    (u : GroupUpdate) (aside : Aside stores after) :
    (retryPendingGroupUpdate u).wp (.demonic steps) (fun _ => Aside stores) after := by
  unfold retryPendingGroupUpdate retryGroupUpdate
  rw [Program.wp_bind]
  refine wp_read careful (fun _ => rfl) fun input => ?_
  split
  · exact aside
  apply wp_send careful
  intro answer middle exchanged _
  have kept : Aside stores middle := by
    have serves : ∀ peer response desk serverAddress, Solo.Runs (network.serve peer
        ⟨serverAddress, .acceptGroupUpdate, u.snapshotJson⟩) ⟨after peer, []⟩ response desk →
        Aside stores (Function.update after peer desk.store) := by
      intro peer response desk serverAddress ran
      have told := acceptGroupUpdate_aside (some u.snapshotJson) ⟨after peer, []⟩
      obtain ⟨messages, contacts⟩ :=
        (Program.wp_demonic_iff Solo.step _ _ _).mp told response desk ran
      exact aside.update messages contacts
    cases exchanged with
    | served peer routed ran => exact serves _ _ _ _ ran
    | answerLost peer loses routed ran => exact serves _ _ _ _ ran
    | unreached fails => exact aside
  dsimp only
  split
  · exact wp_call careful fun now => kept.update rfl rfl
  · exact kept

end Aside

/-! One pass of the worker. Its lists hold rows as old as their queries; the turns of one
loop leave to the others what they listed. -/
section Pass
variable {lossy : Bool} {steps : (operation : nodeSig.Op) → Stores Host → nodeSig.Res operation →
    Stores Host → Prop} {serverAddress : Str} {stores after : Stores Host}
  {rest : Kind → List Message}

/-- The stores, while these rows still wait for their turns. -/
structure Passing (network : Deployment Host) (sender recipient : Host) (serverAddress : Str)
    (lossy : Bool) (rest : Kind → List Message) (stores : Stores Host) : Prop where
  together : Together network sender recipient serverAddress stores
  listed : ∀ kind, ∀ m ∈ rest kind, ∃ row,
    (stores sender).messages.find m.messageId = some row ∧ Flagged m row ∧ Due kind row
  once : ∀ kind, ((rest kind).map (·.messageId)).Nodup
  spared : lossy = false → ∀ id row, (stores sender).messages.find id = some row → Spared row
  owed : lossy = false → ∀ id row, (stores sender).messages.find id = some row →
    ∀ kind, Owes kind row → ∃ m ∈ rest kind, m.messageId = id

omit [DecidableEq Host] in
theorem Passing.aside (passing : Passing network sender recipient serverAddress lossy rest stores)
    (aside : Aside stores after) :
    Passing network sender recipient serverAddress lossy rest after := by
  have same : ∀ host, (after host).messages = (stores host).messages := fun host => (aside host).1
  exact {
    together := by
      refine ⟨passing.together.reaches.moved (aside sender).2, ?_⟩
      rw [same, same]
      exact passing.together.paired
    listed := by
      rw [same]
      exact passing.listed
    once := passing.once
    spared := by
      rw [same]
      exact passing.spared
    owed := by
      rw [same]
      exact passing.owed }

/-- The first row of a list has its turn. -/
structure Turned (sender recipient : Host) (lossy : Bool) (rest : Kind → List Message) (kind : Kind)
    (m current : Message) (others : List Message) (t : Int) (success : Bool) (copy : Option Message)
    (stores after : Stores Host) : Prop where
  first : rest kind = m :: others
  sent : kind = .edit → rest .message = []
  found : (stores sender).messages.find m.messageId = some current
  flagged : Flagged m current
  due : Due kind current
  attempt : Attempt lossy kind current ((stores recipient).messages.find m.messageId) success copy
  moved : Moved sender recipient stores m.messageId (some (kind.settle t success current)) copy after

section Turn
variable {kind : Kind} {m current : Message} {others : List Message} {t : Int} {success : Bool}
  {copy : Option Message}

omit [DecidableEq Host] in
theorem Turned.unchanged
    (turned : Turned sender recipient lossy rest kind m current others t success copy stores after)
    {id : Str} (elsewhere : id ≠ m.messageId) :
    (after sender).messages.find id = (stores sender).messages.find id :=
  (turned.moved.others id elsewhere).1

omit [DecidableEq Host] in
theorem Turned.listed
    (passing : Passing network sender recipient serverAddress lossy rest stores)
    (turned : Turned sender recipient lossy rest kind m current others t success copy stores after)
    (other : Kind) (n : Message) (member : n ∈ Function.update rest kind others other) :
    ∃ row, (after sender).messages.find n.messageId = some row ∧ Flagged n row ∧ Due other row := by
  have distinct := passing.once kind
  rw [turned.first, List.map_cons, List.nodup_cons] at distinct
  by_cases same : other = kind
  · subst same
    rw [Function.update_self] at member
    have elsewhere : n.messageId ≠ m.messageId := fun equal =>
      distinct.1 (equal ▸ List.mem_map_of_mem member)
    rw [turned.unchanged elsewhere]
    exact passing.listed other n (turned.first ▸ List.mem_cons_of_mem m member)
  · rw [Function.update_of_ne same] at member
    obtain ⟨row, there, alike, later⟩ := passing.listed other n member
    by_cases here : n.messageId = m.messageId
    · -- Another list has the row as well, and that one's turn is still to come.
      rw [here] at there ⊢
      cases turned.found.symm.trans there
      exact ⟨_, turned.moved.row, alike.trans (PassEffect.settle_flagged kind success current),
        turned.due.settle later same⟩
    · rw [turned.unchanged here]
      exact ⟨row, there, alike, later⟩

omit [DecidableEq Host] in
theorem Turned.paid
    (passing : Passing network sender recipient serverAddress lossy rest stores)
    (turned : Turned sender recipient lossy rest kind m current others t success copy stores after)
    (lossless : lossy = false) :
    ¬Owes kind (kind.settle t success current) ∧
      (∀ other, Owes other (kind.settle t success current) → Owes other current) ∧
      Spared (kind.settle t success current) := by
  subst lossless
  refine (passing.together.linked turned.found).paid turned.due (passing.spared rfl _ _ turned.found)
    (fun edit unsent => ?_) turned.attempt
  obtain ⟨n, member, _⟩ := passing.owed rfl _ _ turned.found .message unsent
  rw [turned.sent edit] at member
  cases member

omit [DecidableEq Host] in
theorem Turned.owed
    (passing : Passing network sender recipient serverAddress lossy rest stores)
    (turned : Turned sender recipient lossy rest kind m current others t success copy stores after)
    (lossless : lossy = false) {id : Str} {row : Message}
    (there : (after sender).messages.find id = some row) (other : Kind) (owes : Owes other row) :
    ∃ n ∈ Function.update rest kind others other, n.messageId = id := by
  have paid := turned.paid passing lossless
  by_cases here : id = m.messageId
  · rw [here, turned.moved.row] at there
    cases there
    have apart : other ≠ kind := by
      rintro rfl
      exact paid.1 owes
    rw [here, Function.update_of_ne apart]
    exact passing.owed lossless _ _ turned.found other (paid.2.1 other owes)
  · rw [turned.unchanged here] at there
    obtain ⟨n, member, named⟩ := passing.owed lossless id row there other owes
    refine ⟨n, ?_, named⟩
    by_cases same : other = kind
    · subst same
      rw [turned.first] at member
      rw [Function.update_self]
      rcases List.mem_cons.mp member with rfl | later
      · exact absurd named.symm here
      · exact later
    · rw [Function.update_of_ne same]
      exact member

omit [DecidableEq Host] in
theorem Passing.turn
    (passing : Passing network sender recipient serverAddress lossy rest stores)
    (turned : Turned sender recipient lossy rest kind m current others t success copy stores after) :
    Passing network sender recipient serverAddress lossy (Function.update rest kind others) after where
  together := passing.together.moved turned.moved
    ((passing.together.linked turned.found).settled turned.due turned.attempt)
  listed := turned.listed passing
  once other := by
    have distinct := passing.once kind
    rw [turned.first, List.map_cons, List.nodup_cons] at distinct
    by_cases same : other = kind
    · subst same
      rw [Function.update_self]
      exact distinct.2
    · rw [Function.update_of_ne same]
      exact passing.once other
  spared lossless id row there := by
    by_cases here : id = m.messageId
    · rw [here, turned.moved.row] at there
      cases there
      exact (turned.paid passing lossless).2.2
    · rw [turned.unchanged here] at there
      exact passing.spared lossless id row there
  owed lossless _ _ there := turned.owed passing lossless there

end Turn

omit [DecidableEq Host] in
/-- What the queries list at the start. -/
theorem passing_start (together : Together network sender recipient serverAddress stores)
    (spared : lossy = false → ∀ id row, (stores sender).messages.find id = some row → Spared row) :
    Passing network sender recipient serverAddress lossy
      (fun kind => kind.query.rows (stores sender).messages) stores where
  together := together
  listed kind m member := by
    obtain ⟨found, selected⟩ := (mem_rows _ _ m).mp member
    refine ⟨m, found, rfl, ?_⟩
    cases kind with
    | message =>
        have pending : m.accepted = 0 := of_decide_eq_true selected
        exact pending
    | edit => trivial
    | delete =>
        simp only [Kind.query, Query.selects, Bool.and_eq_true, decide_eq_true_eq] at selected
        exact selected.2
  once kind := rows_nodup _ _
  spared := spared
  owed _ id row found kind owes := by
    have key := (stores sender).messages.find_key found
    subst key
    refine ⟨row, (mem_rows _ _ row).mpr ⟨found, ?_⟩, rfl⟩
    cases kind with
    | message => exact decide_eq_true owes
    | edit => simp [Kind.query, Query.selects, owes.2.1, owes.2.2]
    | delete => simp [Kind.query, Query.selects, owes.1, owes.2]

variable (careful : Careful network sender lossy steps) (apart : sender ≠ recipient)
include careful apart

/-- A whole loop over messages. -/
theorem loop_passing (t : Int) (kind : Kind) {items : List Message} (all : rest kind = items)
    (sent : kind = .edit → rest .message = [])
    (passing : Passing network sender recipient serverAddress lossy rest stores) :
    (items.forM fun m => kind.turn t m).wp (.demonic steps)
      (fun _ after => Passing network sender recipient serverAddress lossy
        (Function.update rest kind []) after) stores := by
  refine Program.wp_forM (Contract.demonic_monotone _) _ (fun others after =>
    Passing network sender recipient serverAddress lossy (Function.update rest kind others) after)
    ?_ items stores (by rwa [← all, Function.update_eq_self])
  intro m others middle passing
  obtain ⟨current, found, flagged, due⟩ :=
    passing.listed kind m (by rw [Function.update_self]; exact List.mem_cons_self)
  have linked := passing.together.linked found
  refine Program.wp_mono (Contract.demonic_monotone _) _ ?_ _ (wp_turn careful apart t kind
    passing.together.reaches (.start found) flagged linked.direct linked.author)
  rintro _ after ⟨success, copy, attempt, moved⟩
  have turned := passing.turn
    ⟨Function.update_self .., fun edit => ?_, found, flagged, due, attempt, moved⟩
  · rwa [Function.update_idem] at turned
  · have other : Kind.message ≠ kind := by
      rw [edit]
      decide
    rw [Function.update_of_ne other]
    exact sent edit

theorem retryPass_passing (together : Together network sender recipient serverAddress stores)
    (spared : lossy = false → ∀ id row, (stores sender).messages.find id = some row → Spared row) :
    retryPass.wp (.demonic steps) (fun _ after => Passing network sender recipient serverAddress
      lossy (fun _ => []) after) stores := by
  have started := passing_start together spared
  unfold retryPass
  refine wp_read careful (fun _ => rfl) fun _ => ?_
  refine wp_read careful (fun _ => rfl) fun _ => ?_
  refine wp_read careful (fun _ => rfl) fun _ => ?_
  refine Program.wp_seq (Contract.demonic_monotone _) _ _ _
    (Program.wp_forM_mem (Contract.demonic_monotone _) _ (Aside stores) _
      (fun u _ middle aside => retryPendingGroupUpdate_aside careful u aside) stores
      fun _ => ⟨rfl, rfl⟩) ?_
  rintro _ told aside
  have passing := started.aside aside
  refine wp_read careful (fun _ => rfl) fun _ => ?_
  apply wp_time careful
  intro t
  refine Program.wp_seq (Contract.demonic_monotone _) _ _ _
    (loop_passing careful apart t .message rfl (absurd · (by decide)) passing) ?_
  rintro _ sent passing
  refine Program.wp_seq (Contract.demonic_monotone _) _ _ _
    (loop_passing careful apart t .edit rfl (fun _ => rfl) passing) ?_
  rintro _ edited passing
  refine Program.wp_mono (Contract.demonic_monotone _) _ ?_ _
    (loop_passing careful apart t .delete ?_ (absurd · (by decide)) passing)
  · rintro _ after passing
    have empty : Function.update (Function.update (Function.update
        (fun kind : Kind => kind.query.rows (stores sender).messages) .message []) .edit []) .delete
        [] = fun _ => [] := by
      funext kind
      cases kind <;> rfl
    exact empty ▸ passing
  · change Query.pendingDeletes.rows (stores sender).messages =
      Query.pendingDeletes.rows (told sender).messages
    rw [(aside sender).1]

end Pass

section Result
variable {start stores : Stores Host}

/-- A step of the run, which meets the condition, keeps what is linked. -/
theorem chore_together {serverAddress : Str} (apart : sender ≠ recipient)
    (correct : network.sodium.Correct (network.keys sender) (network.keys recipient))
    (together : Together network sender recipient serverAddress stores) {task : Task}
    (chore : Chore network recipient task) :
    (network.program sender task).wp (.demonic (step network sender))
      (fun _ after => Together network sender recipient serverAddress after) stores := by
  cases task with
  | sendMessage req => exact sendDirect_together careful_step apart correct together chore
  | deleteMessage req => exact deleteDirect_together careful_step apart together req
  | editMessage req =>
      refine editDirect_together careful_step apart correct ?_ together req
      exact fun _ _ _ _ _ _ _ _ taken => taken.2
  | retryPass =>
      refine Program.wp_seq (Contract.demonic_monotone _) _ _ _
        (retryPass_passing careful_step apart together (absurd · (by decide))) ?_
      exact fun _ after passing => passing.together
  | _ => cases chore

theorem reached_together (started : Started network sender recipient start)
    (correct : network.sodium.Correct (network.keys sender) (network.keys recipient))
    (reached : Reached network sender recipient (step network sender) start stores) :
    Together network sender recipient
      (Targets.contactAddress (start sender) (network.id recipient)) stores := by
  induction reached with
  | start =>
      refine ⟨⟨rfl, started.known, started.routed⟩, fun id => ?_⟩
      have unsent : (start sender).messages.find id = none := by
        simp [Table.find, started.unsent]
      have unreceived : (start recipient).messages.find id = none := by
        simp [Table.find, started.unreceived]
      rw [unsent]
      exact unreceived
  | done task response earlier chore ran ih =>
      exact (Program.wp_demonic_iff _ _ _ _).mp (chore_together started.apart correct ih chore)
        response _ ran

theorem hidden_absent {store : Store} {id : Str} (absent : store.messages.find id = none) :
    Status.Hidden store id := by
  have unlisted : ∀ query : Query, ∀ row ∈ query.rows store.messages, row.messageId ≠ id := by
    rintro query row listed rfl
    cases absent.symm.trans ((mem_rows query store.messages row).mp listed).1
  exact ⟨fun selfId otherId => unlisted _, fun groupId => unlisted _⟩

omit [DecidableEq Host] in
/-- With nothing left to do, both nodes have the same. -/
theorem Passing.converged {serverAddress : Str}
    (passing : Passing network sender recipient serverAddress false (fun _ => []) stores) :
    Converged sender recipient stores := by
  intro row member
  have found := ((stores sender).messages.mem_rows_iff row).mp member
  have linked := passing.together.linked found
  have spared := passing.spared rfl _ _ found
  have paid : ∀ kind, ¬Owes kind row := by
    intro kind owes
    obtain ⟨m, none, _⟩ := passing.owed rfl _ _ found kind owes
    cases none
  have status := linked.status
  have sent : row.accepted ≠ 0 := paid .message
  have accepted := spared.accepted
  constructor
  · intro visible
    have here : row.accepted ≠ 3 := visible
    have delivered : row.accepted = 1 := by omega
    refine ⟨delivered, ?_⟩
    cases copied : (stores recipient).messages.find row.messageId with
    | none => exact absurd delivered (linked.undelivered copied).1
    | some copy =>
        have edited : row.editedAt ≠ 0 → row.editAccepted = 1 := by
          intro dated
          have pending : row.editAccepted ≠ 0 := fun pending => paid .edit ⟨here, pending, dated⟩
          have editStatus := linked.editStatus
          have given := spared.editAccepted here
          omega
        have current : row.editAccepted = 1 ∨ row.editedAt = 0 := by
          by_cases dated : row.editedAt = 0
          · exact .inr dated
          · exact .inl (edited dated)
        obtain ⟨plaintext, editedAt⟩ := linked.current copy copied current
        exact ⟨copy, rfl, plaintext, linked.shown copy copied here,
          fun dated => ⟨edited dated, editedAt⟩⟩
  · intro deleted
    have pending : row.deleteAccepted ≠ 0 := fun pending => paid .delete ⟨deleted, pending⟩
    have deleteStatus := linked.deleteStatus
    have given := spared.deleteAccepted
    have confirmed : row.deleteAccepted = 1 := by omega
    refine ⟨confirmed, ?_⟩
    cases copied : (stores recipient).messages.find row.messageId with
    | none => exact hidden_absent copied
    | some copy => exact Status.hidden_deleted copied (linked.hidden deleted confirmed copy copied)

/-- Whatever was lost, a message that is stored at the recipient is never given up, and a pass
without losses brings the two nodes together. -/
theorem retries_converge (started : Started network sender recipient start)
    (correct : network.sodium.Correct (network.keys sender) (network.keys recipient))
    (reached : Reached network sender recipient (step network sender) start stores) :
    (∀ id row copy, (stores sender).messages.find id = some row →
      (stores recipient).messages.find id = some copy → row.accepted ≠ 2) ∧
    ((∀ row ∈ (stores sender).messages.rows, ¬GivenUp row) →
      ∀ after, retryPass.Runs (Sequential.step network false sender) stores () after →
        Converged sender recipient after) := by
  have together := reached_together started correct reached
  constructor
  · intro id row copy found copied given
    have status := (together.linked found).delivered copy copied
    omega
  · intro kept after ran
    have spared : ∀ id row, (stores sender).messages.find id = some row → Spared row := by
      intro id row found
      have given := kept row ((Table.find_eq_some _ _ _).mp found).1
      exact ⟨fun failed => given (.inl failed), fun _ failed => given (.inr (.inl failed)),
        fun failed => given (.inr (.inr failed))⟩
    have passed := retryPass_passing careful_lossless started.apart together fun _ => spared
    exact ((Program.wp_demonic_iff _ _ _ _).mp passed () after ran).converged

end Result

section Runs
open NoMiddle.Sequential (Fate)

/-- One operation after another, each of which has to meet the condition. -/
def heeded : nodeSig.Op → Fate Host → Bool
  | .inl (.call (.updateMessages _ _ (.edit _ _ editedAt))), _ => editedAt ≠ 0
  | .inr request, .answerLost _ => request.endpoint ≠ .acceptMessage
  | _, _ => true

def exec (network : Deployment Host) (host : Host) {Value : Type} :
    Proc Value → List (Input × Fate Host) → Stores Host → Option (Value × Stores Host)
  | .ret value, _, stores => some (value, stores)
  | .op _ _, [], _ => none
  | .op operation next, drawn :: rest, stores =>
      if heeded operation drawn.2 then
        (Sequential.exec network true host (.op operation .ret) [drawn] stores).bind fun done =>
          exec network host (next done.1) rest done.2
      else none

theorem step_of_exec {operation : nodeSig.Op} {input : Input} {fate : Fate Host}
    {stores after : Stores Host} {answer : nodeSig.Res operation}
    (heeds : heeded operation fate = true)
    (executed : Sequential.exec network true sender (.op operation .ret) [(input, fate)] stores =
      some (answer, after)) : step network sender operation stores answer after := by
  obtain ⟨_, _, taken, rfl, rfl⟩ := Sequential.exec_runs _ _ executed
  refine ⟨taken, ?_⟩
  cases operation with
  | inl operation =>
      cases operation with
      | call call =>
          cases call with
          | updateMessages messageId only mark =>
              cases mark with
              | edit plaintext ciphertext editedAt =>
                  have dated : editedAt ≠ 0 := of_decide_eq_true heeds
                  exact dated
              | _ => trivial
          | _ => trivial
      | _ => trivial
  | inr request =>
      intro message unanswered
      cases fate with
      | served peer =>
          rw [Sequential.exec] at executed
          obtain ⟨⟨response, middle⟩, _, same⟩ := Option.bind_eq_some_iff.mp executed
          cases unanswered.symm.trans (Prod.mk.inj (Option.some.inj same)).1.symm
      | answerLost peer => exact absurd message (of_decide_eq_true heeds)
      | lost =>
          rw [Sequential.exec, if_pos rfl] at executed
          exact (Prod.mk.inj (Option.some.inj executed)).2.symm

theorem exec_runs {Value : Type} (program : Proc Value) (drawn : List (Input × Fate Host))
    {stores after : Stores Host} {value : Value}
    (executed : exec network sender program drawn stores = some (value, after)) :
    program.Runs (step network sender) stores value after := by
  induction program generalizing drawn stores with
  | ret output =>
      simp only [exec, Option.some.injEq, Prod.mk.injEq] at executed
      exact ⟨executed.1.symm, executed.2.symm⟩
  | op operation next ih =>
      rcases drawn with _ | ⟨⟨input, fate⟩, rest⟩
      · simp [exec] at executed
      rw [exec] at executed
      split at executed
      · next heeds =>
        obtain ⟨⟨answer, middle⟩, taken, later⟩ := Option.bind_eq_some_iff.mp executed
        exact ⟨answer, middle, step_of_exec heeds taken, ih answer rest later⟩
      · cases executed

/-- The first node writes to the second. -/
def letter : Task :=
  .sendMessage (userRequest [("recipient_id", .str (pair.id false)), ("text", .str (str "hi"))])

theorem letter_chore : Chore pair false letter := by
  rintro body recipientId ⟨⟩ ⟨⟩
  rfl

theorem pair_started : Started pair true false acquainted where
  apart := by decide
  known := by decide +kernel
  routed := by decide +kernel
  unsent := rfl
  unreceived := rfl

/-- Everything happens at seven, and all requests end like this. -/
def alike (fate : Fate Bool) : List (Input × Fate Bool) := List.replicate 20 (clockAt 7, fate)

/-- The request is lost, and the pass delivers the message. -/
theorem letter_delivered : ∃ (stores after : Stores Bool),
    Reached pair true false (step pair true) acquainted stores ∧
    (stores false).messages.rows.length = 0 ∧
    retryPass.Runs (Sequential.step pair false true) stores () after ∧
    (after true).messages.rows.length = 1 ∧ Converged true false after := by
  have ran : ((exec pair true (pair.program true letter) (alike .lost) acquainted).bind fun sent =>
      (Sequential.exec pair false true retryPass (alike (.served false)) sent.2).map fun done =>
        (sent.2, done.2)).any (fun run =>
          decide ((run.1 true).messages.rows.map (fun row =>
            (row.accepted, row.editAccepted, row.deleteAccepted)) = [(0, 0, 1)]) &&
          decide ((run.1 false).messages.rows.length = 0) &&
          decide ((run.2 true).messages.rows.length = 1)) = true := by
    decide +kernel
  obtain ⟨⟨stores, after⟩, run, facts⟩ := (Option.any_eq_true _ _).mp ran
  obtain ⟨⟨response, sent⟩, executed, rest⟩ := Option.bind_eq_some_iff.mp run
  obtain ⟨⟨_, last⟩, passed, same⟩ := Option.map_eq_some_iff.mp rest
  cases same
  simp only [Bool.and_eq_true, decide_eq_true_eq] at facts
  obtain ⟨⟨flags, none⟩, one⟩ := facts
  have reached : Reached pair true false (step pair true) acquainted sent :=
    .done letter response .start letter_chore (exec_runs _ _ executed)
  have passes := Sequential.exec_runs _ _ passed
  obtain ⟨row, rows, kept⟩ := List.map_eq_singleton_iff.mp flags
  simp only [Prod.mk.injEq] at kept
  refine ⟨sent, last, reached, none, passes, one,
    (retries_converge pair_started (transparent_correct _ _) reached).2 ?_ last passes⟩
  intro other member given
  rw [rows, List.mem_singleton] at member
  subst member
  rcases given with failed | failed | failed <;> omega

/-- The letter is there, but the answer is lost; a pass follows, and another one a day later. -/
def unheard : Option (Stores Bool × Stores Bool × Stores Bool) :=
  (Sequential.exec pair true true (pair.program true letter) (alike (.answerLost false))
    acquainted).bind fun sent =>
      (Sequential.exec pair false true retryPass (alike (.served false)) sent.2).bind fun again =>
        (Sequential.exec pair false true retryPass
          (List.replicate 20 (clockAt 86408, .served false)) again.2).map fun last =>
            (sent.2, again.2, last.2)

/-- The recipient refuses what it has already, so the sender never hears of it and gives the
message up. -/
theorem answer_missed : ∃ (stores after later : Stores Bool),
    Reached pair true false (Sequential.step pair true true) acquainted stores ∧
    (∀ row ∈ (stores true).messages.rows, ¬GivenUp row) ∧
    retryPass.Runs (Sequential.step pair false true) stores () after ∧
    ¬Converged true false after ∧
    retryPass.Runs (Sequential.step pair false true) after () later ∧
    ∃ row copy, (later true).messages.find firstId = some row ∧
      (later false).messages.find firstId = some copy ∧ row.accepted = 2 := by
  have ran : unheard.any (fun run =>
      decide ((run.1 true).messages.rows.map (fun row =>
        (row.accepted, row.editAccepted, row.deleteAccepted)) = [(0, 0, 1)]) &&
      decide ((run.2.1 true).messages.rows.map (·.accepted) = [0]) &&
      decide (((run.2.2 true).messages.find firstId).map (·.accepted) = some 2) &&
      (run.2.2 false).messages.has firstId) = true := by
    decide +kernel
  obtain ⟨⟨stores, after, later⟩, run, facts⟩ := (Option.any_eq_true _ _).mp ran
  obtain ⟨⟨response, sent⟩, executed, rest⟩ := Option.bind_eq_some_iff.mp run
  obtain ⟨⟨_, again⟩, passed, rest⟩ := Option.bind_eq_some_iff.mp rest
  obtain ⟨⟨_, last⟩, repeated, same⟩ := Option.map_eq_some_iff.mp rest
  cases same
  simp only [Bool.and_eq_true, decide_eq_true_eq] at facts
  obtain ⟨⟨⟨flags, pending⟩, failed⟩, there⟩ := facts
  obtain ⟨copy, copied⟩ := (Table.has_iff _ _).mp there
  obtain ⟨row, found, given⟩ := Option.map_eq_some_iff.mp failed
  refine ⟨sent, again, last, .done letter response .start letter_chore
    (Sequential.exec_runs _ _ executed), ?_, Sequential.exec_runs _ _ passed, ?_,
    Sequential.exec_runs _ _ repeated, row, copy, found, copied, given⟩
  · intro other member
    obtain ⟨first, rows, kept⟩ := List.map_eq_singleton_iff.mp flags
    simp only [Prod.mk.injEq] at kept
    rw [rows, List.mem_singleton] at member
    subst member
    rintro (given | given | given) <;> omega
  · intro converged
    obtain ⟨waiting, rows, unanswered⟩ := List.map_eq_singleton_iff.mp pending
    have member : waiting ∈ (again true).messages.rows := by simp [rows]
    have visible : waiting.accepted ≠ messageDeleted := by
      rw [unanswered]
      decide
    have delivered := ((converged waiting member).1 visible).1
    rw [unanswered] at delivered
    cases delivered

end Runs

end NoMiddle.Convergence
