import NoMiddle.Library.Custody
import NoMiddle.Network
import NoMiddle.DbViews

/-! What a program may do, told by its own history. A discipline names no store:
it says which operation may follow which events, and every route and the worker's
pass is checked against it once. -/
namespace NoMiddle.Conduct
open Library Text Crypto DbManager DbViews Node MessageDelivery

abbrev Trace := List (Event nodeSig)

/-- What an answer of the node's own operations always satisfies. -/
def Possible : (operation : nodeSig.Op) → nodeSig.Res operation → Prop
  | .inl (.call (.getMessages query)), rows =>
      (rows.map (·.messageId)).Nodup ∧
        ∀ row ∈ rows, AllClean row.texts ∧ query.selects row = true
  | .inl (.call (.getMessage messageId)), found =>
      ∀ row, found = some row → row.messageId = cstr messageId ∧ AllClean row.texts
  | .inl (.call (.getGroupMembers groupId)), members =>
      (members.map (·.memberId)).Nodup ∧
        ∀ m ∈ members, m.groupId = cstr groupId ∧ AllClean m.texts
  | .inl (.call .getPendingGroupUpdates), updates =>
      (updates.map fun u => (u.groupId, u.memberId)).Nodup ∧ ∀ u ∈ updates, AllClean u.texts
  | .inl (.call (.updateMessages ..)), updated => updated = true
  | .inl (.randombytes size), bytes => bytes.length = size
  | _, _ => True

theorem possible_handle (input : Input) (operation : LocalOp) (store : Store) :
    Possible (.inl operation) (handle input operation store).1 := by
  cases operation with
  | call call =>
      cases call with
      | getMessages query =>
          refine ⟨rows_nodup query store.messages, fun row member => ?_⟩
          obtain ⟨found, selected⟩ := (mem_rows query store.messages row).mp member
          exact ⟨store.messages.find_valid found, selected⟩
      | getMessage messageId =>
          exact fun row found => ⟨store.messages.find_key found, store.messages.find_valid found⟩
      | getGroupMembers groupId =>
          refine ⟨groupMembersOf_nodup groupId store.groupMembers, fun m member => ?_⟩
          obtain ⟨same, found⟩ := (mem_groupMembersOf groupId store.groupMembers m).mp member
          exact ⟨same, store.groupMembers.find_valid found⟩
      | getPendingGroupUpdates =>
          refine ⟨pendingGroupUpdates_nodup store.groupUpdates, fun u member => ?_⟩
          exact store.groupUpdates.find_valid
            ((mem_pendingGroupUpdates store.groupUpdates u).mp member).1
      | updateMessages messageId recipientId mark => rfl
      | _ => trivial
  | randombytes size => exact (List.length_map ..).trans List.length_range
  | _ => trivial

/-! Copies of messages and of their edits. A stored or listed message is in the
program's hands until the program writes its status. -/
def takesMessage (id : Str) : Event nodeSig → Option Message
  | ⟨.inl (.call (.addMessage msg)), added⟩ =>
      if added = true ∧ cstr msg.messageId = id then some msg.stored else none
  | ⟨.inl (.call (.getMessages .pendingMessages)), rows⟩ =>
      List.find? (fun row => row.messageId = id) rows
  | _ => none

def givesMessage (id : Str) : Event nodeSig → Bool
  | ⟨.inl (.call (.updateMessages messageId _ mark)), _⟩ =>
      cstr messageId = id && (mark = .accepted || mark = .failed || mark = .deleted)
  | _ => false

/-- Whether a request about a message names the given one. -/
def names (id : Str) (body : Json) : Bool :=
  match body.s? "message_id" with
  | some messageId => cstr messageId = id
  | none => false

def usesMessage (id : Str) : nodeSig.Op → Prop
  | .inl (.call (.updateMessages messageId _ .accepted))
  | .inl (.call (.updateMessages messageId _ .failed)) => cstr messageId = id
  | .inr request => request.endpoint = .acceptMessage ∧ names id request.body = true
  | _ => False

def messageCustody : Custody nodeSig Str Message := ⟨takesMessage, givesMessage, usesMessage⟩

/-- An edit is its ciphertext and its time. -/
def takesEdit (id : Str) : Event nodeSig → Option (Str × Int)
  | ⟨.inl (.call (.updateMessages messageId _ (.edit _ ciphertext editedAt))), _⟩ =>
      if cstr messageId = id then some (cstr ciphertext, editedAt) else none
  | ⟨.inl (.call (.getMessages .pendingEdits)), rows⟩ =>
      (List.find? (fun row => row.messageId = id) rows).map fun row =>
        (row.ciphertext, row.editedAt)
  | _ => none

def usesEdit (id : Str) : nodeSig.Op → Prop
  | .inl (.call (.updateMessages messageId _ .editAccepted)) => cstr messageId = id
  | .inr request => request.endpoint = .acceptEdit ∧ names id request.body = true
  | _ => False

def editCustody : Custody nodeSig Str (Str × Int) := ⟨takesEdit, fun _ _ => false, usesEdit⟩

/-! What the bodies say. -/
structure CarriesMessage (body : Json) (copy : Message) : Prop where
  messageId : body.s? "message_id" = some copy.messageId
  senderId : body.s? "sender_id" = some copy.senderId
  recipientId : body.s? "recipient_id" = some copy.recipientId
  groupId : (body.optional "group_id").getD [] = copy.groupId
  ciphertext : body.s? "ciphertext" = some copy.ciphertext
  timestamp : body.i? "timestamp" = some copy.timestamp

structure CarriesEdit (body : Json) (messageId senderId recipientId : Str) (edit : Str × Int) :
    Prop where
  messageId : body.s? "message_id" = some messageId
  senderId : body.s? "sender_id" = some senderId
  recipientId : body.s? "recipient_id" = some recipientId
  ciphertext : body.s? "ciphertext" = some edit.1
  editedAt : body.i? "edited_at" = some edit.2

structure CarriesDelete (body : Json) (messageId recipientId : Str) : Prop where
  messageId : body.s? "message_id" = some messageId
  recipientId : body.s? "recipient_id" = some recipientId

/-- The last thing that happened is a 200 to a request of this kind. -/
def Acknowledged (endpoint : Endpoint) (content : Json → Prop) (history : Trace) : Prop :=
  ∃ request answer earlier, history = ⟨.inr request, some answer⟩ :: earlier ∧
    answer.code = 200 ∧ request.endpoint = endpoint ∧ content request.body

def Read (history : Trace) (messageId : Str) (row : Message) : Prop :=
  (⟨.inl (.call (.getMessage messageId)), some row⟩ : Event nodeSig) ∈ history

def Listed (history : Trace) (query : Query) (row : Message) : Prop :=
  ∃ rows, (⟨.inl (.call (.getMessages query)), rows⟩ : Event nodeSig) ∈ history ∧
    row ∈ (rows : List Message)

section Roles
variable (sodium : Sodium) (keys : KeyPair)

/-- The ciphertext seals the text for the recipient. -/
def Sealed (plaintext recipientId ciphertext : Str) : Prop :=
  ∃ nonce : Str, nonce.length = nonceBytes ∧
    encryptMessage sodium nonce plaintext recipientId keys.privateKeyB64 = some ciphertext

/-- A message of this node: a fresh id, sealed, and pending unless it belongs to a
group, where nobody sets its status. -/
structure Composed (history : Trace) (msg : Message) : Prop where
  fresh : ∃ dice, (⟨.inl .dice, dice⟩ : Event nodeSig) ∈ history ∧ msg.messageId = uuidOf dice
  senderId : msg.senderId = keys.publicKeyB64
  direct : msg.groupId = [] → msg.accepted = 0
  groupId : Clean msg.groupId
  sealedText : Sealed sodium keys msg.plaintext msg.recipientId msg.ciphertext

/-- The node may edit the message and `recipientId` is whom the edit is sealed for:
of a direct message its recipient, of a group message some member. -/
structure MayEdit (history : Trace) (messageId : Str) (only : Option Str) (recipientId : Str) :
    Prop where
  row : ∃ row, Read history messageId row ∧ row.senderId = keys.publicKeyB64 ∧
    (only = none ∧ recipientId = row.recipientId ∨ row.groupId ≠ [])

/-- The row an edit or delete request goes out for, as the program last saw it. -/
def Seen (history : Trace) (query : Query) (messageId senderId recipientId : Str) : Prop :=
  ∃ row : Message, row.messageId = cstr messageId ∧ row.senderId = senderId ∧
    (Read history messageId row ∨ Listed history query row) ∧
    (row.recipientId = recipientId ∨ row.groupId ≠ [])

def ownMark (history : Trace) (messageId : Str) (only : Option Str) : Mark → Prop
  | .accepted => ∃ copy, messageCustody.held copy.messageId history = some copy ∧
      messageId = copy.messageId ∧ Clean messageId ∧ only = some copy.recipientId ∧
      Acknowledged .acceptMessage (CarriesMessage · copy) history
  | .failed => ∃ copy, messageCustody.held (cstr messageId) history = some copy ∧
      copy.accepted = messagePending
  | .deleted => only = none ∧ ∃ row, Read history messageId row ∧
      row.senderId = keys.publicKeyB64
  | .deletePending => only = none ∧ ∃ done earlier, history =
      ⟨.inl (.call (.updateMessages messageId none .deleted)), done⟩ :: earlier
  | .deleteAccepted => ∃ senderId recipientId,
      Seen history .pendingDeletes messageId senderId recipientId ∧
      Acknowledged .acceptDelete (CarriesDelete · messageId recipientId) history ∧
      (only = some recipientId ∨ only = none)
  | .edit plaintext ciphertext _ => ∃ recipientId,
      MayEdit keys history messageId only recipientId ∧
      Sealed sodium keys plaintext recipientId ciphertext
  | .editAccepted => ∃ edit senderId recipientId,
      editCustody.held (cstr messageId) history = some edit ∧
      Acknowledged .acceptEdit (CarriesEdit · messageId senderId recipientId edit) history
  | .deleteFailed | .editFailed => True

def ownRequest (history : Trace) (request : Request) : Prop :=
  match request.endpoint with
  | .acceptMessage => ∃ copy, messageCustody.held copy.messageId history = some copy ∧
      Clean copy.messageId ∧ CarriesMessage request.body copy
  | .acceptEdit => ∃ messageId senderId recipientId edit,
      Seen history .pendingEdits messageId senderId recipientId ∧
      editCustody.held (cstr messageId) history = some edit ∧
      CarriesEdit request.body messageId senderId recipientId edit
  | .acceptDelete => ∃ messageId recipientId, CarriesDelete request.body messageId recipientId ∧
      ((∃ done, (⟨.inl (.call (.updateMessages messageId none .deleted)), done⟩ : Event nodeSig) ∈
          history) ∨ ∃ row, Listed history .pendingDeletes row ∧ row.messageId = messageId)
  | .acceptGroupUpdate | .publicKey => True

/-- The conduct of a node's own tasks. -/
def own : Discipline nodeSig where
  possible := Possible
  allowed history operation :=
    match operation with
    | .inl (.call (.addMessage msg)) => Composed sodium keys history msg
    | .inl (.call (.updateMessages messageId only mark)) =>
        ownMark sodium keys history messageId only mark
    | .inr request => ownRequest history request
    | _ => True

/-- What an accepted message says about the row stored for it. -/
structure Received (body : Json) (msg : Message) : Prop where
  messageId : body.s? "message_id" = some msg.messageId
  senderId : body.s? "sender_id" = some msg.senderId
  recipientId : body.s? "recipient_id" = some msg.recipientId
  groupId : (body.optional "group_id").getD [] = msg.groupId
  ciphertext : body.s? "ciphertext" = some msg.ciphertext
  timestamp : body.i? "timestamp" = some msg.timestamp
  own : msg.recipientId = keys.publicKeyB64
  accepted : msg.accepted = 1
  opened : decryptMessage sodium msg.ciphertext msg.senderId keys.privateKeyB64 =
    some msg.plaintext

structure ReceivedEdit (body : Json) (messageId plaintext ciphertext : Str) (editedAt : Int) :
    Prop where
  messageId : body.s? "message_id" = some messageId
  recipientId : body.s? "recipient_id" = some keys.publicKeyB64
  sealedText : body.s? "ciphertext" = some ciphertext
  time : body.i? "edited_at" = some editedAt
  opened : ∃ senderId, body.s? "sender_id" = some senderId ∧
    decryptMessage sodium ciphertext senderId keys.privateKeyB64 = some plaintext

structure ReceivedDelete (body : Json) (messageId senderId : Str) : Prop where
  messageId : body.s? "message_id" = some messageId
  senderId : body.s? "sender_id" = some senderId
  recipientId : body.s? "recipient_id" = some keys.publicKeyB64

def servedMark (request : Request) (history : Trace) (messageId : Str) : Mark → Prop
  | .deleted => request.endpoint = .acceptDelete ∧ ∃ row,
      ReceivedDelete keys request.body messageId row.senderId ∧ Read history messageId row
  | .edit plaintext ciphertext editedAt => request.endpoint = .acceptEdit ∧
      ReceivedEdit sodium keys request.body messageId plaintext ciphertext editedAt ∧
      ∃ row, Read history messageId row
  | .editAccepted => request.endpoint = .acceptEdit ∧
      names (cstr messageId) request.body = true ∧
      request.body.s? "recipient_id" = some keys.publicKeyB64 ∧
      ∃ edit, editCustody.held (cstr messageId) history = some edit
  | _ => False

/-- The conduct of a node that serves a request. It sends nothing itself. -/
def served (request : Request) : Discipline nodeSig where
  possible := Possible
  allowed history operation :=
    match operation with
    | .inl (.call (.addMessage msg)) =>
        request.endpoint = .acceptMessage ∧ Received sodium keys request.body msg
    | .inl (.call (.updateMessages messageId only mark)) =>
        only = none ∧ servedMark sodium keys request history messageId mark
    | .inr _ => False
    | _ => True

/-- What a 200 of the service says was done. -/
def ensures (request : Request) (answer : Response) (history : Trace) : Prop :=
  answer.code = 200 →
    match request.endpoint with
    | .acceptMessage => ∃ msg, Received sodium keys request.body msg ∧
        (⟨.inl (.call (.addMessage msg)), true⟩ : Event nodeSig) ∈ history
    | .acceptEdit => ∃ messageId plaintext ciphertext editedAt done,
        ReceivedEdit sodium keys request.body messageId plaintext ciphertext editedAt ∧
        (⟨.inl (.call (.updateMessages messageId none (.edit plaintext ciphertext editedAt))),
          done⟩ : Event nodeSig) ∈ history
    | .acceptDelete => ∃ messageId senderId, ReceivedDelete keys request.body messageId senderId ∧
        ((⟨.inl (.call (.getMessage messageId)), none⟩ : Event nodeSig) ∈ history ∨
          ∃ done, (⟨.inl (.call (.updateMessages messageId none .deleted)), done⟩ :
            Event nodeSig) ∈ history)
    | .acceptGroupUpdate | .publicKey => True

end Roles

section Rules
variable {discipline : Discipline nodeSig} {Value : Type} {post : Value → Trace → Prop}
  {history : Trace}

theorem wp_perform {operation : LocalOp} {rest : operation.Res → Proc Value}
    (allowed : discipline.allowed history (.inl operation))
    (later : ∀ answer, discipline.possible (.inl operation) answer →
      (rest answer).wp discipline.contract post (⟨.inl operation, answer⟩ :: history)) :
    (perform operation >>= rest).wp discipline.contract post history :=
  ⟨allowed, later⟩

/-- The same for a call whose answer is dropped, as in the wrappers that mark rows. -/
theorem wp_mark {db : Call} {rest : Unit → Proc Value}
    (allowed : discipline.allowed history (.inl (.call db)))
    (later : ∀ answer, discipline.possible (.inl (.call db)) answer →
      (rest ()).wp discipline.contract post (⟨.inl (.call db), answer⟩ :: history)) :
    ((do let _ ← call db) >>= rest).wp discipline.contract post history :=
  ⟨allowed, later⟩

theorem wp_send {serverAddress : Str} {endpoint : Endpoint} {body : Json}
    {rest : Option Nat → Proc Value}
    (allowed : discipline.allowed history (.inr ⟨serverAddress, endpoint, body⟩))
    (later : ∀ answer, (rest (answer.map (·.code))).wp discipline.contract post
      (⟨.inr ⟨serverAddress, endpoint, body⟩, answer⟩ :: history)) :
    (sendMessage serverAddress endpoint body >>= rest).wp discipline.contract post history :=
  ⟨allowed, fun answer _ => later answer⟩

theorem delivered_iff (answer : Option Response) :
    delivered (answer.map (·.code)) = true ↔ ∃ response, answer = some response ∧
      response.code = 200 := by
  cases answer <;> simp [delivered]

/-- A program that does nothing a discipline restricts complies with it. -/
theorem wp_seq_only {permits : nodeSig.Op → Bool}
    (harmless : ∀ history operation, permits operation = true →
      discipline.allowed history operation)
    {Output : Type} {program : Proc Output} {rest : Output → Proc Value}
    (only : program.Only permits)
    (later : ∀ value history, (rest value).wp discipline.contract post history) :
    (program >>= rest).wp discipline.contract post history :=
  Program.wp_seq discipline.contract_monotone program rest history
    (Program.wp_of_only harmless program only history) fun value after _ => later value after

end Rules

end NoMiddle.Conduct
