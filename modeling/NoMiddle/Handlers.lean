import NoMiddle.MessageDelivery

/-! The routes for contacts and direct messages, and the four routes peers call.
A handler that throws is answered with 500 by the server. -/
namespace NoMiddle.Handlers
open Library Text Crypto DbManager Node MessageDelivery

/-- What a handler reads of an HTTP request: the two credential headers, empty when
missing, and the JSON body unless it does not parse. -/
structure HttpRequest where
  clientId : Str
  clientSecret : Str
  body : Option Json

def thrown : Response := ⟨500, .empty⟩

def error (code : Nat) (text : String) : Response :=
  ⟨code, .json (.obj [("error", .str (str text))])⟩

def ok (fields : List (String × Json)) : Response := ⟨200, .json (.obj fields)⟩

def authenticate (sodium : Sodium) (clientId secret : Str) : Proc Bool := do
  if clientId.isEmpty || secret.isEmpty then return false
  match ← call (.getClient clientId) with
  | none => return false
  | some info => return hashSecret sodium secret info.salt = info.secretHash

def isAuthed (sodium : Sodium) (req : HttpRequest) : Proc Bool :=
  authenticate sodium req.clientId req.clientSecret

/-- The three broadcasts about a message differ in their `type` only. -/
def notifyMessage (type : String) (messageId otherPartyId groupId : Str) : Proc Unit :=
  notify (.obj [("type", .str (str type)), ("message_id", .str messageId),
    ("contact_id", .str otherPartyId), ("group_id", .str groupId)])

def notifyNewMessage := notifyMessage "new_message"
def notifyEditMessage := notifyMessage "edit_message"
def notifyDeleteMessage := notifyMessage "delete_message"

variable (sodium : Sodium) (keys : KeyPair)

def upsertContact (req : HttpRequest) : Proc Response := do
  if !(← isAuthed sodium req) then return error 401 "Unauthorized"
  let some dataJson := req.body | return error 400 "Invalid JSON"
  let some present := dataJson.hasAll? ["name", "server_address", "contact_id"] | return thrown
  if !present then return error 400 "Missing contact_id, name or server address argument"
  let some contactId := dataJson.s? "contact_id" | return thrown
  let some name := dataJson.s? "name" | return thrown
  let some serverAddress := dataJson.s? "server_address" | return thrown
  if !(← call (.upsertContact contactId name serverAddress)) then
    return error 500 "Failed to add contact"
  return ⟨200, .text (str "Contact added.")⟩

def sendDirect (req : HttpRequest) : Proc Response := do
  if !(← isAuthed sodium req) then return error 401 "Unauthorized"
  let some dataJson := req.body | return error 400 "Invalid JSON"
  let some present := dataJson.hasAll? ["recipient_id", "text"] | return thrown
  if !present then return error 400 "Missing recipient_id or text"
  let some recipientId := dataJson.s? "recipient_id" | return thrown
  let some plaintext := dataJson.s? "text" | return thrown
  let timestamp ← time
  let some ciphertext ← encrypt sodium plaintext recipientId keys.privateKeyB64
    | return error 400 "Failed to encrypt message"
  let some messageId ← deliverMessage keys.publicKeyB64 recipientId ciphertext plaintext timestamp
    | return error 400 "Error while delivering message"
  notifyNewMessage messageId recipientId []
  return ok [("message_id", .str messageId)]

def editDirect (req : HttpRequest) : Proc Response := do
  if !(← isAuthed sodium req) then return error 401 "Unauthorized"
  let some dataJson := req.body | return error 400 "Invalid JSON"
  let some present := dataJson.hasAll? ["message_id", "text"] | return thrown
  if !present then return error 400 "Missing message_id or text"
  let some messageId := dataJson.s? "message_id" | return thrown
  let some plaintext := dataJson.s? "text" | return thrown
  let some msg ← call (.getMessage messageId) | return error 404 "Unknown message"
  if msg.senderId ≠ keys.publicKeyB64 then
    return error 403 "Cannot edit message sent by someone else"
  let some ciphertext ← encrypt sodium plaintext msg.recipientId keys.privateKeyB64
    | return error 400 "Failed to encrypt message"
  let editedAt ← time
  if !(← updateMessageEdit messageId plaintext ciphertext editedAt) then
    return error 500 "Failed to update message"
  let _ ← deliverMessageEdit messageId keys.publicKeyB64 msg.recipientId ciphertext editedAt
  notifyEditMessage messageId msg.recipientId msg.groupId
  return ok [("message_id", .str messageId), ("plaintext", .str plaintext),
    ("edited_at", .num editedAt)]

def deleteDirect (req : HttpRequest) : Proc Response := do
  if !(← isAuthed sodium req) then return error 401 "Unauthorized"
  let some dataJson := req.body | return error 400 "Invalid JSON"
  let some present := dataJson.hasAll? ["message_id"] | return thrown
  if !present then return error 400 "Missing message_id"
  let some messageId := dataJson.s? "message_id" | return thrown
  let some msg ← call (.getMessage messageId) | return error 404 "Unknown message"
  if msg.senderId ≠ keys.publicKeyB64 then
    return error 403 "Cannot delete message sent by someone else"
  markDeleted messageId
  markDeletePending messageId
  let _ ← deliverMessageDelete messageId keys.publicKeyB64 msg.recipientId
  notifyDeleteMessage messageId msg.recipientId msg.groupId
  return ok [("message_id", .str messageId)]

/-- `message_id` is not among the fields checked for; a missing one throws. -/
def acceptMessage (body : Option Json) : Proc Response := do
  let some dataJson := body | return error 400 "Invalid JSON"
  let some present := dataJson.hasAll? ["sender_id", "recipient_id", "ciphertext", "timestamp"]
    | return thrown
  if !present then return error 400 "Missing of the arguments"
  let some senderId := dataJson.s? "sender_id" | return thrown
  let some recipientId := dataJson.s? "recipient_id" | return thrown
  let some ciphertext := dataJson.s? "ciphertext" | return thrown
  let some timestamp := dataJson.i? "timestamp" | return thrown
  if recipientId ≠ keys.publicKeyB64 then
    return error 400 "Message not intended for this user"
  let some plaintext := decryptMessage sodium ciphertext senderId keys.privateKeyB64
    | return error 400 "Failed to decrypt message"
  let some messageId := dataJson.s? "message_id" | return thrown
  let groupId := (dataJson.optional "group_id").getD []
  if !(← call (.addMessage ⟨messageId, senderId, recipientId, groupId, plaintext, ciphertext, 1,
      timestamp, 0, 0, 1, 0⟩)) then
    return error 500 "Failed to store message"
  notifyNewMessage messageId senderId groupId
  return ⟨200, .empty⟩

def acceptEdit (body : Option Json) : Proc Response := do
  let some dataJson := body | return error 400 "Invalid JSON"
  let some present :=
      dataJson.hasAll? ["message_id", "sender_id", "recipient_id", "ciphertext", "edited_at"]
    | return thrown
  if !present then return error 400 "Missing of the arguments"
  let some messageId := dataJson.s? "message_id" | return thrown
  let some senderId := dataJson.s? "sender_id" | return thrown
  let some recipientId := dataJson.s? "recipient_id" | return thrown
  let some ciphertext := dataJson.s? "ciphertext" | return thrown
  let some editedAt := dataJson.i? "edited_at" | return thrown
  if recipientId ≠ keys.publicKeyB64 then
    return error 400 "Message edit not intended for this user"
  let some msg ← call (.getMessage messageId) | return error 404 "Unknown message"
  let some plaintext := decryptMessage sodium ciphertext senderId keys.privateKeyB64
    | return error 400 "Failed to decrypt message"
  if !(← updateMessageEdit messageId plaintext ciphertext editedAt) then
    return error 500 "Failed to update message"
  markEditAccepted messageId none
  notifyEditMessage messageId senderId msg.groupId
  return ⟨200, .empty⟩

def acceptDelete (body : Option Json) : Proc Response := do
  let some dataJson := body | return error 400 "Invalid JSON"
  let some present := dataJson.hasAll? ["message_id", "sender_id", "recipient_id"] | return thrown
  if !present then return error 400 "Missing of the arguments"
  let some messageId := dataJson.s? "message_id" | return thrown
  let some senderId := dataJson.s? "sender_id" | return thrown
  let some recipientId := dataJson.s? "recipient_id" | return thrown
  if recipientId ≠ keys.publicKeyB64 then
    return error 400 "Message delete not intended for this user"
  -- A message this node does not have counts as deleted.
  let some msg ← call (.getMessage messageId) | return ⟨200, .empty⟩
  if msg.senderId ≠ senderId then return error 400 "Sender does not match message"
  markDeleted messageId
  notifyDeleteMessage messageId senderId msg.groupId
  return ⟨200, .empty⟩

/-- Reads one entry of the snapshot; nobody sets its `added_at`. -/
def readMember (groupId : Str) (members : Option (List GroupMember)) (e : Json) :
    Proc (Option (List GroupMember)) := do
  let some before := members | return none
  let some memberId := e.s? "member_id" | return none
  let some serverAddress := e.s? "server_address" | return none
  let some role := e.s? "role" | return none
  let addedAt ← uninitialised
  return some (before ++ [⟨groupId, memberId, serverAddress, role, addedAt⟩])

/-- Creates the group or takes over its new name. -/
def recordGroup (groupId senderId groupName : Str) : Proc Unit := do
  match ← call (.getGroup groupId) with
  | none =>
      let createdAt ← time
      let _ ← call (.createGroup
        ⟨groupId, if groupName.isEmpty then groupId else groupName, senderId, createdAt⟩)
  | some g =>
      if !groupName.isEmpty && g.name ≠ groupName then
        let _ ← call (.updateGroupName groupId groupName)

def acceptGroupUpdate (body : Option Json) : Proc Response := do
  let some dataJson := body | return error 400 "Invalid snapshot"
  let some present := dataJson.hasAll? ["group_id", "members"] | return thrown
  if !present then return error 400 "Invalid snapshot"
  let some groupId := dataJson.s? "group_id" | return thrown
  let some senderId := if dataJson.has "sender_id" then dataJson.s? "sender_id" else some []
    | return thrown
  let some groupName := if dataJson.has "name" then dataJson.s? "name" else some []
    | return thrown
  recordGroup groupId senderId groupName
  let some entries := dataJson.items? "members" | return thrown
  let some members ← entries.foldlM (readMember groupId) (some []) | return thrown
  if !(← call (.replaceGroupMembers groupId members)) then
    return error 500 "Failed to store snapshot"
  return ⟨200, .empty⟩

def messageJson (m : Message) : Json :=
  .obj [("message_id", .str m.messageId), ("sender_id", .str m.senderId),
    ("recipient_id", .str m.recipientId), ("plaintext", .str m.plaintext),
    ("accepted", .num m.accepted), ("timestamp", .num m.timestamp),
    ("edited_at", .num m.editedAt)]

def contactJson (c : ContactInfo) : Json :=
  .obj [("contact_id", .str c.contact.contactId), ("name", .str c.contact.name),
    ("server_address", .str c.contact.serverAddress),
    ("latest_message", match c.latestMessage with
      | some m => messageJson m
      | none => .null)]

def contacts (req : HttpRequest) : Proc Response := do
  if !(← isAuthed sodium req) then return error 401 "Unauthorized"
  let contacts ← call (.getContactsWithLatestMessage keys.publicKeyB64)
  return ok [("contacts", .arr (contacts.map contactJson))]

def messages (req : HttpRequest) (contactId : Option Str) : Proc Response := do
  if !(← isAuthed sodium req) then return error 401 "Unauthorized"
  let some contactId := contactId | return error 400 "Missing contact_id parameter"
  let messages ← getMessagesBetween keys.publicKeyB64 contactId
  return ok [("messages", .arr (messages.map messageJson))]

def remotePublicKey (req : HttpRequest) (addr : Option Str) : Proc Response := do
  if !(← isAuthed sodium req) then return error 401 "Unauthorized"
  let some serverAddress := addr | return error 400 "Missing addr parameter"
  if (cutServerAddress serverAddress).isEmpty then return error 400 "Invalid addr"
  let some body ← fetchRemote (cutServerAddress serverAddress) .publicKey
    | return error 502 "Failed to fetch remote public key"
  return ⟨200, body⟩

def publicKey : Proc Response :=
  return ok [("public_key", .str keys.publicKeyB64)]

/-- The routes other nodes call. -/
def serve (request : Request) : Proc Response :=
  match request.endpoint with
  | .acceptMessage => acceptMessage sodium keys (some request.body)
  | .acceptEdit => acceptEdit sodium keys (some request.body)
  | .acceptDelete => acceptDelete keys (some request.body)
  | .acceptGroupUpdate => acceptGroupUpdate (some request.body)
  | .publicKey => publicKey keys

end NoMiddle.Handlers
