import NoMiddle.Handlers

/-! The routes for groups. The group id comes from the path, where the router
matches one or more bytes other than a slash and the HTTP parser admits no NUL. -/
namespace NoMiddle.GroupHandlers
open Library Text Crypto DbManager Node MessageDelivery Handlers

structure PathId where
  text : Str
  nonempty : text ≠ []
  clean : Clean text

variable (sodium : Sodium) (keys : KeyPair)

def groupsCreate (req : HttpRequest) : Proc Response := do
  if !(← isAuthed sodium req) then return error 401 "Unauthorized"
  let some dataJson := req.body | return error 400 "Invalid JSON or missing name"
  let some present := dataJson.hasAll? ["name"] | return thrown
  if !present then return error 400 "Invalid JSON or missing name"
  let groupId ← generateUuid
  let some name := dataJson.s? "name" | return thrown
  let createdAt ← time
  if !(← call (.createGroup ⟨groupId, name, keys.publicKeyB64, createdAt⟩)) then
    return error 500 "Failed to create group"
  let selfAddress := (dataJson.optional "server_address").getD []
  let addedAt ← time
  let me : GroupMember := ⟨groupId, keys.publicKeyB64, selfAddress, str "admin", addedAt⟩
  if !(← call (.replaceGroupMembers groupId [me])) then
    return error 500 "Failed to register admin member"
  return ok [("group_id", .str groupId)]

/-- `for (auto &m : members) if (m.member_id == id) { m.server_address = …; break; }`. -/
def setAddress (memberId serverAddress : Str) : List GroupMember → List GroupMember
  | [] => []
  | m :: rest =>
      if m.memberId = memberId then { m with serverAddress := serverAddress } :: rest
      else m :: setAddress memberId serverAddress rest

/-- `self_server_address`, when given, becomes this node's own address. -/
def withSelfAddress (selfId : Str) (selfAddress : Option Str) (members : List GroupMember) :
    List GroupMember :=
  match selfAddress with
  | some address => setAddress selfId address members
  | none => members

/-- Moves the member to the address or appends a new one. -/
def withMember (groupId memberId serverAddress : Str) (existing : List GroupMember) :
    Proc (List GroupMember) :=
  if existing.any (·.memberId = memberId) then
    return setAddress memberId serverAddress existing
  else do
    let addedAt ← time
    return existing ++ [⟨groupId, memberId, serverAddress, str "member", addedAt⟩]

def addMember (req : HttpRequest) (group : PathId) : Proc Response := do
  if !(← isAuthed sodium req) then return error 401 "Unauthorized"
  let some dataJson := req.body | return error 400 "Invalid JSON or missing member info"
  let some present := dataJson.hasAll? ["member_id", "server_address"] | return thrown
  if !present then return error 400 "Invalid JSON or missing member info"
  let some memberId := dataJson.s? "member_id" | return thrown
  let some serverAddress := dataJson.s? "server_address" | return thrown
  let stored ← call (.getGroupMembers group.text)
  let existing :=
    withSelfAddress keys.publicKeyB64 (dataJson.optional "self_server_address") stored
  let members ← withMember group.text memberId serverAddress existing
  if !(← call (.replaceGroupMembers group.text members)) then
    return error 500 "Failed to update membership"
  let version ← time
  let delivered ← deliverGroupUpdate group.text keys.publicKeyB64 members version
  return ok [("delivered", .bool delivered)]

def removeMember (req : HttpRequest) (group : PathId) : Proc Response := do
  if !(← isAuthed sodium req) then return error 401 "Unauthorized"
  let some dataJson := req.body | return error 400 "Invalid JSON or missing member_id"
  let some present := dataJson.hasAll? ["member_id"] | return thrown
  if !present then return error 400 "Invalid JSON or missing member_id"
  let some memberId := dataJson.s? "member_id" | return thrown
  let existing ← call (.getGroupMembers group.text)
  let remaining := existing.filter (·.memberId ≠ memberId)
  if remaining.length = existing.length then return error 404 "Member not in group"
  if !(← call (.replaceGroupMembers group.text remaining)) then
    return error 500 "Failed to update membership"
  let version ← time
  let delivered ← deliverGroupUpdate group.text keys.publicKeyB64 remaining version
  if delivered && remaining.isEmpty then call (.deleteGroup group.text)
  return ok [("delivered", .bool delivered)]

def groupJson (g : Group) (last : List (String × Json)) : Json :=
  .obj ([("group_id", .str g.groupId), ("name", .str g.name), ("created_by", .str g.createdBy),
    ("created_at", .num g.createdAt)] ++ last)

def describeGroup (arr : List Json) (g : Group) : Proc (List Json) := do
  match ← call (.getLastMessageForGroup g.groupId) with
  | none => return arr ++ [groupJson g []]
  | some last =>
      let name ← call (.getContactName last.senderId)
      return arr ++ [groupJson g [("last_message", .str last.plaintext),
        ("last_message_sender_id", .str last.senderId), ("last_message_sender_name", .str name),
        ("last_message_timestamp", .num last.timestamp)]]

def groups (req : HttpRequest) : Proc Response := do
  if !(← isAuthed sodium req) then return error 401 "Unauthorized"
  let groups ← call .getGroups
  let arr ← groups.foldlM describeGroup []
  return ok [("groups", .arr arr)]

def groupMembers (req : HttpRequest) (group : PathId) : Proc Response := do
  if !(← isAuthed sodium req) then return error 401 "Unauthorized"
  let members ← call (.getGroupMembers group.text)
  return ok [("members", .arr (members.map fun m =>
    .obj [("member_id", .str m.memberId), ("server_address", .str m.serverAddress),
      ("role", .str m.role)]))]

/-- The member's own address and, when that is empty, the contact's. -/
def memberAddress (m : GroupMember) : Proc Str := do
  let serverAddress := cutServerAddress m.serverAddress
  if serverAddress.isEmpty then
    let contactAddress ← call (.getContactAddress m.memberId)
    return cutServerAddress contactAddress
  else
    return serverAddress

/-- One turn of the send loop. `accepted` is the one field the handler does not set. -/
def sendToMember (messageId groupId text : Str) (timestamp : Int) (allOnline : Bool)
    (m : GroupMember) : Proc Bool := do
  if m.memberId = keys.publicKeyB64 then return allOnline
  let serverAddress ← memberAddress m
  let some ciphertext ← encrypt sodium text m.memberId keys.privateKeyB64 | return false
  let accepted ← uninitialised
  if !(← call (.addMessage ⟨messageId, keys.publicKeyB64, m.memberId, groupId, text, ciphertext,
      accepted, timestamp, 0, 0, 1, 0⟩)) then
    return false
  if serverAddress.isEmpty then return false
  let result ← sendMessage serverAddress .acceptMessage
    (.obj [("message_id", .str messageId), ("sender_id", .str keys.publicKeyB64),
      ("recipient_id", .str m.memberId), ("group_id", .str groupId),
      ("ciphertext", .str ciphertext), ("timestamp", .num timestamp)])
  if delivered result then
    markAccepted messageId m.memberId
    return allOnline
  else
    return false

def groupSend (req : HttpRequest) (group : PathId) : Proc Response := do
  if !(← isAuthed sodium req) then return error 401 "Unauthorized"
  let some dataJson := req.body | return error 400 "Invalid JSON or missing text"
  let some present := dataJson.hasAll? ["text"] | return thrown
  if !present then return error 400 "Invalid JSON or missing text"
  let some text := dataJson.s? "text" | return thrown
  let timestamp ← time
  let messageId ← generateUuid
  let members ← call (.getGroupMembers group.text)
  if members.isEmpty then return error 404 "Group not found or empty"
  let allOnline ←
    members.foldlM (sendToMember sodium keys messageId group.text text timestamp) true
  return ok [("message_id", .str messageId), ("delivered", .bool allOnline)]

def describeMessage (arr : List Json) (m : Message) : Proc (List Json) := do
  let name ← call (.getContactName m.senderId)
  return arr ++ [.obj [("message_id", .str m.messageId), ("sender_id", .str m.senderId),
    ("sender_name", .str name), ("group_id", .str m.groupId), ("plaintext", .str m.plaintext),
    ("accepted", .num m.accepted), ("timestamp", .num m.timestamp),
    ("edited_at", .num m.editedAt)]]

def groupMessages (req : HttpRequest) (group : PathId) : Proc Response := do
  if !(← isAuthed sodium req) then return error 401 "Unauthorized"
  let messages ← getMessagesForGroup group.text
  let arr ← messages.foldlM describeMessage []
  return ok [("messages", .arr arr)]

def editAtMember (messageId groupId plaintext : Str) (editedAt : Int) (m : GroupMember) :
    Proc Unit := do
  if m.memberId = keys.publicKeyB64 then return
  let some ciphertext ← encrypt sodium plaintext m.memberId keys.privateKeyB64 | return
  let _ ← updateMessageEditFor messageId m.memberId plaintext ciphertext editedAt
  let serverAddress ← memberAddress m
  if serverAddress.isEmpty then return
  let result ← sendMessage serverAddress .acceptEdit
    (.obj [("message_id", .str messageId), ("sender_id", .str keys.publicKeyB64),
      ("recipient_id", .str m.memberId), ("group_id", .str groupId),
      ("ciphertext", .str ciphertext), ("edited_at", .num editedAt)])
  if delivered result then markEditAccepted messageId (some m.memberId)

def groupEdit (req : HttpRequest) (group : PathId) : Proc Response := do
  if !(← isAuthed sodium req) then return error 401 "Unauthorized"
  let some dataJson := req.body | return error 400 "Invalid JSON or missing message_id/text"
  let some present := dataJson.hasAll? ["message_id", "text"] | return thrown
  if !present then return error 400 "Invalid JSON or missing message_id/text"
  let some messageId := dataJson.s? "message_id" | return thrown
  let some plaintext := dataJson.s? "text" | return thrown
  let some msg ← call (.getMessage messageId) | return error 404 "Unknown message"
  if msg.groupId ≠ group.text then return error 404 "Message not in this group"
  if msg.senderId ≠ keys.publicKeyB64 then
    return error 403 "Cannot edit message sent by someone else"
  let members ← call (.getGroupMembers group.text)
  if members.isEmpty then return error 404 "Group not found"
  let editedAt ← time
  members.forM (editAtMember sodium keys messageId group.text plaintext editedAt)
  notifyEditMessage messageId [] group.text
  return ok [("message_id", .str messageId), ("plaintext", .str plaintext),
    ("edited_at", .num editedAt)]

def deleteAtMember (messageId groupId : Str) (m : GroupMember) : Proc Unit := do
  if m.memberId = keys.publicKeyB64 then return
  let serverAddress ← memberAddress m
  if serverAddress.isEmpty then return
  let result ← sendMessage serverAddress .acceptDelete
    (.obj [("message_id", .str messageId), ("sender_id", .str keys.publicKeyB64),
      ("recipient_id", .str m.memberId), ("group_id", .str groupId)])
  if delivered result then markDeleteAccepted messageId (some m.memberId)

def groupDelete (req : HttpRequest) (group : PathId) : Proc Response := do
  if !(← isAuthed sodium req) then return error 401 "Unauthorized"
  let some dataJson := req.body | return error 400 "Missing message_id"
  let some present := dataJson.hasAll? ["message_id"] | return thrown
  if !present then return error 400 "Missing message_id"
  let some messageId := dataJson.s? "message_id" | return thrown
  let some msg ← call (.getMessage messageId) | return error 404 "Unknown message"
  if msg.groupId ≠ group.text then return error 404 "Message not in this group"
  if msg.senderId ≠ keys.publicKeyB64 then
    return error 403 "Cannot delete message sent by someone else"
  markDeleted messageId
  markDeletePending messageId
  let members ← call (.getGroupMembers group.text)
  members.forM (deleteAtMember keys messageId group.text)
  notifyDeleteMessage messageId [] group.text
  return ok [("message_id", .str messageId)]

end NoMiddle.GroupHandlers
