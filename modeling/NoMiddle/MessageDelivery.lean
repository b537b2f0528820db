import NoMiddle.Node

/-! Outgoing deliveries: the first attempt for each kind of item and the retry the
worker makes from the stored row. -/
namespace NoMiddle.MessageDelivery
open Library Text Crypto DbManager Node

/-- `result.has_value() && *result == 200`. -/
def delivered (result : Option Nat) : Bool := result = some 200

def deliverMessage (senderId recipientId ciphertext plaintext : Str) (timestamp : Int) :
    Proc (Option Str) := do
  let messageId ← generateUuid
  if !(← call (.addMessage ⟨messageId, senderId, recipientId, [], plaintext, ciphertext, 0,
      timestamp, 0, 0, 1, 0⟩)) then
    return none
  let serverAddress ← call (.getContactAddress recipientId)
  let result ← sendMessage (cutServerAddress serverAddress) .acceptMessage
    (.obj [("message_id", .str messageId), ("sender_id", .str senderId),
      ("recipient_id", .str recipientId), ("ciphertext", .str ciphertext),
      ("timestamp", .num timestamp)])
  if delivered result then
    markAccepted messageId recipientId
    return some messageId
  else
    return none

def deliverMessageEdit (messageId senderId recipientId ciphertext : Str) (editedAt : Int) :
    Proc Bool := do
  let serverAddress ← call (.getContactAddress recipientId)
  if serverAddress.isEmpty then return false
  let result ← sendMessage (cutServerAddress serverAddress) .acceptEdit
    (.obj [("message_id", .str messageId), ("sender_id", .str senderId),
      ("recipient_id", .str recipientId), ("ciphertext", .str ciphertext),
      ("edited_at", .num editedAt)])
  if delivered result then markEditAccepted messageId none
  return delivered result

def retryDeliverMessage (msg : Message) : Proc Bool := do
  let serverAddress ← call (.getContactAddress msg.recipientId)
  if serverAddress.isEmpty then return false
  let result ← sendMessage (cutServerAddress serverAddress) .acceptMessage
    (.obj [("message_id", .str msg.messageId), ("sender_id", .str msg.senderId),
      ("recipient_id", .str msg.recipientId), ("group_id", .str msg.groupId),
      ("ciphertext", .str msg.ciphertext), ("timestamp", .num msg.timestamp)])
  if delivered result then markAccepted msg.messageId msg.recipientId
  return delivered result

def retryMessageEdit (msg : Message) : Proc Bool := do
  let serverAddress ← call (.getContactAddress msg.recipientId)
  if serverAddress.isEmpty then return false
  let result ← sendMessage (cutServerAddress serverAddress) .acceptEdit
    (.obj [("message_id", .str msg.messageId), ("sender_id", .str msg.senderId),
      ("recipient_id", .str msg.recipientId), ("ciphertext", .str msg.ciphertext),
      ("edited_at", .num msg.editedAt)])
  if delivered result then markEditAccepted msg.messageId (some msg.recipientId)
  return delivered result

def deliverMessageDelete (messageId senderId recipientId : Str) : Proc Bool := do
  let serverAddress ← call (.getContactAddress recipientId)
  if serverAddress.isEmpty then return false
  let result ← sendMessage (cutServerAddress serverAddress) .acceptDelete
    (.obj [("message_id", .str messageId), ("sender_id", .str senderId),
      ("recipient_id", .str recipientId)])
  if delivered result then markDeleteAccepted messageId none
  return delivered result

def retryMessageDelete (msg : Message) : Proc Bool := do
  let serverAddress ← call (.getContactAddress msg.recipientId)
  if serverAddress.isEmpty then return false
  let result ← sendMessage (cutServerAddress serverAddress) .acceptDelete
    (.obj [("message_id", .str msg.messageId), ("sender_id", .str msg.senderId),
      ("recipient_id", .str msg.recipientId)])
  if delivered result then markDeleteAccepted msg.messageId (some msg.recipientId)
  return delivered result

def memberJson (m : GroupMember) : Json :=
  .obj [("member_id", .str m.memberId), ("server_address", .str m.serverAddress),
    ("role", .str m.role), ("added_at", .num m.addedAt)]

/-- `name` is there only when the group is. -/
def snapshot (groupId senderId : Str) (version : Int) (grp : Option Group)
    (members : List GroupMember) : Json :=
  .obj ([("group_id", .str groupId), ("sender_id", .str senderId), ("version", .num version)] ++
    (match grp with
      | some g => [("name", .str g.name)]
      | none => []) ++
    [("members", .arr (members.map memberJson))])

/-- One turn of the push loop. -/
def pushGroupUpdate (groupId senderId : Str) (version : Int) (snapshotJson : Json)
    (allOnline : Bool) (m : GroupMember) : Proc Bool := do
  if m.memberId = senderId then return allOnline
  call (.upsertGroupUpdate ⟨groupId, m.memberId, snapshotJson, version, 0, 0⟩)
  let addr := cutServerAddress m.serverAddress
  if addr.isEmpty then return false
  let res ← sendMessage addr .acceptGroupUpdate snapshotJson
  if delivered res then
    call (.markGroupUpdateAccepted groupId m.memberId)
    return allOnline
  else
    return false

def deliverGroupUpdate (groupId senderId : Str) (members : List GroupMember) (version : Int) :
    Proc Bool := do
  let grp ← call (.getGroup groupId)
  let snapshotJson := snapshot groupId senderId version grp members
  members.foldlM (pushGroupUpdate groupId senderId version snapshotJson) true

def retryGroupUpdate (u : GroupUpdate) : Proc Bool := do
  let addr ← call (.getContactAddress u.memberId)
  if addr.isEmpty then return false
  let res ← sendMessage (cutServerAddress addr) .acceptGroupUpdate u.snapshotJson
  if delivered res then call (.markGroupUpdateAccepted u.groupId u.memberId)
  return delivered res

end NoMiddle.MessageDelivery
