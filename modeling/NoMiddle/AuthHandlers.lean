import NoMiddle.Handlers

/-! Registration and approval of devices. The table of open web sockets is not part
of the store; what the device routes do to it is left out. -/
namespace NoMiddle.AuthHandlers
open Library Text Crypto DbManager Node Handlers

variable (sodium : Sodium)

/-- A fresh id and secret with the row that keeps the salted hash. -/
def newClient (deviceName : Str) (now : Int) : Proc (Str × Str × Bool) := do
  let clientId ← randomB64url 16
  let secret ← randomB64url 32
  let salt ← randomB64url 16
  let secretHash := hashSecret sodium secret salt
  let created ← call (.createClient ⟨clientId, deviceName, salt, secretHash, now⟩)
  return (clientId, secret, created)

def authRegister : Proc Response := do
  if ← call .hasClients then return error 403 "Node is locked"
  let now ← time
  let (clientId, secret, created) ← newClient sodium [] now
  if !created then return error 500 "Failed to register client"
  return ok [("client_id", .str clientId), ("secret", .str secret)]

def authRequest (req : HttpRequest) : Proc Response := do
  let some named :=
      match req.body with
      | none => some false
      | some dataJson => dataJson.hasAll? ["name"]
    | return thrown
  let deviceName :=
    match req.body.bind (·.optional "name") with
    | some name => if named && !name.isEmpty && name.length ≤ 64 then name else str "New device"
    | none => str "New device"
  let now ← time
  if !(← call .hasClients) then
    let (clientId, secret, created) ← newClient sodium deviceName now
    if !created then return error 500 "Failed to register client"
    return ok [("auto", .bool true), ("client_id", .str clientId), ("secret", .str secret)]
  let requestId ← randomB64url 16
  let expiresAt := now + 600
  if !(← call (.addAuthRequest requestId deviceName now expiresAt)) then
    return error 500 "Failed to create auth request"
  notify (.obj [("type", .str (str "auth_request")), ("request_id", .str requestId),
    ("device_name", .str deviceName), ("created_at", .num now)])
  return ok [("auto", .bool false), ("request_id", .str requestId), ("expires_at", .num expiresAt)]

def authApprove (req : HttpRequest) : Proc Response := do
  if !(← isAuthed sodium req) then return error 401 "Unauthorized"
  let some dataJson := req.body | return error 400 "Missing request_id or allow"
  let some present := dataJson.hasAll? ["request_id"] | return thrown
  if !present then return error 400 "Missing request_id or allow"
  let some requestId := dataJson.optional "request_id"
    | return error 400 "Missing request_id or allow"
  if !dataJson.has "allow" then return error 400 "Missing request_id or allow"
  let some row ← call (.getAuthRequest requestId) | return error 404 "Unknown auth request"
  let now ← time
  if row.expiresAt < now then
    let _ ← call (.deleteAuthRequest requestId)
    return error 410 "Auth request expired"
  if !row.approvedClientId.isEmpty then return error 409 "Already approved"
  if !dataJson.isTrue "allow" then
    let _ ← call (.deleteAuthRequest requestId)
    return ok [("ok", .bool true)]
  let (clientId, secret, created) ← newClient sodium row.deviceName now
  if !created then return error 500 "Failed to create client"
  if !(← call (.approveAuthRequest requestId clientId secret)) then
    let _ ← call (.deleteClient clientId)
    return error 500 "Failed to approve request"
  return ok [("ok", .bool true)]

def authPoll (requestId : Option Str) : Proc Response := do
  let some requestId := requestId | return error 400 "Missing request_id parameter"
  let some row ← call (.getAuthRequest requestId) | return ok [("status", .str (str "unknown"))]
  let now ← time
  if row.expiresAt < now then
    let _ ← call (.deleteAuthRequest requestId)
    return ok [("status", .str (str "expired"))]
  if row.approvedClientId.isEmpty then
    return ok [("status", .str (str "pending")), ("device_name", .str row.deviceName)]
  let _ ← call (.deleteAuthRequest requestId)
  return ok [("status", .str (str "approved")), ("client_id", .str row.approvedClientId),
    ("secret", .str row.approvedSecret)]

def clients (req : HttpRequest) : Proc Response := do
  if !(← isAuthed sodium req) then return error 401 "Unauthorized"
  let clients ← call .clientsList
  return ok [("clients", .arr (clients.map fun c =>
    .obj [("client_id", .str c.clientId), ("device_name", .str c.deviceName),
      ("created_at", .num c.createdAt)]))]

def deleteClient (req : HttpRequest) (clientId : Str) : Proc Response := do
  if !(← isAuthed sodium req) then return error 401 "Unauthorized"
  if req.clientId = clientId then return error 400 "Cannot remove the current device"
  if !(← call (.deleteClient clientId)) then return error 404 "Unknown client"
  return ok [("ok", .bool true)]

end NoMiddle.AuthHandlers
