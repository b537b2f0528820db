import NoMiddle.DbViews
import NoMiddle.Devices

/-! What each call does to one registered client and to one pending request, and
what one step of the device routes does to them. -/
namespace NoMiddle.DeviceViews
open Library Text Crypto DbManager Node Devices

/-- The row `create_client` inserts. -/
def row (c : Client) : Client :=
  ⟨cstr c.clientId, cstr c.deviceName, cstr c.salt, cstr c.secretHash, c.createdAt⟩

def asked (requestId deviceName : Str) (createdAt expiresAt : Int) : AuthRequest :=
  ⟨cstr requestId, cstr deviceName, createdAt, expiresAt, [], []⟩

def entered (clientId secret : Str) (request : AuthRequest) : AuthRequest :=
  { request with approvedClientId := cstr clientId, approvedSecret := cstr secret }

/-- The effect on the client with the given id. -/
def onClient (id : Str) : Call → Option Client → Option Client
  | .createClient c, found => found.or (if cstr c.clientId = id then some (row c) else none)
  | .deleteClient clientId, found => if cstr clientId = id then none else found
  | _, found => found

def onRequest (id : Str) : Call → Option AuthRequest → Option AuthRequest
  | .addAuthRequest requestId deviceName createdAt expiresAt, found =>
      found.or (if cstr requestId = id then some (asked requestId deviceName createdAt expiresAt)
        else none)
  | .deleteAuthRequest requestId, found => if cstr requestId = id then none else found
  | .approveAuthRequest requestId clientId secret, found =>
      if cstr requestId = id then found.map (entered clientId secret) else found
  | _, found => found

theorem clients_exec (now : Int) (store : Store) (call : Call) (id : Str) :
    (call.exec now store).2.clients.find id = onClient id call (store.clients.find id) := by
  cases call with
  | createClient c => exact store.clients.find_insert (row c) (allClean_map c.texts) id
  | deleteClient clientId =>
      simp only [Call.exec, Table.find_delete, onClient]
      cases found : store.clients.find id with
      | none => simp
      | some old =>
          have key := store.clients.find_key found
          by_cases same : cstr clientId = id
          · simp [same, key]
          · have different : ¬old.clientId = cstr clientId := fun h => same (h.symm.trans key)
            simp [same, different]
  | _ => rfl

theorem requests_exec (now : Int) (store : Store) (call : Call) (id : Str) :
    (call.exec now store).2.authRequests.find id =
      onRequest id call (store.authRequests.find id) := by
  cases call with
  | addAuthRequest requestId deviceName createdAt expiresAt =>
      exact store.authRequests.find_insert (asked requestId deviceName createdAt expiresAt)
        (allClean_map [requestId, deviceName, [], []]) id
  | deleteAuthRequest requestId =>
      simp only [Call.exec, Table.find_delete, onRequest]
      cases found : store.authRequests.find id with
      | none => simp
      | some old =>
          have key := store.authRequests.find_key found
          by_cases same : cstr requestId = id
          · simp [same, key]
          · have different : ¬old.requestId = cstr requestId := fun h => same (h.symm.trans key)
            simp [same, different]
  | approveAuthRequest requestId clientId secret =>
      simp only [Call.exec, approveAuthRequest, Table.find_update, onRequest]
      cases found : store.authRequests.find id with
      | none => simp
      | some old =>
          have key := store.authRequests.find_key found
          by_cases same : cstr requestId = id
          · simp [same, key, entered]
          · have different : ¬old.requestId = cstr requestId := fun h => same (h.symm.trans key)
            simp [same, different]
  | _ => rfl

variable {sodium : Sodium} {before after : World} {label : Action}

/-- Only a call of a thread changes the tables. -/
theorem call_step (step : Rpc.Step (system sodium) label before after) :
    ((∀ id, (after.stores ()).clients.find id = (before.stores ()).clients.find id) ∧
      ∀ id, (after.stores ()).authRequests.find id = (before.stores ()).authRequests.find id) ∨
    ∃ index input thread call next, label = .act index input ∧
      before.threads[index]? = some thread ∧ thread.program = .op (.inl (.call call)) next ∧
      (∀ id, (after.stores ()).clients.find id =
        onClient id call ((before.stores ()).clients.find id)) ∧
      ∀ id, (after.stores ()).authRequests.find id =
        onRequest id call ((before.stores ()).authRequests.find id) := by
  rcases Rpc.stores_step step with same | ⟨index, input, thread, operation, next, acts, current,
    here, changed⟩
  · rw [same]
    exact .inl ⟨fun _ => rfl, fun _ => rfl⟩
  have left : after.stores () = (handle input operation (before.stores ())).2 := by
    rw [changed]
    exact Function.update_self ..
  cases operation with
  | call call =>
      refine .inr ⟨index, input, thread, call, next, acts, current, here, ?_, ?_⟩
      · rw [left]
        exact clients_exec input.now _ call
      · rw [left]
        exact requests_exec input.now _ call
  | _ =>
      rw [left]
      exact .inl ⟨fun _ => rfl, fun _ => rfl⟩

end NoMiddle.DeviceViews
