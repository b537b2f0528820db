import NoMiddle.AuthHandlers
import NoMiddle.GroupHandlers
import NoMiddle.Library.Threads

/-! The web sockets of a node: who is connected, under which client ids, and the handlers that
change it. Each section under `ws_mutex` is one operation. -/
namespace NoMiddle.Sockets
open Library Text Crypto DbManager Node Handlers GroupHandlers

/-- A connection is its address. -/
abbrev Conn := Nat

/-- `ws_clients` and `ws_client_ids`, an id that is not in the map having no connections. -/
structure Desk where
  store : Store
  wsClients : List Conn
  wsClientIds : Str → List Conn

inductive SocketOp where
  | authorize (conn : Conn) (clientId : Str)
  | erase (conn : Conn)
  | revoke (clientId : Str)
  | broadcast (payload : Json)
  | sendText (conn : Conn) (payload : Json)
  | close (conn : Conn) (reason : String)

/-- `revoke` answers with the connections to close, `broadcast` with those it was sent to. -/
abbrev SocketOp.Res : SocketOp → Type
  | revoke _ | broadcast _ => List Conn
  | _ => Unit

def socketRes : nodeSig.Op ⊕ SocketOp → Type
  | .inl operation => nodeSig.Res operation
  | .inr operation => operation.Res

abbrev socketSig : Sig := ⟨nodeSig.Op ⊕ SocketOp, socketRes⟩

def handleSocket (operation : SocketOp) (desk : Desk) : operation.Res × Desk :=
  match operation with
  | .authorize conn clientId =>
      ((), { desk with
        wsClients := desk.wsClients.insert conn
        wsClientIds := Function.update desk.wsClientIds clientId
          (desk.wsClientIds clientId ++ [conn]) })
  | .erase conn =>
      ((), { desk with
        wsClients := desk.wsClients.filter (· ≠ conn)
        wsClientIds := fun clientId => (desk.wsClientIds clientId).filter (· ≠ conn) })
  | .revoke clientId =>
      (desk.wsClientIds clientId, { desk with
        wsClients := desk.wsClients.filter (· ∉ desk.wsClientIds clientId)
        wsClientIds := Function.update desk.wsClientIds clientId [] })
  | .broadcast _ => (desk.wsClients, desk)
  | .sendText _ _ | .close _ _ => ((), desk)

/-- The socket handlers send no requests to other hosts. -/
def enact (input : Input) (operation : socketSig.Op) (desk : Desk) :
    socketSig.Res operation × Desk :=
  match operation with
  | .inl (.inl operation) =>
      let taken := handle input operation desk.store
      (taken.1, { desk with store := taken.2 })
  | .inl (.inr _) => ((none : Option Response), desk)
  | .inr operation => handleSocket operation desk

def socket (operation : SocketOp) : Program socketSig operation.Res :=
  Program.perform (S := socketSig) (.inr operation)

def fromNode {Value : Type} (program : Proc Value) : Program socketSig Value :=
  program.translate fun operation => Program.perform (S := socketSig) (.inl operation)

variable (sodium : Sodium)

/-- `onmessage`, `data` being what the frame parses to. -/
def onMessage (conn : Conn) (data : Option Json) (isBinary : Bool) :
    Program socketSig (Option Response) := do
  if isBinary then return none
  let some parsed := data | return none
  -- A value that is no container throws, and the handler ends with it.
  let some true := parsed.hasAll? ["type"] | return none
  let some type := parsed.optional "type" | return none
  if type ≠ str "auth" then return none
  match parsed.optional "client_id", parsed.optional "secret" with
  | some clientId, some secret =>
      if !(← fromNode (authenticate sodium clientId secret)) then
        socket (.close conn "unauthorized")
        return none
      socket (.authorize conn clientId)
      socket (.sendText conn (.obj [("type", .str (str "auth_ok"))]))
      return none
  | _, _ =>
      socket (.close conn "unauthorized")
      return none

def onClose (conn : Conn) : Program socketSig (Option Response) := do
  socket (.erase conn)
  return none

def deleteClient (req : HttpRequest) (clientId : Str) : Program socketSig (Option Response) := do
  if !(← fromNode (isAuthed sodium req)) then return some (error 401 "Unauthorized")
  if req.clientId = clientId then return some (error 400 "Cannot remove the current device")
  if !(← fromNode (call (.deleteClient clientId))) then return some (error 404 "Unknown client")
  let toClose ← socket (.revoke clientId)
  toClose.forM fun conn => socket (.close conn "revoked")
  return some (ok [("ok", .bool true)])

/-- What the four `notify_*` have in common. -/
def notifyAll (payload : Json) : Program socketSig (Option Response) := do
  let _ ← socket (.broadcast payload)
  return none

/-- What can happen to the sockets; `onopen` only prints. -/
inductive Task where
  | message (conn : Conn) (data : Option Json) (isBinary : Bool)
  | closed (conn : Conn)
  | delete (req : HttpRequest) (clientId : PathId)
  | notify (payload : Json)

def Task.program : Task → Program socketSig (Option Response)
  | message conn data isBinary => onMessage sodium conn data isBinary
  | closed conn => onClose conn
  | delete req clientId => deleteClient sodium req clientId.text
  | notify payload => notifyAll payload

/-- The server starts without connections. -/
def Desk.fresh (store : Store) : Desk := ⟨store, [], fun _ => []⟩

/-- A node's program without its sockets. -/
def withoutSockets : (operation : socketSig.Op) → Proc (socketSig.Res operation)
  | .inl operation => Program.perform operation
  | .inr (.revoke _) | .inr (.broadcast _) => return ([] : List Conn)
  | .inr (.authorize ..) | .inr (.erase _) | .inr (.sendText ..) | .inr (.close ..) => return ()

theorem fromNode_without {Value : Type} (program : Proc Value) :
    (fromNode program).translate withoutSockets = program := by
  induction program with
  | ret value => rfl
  | op operation next ih => exact congrArg (Program.op operation) (funext ih)

/-- Its sockets apart, the route is the one of the device routes. -/
theorem deleteClient_without (req : HttpRequest) (clientId : Str) :
    (deleteClient sodium req clientId).translate withoutSockets = do
      let response ← AuthHandlers.deleteClient sodium req clientId
      return some response := by
  unfold deleteClient AuthHandlers.deleteClient
  rw [Program.translate_bind, fromNode_without, Program.bind_assoc]
  congr 1
  funext authed
  cases authed with
  | false => rfl
  | true =>
      simp only [Bool.not_true, Bool.false_eq_true, ↓reduceIte]
      split
      · rfl
      · rw [Program.translate_bind, fromNode_without, Program.bind_assoc]
        congr 1
        funext deleted
        cases deleted <;> rfl

end NoMiddle.Sockets
