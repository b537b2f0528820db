import NoMiddle.RetryWorker
import NoMiddle.GroupHandlers
import NoMiddle.AuthHandlers

/-! Nodes that serve their users and each other. Every route is a task the outside
world may start at any time and any number of times; the worker's pass is a task
that never overlaps with itself on one node. -/
namespace NoMiddle.Network
open Library Text Crypto DbManager Node Handlers GroupHandlers AuthHandlers RetryWorker

inductive Task where
  | upsertContact (req : HttpRequest)
  | sendMessage (req : HttpRequest)
  | editMessage (req : HttpRequest)
  | deleteMessage (req : HttpRequest)
  | contacts (req : HttpRequest)
  | messages (req : HttpRequest) (contactId : Option Str)
  | groupsCreate (req : HttpRequest)
  | addMember (req : HttpRequest) (group : PathId)
  | removeMember (req : HttpRequest) (group : PathId)
  | groups (req : HttpRequest)
  | groupMembers (req : HttpRequest) (group : PathId)
  | groupSend (req : HttpRequest) (group : PathId)
  | groupMessages (req : HttpRequest) (group : PathId)
  | groupEdit (req : HttpRequest) (group : PathId)
  | groupDelete (req : HttpRequest) (group : PathId)
  | remotePublicKey (req : HttpRequest) (addr : Option Str)
  | publicKey
  | authRegister
  | authRequest (req : HttpRequest)
  | authApprove (req : HttpRequest)
  | authPoll (requestId : Option Str)
  | clients (req : HttpRequest)
  | deleteClient (req : HttpRequest) (clientId : Str)
  /-- A request to one of the peers' routes that no node of the network sent. -/
  | incoming (endpoint : Endpoint) (body : Option Json)
  | retryPass

/-- Where an address leads may change from request to request, so an address is
related to every node it may reach. -/
structure Deployment (Host : Type) where
  sodium : Sodium
  keys : Host → KeyPair
  distinct : ∀ left right, (keys left).publicKey = (keys right).publicKey → left = right
  routes : Str → Host → Bool
  foreign : Request → Bool

namespace Deployment
variable {Host : Type} (network : Deployment Host) (host : Host)

/-- The id other nodes know a node by. -/
def id : Str := (network.keys host).publicKeyB64

def serve (request : Request) : Proc Response :=
  Handlers.serve network.sodium (network.keys host) request

def receive (endpoint : Endpoint) (body : Option Json) : Proc Response :=
  match endpoint with
  | .acceptMessage => acceptMessage network.sodium (network.keys host) body
  | .acceptEdit => acceptEdit network.sodium (network.keys host) body
  | .acceptDelete => acceptDelete (network.keys host) body
  | .acceptGroupUpdate => acceptGroupUpdate body
  | .publicKey => Handlers.publicKey (network.keys host)

def program : Task → Proc Response
  | .upsertContact req => upsertContact network.sodium req
  | .sendMessage req => sendDirect network.sodium (network.keys host) req
  | .editMessage req => editDirect network.sodium (network.keys host) req
  | .deleteMessage req => deleteDirect network.sodium (network.keys host) req
  | .contacts req => Handlers.contacts network.sodium (network.keys host) req
  | .messages req contactId => Handlers.messages network.sodium (network.keys host) req contactId
  | .groupsCreate req => groupsCreate network.sodium (network.keys host) req
  | .addMember req group => addMember network.sodium (network.keys host) req group
  | .removeMember req group => removeMember network.sodium (network.keys host) req group
  | .groups req => GroupHandlers.groups network.sodium req
  | .groupMembers req group => GroupHandlers.groupMembers network.sodium req group
  | .groupSend req group => groupSend network.sodium (network.keys host) req group
  | .groupMessages req group => groupMessages network.sodium req group
  | .groupEdit req group => groupEdit network.sodium (network.keys host) req group
  | .groupDelete req group => groupDelete network.sodium (network.keys host) req group
  | .remotePublicKey req addr => remotePublicKey network.sodium req addr
  | .publicKey => Handlers.publicKey (network.keys host)
  | .authRegister => authRegister network.sodium
  | .authRequest req => authRequest network.sodium req
  | .authApprove req => authApprove network.sodium req
  | .authPoll requestId => authPoll requestId
  | .clients req => AuthHandlers.clients network.sodium req
  | .deleteClient req clientId => AuthHandlers.deleteClient network.sodium req clientId
  | .incoming endpoint body => network.receive host endpoint body
  | .retryPass => do
      retryPass
      return ⟨200, .empty⟩

def background : Task → Bool
  | .retryPass => true
  | _ => false

/-- All interleavings of single db calls, requests, answers and losses. -/
def system : Rpc.System localSig Host Store Task Request Response Input where
  handle _ := handle
  program := network.program
  background := background
  serve := network.serve
  routes request := network.routes request.serverAddress
  foreign := network.foreign

end Deployment

/-! A network small enough to run: two nodes, a box that hides nothing, and a user
who has registered on both. -/
def pair : Deployment Bool where
  sodium := .transparent
  keys host := .filled (if host then 1 else 2)
  distinct := by decide
  routes address host := address = if host then str "a" else str "b"
  foreign _ := false

def registered (store : Store) : Store :=
  { store with
    clients := createClient ⟨str "c", [], [], hashSecret .transparent (str "s") [], 0⟩ .empty }

/-- The nodes are each other's contacts. -/
def acquainted (host : Bool) : Store :=
  { registered Store.initial with
    contacts := DbManager.upsertContact (pair.id !host) [] (if host then str "b" else str "a")
      .empty }

def userRequest (fields : List (String × Json)) : HttpRequest :=
  ⟨str "c", str "s", some (.obj fields)⟩

/-- A clock that shows the given time, and otherwise zeros. -/
def clockAt (now : Int) : Input := ⟨now, fun _ => 0, fun _ => 0, 0⟩

/-- The id that is then generated. -/
def firstId : Str := uuidOf (clockAt 0).dice

end NoMiddle.Network
