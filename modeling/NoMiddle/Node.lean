import NoMiddle.Library.Rpc
import NoMiddle.Crypto
import NoMiddle.DbManager

/-! What the code of a node can do besides computing: call its store, read the
clock, draw random values, read memory nobody wrote, push to its web clients and
send a request to another host. -/
namespace NoMiddle.Node
open Library Text Crypto DbManager

inductive LocalOp where
  | call (call : Call)
  | time
  | dice
  | randombytes (size : Nat)
  | uninitialised
  | notify (payload : Json)

abbrev LocalOp.Res : LocalOp → Type
  | call db => db.Res
  | time => Int
  | dice => Nat → Fin 16
  | randombytes _ => Str
  | uninitialised => Int
  | notify _ => Unit

abbrev localSig : Sig := ⟨LocalOp, LocalOp.Res⟩

inductive Endpoint where
  | acceptMessage
  | acceptEdit
  | acceptDelete
  | acceptGroupUpdate
  | publicKey
deriving DecidableEq

/-- A request to `https://<serverAddress>/<endpoint>`. -/
structure Request where
  serverAddress : Str
  endpoint : Endpoint
  body : Json

inductive Content where
  | empty
  | text (text : Str)
  | json (value : Json)

structure Response where
  code : Nat
  content : Content

abbrev nodeSig : Sig := Rpc.sig localSig Request Response
abbrev Proc := Program nodeSig

/-- An operation is a call, a request or one of those that leave the store alone. -/
theorem operation_cases {motive : nodeSig.Op → Prop} (operation : nodeSig.Op)
    (call : ∀ db, motive (.inl (.call db))) (sent : ∀ request, motive (.inr request))
    (time : motive (.inl .time)) (dice : motive (.inl .dice))
    (randombytes : ∀ size, motive (.inl (.randombytes size)))
    (uninitialised : motive (.inl .uninitialised))
    (notify : ∀ payload, motive (.inl (.notify payload))) : motive operation := by
  cases operation with
  | inl operation => cases operation <;> apply_assumption
  | inr request => exact sent request

/-- Everything one operation may draw from outside the program. -/
structure Input where
  now : Int
  dice : Nat → Fin 16
  bytes : Nat → UInt8
  memory : Int
deriving Inhabited

def handle (input : Input) (operation : LocalOp) (store : Store) : operation.Res × Store :=
  match operation with
  | .call call => call.exec input.now store
  | .time => (input.now, store)
  | .dice => (input.dice, store)
  | .randombytes size => ((List.range size).map input.bytes, store)
  | .uninitialised => (input.memory, store)
  | .notify _ => ((), store)

def perform (operation : LocalOp) : Proc operation.Res :=
  Program.perform (S := nodeSig) (.inl operation)

def call (call : Call) : Proc call.Res := perform (.call call)
def time : Proc Int := perform .time
def uninitialised : Proc Int := perform .uninitialised
def notify (payload : Json) : Proc Unit := perform (.notify payload)

/-- A transport error and a time-out both answer `none`. -/
def post (request : Request) : Proc (Option Response) :=
  Program.perform (S := nodeSig) (.inr request)

def sendMessage (serverAddress : Str) (endpoint : Endpoint) (body : Json) : Proc (Option Nat) := do
  let answer ← post ⟨serverAddress, endpoint, body⟩
  return answer.map (·.code)

def fetchRemote (serverAddress : Str) (endpoint : Endpoint) : Proc (Option Content) := do
  match ← post ⟨serverAddress, endpoint, .null⟩ with
  | none => return none
  | some answer => if answer.code ≠ 200 then return none else return some answer.content

def randomB64url (size : Nat) : Proc Str := do
  let bytes ← perform (.randombytes size)
  return b64urlEncode bytes

def encrypt (sodium : Sodium) (plaintext recipientPublicKey senderPrivateKey : Str) :
    Proc (Option Str) := do
  let nonce ← perform (.randombytes nonceBytes)
  return encryptMessage sodium nonce plaintext recipientPublicKey senderPrivateKey

def uuidOf (dice : Nat → Fin 16) : Str :=
  let chars := str "0123456789abcdef"
  (List.range 36).map fun i =>
    if i = 8 ∨ i = 13 ∨ i = 18 ∨ i = 23 then 45
    else if i = 14 then 52
    else if i = 19 then chars.getD ((dice i).val &&& 3 ||| 8) 0
    else chars.getD (dice i).val 0

def generateUuid : Proc Str := do
  let dice ← perform .dice
  return uuidOf dice

def cutServerAddress (serverAddress : Str) : Str :=
  if (str "http://").isPrefixOf serverAddress then serverAddress.drop 7
  else if (str "https://").isPrefixOf serverAddress then serverAddress.drop 8
  else serverAddress

/-! The functions of `db_manager` that are one constructor of `Call` in the model. -/
section DbCalls

def markAccepted (messageId recipientId : Str) : Proc Unit := do
  let _ ← call (.updateMessages messageId (some recipientId) .accepted)

def markFailed (messageId : Str) : Proc Unit := do
  let _ ← call (.updateMessages messageId none .failed)

def markDeleted (messageId : Str) : Proc Unit := do
  let _ ← call (.updateMessages messageId none .deleted)

def markDeletePending (messageId : Str) : Proc Unit := do
  let _ ← call (.updateMessages messageId none .deletePending)

/-- With and without a recipient, as the source overloads it. -/
def markDeleteAccepted (messageId : Str) (recipientId : Option Str) : Proc Unit := do
  let _ ← call (.updateMessages messageId recipientId .deleteAccepted)

def markDeleteFailed (messageId : Str) : Proc Unit := do
  let _ ← call (.updateMessages messageId none .deleteFailed)

def markEditAccepted (messageId : Str) (recipientId : Option Str) : Proc Unit := do
  let _ ← call (.updateMessages messageId recipientId .editAccepted)

def markEditFailed (messageId : Str) : Proc Unit := do
  let _ ← call (.updateMessages messageId none .editFailed)

def updateMessageEdit (messageId plaintext ciphertext : Str) (editedAt : Int) : Proc Bool :=
  call (.updateMessages messageId none (.edit plaintext ciphertext editedAt))

def updateMessageEditFor (messageId recipientId plaintext ciphertext : Str) (editedAt : Int) :
    Proc Bool :=
  call (.updateMessages messageId (some recipientId) (.edit plaintext ciphertext editedAt))

def getPendingMessages : Proc (List Message) := call (.getMessages .pendingMessages)
def getPendingEdits : Proc (List Message) := call (.getMessages .pendingEdits)
def getPendingDeletes : Proc (List Message) := call (.getMessages .pendingDeletes)

def getMessagesBetween (selfId otherId : Str) : Proc (List Message) :=
  call (.getMessages (.between selfId otherId))

def getMessagesForGroup (groupId : Str) : Proc (List Message) :=
  call (.getMessages (.forGroup groupId))

end DbCalls

theorem uuid_clean (dice : Nat → Fin 16) : Clean (uuidOf dice) := by
  have nonzero : ∀ index < 16, (str "0123456789abcdef").getD index 0 ≠ 0 := by decide
  intro member
  obtain ⟨i, _, char⟩ := List.mem_map.mp member
  revert char
  split_ifs
  · decide
  · decide
  · exact nonzero _ (Nat.or_lt_two_pow (Nat.and_lt_two_pow _ (by decide : 3 < 2 ^ 4)) (by decide))
  · exact nonzero _ (dice i).isLt

theorem uuid_ne_nil (dice : Nat → Fin 16) : uuidOf dice ≠ [] := by
  simp [uuidOf]

end NoMiddle.Node
