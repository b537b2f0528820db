import NoMiddle.Library.Table
import NoMiddle.Text

/-! The SQLite store behind one node. Every call of the program is one statement
or, where the source issues several under one call, the sequence of them; the
only error that can occur is a constraint violation. Text reaches a column as a C
string, so every stored text is free of NUL bytes. -/
namespace NoMiddle.DbManager
open Library Text

def messagePending : Int := 0
def messageDelivered : Int := 1
def messageFailed : Int := 2
def messageDeleted : Int := 3

structure Message where
  messageId : Str
  senderId : Str
  recipientId : Str
  groupId : Str
  plaintext : Str
  ciphertext : Str
  accepted : Int
  timestamp : Int
  editedAt : Int
  editAccepted : Int
  deleteAccepted : Int
  deletedAt : Int
deriving DecidableEq

structure GroupMember where
  groupId : Str
  memberId : Str
  serverAddress : Str
  role : Str
  addedAt : Int
deriving DecidableEq

structure Group where
  groupId : Str
  name : Str
  createdBy : Str
  createdAt : Int
deriving DecidableEq

/-- The snapshot is a JSON text; the column holds the value it was dumped from. -/
structure GroupUpdate where
  groupId : Str
  memberId : Str
  snapshotJson : Json
  version : Int
  accepted : Int
  createdAt : Int

structure Contact where
  contactId : Str
  name : Str
  serverAddress : Str
deriving DecidableEq

structure ContactInfo where
  contact : Contact
  latestMessage : Option Message
deriving DecidableEq

structure Client where
  clientId : Str
  deviceName : Str
  salt : Str
  secretHash : Str
  createdAt : Int
deriving DecidableEq

/-- The two columns an approval fills are read as empty while they are NULL. -/
structure AuthRequest where
  requestId : Str
  deviceName : Str
  createdAt : Int
  expiresAt : Int
  approvedClientId : Str
  approvedSecret : Str
deriving DecidableEq

def AllClean (texts : List Str) : Prop := ∀ text ∈ texts, Clean text

theorem allClean_map (texts : List Str) : AllClean (texts.map cstr) := by
  intro text member
  obtain ⟨source, _, rfl⟩ := List.mem_map.mp member
  exact cstr_clean source

def Message.texts (msg : Message) : List Str :=
  [msg.messageId, msg.senderId, msg.recipientId, msg.groupId, msg.plaintext, msg.ciphertext]

def GroupMember.texts (m : GroupMember) : List Str :=
  [m.groupId, m.memberId, m.serverAddress, m.role]

def Group.texts (g : Group) : List Str := [g.groupId, g.name, g.createdBy]
def GroupUpdate.texts (u : GroupUpdate) : List Str := [u.groupId, u.memberId]
def Contact.texts (c : Contact) : List Str := [c.contactId, c.name, c.serverAddress]
def Client.texts (c : Client) : List Str := [c.clientId, c.deviceName, c.salt, c.secretHash]

def AuthRequest.texts (r : AuthRequest) : List Str :=
  [r.requestId, r.deviceName, r.approvedClientId, r.approvedSecret]

/-- The row `add_message` inserts; the last four columns take their defaults. -/
def Message.stored (msg : Message) : Message :=
  { messageId := cstr msg.messageId
    senderId := cstr msg.senderId
    recipientId := cstr msg.recipientId
    groupId := cstr msg.groupId
    plaintext := cstr msg.plaintext
    ciphertext := cstr msg.ciphertext
    accepted := msg.accepted
    timestamp := msg.timestamp
    editedAt := 0
    editAccepted := 0
    deleteAccepted := 1
    deletedAt := 0 }

theorem Message.stored_clean (msg : Message) : AllClean msg.stored.texts :=
  allClean_map msg.texts

abbrev Messages := Table Str Message (·.messageId) (AllClean ·.texts)
abbrev GroupMembers :=
  Table (Str × Str) GroupMember (fun m => (m.groupId, m.memberId)) (AllClean ·.texts)
abbrev Groups := Table Str Group (·.groupId) (AllClean ·.texts)
abbrev GroupUpdates :=
  Table (Str × Str) GroupUpdate (fun u => (u.groupId, u.memberId)) (AllClean ·.texts)
abbrev Contacts := Table Str Contact (·.contactId) (AllClean ·.texts)
abbrev Clients := Table Str Client (·.clientId) (AllClean ·.texts)
abbrev AuthRequests := Table Str AuthRequest (·.requestId) (AllClean ·.texts)

structure Store where
  contacts : Contacts
  messages : Messages
  groups : Groups
  groupMembers : GroupMembers
  clients : Clients
  authRequests : AuthRequests
  groupUpdates : GroupUpdates

/-- The store `init_schema` leaves in a new file. -/
def Store.initial : Store := ⟨.empty, .empty, .empty, .empty, .empty, .empty, .empty⟩

/-! What the statements `UPDATE messages SET …` set. Each is applied to the row
with a given id, some of them only if its recipient is the given one. -/
inductive Mark where
  | accepted
  | failed
  | deleted
  | deletePending
  | deleteAccepted
  | deleteFailed
  | editAccepted
  | editFailed
  | edit (plaintext ciphertext : Str) (editedAt : Int)
deriving DecidableEq

def Mark.set (now : Int) (row : Message) : Mark → Message
  | accepted => { row with accepted := 1 }
  | failed => { row with accepted := 2 }
  | deleted => { row with accepted := 3 }
  | deletePending => { row with deleteAccepted := 0, deletedAt := now }
  | deleteAccepted => { row with deleteAccepted := 1 }
  | deleteFailed => { row with deleteAccepted := 2 }
  | editAccepted => { row with editAccepted := 1 }
  | editFailed => { row with editAccepted := 2 }
  | edit plaintext ciphertext editedAt =>
      { row with
        plaintext := cstr plaintext
        ciphertext := cstr ciphertext
        editedAt := editedAt
        editAccepted := 0 }

theorem Mark.set_messageId (now : Int) (row : Message) (mark : Mark) :
    (mark.set now row).messageId = row.messageId := by
  cases mark <;> rfl

theorem Mark.set_clean (now : Int) (row : Message) (mark : Mark) (clean : AllClean row.texts) :
    AllClean (mark.set now row).texts := by
  cases mark with
  | edit plaintext ciphertext editedAt =>
      have cleanPlain := cstr_clean plaintext
      have cleanCipher := cstr_clean ciphertext
      simp only [AllClean, Message.texts, set, List.forall_mem_cons] at clean ⊢
      simp [clean, cleanPlain, cleanCipher]
  | _ => exact clean

/-- `WHERE message_id = ?`, with or without `AND recipient_id = ?`. -/
def addressed (messageId : Str) (recipientId : Option Str) (row : Message) : Bool :=
  row.messageId = cstr messageId &&
    match recipientId with
    | some recipient => row.recipientId = cstr recipient
    | none => true

/-! The queries that answer with a list of messages. -/
inductive Query where
  | pendingMessages
  | pendingEdits
  | pendingDeletes
  | between (selfId otherId : Str)
  | forGroup (groupId : Str)
deriving DecidableEq

def Query.selects : Query → Message → Bool
  | pendingMessages, row => row.accepted = 0
  | pendingEdits, row => row.editAccepted = 0 && row.editedAt ≠ 0
  | pendingDeletes, row => row.deleteAccepted = 0 && row.accepted = 3
  | between selfId otherId, row =>
      (row.senderId = cstr selfId && row.recipientId = cstr otherId ||
        row.senderId = cstr otherId && row.recipientId = cstr selfId) &&
      row.groupId = [] && row.accepted ≠ 3
  | forGroup groupId, row => row.groupId = cstr groupId && row.accepted ≠ 3

/-- Whether the query is sorted by ascending timestamp. Rows of equal keys stay in
the order they were inserted in. -/
def Query.sorted : Query → Bool
  | between _ _ | forGroup _ => true
  | _ => false

def Query.rows (query : Query) (messages : Messages) : List Message :=
  let selected := messages.rows.filter query.selects
  if query.sorted then selected.insertionSort (·.timestamp ≤ ·.timestamp) else selected

/-- The same rows with `ORDER BY timestamp DESC LIMIT 1`. -/
def Query.latest (query : Query) (messages : Messages) : Option Message :=
  ((messages.rows.filter query.selects).insertionSort (·.timestamp ≥ ·.timestamp)).head?

def upsertContact (contactId name serverAddress : Str) (contacts : Contacts) : Contacts :=
  if contacts.has (cstr contactId) then
    contacts.update (·.contactId = cstr contactId)
      (fun row => { row with name := cstr name, serverAddress := cstr serverAddress })
      (fun _ => rfl)
      (by
        intro row clean
        have cleanName := cstr_clean name
        have cleanAddress := cstr_clean serverAddress
        simp only [AllClean, Contact.texts, List.forall_mem_cons] at clean ⊢
        simp [clean, cleanName, cleanAddress])
  else
    contacts.insert ⟨cstr contactId, cstr name, cstr serverAddress⟩
      (allClean_map [contactId, name, serverAddress])

def addMessage (msg : Message) (messages : Messages) : Messages :=
  messages.insert msg.stored msg.stored_clean

def updateMessages (now : Int) (messageId : Str) (recipientId : Option Str) (mark : Mark)
    (messages : Messages) : Messages :=
  messages.update (addressed messageId recipientId) (mark.set now ·)
    (fun row => mark.set_messageId now row) (fun row => mark.set_clean now row)

def contactsWithLatestMessage (selfId : Str) (store : Store) : List ContactInfo :=
  store.contacts.rows.map fun contact =>
    ⟨contact, (Query.between selfId contact.contactId).latest store.messages⟩

def createGroup (g : Group) (groups : Groups) : Groups :=
  groups.insert ⟨cstr g.groupId, cstr g.name, cstr g.createdBy, g.createdAt⟩
    (allClean_map g.texts)

def updateGroupName (groupId name : Str) (groups : Groups) : Groups :=
  groups.update (·.groupId = cstr groupId) (fun row => { row with name := cstr name })
    (fun _ => rfl)
    (by
      intro row clean
      have cleanName := cstr_clean name
      simp only [AllClean, Group.texts, List.forall_mem_cons] at clean ⊢
      simp [clean, cleanName])

/-- The row `replace_group_members` inserts for one entry of its list. -/
def GroupMember.stored (groupId : Str) (m : GroupMember) : GroupMember :=
  ⟨cstr groupId, cstr m.memberId, cstr m.serverAddress, cstr m.role, m.addedAt⟩

/-- One turn of the insert loop: a conflict is recorded and the loop goes on. -/
def insertMember (groupId : Str) (done : Bool × GroupMembers) (m : GroupMember) :
    Bool × GroupMembers :=
  (done.1 && !done.2.has (cstr groupId, cstr m.memberId),
    done.2.insert (m.stored groupId)
      (allClean_map [groupId, m.memberId, m.serverAddress, m.role]))

def replaceGroupMembers (groupId : Str) (members : List GroupMember) (table : GroupMembers) :
    Bool × GroupMembers :=
  members.foldl (insertMember groupId) (true, table.delete (·.groupId = cstr groupId))

def groupMembersOf (groupId : Str) (table : GroupMembers) : List GroupMember :=
  (table.rows.filter (·.groupId = cstr groupId)).insertionSort (·.addedAt ≤ ·.addedAt)

def upsertGroupUpdate (now : Int) (u : GroupUpdate) (updates : GroupUpdates) : GroupUpdates :=
  if updates.has (cstr u.groupId, cstr u.memberId) then
    updates.update (fun row => row.groupId = cstr u.groupId && row.memberId = cstr u.memberId)
      (fun row =>
        { row with snapshotJson := u.snapshotJson, version := u.version, accepted := 0 })
      (fun _ => rfl) (fun _ clean => clean)
  else
    updates.insert ⟨cstr u.groupId, cstr u.memberId, u.snapshotJson, u.version, 0, now⟩
      (allClean_map u.texts)

def pendingGroupUpdates (updates : GroupUpdates) : List GroupUpdate :=
  (updates.rows.filter (·.accepted = 0)).insertionSort (·.createdAt ≤ ·.createdAt)

def markGroupUpdateAccepted (groupId memberId : Str) (updates : GroupUpdates) : GroupUpdates :=
  updates.update (fun row => row.groupId = cstr groupId && row.memberId = cstr memberId)
    (fun row => { row with accepted := 1 }) (fun _ => rfl) (fun _ clean => clean)

def createClient (c : Client) (clients : Clients) : Clients :=
  clients.insert
    ⟨cstr c.clientId, cstr c.deviceName, cstr c.salt, cstr c.secretHash, c.createdAt⟩
    (allClean_map c.texts)

def addAuthRequest (requestId deviceName : Str) (createdAt expiresAt : Int)
    (requests : AuthRequests) : AuthRequests :=
  requests.insert ⟨cstr requestId, cstr deviceName, createdAt, expiresAt, [], []⟩
    (allClean_map [requestId, deviceName, [], []])

def approveAuthRequest (requestId approvedClientId approvedSecret : Str)
    (requests : AuthRequests) : AuthRequests :=
  requests.update (·.requestId = cstr requestId)
    (fun row =>
      { row with
        approvedClientId := cstr approvedClientId
        approvedSecret := cstr approvedSecret })
    (fun _ => rfl)
    (by
      intro row clean
      have cleanClient := cstr_clean approvedClientId
      have cleanSecret := cstr_clean approvedSecret
      simp only [AllClean, AuthRequest.texts, List.forall_mem_cons] at clean ⊢
      simp [clean, cleanClient, cleanSecret])

/-! The calls of `db_manager`. The statements that update messages and the queries
that list them are one constructor each. -/
inductive Call where
  | upsertContact (contactId name serverAddress : Str)
  | getContactAddress (contactId : Str)
  | getContactName (contactId : Str)
  | getContactsWithLatestMessage (selfId : Str)
  | addMessage (msg : Message)
  | updateMessages (messageId : Str) (recipientId : Option Str) (mark : Mark)
  | getMessage (messageId : Str)
  | getMessages (query : Query)
  | getLastMessageForGroup (groupId : Str)
  | createGroup (g : Group)
  | updateGroupName (groupId name : Str)
  | getGroup (groupId : Str)
  | getGroups
  | deleteGroup (groupId : Str)
  | replaceGroupMembers (groupId : Str) (members : List GroupMember)
  | getGroupMembers (groupId : Str)
  | upsertGroupUpdate (u : GroupUpdate)
  | getPendingGroupUpdates
  | markGroupUpdateAccepted (groupId memberId : Str)
  | hasClients
  | createClient (c : Client)
  | getClient (clientId : Str)
  | deleteClient (clientId : Str)
  | clientsList
  | addAuthRequest (requestId deviceName : Str) (createdAt expiresAt : Int)
  | getAuthRequest (requestId : Str)
  | deleteAuthRequest (requestId : Str)
  | approveAuthRequest (requestId approvedClientId approvedSecret : Str)

abbrev Call.Res : Call → Type
  | upsertContact .. | addMessage _ | updateMessages .. | createGroup _ | updateGroupName ..
  | replaceGroupMembers .. | hasClients | createClient _ | deleteClient _ | addAuthRequest ..
  | deleteAuthRequest _ | approveAuthRequest .. => Bool
  | getContactAddress _ | getContactName _ => Str
  | getContactsWithLatestMessage _ => List ContactInfo
  | getMessage _ | getLastMessageForGroup _ => Option Message
  | getMessages _ => List Message
  | getGroup _ => Option Group
  | getGroups => List Group
  | deleteGroup _ | upsertGroupUpdate _ | markGroupUpdateAccepted .. => Unit
  | getGroupMembers _ => List GroupMember
  | getPendingGroupUpdates => List GroupUpdate
  | getClient _ => Option Client
  | clientsList => List Client
  | getAuthRequest _ => Option AuthRequest

/-- One call, `now` being what `unixepoch()` reads. -/
def Call.exec (now : Int) (store : Store) : (call : Call) → call.Res × Store
  | upsertContact contactId name serverAddress =>
      (true, { store with
        contacts := DbManager.upsertContact contactId name serverAddress store.contacts })
  | getContactAddress contactId =>
      (match store.contacts.find (cstr contactId) with
        | some contact => contact.serverAddress
        | none => [], store)
  | getContactName contactId =>
      (match store.contacts.find (cstr contactId) with
        | some contact => contact.name
        | none => [], store)
  | getContactsWithLatestMessage selfId => (contactsWithLatestMessage selfId store, store)
  | addMessage msg =>
      (!store.messages.has (cstr msg.messageId),
        { store with messages := DbManager.addMessage msg store.messages })
  | updateMessages messageId recipientId mark =>
      (true, { store with
        messages := DbManager.updateMessages now messageId recipientId mark store.messages })
  | getMessage messageId => (store.messages.find (cstr messageId), store)
  | getMessages query => (query.rows store.messages, store)
  | getLastMessageForGroup groupId => ((Query.forGroup groupId).latest store.messages, store)
  | createGroup g =>
      (!store.groups.has (cstr g.groupId),
        { store with groups := DbManager.createGroup g store.groups })
  | updateGroupName groupId name =>
      (true, { store with groups := DbManager.updateGroupName groupId name store.groups })
  | getGroup groupId => (store.groups.find (cstr groupId), store)
  | getGroups => (store.groups.rows.insertionSort (·.createdAt ≥ ·.createdAt), store)
  | deleteGroup groupId =>
      ((), { store with
        groups := store.groups.delete (·.groupId = cstr groupId)
        groupMembers := store.groupMembers.delete (·.groupId = cstr groupId) })
  | replaceGroupMembers groupId members =>
      let replaced := DbManager.replaceGroupMembers groupId members store.groupMembers
      (replaced.1, { store with groupMembers := replaced.2 })
  | getGroupMembers groupId => (groupMembersOf groupId store.groupMembers, store)
  | upsertGroupUpdate u =>
      ((), { store with groupUpdates := DbManager.upsertGroupUpdate now u store.groupUpdates })
  | getPendingGroupUpdates => (pendingGroupUpdates store.groupUpdates, store)
  | markGroupUpdateAccepted groupId memberId =>
      ((), { store with
        groupUpdates := DbManager.markGroupUpdateAccepted groupId memberId store.groupUpdates })
  | hasClients => (!store.clients.rows.isEmpty, store)
  | createClient c =>
      (!store.clients.has (cstr c.clientId),
        { store with clients := DbManager.createClient c store.clients })
  | getClient clientId => (store.clients.find (cstr clientId), store)
  | deleteClient clientId =>
      (true, { store with clients := store.clients.delete (·.clientId = cstr clientId) })
  | clientsList => (store.clients.rows.insertionSort (·.createdAt ≤ ·.createdAt), store)
  | addAuthRequest requestId deviceName createdAt expiresAt =>
      (!store.authRequests.has (cstr requestId),
        { store with
          authRequests := DbManager.addAuthRequest requestId deviceName createdAt expiresAt
            store.authRequests })
  | getAuthRequest requestId => (store.authRequests.find (cstr requestId), store)
  | deleteAuthRequest requestId =>
      (true, { store with
        authRequests := store.authRequests.delete (·.requestId = cstr requestId) })
  | approveAuthRequest requestId approvedClientId approvedSecret =>
      (true, { store with
        authRequests := DbManager.approveAuthRequest requestId approvedClientId approvedSecret
          store.authRequests })

end NoMiddle.DbManager
