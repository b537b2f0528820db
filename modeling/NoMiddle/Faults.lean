import NoMiddle.Node

/-! Calls of `db_manager` whose single SQLite calls may fail. A `prepare` or `step` that
fails reads and changes nothing; what the function around it makes of that is the
source's own doing. -/
namespace NoMiddle.Faults
open Library Text DbManager Node

/-- Which SQLite calls fail inside one call of `db_manager`: the `prepare` of its n-th
statement, and the k-th `step` of the n-th statement. -/
structure Codes where
  prepare : Nat → Bool
  step : Nat → Nat → Bool

def Codes.none : Codes := ⟨fun _ => false, fun _ _ => false⟩

/-- A statement that is stepped once fails with either of its two calls. -/
def Codes.fails (codes : Codes) (statement : Nat) : Bool :=
  codes.prepare statement || codes.step statement 0

/-- `while (sqlite3_step(stmt) == SQLITE_ROW)`, with the steps that fail. -/
def readRows {Row : Type} (fails : Nat → Bool) : List Row → List Row
  | [] => []
  | row :: rest => if fails 0 then [] else row :: readRows (fun step => fails (step + 1)) rest

def Codes.read {Row : Type} (codes : Codes) (rows : List Row) : List Row :=
  if codes.prepare 0 then [] else readRows (codes.step 0) rows

/-- The insert loop, the statement of the next entry being the given one. -/
def insertMembers (codes : Codes) (groupId : Str) :
    Nat → List GroupMember → Bool × GroupMembers → Bool × GroupMembers
  | _, [], done => done
  | statement, m :: rest, done =>
      insertMembers codes groupId (statement + 1) rest
        (if codes.fails statement then (false, done.2) else insertMember groupId done m)

/-- What a function of one statement answers when the statement fails. -/
def failed : (call : Call) → call.Res
  | .upsertContact .. | .addMessage _ | .updateMessages .. | .createGroup _ | .updateGroupName ..
  | .replaceGroupMembers .. | .hasClients | .createClient _ | .deleteClient _
  | .addAuthRequest .. | .deleteAuthRequest _ | .approveAuthRequest .. => false
  | .getContactAddress _ | .getContactName _ => ([] : Str)
  | .getContactsWithLatestMessage _ => ([] : List ContactInfo)
  | .getMessage _ | .getLastMessageForGroup _ => (none : Option Message)
  | .getMessages _ => ([] : List Message)
  | .getGroup _ => (none : Option Group)
  | .getGroups => ([] : List Group)
  | .deleteGroup _ | .upsertGroupUpdate _ | .markGroupUpdateAccepted .. => ()
  | .getGroupMembers _ => ([] : List GroupMember)
  | .getPendingGroupUpdates => ([] : List GroupUpdate)
  | .getClient _ => (none : Option Client)
  | .clientsList => ([] : List Client)
  | .getAuthRequest _ => (none : Option AuthRequest)

/-- One call under the given codes. -/
def attempt (now : Int) (codes : Codes) (store : Store) : (call : Call) → call.Res × Store
  | .getContactsWithLatestMessage selfId =>
      (codes.read (contactsWithLatestMessage selfId store), store)
  | .getMessages query => (codes.read (query.rows store.messages), store)
  | .getGroups =>
      (codes.read (store.groups.rows.insertionSort (·.createdAt ≥ ·.createdAt)), store)
  | .getGroupMembers groupId => (codes.read (groupMembersOf groupId store.groupMembers), store)
  | .getPendingGroupUpdates => (codes.read (pendingGroupUpdates store.groupUpdates), store)
  | .clientsList =>
      (codes.read (store.clients.rows.insertionSort (·.createdAt ≤ ·.createdAt)), store)
  | .deleteGroup groupId =>
      ((), { store with
        groups := if codes.fails 0 then store.groups
          else store.groups.delete (·.groupId = cstr groupId)
        groupMembers := if codes.fails 1 then store.groupMembers
          else store.groupMembers.delete (·.groupId = cstr groupId) })
  | .replaceGroupMembers groupId members =>
      if codes.fails 0 then (false, store)
      else
        let replaced := insertMembers codes groupId 1 members
          (true, store.groupMembers.delete (·.groupId = cstr groupId))
        (replaced.1, { store with groupMembers := replaced.2 })
  | call => if codes.fails 0 then (failed call, store) else call.exec now store

/-- What one operation draws from outside: values, faults, and the answer to a request. -/
structure Drawn where
  input : Input
  codes : Codes
  answer : Option Response

def act (drawn : Drawn) (operation : nodeSig.Op) (store : Store) :
    nodeSig.Res operation × Store :=
  match operation with
  | .inl (.call call) => attempt drawn.input.now drawn.codes store call
  | .inl operation => handle drawn.input operation store
  | .inr _ => (drawn.answer, store)

/-- The run of a route that is handled alone. -/
abbrev play {Value : Type} (program : Proc Value) (drawn : Nat → Drawn) (store : Store) :
    Value × Store :=
  program.play act drawn store

theorem readRows_front {Row : Type} (fails : Nat → Bool) (rows : List Row) :
    readRows fails rows <+: rows := by
  induction rows generalizing fails with
  | nil => exact List.prefix_rfl
  | cons row rest ih =>
      unfold readRows
      split
      · exact List.nil_prefix
      · exact (List.prefix_cons_inj row).mpr (ih _)

theorem read_front {Row : Type} (codes : Codes) (rows : List Row) :
    codes.read rows <+: rows := by
  unfold Codes.read
  split
  · exact List.nil_prefix
  · exact readRows_front _ rows

theorem readRows_none {Row : Type} (rows : List Row) : readRows (fun _ => false) rows = rows := by
  induction rows with
  | nil => rfl
  | cons row rest ih => exact congrArg (row :: ·) ih

theorem insertMembers_none (groupId : Str) (statement : Nat) (members : List GroupMember)
    (done : Bool × GroupMembers) :
    insertMembers .none groupId statement members done =
      members.foldl (insertMember groupId) done := by
  induction members generalizing statement done with
  | nil => rfl
  | cons m rest ih => exact ih (statement + 1) _

/-- Without faults a call does what it is meant to do. -/
theorem attempt_none (now : Int) (store : Store) (call : Call) :
    attempt now .none store call = call.exec now store := by
  cases call with
  | replaceGroupMembers groupId members =>
      change (_, _) = (_, _)
      rw [insertMembers_none]
      rfl
  | getContactsWithLatestMessage | getMessages | getGroups | getGroupMembers
  | getPendingGroupUpdates | clientsList => exact congrArg (·, store) (readRows_none _)
  | _ => rfl

end NoMiddle.Faults
