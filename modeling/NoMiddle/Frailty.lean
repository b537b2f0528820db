import NoMiddle.Faults
import NoMiddle.Delivery
import NoMiddle.SnapshotConduct

/-! Networks in which any SQLite call may fail at any time. Every call of `db_manager` draws
which of its statements fail, whoever makes it and whatever runs beside it; the runs in which
nothing fails are among these runs. -/
namespace NoMiddle.Frailty
open Library Text Crypto DbManager DbViews Node Network Conduct Faults
open TaskConduct (World Action)
open SnapshotConduct (Answered answered_handle)

variable {Host : Type}

/-- The same nodes, each operation with the faults it draws. -/
def frail (network : Deployment Host) :
    Rpc.System localSig Host Store Task Request Response Drawn where
  handle _ drawn operation := act drawn (.inl operation)
  program := network.program
  background := Deployment.background
  serve := network.serve
  routes request := network.routes request.serverAddress
  foreign := network.foreign

abbrev FrailAction (Host : Type) := Rpc.Label Host Task Drawn Response

/-- An input with which nothing fails. -/
def soundly (input : Input) : Drawn := ⟨input, .none, none⟩

def faultless : Action Host → FrailAction Host
  | .start host task => .start host task
  | .act thread input => .act thread (soundly input)
  | .post thread => .post thread
  | .receive thread => .receive thread
  | .giveUp thread => .giveUp thread
  | .deliver job host => .deliver job host
  | .reply thread => .reply thread
  | .drop job => .drop job
  | .foreign job answer => .foreign job answer

theorem act_soundly (input : Input) (operation : LocalOp) (store : Store) :
    act (soundly input) (.inl operation) store = handle input operation store := by
  cases operation with
  | call call => exact attempt_none input.now store call
  | _ => rfl

section Runs
variable [DecidableEq Host] {network : Deployment Host} {before after : World Host}
  {label : Action Host}

theorem faultless_step (step : Rpc.Step network.system label before after) :
    Rpc.Step (frail network) (faultless label) before after := by
  cases step with
  | start host task free => exact .start host task free
  | act index input current here taken =>
      exact .act index (soundly input) current here ((act_soundly input _ _).trans taken)
  | post index current here idle => exact .post index current here idle
  | receive index current here waits answered => exact .receive index current here waits answered
  | giveUp index current here waits => exact .giveUp index current here waits
  | deliver job host flies routed => exact .deliver job host flies routed
  | reply index current serves done served => exact .reply index current serves done served
  | drop job flies => exact .drop job flies
  | foreign job answer flies outside => exact .foreign job answer flies outside

/-- A run without faults is a run. -/
theorem faultless_run (run : Rpc.Reachable network.system (fun _ _ => True) before after) :
    Rpc.Reachable (frail network) (fun _ _ => True) before after := by
  induction run with
  | start => exact .start
  | step _ _ taken ih => exact ih.step trivial (faultless_step taken)

end Runs

/-! What a call still guarantees. -/

/-- A call did all it should, or nothing to the messages. -/
theorem attempt_messages (now : Int) (codes : Codes) (store : Store) (call : Call) :
    attempt now codes store call = call.exec now store ∨
      (attempt now codes store call).2.messages = store.messages := by
  cases call with
  | replaceGroupMembers groupId members =>
      refine .inr ?_
      unfold attempt
      split <;> rfl
  | getContactsWithLatestMessage | getMessages | getGroups | getGroupMembers
  | getPendingGroupUpdates | clientsList | deleteGroup => exact .inr rfl
  | _ =>
      by_cases fails : codes.fails 0 = true
      · exact .inr (by simp [attempt, fails])
      · exact .inl (by simp [attempt, fails])

theorem attempt_added {now : Int} {codes : Codes} {store : Store} {msg : Message}
    (added : (attempt now codes store (.addMessage msg)).1 = true) :
    attempt now codes store (.addMessage msg) = (Call.addMessage msg).exec now store := by
  by_cases fails : codes.fails 0 = true
  · simp [attempt, fails, failed] at added
  · simp [attempt, fails]

theorem insertMembers_refused (codes : Codes) (groupId : Str) (statement : Nat)
    (members : List GroupMember) {done : Bool × GroupMembers} (refused : done.1 = false) :
    (insertMembers codes groupId statement members done).1 = false := by
  induction members generalizing statement done with
  | nil => exact refused
  | cons m rest ih =>
      refine ih (statement + 1) ?_
      split
      · rfl
      · simp [insertMember, refused]

/-- A list of which every insert succeeded has been stored as without faults. -/
theorem insertMembers_stored {codes : Codes} {groupId : Str} {statement : Nat}
    {members : List GroupMember} {done : Bool × GroupMembers}
    (stored : (insertMembers codes groupId statement members done).1 = true) :
    insertMembers codes groupId statement members done =
      members.foldl (insertMember groupId) done := by
  induction members generalizing statement done with
  | nil => rfl
  | cons m rest ih =>
      unfold insertMembers at stored ⊢
      by_cases fails : codes.fails statement = true
      · rw [if_pos fails] at stored
        cases (insertMembers_refused codes groupId (statement + 1) rest rfl).symm.trans stored
      · rw [if_neg fails] at stored ⊢
        exact ih stored

theorem attempt_replaced {now : Int} {codes : Codes} {store : Store} {groupId : Str}
    {members : List GroupMember}
    (stored : (attempt now codes store (.replaceGroupMembers groupId members)).1 = true) :
    attempt now codes store (.replaceGroupMembers groupId members) =
      (Call.replaceGroupMembers groupId members).exec now store := by
  by_cases fails : codes.fails 0 = true
  · have refused : attempt now codes store (.replaceGroupMembers groupId members) =
        (false, store) := if_pos fails
    rw [refused] at stored
    cases stored
  · have tried : attempt now codes store (.replaceGroupMembers groupId members) =
        ((insertMembers codes groupId 1 members
            (true, store.groupMembers.delete (·.groupId = cstr groupId))).1,
          { store with groupMembers := (insertMembers codes groupId 1 members
            (true, store.groupMembers.delete (·.groupId = cstr groupId))).2 }) := if_neg fails
    rw [tried] at stored ⊢
    rw [insertMembers_stored stored]
    rfl

/-- What is true of an answer also when calls fail: what is otherwise, save that an update may
be refused. -/
def Credible : (operation : nodeSig.Op) → nodeSig.Res operation → Prop
  | .inl (.call (.updateMessages ..)), _ => True
  | operation, answer => Answered operation answer

/-- Does not change a message. -/
def unmarked : nodeSig.Op → Bool
  | .inl (.call (.updateMessages ..)) => false
  | _ => true

theorem credible_answered {operation : nodeSig.Op} {answer : nodeSig.Res operation}
    (plain : unmarked operation = true) (credible : Credible operation answer) :
    Answered operation answer := by
  cases operation using operation_cases with
  | call db =>
      cases db with
      | updateMessages => cases plain
      | _ => exact credible
  | _ => exact credible

theorem credible_possible {operation : nodeSig.Op} {answer : nodeSig.Res operation}
    (plain : unmarked operation = true) (credible : Credible operation answer) :
    Possible operation answer := by
  have answered := credible_answered plain credible
  cases operation using operation_cases with
  | call db =>
      cases db with
      | replaceGroupMembers => trivial
      | _ => exact answered
  | _ => exact answered

theorem credible_act (drawn : Drawn) (operation : LocalOp) (store : Store) :
    Credible (.inl operation) (act drawn (.inl operation) store).1 := by
  have whole := answered_handle drawn.input operation store
  cases operation with
  | call call =>
      cases call with
      | getMessages query =>
          have front := read_front drawn.codes (query.rows store.messages)
          exact ⟨whole.1.sublist (front.sublist.map _), fun row member =>
            whole.2 row (front.mem member)⟩
      | getMessage messageId =>
          change ∀ row, (attempt drawn.input.now drawn.codes store (.getMessage messageId)).1 =
            some row → _
          unfold attempt
          split
          · intro row found
            cases found
          · exact whole
      | getGroupMembers groupId =>
          have front := read_front drawn.codes (groupMembersOf groupId store.groupMembers)
          exact ⟨whole.1.sublist (front.sublist.map _), fun m member =>
            whole.2 m (front.mem member)⟩
      | getPendingGroupUpdates =>
          have front := read_front drawn.codes (pendingGroupUpdates store.groupUpdates)
          exact ⟨whole.1.sublist (front.sublist.map _), fun u member =>
            whole.2 u (front.mem member)⟩
      | replaceGroupMembers groupId members =>
          intro stored
          have done : attempt drawn.input.now drawn.codes store (.replaceGroupMembers groupId
            members) = _ := attempt_replaced stored
          exact whole ((congrArg Prod.fst done).symm.trans stored)
      | _ => trivial
  | _ => exact whole

/-! The rows of messages. -/

/-- The one row of an id is as it was, or as a call without faults leaves it. -/
theorem find_act (drawn : Drawn) (operation : LocalOp) (store : Store) (id : Str) :
    (act drawn (.inl operation) store).2.messages.find id = store.messages.find id ∨
    ∃ call, operation = .call call ∧
      (act drawn (.inl operation) store).2.messages.find id =
        onMessage drawn.input.now id call (store.messages.find id) := by
  cases operation with
  | call call =>
      rcases attempt_messages drawn.input.now drawn.codes store call with whole | same
      · refine .inr ⟨call, rfl, ?_⟩
        exact (congrArg (fun done => done.2.messages.find id) whole).trans
          (messages_exec drawn.input.now store call id)
      · exact .inl (congrArg (·.find id) same)
  | _ => exact .inl rfl

theorem stored_act (drawn : Drawn) (operation : LocalOp) (store : Store) (message : Recall.Core)
    (stored : Recall.Stored store message) :
    Recall.Stored (act drawn (.inl operation) store).2 message := by
  cases operation with
  | call call =>
      rcases attempt_messages drawn.input.now drawn.codes store call with whole | same
      · change Recall.Stored (attempt drawn.input.now drawn.codes store call).2 message
        rw [whole]
        exact Recall.stored_exec drawn.input.now store call message stored
      · obtain ⟨row, found, core⟩ := stored
        exact ⟨row, (congrArg (·.find message.messageId) same).trans found, core⟩
  | _ => exact stored

end NoMiddle.Frailty
