import NoMiddle.Faults
import NoMiddle.Library.Threads

/-! The functions of `db_manager` that write member lists, statement by statement. A node's
code that calls them becomes a program whose operations are single statements, and which,
alone, does what it did before. No statement fails but for a key that is taken. -/
namespace NoMiddle.Statements
open Library Text DbManager Node Faults

inductive Statement where
  | deleteMembers (groupId : Str)
  | insertMember (groupId : Str) (m : GroupMember)
  | deleteGroupRow (groupId : Str)

abbrev Statement.Res : Statement → Type
  | deleteMembers _ | insertMember .. => Bool
  | deleteGroupRow _ => Unit

def statementRes : nodeSig.Op ⊕ Statement → Type
  | .inl operation => nodeSig.Res operation
  | .inr statement => statement.Res

abbrev statementSig : Sig := ⟨nodeSig.Op ⊕ Statement, statementRes⟩

def execute (statement : Statement) : Program statementSig statement.Res :=
  Program.perform (S := statementSig) (.inr statement)

/-- One turn of the insert loop. -/
def insertOne (groupId : Str) (allOk : Bool) (m : GroupMember) : Program statementSig Bool := do
  let inserted ← execute (.insertMember groupId m)
  return allOk && inserted

def replaceGroupMembers (groupId : Str) (members : List GroupMember) :
    Program statementSig Bool := do
  if !(← execute (.deleteMembers groupId)) then return false
  members.foldlM (insertOne groupId) true

def deleteGroup (groupId : Str) : Program statementSig Unit := do
  execute (.deleteGroupRow groupId)
  let _ ← execute (.deleteMembers groupId)

def statements : (operation : nodeSig.Op) → Program statementSig (nodeSig.Res operation)
  | .inl (.call (.replaceGroupMembers groupId members)) => replaceGroupMembers groupId members
  | .inl (.call (.deleteGroup groupId)) => deleteGroup groupId
  | operation => Program.perform (S := statementSig) (.inl operation)

/-- A whole call, and the answer another host gives to a request. -/
def callAct (drawn : Input × Option Response) (operation : nodeSig.Op) (store : Store) :
    nodeSig.Res operation × Store :=
  Faults.act ⟨drawn.1, .none, drawn.2⟩ operation store

def enact (drawn : Input × Option Response) (operation : statementSig.Op) (store : Store) :
    statementSig.Res operation × Store :=
  match operation with
  | .inl operation => callAct drawn operation store
  | .inr (.deleteMembers groupId) =>
      (true, { store with
        groupMembers := store.groupMembers.delete (·.groupId = cstr groupId) })
  | .inr (.insertMember groupId m) =>
      let inserted := DbManager.insertMember groupId (true, store.groupMembers) m
      (inserted.1, { store with groupMembers := inserted.2 })
  | .inr (.deleteGroupRow groupId) =>
      ((), { store with groups := store.groups.delete (·.groupId = cstr groupId) })

variable {store after : Store}

theorem insertMembers_runs {groupId : Str} {members : List GroupMember} {allOk answer : Bool} :
    (members.foldlM (insertOne groupId) allOk).Runs (Program.Answers enact) store answer after ↔
      (answer, after) =
        ((members.foldl (insertMember groupId) (allOk, store.groupMembers)).1,
          { store with groupMembers :=
              (members.foldl (insertMember groupId) (allOk, store.groupMembers)).2 }) := by
  induction members generalizing store allOk with
  | nil =>
      rw [Prod.mk.injEq]
      exact Iff.rfl
  | cons m rest ih =>
      rw [List.foldlM_cons, List.foldl_cons]
      constructor
      · rintro ⟨_, _, ⟨drawn, ⟨⟩⟩, run⟩
        have later := ih.mp run
        exact later
      · intro same
        exact ⟨_, _, ⟨default, rfl⟩, ih.mpr same⟩

/-- Alone, the statements of a call do what the call does. -/
theorem statements_iff (operation : nodeSig.Op) (store : Store)
    (answer : nodeSig.Res operation) (after : Store) :
    (statements operation).Runs (Program.Answers enact) store answer after ↔
      Program.Answers callAct operation store answer after := by
  have single : ∀ operation : nodeSig.Op, ∀ answer : nodeSig.Res operation,
      (Program.perform (S := statementSig) (.inl operation)).Runs (Program.Answers enact) store
        answer after ↔ Program.Answers callAct operation store answer after := by
    intro operation answer
    constructor
    · rintro ⟨_, _, taken, rfl, rfl⟩
      exact taken
    · intro taken
      exact ⟨answer, after, taken, rfl, rfl⟩
  cases operation with
  | inr request => exact single _ answer
  | inl operation =>
      cases operation with
      | call call =>
          cases call with
          | replaceGroupMembers groupId members =>
              constructor
              · rintro ⟨_, _, ⟨drawn, ⟨⟩⟩, run⟩
                have same := insertMembers_runs.mp run
                refine ⟨drawn, ?_⟩
                rw [same]
                exact attempt_none drawn.1.now store (.replaceGroupMembers groupId members)
              · rintro ⟨drawn, same⟩
                have whole := (attempt_none drawn.1.now store
                  (.replaceGroupMembers groupId members)).symm.trans same
                exact ⟨_, _, ⟨drawn, rfl⟩, insertMembers_runs.mpr whole.symm⟩
          | deleteGroup groupId =>
              constructor
              · rintro ⟨_, _, ⟨_, ⟨⟩⟩, _, _, ⟨drawn, ⟨⟩⟩, rfl, rfl⟩
                exact ⟨drawn, rfl⟩
              · rintro ⟨drawn, ⟨⟩⟩
                exact ⟨_, _, ⟨drawn, rfl⟩, _, _, ⟨drawn, rfl⟩, rfl, rfl⟩
          | _ => exact single _ answer
      | _ => exact single _ answer

/-- Alone, a program runs statement by statement as it runs call by call. -/
theorem statementwise {Value : Type} {program : Proc Value} {value : Value} :
    (program.translate statements).Runs (Program.Answers enact) store value after ↔
      program.Runs (Program.Answers callAct) store value after :=
  Program.runs_translate statements_iff

end NoMiddle.Statements
