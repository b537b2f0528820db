import NoMiddle.Footprint
import NoMiddle.DbViews

/-! One route run by itself. Its node's store answers its calls, everything outside
the program is drawn freely, and a request it sends is noted down and answered in
any way or not at all. -/
namespace NoMiddle.Solo
open Library Text DbManager DbViews Node Handlers Footprint

structure Desk where
  store : Store
  sent : List (Request × Option Response)

/-- One operation, given what it draws and how its request is answered. -/
def act (drawn : Input × Option Response) (operation : nodeSig.Op) (desk : Desk) :
    nodeSig.Res operation × Desk :=
  match operation with
  | .inl operation =>
      let taken := handle drawn.1 operation desk.store
      (taken.1, { desk with store := taken.2 })
  | .inr request => (drawn.2, { desk with sent := desk.sent ++ [(request, drawn.2)] })

abbrev step := Program.Answers act

abbrev contract : Contract nodeSig Desk := .demonic step

/-- The route may answer and leave the desk like this. -/
def Runs (program : Proc Response) (desk : Desk) (response : Response) (after : Desk) : Prop :=
  program.Runs step desk response after

variable {Value : Type} {post : Value → Desk → Prop} {desk : Desk}

theorem monotone : contract.Monotone := Contract.demonic_monotone step

theorem wp_perform {operation : LocalOp} {rest : operation.Res → Proc Value}
    (later : ∀ input, (rest (handle input operation desk.store).1).wp contract post
      ⟨(handle input operation desk.store).2, desk.sent⟩) :
    (perform operation >>= rest).wp contract post desk := by
  rintro _ _ ⟨drawn, ⟨⟩⟩
  exact later drawn.1

theorem wp_call {db : Call} {rest : db.Res → Proc Value}
    (later : ∀ now, (rest (db.exec now desk.store).1).wp contract post
      ⟨(db.exec now desk.store).2, desk.sent⟩) :
    (call db >>= rest).wp contract post desk :=
  wp_perform fun input => later input.now

theorem wp_time {rest : Int → Proc Value} (later : ∀ now, (rest now).wp contract post desk) :
    (time >>= rest).wp contract post desk :=
  wp_perform fun input => later input.now

theorem wp_uninitialised {rest : Int → Proc Value}
    (later : ∀ value, (rest value).wp contract post desk) :
    (uninitialised >>= rest).wp contract post desk :=
  wp_perform fun input => later input.memory

theorem wp_generateUuid {rest : Str → Proc Value}
    (later : ∀ dice, (rest (uuidOf dice)).wp contract post desk) :
    (generateUuid >>= rest).wp contract post desk :=
  wp_perform fun input => later input.dice

theorem wp_encrypt {sodium : Crypto.Sodium} {plaintext recipient sender : Str}
    {rest : Option Str → Proc Value}
    (later : ∀ nonce, (rest (Crypto.encryptMessage sodium nonce plaintext recipient sender)).wp
      contract post desk) :
    (encrypt sodium plaintext recipient sender >>= rest).wp contract post desk :=
  wp_perform fun _ => later _

theorem wp_mark {db : Call} {rest : Unit → Proc Value}
    (later : ∀ now, (rest ()).wp contract post ⟨(db.exec now desk.store).2, desk.sent⟩) :
    ((do let _ ← call db) >>= rest).wp contract post desk := by
  rintro _ _ ⟨drawn, ⟨⟩⟩
  exact later drawn.1.now

theorem wp_send {serverAddress : Str} {endpoint : Endpoint} {body : Json}
    {rest : Option Nat → Proc Value}
    (later : ∀ answer : Option Response, (rest (answer.map (·.code))).wp contract post
      ⟨desk.store, desk.sent ++ [(⟨serverAddress, endpoint, body⟩, answer)]⟩) :
    (sendMessage serverAddress endpoint body >>= rest).wp contract post desk := by
  rintro _ _ ⟨drawn, ⟨⟩⟩
  exact later drawn.2

/-- What the first part does is of no matter to what follows. -/
theorem wp_after {Between : Type} {program : Proc Between} {rest : Between → Proc Value}
    (later : ∀ value after, (rest value).wp contract post after) :
    (program >>= rest).wp contract post desk := by
  have anything : program.wp contract (fun _ _ => True) desk :=
    (Program.wp_demonic_iff step program _ desk).mpr fun _ _ _ => trivial
  exact Program.wp_seq monotone program rest desk anything fun value after _ => later value after

/-- Only the credential check reads the store before the route's own code. -/
theorem wp_authed (sodium : Crypto.Sodium) (req : HttpRequest) (refused : Response)
    {rest : Proc Response} {post : Response → Desk → Prop} (refusal : post refused desk)
    (later : rest.wp contract post desk) :
    (do if !(← isAuthed sodium req) then return refused
        rest).wp contract post desk := by
  have checked : (isAuthed sodium req).wp contract (fun _ after => after = desk) desk := by
    unfold isAuthed authenticate
    split
    · rfl
    · refine wp_perform fun input => ?_
      split <;> rfl
  refine Program.wp_seq monotone _ _ desk checked ?_
  rintro authed _ rfl
  cases authed with
  | true => exact later
  | false => exact refusal

/-- A program free of message writes leaves the message table alone. -/
theorem messages_of_only {program : Proc Value} (only : program.Only silent) (desk : Desk) :
    program.wp contract (fun _ after => after.store.messages = desk.store.messages) desk := by
  suffices ∀ before : Desk, before.store.messages = desk.store.messages →
      program.wp contract (fun _ after => after.store.messages = desk.store.messages) before from
    this desk rfl
  induction program with
  | ret value => exact fun _ same => same
  | op operation next ih =>
      rintro before same answer after taken
      refine ih answer (only.2 answer) after ?_
      cases operation with
      | inr request => cases only.1
      | inl operation =>
          obtain ⟨drawn, ⟨⟩⟩ := taken
          rw [← same]
          cases operation with
          | call call =>
              cases call with
              | addMessage | updateMessages => cases only.1
              | _ => rfl
          | _ => rfl

/-! The same runs with a record of all operations. -/
section Noted

abbrev Note := Desk × List (Event nodeSig)

abbrev noted : Contract nodeSig Note := .demonic (Program.Answers (Program.traced act))

def NotedRuns (program : Proc Response) (desk : Desk) (response : Response) (after : Note) : Prop :=
  program.Runs (Program.Answers (Program.traced act)) (desk, []) response after

theorem noted_monotone : noted.Monotone := Contract.demonic_monotone _

/-- Every run has its record. -/
theorem notedRuns_iff {program : Proc Response} {desk after : Desk} {response : Response} :
    (∃ trace, NotedRuns program desk response (after, trace)) ↔
      Runs program desk response after :=
  Program.runs_traced []

theorem noted_perform {post : Value → Note → Prop} {note : Note} {operation : LocalOp}
    {rest : operation.Res → Proc Value}
    (later : ∀ input, (rest (handle input operation note.1.store).1).wp noted post
      (⟨(handle input operation note.1.store).2, note.1.sent⟩,
        ⟨.inl operation, (handle input operation note.1.store).1⟩ :: note.2)) :
    (perform operation >>= rest).wp noted post note := by
  rintro _ _ ⟨drawn, ⟨⟩⟩
  exact later drawn.1

theorem noted_send {post : Value → Note → Prop} {note : Note} {serverAddress : Str}
    {endpoint : Endpoint} {body : Json} {rest : Option Nat → Proc Value}
    (later : ∀ answer : Option Response, (rest (answer.map (·.code))).wp noted post
      (⟨note.1.store, note.1.sent ++ [(⟨serverAddress, endpoint, body⟩, answer)]⟩,
        ⟨.inr ⟨serverAddress, endpoint, body⟩, answer⟩ :: note.2)) :
    (sendMessage serverAddress endpoint body >>= rest).wp noted post note := by
  rintro _ _ ⟨drawn, ⟨⟩⟩
  exact later drawn.2

end Noted

/-! Routes run one after another, each from the store the one before it left. -/
section Visits
variable {Route : Type} {program : Route → Proc Response} {condition : Store → Route → Prop}
  {initial store : Store}

/-- The stores a node comes to when each request it serves meets the condition. -/
inductive Visits (program : Route → Proc Response) (condition : Store → Route → Prop)
    (initial : Store) : Store → Prop where
  | start : Visits program condition initial initial
  | run {before route response after} (earlier : Visits program condition initial before)
      (meets : condition before route) (ran : Runs (program route) ⟨before, []⟩ response after) :
      Visits program condition initial after.store

theorem Visits.invariant (invariant : Store → Prop) (start : invariant initial)
    (step : ∀ before route response after, invariant before → condition before route →
      Runs (program route) ⟨before, []⟩ response after → invariant after.store)
    (visits : Visits program condition initial store) : invariant store := by
  induction visits with
  | start => exact start
  | run _ meets ran ih => exact step _ _ _ _ ih meets ran

/-- Executes the routes, each on a list of what its operations draw. -/
def visit (program : Route → Proc Response) :
    List (Route × List (Input × Option Response)) → Store → Option Store
  | [], store => some store
  | (route, drawn) :: rest, store =>
      ((program route).exec act drawn ⟨store, []⟩).bind fun done => visit program rest done.2.store

theorem visit_visits (routes : List (Route × List (Input × Option Response)))
    (meets : ∀ store, ∀ visited ∈ routes, condition store visited.1) {middle : Store}
    (earlier : Visits program condition initial middle)
    (visited : visit program routes middle = some store) :
    Visits program condition initial store := by
  induction routes generalizing middle with
  | nil =>
      cases visited
      exact earlier
  | cons first rest ih =>
      obtain ⟨⟨response, after⟩, executed, later⟩ := Option.bind_eq_some_iff.mp visited
      have ran := Program.exec_runs act _ _ _ _ _ executed
      exact ih (fun store other member => meets store other (List.mem_cons_of_mem _ member))
        (.run earlier (meets middle first List.mem_cons_self) ran) later

/-- The same, as long as each route passes a check. -/
def visitIf (program : Route → Proc Response) (passes : Store → Route → Bool) :
    List (Route × List (Input × Option Response)) → Store → Option Store
  | [], store => some store
  | (route, drawn) :: rest, store =>
      if passes store route then
        ((program route).exec act drawn ⟨store, []⟩).bind fun done =>
          visitIf program passes rest done.2.store
      else none

theorem visitIf_visits {passes : Store → Route → Bool}
    (sound : ∀ store route, passes store route = true → condition store route)
    (routes : List (Route × List (Input × Option Response))) {middle : Store}
    (earlier : Visits program condition initial middle)
    (visited : visitIf program passes routes middle = some store) :
    Visits program condition initial store := by
  induction routes generalizing middle with
  | nil =>
      cases visited
      exact earlier
  | cons first rest ih =>
      unfold visitIf at visited
      split at visited
      · next passed =>
        obtain ⟨⟨response, after⟩, executed, later⟩ := Option.bind_eq_some_iff.mp visited
        exact ih (.run earlier (sound _ _ passed) (Program.exec_runs act _ _ _ _ _ executed)) later
      · cases visited

end Visits
end NoMiddle.Solo
