import NoMiddle.Solo

/-! Routes and passes run one after another over the stores of all nodes. A request
is served to its end before its caller goes on; on a lossy network the request may
get lost, or the answer after it was served, and the caller sees no difference. -/
namespace NoMiddle.Sequential
open Library Text Crypto DbManager Node Handlers Network

abbrev Stores (Host : Type) := Host → Store

variable {Host : Type} [DecidableEq Host] (network : Deployment Host) (lossy : Bool)

/-- How a request ends: with an answer or without, and with these stores. -/
inductive Exchange (request : Request) (stores : Stores Host) :
    Option Response → Stores Host → Prop where
  | served (peer : Host) {response after}
      (routed : network.routes request.serverAddress peer = true)
      (ran : Solo.Runs (network.serve peer request) ⟨stores peer, []⟩ response after) :
      Exchange request stores (some response) (Function.update stores peer after.store)
  | answerLost (peer : Host) {response after} (loses : lossy = true)
      (routed : network.routes request.serverAddress peer = true)
      (ran : Solo.Runs (network.serve peer request) ⟨stores peer, []⟩ response after) :
      Exchange request stores none (Function.update stores peer after.store)
  | unreached (fails : lossy = true ∨
      ∀ peer, network.routes request.serverAddress peer = false) :
      Exchange request stores none stores

/-- One operation of a program that runs on the given node. -/
def step (host : Host) (operation : nodeSig.Op) (stores : Stores Host)
    (answer : nodeSig.Res operation) (after : Stores Host) : Prop :=
  match operation with
  | .inl operation => ∃ input, handle input operation (stores host) = (answer, after host) ∧
      after = Function.update stores host (after host)
  | .inr request => Exchange network lossy request stores answer after

abbrev contract (host : Host) : Contract nodeSig (Stores Host) := .demonic (step network lossy host)

def Runs (host : Host) (program : Proc Response) (stores : Stores Host) (response : Response)
    (after : Stores Host) : Prop :=
  program.Runs (step network lossy host) stores response after

variable {network lossy} {host : Host} {Value : Type} {post : Value → Stores Host → Prop}
  {stores : Stores Host}

theorem monotone : (contract network lossy host).Monotone := Contract.demonic_monotone _

theorem wp_perform {operation : LocalOp} {rest : operation.Res → Proc Value}
    (later : ∀ input, (rest (handle input operation (stores host)).1).wp
      (contract network lossy host) post
      (Function.update stores host (handle input operation (stores host)).2)) :
    (perform operation >>= rest).wp (contract network lossy host) post stores := by
  rintro answer after ⟨input, handled, own⟩
  have outcome := later input
  rw [handled] at outcome
  rw [own]
  exact outcome

theorem wp_call {db : Call} {rest : db.Res → Proc Value}
    (later : ∀ now, (rest (db.exec now (stores host)).1).wp (contract network lossy host) post
      (Function.update stores host (db.exec now (stores host)).2)) :
    (call db >>= rest).wp (contract network lossy host) post stores :=
  wp_perform fun input => later input.now

theorem wp_mark {db : Call} {rest : Unit → Proc Value}
    (later : ∀ now, (rest ()).wp (contract network lossy host) post
      (Function.update stores host (db.exec now (stores host)).2)) :
    ((do let _ ← call db) >>= rest).wp (contract network lossy host) post stores := by
  rw [Program.bind_assoc]
  exact wp_call later

theorem wp_time {rest : Int → Proc Value}
    (later : ∀ now, (rest now).wp (contract network lossy host) post stores) :
    (time >>= rest).wp (contract network lossy host) post stores := by
  refine wp_perform fun input => ?_
  rw [show (handle input .time (stores host)).2 = stores host from rfl, Function.update_eq_self]
  exact later input.now

theorem wp_generateUuid {rest : Str → Proc Value}
    (later : ∀ dice, (rest (uuidOf dice)).wp (contract network lossy host) post stores) :
    (generateUuid >>= rest).wp (contract network lossy host) post stores := by
  refine wp_perform fun input => ?_
  rw [show (handle input .dice (stores host)).2 = stores host from rfl, Function.update_eq_self]
  exact later input.dice

theorem wp_encrypt {sodium : Sodium} {plaintext recipient sender : Str}
    {rest : Option Str → Proc Value}
    (later : ∀ nonce : Str, nonce.length = nonceBytes →
      (rest (encryptMessage sodium nonce plaintext recipient sender)).wp
        (contract network lossy host) post stores) :
    (encrypt sodium plaintext recipient sender >>= rest).wp (contract network lossy host) post
      stores := by
  refine wp_perform fun input => ?_
  rw [show (handle input (.randombytes nonceBytes) (stores host)).2 = stores host from rfl,
    Function.update_eq_self]
  exact later _ ((List.length_map ..).trans List.length_range)

theorem wp_send {serverAddress : Str} {endpoint : Endpoint} {body : Json}
    {rest : Option Nat → Proc Value}
    (later : ∀ answer after, Exchange network lossy ⟨serverAddress, endpoint, body⟩ stores answer
      after → (rest (answer.map (·.code))).wp (contract network lossy host) post after) :
    (sendMessage serverAddress endpoint body >>= rest).wp (contract network lossy host) post
      stores :=
  fun answer after exchanged => later answer after exchanged

theorem wp_authed (sodium : Sodium) (req : HttpRequest) (refused : Response)
    {rest : Proc Response} {post : Response → Stores Host → Prop} (refusal : post refused stores)
    (later : rest.wp (contract network lossy host) post stores) :
    (do if !(← isAuthed sodium req) then return refused
        rest).wp (contract network lossy host) post stores := by
  have checked : (isAuthed sodium req).wp (contract network lossy host)
      (fun _ after => after = stores) stores := by
    unfold isAuthed authenticate
    split
    · rfl
    · refine wp_call fun now => ?_
      rw [show ((Call.getClient req.clientId).exec now (stores host)).2 = stores host from rfl,
        Function.update_eq_self]
      split <;> rfl
  refine Program.wp_seq monotone _ _ stores checked ?_
  rintro authed _ rfl
  cases authed with
  | true => exact later
  | false => exact refusal

/-! The executable run, on a list that says for each operation what it draws and, if
it is a request, what becomes of it. -/
section Execution

inductive Fate (Host : Type) where
  | served (peer : Host)
  | answerLost (peer : Host)
  | lost

/-- The request at the peer, all of whose operations draw the same. -/
def serveAt (network : Deployment Host) (input : Input) (request : Request)
    (stores : Stores Host) (peer : Host) : Option (Response × Stores Host) :=
  if network.routes request.serverAddress peer then
    ((network.serve peer request).exec Solo.act (List.replicate 50 (input, none))
      ⟨stores peer, []⟩).map fun done => (done.1, Function.update stores peer done.2.store)
  else none

def exec (network : Deployment Host) (lossy : Bool) (host : Host) :
    Proc Value → List (Input × Fate Host) → Stores Host → Option (Value × Stores Host)
  | .ret value, _, stores => some (value, stores)
  | .op _ _, [], _ => none
  | .op (.inl operation) next, (input, _) :: rest, stores =>
      let taken := handle input operation (stores host)
      exec network lossy host (next taken.1) rest (Function.update stores host taken.2)
  | .op (.inr request) next, (input, .served peer) :: rest, stores =>
      (serveAt network input request stores peer).bind fun (response, after) =>
        exec network lossy host (next (some response)) rest after
  | .op (.inr request) next, (input, .answerLost peer) :: rest, stores =>
      if lossy then
        (serveAt network input request stores peer).bind fun (_, after) =>
          exec network lossy host (next none) rest after
      else none
  | .op (.inr _) next, (_, .lost) :: rest, stores =>
      if lossy then exec network lossy host (next none) rest stores else none

theorem serveAt_runs {input : Input} {request : Request} {peer : Host} {response : Response}
    {after : Stores Host} (served : serveAt network input request stores peer =
      some (response, after)) :
    network.routes request.serverAddress peer = true ∧ ∃ desk,
      Solo.Runs (network.serve peer request) ⟨stores peer, []⟩ response desk ∧
      after = Function.update stores peer desk.store := by
  unfold serveAt at served
  split at served
  · next routed =>
    obtain ⟨⟨answer, desk⟩, executed, same⟩ := Option.map_eq_some_iff.mp served
    cases same
    exact ⟨routed, desk, Program.exec_runs Solo.act _ _ _ _ _ executed, rfl⟩
  · cases served

theorem exec_runs (program : Proc Value) (drawn : List (Input × Fate Host)) {value : Value}
    {after : Stores Host} (executed : exec network lossy host program drawn stores =
      some (value, after)) :
    program.Runs (step network lossy host) stores value after := by
  induction program generalizing drawn stores with
  | ret output =>
      simp only [exec, Option.some.injEq, Prod.mk.injEq] at executed
      exact ⟨executed.1.symm, executed.2.symm⟩
  | op operation next ih =>
      rcases drawn with _ | ⟨⟨input, fate⟩, rest⟩
      · simp [exec] at executed
      cases operation with
      | inl operation =>
          rw [exec] at executed
          exact ⟨_, _, ⟨input, by simp, by simp⟩, ih _ rest executed⟩
      | inr request =>
          cases fate with
          | served peer =>
              rw [exec] at executed
              obtain ⟨⟨response, middle⟩, served, later⟩ := Option.bind_eq_some_iff.mp executed
              obtain ⟨routed, desk, ran, rfl⟩ := serveAt_runs served
              exact ⟨_, _, .served peer routed ran, ih _ rest later⟩
          | answerLost peer =>
              rw [exec] at executed
              split at executed
              · next loses =>
                obtain ⟨⟨response, middle⟩, served, later⟩ := Option.bind_eq_some_iff.mp executed
                obtain ⟨routed, desk, ran, rfl⟩ := serveAt_runs served
                exact ⟨_, _, .answerLost peer loses routed ran, ih _ rest later⟩
              · cases executed
          | lost =>
              rw [exec] at executed
              split at executed
              · next loses => exact ⟨_, _, .unreached (.inl loses), ih _ rest executed⟩
              · cases executed

end Execution
end NoMiddle.Sequential
