import NoMiddle.Library.Program

/-! Nodes that run programs and call each other. A call is split into the steps a
network can separate: posting the request, its arrival at a node, the operations
of the program that serves it, its answer and the receipt of that answer. The
caller may give up at any time, whether or not its request is still to be served.
Every thread carries the history of its own operations; no step reads it. -/
namespace Library.Rpc

abbrev sig (Local : Sig) (Request Answer : Type) : Sig where
  Op := Local.Op ⊕ Request
  Res
    | .inl operation => Local.Res operation
    | .inr _ => Option Answer

structure System (Local : Sig) (Node Store Task Request Answer Input : Type) where
  handle : Node → Input → (operation : Local.Op) → Store → Local.Res operation × Store
  program : Node → Task → Program (sig Local Request Answer) Answer
  /-- A background task is never run twice at once on one node. -/
  background : Task → Bool
  serve : Node → Request → Program (sig Local Request Answer) Answer
  routes : Request → Node → Bool
  /-- Requests to hosts outside the system, which may answer anything. -/
  foreign : Request → Bool

structure Thread (S : Sig) (Node Request Answer : Type) where
  node : Node
  /-- The job this thread serves, with its request. -/
  origin : Option (Nat × Request)
  background : Bool
  program : Program S Answer
  waiting : Option Nat
  history : List (Event S)

inductive Stage (Answer : Type) where
  | flight
  | lost
  | served
  | answered (answer : Answer)

structure Job (Request Answer : Type) where
  request : Request
  stage : Stage Answer

structure State (S : Sig) (Node Store Request Answer : Type) where
  stores : Node → Store
  threads : List (Thread S Node Request Answer)
  jobs : List (Job Request Answer)

inductive Label (Node Task Input Answer : Type) where
  | start (node : Node) (task : Task)
  | act (thread : Nat) (input : Input)
  | post (thread : Nat)
  | receive (thread : Nat)
  | giveUp (thread : Nat)
  | deliver (job : Nat) (node : Node)
  | reply (thread : Nat)
  | drop (job : Nat)
  | foreign (job : Nat) (answer : Answer)

variable {Local : Sig} {Node Store Task Request Answer Input : Type} [DecidableEq Node]

section Steps
variable {S : Sig}

def Thread.resume (thread : Thread S Node Request Answer) (operation : S.Op)
    (next : S.Res operation → Program S Answer) (answer : S.Res operation) :
    Thread S Node Request Answer :=
  { thread with
    program := next answer
    waiting := none
    history := ⟨operation, answer⟩ :: thread.history }

def Thread.fresh (node : Node) (origin : Option (Nat × Request)) (background : Bool)
    (program : Program S Answer) : Thread S Node Request Answer :=
  ⟨node, origin, background, program, none, []⟩

def Thread.finished (thread : Thread S Node Request Answer) : Bool := thread.program.finished

end Steps

abbrev Configuration (Local : Sig) (Node Store Request Answer : Type) :=
  State (sig Local Request Answer) Node Store Request Answer

inductive Step (system : System Local Node Store Task Request Answer Input) :
    Label Node Task Input Answer → Configuration Local Node Store Request Answer →
      Configuration Local Node Store Request Answer → Prop where
  | start {state} (node : Node) (task : Task)
      (free : system.background task = true → ∀ thread ∈ state.threads,
        thread.node = node → thread.background = true → thread.finished = true) :
      Step system (.start node task) state
        { state with threads := state.threads ++
            [.fresh node none (system.background task) (system.program node task)] }
  | act {state} (index : Nat) (input : Input) {thread operation next answer store}
      (current : state.threads[index]? = some thread)
      (here : thread.program = .op (.inl operation) next)
      (taken : system.handle thread.node input operation (state.stores thread.node) =
        (answer, store)) :
      Step system (.act index input) state
        { state with
          stores := Function.update state.stores thread.node store
          threads := state.threads.set index (thread.resume (.inl operation) next answer) }
  | post {state} (index : Nat) {thread request next}
      (current : state.threads[index]? = some thread)
      (here : thread.program = .op (.inr request) next)
      (idle : thread.waiting = none) :
      Step system (.post index) state
        { state with
          threads := state.threads.set index { thread with waiting := some state.jobs.length }
          jobs := state.jobs ++ [⟨request, .flight⟩] }
  | receive {state} (index : Nat) {thread request next job sent answer}
      (current : state.threads[index]? = some thread)
      (here : thread.program = .op (.inr request) next)
      (waits : thread.waiting = some job)
      (answered : state.jobs[job]? = some ⟨sent, .answered answer⟩) :
      Step system (.receive index) state
        { state with
          threads := state.threads.set index (thread.resume (.inr request) next (some answer)) }
  | giveUp {state} (index : Nat) {thread request next job}
      (current : state.threads[index]? = some thread)
      (here : thread.program = .op (.inr request) next)
      (waits : thread.waiting = some job) :
      Step system (.giveUp index) state
        { state with
          threads := state.threads.set index (thread.resume (.inr request) next none) }
  | deliver {state} (job : Nat) (node : Node) {request}
      (flies : state.jobs[job]? = some ⟨request, .flight⟩)
      (routed : system.routes request node = true) :
      Step system (.deliver job node) state
        { state with
          threads := state.threads ++
            [.fresh node (some (job, request)) false (system.serve node request)]
          jobs := state.jobs.set job ⟨request, .served⟩ }
  | reply {state} (index : Nat) {thread job request sent answer}
      (current : state.threads[index]? = some thread)
      (serves : thread.origin = some (job, request))
      (done : thread.program = .ret answer)
      (served : state.jobs[job]? = some ⟨sent, .served⟩) :
      Step system (.reply index) state
        { state with jobs := state.jobs.set job ⟨sent, .answered answer⟩ }
  | drop {state} (job : Nat) {request}
      (flies : state.jobs[job]? = some ⟨request, .flight⟩) :
      Step system (.drop job) state
        { state with jobs := state.jobs.set job ⟨request, .lost⟩ }
  | foreign {state} (job : Nat) (answer : Answer) {request}
      (flies : state.jobs[job]? = some ⟨request, .flight⟩)
      (outside : system.foreign request = true) :
      Step system (.foreign job answer) state
        { state with jobs := state.jobs.set job ⟨request, .answered answer⟩ }

/-- The states a run can reach when each of its steps meets `condition`, which
speaks about the state before the step. -/
inductive Reachable (system : System Local Node Store Task Request Answer Input)
    (condition : Configuration Local Node Store Request Answer →
      Label Node Task Input Answer → Prop)
    (initial : Configuration Local Node Store Request Answer) :
    Configuration Local Node Store Request Answer → Prop where
  | start : Reachable system condition initial initial
  | step {before label after} (run : Reachable system condition initial before)
      (meets : condition before label) (step : Step system label before after) :
      Reachable system condition initial after

variable {system : System Local Node Store Task Request Answer Input}
  {condition : Configuration Local Node Store Request Answer →
    Label Node Task Input Answer → Prop}
  {initial state before after : Configuration Local Node Store Request Answer}
  {label : Label Node Task Input Answer}

theorem Reachable.invariant (invariant : Configuration Local Node Store Request Answer → Prop)
    (start : invariant initial)
    (step : ∀ before label after, invariant before → condition before label →
      Step system label before after → invariant after)
    (run : Reachable system condition initial state) : invariant state := by
  induction run with
  | start => exact start
  | step _ meets taken ih => exact step _ _ _ ih meets taken

theorem Reachable.trans {middle : Configuration Local Node Store Request Answer}
    (first : Reachable system condition initial middle)
    (second : Reachable system condition middle state) :
    Reachable system condition initial state := by
  induction second with
  | start => exact first
  | step _ meets taken ih => exact ih.step meets taken

/-! The executable scheduler. A run on given labels is a run of the relation. -/
section Scheduler

def next (system : System Local Node Store Task Request Answer Input) :
    Label Node Task Input Answer → Configuration Local Node Store Request Answer →
      Option (Configuration Local Node Store Request Answer)
  | .start node task, state =>
      if system.background task && state.threads.any (fun thread =>
          decide (thread.node = node) && thread.background && !thread.finished)
      then none
      else some { state with threads := state.threads ++
        [.fresh node none (system.background task) (system.program node task)] }
  | .act index input, state =>
      match state.threads[index]? with
      | some thread =>
          match thread.program with
          | .op (.inl operation) rest =>
              let taken := system.handle thread.node input operation (state.stores thread.node)
              some { state with
                stores := Function.update state.stores thread.node taken.2
                threads := state.threads.set index
                  (thread.resume (.inl operation) rest taken.1) }
          | _ => none
      | none => none
  | .post index, state =>
      match state.threads[index]? with
      | some thread =>
          match thread.program, thread.waiting with
          | .op (.inr request) _, none =>
              some { state with
                threads := state.threads.set index
                  { thread with waiting := some state.jobs.length }
                jobs := state.jobs ++ [⟨request, .flight⟩] }
          | _, _ => none
      | none => none
  | .receive index, state =>
      match state.threads[index]? with
      | some thread =>
          match thread.program, thread.waiting with
          | .op (.inr request) rest, some job =>
              match state.jobs[job]? with
              | some ⟨_, .answered answer⟩ =>
                  some { state with
                    threads := state.threads.set index
                      (thread.resume (.inr request) rest (some answer)) }
              | _ => none
          | _, _ => none
      | none => none
  | .giveUp index, state =>
      match state.threads[index]? with
      | some thread =>
          match thread.program, thread.waiting with
          | .op (.inr request) rest, some _ =>
              some { state with
                threads := state.threads.set index
                  (thread.resume (.inr request) rest none) }
          | _, _ => none
      | none => none
  | .deliver job node, state =>
      match state.jobs[job]? with
      | some ⟨request, .flight⟩ =>
          if system.routes request node then
            some { state with
              threads := state.threads ++
                [.fresh node (some (job, request)) false (system.serve node request)]
              jobs := state.jobs.set job ⟨request, .served⟩ }
          else none
      | _ => none
  | .reply index, state =>
      match state.threads[index]? with
      | some thread =>
          match thread.origin, thread.program with
          | some (job, _), .ret answer =>
              match state.jobs[job]? with
              | some ⟨sent, .served⟩ =>
                  some { state with jobs := state.jobs.set job ⟨sent, .answered answer⟩ }
              | _ => none
          | _, _ => none
      | none => none
  | .drop job, state =>
      match state.jobs[job]? with
      | some ⟨request, .flight⟩ =>
          some { state with jobs := state.jobs.set job ⟨request, .lost⟩ }
      | _ => none
  | .foreign job answer, state =>
      match state.jobs[job]? with
      | some ⟨request, .flight⟩ =>
          if system.foreign request then
            some { state with jobs := state.jobs.set job ⟨request, .answered answer⟩ }
          else none
      | _ => none

theorem next_step (scheduled : next system label before = some after) :
    Step system label before after := by
  cases label with
  | start node task =>
      simp only [next] at scheduled
      split at scheduled
      · cases scheduled
      · next free =>
        cases scheduled
        refine .start node task fun background thread member here running => ?_
        simp only [background, Bool.true_and, List.any_eq_true, not_exists, not_and] at free
        simpa [here, running] using free thread member
  | act index input =>
      simp only [next] at scheduled
      split at scheduled
      · next thread current =>
        split at scheduled
        · next operation rest here =>
          cases scheduled
          exact .act index input current here rfl
        · cases scheduled
      · cases scheduled
  | post index =>
      simp only [next] at scheduled
      split at scheduled
      · next thread current =>
        split at scheduled
        · next request rest here idle =>
          cases scheduled
          exact .post index current here idle
        · cases scheduled
      · cases scheduled
  | receive index =>
      simp only [next] at scheduled
      split at scheduled
      · next thread current =>
        split at scheduled
        · next request rest job here waits =>
          split at scheduled
          · next sent answer answered =>
            cases scheduled
            exact .receive index current here waits answered
          · cases scheduled
        · cases scheduled
      · cases scheduled
  | giveUp index =>
      simp only [next] at scheduled
      split at scheduled
      · next thread current =>
        split at scheduled
        · next request rest job here waits =>
          cases scheduled
          exact .giveUp index current here waits
        · cases scheduled
      · cases scheduled
  | deliver job node =>
      simp only [next] at scheduled
      split at scheduled
      · next request flies =>
        split at scheduled
        · next routed =>
          cases scheduled
          exact .deliver job node flies routed
        · cases scheduled
      · cases scheduled
  | reply index =>
      simp only [next] at scheduled
      split at scheduled
      · next thread current =>
        split at scheduled
        · next job request answer serves done =>
          split at scheduled
          · next sent served =>
            cases scheduled
            exact .reply index current serves done served
          · cases scheduled
        · cases scheduled
      · cases scheduled
  | drop job =>
      simp only [next] at scheduled
      split at scheduled
      · next request flies =>
        cases scheduled
        exact .drop job flies
      · cases scheduled
  | foreign job answer =>
      simp only [next] at scheduled
      split at scheduled
      · next request flies =>
        split at scheduled
        · next outside =>
          cases scheduled
          exact .foreign job answer flies outside
        · cases scheduled
      · cases scheduled

/-- A whole run, which stops where a label does not apply or is not allowed. -/
def run (system : System Local Node Store Task Request Answer Input)
    (allows : Configuration Local Node Store Request Answer →
      Label Node Task Input Answer → Bool) :
    List (Label Node Task Input Answer) → Configuration Local Node Store Request Answer →
      Option (Configuration Local Node Store Request Answer)
  | [], state => some state
  | label :: rest, state =>
      if allows state label then (next system label state).bind (run system allows rest) else none

theorem run_reachable {allows : Configuration Local Node Store Request Answer →
      Label Node Task Input Answer → Bool}
    (sufficient : ∀ state label, allows state label = true → condition state label)
    (labels : List (Label Node Task Input Answer))
    (scheduled : run system allows labels initial = some state) :
    Reachable system condition initial state := by
  induction labels generalizing initial with
  | nil =>
      cases scheduled
      exact .start
  | cons label rest ih =>
      rw [run] at scheduled
      split at scheduled
      · next allowed =>
        obtain ⟨middle, taken, later⟩ := Option.bind_eq_some_iff.mp scheduled
        have first : Reachable system condition initial middle :=
          .step .start (sufficient _ _ allowed) (next_step taken)
        exact first.trans (ih later)
      · cases scheduled

end Scheduler
end Library.Rpc
