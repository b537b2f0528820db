import NoMiddle.Library.RpcTrace

/-! Stores in order. A thread may rely on what a store in order tells it, and on the request it
serves; in return it does to the store only what leaves it in order, posts only requests that
are in order and has in the end done what it had to. What it may do depends on its node, on
that request and on whether it runs in the background. -/
namespace Library.Rpc
variable {Local : Sig} {Node Store Task Request Answer Input : Type}

/-- What has to be shown of the operations, the tasks and the services. -/
structure Guaranteed (system : System Local Node Store Task Request Answer Input)
    (discipline : Node → Option Request → Bool → Discipline (sig Local Request Answer))
    (ends : Node → Option Request → Bool → Answer → List (Event (sig Local Request Answer)) → Prop)
    (sound : Node → Store → Prop) (fair : Request → Prop) (permitted : Node → Task → Prop)
    (admitted : Node → Request → Prop) : Prop where
  possible : ∀ node origin background input operation store, sound node store →
    (discipline node origin background).possible (.inl operation)
      (system.handle node input operation store).1
  answers : ∀ node origin background request answer,
    (discipline node origin background).possible (.inr request) answer
  keeps : ∀ node origin background history input operation store,
    (discipline node origin background).allowed history (.inl operation) → sound node store →
    sound node (system.handle node input operation store).2
  posts : ∀ node origin background history request,
    (discipline node origin background).allowed history (.inr request) → fair request
  program : ∀ node task, permitted node task →
    (system.program node task).wp (discipline node none (system.background task)).contract
      (ends node none (system.background task)) []
  serve : ∀ node request, fair request → admitted node request →
    system.routes request node = true →
    (system.serve node request).wp (discipline node (some request) false).contract
      (ends node (some request) false) []

structure Admits (permitted : Node → Task → Prop) (admitted : Node → Request → Prop)
    (state : Configuration Local Node Store Request Answer) (label : Label Node Task Input Answer) :
    Prop where
  starts : ∀ node task, label = .start node task → permitted node task
  delivers : ∀ job node request, label = .deliver job node →
    state.jobs[job]? = some ⟨request, .flight⟩ → admitted node request

def rules (discipline : Node → Option Request → Bool → Discipline (sig Local Request Answer))
    (thread : Thread (sig Local Request Answer) Node Request Answer) :
    Discipline (sig Local Request Answer) :=
  discipline thread.node (thread.origin.map (·.2)) thread.background

structure InOrder (discipline : Node → Option Request → Bool → Discipline (sig Local Request Answer))
    (ends : Node → Option Request → Bool → Answer → List (Event (sig Local Request Answer)) → Prop)
    (sound : Node → Store → Prop) (fair : Request → Prop)
    (state : Configuration Local Node Store Request Answer) : Prop where
  stores : ∀ node, sound node (state.stores node)
  jobs : ∀ job ∈ state.jobs, fair job.request
  threads : ∀ thread ∈ state.threads,
    thread.program.wp (rules discipline thread).contract
      (ends thread.node (thread.origin.map (·.2)) thread.background) thread.history
  followed : ∀ thread ∈ state.threads, (rules discipline thread).Followed thread.history

variable {system : System Local Node Store Task Request Answer Input}
  {discipline : Node → Option Request → Bool → Discipline (sig Local Request Answer)}
  {ends : Node → Option Request → Bool → Answer → List (Event (sig Local Request Answer)) → Prop}
  {sound : Node → Store → Prop} {fair : Request → Prop} {permitted : Node → Task → Prop}
  {admitted : Node → Request → Prop} {before after : Configuration Local Node Store Request Answer}
  {label : Label Node Task Input Answer}

theorem InOrder.next (inOrder : InOrder discipline ends sound fair before)
    {thread : Thread (sig Local Request Answer) Node Request Answer}
    {operation : (sig Local Request Answer).Op}
    {next : (sig Local Request Answer).Res operation → Program (sig Local Request Answer) Answer}
    (member : thread ∈ before.threads) (here : thread.program = .op operation next) :
    (rules discipline thread).allowed thread.history operation ∧
    ∀ answer, (rules discipline thread).possible operation answer →
      (next answer).wp (rules discipline thread).contract
        (ends thread.node (thread.origin.map (·.2)) thread.background)
        (⟨operation, answer⟩ :: thread.history) := by
  have complies := inOrder.threads thread member
  rw [here] at complies
  exact complies

theorem InOrder.finished (inOrder : InOrder discipline ends sound fair before)
    {thread : Thread (sig Local Request Answer) Node Request Answer} {answer : Answer}
    (member : thread ∈ before.threads) (done : thread.program = .ret answer) :
    ends thread.node (thread.origin.map (·.2)) thread.background answer thread.history := by
  have complies := inOrder.threads thread member
  rw [done] at complies
  exact complies

variable [DecidableEq Node]

/-- Whether a thread runs in the background was settled when it started. -/
theorem background_kept (step : Step system label before after) {index : Nat}
    {old new : Thread (sig Local Request Answer) Node Request Answer}
    (present : before.threads[index]? = some old) (later : after.threads[index]? = some new) :
    old.background = new.background := by
  have inside := (List.getElem?_eq_some_iff.mp present).1
  have replaced : ∀ {other : Nat} {was is : Thread (sig Local Request Answer) Node Request Answer},
      before.threads[other]? = some was → (before.threads.set other is)[index]? = some new →
      was.background = is.background → old.background = new.background := by
    intro other was is current found same
    by_cases here : other = index
    · subst here
      rw [present] at current
      cases current
      simp only [List.getElem?_set_self inside, Option.some.injEq] at found
      exact found ▸ same
    · rw [List.getElem?_set_ne here, present] at found
      cases found
      rfl
  cases step with
  | start | deliver =>
      rw [List.getElem?_append_left inside, present] at later
      cases later
      rfl
  | act _ _ current _ _ | receive _ current _ _ _ | giveUp _ current _ _ | post _ current _ _ =>
      exact replaced current later rfl
  | reply | drop | foreign =>
      cases present.symm.trans later
      rfl

theorem inOrder_step (guaranteed : Guaranteed system discipline ends sound fair permitted admitted)
    (admits : Admits permitted admitted before label) (step : Step system label before after)
    (inOrder : InOrder discipline ends sound fair before) :
    InOrder discipline ends sound fair after where
  stores node := by
    rcases stores_step step with
      same | ⟨index, input, thread, operation, next, _, current, here, changed⟩
    · exact same ▸ inOrder.stores node
    · rw [changed]
      by_cases own : node = thread.node
      · subst own
        rw [Function.update_self]
        exact guaranteed.keeps _ _ _ _ input operation _
          (inOrder.next (List.mem_of_getElem? current) here).1 (inOrder.stores _)
      · rw [Function.update_of_ne own]
        exact inOrder.stores node
  jobs job member := by
    have kept : ∀ {place : Nat} {sent : Request} {old new : Stage Answer},
        before.jobs[place]? = some ⟨sent, old⟩ → job ∈ before.jobs.set place ⟨sent, new⟩ →
        fair job.request := by
      intro place sent old new found among
      rcases List.mem_or_eq_of_mem_set among with there | rfl
      · exact inOrder.jobs job there
      · exact inOrder.jobs ⟨sent, old⟩ (List.mem_of_getElem? found)
    cases step with
    | start | act | receive | giveUp => exact inOrder.jobs job member
    | post index current here _ =>
        rcases List.mem_append.mp member with there | new
        · exact inOrder.jobs job there
        · rw [List.mem_singleton.mp new]
          exact guaranteed.posts _ _ _ _ _
            (inOrder.next (List.mem_of_getElem? current) here).1
    | deliver place node flies _ => exact kept flies member
    | reply index current serves done served => exact kept served member
    | drop place flies => exact kept flies member
    | foreign place answer flies _ => exact kept flies member
  threads thread member := by
    obtain ⟨index, present⟩ := List.getElem?_of_mem member
    cases thread_step step present with
    | still current node origin same history _ =>
        have old := inOrder.threads _ (List.mem_of_getElem? current)
        unfold rules at old ⊢
        rwa [node, origin, same, history, background_kept step current present] at old
    | @acted old operation next input _ current here resumed =>
        subst resumed
        exact (inOrder.next (List.mem_of_getElem? current) here).2 _
          (guaranteed.possible _ _ _ input operation _ (inOrder.stores _))
    | @answered old request next answer _ current here resumed =>
        subst resumed
        exact (inOrder.next (List.mem_of_getElem? current) here).2 answer
          (guaranteed.answers _ _ _ request answer)
    | started node task starting fresh =>
        subst fresh
        exact guaranteed.program node task (admits.starts node task starting)
    | served node job request delivering flies routed fresh =>
        subst fresh
        exact guaranteed.serve node request (inOrder.jobs _ (List.mem_of_getElem? flies))
          (admits.delivers job node request delivering flies) routed
  followed thread member := by
    obtain ⟨index, present⟩ := List.getElem?_of_mem member
    cases thread_step step present with
    | still current node origin _ history _ =>
        have old := inOrder.followed _ (List.mem_of_getElem? current)
        unfold rules at old ⊢
        rwa [node, origin, history, background_kept step current present] at old
    | @acted old operation next input _ current here resumed =>
        subst resumed
        have caller := List.mem_of_getElem? current
        exact ⟨(inOrder.next caller here).1,
          guaranteed.possible _ _ _ input operation _ (inOrder.stores _),
          inOrder.followed old caller⟩
    | @answered old request next answer _ current here resumed =>
        subst resumed
        have caller := List.mem_of_getElem? current
        exact ⟨(inOrder.next caller here).1, guaranteed.answers _ _ _ request answer,
          inOrder.followed old caller⟩
    | started _ _ _ fresh =>
        subst fresh
        trivial
    | served _ _ _ _ _ _ fresh =>
        subst fresh
        trivial

theorem inOrder_run (guaranteed : Guaranteed system discipline ends sound fair permitted admitted)
    {condition : Configuration Local Node Store Request Answer →
      Label Node Task Input Answer → Prop}
    (admits : ∀ state label, condition state label → Admits permitted admitted state label)
    {stores : Node → Store} (sounds : ∀ node, sound node (stores node))
    {state : Configuration Local Node Store Request Answer}
    (run : Reachable system condition ⟨stores, [], []⟩ state) :
    InOrder discipline ends sound fair state := by
  apply run.invariant (InOrder discipline ends sound fair)
  · have nobody : ∀ {Item : Type} {property : Item → Prop}, ∀ item ∈ ([] : List Item),
        property item := fun _ none => absurd none List.not_mem_nil
    exact ⟨sounds, nobody, nobody, nobody⟩
  · intro before label after inOrder meets step
    exact inOrder_step guaranteed (admits before label meets) step inOrder

end Library.Rpc
