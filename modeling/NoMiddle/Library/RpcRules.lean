import NoMiddle.Library.Rpc

/-! What every run of a call system keeps, whatever its programs do: a waiting
caller points at the job it posted, a serving thread at the job it serves, and a
job keeps its request. On top of that two rules. Programs that follow a
discipline when they start follow it in every state; and facts that no step
breaks can be carried by histories and answers from the step that made them true. -/
namespace Library.Rpc
variable {Local : Sig} {Node Store Task Request Answer Input : Type} [DecidableEq Node]
  {system : System Local Node Store Task Request Answer Input}
  {before after : Configuration Local Node Store Request Answer}
  {label : Label Node Task Input Answer}

theorem job_kept (step : Step system label before after) {job : Nat} {request : Request}
    {stage : Stage Answer} (present : before.jobs[job]? = some ⟨request, stage⟩) :
    ∃ later, after.jobs[job]? = some ⟨request, later⟩ := by
  have set_kept : ∀ (index : Nat) (sent : Request) (old new : Stage Answer),
      before.jobs[index]? = some ⟨sent, old⟩ →
      ∃ later, (before.jobs.set index ⟨sent, new⟩)[job]? = some ⟨request, later⟩ := by
    intro index sent old new found
    by_cases same : index = job
    · subst same
      rw [present] at found
      cases found
      exact ⟨new, by simp [(List.getElem?_eq_some_iff.mp present).1]⟩
    · exact ⟨stage, by simp [same, present]⟩
  cases step with
  | start | act | receive | giveUp => exact ⟨stage, present⟩
  | post =>
      exact ⟨stage, by
        rw [List.getElem?_append_left (List.getElem?_eq_some_iff.mp present).1, present]⟩
  | deliver index node flies _ => exact set_kept index _ _ _ flies
  | reply index current serves done served => exact set_kept _ _ _ _ served
  | drop index flies => exact set_kept index _ _ _ flies
  | foreign index answer flies _ => exact set_kept index _ _ _ flies

/-- A property of one node's store that no operation of that node breaks. -/
theorem store_step (property : Store → Prop) (node : Node)
    (keeps : ∀ input operation store, property store →
      property (system.handle node input operation store).2)
    (step : Step system label before after) (holds : property (before.stores node)) :
    property (after.stores node) := by
  cases step with
  | @act _ index input thread operation next answer store current here taken =>
      by_cases same : node = thread.node
      · subst same
        have kept := keeps input operation _ holds
        rw [taken] at kept
        simpa using kept
      · simpa [Function.update_of_ne same] using holds
  | _ => exact holds

/-- Where a thread of the state after a step comes from. -/
inductive Came (system : System Local Node Store Task Request Answer Input)
    (before : Configuration Local Node Store Request Answer)
    (label : Label Node Task Input Answer) (index : Nat)
    (thread : Thread (sig Local Request Answer) Node Request Answer) : Prop where
  /-- It is the one of before, perhaps with its request posted. -/
  | still {old} (current : before.threads[index]? = some old) (node : old.node = thread.node)
      (origin : old.origin = thread.origin) (program : old.program = thread.program)
      (history : old.history = thread.history) (rests : ∀ input, label ≠ .act index input)
  | acted {old operation next} (input : Input) (acts : label = .act index input)
      (current : before.threads[index]? = some old)
      (here : old.program = .op (.inl operation) next)
      (resumed : thread = old.resume (.inl operation) next
        (system.handle old.node input operation (before.stores old.node)).1)
  | answered {old request next answer} (quiet : ∀ other input, label ≠ .act other input)
      (current : before.threads[index]? = some old)
      (here : old.program = .op (.inr request) next)
      (resumed : thread = old.resume (.inr request) next answer)
  | started (node : Node) (task : Task) (starts : label = .start node task)
      (fresh : thread = .fresh node none (system.background task) (system.program node task))
  | served (node : Node) (job : Nat) (request : Request) (delivers : label = .deliver job node)
      (flies : before.jobs[job]? = some ⟨request, .flight⟩)
      (routed : system.routes request node = true)
      (fresh : thread = .fresh node (some (job, request)) false (system.serve node request))

theorem thread_step (step : Step system label before after) {index : Nat}
    {thread : Thread (sig Local Request Answer) Node Request Answer}
    (present : after.threads[index]? = some thread) : Came system before label index thread := by
  have appended : ∀ {fresh : Thread (sig Local Request Answer) Node Request Answer},
      (before.threads ++ [fresh])[index]? = some thread →
      before.threads[index]? = some thread ∨ thread = fresh := by
    intro fresh found
    by_cases old : index < before.threads.length
    · exact .inl (by rwa [List.getElem?_append_left old] at found)
    · rw [List.getElem?_append_right (Nat.le_of_not_lt old)] at found
      cases shift : index - before.threads.length with
      | zero => simp [shift] at found; exact .inr found.symm
      | succ _ => simp [shift] at found
  have replaced : ∀ {other : Nat} {old new : Thread (sig Local Request Answer) Node Request Answer},
      before.threads[other]? = some old →
      (before.threads.set other new)[index]? = some thread →
      other = index ∧ thread = new ∨ other ≠ index ∧ before.threads[index]? = some thread := by
    intro other old new current found
    rw [List.getElem?_set] at found
    by_cases same : other = index
    · subst same
      simp [(List.getElem?_eq_some_iff.mp current).1] at found
      exact .inl ⟨rfl, found.symm⟩
    · exact .inr ⟨same, by simpa [same] using found⟩
  cases step with
  | start node task free =>
      rcases appended present with old | rfl
      · exact .still old rfl rfl rfl rfl (by simp)
      · exact .started node task rfl rfl
  | @act _ other input old operation next answer store current here taken =>
      rcases replaced current present with ⟨rfl, rfl⟩ | ⟨different, old⟩
      · exact .acted input rfl current here (by rw [taken])
      · refine .still old rfl rfl rfl rfl fun input same => different ?_
        injection same
  | post other current here idle =>
      rcases replaced current present with ⟨rfl, rfl⟩ | ⟨_, old⟩
      · exact .still current rfl rfl rfl rfl (by simp)
      · exact .still old rfl rfl rfl rfl (by simp)
  | receive other current here waits answered =>
      rcases replaced current present with ⟨rfl, rfl⟩ | ⟨_, old⟩
      · exact .answered (by simp) current here rfl
      · exact .still old rfl rfl rfl rfl (by simp)
  | giveUp other current here waits =>
      rcases replaced current present with ⟨rfl, rfl⟩ | ⟨_, old⟩
      · exact .answered (by simp) current here rfl
      · exact .still old rfl rfl rfl rfl (by simp)
  | deliver job node flies routed =>
      rcases appended present with old | rfl
      · exact .still old rfl rfl rfl rfl (by simp)
      · exact .served node job _ rfl flies routed rfl
  | reply | drop | foreign => exact .still present rfl rfl rfl rfl (by simp)

theorem acted_thread {index : Nat} {input : Input}
    (step : Step system (.act index input) before after)
    {thread : Thread (sig Local Request Answer) Node Request Answer} {operation : Local.Op}
    {next : Local.Res operation → Program (sig Local Request Answer) Answer}
    (current : before.threads[index]? = some thread)
    (here : thread.program = .op (.inl operation) next) :
    after.threads[index]? = some (thread.resume (.inl operation) next
      (system.handle thread.node input operation (before.stores thread.node)).1) := by
  cases step with
  | act _ _ found there taken =>
      rw [current] at found
      cases found
      rw [here] at there
      cases there
      simp [taken, (List.getElem?_eq_some_iff.mp current).1]

theorem acted_store {index : Nat} {input : Input}
    (step : Step system (.act index input) before after)
    {thread : Thread (sig Local Request Answer) Node Request Answer} {operation : Local.Op}
    {next : Local.Res operation → Program (sig Local Request Answer) Answer}
    (current : before.threads[index]? = some thread)
    (here : thread.program = .op (.inl operation) next) :
    after.stores thread.node =
      (system.handle thread.node input operation (before.stores thread.node)).2 := by
  cases step with
  | act _ _ found there taken =>
      rw [current] at found
      cases found
      rw [here] at there
      cases there
      simp [taken]

theorem stores_elsewhere {index : Nat} {input : Input}
    (step : Step system (.act index input) before after)
    {thread : Thread (sig Local Request Answer) Node Request Answer}
    (current : before.threads[index]? = some thread) {node : Node}
    (elsewhere : node ≠ thread.node) : after.stores node = before.stores node := by
  cases step with
  | act _ _ found _ _ =>
      rw [current] at found
      cases found
      exact Function.update_of_ne elsewhere _ _

theorem stores_step (step : Step system label before after) :
    after.stores = before.stores ∨
    ∃ index input thread operation next, label = .act index input ∧
      before.threads[index]? = some thread ∧ thread.program = .op (.inl operation) next ∧
      after.stores = Function.update before.stores thread.node
        (system.handle thread.node input operation (before.stores thread.node)).2 := by
  cases step with
  | act index input current here taken =>
      exact .inr ⟨index, input, _, _, _, rfl, current, here, by rw [taken]⟩
  | _ => exact .inl rfl

theorem thread_kept (step : Step system label before after) {index : Nat}
    {thread : Thread (sig Local Request Answer) Node Request Answer}
    (present : before.threads[index]? = some thread) :
    ∃ later, after.threads[index]? = some later ∧ later.node = thread.node ∧
      later.origin = thread.origin ∧ ∀ event ∈ thread.history, event ∈ later.history := by
  have inside := (List.getElem?_eq_some_iff.mp present).1
  have replaced : ∀ {other : Nat} {old new : Thread (sig Local Request Answer) Node Request Answer},
      before.threads[other]? = some old → new.node = old.node → new.origin = old.origin →
      (∀ event ∈ old.history, event ∈ new.history) →
      ∃ later, (before.threads.set other new)[index]? = some later ∧ later.node = thread.node ∧
        later.origin = thread.origin ∧ ∀ event ∈ thread.history, event ∈ later.history := by
    intro other old new current node origin past
    by_cases same : other = index
    · subst same
      rw [present] at current
      cases current
      exact ⟨new, by simp [inside], node, origin, past⟩
    · exact ⟨thread, by simp [same, present], rfl, rfl, fun _ member => member⟩
  cases step with
  | start | deliver =>
      exact ⟨thread, by rw [List.getElem?_append_left inside, present], rfl, rfl,
        fun _ member => member⟩
  | act _ _ current _ _ | receive _ current _ _ _ | giveUp _ current _ _ =>
      exact replaced current rfl rfl fun _ member => List.mem_cons_of_mem _ member
  | post _ current _ _ => exact replaced current rfl rfl fun _ member => member
  | reply | drop | foreign => exact ⟨thread, present, rfl, rfl, fun _ member => member⟩

/-- A thread that is about to act itself waits for nobody and is as it was until then. -/
theorem thread_stays (step : Step system label before after) {index : Nat}
    {thread : Thread (sig Local Request Answer) Node Request Answer} {operation : Local.Op}
    {next : Local.Res operation → Program (sig Local Request Answer) Answer}
    (present : before.threads[index]? = some thread)
    (here : thread.program = .op (.inl operation) next)
    (rests : ∀ input, label ≠ .act index input) : after.threads[index]? = some thread := by
  have inside := (List.getElem?_eq_some_iff.mp present).1
  have calls : ∀ {other : Nat} {old new : Thread (sig Local Request Answer) Node Request Answer}
      {request : Request} {rest : Option Answer → Program (sig Local Request Answer) Answer},
      before.threads[other]? = some old → old.program = .op (.inr request) rest →
      (before.threads.set other new)[index]? = some thread := by
    intro other old new request rest current there
    by_cases same : other = index
    · subst same
      cases present.symm.trans current
      cases here.symm.trans there
    · simp [same, present]
  cases step with
  | start | deliver => exact (List.getElem?_append_left inside).trans present
  | act other input current _ _ =>
      by_cases same : other = index
      · subst same
        exact absurd rfl (rests input)
      · simp [same, present]
  | post _ current there _ => exact calls current there
  | receive _ current there _ _ => exact calls current there
  | giveUp _ current there _ => exact calls current there
  | reply | drop | foreign => exact present

theorem event_step (step : Step system label before after) {index : Nat}
    {thread : Thread (sig Local Request Answer) Node Request Answer}
    (present : after.threads[index]? = some thread) {event : Event (sig Local Request Answer)}
    (past : event ∈ thread.history) :
    (∃ old, before.threads[index]? = some old ∧ old.node = thread.node ∧
      old.origin = thread.origin ∧ event ∈ old.history) ∨
    (∃ input old operation next, label = .act index input ∧ before.threads[index]? = some old ∧
      old.node = thread.node ∧ old.origin = thread.origin ∧
      old.program = .op (.inl operation) next ∧
      event = ⟨.inl operation, (system.handle old.node input operation (before.stores old.node)).1⟩) ∨
    ∃ request answer, event = ⟨.inr request, answer⟩ := by
  cases thread_step step present with
  | still current node origin _ history _ =>
      exact .inl ⟨_, current, node, origin, history ▸ past⟩
  | acted input acts current here resumed =>
      subst resumed
      rcases List.mem_cons.mp past with new | earlier
      · exact .inr (.inl ⟨input, _, _, _, acts, current, rfl, rfl, here, new⟩)
      · exact .inl ⟨_, current, rfl, rfl, earlier⟩
  | answered _ current _ resumed =>
      subst resumed
      rcases List.mem_cons.mp past with new | earlier
      · exact .inr (.inr ⟨_, _, new⟩)
      · exact .inl ⟨_, current, rfl, rfl, earlier⟩
  | started _ _ _ fresh =>
      subst fresh
      cases past
  | served _ _ _ _ _ _ fresh =>
      subst fresh
      cases past

theorem set_cases {Item : Type} {items : List Item} {index other : Nat} {new item : Item}
    (found : (items.set index new)[other]? = some item) :
    index = other ∧ item = new ∨ index ≠ other ∧ items[other]? = some item := by
  rw [List.getElem?_set] at found
  split at found
  · next same =>
    split at found
    · exact .inl ⟨same, (Option.some.inj found).symm⟩
    · cases found
  · next different => exact .inr ⟨different, found⟩

theorem waiting_step (step : Step system label before after) {index job : Nat}
    {thread : Thread (sig Local Request Answer) Node Request Answer}
    (present : after.threads[index]? = some thread) (waits : thread.waiting = some job) :
    before.threads[index]? = some thread ∨ label = .post index ∧ job = before.jobs.length := by
  have appended : ∀ {fresh : Thread (sig Local Request Answer) Node Request Answer},
      (before.threads ++ [fresh])[index]? = some thread → fresh.waiting = none →
      before.threads[index]? = some thread := by
    intro fresh found idle
    by_cases old : index < before.threads.length
    · rwa [List.getElem?_append_left old] at found
    · rw [List.getElem?_append_right (Nat.le_of_not_lt old)] at found
      have last := List.mem_of_getElem? found
      rw [List.mem_singleton.mp last, idle] at waits
      cases waits
  cases step with
  | start | deliver => exact .inl (appended present rfl)
  | act | receive | giveUp =>
      rcases set_cases present with ⟨_, rfl⟩ | ⟨_, old⟩
      · cases waits
      · exact .inl old
  | post =>
      rcases set_cases present with ⟨rfl, rfl⟩ | ⟨_, old⟩
      · exact .inr ⟨rfl, (Option.some.inj waits).symm⟩
      · exact .inl old
  | reply | drop | foreign => exact .inl present

theorem flight_step (step : Step system label before after) {job : Nat} {request : Request}
    (flies : after.jobs[job]? = some ⟨request, .flight⟩) :
    before.jobs[job]? = some ⟨request, .flight⟩ ∨ ∃ index thread next, label = .post index ∧
      before.threads[index]? = some thread ∧ thread.program = .op (.inr request) next := by
  cases step with
  | start | act | receive | giveUp => exact .inl flies
  | post index current here _ =>
      by_cases old : job < before.jobs.length
      · exact .inl (by rwa [List.getElem?_append_left old] at flies)
      · rw [List.getElem?_append_right (Nat.le_of_not_lt old)] at flies
        have last := List.mem_of_getElem? flies
        cases List.mem_singleton.mp last
        exact .inr ⟨index, _, _, rfl, current, here⟩
  | deliver | reply | drop | foreign =>
      rcases set_cases flies with ⟨_, new⟩ | ⟨_, old⟩
      · cases new
      · exact .inl old

theorem answered_step (step : Step system label before after) {job : Nat} {request : Request}
    {answer : Answer} (answered : after.jobs[job]? = some ⟨request, .answered answer⟩) :
    before.jobs[job]? = some ⟨request, .answered answer⟩ ∨
    (∃ thread ∈ before.threads, ∃ sent, thread.origin = some (job, sent) ∧
      thread.program = .ret answer ∧ before.jobs[job]? = some ⟨request, .served⟩) ∨
    system.foreign request = true := by
  cases step with
  | start | act | receive | giveUp => exact .inl answered
  | post =>
      by_cases old : job < before.jobs.length
      · exact .inl (by rwa [List.getElem?_append_left old] at answered)
      · rw [List.getElem?_append_right (Nat.le_of_not_lt old)] at answered
        have last := List.mem_of_getElem? answered
        cases List.mem_singleton.mp last
  | deliver | drop =>
      rcases set_cases answered with ⟨_, new⟩ | ⟨_, old⟩
      · cases new
      · exact .inl old
  | reply index current serves done served =>
      rcases set_cases answered with ⟨rfl, new⟩ | ⟨_, old⟩
      · cases new
        exact .inr (.inl ⟨_, List.mem_of_getElem? current, _, serves, done, served⟩)
      · exact .inl old
  | foreign _ _ _ outside =>
      rcases set_cases answered with ⟨rfl, new⟩ | ⟨_, old⟩
      · cases new
        exact .inr (.inr outside)
      · exact .inl old

theorem received_step (step : Step system label before after) {index : Nat}
    {thread : Thread (sig Local Request Answer) Node Request Answer} {request : Request}
    {answer : Answer} {earlier : List (Event (sig Local Request Answer))}
    (present : after.threads[index]? = some thread)
    (history : thread.history = ⟨.inr request, some answer⟩ :: earlier) :
    (∃ old, before.threads[index]? = some old ∧ old.history = thread.history) ∨
    ∃ old next job sent, before.threads[index]? = some old ∧
      old.program = .op (.inr request) next ∧ old.waiting = some job ∧
      before.jobs[job]? = some ⟨sent, .answered answer⟩ := by
  have appended : ∀ {fresh : Thread (sig Local Request Answer) Node Request Answer},
      (before.threads ++ [fresh])[index]? = some thread → fresh.history = [] →
      before.threads[index]? = some thread := by
    intro fresh found empty
    by_cases old : index < before.threads.length
    · rwa [List.getElem?_append_left old] at found
    · rw [List.getElem?_append_right (Nat.le_of_not_lt old)] at found
      have last := List.mem_of_getElem? found
      rw [List.mem_singleton.mp last, empty] at history
      cases history
  cases step with
  | start | deliver => exact .inl ⟨thread, appended present rfl, rfl⟩
  | act =>
      rcases set_cases present with ⟨_, rfl⟩ | ⟨_, old⟩
      · cases history
      · exact .inl ⟨thread, old, rfl⟩
  | post _ current =>
      rcases set_cases present with ⟨rfl, rfl⟩ | ⟨_, old⟩
      · exact .inl ⟨_, current, rfl⟩
      · exact .inl ⟨thread, old, rfl⟩
  | receive _ current here waits answered =>
      rcases set_cases present with ⟨rfl, rfl⟩ | ⟨_, old⟩
      · cases history
        exact .inr ⟨_, _, _, _, current, here, waits, answered⟩
      · exact .inl ⟨thread, old, rfl⟩
  | giveUp =>
      rcases set_cases present with ⟨_, rfl⟩ | ⟨_, old⟩
      · cases history
      · exact .inl ⟨thread, old, rfl⟩
  | reply | drop | foreign => exact .inl ⟨thread, present, rfl⟩

structure Linked (state : Configuration Local Node Store Request Answer) : Prop where
  waiting : ∀ thread ∈ state.threads, ∀ job, thread.waiting = some job →
    ∃ request next stage, thread.program = .op (.inr request) next ∧
      state.jobs[job]? = some ⟨request, stage⟩
  origin : ∀ thread ∈ state.threads, ∀ job request, thread.origin = some (job, request) →
    ∃ stage, state.jobs[job]? = some ⟨request, stage⟩

theorem linked_step (step : Step system label before after) (linked : Linked before) :
    Linked after := by
  have waitingKept : ∀ thread ∈ before.threads, ∀ job, thread.waiting = some job →
      ∃ request next stage, thread.program = .op (.inr request) next ∧
        after.jobs[job]? = some ⟨request, stage⟩ := by
    intro thread member job waits
    obtain ⟨request, rest, stage, here, present⟩ := linked.waiting thread member job waits
    obtain ⟨later, kept⟩ := job_kept step present
    exact ⟨request, rest, later, here, kept⟩
  have originKept : ∀ thread ∈ before.threads, ∀ job request,
      thread.origin = some (job, request) →
      ∃ stage, after.jobs[job]? = some ⟨request, stage⟩ := by
    intro thread member job request serves
    obtain ⟨stage, present⟩ := linked.origin thread member job request serves
    exact job_kept step present
  cases step with
  | start node task free =>
      constructor
      · intro thread member
        rcases List.mem_append.mp member with old | new
        · exact waitingKept thread old
        · simp [List.mem_singleton.mp new, Thread.fresh]
      · intro thread member
        rcases List.mem_append.mp member with old | new
        · exact originKept thread old
        · simp [List.mem_singleton.mp new, Thread.fresh]
  | act index input current here taken =>
      constructor
      · intro thread member
        rcases List.mem_or_eq_of_mem_set member with old | rfl
        · exact waitingKept thread old
        · simp [Thread.resume]
      · intro thread member
        rcases List.mem_or_eq_of_mem_set member with old | rfl
        · exact originKept thread old
        · exact fun job request serves =>
            originKept _ (List.mem_of_getElem? current) job request serves
  | post index current here idle =>
      constructor
      · intro thread member
        rcases List.mem_or_eq_of_mem_set member with old | rfl
        · exact waitingKept thread old
        · rintro job ⟨⟩
          exact ⟨_, _, .flight, here, by simp⟩
      · intro thread member
        rcases List.mem_or_eq_of_mem_set member with old | rfl
        · exact originKept thread old
        · exact fun job request serves =>
            originKept _ (List.mem_of_getElem? current) job request serves
  | receive index current here waits answered =>
      constructor
      · intro thread member
        rcases List.mem_or_eq_of_mem_set member with old | rfl
        · exact waitingKept thread old
        · simp [Thread.resume]
      · intro thread member
        rcases List.mem_or_eq_of_mem_set member with old | rfl
        · exact originKept thread old
        · exact fun job request serves =>
            originKept _ (List.mem_of_getElem? current) job request serves
  | giveUp index current here waits =>
      constructor
      · intro thread member
        rcases List.mem_or_eq_of_mem_set member with old | rfl
        · exact waitingKept thread old
        · simp [Thread.resume]
      · intro thread member
        rcases List.mem_or_eq_of_mem_set member with old | rfl
        · exact originKept thread old
        · exact fun job request serves =>
            originKept _ (List.mem_of_getElem? current) job request serves
  | deliver job node flies routed =>
      constructor
      · intro thread member
        rcases List.mem_append.mp member with old | new
        · exact waitingKept thread old
        · simp [List.mem_singleton.mp new, Thread.fresh]
      · intro thread member
        rcases List.mem_append.mp member with old | new
        · exact originKept thread old
        · rw [List.mem_singleton.mp new]
          rintro _ _ ⟨⟩
          exact ⟨.served, by simp [(List.getElem?_eq_some_iff.mp flies).1]⟩
  | reply | drop | foreign => exact ⟨waitingKept, originKept⟩

omit [DecidableEq Node] in
/-- A received answer is the answer to the request the caller posted. -/
theorem received_own (linked : Linked before) {thread : Thread _ Node Request Answer}
    (member : thread ∈ before.threads) {request sent : Request} {stage : Stage Answer}
    {next : Option Answer → Program (sig Local Request Answer) Answer}
    (here : thread.program = .op (.inr request) next) {job : Nat}
    (waits : thread.waiting = some job) (answered : before.jobs[job]? = some ⟨sent, stage⟩) :
    sent = request := by
  obtain ⟨own, rest, old, program, present⟩ := linked.waiting thread member job waits
  rw [here] at program
  rw [answered] at present
  cases program
  cases present
  rfl

section Compliance
variable (discipline : Node → Option Request → Discipline (sig Local Request Answer))
  (ensures : Node → Request → Answer → List (Event (sig Local Request Answer)) → Prop)

/-- The rest of the thread keeps to the discipline, and if the thread serves a
request, its answer will come with what the service ensures. -/
def Thread.Complies (thread : Thread (sig Local Request Answer) Node Request Answer) : Prop :=
  thread.program.wp (discipline thread.node (thread.origin.map (·.2))).contract
    (fun answer history => ∀ job request, thread.origin = some (job, request) →
      ensures thread.node request answer history) thread.history

structure Disciplined (system : System Local Node Store Task Request Answer Input)
    (permitted : Node → Task → Prop) : Prop where
  possible : ∀ node origin input operation store,
    (discipline node origin).possible (.inl operation) (system.handle node input operation store).1
  answers : ∀ node origin request answer, (discipline node origin).possible (.inr request) answer
  program : ∀ node task, permitted node task →
    (system.program node task).wp (discipline node none).contract (fun _ _ => True) []
  serve : ∀ node request, system.routes request node = true →
    (system.serve node request).wp (discipline node (some request)).contract
      (ensures node request) []

variable {discipline ensures} {permitted : Node → Task → Prop}

omit [DecidableEq Node] in
theorem complies_allowed {thread : Thread (sig Local Request Answer) Node Request Answer}
    {operation : (sig Local Request Answer).Op}
    {next : (sig Local Request Answer).Res operation → Program (sig Local Request Answer) Answer}
    (complies : thread.Complies discipline ensures) (here : thread.program = .op operation next) :
    (discipline thread.node (thread.origin.map (·.2))).allowed thread.history operation := by
  unfold Thread.Complies at complies
  rw [here] at complies
  exact complies.1

omit [DecidableEq Node] in
theorem complies_ensures {thread : Thread (sig Local Request Answer) Node Request Answer}
    {job : Nat} {request : Request} {answer : Answer}
    (complies : thread.Complies discipline ensures) (serves : thread.origin = some (job, request))
    (done : thread.program = .ret answer) :
    ensures thread.node request answer thread.history := by
  unfold Thread.Complies at complies
  rw [done] at complies
  exact complies job request serves

omit [DecidableEq Node] in
theorem complies_act {thread : Thread (sig Local Request Answer) Node Request Answer}
    {operation : (sig Local Request Answer).Op}
    {next : (sig Local Request Answer).Res operation → Program (sig Local Request Answer) Answer}
    (here : thread.program = .op operation next) (complies : thread.Complies discipline ensures)
    (answer : (sig Local Request Answer).Res operation)
    (possible : (discipline thread.node (thread.origin.map (·.2))).possible operation answer) :
    (discipline thread.node (thread.origin.map (·.2))).allowed thread.history operation ∧
      (thread.resume operation next answer).Complies discipline ensures := by
  unfold Thread.Complies at complies
  rw [here] at complies
  exact ⟨complies.1, complies.2 answer possible⟩

theorem complies_step (disciplined : Disciplined discipline ensures system permitted)
    (starts : ∀ node task, label = .start node task → permitted node task)
    (step : Step system label before after)
    (all : ∀ thread ∈ before.threads, thread.Complies discipline ensures) :
    ∀ thread ∈ after.threads, thread.Complies discipline ensures := by
  cases step with
  | start node task free =>
      intro thread member
      rcases List.mem_append.mp member with old | new
      · exact all thread old
      · rw [List.mem_singleton.mp new]
        refine Program.wp_mono (discipline node none).contract_monotone _ ?_ _
          (disciplined.program node task (starts node task rfl))
        simp [Thread.fresh]
  | @act _ index input thread operation next answer store current here taken =>
      intro other member
      rcases List.mem_or_eq_of_mem_set member with old | rfl
      · exact all other old
      · have possible := disciplined.possible thread.node (thread.origin.map (·.2)) input operation
          (before.stores thread.node)
        rw [taken] at possible
        exact (complies_act here (all thread (List.mem_of_getElem? current)) answer possible).2
  | @post _ index thread request next current here idle =>
      intro other member
      rcases List.mem_or_eq_of_mem_set member with old | rfl
      · exact all other old
      · exact all thread (List.mem_of_getElem? current)
  | receive index current here waits answered =>
      intro thread member
      rcases List.mem_or_eq_of_mem_set member with old | rfl
      · exact all thread old
      · exact (complies_act here (all _ (List.mem_of_getElem? current)) _
          (disciplined.answers _ _ _ _)).2
  | giveUp index current here waits =>
      intro thread member
      rcases List.mem_or_eq_of_mem_set member with old | rfl
      · exact all thread old
      · exact (complies_act here (all _ (List.mem_of_getElem? current)) _
          (disciplined.answers _ _ _ _)).2
  | deliver job node flies routed =>
      intro thread member
      rcases List.mem_append.mp member with old | new
      · exact all thread old
      · rw [List.mem_singleton.mp new]
        refine Program.wp_mono (discipline node _).contract_monotone _ ?_ _
          (disciplined.serve node _ routed)
        rintro answer history ensured _ _ ⟨⟩
        exact ensured
  | reply | drop | foreign => exact all

end Compliance

/-- What every thread keeps, read off its program and its history. -/
theorem each_step {keeps : Node → Program (sig Local Request Answer) Answer →
      List (Event (sig Local Request Answer)) → Prop}
    {possible : (operation : (sig Local Request Answer).Op) →
      (sig Local Request Answer).Res operation → Prop}
    (resumes : ∀ node operation next history answer, possible operation answer →
      keeps node (.op operation next) history →
      keeps node (next answer) (⟨operation, answer⟩ :: history))
    (handled : ∀ node input operation store,
      possible (.inl operation) (system.handle node input operation store).1)
    (answered : ∀ request answer, possible (.inr request) answer)
    (program : ∀ node task, keeps node (system.program node task) [])
    (serve : ∀ node request, keeps node (system.serve node request) [])
    (step : Step system label before after)
    (all : ∀ thread ∈ before.threads, keeps thread.node thread.program thread.history) :
    ∀ thread ∈ after.threads, keeps thread.node thread.program thread.history := by
  intro thread member
  obtain ⟨index, present⟩ := List.getElem?_of_mem member
  cases thread_step step present with
  | still current node _ same history _ =>
      rw [← node, ← same, ← history]
      exact all _ (List.mem_of_getElem? current)
  | @acted old operation next input _ current here resumed =>
      subst resumed
      have kept := all old (List.mem_of_getElem? current)
      rw [here] at kept
      exact resumes old.node _ next old.history _ (handled old.node input operation _) kept
  | @answered old request next answer _ current here resumed =>
      subst resumed
      have kept := all old (List.mem_of_getElem? current)
      rw [here] at kept
      exact resumes old.node _ next old.history answer (answered request answer) kept
  | started node task _ fresh =>
      subst fresh
      exact program node task
  | served node _ request _ _ _ fresh =>
      subst fresh
      exact serve node request

section Testimony
variable (holds : Node → Event (sig Local Request Answer) →
    Configuration Local Node Store Request Answer → Prop)
  (granted : Request → Answer → Configuration Local Node Store Request Answer → Prop)

/-- Every event a thread remembers and every answer on its way back still
testifies to what it was taken to show. -/
structure Testified (state : Configuration Local Node Store Request Answer) : Prop where
  event : ∀ thread ∈ state.threads, ∀ event ∈ thread.history, holds thread.node event state
  answer : ∀ (job : Nat) request answer, state.jobs[job]? = some ⟨request, .answered answer⟩ →
    granted request answer state

/-- What has to be shown of one step. -/
structure Testifies (step : Step system label before after) : Prop where
  keepEvent : ∀ node event, holds node event before → holds node event after
  keepAnswer : ∀ request answer, granted request answer before → granted request answer after
  act : ∀ index input thread operation next answer store, label = .act index input →
    before.threads[index]? = some thread → thread.program = .op (.inl operation) next →
    system.handle thread.node input operation (before.stores thread.node) = (answer, store) →
    holds thread.node ⟨.inl operation, answer⟩ after
  receive : ∀ node request answer, granted request answer before →
    holds node ⟨.inr request, some answer⟩ after
  giveUp : ∀ node request, holds node ⟨.inr request, none⟩ after
  reply : ∀ thread ∈ before.threads, ∀ job request answer,
    thread.origin = some (job, request) → thread.program = .ret answer →
    granted request answer before
  foreign : ∀ request answer, system.foreign request = true → granted request answer before

variable {holds granted}

theorem testified_step (step : Step system label before after) (linked : Linked before)
    (testifies : Testifies holds granted step) (testified : Testified holds granted before) :
    Testified holds granted after := by
  have oldEvents : ∀ thread ∈ before.threads, ∀ event ∈ thread.history,
      holds thread.node event after := fun thread member event past =>
    testifies.keepEvent _ _ (testified.event thread member event past)
  have oldAnswers : ∀ (job : Nat) request answer,
      before.jobs[job]? = some ⟨request, .answered answer⟩ → granted request answer after :=
    fun job request answer present =>
      testifies.keepAnswer _ _ (testified.answer job request answer present)
  have setAnswers : ∀ (index : Nat) (sent : Request) (old new : Stage Answer),
      before.jobs[index]? = some ⟨sent, old⟩ →
      (∀ answer, new = .answered answer → granted sent answer after) →
      ∀ (job : Nat) request answer,
        (before.jobs.set index ⟨sent, new⟩)[job]? = some ⟨request, .answered answer⟩ →
        granted request answer after := by
    intro index sent old new found fits job request answer present
    rw [List.getElem?_set] at present
    by_cases same : index = job
    · subst same
      simp only [↓reduceIte, (List.getElem?_eq_some_iff.mp found).1, Option.some.injEq,
        Job.mk.injEq] at present
      exact present.1 ▸ fits answer present.2
    · simp only [same, ↓reduceIte] at present
      exact oldAnswers job request answer present
  cases step with
  | start node task free =>
      refine ⟨?_, oldAnswers⟩
      intro thread member
      rcases List.mem_append.mp member with old | new
      · exact oldEvents thread old
      · simp [List.mem_singleton.mp new, Thread.fresh]
  | @act _ index input thread operation next answer store current here taken =>
      refine ⟨?_, oldAnswers⟩
      intro other member
      rcases List.mem_or_eq_of_mem_set member with old | rfl
      · exact oldEvents other old
      · intro event past
        rcases List.mem_cons.mp past with rfl | earlier
        · exact testifies.act index input thread _ _ _ _ rfl current here taken
        · exact oldEvents thread (List.mem_of_getElem? current) event earlier
  | @post _ index thread request next current here idle =>
      constructor
      · intro other member
        rcases List.mem_or_eq_of_mem_set member with old | rfl
        · exact oldEvents other old
        · exact oldEvents thread (List.mem_of_getElem? current)
      · intro job request answer present
        by_cases old : job < before.jobs.length
        · rw [List.getElem?_append_left old] at present
          exact oldAnswers job request answer present
        · rw [List.getElem?_append_right (Nat.le_of_not_lt old)] at present
          cases shift : job - before.jobs.length <;> simp [shift] at present
  | receive index current here waits answered =>
      refine ⟨?_, oldAnswers⟩
      intro thread member
      rcases List.mem_or_eq_of_mem_set member with old | rfl
      · exact oldEvents thread old
      · intro event past
        have caller := List.mem_of_getElem? current
        rcases List.mem_cons.mp past with rfl | earlier
        · have own := received_own linked caller here waits answered
          subst own
          exact testifies.receive _ _ _ (testified.answer _ _ _ answered)
        · exact oldEvents _ caller event earlier
  | giveUp index current here waits =>
      refine ⟨?_, oldAnswers⟩
      intro thread member
      rcases List.mem_or_eq_of_mem_set member with old | rfl
      · exact oldEvents thread old
      · intro event past
        rcases List.mem_cons.mp past with rfl | earlier
        · exact testifies.giveUp _ _
        · exact oldEvents _ (List.mem_of_getElem? current) event earlier
  | deliver job node flies routed =>
      constructor
      · intro thread member
        rcases List.mem_append.mp member with old | new
        · exact oldEvents thread old
        · simp [List.mem_singleton.mp new, Thread.fresh]
      · exact setAnswers _ _ _ _ flies (by simp)
  | reply index current serves done served =>
      refine ⟨oldEvents, setAnswers _ _ _ _ served ?_⟩
      rintro answer ⟨⟩
      have caller := List.mem_of_getElem? current
      obtain ⟨stage, present⟩ := linked.origin _ caller _ _ serves
      rw [served] at present
      cases present
      exact testifies.keepAnswer _ _ (testifies.reply _ caller _ _ _ serves done)
  | drop job flies => exact ⟨oldEvents, setAnswers _ _ _ _ flies (by simp)⟩
  | foreign job answer flies outside =>
      refine ⟨oldEvents, setAnswers _ _ _ _ flies ?_⟩
      rintro _ ⟨⟩
      exact testifies.keepAnswer _ _ (testifies.foreign _ _ outside)

end Testimony
end Library.Rpc
