import NoMiddle.Library.RpcRules

/-! What a thread's history shows of its past. A thread that keeps to a discipline
has kept to it at each of its operations, so a fact every operation needs can be
read off the history long after. -/
namespace Library

/-- Every event was allowed and possible when it happened. -/
def Discipline.Followed {S : Sig} (discipline : Discipline S) : List (Event S) → Prop
  | [] => True
  | event :: earlier =>
      discipline.allowed earlier event.1 ∧ discipline.possible event.1 event.2 ∧
        discipline.Followed earlier

theorem Discipline.Followed.past {S : Sig} {discipline : Discipline S}
    {later earlier : List (Event S)} {event : Event S}
    (followed : discipline.Followed (later ++ event :: earlier)) :
    discipline.allowed earlier event.1 ∧ discipline.possible event.1 event.2 ∧
      discipline.Followed earlier := by
  induction later with
  | nil => exact followed
  | cons _ _ ih => exact ih followed.2.2

theorem Discipline.Followed.possible {S : Sig} {discipline : Discipline S}
    {history : List (Event S)} {event : Event S} (followed : discipline.Followed history)
    (member : event ∈ history) : discipline.possible event.1 event.2 := by
  obtain ⟨later, earlier, rfl⟩ := List.append_of_mem member
  exact followed.past.2.1

/-- The events led from the start of the program to what is left of it. -/
def Program.Past {S : Sig} {Value : Type} (start : Program S Value) :
    List (Event S) → Program S Value → Prop
  | [], rest => rest = start
  | event :: earlier, rest => ∃ next, start.Past earlier (.op event.1 next) ∧ rest = next event.2

theorem Program.Past.finished {S : Sig} {Value : Type} {value : Value} {rest : Program S Value}
    {history : List (Event S)} (past : (Program.ret value).Past history rest) : history = [] := by
  induction history generalizing rest with
  | nil => rfl
  | cons event earlier ih =>
      obtain ⟨next, before, _⟩ := past
      cases ih before
      cases before

theorem Program.Past.oldest {S : Sig} {Value : Type} {operation : S.Op}
    {next : S.Res operation → Program S Value} {rest : Program S Value} {history : List (Event S)}
    (past : (Program.op operation next).Past history rest) (started : history ≠ []) :
    ∃ later answer, history = later ++ [⟨operation, answer⟩] := by
  induction history generalizing rest with
  | nil => exact absurd rfl started
  | cons event earlier ih =>
      obtain ⟨_, before, _⟩ := past
      cases earlier with
      | nil =>
          cases before
          exact ⟨[], event.2, rfl⟩
      | cons older earliest =>
          obtain ⟨later, answer, same⟩ := ih before (List.cons_ne_nil older earliest)
          exact ⟨event :: later, answer, by rw [same, List.cons_append]⟩

/-- A program that complied when it started has followed the discipline ever since. -/
theorem Program.Past.followed {S : Sig} {Value : Type} {discipline : Discipline S}
    {start rest : Program S Value} {post : Value → List (Event S) → Prop}
    {history : List (Event S)} (past : start.Past history rest)
    (complies : start.wp discipline.contract post [])
    (possible : ∀ event ∈ history, discipline.possible event.1 event.2) :
    discipline.Followed history ∧ rest.wp discipline.contract post history := by
  induction history generalizing rest with
  | nil =>
      cases past
      exact ⟨trivial, complies⟩
  | cons event earlier ih =>
      obtain ⟨next, before, rfl⟩ := past
      have shown := possible event List.mem_cons_self
      obtain ⟨followed, allowed, remains⟩ := ih before fun other member =>
        possible other (List.mem_cons_of_mem event member)
      exact ⟨⟨allowed, shown, followed⟩, remains event.2 shown⟩

namespace Rpc
variable {Local : Sig} {Node Store Task Request Answer Input : Type} [DecidableEq Node]
  {system : System Local Node Store Task Request Answer Input}
  {before after : Configuration Local Node Store Request Answer}
  {label : Label Node Task Input Answer}
  {discipline : Node → Option Request → Discipline (sig Local Request Answer)}
  {ensures : Node → Request → Answer → List (Event (sig Local Request Answer)) → Prop}
  {permitted : Node → Task → Prop}

def Thread.Followed
    (discipline : Node → Option Request → Discipline (sig Local Request Answer))
    (thread : Thread (sig Local Request Answer) Node Request Answer) : Prop :=
  (discipline thread.node (thread.origin.map (·.2))).Followed thread.history

theorem followed_step (disciplined : Disciplined discipline ensures system permitted)
    (step : Step system label before after)
    (complies : ∀ thread ∈ before.threads, thread.Complies discipline ensures)
    (followed : ∀ thread ∈ before.threads, thread.Followed discipline) :
    ∀ thread ∈ after.threads, thread.Followed discipline := by
  intro thread member
  obtain ⟨index, present⟩ := List.getElem?_of_mem member
  cases thread_step step present with
  | still current node origin _ history _ =>
      have old := followed _ (List.mem_of_getElem? current)
      unfold Thread.Followed at old
      rwa [node, origin, history] at old
  | @acted old operation next input _ current here resumed =>
      subst resumed
      have caller := List.mem_of_getElem? current
      exact ⟨complies_allowed (complies old caller) here, disciplined.possible _ _ input _ _,
        followed old caller⟩
  | @answered old request next answer _ current here resumed =>
      subst resumed
      have caller := List.mem_of_getElem? current
      exact ⟨complies_allowed (complies old caller) here, disciplined.answers _ _ _ _,
        followed old caller⟩
  | started _ _ _ fresh =>
      subst fresh
      trivial
  | served _ _ _ _ _ _ fresh =>
      subst fresh
      trivial

theorem past_step (step : Step system label before after) {index : Nat}
    {thread : Thread (sig Local Request Answer) Node Request Answer}
    (present : after.threads[index]? = some thread) {operation : Local.Op}
    {answer : Local.Res operation} {later earlier : List (Event (sig Local Request Answer))}
    (split : thread.history = later ++ ⟨.inl operation, answer⟩ :: earlier) :
    (∃ old rest, before.threads[index]? = some old ∧
      old.history = rest ++ ⟨.inl operation, answer⟩ :: earlier ∧
      (rest = later ∨ ∃ latest, later = latest :: rest)) ∨
    ∃ input old next, label = .act index input ∧ before.threads[index]? = some old ∧
      old.program = .op (.inl operation) next ∧ old.history = earlier ∧ later = [] ∧
      answer = (system.handle old.node input operation (before.stores old.node)).1 := by
  cases thread_step step present with
  | still current _ _ _ history _ =>
      exact .inl ⟨_, later, current, history.trans split, .inl rfl⟩
  | @acted old other next input acts current here resumed =>
      subst resumed
      cases later with
      | nil =>
          simp only [Thread.resume, List.nil_append, List.cons.injEq, Sigma.mk.injEq,
            Sum.inl.injEq] at split
          obtain ⟨⟨rfl, same⟩, rest⟩ := split
          exact .inr ⟨input, old, next, acts, current, here, rest, rfl, (eq_of_heq same).symm⟩
      | cons latest rest =>
          exact .inl ⟨old, rest, current, (List.cons.inj split).2, .inr ⟨latest, rfl⟩⟩
  | @answered old request next received _ current here resumed =>
      subst resumed
      cases later with
      | nil =>
          simp only [Thread.resume, List.nil_append, List.cons.injEq, Sigma.mk.injEq] at split
          cases split.1.1
      | cons latest rest =>
          exact .inl ⟨old, rest, current, (List.cons.inj split).2, .inr ⟨latest, rfl⟩⟩
  | started _ _ _ fresh =>
      subst fresh
      exact absurd split.symm (by simp [Thread.fresh])
  | served _ _ _ _ _ _ fresh =>
      subst fresh
      exact absurd split.symm (by simp [Thread.fresh])

theorem history_kept (step : Step system label before after) {index : Nat}
    {thread : Thread (sig Local Request Answer) Node Request Answer}
    (present : before.threads[index]? = some thread) :
    ∃ later news, after.threads[index]? = some later ∧ later.node = thread.node ∧
      later.history = news ++ thread.history := by
  have inside := (List.getElem?_eq_some_iff.mp present).1
  have replaced : ∀ {other : Nat} {old new : Thread (sig Local Request Answer) Node Request Answer}
      (news : List (Event (sig Local Request Answer))),
      before.threads[other]? = some old → new.node = old.node →
      new.history = news ++ old.history →
      ∃ later news, (before.threads.set other new)[index]? = some later ∧
        later.node = thread.node ∧ later.history = news ++ thread.history := by
    intro other old new news current node past
    by_cases same : other = index
    · subst same
      rw [present] at current
      cases current
      exact ⟨new, news, by simp [inside], node, past⟩
    · exact ⟨thread, [], by simp [same, present], rfl, rfl⟩
  cases step with
  | start | deliver =>
      exact ⟨thread, [], by rw [List.getElem?_append_left inside, present], rfl, rfl⟩
  | act _ _ current _ _ => exact replaced [_] current rfl rfl
  | receive _ current _ _ _ => exact replaced [_] current rfl rfl
  | giveUp _ current _ _ => exact replaced [_] current rfl rfl
  | post _ current _ _ => exact replaced [] current rfl rfl
  | reply | drop | foreign => exact ⟨thread, [], present, rfl, rfl⟩

theorem request_step (step : Step system label before after) {job : Job Request Answer}
    (present : job ∈ after.jobs) :
    (∃ old ∈ before.jobs, old.request = job.request) ∨
    ∃ thread ∈ before.threads, ∃ next, thread.program = .op (.inr job.request) next := by
  have replaced : ∀ {place : Nat} {sent : Request} {old new : Stage Answer},
      before.jobs[place]? = some ⟨sent, old⟩ → job ∈ before.jobs.set place ⟨sent, new⟩ →
      ∃ old ∈ before.jobs, old.request = job.request := by
    intro place sent old new found member
    rcases List.mem_or_eq_of_mem_set member with kept | rfl
    · exact ⟨job, kept, rfl⟩
    · exact ⟨_, List.mem_of_getElem? found, rfl⟩
  cases step with
  | start | act | receive | giveUp => exact .inl ⟨job, present, rfl⟩
  | post _ current here _ =>
      rcases List.mem_append.mp present with kept | new
      · exact .inl ⟨job, kept, rfl⟩
      · cases List.mem_singleton.mp new
        exact .inr ⟨_, List.mem_of_getElem? current, _, here⟩
  | deliver _ _ flies _ => exact .inl (replaced flies present)
  | reply _ _ _ _ served => exact .inl (replaced served present)
  | drop _ flies => exact .inl (replaced flies present)
  | foreign _ _ flies _ => exact .inl (replaced flies present)

/-- The thread is where the program led it. -/
def Thread.Continues (start : Program (sig Local Request Answer) Answer)
    (thread : Thread (sig Local Request Answer) Node Request Answer) : Prop :=
  start.Past thread.history thread.program

omit [DecidableEq Node] in
theorem continues_resume {start : Program (sig Local Request Answer) Answer}
    {thread : Thread (sig Local Request Answer) Node Request Answer}
    {operation : (sig Local Request Answer).Op}
    {next : (sig Local Request Answer).Res operation → Program (sig Local Request Answer) Answer}
    (continues : thread.Continues start) (here : thread.program = .op operation next)
    (answer : (sig Local Request Answer).Res operation) :
    (thread.resume operation next answer).Continues start := by
  unfold Thread.Continues at continues
  rw [here] at continues
  exact ⟨next, continues, rfl⟩

theorem continues_step (step : Step system label before after) {index : Nat}
    {thread : Thread (sig Local Request Answer) Node Request Answer}
    (present : after.threads[index]? = some thread) :
    (∃ old ∈ before.threads, old.node = thread.node ∧
      ∀ start, old.Continues start → thread.Continues start) ∨
    (∃ task, label = .start thread.node task ∧
      thread.Continues (system.program thread.node task)) ∨
    ∃ job ∈ before.jobs, thread.Continues (system.serve thread.node job.request) := by
  cases thread_step step present with
  | still current node _ program history _ =>
      refine .inl ⟨_, List.mem_of_getElem? current, node, fun start continues => ?_⟩
      unfold Thread.Continues at continues ⊢
      rwa [← program, ← history]
  | acted _ _ current here resumed | answered _ current here resumed =>
      subst resumed
      exact .inl ⟨_, List.mem_of_getElem? current, rfl,
        fun _ continues => continues_resume continues here _⟩
  | started node task starts fresh =>
      subst fresh
      exact .inr (.inl ⟨task, starts, rfl⟩)
  | served node job request _ flies _ fresh =>
      subst fresh
      exact .inr (.inr ⟨_, List.mem_of_getElem? flies, rfl⟩)

/-- A thread that serves nobody does one of the tasks that were started. -/
theorem course_run (started : Node → Task → Prop)
    {condition : Configuration Local Node Store Request Answer →
      Label Node Task Input Answer → Prop}
    (starts : ∀ state node task, condition state (.start node task) → started node task)
    {stores : Node → Store} {state : Configuration Local Node Store Request Answer}
    (run : Reachable system condition ⟨stores, [], []⟩ state)
    {thread : Thread (sig Local Request Answer) Node Request Answer}
    (member : thread ∈ state.threads) (own : thread.origin = none) :
    ∃ task, started thread.node task ∧ thread.Continues (system.program thread.node task) := by
  refine run.invariant (fun state => ∀ thread ∈ state.threads, thread.origin = none →
    ∃ task, started thread.node task ∧ thread.Continues (system.program thread.node task))
    (fun _ none => absurd none List.not_mem_nil) ?_ thread member own
  intro before label after sofar meets step thread member own
  obtain ⟨index, present⟩ := List.getElem?_of_mem member
  cases thread_step step present with
  | still current node origin program history _ =>
      obtain ⟨task, begun, continues⟩ :=
        sofar _ (List.mem_of_getElem? current) (origin.trans own)
      unfold Thread.Continues at continues ⊢
      exact ⟨task, node ▸ begun, by rwa [← program, ← history, ← node]⟩
  | acted _ _ current here resumed | answered _ current here resumed =>
      subst resumed
      obtain ⟨task, begun, continues⟩ := sofar _ (List.mem_of_getElem? current) own
      exact ⟨task, begun, continues_resume continues here _⟩
  | started node task begins fresh =>
      subst begins fresh
      exact ⟨task, starts before node task meets, rfl⟩
  | served _ _ _ _ _ _ fresh =>
      subst fresh
      cases own

theorem continues_kept (step : Step system label before after)
    {thread : Thread (sig Local Request Answer) Node Request Answer}
    (member : thread ∈ before.threads) :
    ∃ later ∈ after.threads, later.node = thread.node ∧
      (∀ event ∈ thread.history, event ∈ later.history) ∧
      ∀ start, thread.Continues start → later.Continues start := by
  obtain ⟨index, present⟩ := List.getElem?_of_mem member
  have inside := (List.getElem?_eq_some_iff.mp present).1
  have replaced : ∀ {other : Nat} {old new : Thread (sig Local Request Answer) Node Request Answer},
      before.threads[other]? = some old → new.node = old.node →
      (∀ event ∈ old.history, event ∈ new.history) →
      (∀ start, old.Continues start → new.Continues start) →
      ∃ later ∈ before.threads.set other new, later.node = thread.node ∧
        (∀ event ∈ thread.history, event ∈ later.history) ∧
        ∀ start, thread.Continues start → later.Continues start := by
    intro other old new current node past continues
    by_cases same : other = index
    · subst same
      rw [present] at current
      cases current
      exact ⟨new, List.mem_set inside _, node, past, continues⟩
    · have stays : (before.threads.set other new)[index]? = some thread := by
        simp [same, present]
      exact ⟨thread, List.mem_of_getElem? stays, rfl, fun _ past => past, fun _ same => same⟩
  cases step with
  | start | deliver =>
      exact ⟨thread, List.mem_append_left _ member, rfl, fun _ past => past, fun _ same => same⟩
  | act _ _ current here _ | receive _ current here _ _ | giveUp _ current here _ =>
      exact replaced current rfl (fun _ past => List.mem_cons_of_mem _ past)
        fun _ continues => continues_resume continues here _
  | post _ current _ _ => exact replaced current rfl (fun _ past => past) fun _ same => same
  | reply | drop | foreign =>
      exact ⟨thread, member, rfl, fun _ past => past, fun _ same => same⟩

/-- Every request was posted when it could be vouched for. -/
structure Vouched (vouch : Node → List (Event (sig Local Request Answer)) → Request → Prop)
    (state : Configuration Local Node Store Request Answer) : Prop where
  waiting : ∀ thread ∈ state.threads, ∀ job request next, thread.waiting = some job →
    thread.program = .op (.inr request) next → vouch thread.node thread.history request
  received : ∀ thread ∈ state.threads, ∀ request answer earlier,
    thread.history = ⟨.inr request, answer⟩ :: earlier → vouch thread.node earlier request

theorem vouched_step
    {vouch : Node → List (Event (sig Local Request Answer)) → Request → Prop}
    (step : Step system label before after)
    (posts : ∀ index thread request next, label = .post index →
      before.threads[index]? = some thread → thread.program = .op (.inr request) next →
      vouch thread.node thread.history request)
    (vouched : Vouched vouch before) : Vouched vouch after := by
  have resumed : ∀ {thread : Thread (sig Local Request Answer) Node Request Answer}
      {sent : Request} {rest : Option Answer → Program (sig Local Request Answer) Answer}
      {job : Nat} {received : Option Answer}, thread ∈ before.threads →
      thread.program = .op (.inr sent) rest → thread.waiting = some job →
      ∀ request answer earlier, (thread.resume (.inr sent) rest received).history =
        ⟨.inr request, answer⟩ :: earlier → vouch thread.node earlier request := by
    intro thread sent rest job received member here waits request answer earlier history
    cases history
    exact vouched.waiting thread member job sent rest waits here
  cases step with
  | start | deliver =>
      constructor
      · intro thread member job request next waits
        rcases List.mem_append.mp member with old | new
        · exact vouched.waiting thread old job request next waits
        · cases List.mem_singleton.mp new
          cases waits
      · intro thread member request answer earlier history
        rcases List.mem_append.mp member with old | new
        · exact vouched.received thread old request answer earlier history
        · cases List.mem_singleton.mp new
          cases history
  | act =>
      constructor
      · intro thread member job request next waits
        rcases List.mem_or_eq_of_mem_set member with old | rfl
        · exact vouched.waiting thread old job request next waits
        · cases waits
      · intro thread member request answer earlier history
        rcases List.mem_or_eq_of_mem_set member with old | rfl
        · exact vouched.received thread old request answer earlier history
        · cases history
  | @post _ index poster _ _ current _ _ =>
      constructor
      · intro thread member job request next waits program
        rcases List.mem_or_eq_of_mem_set member with old | rfl
        · exact vouched.waiting thread old job request next waits program
        · exact posts index poster request next rfl current program
      · intro thread member request answer earlier history
        rcases List.mem_or_eq_of_mem_set member with old | rfl
        · exact vouched.received thread old request answer earlier history
        · exact vouched.received _ (List.mem_of_getElem? current) request answer earlier history
  | receive _ current here waits _ | giveUp _ current here waits =>
      constructor
      · intro thread member job request next waits
        rcases List.mem_or_eq_of_mem_set member with old | rfl
        · exact vouched.waiting thread old job request next waits
        · cases waits
      · intro thread member request answer earlier history
        rcases List.mem_or_eq_of_mem_set member with old | rfl
        · exact vouched.received thread old request answer earlier history
        · exact resumed (List.mem_of_getElem? current) here waits request answer earlier history
  | reply | drop | foreign => exact ⟨vouched.waiting, vouched.received⟩

/-- Who serves was reached, and so was whoever gave an answer. -/
structure Reached (system : System Local Node Store Task Request Answer Input)
    (state : Configuration Local Node Store Request Answer) : Prop where
  origin : ∀ thread ∈ state.threads, ∀ job request, thread.origin = some (job, request) →
    system.routes request thread.node = true
  answered : ∀ (job : Nat) request answer, state.jobs[job]? = some ⟨request, .answered answer⟩ →
    ∃ node, system.routes request node = true
  received : ∀ thread ∈ state.threads, ∀ request answer earlier,
    thread.history = ⟨.inr request, some answer⟩ :: earlier →
    ∃ node, system.routes request node = true

theorem reached_step (closed : ∀ request, system.foreign request = false)
    (step : Step system label before after) (linked : Linked before)
    (reached : Reached system before) : Reached system after where
  origin := by
    intro thread member job request serves
    obtain ⟨index, present⟩ := List.getElem?_of_mem member
    cases thread_step step present with
    | still current node origin _ _ _ =>
        rw [← node]
        exact reached.origin _ (List.mem_of_getElem? current) job request (origin.trans serves)
    | acted _ _ current _ resumed | answered _ current _ resumed =>
        subst resumed
        exact reached.origin _ (List.mem_of_getElem? current) job request serves
    | started _ _ _ fresh =>
        subst fresh
        cases serves
    | served _ _ _ _ _ routed fresh =>
        subst fresh
        cases serves
        exact routed
  answered := by
    intro job request answer answered
    rcases answered_step step answered with old | ⟨thread, member, sent, serves, _, served⟩ | out
    · exact reached.answered job request answer old
    · obtain ⟨stage, own⟩ := linked.origin thread member job sent serves
      cases served.symm.trans own
      exact ⟨thread.node, reached.origin thread member job request serves⟩
    · cases (closed request).symm.trans out
  received := by
    intro thread member request answer earlier history
    obtain ⟨index, present⟩ := List.getElem?_of_mem member
    rcases received_step step present history with
      ⟨old, current, same⟩ | ⟨old, next, job, sent, current, here, waits, answered⟩
    · exact reached.received old (List.mem_of_getElem? current) request answer earlier
        (same.trans history)
    · cases received_own linked (List.mem_of_getElem? current) here waits answered
      exact reached.answered job request answer answered

end Rpc
end Library
