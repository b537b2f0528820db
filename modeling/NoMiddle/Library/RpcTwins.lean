import NoMiddle.Library.RpcRules

/-! Two runs side by side. Their stores differ in something the programs are never told, or
make nothing of when they are; then each step of one run is a step of the other, and nothing
but the stores tells the runs apart. -/
namespace Library

/-- The answers one operation may have on the two sides, and what may be done at all. -/
structure Twin (S : Sig) where
  possible : (operation : S.Op) → S.Res operation → S.Res operation → Prop
  allowed : S.Op → Prop

namespace Program
variable {S : Sig} {Value Output Item : Type} {twin : Twin S}

/-- The program goes on alike on both sides, whatever it is told. -/
def Blind (twin : Twin S) : Program S Value → Prop
  | ret _ => True
  | op operation next => twin.allowed operation ∧ ∀ left right,
      twin.possible operation left right → next left = next right ∧ (next left).Blind twin

theorem blind_bind {program : Program S Value} {rest : Value → Program S Output}
    (first : program.Blind twin) (second : ∀ value, (rest value).Blind twin) :
    (program >>= rest).Blind twin := by
  induction program with
  | ret value => exact second value
  | op operation next ih =>
      refine ⟨first.1, fun left right possible => ?_⟩
      obtain ⟨same, blind⟩ := first.2 left right possible
      exact ⟨congrArg (· >>= rest) same, ih left blind⟩

theorem blind_foldlM {body : Value → Item → Program S Value} {items : List Item}
    (each : ∀ item ∈ items, ∀ value, (body value item).Blind twin) (value : Value) :
    (items.foldlM body value).Blind twin := by
  induction items generalizing value with
  | nil => trivial
  | cons item rest ih =>
      rw [List.foldlM_cons]
      refine blind_bind (each item List.mem_cons_self value) fun next => ih (fun other member => ?_) next
      exact each other (List.mem_cons_of_mem item member)

theorem blind_forM {body : Item → Program S Unit} {items : List Item}
    (each : ∀ item ∈ items, (body item).Blind twin) : (items.forM body).Blind twin := by
  induction items with
  | nil => trivial
  | cons item rest ih =>
      refine blind_bind (each item List.mem_cons_self) fun _ => ih fun other member => ?_
      exact each other (List.mem_cons_of_mem item member)

theorem blind_of_only {permits : S.Op → Bool}
    (plain : ∀ operation, permits operation = true → twin.allowed operation ∧
      ∀ left right, twin.possible operation left right → left = right)
    {program : Program S Value} (only : program.Only permits) : program.Blind twin := by
  induction program with
  | ret value => trivial
  | op operation next ih =>
      obtain ⟨allowed, same⟩ := plain operation only.1
      refine ⟨allowed, fun left right possible => ?_⟩
      exact ⟨congrArg next (same left right possible), ih left (only.2 left)⟩

end Program

namespace Rpc
variable {Local : Sig} {Node Store Task Request Answer Input : Type}

/-- What has to be shown of the operations, the tasks and the services. -/
structure Twinned (system : System Local Node Store Task Request Answer Input)
    (twin : Node → Twin (sig Local Request Answer)) (alike : Node → Store → Store → Prop) :
    Prop where
  tells : ∀ node input operation left right, alike node left right →
    (twin node).possible (.inl operation) (system.handle node input operation left).1
      (system.handle node input operation right).1
  keeps : ∀ node input operation left right, (twin node).allowed (.inl operation) →
    alike node left right →
    alike node (system.handle node input operation left).2
      (system.handle node input operation right).2
  answers : ∀ node request answer, (twin node).possible (.inr request) answer answer
  program : ∀ node task, (system.program node task).Blind (twin node)
  serve : ∀ node request, (system.serve node request).Blind (twin node)

/-- All of a thread but what it was told. -/
structure Face (S : Sig) (Node Request Answer : Type) where
  node : Node
  origin : Option (Nat × Request)
  background : Bool
  program : Program S Answer
  waiting : Option Nat
  done : List S.Op

def Thread.face {S : Sig} (thread : Thread S Node Request Answer) : Face S Node Request Answer :=
  ⟨thread.node, thread.origin, thread.background, thread.program, thread.waiting,
    thread.history.map (·.1)⟩

/-- The states of the two runs. -/
structure Indistinct (twin : Node → Twin (sig Local Request Answer))
    (alike : Node → Store → Store → Prop)
    (left right : Configuration Local Node Store Request Answer) : Prop where
  stores : ∀ node, alike node (left.stores node) (right.stores node)
  faces : left.threads.map Thread.face = right.threads.map Thread.face
  jobs : left.jobs = right.jobs
  blind : ∀ thread ∈ left.threads, thread.program.Blind (twin thread.node)

/-- A run by its labels, the latest first. -/
inductive Trail [DecidableEq Node] (system : System Local Node Store Task Request Answer Input)
    (initial : Configuration Local Node Store Request Answer) :
    List (Label Node Task Input Answer) → Configuration Local Node Store Request Answer → Prop where
  | start : Trail system initial [] initial
  | step {labels before label after} (earlier : Trail system initial labels before)
      (step : Step system label before after) : Trail system initial (label :: labels) after

variable {system : System Local Node Store Task Request Answer Input}
  {twin : Node → Twin (sig Local Request Answer)} {alike : Node → Store → Store → Prop}
  {left right after : Configuration Local Node Store Request Answer}
  {label : Label Node Task Input Answer}

theorem Indistinct.other (same : Indistinct twin alike left right) {index : Nat}
    {thread : Thread (sig Local Request Answer) Node Request Answer}
    (present : left.threads[index]? = some thread) :
    ∃ other, right.threads[index]? = some other ∧ other.face = thread.face := by
  have faces := congrArg (·[index]?) same.faces
  simp only [List.getElem?_map, present, Option.map_some] at faces
  obtain ⟨other, found, equal⟩ := Option.map_eq_some_iff.mp faces.symm
  exact ⟨other, found, equal⟩

theorem Indistinct.moved (same : Indistinct twin alike left right) {index : Nat}
    {new counterpart : Thread (sig Local Request Answer) Node Request Answer}
    (equal : counterpart.face = new.face) (blind : new.program.Blind (twin new.node)) :
    (left.threads.set index new).map Thread.face =
      (right.threads.set index counterpart).map Thread.face ∧
    ∀ thread ∈ left.threads.set index new, thread.program.Blind (twin thread.node) := by
  refine ⟨by rw [List.map_set, List.map_set, same.faces, equal], fun thread member => ?_⟩
  rcases List.mem_or_eq_of_mem_set member with old | rfl
  · exact same.blind thread old
  · exact blind

theorem Indistinct.joined (same : Indistinct twin alike left right)
    (fresh : Thread (sig Local Request Answer) Node Request Answer)
    (blind : fresh.program.Blind (twin fresh.node)) :
    (left.threads ++ [fresh]).map Thread.face = (right.threads ++ [fresh]).map Thread.face ∧
    ∀ thread ∈ left.threads ++ [fresh], thread.program.Blind (twin thread.node) := by
  refine ⟨by rw [List.map_append, List.map_append, same.faces], fun thread member => ?_⟩
  rcases List.mem_append.mp member with old | new
  · exact same.blind thread old
  · rw [List.mem_singleton.mp new]
    exact blind

theorem face_resume {thread other : Thread (sig Local Request Answer) Node Request Answer}
    (same : other.face = thread.face) (operation : (sig Local Request Answer).Op)
    (next : (sig Local Request Answer).Res operation → Program (sig Local Request Answer) Answer)
    {told toldOther : (sig Local Request Answer).Res operation}
    (alike : next told = next toldOther) :
    (other.resume operation next toldOther).face = (thread.resume operation next told).face := by
  simp only [Thread.face, Face.mk.injEq] at same
  obtain ⟨node, origin, background, _, _, done⟩ := same
  simp [Thread.face, Thread.resume, node, origin, background, done, alike]

theorem face_cases {thread other : Thread (sig Local Request Answer) Node Request Answer}
    (same : other.face = thread.face) : ∃ history, other = { thread with history := history } ∧
      history.map (·.1) = thread.history.map (·.1) := by
  obtain ⟨node, origin, background, program, waiting, history⟩ := other
  simp only [Thread.face, Face.mk.injEq] at same
  obtain ⟨rfl, rfl, rfl, rfl, rfl, done⟩ := same
  exact ⟨history, rfl, done⟩

variable [DecidableEq Node]

theorem indistinct_step (twinned : Twinned system twin alike) (step : Step system label left after)
    (same : Indistinct twin alike left right) :
    ∃ other, Step system label right other ∧ Indistinct twin alike after other := by
  cases step with
  | start node task free =>
      obtain ⟨faces, blind⟩ := same.joined (.fresh node none (system.background task)
        (system.program node task)) (twinned.program node task)
      refine ⟨_, .start node task fun background other member here running => ?_,
        ⟨same.stores, faces, same.jobs, blind⟩⟩
      obtain ⟨thread, there, equal⟩ : ∃ thread ∈ left.threads, thread.face = other.face := by
        rw [← List.mem_map, same.faces]
        exact List.mem_map_of_mem member
      obtain ⟨history, rfl, _⟩ := face_cases equal.symm
      exact free background thread there here running
  | @act _ index input thread operation next answer store current here taken =>
      obtain ⟨other, present, equal⟩ := same.other current
      obtain ⟨history, rfl, done⟩ := face_cases equal
      have blind := same.blind thread (List.mem_of_getElem? current)
      rw [here] at blind
      have alikeHere := same.stores thread.node
      have tells := twinned.tells thread.node input operation _ _ alikeHere
      have keeps := twinned.keeps thread.node input operation _ _ blind.1 alikeHere
      rw [taken] at tells keeps
      obtain ⟨told, later⟩ := blind.2 _ _ tells
      have resumed := face_resume equal (.inl operation) next told
      obtain ⟨faces, blinds⟩ := same.moved resumed later
      refine ⟨_, .act index input present here rfl, ⟨fun place => ?_, faces, same.jobs, blinds⟩⟩
      by_cases own : place = thread.node
      · subst own
        simpa using keeps
      · simpa [Function.update_of_ne own] using same.stores place
  | @post _ index thread request next current here idle =>
      obtain ⟨other, present, equal⟩ := same.other current
      obtain ⟨history, rfl, done⟩ := face_cases equal
      have blind := same.blind thread (List.mem_of_getElem? current)
      have posted : Thread.face { thread with history := history, waiting := some right.jobs.length } =
          Thread.face { thread with waiting := some left.jobs.length } := by
        simp [Thread.face, done, same.jobs]
      obtain ⟨faces, blinds⟩ := same.moved posted blind
      exact ⟨_, .post index present here idle, ⟨same.stores, faces, by rw [same.jobs], blinds⟩⟩
  | @receive _ index thread request next job sent answer current here waits answered =>
      obtain ⟨other, present, equal⟩ := same.other current
      obtain ⟨history, rfl, done⟩ := face_cases equal
      have blind := same.blind thread (List.mem_of_getElem? current)
      rw [here] at blind
      obtain ⟨told, later⟩ := blind.2 _ _ (twinned.answers thread.node request (some answer))
      have resumed := face_resume equal (.inr request) next told
      obtain ⟨faces, blinds⟩ := same.moved resumed later
      exact ⟨_, .receive index present here waits (same.jobs ▸ answered), ⟨same.stores, faces,
        same.jobs, blinds⟩⟩
  | @giveUp _ index thread request next job current here waits =>
      obtain ⟨other, present, equal⟩ := same.other current
      obtain ⟨history, rfl, done⟩ := face_cases equal
      have blind := same.blind thread (List.mem_of_getElem? current)
      rw [here] at blind
      obtain ⟨told, later⟩ := blind.2 _ _ (twinned.answers thread.node request none)
      have resumed := face_resume equal (.inr request) next told
      obtain ⟨faces, blinds⟩ := same.moved resumed later
      exact ⟨_, .giveUp index present here waits, ⟨same.stores, faces, same.jobs, blinds⟩⟩
  | @deliver _ job node request flies routed =>
      obtain ⟨faces, blind⟩ := same.joined (.fresh node (some (job, request)) false
        (system.serve node request)) (twinned.serve node request)
      exact ⟨_, .deliver job node (same.jobs ▸ flies) routed,
        ⟨same.stores, faces, by rw [same.jobs], blind⟩⟩
  | @reply _ index thread job request sent answer current serves done served =>
      obtain ⟨other, present, equal⟩ := same.other current
      obtain ⟨history, rfl, _⟩ := face_cases equal
      exact ⟨_, .reply index present serves done (same.jobs ▸ served),
        ⟨same.stores, same.faces, by rw [same.jobs], same.blind⟩⟩
  | drop job flies =>
      exact ⟨_, .drop job (same.jobs ▸ flies), ⟨same.stores, same.faces, by rw [same.jobs],
        same.blind⟩⟩
  | foreign job answer flies outside =>
      exact ⟨_, .foreign job answer (same.jobs ▸ flies) outside, ⟨same.stores, same.faces,
        by rw [same.jobs], same.blind⟩⟩

/-- Whatever one run does, the other can do by the same labels. -/
theorem indistinct_run (twinned : Twinned system twin alike) {stores others : Node → Store}
    (start : ∀ node, alike node (stores node) (others node))
    {labels : List (Label Node Task Input Answer)}
    (trail : Trail system ⟨stores, [], []⟩ labels left) :
    ∃ right, Trail system ⟨others, [], []⟩ labels right ∧ Indistinct twin alike left right := by
  induction trail with
  | start => exact ⟨_, .start, ⟨start, rfl, rfl, fun _ none => absurd none List.not_mem_nil⟩⟩
  | step _ step ih =>
      obtain ⟨right, trail, same⟩ := ih
      obtain ⟨other, taken, still⟩ := indistinct_step twinned step same
      exact ⟨other, trail.step taken, still⟩

theorem run_trail {allows : Configuration Local Node Store Request Answer →
      Label Node Task Input Answer → Bool} {initial middle : Configuration Local Node Store Request Answer}
    {past : List (Label Node Task Input Answer)} (trail : Trail system initial past middle)
    (labels : List (Label Node Task Input Answer))
    (scheduled : run system allows labels middle = some after) :
    Trail system initial (labels.reverse ++ past) after := by
  induction labels generalizing middle past with
  | nil =>
      cases scheduled
      exact trail
  | cons label rest ih =>
      rw [run] at scheduled
      split at scheduled
      · obtain ⟨next, taken, later⟩ := Option.bind_eq_some_iff.mp scheduled
        rw [List.reverse_cons, List.append_assoc]
        exact ih (trail.step (next_step taken)) later
      · cases scheduled

end Rpc
end Library
