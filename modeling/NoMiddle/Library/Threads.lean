import NoMiddle.Library.Program

/-! Programs that share one state, their operations interleaved in any order. A program is in
its section from its first opening operation to the last one that is not quiet. Where no program
opens while another is in its section, the sections have an order, and running the programs
one after the other in that order leaves the same view. -/
namespace Library.Threads
variable {S : Sig} {Index State Value Input : Type}

structure Thread (S : Sig) (Value : Type) where
  program : Program S Value
  history : List (Event S)

structure Pool (S : Sig) (Index State Value : Type) where
  state : State
  threads : Index → Thread S Value

def begin (programs : Index → Program S Value) (state : State) : Pool S Index State Value :=
  ⟨state, fun index => ⟨programs index, []⟩⟩

variable [DecidableEq Index]

/-- The thread has performed its next operation with this answer. -/
def Pool.turn (pool : Pool S Index State Value) (index : Index) (operation : S.Op)
    (answer : S.Res operation) (next : Program S Value) (after : State) :
    Pool S Index State Value :=
  ⟨after, Function.update pool.threads index
    ⟨next, ⟨operation, answer⟩ :: (pool.threads index).history⟩⟩

inductive Step (handle : Input → (operation : S.Op) → State → S.Res operation × State) :
    Index → Pool S Index State Value → Pool S Index State Value → Prop where
  | act {pool} (index : Index) (input : Input) {operation next}
      (current : (pool.threads index).program = .op operation next) :
      Step handle index pool (pool.turn index operation (handle input operation pool.state).1
        (next (handle input operation pool.state).1) (handle input operation pool.state).2)

/-- The pools a run can reach when each of its steps meets `condition`, which speaks about the
pool before the step. -/
inductive Reachable (handle : Input → (operation : S.Op) → State → S.Res operation × State)
    (condition : Pool S Index State Value → Index → Prop) (initial : Pool S Index State Value) :
    Pool S Index State Value → Prop where
  | start : Reachable handle condition initial initial
  | step {before index after} (run : Reachable handle condition initial before)
      (meets : condition before index) (step : Step handle index before after) :
      Reachable handle condition initial after

/-- A run on a given schedule, which stops where a step does not apply or is not allowed. -/
def run (handle : Input → (operation : S.Op) → State → S.Res operation × State)
    (allows : Pool S Index State Value → Index → Bool) :
    List (Index × Input) → Pool S Index State Value → Option (Pool S Index State Value)
  | [], pool => some pool
  | (index, input) :: rest, pool =>
      match (pool.threads index).program with
      | .ret _ => none
      | .op operation next =>
          let taken := handle input operation pool.state
          if allows pool index then
            run handle allows rest (pool.turn index operation taken.1 (next taken.1) taken.2)
          else none

theorem run_reachable
    {handle : Input → (operation : S.Op) → State → S.Res operation × State}
    {allows : Pool S Index State Value → Index → Bool}
    {condition : Pool S Index State Value → Index → Prop}
    {initial pool final : Pool S Index State Value}
    (sufficient : ∀ pool index, Reachable handle condition initial pool →
      allows pool index = true → condition pool index)
    (schedule : List (Index × Input)) (reached : Reachable handle condition initial pool)
    (scheduled : run handle allows schedule pool = some final) :
    Reachable handle condition initial final := by
  induction schedule generalizing pool with
  | nil =>
      cases scheduled
      exact reached
  | cons entry rest ih =>
      rw [run] at scheduled
      split at scheduled
      · cases scheduled
      · next operation next current =>
        dsimp only at scheduled
        split at scheduled
        · next allowed =>
          exact ih (reached.step (sufficient _ _ reached allowed) (.act entry.1 entry.2 current)) scheduled
        · cases scheduled

@[simp] theorem turn_self {pool : Pool S Index State Value} {index : Index} {operation : S.Op}
    {answer : S.Res operation} {rest : Program S Value} {state : State} :
    (pool.turn index operation answer rest state).threads index =
      ⟨rest, ⟨operation, answer⟩ :: (pool.threads index).history⟩ :=
  Function.update_self ..

theorem turn_other {pool : Pool S Index State Value} {index other : Index} {operation : S.Op}
    {answer : S.Res operation} {rest : Program S Value} {state : State}
    (different : other ≠ index) :
    (pool.turn index operation answer rest state).threads other = pool.threads other :=
  Function.update_of_ne different ..

theorem turn_history {pool : Pool S Index State Value} {index other : Index} {operation : S.Op}
    {answer : S.Res operation} {rest : Program S Value} {state : State} {event : Event S} :
    event ∈ ((pool.turn index operation answer rest state).threads other).history ↔
      event ∈ (pool.threads other).history ∨ other = index ∧ event = ⟨operation, answer⟩ := by
  by_cases same : other = index
  · subst other
    rw [turn_self, List.mem_cons]
    simp only [true_and]
    exact or_comm
  · rw [turn_other same]
    simp [same]

/-- A thread that complies with a discipline from its start complies at every point. -/
theorem complies {handle : Input → (operation : S.Op) → State → S.Res operation × State}
    {condition : Pool S Index State Value → Index → Prop} {programs : Index → Program S Value}
    {initial : State} {pool : Pool S Index State Value} (discipline : Index → Discipline S)
    (post : Index → Value → List (Event S) → Prop)
    (possible : ∀ index input operation state,
      (discipline index).possible operation (handle input operation state).1)
    (start : ∀ index, (programs index).wp (discipline index).contract (post index) [])
    (run : Reachable handle condition (begin programs initial) pool) (index : Index) :
    (pool.threads index).program.wp (discipline index).contract (post index)
      (pool.threads index).history := by
  induction run with
  | start => exact start index
  | @step before other after _ _ step ih =>
      cases step with
      | act _ input current =>
          by_cases same : index = other
          · subst other
            rw [turn_self]
            rw [current] at ih
            exact ih.2 _ (possible index input _ _)
          · rw [turn_other same]
            exact ih

/-! One after the other. -/

/-- The tasks' programs run alone, in this order. -/
inductive Serial {Task : Type} (step : (operation : S.Op) → State → S.Res operation → State → Prop)
    (program : Task → Program S Value) (first : State) : List Task → State → Prop where
  | nil : Serial step program first [] first
  | snoc {order middle task value after} (before : Serial step program first order middle)
      (run : (program task).Runs step middle value after) :
      Serial step program first (order ++ [task]) after

/-! Sections. -/

/-- Up to its first opening operation the program performs stable operations only. -/
def Opens (stable opens : S.Op → Bool) : Program S Value → Prop
  | .ret _ => True
  | .op operation next => opens operation = true ∨
      stable operation = true ∧ ∀ answer, Opens stable opens (next answer)

def Thread.Entered (opens : S.Op → Bool) (thread : Thread S Value) : Prop :=
  ∃ event ∈ thread.history, opens event.1 = true

/-- Nobody opens while another thread may still do something that is not quiet. -/
def Exclusive (opens quiet : S.Op → Bool) (pool : Pool S Index State Value) (index : Index) :
    Prop :=
  ∀ operation next, (pool.threads index).program = .op operation next → opens operation = true →
    ∀ other, other ≠ index → (pool.threads other).Entered opens →
      (pool.threads other).program.Only quiet

/-- What the operations make of the part of the state that is looked at, and of a part that
stays the same. -/
structure Sections {View Base : Type}
    (handle : Input → (operation : S.Op) → State → S.Res operation × State)
    (view : State → View) (base : State → Base) (permits stable quiet : S.Op → Bool) : Prop where
  base_kept : ∀ input operation state, permits operation = true →
    base (handle input operation state).2 = base state
  view_same : ∀ input operation state other, permits operation = true →
    view state = view other → base state = base other →
    (handle input operation state).1 = (handle input operation other).1 ∧
      view (handle input operation state).2 = view (handle input operation other).2
  stable_same : ∀ input operation state other, stable operation = true →
    base state = base other → (handle input operation state).1 = (handle input operation other).1
  stable_kept : ∀ input operation state, stable operation = true →
    view (handle input operation state).2 = view state
  quiet_kept : ∀ input operation state, permits operation = true → quiet operation = true →
    view (handle input operation state).2 = view state

section Serialisation
variable {View Base : Type}
  {handle : Input → (operation : S.Op) → State → S.Res operation × State}
  {view : State → View} {base : State → Base} {permits opens stable quiet : S.Op → Bool}
  {program : Index → Program S Value} {initial : State} {pool after : Pool S Index State Value}

/-- The program comes to this point from any state of the same base, and leaves its view. -/
def Replays (handle : Input → (operation : S.Op) → State → S.Res operation × State)
    (view : State → View) (base : State → Base) (initial : State)
    (whole rest : Program S Value) : Prop :=
  ∀ state, base state = base initial → ∃ later,
    whole.Leads (Program.Answers handle) state rest later ∧ view later = view state ∧
      base later = base initial

/-- The threads in `order` have left their sections and have been run alone, as far as `serial`;
the current one is followed there. -/
structure Follows (handle : Input → (operation : S.Op) → State → S.Res operation × State)
    (view : State → View) (base : State → Base) (permits opens stable quiet : S.Op → Bool)
    (program : Index → Program S Value) (initial : State) (pool : Pool S Index State Value)
    (order : List Index) (serial : State) (current : Option Index) : Prop where
  distinct : order.Nodup
  serially : Serial (Program.Answers handle) program initial order serial
  poolBase : base pool.state = base initial
  serialBase : base serial = base initial
  permitted : ∀ index, (pool.threads index).program.Only permits
  entered : ∀ index, (pool.threads index).Entered opens ↔ index ∈ order ∨ current = some index
  left : ∀ index ∈ order, (pool.threads index).program.Only quiet
  fresh : ∀ index ∈ current, index ∉ order
  idle : current = none → view serial = view pool.state
  followed : ∀ index ∈ current, ∃ middle,
    (program index).Leads (Program.Answers handle) serial (pool.threads index).program middle ∧
      view middle = view pool.state ∧ base middle = base initial
  outside : ∀ index, ¬(pool.threads index).Entered opens →
    Opens stable opens (pool.threads index).program ∧
      Replays handle view base initial (program index) (pool.threads index).program

theorem Sections.run_kept (sections : Sections handle view base permits stable quiet)
    {rest : Program S Value} {state later : State} {value : Value}
    (permitted : rest.Only permits) (silent : rest.Only quiet)
    (run : rest.Runs (Program.Answers handle) state value later) :
    view later = view state ∧ base later = base state := by
  induction rest generalizing state with
  | ret output =>
      obtain ⟨_, rfl⟩ := run
      exact ⟨rfl, rfl⟩
  | op operation next ih =>
      obtain ⟨answer, middle, ⟨input, taken⟩, run⟩ := run
      obtain ⟨same, based⟩ := ih answer (permitted.2 answer) (silent.2 answer) run
      have kept := sections.quiet_kept input operation state permitted.1 silent.1
      have fixed := sections.base_kept input operation state permitted.1
      rw [taken] at kept fixed
      exact ⟨same.trans kept, based.trans fixed⟩

omit [DecidableEq Index] in
theorem follows_start (permitted : ∀ index, (program index).Only permits)
    (opening : ∀ index, Opens stable opens (program index)) :
    Follows handle view base permits opens stable quiet program initial (begin program initial)
      [] initial none where
  distinct := List.nodup_nil
  serially := .nil
  poolBase := rfl
  serialBase := rfl
  permitted := permitted
  entered index := by simp [begin, Thread.Entered]
  left index member := nomatch member
  fresh index member := nomatch member
  idle _ := rfl
  followed index member := nomatch member
  outside index _ := by
    constructor
    · exact opening index
    · intro state based
      exact ⟨state, .refl, rfl, based⟩

variable {order : List Index} {serial : State} {current : Option Index} {index : Index}

omit [DecidableEq Index] in
theorem Follows.close [Nonempty Input]
    (sections : Sections handle view base permits stable quiet)
    (follows : Follows handle view base permits opens stable quiet program initial pool order
      serial (some index)) (silent : (pool.threads index).program.Only quiet) :
    ∃ later, Follows handle view base permits opens stable quiet program initial pool
      (order ++ [index]) later none := by
  obtain ⟨middle, leads, same, based⟩ := follows.followed index rfl
  obtain ⟨value, later, run⟩ := Program.runs_total handle (pool.threads index).program middle
  obtain ⟨viewed, fixed⟩ := sections.run_kept (follows.permitted index) silent run
  refine ⟨later, ?_⟩
  constructor
  case distinct =>
    apply List.nodup_append.mpr
    refine ⟨follows.distinct, List.nodup_singleton index, ?_⟩
    intro other member last final same
    rw [same, List.mem_singleton.mp final] at member
    exact follows.fresh index rfl member
  case serially => exact follows.serially.snoc (leads.runs run)
  case poolBase => exact follows.poolBase
  case serialBase => exact fixed.trans based
  case permitted => exact follows.permitted
  case entered =>
    intro other
    rw [follows.entered, List.mem_append, List.mem_singleton]
    simp [eq_comm]
  case left =>
    intro other member
    rcases List.mem_append.mp member with earlier | last
    · exact follows.left other earlier
    · rw [List.mem_singleton.mp last]
      exact silent
  case fresh => intro other member; cases member
  case idle => exact fun _ => viewed.trans same
  case followed => intro other member; cases member
  case outside => exact follows.outside

variable {operation : S.Op} {next : S.Res operation → Program S Value} {answer : S.Res operation}
  {rest : Program S Value} {state : State}

theorem turn_entered {other : Index} :
    ((pool.turn index operation answer rest state).threads other).Entered opens ↔
      (pool.threads other).Entered opens ∨ other = index ∧ opens operation = true := by
  by_cases same : other = index
  · subst other
    rw [turn_self]
    simp only [Thread.Entered, List.exists_mem_cons_iff, true_and]
    exact or_comm
  · rw [turn_other same]
    simp [same]

theorem Follows.turn_permitted
    (follows : Follows handle view base permits opens stable quiet program initial pool order
      serial current) (here : (pool.threads index).program = .op operation next) (other : Index) :
    ((pool.turn index operation answer (next answer) state).threads other).program.Only permits := by
  by_cases same : other = index
  · subst other
    have whole := follows.permitted index
    rw [here] at whole
    rw [turn_self]
    exact whole.2 answer
  · rw [turn_other same]
    exact follows.permitted other

omit [DecidableEq Index] in
theorem Follows.permits_next
    (follows : Follows handle view base permits opens stable quiet program initial pool order
      serial current) (here : (pool.threads index).program = .op operation next) :
    permits operation = true := by
  have whole := follows.permitted index
  rw [here] at whole
  exact whole.1

theorem Follows.quiet_turn (sections : Sections handle view base permits stable quiet)
    (follows : Follows handle view base permits opens stable quiet program initial pool order
      serial current) (here : (pool.threads index).program = .op operation next)
    (member : index ∈ order) (input : Input) :
    Follows handle view base permits opens stable quiet program initial
      (pool.turn index operation (handle input operation pool.state).1
        (next (handle input operation pool.state).1) (handle input operation pool.state).2)
      order serial current := by
  have permitted := follows.permits_next here
  have silent := follows.left index member
  rw [here] at silent
  have kept := sections.quiet_kept input operation pool.state permitted silent.1
  have inside : (pool.threads index).Entered opens := (follows.entered index).mpr (.inl member)
  constructor
  case distinct => exact follows.distinct
  case serially => exact follows.serially
  case poolBase => exact (sections.base_kept input operation _ permitted).trans follows.poolBase
  case serialBase => exact follows.serialBase
  case permitted => exact follows.turn_permitted here
  case entered =>
    intro other
    rw [turn_entered, ← follows.entered other]
    constructor
    · rintro (before | ⟨rfl, _⟩)
      · exact before
      · exact inside
    · exact Or.inl
  case left =>
    intro other left
    by_cases same : other = index
    · subst other
      rw [turn_self]
      exact silent.2 _
    · rw [turn_other same]
      exact follows.left other left
  case fresh => exact follows.fresh
  case idle => exact fun none => (follows.idle none).trans kept.symm
  case followed =>
    intro other follow
    have different : other ≠ index := by
      rintro rfl
      exact follows.fresh other follow member
    obtain ⟨middle, leads, same, based⟩ := follows.followed other follow
    rw [turn_other different]
    exact ⟨middle, leads, same.trans kept.symm, based⟩
  case outside =>
    intro other out
    rw [turn_entered, not_or] at out
    have different : other ≠ index := by
      rintro rfl
      exact out.1 inside
    rw [turn_other different]
    exact follows.outside other out.1

/-- The thread in its section takes the step in its own run, too. -/
theorem Follows.current_turn (sections : Sections handle view base permits stable quiet)
    (follows : Follows handle view base permits opens stable quiet program initial pool order
      serial (some index)) (here : (pool.threads index).program = .op operation next)
    (input : Input) :
    Follows handle view base permits opens stable quiet program initial
      (pool.turn index operation (handle input operation pool.state).1
        (next (handle input operation pool.state).1) (handle input operation pool.state).2)
      order serial (some index) := by
  have permitted := follows.permits_next here
  have inside : (pool.threads index).Entered opens := (follows.entered index).mpr (.inr rfl)
  constructor
  case distinct => exact follows.distinct
  case serially => exact follows.serially
  case poolBase => exact (sections.base_kept input operation _ permitted).trans follows.poolBase
  case serialBase => exact follows.serialBase
  case permitted => exact follows.turn_permitted here
  case entered =>
    intro other
    rw [turn_entered, ← follows.entered other]
    constructor
    · rintro (before | ⟨rfl, _⟩)
      · exact before
      · exact inside
    · exact Or.inl
  case left =>
    intro other left
    have different : other ≠ index := by
      rintro rfl
      exact follows.fresh other rfl left
    rw [turn_other different]
    exact follows.left other left
  case fresh => exact follows.fresh
  case idle => intro none; cases none
  case followed =>
    rintro _ ⟨⟩
    obtain ⟨middle, leads, same, based⟩ := follows.followed index rfl
    rw [here] at leads
    obtain ⟨answers, views⟩ := sections.view_same input operation middle pool.state permitted same
      (based.trans follows.poolBase.symm)
    rw [turn_self]
    refine ⟨(handle input operation middle).2, ?_, views, ?_⟩
    · exact leads.op ⟨input, Prod.ext answers rfl⟩
    · exact (sections.base_kept input operation middle permitted).trans based
  case outside =>
    intro other out
    rw [turn_entered, not_or] at out
    have different : other ≠ index := by
      rintro rfl
      exact out.1 inside
    rw [turn_other different]
    exact follows.outside other out.1

/-- Before its section a thread could have waited, so it does not matter when it is there. -/
theorem Follows.stable_turn (sections : Sections handle view base permits stable quiet)
    (follows : Follows handle view base permits opens stable quiet program initial pool order
      serial current) (here : (pool.threads index).program = .op operation next)
    (out : ¬(pool.threads index).Entered opens) (closed : opens operation ≠ true) (input : Input) :
    Follows handle view base permits opens stable quiet program initial
      (pool.turn index operation (handle input operation pool.state).1
        (next (handle input operation pool.state).1) (handle input operation pool.state).2)
      order serial current := by
  have permitted := follows.permits_next here
  obtain ⟨opening, replays⟩ := follows.outside index out
  rw [here] at opening replays
  obtain ⟨steady, opening⟩ := opening.resolve_left closed
  have kept := sections.stable_kept input operation pool.state steady
  have others : ∀ other, (pool.threads other).Entered opens → other ≠ index := by
    rintro other inside rfl
    exact out inside
  constructor
  case distinct => exact follows.distinct
  case serially => exact follows.serially
  case poolBase => exact (sections.base_kept input operation _ permitted).trans follows.poolBase
  case serialBase => exact follows.serialBase
  case permitted => exact follows.turn_permitted here
  case entered =>
    intro other
    rw [turn_entered, ← follows.entered other]
    simp [closed]
  case left =>
    intro other left
    rw [turn_other (others other ((follows.entered other).mpr (.inl left)))]
    exact follows.left other left
  case fresh => exact follows.fresh
  case idle => exact fun none => (follows.idle none).trans kept.symm
  case followed =>
    intro other follow
    obtain ⟨middle, leads, same, based⟩ := follows.followed other follow
    rw [turn_other (others other ((follows.entered other).mpr (.inr follow)))]
    exact ⟨middle, leads, same.trans kept.symm, based⟩
  case outside =>
    intro other away
    rw [turn_entered, not_or] at away
    by_cases same : other = index
    · subst other
      rw [turn_self]
      constructor
      · exact opening _
      · -- The answer would have been the same from the other state.
        intro state based
        obtain ⟨later, leads, viewed, fixed⟩ := replays state based
        have answers := sections.stable_same input operation later pool.state steady
          (fixed.trans follows.poolBase.symm)
        refine ⟨(handle input operation later).2, ?_, ?_, ?_⟩
        · exact leads.op ⟨input, Prod.ext answers rfl⟩
        · exact (sections.stable_kept input operation later steady).trans viewed
        · exact (sections.base_kept input operation later permitted).trans fixed
    · rw [turn_other same]
      exact follows.outside other away.1

/-- A thread that opens while nobody is in a section is the next one of the order. -/
theorem Follows.open_turn (sections : Sections handle view base permits stable quiet)
    (follows : Follows handle view base permits opens stable quiet program initial pool order
      serial none) (here : (pool.threads index).program = .op operation next)
    (out : ¬(pool.threads index).Entered opens) (enters : opens operation = true) (input : Input) :
    Follows handle view base permits opens stable quiet program initial
      (pool.turn index operation (handle input operation pool.state).1
        (next (handle input operation pool.state).1) (handle input operation pool.state).2)
      order serial (some index) := by
  have permitted := follows.permits_next here
  have outside : index ∉ order := fun member => out ((follows.entered index).mpr (.inl member))
  constructor
  case distinct => exact follows.distinct
  case serially => exact follows.serially
  case poolBase => exact (sections.base_kept input operation _ permitted).trans follows.poolBase
  case serialBase => exact follows.serialBase
  case permitted => exact follows.turn_permitted here
  case entered =>
    intro other
    rw [turn_entered, follows.entered other]
    simp [enters, eq_comm]
  case left =>
    intro other left
    have different : other ≠ index := by
      rintro rfl
      exact outside left
    rw [turn_other different]
    exact follows.left other left
  case fresh =>
    rintro _ ⟨⟩
    exact outside
  case idle => intro none; cases none
  case followed =>
    rintro _ ⟨⟩
    obtain ⟨later, leads, viewed, fixed⟩ := (follows.outside index out).2 serial follows.serialBase
    rw [here] at leads
    obtain ⟨answers, views⟩ := sections.view_same input operation later pool.state permitted
      (viewed.trans (follows.idle rfl)) (fixed.trans follows.poolBase.symm)
    rw [turn_self]
    refine ⟨(handle input operation later).2, ?_, views, ?_⟩
    · exact leads.op ⟨input, Prod.ext answers rfl⟩
    · exact (sections.base_kept input operation later permitted).trans fixed
  case outside =>
    intro other away
    rw [turn_entered, not_or] at away
    have different : other ≠ index := fun same => away.2 ⟨same, enters⟩
    rw [turn_other different]
    exact follows.outside other away.1

theorem follows_step [Nonempty Input]
    (sections : Sections handle view base permits stable quiet)
    (follows : Follows handle view base permits opens stable quiet program initial pool order
      serial current) (exclusive : Exclusive opens quiet pool index)
    (step : Step handle index pool after) :
    ∃ order serial current, Follows handle view base permits opens stable quiet program initial
      after order serial current := by
  cases step with
  | act index input here =>
      by_cases inside : (pool.threads index).Entered opens
      · rcases (follows.entered index).mp inside with left | rfl
        · exact ⟨_, _, _, follows.quiet_turn sections here left input⟩
        · exact ⟨_, _, _, follows.current_turn sections here input⟩
      rename_i operation next
      by_cases closed : opens operation = true
      · -- Whoever is still current has only quiet operations left, and makes room.
        cases current with
        | none => exact ⟨_, _, _, follows.open_turn sections here inside closed input⟩
        | some other =>
            have entered := (follows.entered other).mpr (.inr rfl)
            have different : other ≠ index := by
              rintro rfl
              exact inside entered
            have silent := exclusive operation next here closed other different entered
            obtain ⟨later, follows⟩ := follows.close sections silent
            exact ⟨_, _, _, follows.open_turn sections here inside closed input⟩
      · exact ⟨_, _, _, follows.stable_turn sections here inside closed input⟩

theorem follows_run [Nonempty Input]
    (sections : Sections handle view base permits stable quiet)
    (permitted : ∀ index, (program index).Only permits)
    (opening : ∀ index, Opens stable opens (program index))
    (run : Reachable handle (Exclusive opens quiet) (begin program initial) pool) :
    ∃ order serial current, Follows handle view base permits opens stable quiet program initial
      pool order serial current := by
  induction run with
  | start => exact ⟨_, _, _, follows_start permitted opening⟩
  | step _ meets step ih =>
      obtain ⟨order, serial, current, follows⟩ := ih
      exact follows_step sections follows meets step

def Pool.Finished (pool : Pool S Index State Value) : Prop :=
  ∀ index, (pool.threads index).program.finished = true

omit [DecidableEq Index] in
/-- Threads that never opened can be run last. -/
theorem Follows.append
    (follows : Follows handle view base permits opens stable quiet program initial pool order
      serial none) (finished : pool.Finished) (others : List Index) (distinct : others.Nodup)
    (away : ∀ index ∈ others, ¬(pool.threads index).Entered opens) :
    ∃ later, Serial (Program.Answers handle) program initial (order ++ others) later ∧
      view later = view pool.state ∧ base later = base initial := by
  induction others using List.reverseRecOn with
  | nil => exact ⟨serial, by simpa using follows.serially, follows.idle rfl, follows.serialBase⟩
  | append_singleton earlier index ih =>
      obtain ⟨middle, serially, viewed, based⟩ := ih (distinct.sublist (by simp)) fun other member =>
        away other (by simp [member])
      obtain ⟨_, replays⟩ := follows.outside index (away index (by simp))
      obtain ⟨later, leads, same, fixed⟩ := replays middle based
      have done := finished index
      cases ended : (pool.threads index).program with
      | op operation next => simp [ended, Program.finished] at done
      | ret value =>
          rw [ended] at leads
          refine ⟨later, ?_, same.trans viewed, fixed⟩
          rw [← List.append_assoc]
          exact serially.snoc (leads.runs ⟨rfl, rfl⟩)

/-- If no program opens while another is in its section, a finished run leaves the view that
running the programs one after the other leaves, in some order. -/
theorem serialises [Nonempty Input] [Fintype Index]
    (sections : Sections handle view base permits stable quiet)
    (permitted : ∀ index, (program index).Only permits)
    (opening : ∀ index, Opens stable opens (program index))
    (run : Reachable handle (Exclusive opens quiet) (begin program initial) pool)
    (finished : pool.Finished) :
    ∃ order serial, order.Nodup ∧ (∀ index, index ∈ order) ∧
      Serial (Program.Answers handle) program initial order serial ∧
      view serial = view pool.state := by
  have silent : ∀ index, (pool.threads index).program.Only quiet := by
    intro index
    have done := finished index
    cases ended : (pool.threads index).program with
    | op operation next => simp [ended, Program.finished] at done
    | ret value => trivial
  obtain ⟨order, serial, follows⟩ : ∃ order serial, Follows handle view base permits opens stable
      quiet program initial pool order serial none := by
    obtain ⟨order, serial, current, follows⟩ := follows_run sections permitted opening run
    cases current with
    | none => exact ⟨order, serial, follows⟩
    | some index =>
        obtain ⟨later, follows⟩ := follows.close sections (silent index)
        exact ⟨_, later, follows⟩
  let others := Finset.univ.toList.filter (· ∉ order)
  have distinct : others.Nodup := (Finset.nodup_toList _).filter _
  obtain ⟨later, serially, viewed, _⟩ := follows.append finished others distinct (by
    intro index member inside
    rcases (follows.entered index).mp inside with left | impossible
    · simpa [left] using (List.mem_filter.mp member).2
    · cases impossible)
  refine ⟨order ++ others, later, ?_, ?_, serially, viewed⟩
  · apply List.nodup_append.mpr
    refine ⟨follows.distinct, distinct, ?_⟩
    rintro index member _ out rfl
    simpa [member] using (List.mem_filter.mp out).2
  · intro index
    by_cases member : index ∈ order
    · exact List.mem_append_left _ member
    · exact List.mem_append_right _ (List.mem_filter.mpr ⟨by simp, by simpa using member⟩)

end Serialisation
end Library.Threads
