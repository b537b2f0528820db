import NoMiddle.Library.RpcRules

/-! How often something happened on a node, over all its threads. When the store can only
afford an event so many times, and pays for each of them, no run has it more often, however its
threads are interleaved. -/
namespace Library.Rpc
variable {Local : Sig} {Node Store Task Request Answer Input : Type} [DecidableEq Node]

section Tally
variable (node : Node) (counted : Event (sig Local Request Answer) → Bool)

def share (thread : Thread (sig Local Request Answer) Node Request Answer) : Nat :=
  if thread.node = node then thread.history.countP counted else 0

def tally (state : Configuration Local Node Store Request Answer) : Nat :=
  (state.threads.map (share node counted)).sum

end Tally

variable {system : System Local Node Store Task Request Answer Input}
  {condition : Configuration Local Node Store Request Answer → Label Node Task Input Answer → Prop}
  {before after initial state : Configuration Local Node Store Request Answer}
  {label : Label Node Task Input Answer} {node : Node}
  {counted wider : Event (sig Local Request Answer) → Bool}

/-- The share of one thread is replaced. -/
theorem sum_set {Item : Type} (weight : Item → Nat) {items : List Item} {index : Nat}
    {old : Item} (new : Item) (present : items[index]? = some old) :
    ((items.set index new).map weight).sum + weight old = (items.map weight).sum + weight new := by
  induction items generalizing index with
  | nil => cases present
  | cons first rest ih =>
      cases index with
      | zero =>
          cases present
          simp only [List.set_cons_zero, List.map_cons, List.sum_cons]
          omega
      | succ index =>
          have moved := ih present
          simp only [List.set_cons_succ, List.map_cons, List.sum_cons]
          omega

theorem share_le_tally (node : Node) (counted : Event (sig Local Request Answer) → Bool)
    {thread : Thread (sig Local Request Answer) Node Request Answer}
    (member : thread ∈ state.threads) : share node counted thread ≤ tally node counted state :=
  List.le_sum_of_mem (List.mem_map_of_mem member)

/-- What no thread does more often than something else is not done more often altogether. -/
theorem tally_mono (fewer : ∀ thread ∈ state.threads, thread.node = node →
      thread.history.countP counted ≤ thread.history.countP wider) :
    tally node counted state ≤ tally node wider state := by
  refine List.sum_le_sum fun thread member => ?_
  unfold share
  split
  · next here => exact fewer thread member here
  · exact Nat.le_refl 0

/-- The shares are those of before but for the one event of this step. -/
theorem tally_step (foreign : ∀ request answer, counted ⟨.inr request, answer⟩ = false)
    (step : Step system label before after) :
    tally node counted after = tally node counted before ∨
    ∃ index input thread operation next, label = .act index input ∧
      before.threads[index]? = some thread ∧ thread.program = .op (.inl operation) next ∧
      thread.node = node ∧
      counted ⟨.inl operation,
        (system.handle node input operation (before.stores node)).1⟩ = true ∧
      tally node counted after = tally node counted before + 1 := by
  have fresh : ∀ host origin background program,
      ((before.threads ++ [Thread.fresh host origin background program]).map
        (share node counted)).sum = tally node counted before := by
    intro host origin background program
    simp [tally, share, Thread.fresh]
  have replaced : ∀ {index : Nat} {old new}, before.threads[index]? = some old →
      share node counted new = share node counted old →
      ((before.threads.set index new).map (share node counted)).sum =
        tally node counted before := by
    intro index old new present same
    have moved := sum_set (share node counted) new present
    unfold tally
    omega
  have unheard : ∀ {old : Thread (sig Local Request Answer) Node Request Answer} request next
      answer, share node counted (old.resume (.inr request) next answer) =
        share node counted old := by
    intro old request next answer
    simp [share, Thread.resume, foreign]
  cases step with
  | start => exact .inl (fresh _ _ _ _)
  | deliver => exact .inl (fresh _ _ _ _)
  | post index current here idle => exact .inl (replaced current rfl)
  | receive index current here waits answered => exact .inl (replaced current (unheard _ _ _))
  | giveUp index current here waits => exact .inl (replaced current (unheard _ _ _))
  | reply | drop | foreign => exact .inl rfl
  | @act _ index input thread operation next answer store current here taken =>
      have same : (system.handle thread.node input operation (before.stores thread.node)).1 =
        answer := by rw [taken]
      by_cases own : thread.node = node
      · by_cases counts : counted ⟨.inl operation, answer⟩ = true
        · refine .inr ⟨index, input, thread, operation, next, rfl, current, here, own, ?_, ?_⟩
          · rw [← own, same]
            exact counts
          · have moved := sum_set (share node counted)
              (thread.resume (.inl operation) next answer) current
            have more : share node counted (thread.resume (.inl operation) next answer) =
                share node counted thread + 1 := by
              simp [share, Thread.resume, own, counts]
            unfold tally
            dsimp only
            omega
        · refine .inl (replaced current ?_)
          simp [share, Thread.resume, counts]
      · refine .inl (replaced current ?_)
        simp [share, Thread.resume, own]

/-- Events the store pays for happen no more often than it can afford. -/
theorem tally_afforded (afforded : Store → Nat)
    (foreign : ∀ request answer, counted ⟨.inr request, answer⟩ = false)
    (kept : ∀ input operation store,
      afforded store ≤ afforded (system.handle node input operation store).2)
    (paid : ∀ input operation store,
      counted ⟨.inl operation, (system.handle node input operation store).1⟩ = true →
      afforded store < afforded (system.handle node input operation store).2)
    (start : tally node counted initial ≤ afforded (initial.stores node))
    (run : Reachable system condition initial state) :
    tally node counted state ≤ afforded (state.stores node) := by
  refine run.invariant (fun current => tally node counted current ≤ afforded (current.stores node))
    start fun before label after bounded _ step => ?_
  rcases tally_step foreign step with same |
    ⟨index, input, thread, operation, next, acts, current, here, own, counts, more⟩
  · rw [same]
    rcases stores_step step with untouched | ⟨_, input, thread, operation, _, _, _, _, changed⟩
    · rwa [untouched]
    · rw [changed]
      by_cases here : node = thread.node
      · subst here
        rw [Function.update_self]
        exact le_trans bounded (kept input operation _)
      · rwa [Function.update_of_ne here]
  · subst acts
    rw [more, ← own, acted_store step current here, own]
    exact lt_of_le_of_lt bounded (paid input operation _ counts)

end Library.Rpc
