import NoMiddle.Library.Custody
import NoMiddle.Library.RpcRules

/-! Copies in the hands of threads. A thread that complies with a careful discipline
uses only what it holds, so it has nothing in hand when it starts, and after a step
it has in hand what it had before or what it took with that step. -/
namespace Library.Rpc
variable {Local : Sig} {Node Store Task Request Answer Input Item Data : Type}

/-- A discipline under which threads use copies with care. Copies are taken from the
thread's own node, never from an answer. -/
structure Careful (system : System Local Node Store Task Request Answer Input)
    (custody : Custody (sig Local Request Answer) Item Data)
    (possible : (operation : (sig Local Request Answer).Op) →
      (sig Local Request Answer).Res operation → Prop)
    (discipline : Node → Option Request → Discipline (sig Local Request Answer)) : Prop where
  uniform : ∀ node origin, (discipline node origin).possible = possible
  handled : ∀ node input operation store,
    possible (.inl operation) (system.handle node input operation store).1
  answered : ∀ request answer, possible (.inr request) answer
  untaken : ∀ item request answer, custody.takes item ⟨.inr request, answer⟩ = none
  uses : ∀ node origin item history operation,
    (discipline node origin).allowed history operation → custody.uses item operation →
    ∃ data, custody.held item history = some data

variable {system : System Local Node Store Task Request Answer Input}
  {before after : Configuration Local Node Store Request Answer}
  {label : Label Node Task Input Answer}
  {custody : Custody (sig Local Request Answer) Item Data}
  {possible : (operation : (sig Local Request Answer).Op) →
    (sig Local Request Answer).Res operation → Prop}
  {discipline : Node → Option Request → Discipline (sig Local Request Answer)}
  {ensures : Node → Request → Answer → List (Event (sig Local Request Answer)) → Prop}

theorem held_of_inHand (careful : Careful system custody possible discipline)
    {thread : Thread (sig Local Request Answer) Node Request Answer}
    (complies : thread.Complies discipline ensures) {item : Item}
    (inHand : thread.program.InHand custody item possible) :
    ∃ data, custody.held item thread.history = some data := by
  rw [← careful.uniform thread.node (thread.origin.map (·.2))] at inHand
  exact Program.held_of_inHand (careful.uses thread.node _ item) thread.program _ thread.history
    complies inHand

/-- How a thread comes to have a copy in hand after a step. -/
inductive Handed (system : System Local Node Store Task Request Answer Input)
    (custody : Custody (sig Local Request Answer) Item Data)
    (possible : (operation : (sig Local Request Answer).Op) →
      (sig Local Request Answer).Res operation → Prop)
    (before : Configuration Local Node Store Request Answer)
    (label : Label Node Task Input Answer) (item : Item) (index : Nat)
    (thread : Thread (sig Local Request Answer) Node Request Answer) : Prop where
  | kept {old} (current : before.threads[index]? = some old) (node : old.node = thread.node)
      (inHand : old.program.InHand custody item possible)
      (same : custody.held item thread.history = custody.held item old.history)
      (ungiven : ∀ input operation next, label = .act index input →
        old.program = .op (.inl operation) next → custody.gives item
          ⟨.inl operation, (system.handle old.node input operation (before.stores old.node)).1⟩ =
            false)
      (untaken : ∀ input operation next, label = .act index input →
        old.program = .op (.inl operation) next → custody.takes item
          ⟨.inl operation, (system.handle old.node input operation (before.stores old.node)).1⟩ =
            none)
  | taken {old operation next data} (input : Input) (acts : label = .act index input)
      (current : before.threads[index]? = some old)
      (here : old.program = .op (.inl operation) next)
      (resumed : thread = old.resume (.inl operation) next
        (system.handle old.node input operation (before.stores old.node)).1)
      (took : custody.takes item
        ⟨.inl operation, (system.handle old.node input operation (before.stores old.node)).1⟩ =
          some data)

theorem inHand_step (careful : Careful system custody possible discipline) {index : Nat}
    {thread : Thread (sig Local Request Answer) Node Request Answer}
    (came : Came system before label index thread)
    (complies : thread.Complies discipline ensures) {item : Item}
    (inHand : thread.program.InHand custody item possible) :
    Handed system custody possible before label item index thread := by
  obtain ⟨data, held⟩ := held_of_inHand careful complies inHand
  cases came with
  | @still old current node origin program history rests =>
      refine .kept current node (program ▸ inHand) (by rw [history]) ?_ ?_
      · exact fun input _ _ acts => absurd acts (rests input)
      · exact fun input _ _ acts => absurd acts (rests input)
  | @acted old operation next input acts current here resumed =>
      subst resumed
      cases took : custody.takes item
          ⟨.inl operation, (system.handle old.node input operation (before.stores old.node)).1⟩ with
      | some data => exact .taken input acts current here rfl took
      | none =>
          have ungiven : custody.gives item
              ⟨.inl operation, (system.handle old.node input operation
                (before.stores old.node)).1⟩ = false := by
            refine Bool.eq_false_iff.mpr fun given => ?_
            have gone := custody.held_given old.history took given
            exact absurd (gone.symm.trans held) (by simp)
          refine .kept current rfl ?_ (custody.held_kept old.history took ungiven) ?_ ?_
          · rw [here]
            exact .inr ⟨_, careful.handled old.node input operation _, took, inHand⟩
          · intro other operation' next' acts' here'
            rw [acts] at acts'
            cases acts'
            rw [here] at here'
            cases here'
            exact ungiven
          · intro other operation' next' acts' here'
            rw [acts] at acts'
            cases acts'
            rw [here] at here'
            cases here'
            exact took
  | @answered old request next answer quiet current here resumed =>
      subst resumed
      have untaken := careful.untaken item request answer
      have ungiven : custody.gives item ⟨.inr request, answer⟩ = false := by
        refine Bool.eq_false_iff.mpr fun given => ?_
        have gone := custody.held_given old.history untaken given
        exact absurd (gone.symm.trans held) (by simp)
      refine .kept current rfl ?_ (custody.held_kept old.history untaken ungiven) ?_ ?_
      · rw [here]
        exact .inr ⟨answer, careful.answered request answer, untaken, inHand⟩
      · exact fun input _ _ acts => absurd acts (quiet index input)
      · exact fun input _ _ acts => absurd acts (quiet index input)
  | started node task starts fresh =>
      subst fresh
      cases held
  | served node job request delivers flies routed fresh =>
      subst fresh
      cases held

end Library.Rpc
