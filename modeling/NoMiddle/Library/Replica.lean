import NoMiddle.Library.RpcCustody

/-! One item and its copy at another node. The sender keeps the item in its store, its
threads take copies and post them, and the receiver's threads put what a request
carries into the receiver's store. If the sender renews the item only while no copy is
under way, every copy is of the item as it stands, and an acknowledgement means that
the receiver holds it. -/
namespace Library.Rpc
variable {Local : Sig} {Node Store Task Request Answer Input Item Data : Type}

structure Replica (Local : Sig) (Node Store Request Answer Item Data : Type) where
  sender : Node
  receiver : Node
  custody : Custody (sig Local Request Answer) Item Data
  item : Item
  possible : (operation : (sig Local Request Answer).Op) →
    (sig Local Request Answer).Res operation → Prop
  /-- The copy is of the item as the sender's store has it. -/
  fits : Data → Store → Prop
  about : Request → Prop
  carries : Request → Store → Prop
  accepts : Answer → Prop
  /-- The operation that puts the request into a store. -/
  applies : Request → (operation : Local.Op) → Local.Res operation → Prop
  /-- The receiver's store holds what the sender's store has. -/
  same : Store → Store → Prop
  /-- The sender takes its item for acknowledged. -/
  settled : Store → Prop

namespace Replica
variable (replica : Replica Local Node Store Request Answer Item Data)

def Holds (thread : Thread (sig Local Request Answer) Node Request Answer) : Prop :=
  thread.node = replica.sender ∧
    thread.program.InHand replica.custody replica.item replica.possible

/-- The last thing the thread learnt is that the receiver has its copy. -/
def Acknowledged (thread : Thread (sig Local Request Answer) Node Request Answer) : Prop :=
  ∃ request answer earlier, thread.history = ⟨.inr request, some answer⟩ :: earlier ∧
    replica.about request ∧ replica.accepts answer

def Applied (request : Request) (history : List (Event (sig Local Request Answer))) : Prop :=
  ∃ operation answer, (⟨.inl operation, answer⟩ : Event (sig Local Request Answer)) ∈ history ∧
    replica.applies request operation answer

structure Quiet (state : Configuration Local Node Store Request Answer) (index : Nat) : Prop where
  alone : ∀ (other : Nat) thread, other ≠ index → state.threads[other]? = some thread →
    ¬replica.Holds thread
  landed : ∀ (job : Nat) request, state.jobs[job]? = some ⟨request, .flight⟩ →
    ¬replica.about request
  served : ∀ thread ∈ state.threads, ∀ job request, thread.origin = some (job, request) →
    replica.about request → thread.finished = true

/-- Every copy under way is of the item as it stands, and whoever was told that the
receiver has it was told the truth. -/
structure Faithful (state : Configuration Local Node Store Request Answer) : Prop where
  inHand : ∀ thread ∈ state.threads, replica.Holds thread →
    ∃ data, replica.custody.held replica.item thread.history = some data ∧
      replica.fits data (state.stores replica.sender)
  flight : ∀ (job : Nat) request, state.jobs[job]? = some ⟨request, .flight⟩ →
    replica.about request → replica.carries request (state.stores replica.sender)
  serving : ∀ thread ∈ state.threads, ∀ job request, thread.origin = some (job, request) →
    replica.about request → thread.finished = false →
    replica.carries request (state.stores replica.sender)
  applied : ∀ thread ∈ state.threads, replica.Holds thread → ∀ job, thread.waiting = some job →
    ∀ server ∈ state.threads, ∀ request, server.origin = some (job, request) →
    replica.about request → replica.Applied request server.history →
    replica.same (state.stores replica.sender) (state.stores replica.receiver)
  answered : ∀ thread ∈ state.threads, replica.Holds thread → ∀ job, thread.waiting = some job →
    ∀ request answer, state.jobs[job]? = some ⟨request, .answered answer⟩ →
    replica.about request → replica.accepts answer →
    replica.same (state.stores replica.sender) (state.stores replica.receiver)
  acknowledged : ∀ thread ∈ state.threads, replica.Holds thread → replica.Acknowledged thread →
    replica.same (state.stores replica.sender) (state.stores replica.receiver)
  settled : replica.settled (state.stores replica.sender) →
    replica.same (state.stores replica.sender) (state.stores replica.receiver)

structure Keeps (state : Configuration Local Node Store Request Answer)
    (thread : Thread (sig Local Request Answer) Node Request Answer)
    (event : Event (sig Local Request Answer)) (left : Store) : Prop where
  fits : ∀ data, replica.fits data (state.stores replica.sender) → replica.fits data left
  carries : ∀ request, replica.carries request (state.stores replica.sender) →
    replica.carries request left
  same : ∀ store, replica.same (state.stores replica.sender) store → replica.same left store
  taken : ∀ data, replica.custody.takes replica.item event = some data → replica.fits data left
  settled : replica.settled left → replica.settled (state.stores replica.sender) ∨
    replica.Holds thread ∧ replica.Acknowledged thread

structure Renews (state : Configuration Local Node Store Request Answer) (index : Nat)
    (event : Event (sig Local Request Answer)) (left : Store) : Prop where
  quiet : replica.Quiet state index
  taken : ∃ data, replica.custody.takes replica.item event = some data ∧ replica.fits data left
  unsettled : ¬replica.settled left

structure Upkeep (system : System Local Node Store Task Request Answer Input)
    (before : Configuration Local Node Store Request Answer)
    (label : Label Node Task Input Answer) : Prop where
  own : ∀ index input thread operation next, label = .act index input →
    before.threads[index]? = some thread → thread.program = .op (.inl operation) next →
    thread.node = replica.sender →
    replica.Keeps before thread
      ⟨.inl operation, (system.handle thread.node input operation (before.stores thread.node)).1⟩
      (system.handle thread.node input operation (before.stores thread.node)).2 ∨
    replica.Renews before index
      ⟨.inl operation, (system.handle thread.node input operation (before.stores thread.node)).1⟩
      (system.handle thread.node input operation (before.stores thread.node)).2
  /-- What the receiver does to its copy it does for a request. -/
  theirs : ∀ index input thread operation next, label = .act index input →
    before.threads[index]? = some thread → thread.program = .op (.inl operation) next →
    thread.node = replica.receiver →
    (∀ job request, thread.origin = some (job, request) → replica.about request →
      replica.carries request (before.stores replica.sender)) →
    replica.same (before.stores replica.sender) (before.stores replica.receiver) →
    replica.same (before.stores replica.sender)
      (system.handle thread.node input operation (before.stores thread.node)).2
  puts : ∀ index input thread operation next, label = .act index input →
    before.threads[index]? = some thread → thread.program = .op (.inl operation) next →
    ∀ job request, thread.origin = some (job, request) → replica.about request →
    replica.carries request (before.stores replica.sender) →
    replica.applies request operation
      (system.handle thread.node input operation (before.stores thread.node)).1 →
    thread.node = replica.receiver ∧
    replica.same (before.stores replica.sender)
      (system.handle thread.node input operation (before.stores thread.node)).2
  posts : ∀ index thread request next, label = .post index →
    before.threads[index]? = some thread → thread.program = .op (.inr request) next →
    replica.about request →
    replica.Holds thread ∧
    ∀ data, replica.custody.held replica.item thread.history = some data →
      replica.fits data (before.stores replica.sender) →
      replica.carries request (before.stores replica.sender)
  replies : ∀ thread ∈ before.threads, ∀ job request answer,
    thread.origin = some (job, request) → thread.program = .ret answer →
    replica.about request → replica.accepts answer →
    replica.Applied request thread.history
  closed : ∀ request, system.foreign request = false

section Step
variable [DecidableEq Node] {replica}
  {system : System Local Node Store Task Request Answer Input}
  {before after : Configuration Local Node Store Request Answer}
  {label : Label Node Task Input Answer}
  {discipline : Node → Option Request → Discipline (sig Local Request Answer)}
  {ensures : Node → Request → Answer → List (Event (sig Local Request Answer)) → Prop}

structure Preserved (replica : Replica Local Node Store Request Answer Item Data)
    (before after : Configuration Local Node Store Request Answer) : Prop where
  fits : ∀ data, replica.fits data (before.stores replica.sender) →
    replica.fits data (after.stores replica.sender)
  carries : ∀ request, replica.carries request (before.stores replica.sender) →
    replica.carries request (after.stores replica.sender)
  same : replica.same (before.stores replica.sender) (before.stores replica.receiver) →
    replica.same (after.stores replica.sender) (after.stores replica.receiver)
  settled : replica.settled (after.stores replica.sender) →
    replica.settled (before.stores replica.sender) ∨
    ∃ thread ∈ before.threads, replica.Holds thread ∧ replica.Acknowledged thread

theorem preserved_or_renewed (different : replica.receiver ≠ replica.sender)
    (step : Step system label before after) (upkeep : replica.Upkeep system before label)
    (faithful : replica.Faithful before) :
    replica.Preserved before after ∨
    ∃ index input thread operation next, label = .act index input ∧
      before.threads[index]? = some thread ∧ thread.program = .op (.inl operation) next ∧
      thread.node = replica.sender ∧
      replica.Renews before index
        ⟨.inl operation, (system.handle thread.node input operation (before.stores thread.node)).1⟩
        (after.stores replica.sender) := by
  rcases stores_step step with
    unchanged | ⟨index, input, thread, operation, next, acts, current, here, changed⟩
  · refine .inl ⟨?_, ?_, ?_, ?_⟩ <;> rw [unchanged]
    · exact fun _ fits => fits
    · exact fun _ carries => carries
    · exact id
    · exact Or.inl
  by_cases own : thread.node = replica.sender
  · have there : after.stores replica.sender =
        (system.handle thread.node input operation (before.stores thread.node)).2 := by
      rw [changed, ← own, Function.update_self]
    have away : after.stores replica.receiver = before.stores replica.receiver := by
      rw [changed, Function.update_of_ne (own ▸ different)]
    rcases upkeep.own index input thread operation next acts current here own with keeps | renews
    · refine .inl ⟨?_, ?_, ?_, ?_⟩ <;> rw [there]
      · exact keeps.fits
      · exact keeps.carries
      · rw [away]
        exact keeps.same _
      · exact fun settled => (keeps.settled settled).imp_right fun acked =>
          ⟨thread, List.mem_of_getElem? current, acked⟩
    · rw [← there] at renews
      exact .inr ⟨index, input, thread, operation, next, acts, current, here, own, renews⟩
  · have there : after.stores replica.sender = before.stores replica.sender := by
      rw [changed, Function.update_of_ne (Ne.symm own)]
    refine .inl ⟨?_, ?_, ?_, ?_⟩ <;> rw [there]
    · exact fun _ fits => fits
    · exact fun _ carries => carries
    · intro same
      by_cases theirs : thread.node = replica.receiver
      · rw [changed, ← theirs, Function.update_self]
        apply upkeep.theirs index input thread operation next acts current here theirs _ same
        intro job request serves about
        exact faithful.serving thread (List.mem_of_getElem? current) job request serves about
          (by simp [Thread.finished, here, Program.finished])
      · rw [changed, Function.update_of_ne (Ne.symm theirs)]
        exact same
    · exact Or.inl

omit [DecidableEq Node] in
theorem unfinished {thread : Thread (sig Local Request Answer) Node Request Answer}
    {operation : (sig Local Request Answer).Op}
    {next : (sig Local Request Answer).Res operation → Program (sig Local Request Answer) Answer}
    (here : thread.program = .op operation next) : thread.finished = false := by
  simp [Thread.finished, here, Program.finished]

theorem faithful_renewed {index : Nat} {input : Input}
    {thread : Thread (sig Local Request Answer) Node Request Answer} {operation : Local.Op}
    {next : Local.Res operation → Program (sig Local Request Answer) Answer}
    (step : Step system (.act index input) before after)
    (current : before.threads[index]? = some thread)
    (here : thread.program = .op (.inl operation) next)
    (renews : replica.Renews before index
      ⟨.inl operation, (system.handle thread.node input operation (before.stores thread.node)).1⟩
      (after.stores replica.sender)) : replica.Faithful after := by
  have only : ∀ other ∈ after.threads, replica.Holds other →
      other = thread.resume (.inl operation) next
        (system.handle thread.node input operation (before.stores thread.node)).1 := by
    rintro other member ⟨node, inHand⟩
    obtain ⟨place, present⟩ := List.getElem?_of_mem member
    cases thread_step step present with
    | @still old there sameNode _ program _ rests =>
        have elsewhere : place ≠ index := by
          rintro rfl
          exact rests input rfl
        exact absurd ⟨sameNode.trans node, program ▸ inHand⟩
          (renews.quiet.alone place old elsewhere there)
    | acted _ acts there program resumed =>
        cases acts
        rw [current] at there
        cases there
        rw [here] at program
        cases program
        exact resumed
    | answered quiet => exact absurd rfl (quiet index input)
    | started _ _ starts => cases starts
    | served _ _ _ delivers => cases delivers
  obtain ⟨data, took, fits⟩ := renews.taken
  constructor
  · intro other member holds
    rw [only other member holds]
    exact ⟨data, Custody.held_taken thread.history took, fits⟩
  · intro job request flies about
    rcases flight_step step flies with old | ⟨_, _, _, posts, _⟩
    · exact absurd about (renews.quiet.landed job request old)
    · cases posts
  · intro other member job request serves about running
    obtain ⟨place, present⟩ := List.getElem?_of_mem member
    cases thread_step step present with
    | @still old there _ origin program _ _ =>
        have done := renews.quiet.served old (List.mem_of_getElem? there) job request
          (origin.trans serves) about
        have still : other.finished = old.finished := by rw [Thread.finished, ← program]; rfl
        exact absurd (still.symm.trans running) (by simp [done])
    | @acted old _ _ _ _ there program resumed =>
        subst resumed
        have done := renews.quiet.served old (List.mem_of_getElem? there) job request serves about
        exact absurd ((unfinished program).symm.trans done) (by simp)
    | answered quiet => exact absurd rfl (quiet index input)
    | started _ _ starts => cases starts
    | served _ _ _ delivers => cases delivers
  · intro other member holds job waits
    rw [only other member holds] at waits
    cases waits
  · intro other member holds job waits
    rw [only other member holds] at waits
    cases waits
  · rintro other member holds ⟨request, answer, earlier, history, _⟩
    rw [only other member holds] at history
    cases history
  · exact fun settled => absurd settled renews.unsettled

/-! What a step that preserves the item keeps, one lemma for each part of `Faithful`. -/

theorem inHand_preserved
    (careful : Careful system replica.custody replica.possible discipline)
    (step : Step system label before after)
    (complies : ∀ thread ∈ after.threads, thread.Complies discipline ensures)
    (faithful : replica.Faithful before) (preserved : replica.Preserved before after)
    (taken : ∀ index input thread operation next data, label = .act index input →
      before.threads[index]? = some thread → thread.program = .op (.inl operation) next →
      thread.node = replica.sender → replica.custody.takes replica.item ⟨.inl operation,
        (system.handle thread.node input operation (before.stores thread.node)).1⟩ = some data →
      replica.fits data (after.stores replica.sender))
    {thread : Thread (sig Local Request Answer) Node Request Answer}
    (member : thread ∈ after.threads) (holds : replica.Holds thread) :
    ∃ data, replica.custody.held replica.item thread.history = some data ∧
      replica.fits data (after.stores replica.sender) := by
  obtain ⟨node, inHand⟩ := holds
  obtain ⟨index, present⟩ := List.getElem?_of_mem member
  cases inHand_step careful (thread_step step present) (complies thread member) inHand with
  | kept current sameNode stillInHand same _ _ =>
      obtain ⟨data, held, fits⟩ := faithful.inHand _ (List.mem_of_getElem? current)
        ⟨sameNode.trans node, stillInHand⟩
      exact ⟨data, same.trans held, preserved.fits data fits⟩
  | @taken old operation next data input acts current here resumed took =>
      subst resumed
      exact ⟨data, Custody.held_taken old.history took,
        taken index input old operation next data acts current here node took⟩

theorem flight_preserved (step : Step system label before after)
    (upkeep : replica.Upkeep system before label) (faithful : replica.Faithful before)
    (preserved : replica.Preserved before after) {job : Nat} {request : Request}
    (flies : after.jobs[job]? = some ⟨request, .flight⟩) (about : replica.about request) :
    replica.carries request (after.stores replica.sender) := by
  rcases flight_step step flies with old | ⟨index, thread, next, posts, current, here⟩
  · exact preserved.carries request (faithful.flight job request old about)
  · obtain ⟨holds, loads⟩ := upkeep.posts index thread request next posts current here about
    obtain ⟨data, held, fits⟩ := faithful.inHand thread (List.mem_of_getElem? current) holds
    exact preserved.carries request (loads data held fits)

theorem serving_preserved (step : Step system label before after)
    (faithful : replica.Faithful before) (preserved : replica.Preserved before after)
    {thread : Thread (sig Local Request Answer) Node Request Answer}
    (member : thread ∈ after.threads) {job : Nat} {request : Request}
    (serves : thread.origin = some (job, request)) (about : replica.about request)
    (unfinishedNow : thread.finished = false) :
    replica.carries request (after.stores replica.sender) := by
  have running : ∀ old ∈ before.threads, old.origin = some (job, request) →
      old.finished = false → replica.carries request (after.stores replica.sender) :=
    fun old member serves running =>
      preserved.carries request (faithful.serving old member job request serves about running)
  obtain ⟨index, present⟩ := List.getElem?_of_mem member
  cases thread_step step present with
  | @still old current _ origin program _ _ =>
      refine running old (List.mem_of_getElem? current) (origin.trans serves) ?_
      rw [← unfinishedNow, Thread.finished, program]
      rfl
  | @acted old _ _ _ _ current here resumed =>
      subst resumed
      exact running old (List.mem_of_getElem? current) serves (unfinished here)
  | @answered old _ _ _ _ current here resumed =>
      subst resumed
      exact running old (List.mem_of_getElem? current) serves (unfinished here)
  | started _ _ _ fresh =>
      subst fresh
      cases serves
  | served _ _ _ _ flies _ fresh =>
      subst fresh
      cases serves
      exact preserved.carries request (faithful.flight job request flies about)

theorem unserved_post (step : Step system label before after) (linked : Linked before)
    {index : Nat} (posts : label = .post index) {job : Nat} (fresh : job = before.jobs.length)
    {place : Nat} {server : Thread (sig Local Request Answer) Node Request Answer}
    (there : after.threads[place]? = some server) {request : Request}
    (serves : server.origin = some (job, request)) : False := by
  obtain ⟨stage, present⟩ : ∃ stage, before.jobs[job]? = some ⟨request, stage⟩ := by
    cases thread_step step there with
    | still current _ origin _ _ _ =>
        exact linked.origin _ (List.mem_of_getElem? current) job request (origin.trans serves)
    | acted _ _ current _ resumed =>
        subst resumed
        exact linked.origin _ (List.mem_of_getElem? current) job request serves
    | answered _ current _ resumed =>
        subst resumed
        exact linked.origin _ (List.mem_of_getElem? current) job request serves
    | started _ _ _ fresh =>
        subst fresh
        cases serves
    | served _ _ _ delivers => cases posts.symm.trans delivers
  rw [fresh, List.getElem?_eq_none (Nat.le_refl _)] at present
  cases present

theorem applied_preserved (different : replica.receiver ≠ replica.sender)
    (step : Step system label before after) (linked : Linked before)
    (upkeep : replica.Upkeep system before label) (faithful : replica.Faithful before)
    (preserved : replica.Preserved before after)
    {thread server : Thread (sig Local Request Answer) Node Request Answer}
    (member : thread ∈ after.threads) (holds : replica.Holds thread) {job : Nat}
    (waits : thread.waiting = some job) (among : server ∈ after.threads) {request : Request}
    (serves : server.origin = some (job, request)) (about : replica.about request)
    (applied : replica.Applied request server.history) :
    replica.same (after.stores replica.sender) (after.stores replica.receiver) := by
  obtain ⟨operation, answer, past, applies⟩ := applied
  obtain ⟨index, present⟩ := List.getElem?_of_mem member
  obtain ⟨place, there⟩ := List.getElem?_of_mem among
  rcases waiting_step step present waits with earlier | ⟨posts, fresh⟩
  · rcases event_step step there past with ⟨old, current, _, origin, before⟩ |
      ⟨input, old, performed, next, rfl, current, _, origin, here, new⟩ | ⟨_, _, new⟩
    · exact preserved.same (faithful.applied thread (List.mem_of_getElem? earlier) holds job waits
        old (List.mem_of_getElem? current) request (origin.trans serves) about
        ⟨operation, answer, before, applies⟩)
    · -- The server has just put the request into its store.
      generalize result :
        (system.handle old.node input performed (before.stores old.node)).1 = given at new
      cases new
      have carried := faithful.serving old (List.mem_of_getElem? current) job request
        (origin.trans serves) about (unfinished here)
      obtain ⟨node, same⟩ := upkeep.puts place input old operation next rfl current here job
        request (origin.trans serves) about carried (result.symm ▸ applies)
      rw [stores_elsewhere step current (node ▸ different.symm), ← node,
        acted_store step current here]
      exact same
    · cases new
  · exact (unserved_post step linked posts fresh there serves).elim

theorem answered_preserved (step : Step system label before after) (linked : Linked before)
    (upkeep : replica.Upkeep system before label) (faithful : replica.Faithful before)
    (preserved : replica.Preserved before after)
    {thread : Thread (sig Local Request Answer) Node Request Answer}
    (member : thread ∈ after.threads) (holds : replica.Holds thread) {job : Nat}
    (waits : thread.waiting = some job) {request : Request} {answer : Answer}
    (answered : after.jobs[job]? = some ⟨request, .answered answer⟩)
    (about : replica.about request) (accepts : replica.accepts answer) :
    replica.same (after.stores replica.sender) (after.stores replica.receiver) := by
  obtain ⟨index, present⟩ := List.getElem?_of_mem member
  rcases waiting_step step present waits with earlier | ⟨_, fresh⟩
  · rcases answered_step step answered with old | ⟨server, among, sent, serves, done, served⟩ | out
    · exact preserved.same (faithful.answered thread (List.mem_of_getElem? earlier) holds job waits
        request answer old about accepts)
    · obtain ⟨stage, own⟩ := linked.origin server among job sent serves
      cases served.symm.trans own
      exact preserved.same (faithful.applied thread (List.mem_of_getElem? earlier) holds job waits
        server among request serves about
        (upkeep.replies server among job request answer serves done about accepts))
    · cases (upkeep.closed request).symm.trans out
  · -- A job that is just being posted has no answer yet.
    have absent : before.jobs[job]? = none := fresh ▸ List.getElem?_eq_none (Nat.le_refl _)
    rcases answered_step step answered with old | ⟨_, _, _, _, _, served⟩ | out
    · cases absent.symm.trans old
    · cases absent.symm.trans served
    · cases (upkeep.closed request).symm.trans out

theorem acknowledged_preserved
    (careful : Careful system replica.custody replica.possible discipline)
    (step : Step system label before after) (linked : Linked before)
    (complies : ∀ thread ∈ after.threads, thread.Complies discipline ensures)
    (faithful : replica.Faithful before) (preserved : replica.Preserved before after)
    {thread : Thread (sig Local Request Answer) Node Request Answer}
    (member : thread ∈ after.threads) (holds : replica.Holds thread)
    (acknowledged : replica.Acknowledged thread) :
    replica.same (after.stores replica.sender) (after.stores replica.receiver) := by
  obtain ⟨node, inHand⟩ := holds
  obtain ⟨request, answer, earlier, history, about, accepts⟩ := acknowledged
  obtain ⟨index, present⟩ := List.getElem?_of_mem member
  cases inHand_step careful (thread_step step present) (complies thread member) inHand with
  | @kept old current sameNode stillInHand _ _ _ =>
      have holds : replica.Holds old := ⟨sameNode.trans node, stillInHand⟩
      have among := List.mem_of_getElem? current
      rcases received_step step present history with ⟨other, there, same⟩ |
        ⟨other, next, job, sent, there, here, waits, answered⟩
      · cases current.symm.trans there
        exact preserved.same (faithful.acknowledged old among holds
          ⟨request, answer, earlier, same.trans history, about, accepts⟩)
      · cases current.symm.trans there
        cases received_own linked among here waits answered
        exact preserved.same
          (faithful.answered old among holds job waits _ answer answered about accepts)
  | taken input acts current here resumed took =>
      subst resumed
      cases history

/-- Under a step that preserves the item, copies and acknowledgements stay true. -/
theorem faithful_preserved
    (careful : Careful system replica.custody replica.possible discipline)
    (different : replica.receiver ≠ replica.sender) (step : Step system label before after)
    (linked : Linked before) (complies : ∀ thread ∈ after.threads, thread.Complies discipline ensures)
    (upkeep : replica.Upkeep system before label) (faithful : replica.Faithful before)
    (preserved : replica.Preserved before after)
    (taken : ∀ index input thread operation next data, label = .act index input →
      before.threads[index]? = some thread → thread.program = .op (.inl operation) next →
      thread.node = replica.sender → replica.custody.takes replica.item ⟨.inl operation,
        (system.handle thread.node input operation (before.stores thread.node)).1⟩ = some data →
      replica.fits data (after.stores replica.sender)) : replica.Faithful after where
  inHand _ member holds := inHand_preserved careful step complies faithful preserved taken member holds
  flight _ _ flies about := flight_preserved step upkeep faithful preserved flies about
  serving _ member _ _ serves about running :=
    serving_preserved step faithful preserved member serves about running
  applied _ member holds _ waits _ among _ serves about applied :=
    applied_preserved different step linked upkeep faithful preserved member holds waits among
      serves about applied
  answered _ member holds _ waits _ _ answered about accepts :=
    answered_preserved step linked upkeep faithful preserved member holds waits answered about
      accepts
  acknowledged _ member holds acknowledged :=
    acknowledged_preserved careful step linked complies faithful preserved member holds
      acknowledged
  settled settled := by
    rcases preserved.settled settled with before | ⟨thread, member, holds, acked⟩
    · exact preserved.same (faithful.settled before)
    · exact preserved.same (faithful.acknowledged thread member holds acked)

theorem faithful_step (careful : Careful system replica.custody replica.possible discipline)
    (different : replica.receiver ≠ replica.sender) (step : Step system label before after)
    (linked : Linked before) (complies : ∀ thread ∈ after.threads, thread.Complies discipline ensures)
    (upkeep : replica.Upkeep system before label) (faithful : replica.Faithful before) :
    replica.Faithful after := by
  rcases preserved_or_renewed different step upkeep faithful with
    preserved | ⟨index, input, thread, operation, next, rfl, current, here, _, renews⟩
  · apply faithful_preserved careful different step linked complies upkeep faithful preserved
    intro index input thread operation next data acts current here own took
    subst acts
    have left := acted_store step current here
    rw [← own, left]
    rcases upkeep.own index input thread operation next rfl current here own with keeps | renews
    · exact keeps.taken data took
    · obtain ⟨other, tookOther, fits⟩ := renews.taken
      cases took.symm.trans tookOther
      exact fits
  · exact faithful_renewed step current here renews

end Step
end Replica
end Library.Rpc
