import NoMiddle.PassEffect
import NoMiddle.Recall
import NoMiddle.Effects

/-! When something is given up. Only the worker passes the verdict, right after an attempt that
failed, about an item it found pending in the same pass and that was more than a day old by the
clock it read; and a pass that has ended left no item it found undecided. -/
namespace NoMiddle.Patience
open Library Text Crypto DbManager Node MessageDelivery RetryWorker Network Conduct Effects
open Footprint
open PassEffect (Kind)
open TaskConduct (World Action)

/-- The latest event is an attempt for the row, which failed. -/
def Failing (kind : Kind) (row : Message) : Trace → Prop
  | ⟨.inl (.call (.getContactAddress contactId)), address⟩ :: _ =>
      contactId = row.recipientId ∧ address = ([] : Str)
  | ⟨.inr request, answer⟩ :: _ => request.endpoint = kind.endpoint ∧
      request.body.s? "message_id" = some row.messageId ∧
      delivered (answer.map (·.code)) = false
  | _ => False

def GivenUp (kind : Kind) (messageId : Str) (history : Trace) : Prop :=
  ∃ row now, Listed history kind.query row ∧ row.messageId = messageId ∧
    (⟨.inl .time, now⟩ : Event nodeSig) ∈ history ∧ kind.late now row ∧ Failing kind row history

def patient (background : Bool) : Discipline nodeSig where
  possible := Possible
  allowed history
    | .inl (.call (.updateMessages messageId _ mark)) => ∀ kind : Kind, mark = kind.failed →
        background = true ∧ GivenUp kind messageId history
    | _ => True

/-- What has become of a listed row: it was delivered and marked so, or an attempt failed and
it was given up or is not old enough. -/
inductive Disposed (kind : Kind) (row : Message) (history : Trace) : Prop
  | delivered {request : Request} {response : Response} {done : Bool}
      (posted : (⟨.inr request, some response⟩ : Event nodeSig) ∈ history)
      (endpoint : request.endpoint = kind.endpoint)
      (named : request.body.s? "message_id" = some row.messageId) (ok : response.code = 200)
      (marked : (⟨.inl (.call (.updateMessages row.messageId (some row.recipientId) kind.done)),
        done⟩ : Event nodeSig) ∈ history)
  | givenUp {earlier : Trace} {done : Bool} (before : earlier <:+ history)
      (failing : Failing kind row earlier)
      (marked : (⟨.inl (.call (.updateMessages row.messageId none kind.failed)), done⟩ :
        Event nodeSig) ∈ history)
  | kept {earlier : Trace} {now : Int} (before : earlier <:+ history)
      (failing : Failing kind row earlier) (clock : (⟨.inl .time, now⟩ : Event nodeSig) ∈ history)
      (early : ¬kind.late now row)

/-- Anything but reading a list of messages. -/
def unlisted : nodeSig.Op → Bool
  | .inl (.call (.getMessages _)) => false
  | _ => true

section Turns
variable {kind : Kind} {row : Message} {now : Int} {history after : Trace}

theorem Disposed.grown {permits : nodeSig.Op → Bool} (disposed : Disposed kind row history)
    (grown : Grown permits history after) : Disposed kind row after := by
  have suffix : history <:+ after := by
    obtain ⟨newer, rfl, _⟩ := grown
    exact List.suffix_append newer history
  cases disposed with
  | delivered posted endpoint named ok marked =>
      exact .delivered (grown.mem posted) endpoint named ok (grown.mem marked)
  | givenUp before failing marked =>
      exact .givenUp (before.trans suffix) failing (grown.mem marked)
  | kept before failing clock early =>
      exact .kept (before.trans suffix) failing (grown.mem clock) early

theorem failed_ne_done (kind other : Kind) : kind.done ≠ other.failed := by
  cases kind <;> cases other <;> decide

theorem failed_injective {kind other : Kind} (same : kind.failed = other.failed) :
    kind = other := by
  revert same
  cases kind <;> cases other <;> decide

/-- An attempt for a listed row, and what is marked after it. -/
theorem wp_attempt (kind : Kind) {body : Json} {late : Prop} [Decidable late]
    (named : body.s? "message_id" = some row.messageId) (old : late ↔ kind.late now row)
    (listed : Listed history kind.query row)
    (clock : (⟨.inl .time, now⟩ : Event nodeSig) ∈ history) :
    (do if !(← (do
          let serverAddress ← call (.getContactAddress row.recipientId)
          if serverAddress.isEmpty then return false
          let result ← sendMessage (cutServerAddress serverAddress) kind.endpoint body
          if delivered result then
            (do let _ ← call (.updateMessages row.messageId (some row.recipientId) kind.done))
          return delivered result)) then
          if late then
            (do let _ ← call (.updateMessages row.messageId none kind.failed)) :
          Proc Unit).wp (patient true).contract (fun _ => Disposed kind row) history := by
  obtain ⟨rows, read, member⟩ := listed
  have gives : ∀ earlier, Failing kind row earlier → (∀ event ∈ history, event ∈ earlier) →
      (if late then (do let _ ← call (.updateMessages row.messageId none kind.failed))
        else return () : Proc Unit).wp (patient true).contract
          (fun _ => Disposed kind row) earlier := by
    intro earlier failing past
    split
    · next tooLate =>
      refine ⟨fun other same => ⟨rfl, row, now, ⟨rows, ?_, ?_⟩, rfl, past _ clock, ?_, ?_⟩,
        fun done _ => .givenUp (List.suffix_cons _ _) failing List.mem_cons_self⟩
      all_goals cases failed_injective same
      · exact past _ read
      · exact member
      · exact old.mp tooLate
      · exact failing
    · next early =>
      exact .kept (List.suffix_refl _) failing (past _ clock) fun tooLate => early (old.mpr tooLate)
  rw [Program.wp_bind]
  refine wp_perform trivial fun (address : Str) _ => ?_
  split
  · next empty =>
    refine gives _ ⟨rfl, List.isEmpty_iff.mp empty⟩ fun event old => List.mem_cons_of_mem _ old
  · refine wp_send trivial fun answer => ?_
    dsimp only
    by_cases ok : delivered (answer.map (·.code)) = true
    · obtain ⟨response, rfl, code⟩ := (delivered_iff answer).mp ok
      rw [if_pos ok, ok]
      refine wp_mark (fun other same => absurd same (failed_ne_done kind other)) fun done _ => ?_
      exact .delivered (List.mem_cons_of_mem _ List.mem_cons_self) rfl named code
        List.mem_cons_self
    · rw [if_neg ok, Bool.eq_false_of_not_eq_true ok]
      exact gives _ ⟨rfl, named, Bool.eq_false_of_not_eq_true ok⟩ fun event old =>
        List.mem_cons_of_mem _ (List.mem_cons_of_mem _ old)

theorem wp_turn (kind : Kind) (listed : Listed history kind.query row)
    (clock : (⟨.inl .time, now⟩ : Event nodeSig) ∈ history) :
    (kind.turn now row).wp (patient true).contract (fun _ => Disposed kind row) history := by
  cases kind with
  | message => exact wp_attempt .message rfl Iff.rfl listed clock
  | edit => exact wp_attempt .edit rfl Iff.rfl listed clock
  | delete => exact wp_attempt .delete rfl Iff.rfl listed clock

theorem turn_unlisted (kind : Kind) (now : Int) (row : Message) :
    (kind.turn now row).Only unlisted := by
  cases kind <;>
    exact late_only (toContact_only rfl (fun _ => rfl) ⟨rfl, fun _ => trivial⟩)
      ⟨rfl, fun _ => trivial⟩

/-- One loop of the pass. -/
theorem wp_turns (kind : Kind) {rows : List Message}
    (listed : ∀ row ∈ rows, Listed history kind.query row)
    (clock : (⟨.inl .time, now⟩ : Event nodeSig) ∈ history) :
    (rows.forM (kind.turn now ·)).wp (patient true).contract
      (fun _ after => (∀ row ∈ rows, Disposed kind row after) ∧ Grown unlisted history after)
      history := by
  have monotone := (patient true).contract_monotone
  refine Program.wp_mono monotone _ (fun _ after swept => ⟨fun row member =>
    (swept.2.1 row member).resolve_left List.not_mem_nil, swept.2.2⟩) history
    (Program.wp_forM monotone (kind.turn now ·) (fun rest after => rest ⊆ rows ∧
      (∀ row ∈ rows, row ∈ rest ∨ Disposed kind row after) ∧ Grown unlisted history after) ?_ rows
      history ⟨List.Subset.refl rows, fun row member => .inl member, .refl history⟩)
  rintro row rest after ⟨among, disposed, grown⟩
  obtain ⟨here, among⟩ := List.cons_subset.mp among
  obtain ⟨listing, read, member⟩ := listed row here
  refine Program.wp_mono monotone _ ?_ after (Program.wp_grown _ (turn_unlisted kind now row)
    (.refl after) (wp_turn kind ⟨listing, grown.mem read, member⟩ (grown.mem clock)))
  rintro _ later ⟨turned, since⟩
  refine ⟨among, fun other inside => ?_, grown.trans since⟩
  rcases disposed other inside with waiting | before
  · rcases List.mem_cons.mp waiting with rfl | remains
    · exact .inr turned
    · exact .inl remains
  · exact .inr (before.grown since)

/-- Everything the history lists as pending has been disposed of. -/
def Emptied (history : Trace) : Prop :=
  ∀ (kind : Kind) (rows : List Message),
    (⟨.inl (.call (.getMessages kind.query)), rows⟩ : Event nodeSig) ∈ history →
    ∀ row ∈ rows, Disposed kind row history

theorem calm {operation : nodeSig.Op} (spared : Resource.verdicts ∉ touches operation)
    (background : Bool) (history : Trace) : (patient background).allowed history operation := by
  cases operation using operation_cases with
  | call db =>
      cases db with
      | updateMessages messageId only mark =>
          rintro kind rfl
          exact absurd (by cases kind <;> exact List.mem_cons_of_mem _ List.mem_cons_self) spared
      | _ => trivial
  | _ => trivial

theorem retryPass_patient :
    retryPass.wp (patient true).contract (fun _ => Emptied) [] := by
  have monotone := (patient true).contract_monotone
  refine wp_perform trivial fun (messages : List Message) _ => ?_
  refine wp_perform trivial fun (edits : List Message) _ => ?_
  refine wp_perform trivial fun (updates : List GroupUpdate) _ => ?_
  generalize start : (⟨.inl (.call .getPendingGroupUpdates), updates⟩ ::
    ⟨.inl (.call (.getMessages .pendingEdits)), edits⟩ ::
    ⟨.inl (.call (.getMessages .pendingMessages)), messages⟩ :: [] : Trace) = begun
  have push : (updates.forM retryPendingGroupUpdate).Only
      (fun operation => unlisted operation && within [.groupUpdates, .peers] operation) := by
    refine Program.only_forM (fun u => ?_) updates
    exact Program.only_bind (toContact_only rfl (fun _ => rfl) ⟨rfl, fun _ => trivial⟩)
      fun _ => trivial
  refine Program.wp_seq monotone _ _ _ (Program.wp_grown _ push (.refl begun)
    (Program.wp_of_only (fun past operation inside => calm (spared_of_within
      (Bool.and_eq_true_iff.mp inside).2 (by decide)) true past) _ push begun))
    fun _ after pushed => ?_
  refine wp_perform trivial fun (deletes : List Message) _ => ?_
  refine wp_perform trivial fun (currentTime : Int) _ => ?_
  replace pushed := pushed.2.mono fun _ inside => (Bool.and_eq_true_iff.mp inside).1
  generalize ready : (⟨.inl .time, currentTime⟩ ::
    ⟨.inl (.call (.getMessages .pendingDeletes)), deletes⟩ :: after : Trace) = current
  have clock : (⟨.inl .time, currentTime⟩ : Event nodeSig) ∈ current := by simp [← ready]
  have known : ∀ event ∈ begun, event ∈ current := fun event member => by
    rw [← ready]
    exact List.mem_cons_of_mem _ (List.mem_cons_of_mem _ (pushed.mem member))
  refine Program.wp_seq monotone _ _ _ (wp_turns .message (fun row member =>
    ⟨messages, known _ (by simp [← start, Kind.query]), member⟩) clock) fun _ first swept => ?_
  obtain ⟨first_done, first_grown⟩ := swept
  refine Program.wp_seq monotone _ _ _ (wp_turns .edit (fun row member =>
    ⟨edits, first_grown.mem (known _ (by simp [← start, Kind.query])), member⟩)
    (first_grown.mem clock)) fun _ second swept => ?_
  obtain ⟨second_done, second_grown⟩ := swept
  refine Program.wp_mono monotone _ ?_ second (wp_turns .delete (fun row member =>
    ⟨deletes, second_grown.mem (first_grown.mem (by simp [← ready, Kind.query])), member⟩)
    (second_grown.mem (first_grown.mem clock)))
  rintro _ last ⟨last_done, last_grown⟩ kind rows read row member
  -- What is listed was listed before the turns began.
  have early := ((first_grown.trans second_grown).trans last_grown).mem_before read rfl
  rw [← ready] at early
  rcases List.mem_cons.mp early with same | early
  · cases kind <;> cases same
  rcases List.mem_cons.mp early with same | early
  · cases kind <;> cases same
    exact last_done row member
  replace early := pushed.mem_before early rfl
  rw [← start] at early
  rcases List.mem_cons.mp early with same | early
  · cases kind <;> cases same
  rcases List.mem_cons.mp early with same | early
  · cases kind <;> cases same
    exact (second_done row member).grown last_grown
  · have same := List.mem_singleton.mp early
    cases kind <;> cases same
    exact ((first_done row member).grown second_grown).grown last_grown

end Turns

section Runs
variable {Host : Type} (network : Deployment Host)

theorem patient_guaranteed : Rpc.Guaranteed network.system
    (fun _ _ background => patient background)
    (fun _ _ background _ history => background = true → Emptied history) (fun _ _ => True)
    (fun _ => True) (fun _ _ => True) (fun _ _ => True) where
  possible _ _ _ input operation store _ := possible_handle input operation store
  answers _ _ _ _ _ := trivial
  keeps _ _ _ _ _ _ _ _ _ := trivial
  posts _ _ _ _ _ _ := trivial
  program host task _ := by
    by_cases passes : task = .retryPass
    · subst passes
      exact Program.wp_seq (patient true).contract_monotone retryPass _ [] retryPass_patient
        fun _ _ emptied _ => emptied
    · have spared : Resource.verdicts ∉ uses task := by
        cases task with
        | retryPass => exact absurd rfl passes
        | incoming endpoint body => cases endpoint <;> simp [uses, Effects.served]
        | _ => simp [uses]
      have idle : network.system.background task = false := by
        cases task <;> first | rfl | exact absurd rfl passes
      rw [idle]
      refine Program.wp_mono (patient false).contract_monotone _ (fun _ _ _ busy => ?_) []
        (Program.wp_of_only (fun history operation inside => calm (spared_of_within inside spared)
          false history) _ (program_within network host task) [])
      cases busy
  serve host request _ _ _ := by
    have spared : Resource.verdicts ∉ served request.endpoint := by
      cases request.endpoint <;> decide
    refine Program.wp_mono (patient false).contract_monotone _ (fun _ _ _ busy => ?_) []
      (Program.wp_of_only (fun history operation inside => calm (spared_of_within inside spared)
        false history) _ (serve_within network host request) [])
    cases busy

variable [DecidableEq Host] {network} {stores : Host → Store} {world : World Host}

/-- Only the worker gives an item up, right after a failed attempt for it and a day after its
time, and a pass that has finished left nothing it found undecided. -/
theorem patient_run {condition : World Host → Action Host → Prop}
    (run : Rpc.Reachable network.system condition ⟨stores, [], []⟩ world)
    {thread : TaskConduct.Thread Host} (member : thread ∈ world.threads) :
    (∀ later messageId only (kind : Kind) done earlier, thread.history =
      later ++ ⟨.inl (.call (.updateMessages messageId only kind.failed)), done⟩ :: earlier →
      thread.background = true ∧ GivenUp kind messageId earlier) ∧
    (thread.finished = true → thread.background = true → Emptied thread.history) := by
  have inOrder := Rpc.inOrder_run (patient_guaranteed network)
    (fun _ _ _ => ⟨fun _ _ _ => trivial, fun _ _ _ _ _ => trivial⟩) (fun _ => trivial) run
  constructor
  · intro later messageId only kind done earlier split
    have followed := inOrder.followed thread member
    rw [split] at followed
    exact followed.past.1 kind rfl
  · intro finished busy
    cases ended : thread.program with
    | op operation next => simp [Rpc.Thread.finished, ended, Program.finished] at finished
    | ret answer => exact inOrder.finished member ended busy

/-! The age of an item is a difference of 64 bits. Within these bounds it does not wrap. -/

def Dated (time : Int) : Prop := 0 ≤ time ∧ time ≤ 2 ^ 62

structure Aged (row : Message) : Prop where
  timestamp : Dated row.timestamp
  editedAt : Dated row.editedAt
  deletedAt : Dated row.deletedAt

/-- Every clock that is read and every time that is stored is within the bounds. -/
structure Timely (state : World Host) (label : Action Host) : Prop where
  clock : ∀ index input, label = .act index input → Dated input.now
  stored : ∀ host, ∀ row ∈ (state.stores host).messages.rows, Aged row

/-- The test of the worker as it is computed. -/
def lateInBits (now : Int) (row : Message) : Kind → Prop
  | .message => (now - row.timestamp).bmod (2 ^ 64) > dayLimit
  | .edit => row.editedAt ≠ 0 ∧ (now - row.editedAt).bmod (2 ^ 64) > dayLimit
  | .delete => row.deletedAt ≠ 0 ∧ (now - row.deletedAt).bmod (2 ^ 64) > dayLimit

theorem sub_unwrapped {now time : Int} (clock : Dated now) (dated : Dated time) :
    (now - time).bmod (2 ^ 64) = now - time := by
  obtain ⟨_, _⟩ := clock
  obtain ⟨_, _⟩ := dated
  exact Int.bmod_eq_of_le (by omega) (by omega)

theorem lateInBits_iff {now : Int} {row : Message} (clock : Dated now) (aged : Aged row)
    (kind : Kind) : lateInBits now row kind ↔ kind.late now row := by
  cases kind with
  | message => rw [lateInBits, sub_unwrapped clock aged.timestamp, Kind.late]
  | edit => rw [lateInBits, sub_unwrapped clock aged.editedAt, Kind.late]
  | delete => rw [lateInBits, sub_unwrapped clock aged.deletedAt, Kind.late]

def Bounded (event : Event nodeSig) : Prop :=
  match event with
  | ⟨.inl .time, now⟩ => Dated now
  | ⟨.inl (.call (.getMessages _)), rows⟩ => ∀ row ∈ (rows : List Message), Aged row
  | _ => True

theorem bounded_handle {input : Input} (operation : LocalOp) {store : Store}
    (clock : Dated input.now) (stored : ∀ row ∈ store.messages.rows, Aged row) :
    Bounded ⟨.inl operation, (handle input operation store).1⟩ := by
  cases operation with
  | call call =>
      cases call with
      | getMessages query =>
          intro row listed
          obtain ⟨found, _⟩ := (DbViews.mem_rows query store.messages row).mp listed
          exact stored row ((store.messages.find_eq_some _ row).mp found).1
      | _ => trivial
  | time => exact clock
  | _ => trivial

theorem bounded_run (run : Rpc.Reachable network.system Timely ⟨stores, [], []⟩ world) :
    ∀ thread ∈ world.threads, ∀ event ∈ thread.history, Bounded event := by
  refine run.invariant (fun state => ∀ thread ∈ state.threads, ∀ event ∈ thread.history,
    Bounded event) (fun _ none => absurd none List.not_mem_nil) ?_
  intro before label after sofar timely step thread member event past
  obtain ⟨index, present⟩ := List.getElem?_of_mem member
  rcases Rpc.event_step step present past with ⟨old, current, _, _, earlier⟩ |
    ⟨input, old, operation, next, acts, current, _, _, _, rfl⟩ | ⟨request, answer, rfl⟩
  · exact sofar old (List.mem_of_getElem? current) event earlier
  · exact bounded_handle operation (timely.clock index input acts) (timely.stored old.node)
  · trivial

/-- In every run whose clocks and times are within the bounds, only the worker gives an item up,
right after a failed attempt for it and a day after its time, and a pass that has finished left
nothing it found undecided. The age is what 64 bits say it is. -/
theorem given_up_late (run : Rpc.Reachable network.system Timely ⟨stores, [], []⟩ world)
    {thread : TaskConduct.Thread Host} (member : thread ∈ world.threads) :
    (∀ later messageId only (kind : Kind) done earlier, thread.history =
      later ++ ⟨.inl (.call (.updateMessages messageId only kind.failed)), done⟩ :: earlier →
      thread.background = true ∧ GivenUp kind messageId earlier) ∧
    (thread.finished = true → thread.background = true → Emptied thread.history) ∧
    ∀ (kind : Kind) row now, Listed thread.history kind.query row →
      (⟨.inl .time, now⟩ : Event nodeSig) ∈ thread.history →
      (lateInBits now row kind ↔ kind.late now row) := by
  obtain ⟨verdicts, emptied⟩ := patient_run run member
  refine ⟨verdicts, emptied, ?_⟩
  rintro kind row now ⟨rows, read, among⟩ clock
  have bounded := bounded_run run thread member
  exact lateInBits_iff (bounded _ clock) (bounded _ read row among) kind

/-! The rows themselves. -/

/-- Some thread of the node has marked the message failed. -/
def Condemned (world : World Host) (host : Host) (id : Str) : Prop :=
  ∃ thread ∈ world.threads, thread.node = host ∧ ∃ messageId only done,
    (⟨.inl (.call (.updateMessages messageId only .failed)), done⟩ : Event nodeSig) ∈
      thread.history ∧ cstr messageId = id

variable {before after : World Host} {label : Action Host}

theorem condemned_step (step : Rpc.Step network.system label before after) {host : Host}
    {id : Str} (condemned : Condemned before host id) : Condemned after host id := by
  obtain ⟨thread, member, node, messageId, only, done, marked, same⟩ := condemned
  obtain ⟨index, present⟩ := List.getElem?_of_mem member
  obtain ⟨later, there, sameNode, _, past⟩ := Rpc.thread_kept step present
  exact ⟨later, List.mem_of_getElem? there, sameNode.trans node, messageId, only, done,
    past _ marked, same⟩

/-- Every direct message that counts as failed was marked so. -/
def Accounted (world : World Host) : Prop :=
  ∀ host id row, (world.stores host).messages.find id = some row → row.groupId = [] →
    row.accepted = 2 → Condemned world host id

theorem accounted_step (step : Rpc.Step network.system label before after)
    (orderly : TaskConduct.Orderly network before) (accounted : Accounted before) :
    Accounted after := by
  intro host id row found direct failed
  rcases TaskConduct.message_step step host id with same |
    ⟨index, input, thread, call, next, acts, current, node, here, changed⟩
  · exact condemned_step step (accounted host id row (same ▸ found) direct failed)
  · rw [changed] at found
    have allowed := Rpc.complies_allowed (orderly.complies thread (List.mem_of_getElem? current))
      here
    rcases DbViews.onMessage_cases found with old | ⟨msg, rfl, _, _, rfl⟩ |
      ⟨earlier, messageId, only, mark, rfl, old, hit, rfl⟩
    · exact condemned_step step (accounted host id row old direct failed)
    · exfalso
      rcases TaskConduct.conduct_allowed network thread.node allowed with mine | ⟨_, theirs⟩
      · have none := mine.direct ((cstr_of_clean mine.groupId).symm.trans direct)
        rw [show msg.stored.accepted = msg.accepted from rfl, none] at failed
        cases failed
      · rw [show msg.stored.accepted = msg.accepted from rfl, theirs.2.accepted] at failed
        cases failed
    · have key : cstr messageId = id := by
        have named := (before.stores host).messages.find_key old
        have addressee := (Bool.and_eq_true_iff.mp hit).1
        exact (of_decide_eq_true addressee).symm.trans named
      by_cases verdict : mark = .failed
      · subst verdict acts
        have later := Rpc.acted_thread step current here
        exact ⟨_, List.mem_of_getElem? later, node, messageId, only, _, List.mem_cons_self, key⟩
      · have same : earlier.accepted = 2 ∧ earlier.groupId = [] := by
          cases mark with
          | failed => exact absurd rfl verdict
          | accepted | deleted => simp [Mark.set] at failed
          | _ => exact ⟨failed, direct⟩
        exact condemned_step step (accounted host id earlier old same.2 same.1)

/-- A direct message that counts as failed is a day old by the clock of a pass of the worker
that found it pending and then failed to deliver it. -/
theorem failed_overdue
    (run : Rpc.Reachable network.system (fun _ _ => True) ⟨stores, [], []⟩ world)
    (fresh : ∀ host, ∀ row ∈ (stores host).messages.rows, row.accepted ≠ 2) {host : Host}
    {row : Message} (member : row ∈ (world.stores host).messages.rows)
    (direct : row.groupId = []) (failed : row.accepted = 2) :
    ∃ thread ∈ world.threads, thread.node = host ∧ thread.background = true ∧
      ∃ listed now, Listed thread.history .pendingMessages listed ∧
        Recall.core listed = Recall.core row ∧
        (⟨.inl .time, now⟩ : Event nodeSig) ∈ thread.history ∧ now - row.timestamp > dayLimit ∧
        ∃ earlier, earlier <:+ thread.history ∧ Failing .message listed earlier := by
  have held := run.invariant (fun state => TaskConduct.Orderly network state ∧
    Recall.Recalled state ∧ Accounted state)
    ⟨TaskConduct.orderly_idle stores, Recall.recalled_idle stores, fun host id row found _ failed =>
      absurd failed (fresh host row (((stores host).messages.find_eq_some id row).mp found).1)⟩
    fun before label after held _ step => ⟨TaskConduct.orderly_step step held.1,
      Recall.recalled_step step held.2.1, accounted_step step held.1 held.2.2⟩
  have found := ((world.stores host).messages.find_eq_some row.messageId row).mpr ⟨member, rfl⟩
  obtain ⟨thread, inside, node, messageId, only, done, marked, key⟩ :=
    held.2.2 host row.messageId row found direct failed
  obtain ⟨later, earlier, split⟩ := List.append_of_mem marked
  obtain ⟨busy, listed, now, listing, same, clock, late, failing⟩ :=
    (patient_run run inside).1 later messageId only .message done earlier split
  have past : ∀ event ∈ earlier, event ∈ thread.history := fun event old =>
    split ▸ List.mem_append_right later (List.mem_cons_of_mem _ old)
  obtain ⟨rows, read, among⟩ := listing
  obtain ⟨stored, there, core⟩ := held.2.1 thread inside _ (past _ read) listed among
  have id : stored.messageId = messageId := (congrArg Recall.Core.messageId core).trans same
  have clean := (world.stores thread.node).messages.find_valid there stored.messageId
    (by simp [Message.texts])
  have whole : stored = row := by
    rw [id] at clean
    rw [node, show (Recall.core listed).messageId = row.messageId from
      same.trans ((cstr_of_clean clean).symm.trans key), found] at there
    exact (Option.some.inj there).symm
  subst whole
  have time : listed.timestamp = stored.timestamp :=
    (congrArg Recall.Core.timestamp core).symm
  exact ⟨thread, inside, node, busy, listed, now, ⟨rows, past _ read, among⟩, core.symm,
    past _ clock, time ▸ late, earlier, split ▸ (List.suffix_cons _ _).trans
      (List.suffix_append _ _), failing⟩

end Runs

section Execution

/-- A message is lost, and so is its only retry, a day later. -/
def abandoned : List (Action Bool) :=
  [.start true (.sendMessage (userRequest
      [("recipient_id", .str (pair.id false)), ("text", .str (str "hi"))]))] ++
  List.replicate 6 (.act 0 (clockAt 7)) ++ [.post 0, .giveUp 0, .start true .retryPass] ++
  List.replicate 6 (.act 1 (clockAt 90000)) ++ [.post 1, .giveUp 1, .act 1 (clockAt 90000)]

instance (time : Int) : Decidable (Dated time) := inferInstanceAs (Decidable (_ ∧ _))

/-- A check that implies the bounds. -/
def timely (state : World Bool) (label : Action Bool) : Bool :=
  (match label with
  | .act _ input => decide (Dated input.now)
  | _ => true) &&
    [true, false].all fun host => (state.stores host).messages.rows.all fun row =>
      decide (Dated row.timestamp) && decide (Dated row.editedAt) && decide (Dated row.deletedAt)

theorem timely_sound (state : World Bool) (label : Action Bool)
    (passes : timely state label = true) : Timely state label := by
  obtain ⟨clock, stored⟩ := (Bool.and_eq_true _ _).mp passes
  constructor
  · rintro index input rfl
    exact of_decide_eq_true clock
  · intro host row member
    have inside := List.all_eq_true.mp (List.all_eq_true.mp stored host (by cases host <;> simp))
      row member
    simp only [Bool.and_eq_true, decide_eq_true_eq] at inside
    exact ⟨inside.1.1, inside.1.2, inside.2⟩

def condemns (event : Event nodeSig) : Bool :=
  match event with
  | ⟨.inl (.call (.updateMessages _ _ .failed)), _⟩ => true
  | _ => false

theorem abandoned_decided : ∃ (world : World Bool) (thread : TaskConduct.Thread Bool),
    thread ∈ world.threads ∧ Emptied thread.history ∧
    ∃ messageId earlier, earlier <:+ thread.history ∧ GivenUp .message messageId earlier := by
  have ran : (Rpc.run pair.system timely abandoned ⟨acquainted, [], []⟩).bind
      (fun world => world.threads[1]?.map fun thread =>
        (thread.finished, thread.background, thread.history.any condemns)) =
      some (true, true, true) := by
    decide +kernel
  obtain ⟨world, scheduled, rest⟩ := Option.bind_eq_some_iff.mp ran
  obtain ⟨thread, found, facts⟩ := Option.map_eq_some_iff.mp rest
  simp only [Prod.mk.injEq] at facts
  obtain ⟨finished, busy, verdict⟩ := facts
  have member := List.mem_of_getElem? found
  obtain ⟨verdicts, emptied, _⟩ :=
    given_up_late (Rpc.run_reachable timely_sound abandoned scheduled) member
  obtain ⟨⟨operation, done⟩, marked, failing⟩ := List.any_eq_true.mp verdict
  refine ⟨world, thread, member, emptied finished busy, ?_⟩
  unfold condemns at failing
  split at failing
  · next messageId only done same =>
    obtain ⟨later, earlier, split⟩ := List.append_of_mem marked
    rw [same] at split
    obtain ⟨_, givenUp⟩ := verdicts later messageId only .message done earlier split
    refine ⟨messageId, earlier, ?_, givenUp⟩
    rw [split]
    exact (List.suffix_cons _ earlier).trans (List.suffix_append later _)
  · cases failing

/-- The message is then a day old. -/
theorem abandoned_overdue : ∃ (world : World Bool) (row : Message) (thread : TaskConduct.Thread Bool),
    row.accepted = 2 ∧ thread ∈ world.threads ∧ ∃ now,
      (⟨.inl .time, now⟩ : Event nodeSig) ∈ thread.history ∧ now - row.timestamp > dayLimit := by
  have ran : (Rpc.run pair.system (fun _ _ => true) abandoned ⟨acquainted, [], []⟩).bind
      (fun world => ((world.stores true).messages.find firstId).map fun row =>
        (row.groupId, row.accepted)) = some ([], 2) := by
    decide +kernel
  obtain ⟨world, scheduled, rest⟩ := Option.bind_eq_some_iff.mp ran
  obtain ⟨row, found, facts⟩ := Option.map_eq_some_iff.mp rest
  simp only [Prod.mk.injEq] at facts
  obtain ⟨thread, member, _, _, _, now, _, _, clock, late, _⟩ := failed_overdue
    (Rpc.run_reachable (fun _ _ _ => trivial) abandoned scheduled) (fun host row there => by
      cases host <;> cases there)
    (((world.stores true).messages.find_eq_some firstId row).mp found).1 facts.1 facts.2
  exact ⟨world, row, thread, facts.2, member, now, clock, late⟩

end Execution

end NoMiddle.Patience
