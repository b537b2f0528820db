import NoMiddle.Delivery

/-! The lists of messages a client is shown. Every message of a node is from it or to
it, so a direct message belongs to the conversation with one other party and a group
message to its group. -/
namespace NoMiddle.Conversations
open Library Text Crypto DbManager DbViews Node Network Conduct TaskConduct

inductive View where
  | between (otherId : Str)
  | forGroup (groupId : Str)

namespace View

def query (selfId : Str) : View → Query
  | between otherId => .between selfId otherId
  | forGroup groupId => .forGroup groupId

/-- SQLite reads an id up to its first NUL. -/
def named : View → View
  | between otherId => between (cstr otherId)
  | forGroup groupId => forGroup (cstr groupId)

def Proper : View → Prop
  | between _ => True
  | forGroup groupId => cstr groupId ≠ []

end View

/-- The view a message of this node belongs to. -/
def home (selfId : Str) (row : Message) : View :=
  if row.groupId = [] then .between (if row.senderId = selfId then row.recipientId else row.senderId)
  else .forGroup row.groupId

def Party (selfId : Str) (row : Message) : Prop :=
  row.senderId = selfId ∨ row.recipientId = selfId

/-- Every message that is not deleted is shown once, in its own view and in no other. -/
structure Partitioned (selfId : Str) (messages : Messages) : Prop where
  shown : ∀ row ∈ messages.rows, row.accepted ≠ messageDeleted →
    (home selfId row).Proper ∧
    (((home selfId row).query selfId).rows messages).count row = 1 ∧
    ∀ view : View, view.Proper →
      (row ∈ (view.query selfId).rows messages ↔ view.named = home selfId row)
  hidden : ∀ row ∈ messages.rows, row.accepted = messageDeleted →
    ∀ view : View, row ∉ (view.query selfId).rows messages
  sorted : ∀ view : View,
    ((view.query selfId).rows messages).Pairwise (·.timestamp ≤ ·.timestamp)

theorem query_sorted (selfId : Str) (view : View) (messages : Messages) :
    ((view.query selfId).rows messages).Pairwise (·.timestamp ≤ ·.timestamp) := by
  cases view with
  | between otherId => exact List.pairwise_insertionSort _ _
  | forGroup groupId => exact List.pairwise_insertionSort _ _

theorem count_one (query : Query) (messages : Messages) {row : Message}
    (member : row ∈ query.rows messages) : (query.rows messages).count row = 1 :=
  List.count_eq_one_of_mem (List.Nodup.of_map _ (rows_nodup query messages)) member

theorem selects_iff {selfId : Str} (clean : Clean selfId) {row : Message}
    (party : Party selfId row) (view : View) (proper : view.Proper) :
    (view.query selfId).selects row = true ↔
      row.accepted ≠ messageDeleted ∧ view.named = home selfId row := by
  have self := cstr_of_clean clean
  cases view with
  | forGroup groupId =>
      by_cases direct : row.groupId = []
      · have other : [] ≠ cstr groupId := Ne.symm proper
        simp [View.query, View.named, Query.selects, home, direct, other]
      · simp [View.query, View.named, Query.selects, home, direct, messageDeleted, and_comm,
          eq_comm (a := cstr groupId)]
  | between otherId =>
      by_cases direct : row.groupId = []
      · -- The query's two directions are one test on the other party.
        have other : (row.senderId = selfId ∧ row.recipientId = cstr otherId ∨
            row.senderId = cstr otherId ∧ row.recipientId = selfId) ↔
            cstr otherId = if row.senderId = selfId then row.recipientId else row.senderId := by
          by_cases mine : row.senderId = selfId
          · rw [if_pos mine]
            constructor
            · rintro (⟨_, same⟩ | ⟨same, own⟩)
              · exact same.symm
              · exact same.symm.trans (mine.trans own.symm)
            · exact fun same => .inl ⟨mine, same.symm⟩
          · have own : row.recipientId = selfId := party.resolve_left mine
            simp [mine, own, eq_comm]
        simp only [View.query, View.named, Query.selects, home, direct, messageDeleted, self,
          Bool.and_eq_true, Bool.or_eq_true, decide_eq_true_eq, other, if_true, View.between.injEq,
          and_true, ne_eq, decide_true, decide_not, Bool.not_eq_true', decide_eq_false_iff_not]
        exact and_comm
      · simp [View.query, View.named, Query.selects, home, direct]

theorem partitioned_of_party {selfId : Str} (clean : Clean selfId) {messages : Messages}
    (party : ∀ row ∈ messages.rows, Party selfId row) : Partitioned selfId messages where
  shown row member live := by
    have found := (messages.mem_rows_iff row).mp member
    have texts : AllClean row.texts := messages.find_valid found
    simp only [AllClean, Message.texts, List.forall_mem_cons] at texts
    have proper : (home selfId row).Proper := by
      unfold home
      split
      · trivial
      · next group =>
        change cstr row.groupId ≠ []
        rwa [cstr_of_clean texts.2.2.2.1]
    have named : (home selfId row).named = home selfId row := by
      unfold home
      split
      · split <;> simp [View.named, cstr_of_clean, texts]
      · simp [View.named, cstr_of_clean, texts]
    -- A view shows the row exactly if it is the row's home.
    have everywhere : ∀ view : View, view.Proper →
        (row ∈ (view.query selfId).rows messages ↔ view.named = home selfId row) := by
      intro view proper
      rw [mem_rows, selects_iff clean (party row member) view proper]
      exact ⟨fun shown => shown.2.2, fun same => ⟨found, live, same⟩⟩
    exact ⟨proper, count_one _ messages ((everywhere _ proper).mpr named), everywhere⟩
  hidden row member deleted view shown := by
    obtain ⟨_, selected⟩ := (mem_rows _ messages row).mp shown
    cases view with
    | between otherId => simp [View.query, Query.selects, deleted, messageDeleted] at selected
    | forGroup groupId => simp [View.query, Query.selects, deleted, messageDeleted] at selected
  sorted view := query_sorted selfId view messages

variable {Host : Type} [DecidableEq Host] {network : Deployment Host} {before after : World Host}
  {label : Action Host}

def AllParty (network : Deployment Host) (state : World Host) : Prop :=
  ∀ host id row, (state.stores host).messages.find id = some row → Party (network.id host) row

theorem allParty_step (step : Rpc.Step network.system label before after)
    (orderly : Orderly network before) (all : AllParty network before) :
    AllParty network after := by
  intro host id row found
  rcases message_step step host id with
    same | ⟨index, input, thread, call, next, _, current, rfl, here, changed⟩
  · exact all host id row (same ▸ found)
  rcases onMessage_cases (changed.symm.trans found) with
    kept | ⟨msg, rfl, _, _, rfl⟩ | ⟨old, messageId, recipientId, mark, rfl, there, _, rfl⟩
  · exact all thread.node id row kept
  · have allowed := Rpc.complies_allowed (orderly.complies thread (List.mem_of_getElem? current))
      here
    have clean := cstr_of_clean (publicKeyB64_clean (network.keys thread.node))
    rcases conduct_allowed network thread.node allowed with composed | ⟨request, _, received⟩
    · exact .inl ((congrArg cstr composed.senderId).trans clean)
    · exact .inr ((congrArg cstr received.own).trans clean)
  · have party := all thread.node id old there
    cases mark <;> exact party

/-- In every state of every run, whatever the nodes are asked and in whatever order their
threads go on, the views partition the messages that are not deleted. -/
theorem views_partition (network : Deployment Host) (stores : Host → Store)
    (empty : ∀ host id, (stores host).messages.find id = none) {state : World Host}
    (run : Rpc.Reachable network.system (fun _ _ => True) ⟨stores, [], []⟩ state) (host : Host) :
    Partitioned (network.id host) (state.stores host).messages := by
  have kept : Orderly network state ∧ AllParty network state := by
    refine run.invariant (fun state => Orderly network state ∧ AllParty network state)
      ⟨orderly_idle stores, fun host id row found => ?_⟩ fun before label after holds _ step =>
        ⟨orderly_step step holds.1, allParty_step step holds.1 holds.2⟩
    cases (empty host id).symm.trans found
  refine partitioned_of_party (publicKeyB64_clean _) fun row member => ?_
  exact kept.2 host row.messageId row (((state.stores host).messages.mem_rows_iff row).mp member)

/-- The message of this run is shown to its sender in the conversation with its recipient. -/
theorem greeting_shown : ∃ (state : World Bool) (row : Message),
    (state.stores true).messages.rows = [row] ∧ row.accepted = 1 ∧
    home (pair.id true) row = .between (pair.id false) ∧
    Partitioned (pair.id true) (state.stores true).messages := by
  have ran : (Rpc.run pair.system (fun _ _ => true) Delivery.greeting
      ⟨acquainted, [], []⟩).map (fun state => (state.stores true).messages.rows.map fun row =>
        (row.accepted, row.senderId, row.recipientId, row.groupId)) =
      some [(1, pair.id true, pair.id false, [])] := by
    decide +kernel
  obtain ⟨state, scheduled, facts⟩ := Option.map_eq_some_iff.mp ran
  obtain ⟨row, rows, same⟩ := List.map_eq_singleton_iff.mp facts
  simp only [Prod.mk.injEq] at same
  refine ⟨state, row, rows, same.1, ?_, views_partition pair acquainted (fun _ _ => rfl)
    (Rpc.run_reachable (fun _ _ _ => trivial) Delivery.greeting scheduled) true⟩
  simp [home, same]

end NoMiddle.Conversations
