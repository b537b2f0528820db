import NoMiddle.GroupConvergence
import NoMiddle.Library.RpcInvariant

/-! Groups do not meet. Nodes edit groups, pass lists on and retry them, all at once; a group
that nobody names stays as it is on every node that knows it, and no request speaks of it. -/
namespace NoMiddle.GroupIsolation
open Library Text Crypto DbManager DbViews Node MessageDelivery RetryWorker Handlers GroupHandlers
open Network Footprint GroupMembership GroupFrame
open TaskConduct (World Action)
open Conduct (Trace wp_perform wp_seq_only)

variable (groupId : Str)

/-- Nothing about the group waits to be sent. -/
structure Unheard (store : Store) : Prop where
  settled : ∀ id row, store.groupUpdates.find (groupId, id) = some row → row.accepted ≠ 0
  apart : Apart groupId store

/-- The updates of the group are the same, and so are its rows where it is known. -/
structure Same (before after : Store) : Prop where
  updates : ∀ id, after.groupUpdates.find (groupId, id) = before.groupUpdates.find (groupId, id)
  apart : Apart groupId after
  known : before.groups.has groupId = true → after.groups.has groupId = true
  members : before.groups.has groupId = true →
    ∀ id, after.groupMembers.find (groupId, id) = before.groupMembers.find (groupId, id)

/-- What a node may be told: none of the updates that wait is about the group, and where the
group is known, no new one gets its id. -/
def Possible (known : Bool) : (operation : nodeSig.Op) → nodeSig.Res operation → Prop
  | .inl (.call .getPendingGroupUpdates), updates =>
      ∀ u ∈ (updates : List GroupUpdate), cstr u.groupId ≠ groupId ∧
        otherGroup groupId u.snapshotJson = true
  | .inl (.call (.createGroup g)), created =>
      known = true → (created : Bool) = true → cstr g.groupId ≠ groupId
  | _, _ => True

/-- Where the group is not known a new one may get its id. -/
def Allowed (known : Bool) (operation : nodeSig.Op) : Prop :=
  beside groupId operation = true ∨
    known = false ∧ ∃ other members, operation = .inl (.call (.replaceGroupMembers other members))

def isolated (known : Bool) : Discipline nodeSig :=
  ⟨Possible groupId known, fun _ => Allowed groupId known⟩

variable {groupId} {known : Bool} {history : Trace}

theorem allowed_of_beside (history : Trace) (operation : nodeSig.Op)
    (aside : beside groupId operation = true) :
    (isolated groupId known).allowed history operation := Or.inl aside

theorem wp_beside {Value : Type} {program : Proc Value} (only : program.Only (beside groupId)) :
    program.wp (isolated groupId known).contract (fun _ _ => True) history :=
  Program.wp_of_only allowed_of_beside program only history

theorem groupsCreate_isolated (sodium : Sodium) (keys : KeyPair) (req : HttpRequest) :
    (groupsCreate sodium keys req).wp (isolated groupId known).contract (fun _ _ => True)
      history := by
  unfold groupsCreate
  have checked : (isAuthed sodium req).Only (beside groupId) :=
    Effects.isAuthed_only sodium (fun _ => rfl) req
  refine wp_seq_only allowed_of_beside checked fun authed history => ?_
  cases authed with
  | false => trivial
  | true =>
  simp only [Bool.not_true, Bool.false_eq_true, ↓reduceIte]
  split
  case h_2 => trivial
  split
  case h_2 => trivial
  split
  · trivial
  refine wp_perform (.inl rfl) fun dice _ => ?_
  split
  case h_2 => trivial
  next name named =>
  refine wp_perform (.inl rfl) fun createdAt _ => ?_
  refine wp_perform (.inl rfl) fun (created : Bool) fresh => ?_
  cases created with
  | false => trivial
  | true =>
  refine wp_perform (.inl rfl) fun addedAt _ => wp_perform ?_ fun (replaced : Bool) _ => ?_
  · cases known with
    | false => exact .inr ⟨rfl, _, _, rfl⟩
    | true => exact .inl (decide_eq_true (fresh rfl rfl))
  · cases replaced <;> trivial

theorem retryPass_isolated :
    retryPass.wp (isolated groupId known).contract (fun _ _ => True) history := by
  refine wp_perform (.inl rfl) fun messages _ => wp_perform (.inl rfl) fun edits _ => ?_
  refine wp_perform (.inl rfl) fun (updates : List GroupUpdate) apart => ?_
  refine Program.wp_seq (isolated groupId known).contract_monotone _ _ _
    (Program.wp_forM_mem (isolated groupId known).contract_monotone retryPendingGroupUpdate
      (fun _ => True) updates (fun u member history _ => ?_) _ trivial)
    fun _ after _ => wp_beside (passRest_beside messages edits)
  obtain ⟨different, elsewhere⟩ := apart u member
  exact wp_beside (retryPendingGroupUpdate_beside different elsewhere)

section Store
variable {initial store : Store}

theorem Same.possible (unheard : Unheard groupId initial) (same : Same groupId initial store)
    (input : Input) (operation : LocalOp) :
    Possible groupId (initial.groups.has groupId) (.inl operation)
      (handle input operation store).1 := by
  cases operation with
  | call db =>
      cases db with
      | getPendingGroupUpdates =>
          intro u member
          obtain ⟨found, waits⟩ := (mem_pendingGroupUpdates store.groupUpdates u).mp member
          have stored := (store.groupUpdates.find_eq_some _ u).mp found
          have texts := store.groupUpdates.find_valid found
          simp only [AllClean, GroupUpdate.texts, List.forall_mem_cons] at texts
          have different : u.groupId ≠ groupId := by
            rintro rfl
            rw [same.updates u.memberId] at found
            exact unheard.settled u.memberId u found waits
          rw [cstr_of_clean texts.1]
          exact ⟨different, same.apart u stored.1 different⟩
      | createGroup g =>
          intro known created taken
          have absent : (!store.groups.has (cstr g.groupId)) = true := created
          rw [taken, same.known known] at absent
          cases absent
      | _ => trivial
  | _ => trivial

theorem Same.handled (same : Same groupId initial store) (input : Input) {operation : LocalOp}
    (allowed : Allowed groupId (initial.groups.has groupId) (.inl operation)) :
    Same groupId initial (handle input operation store).2 := by
  rcases allowed with aside | ⟨unknown, other, members, replaces⟩
  · have spared := handle_spared input store aside
    exact ⟨fun id => (spared.updates id).trans (same.updates id), spared.apart same.apart,
      fun known => spared.known (same.known known),
      fun known id => (spared.members id).trans (same.members known id)⟩
  · cases replaces
    refine ⟨same.updates, same.apart, fun known => ?_, fun known => ?_⟩
    · rw [known] at unknown
      cases unknown
    · rw [known] at unknown
      cases unknown

end Store

section Runs
variable {Host : Type} (network : Deployment Host)

theorem isolated_guaranteed {initial : Host → Store}
    (unheard : ∀ host, Unheard groupId (initial host)) : Rpc.Guaranteed network.system
    (fun host _ _ => isolated groupId ((initial host).groups.has groupId))
    (fun _ _ _ _ _ => True) (fun host => Same groupId (initial host))
    (fun request => beside groupId (.inr request) = true)
    (fun _ => Elsewhere groupId) (fun _ _ => True) where
  possible host _ _ input operation _ same := same.possible (unheard host) input operation
  answers _ _ _ _ _ := trivial
  keeps _ _ _ _ input operation _ allowed same := same.handled input allowed
  posts := by
    rintro _ _ _ _ request (aside | ⟨_, _, _, replaces⟩)
    · exact aside
    · cases replaces
  program host task elsewhere := by
    by_cases creates : ∃ req, task = .groupsCreate req
    · obtain ⟨req, rfl⟩ := creates
      exact groupsCreate_isolated network.sodium (network.keys host) req
    by_cases passes : task = .retryPass
    · subst passes
      exact Program.wp_seq (isolated groupId _).contract_monotone _ _ _ retryPass_isolated
        fun _ _ _ => trivial
    · exact wp_beside (program_beside network host elsewhere
        (fun req same => creates ⟨req, same⟩) passes)
  serve host request aside _ _ :=
    wp_beside (serve_beside network.sodium (network.keys host) request aside)

variable [DecidableEq Host] {network}

/-- Whatever the nodes do about other groups, and however it is interleaved, a group none of
whose updates waits keeps its list on every node that knows it, its updates stay as they are,
and no request about it is ever posted. -/
theorem group_left_alone {stores : Host → Store}
    (unheard : ∀ host, Unheard groupId (stores host)) {world : World Host}
    (run : Rpc.Reachable network.system
      (fun _ label => ∀ host task, label = .start host task → Elsewhere groupId task)
      ⟨stores, [], []⟩ world) :
    (∀ host, Same groupId (stores host) (world.stores host)) ∧
    ∀ job ∈ world.jobs, job.request.endpoint = .acceptGroupUpdate →
      otherGroup groupId job.request.body = true := by
  have inOrder := Rpc.inOrder_run (isolated_guaranteed network unheard)
    (fun _ _ elsewhere => ⟨elsewhere, fun _ _ _ _ _ => trivial⟩)
    (fun host => ⟨fun _ => rfl, (unheard host).apart, id, fun _ _ => rfl⟩) run
  refine ⟨inOrder.stores, fun job member update => ?_⟩
  have aside := inOrder.jobs job member
  simpa [beside, update] using aside

end Runs

section Execution

def told (host : Bool) : GroupUpdates :=
  if host then
    DbManager.markGroupUpdateAccepted (str "old") (pair.id false)
      (DbManager.upsertGroupUpdate 0 ⟨str "old", pair.id false, .obj [], 1, 0, 0⟩ .empty)
  else .empty

/-- Both nodes are in a group from before, and the first has told the other about it. -/
def befriended (host : Bool) : Store :=
  { acquainted host with
    groupUpdates := told host
    groups := DbManager.createGroup ⟨str "old", [], pair.id true, 0⟩ .empty
    groupMembers := (DbManager.replaceGroupMembers (str "old")
      [⟨str "old", pair.id true, str "a", str "admin", 0⟩,
        ⟨str "old", pair.id false, str "b", str "member", 0⟩] .empty).2 }

theorem told_settled {host : Bool} {row : GroupUpdate} (member : row ∈ (told host).rows) :
    row.groupId = str "old" ∧ row.accepted = 1 := by
  cases host with
  | true =>
      cases List.mem_singleton.mp member
      exact ⟨rfl, rfl⟩
  | false => cases member

/-- A second group is made and pushed, and a pass looks for more to push. -/
def secondGroup : List (Action Bool) :=
  .start true (.groupsCreate foundation) :: List.replicate 6 (.act 0 (clockAt 7)) ++
  .start true (.addMember admission founded) :: List.replicate 7 (.act 1 (clockAt 7)) ++
  .post 1 :: .deliver 0 false :: List.replicate 6 (.act 2 (clockAt 7)) ++
  [.reply 2, .receive 1, .act 1 (clockAt 7), .start true .retryPass] ++
  List.replicate 5 (.act 3 (clockAt 8))

def aboutSecond : Action Bool → Bool
  | .start _ (.groupsCreate _) | .start _ .retryPass => true
  | .start _ (.addMember _ group) => group.text ≠ str "old"
  | .start .. => false
  | _ => true

theorem second_leaves_first : ∃ world : World Bool,
    (world.stores false).groups.has founded.text = true ∧ world.threads.length = 4 ∧
    (∀ host, Same (str "old") (befriended host) (world.stores host)) ∧
    ∀ job ∈ world.jobs, job.request.endpoint = .acceptGroupUpdate →
      otherGroup (str "old") job.request.body = true := by
  have ran : ((Rpc.run pair.system (fun _ => aboutSecond) secondGroup
      ⟨befriended, [], []⟩).map fun world =>
        ((world.stores false).groups.has founded.text, world.threads.length)) =
      some (true, 4) := by
    decide +kernel
  obtain ⟨world, scheduled, facts⟩ := Option.map_eq_some_iff.mp ran
  obtain ⟨joined, all⟩ := Prod.mk.inj facts
  have elsewhere : ∀ (_ : World Bool) (label : Action Bool), aboutSecond label = true →
      ∀ host task, label = .start host task → Elsewhere (str "old") task := by
    rintro _ _ about host task rfl
    cases task with
    | groupsCreate _ | retryPass => trivial
    | addMember req group =>
        have different : group.text ≠ str "old" := of_decide_eq_true about
        exact different
    | _ => cases about
  have unheard : ∀ host, Unheard (str "old") (befriended host) := by
    intro host
    constructor
    · intro id row found waits
      have member := ((told host).find_eq_some _ row).mp found
      rw [(told_settled member.1).2] at waits
      cases waits
    · exact fun row member other => absurd (told_settled member).1 other
  exact ⟨world, joined, all, group_left_alone unheard
    (Rpc.run_reachable elsewhere secondGroup scheduled)⟩

end Execution
end NoMiddle.GroupIsolation
