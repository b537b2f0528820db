import NoMiddle.GroupMembership
import NoMiddle.Footprint

/-! What leaves one group alone. The tables and the peers hear of many groups; a program that
names only other ones, in its statements and in the snapshots it sends, changes nothing of
this one on any node. -/
namespace NoMiddle.GroupFrame
open Library Text Crypto DbManager DbViews Node MessageDelivery RetryWorker Handlers GroupHandlers
open Network Footprint GroupMembership
open NoMiddle.Sequential (Stores Exchange)

variable (groupId : Str)

/-- Whoever accepts this data has another group updated, or none. -/
def otherGroup (data : Json) : Bool :=
  match data.s? "group_id" with
  | some other => cstr other ≠ groupId
  | none => true

def beside : nodeSig.Op → Bool
  | .inl (.call (.replaceGroupMembers other _)) | .inl (.call (.deleteGroup other))
  | .inl (.call (.markGroupUpdateAccepted other _)) => cstr other ≠ groupId
  | .inl (.call (.upsertGroupUpdate u)) =>
      cstr u.groupId ≠ groupId && otherGroup groupId u.snapshotJson
  | .inr request => request.endpoint ≠ .acceptGroupUpdate || otherGroup groupId request.body
  | _ => true

/-- No update of another group is filed under a wrong name. -/
def Apart (store : Store) : Prop :=
  ∀ row ∈ store.groupUpdates.rows, row.groupId ≠ groupId →
    otherGroup groupId row.snapshotJson = true

/-- All that a store has of the group is as it was. -/
structure Spared (before after : Store) : Prop where
  members : ∀ id, after.groupMembers.find (groupId, id) = before.groupMembers.find (groupId, id)
  known : before.groups.has groupId = true → after.groups.has groupId = true
  updates : ∀ id, after.groupUpdates.find (groupId, id) = before.groupUpdates.find (groupId, id)
  apart : Apart groupId before → Apart groupId after

variable {groupId}

theorem Spared.refl (store : Store) : Spared groupId store store :=
  ⟨fun _ => rfl, id, fun _ => rfl, id⟩

theorem Spared.trans {before middle after : Store} (first : Spared groupId before middle)
    (second : Spared groupId middle after) : Spared groupId before after where
  members id := (second.members id).trans (first.members id)
  known had := second.known (first.known had)
  updates id := (second.updates id).trans (first.updates id)
  apart held := second.apart (first.apart held)

theorem Spared.listed {before after : Store} (spared : Spared groupId before after)
    (clean : Clean groupId) : listed after groupId = listed before groupId := by
  ext e
  simp only [GroupMembership.listed, Set.mem_ofPred_eq, List.mem_map, mem_groupMembersOf,
    cstr_of_clean clean, spared.members]

theorem Spared.informed {before after : Store} {entries : Set Entry}
    (spared : Spared groupId before after) (clean : Clean groupId)
    (informed : Informed groupId entries before) : Informed groupId entries after where
  known := spared.known informed.known
  same := (spared.listed clean).trans informed.same

theorem apart_upserted (now : Int) {u : GroupUpdate} {updates : GroupUpdates}
    (other : cstr u.groupId ≠ groupId → otherGroup groupId u.snapshotJson = true)
    (apart : ∀ row ∈ updates.rows, row.groupId ≠ groupId →
      otherGroup groupId row.snapshotJson = true) :
    ∀ row ∈ (upsertGroupUpdate now u updates).rows, row.groupId ≠ groupId →
      otherGroup groupId row.snapshotJson = true := by
  intro row member elsewhere
  unfold upsertGroupUpdate at member
  split at member
  · obtain ⟨old, there, rfl⟩ := List.mem_map.mp member
    split
    · next hit =>
      rw [if_pos hit] at elsewhere
      have same : old.groupId = cstr u.groupId := of_decide_eq_true (Bool.and_eq_true_iff.mp hit).1
      exact other (same ▸ elsewhere)
    · next missed =>
      rw [if_neg missed] at elsewhere
      exact apart old there elsewhere
  · rcases updates.mem_insert _ member with there | rfl
    · exact apart row there elsewhere
    · exact other elsewhere

theorem apart_marked {otherId memberId : Str} {updates : GroupUpdates}
    (apart : ∀ row ∈ updates.rows, row.groupId ≠ groupId →
      otherGroup groupId row.snapshotJson = true) :
    ∀ row ∈ (markGroupUpdateAccepted otherId memberId updates).rows, row.groupId ≠ groupId →
      otherGroup groupId row.snapshotJson = true := by
  intro row member elsewhere
  obtain ⟨old, there, rfl⟩ := List.mem_map.mp member
  have sameGroup : (if old.groupId = cstr otherId && old.memberId = cstr memberId then
      { old with accepted := 1 } else old).groupId = old.groupId := by
    split <;> rfl
  have sameData : (if old.groupId = cstr otherId && old.memberId = cstr memberId then
      { old with accepted := 1 } else old).snapshotJson = old.snapshotJson := by
    split <;> rfl
  rw [sameGroup] at elsewhere
  rw [sameData]
  exact apart old there elsewhere

/-- One statement about something else. -/
theorem exec_spared (now : Int) (store : Store) {db : Call}
    (aside : beside groupId (.inl (.call db)) = true) :
    Spared groupId store (db.exec now store).2 := by
  refine ⟨fun id => ?_, fun had => ?_, fun id => ?_, fun apart => ?_⟩
  · rw [groupMembers_exec]
    cases db with
    | replaceGroupMembers other members => exact if_neg (of_decide_eq_true aside)
    | deleteGroup other => exact if_neg (of_decide_eq_true aside)
    | _ => rfl
  · cases db with
    | createGroup g =>
        obtain ⟨row, found⟩ := (store.groups.has_iff groupId).mp had
        refine (Table.has_iff _ _).mpr ⟨row, ?_⟩
        have inserted := Table.find_insert store.groups
          ⟨cstr g.groupId, cstr g.name, cstr g.createdBy, g.createdAt⟩ (allClean_map g.texts) groupId
        rw [found] at inserted
        exact inserted
    | updateGroupName other name =>
        change (updateGroupName other name store.groups).has groupId = true
        rw [updateGroupName, Table.has_update]
        exact had
    | deleteGroup other =>
        obtain ⟨row, found⟩ := (store.groups.has_iff groupId).mp had
        refine (Table.has_iff _ _).mpr ⟨row, ?_⟩
        have different : row.groupId ≠ cstr other := by
          intro same
          exact of_decide_eq_true aside (same.symm.trans (store.groups.find_key found))
        change (store.groups.delete (·.groupId = cstr other)).find groupId = some row
        rw [Table.find_delete, found]
        simp [Option.filter, different]
    | _ => exact had
  · rw [groupUpdates_exec]
    cases db with
    | upsertGroupUpdate u =>
        obtain ⟨other, _⟩ := Bool.and_eq_true_iff.mp aside
        exact if_neg fun same => of_decide_eq_true other (congrArg Prod.fst same)
    | markGroupUpdateAccepted other memberId =>
        exact if_neg fun same => of_decide_eq_true aside (congrArg Prod.fst same)
    | _ => rfl
  · cases db with
    | upsertGroupUpdate u =>
        exact apart_upserted now (fun _ => (Bool.and_eq_true_iff.mp aside).2) apart
    | markGroupUpdateAccepted other memberId => exact apart_marked apart
    | _ => exact apart

theorem handle_spared (input : Input) (store : Store) {operation : LocalOp}
    (aside : beside groupId (.inl operation) = true) :
    Spared groupId store (handle input operation store).2 := by
  cases operation with
  | call db => exact exec_spared input.now store aside
  | _ => exact Spared.refl store

/-! The programs that name another group, or none. -/
section Programs
variable (sodium : Sodium) (keys : KeyPair)

theorem groupFree_beside (operation : nodeSig.Op) (free : groupFree operation = true) :
    beside groupId operation = true := by
  cases operation with
  | inl operation =>
      cases operation with
      | call db => cases db <;> first | rfl | cases free
      | _ => rfl
  | inr request => exact Bool.or_eq_true_iff.mpr (.inl free)

theorem otherGroup_snapshot {other senderId : Str} {version : Int} {grp : Option Group}
    {members : List GroupMember} (different : cstr other ≠ groupId) :
    otherGroup groupId (snapshot other senderId version grp members) = true := by
  have names := (snapshot_fields other senderId version grp members).2.1
  rw [otherGroup, names]
  exact decide_eq_true different

theorem posted_beside {serverAddress : Str} {data : Json}
    (elsewhere : otherGroup groupId data = true) :
    beside groupId (.inr ⟨serverAddress, .acceptGroupUpdate, data⟩) = true := by
  simp [beside, elsewhere]

theorem pushGroupUpdate_beside {other : Str} (different : cstr other ≠ groupId) (senderId : Str)
    (version : Int) {data : Json} (elsewhere : otherGroup groupId data = true) (allOnline : Bool)
    (m : GroupMember) :
    (pushGroupUpdate other senderId version data allOnline m).Only (beside groupId) := by
  unfold pushGroupUpdate
  split
  · trivial
  · refine only_perform ?_ fun _ => ?_
    · exact Bool.and_eq_true_iff.mpr ⟨decide_eq_true different, elsewhere⟩
    dsimp only
    split
    · trivial
    · refine only_post (posted_beside elsewhere) fun answer => ?_
      change Program.Only _ (if delivered (answer.map (·.code)) then _ else _)
      split
      · exact ⟨decide_eq_true different, fun _ => trivial⟩
      · trivial

theorem deliverGroupUpdate_beside {other : Str} (different : cstr other ≠ groupId) (senderId : Str)
    (members : List GroupMember) (version : Int) :
    (deliverGroupUpdate other senderId members version).Only (beside groupId) := by
  apply only_perform rfl
  intro grp
  apply Program.only_foldlM
  apply pushGroupUpdate_beside different
  exact otherGroup_snapshot different

theorem addMember_beside (req : HttpRequest) {group : PathId}
    (different : cstr group.text ≠ groupId) :
    (addMember sodium keys req group).Only (beside groupId) := by
  refine only_authed sodium (fun _ => rfl) req _ ?_
  split
  · split
    · split
      · trivial
      · split
        · split
          · refine only_perform rfl fun stored => Program.only_bind ?_ fun members => ?_
            · unfold withMember
              split
              · trivial
              · exact ⟨rfl, fun _ => trivial⟩
            · refine only_perform (decide_eq_true different) fun (replaced : Bool) => ?_
              cases replaced with
              | false => trivial
              | true =>
                  refine only_perform rfl fun version => ?_
                  exact Program.only_bind (deliverGroupUpdate_beside different _ _ _)
                    fun _ => trivial
          · trivial
        · trivial
    · trivial
  · trivial

theorem removeMember_beside (req : HttpRequest) {group : PathId}
    (different : cstr group.text ≠ groupId) :
    (removeMember sodium keys req group).Only (beside groupId) := by
  refine only_authed sodium (fun _ => rfl) req _ ?_
  split
  · split
    · split
      · trivial
      · split
        · refine only_perform rfl fun existing => ?_
          dsimp only
          split
          · trivial
          · refine only_perform (decide_eq_true different) fun (replaced : Bool) => ?_
            cases replaced with
            | false => trivial
            | true =>
                refine only_perform rfl fun version => ?_
                refine Program.only_bind (deliverGroupUpdate_beside different _ _ _)
                  fun delivered => ?_
                split
                · exact ⟨decide_eq_true different, fun _ => trivial⟩
                · trivial
        · trivial
    · trivial
  · trivial

theorem recordGroup_beside (other senderId groupName : Str) :
    (recordGroup other senderId groupName).Only (beside groupId) := by
  refine only_perform rfl fun found => ?_
  cases found with
  | none => exact ⟨rfl, fun _ => ⟨rfl, fun _ => trivial⟩⟩
  | some g =>
      dsimp only
      split
      · exact ⟨rfl, fun _ => trivial⟩
      · trivial

theorem readMember_beside (other : Str) (members : Option (List GroupMember)) (e : Json) :
    (readMember other members e).Only (beside groupId) := by
  unfold readMember
  repeat' split
  all_goals first
    | trivial
    | exact ⟨rfl, fun _ => trivial⟩

theorem acceptGroupUpdate_beside {data : Json} (elsewhere : otherGroup groupId data = true) :
    (acceptGroupUpdate (some data)).Only (beside groupId) := by
  unfold acceptGroupUpdate
  dsimp only
  split
  · split
    · trivial
    · split
      · next other named =>
        have different : cstr other ≠ groupId := by
          rw [otherGroup, named] at elsewhere
          exact of_decide_eq_true elsewhere
        split
        · split
          · refine Program.only_bind (recordGroup_beside _ _ _) fun _ => ?_
            split
            · refine Program.only_bind
                (Program.only_foldlM (readMember_beside _) _ _) fun members => ?_
              cases members with
              | none => trivial
              | some members =>
                  refine only_perform (decide_eq_true different) fun (replaced : Bool) => ?_
                  cases replaced <;> trivial
            · trivial
          · trivial
        · trivial
      · trivial
  · trivial

theorem retryPendingGroupUpdate_beside {u : GroupUpdate} (different : cstr u.groupId ≠ groupId)
    (elsewhere : otherGroup groupId u.snapshotJson = true) :
    (retryPendingGroupUpdate u).Only (beside groupId) := by
  refine Program.only_bind (only_perform rfl fun addr => ?_) fun _ => trivial
  split
  · trivial
  · refine only_post (posted_beside elsewhere) fun answer => ?_
    change Program.Only _ (if delivered (answer.map (·.code)) then _ else _)
    split
    · exact ⟨decide_eq_true different, fun _ => trivial⟩
    · trivial

/-- The rest of a pass has nothing to do with groups. -/
theorem passRest_beside (messages edits : List Message) :
    (do
      let pendingDeletes ← getPendingDeletes
      let currentTime ← time
      messages.forM (retryPendingMessage currentTime)
      edits.forM (retryPendingEdit currentTime)
      pendingDeletes.forM (retryPendingDelete currentTime) : Proc Unit).Only (beside groupId) := by
  refine Program.only_mono groupFree_beside _ ?_
  refine only_perform rfl fun pendingDeletes => only_perform rfl fun currentTime => ?_
  refine Program.only_bind
    (Program.only_forM (retryPendingMessage_groupFree currentTime) _) fun _ => ?_
  refine Program.only_bind (Program.only_forM (retryPendingEdit_groupFree currentTime) _) fun _ => ?_
  exact Program.only_forM (retryPendingDelete_groupFree currentTime) _

theorem serve_beside (request : Request) (aside : beside groupId (.inr request) = true) :
    (Handlers.serve sodium keys request).Only (beside groupId) := by
  obtain ⟨serverAddress, endpoint, body⟩ := request
  cases endpoint with
  | acceptMessage =>
      exact Program.only_mono groupFree_beside _ (acceptMessage_groupFree _ _ (some body))
  | acceptEdit => exact Program.only_mono groupFree_beside _ (acceptEdit_groupFree _ _ (some body))
  | acceptDelete => exact Program.only_mono groupFree_beside _ (acceptDelete_groupFree _ (some body))
  | acceptGroupUpdate => exact acceptGroupUpdate_beside (by simpa [beside] using aside)
  | publicKey => trivial

end Programs

/-- A task about another group, or about none. -/
def Elsewhere (groupId : Str) : Task → Prop
  | .addMember _ group | .removeMember _ group => group.text ≠ groupId
  | .incoming .acceptGroupUpdate body => ∀ data, body = some data → otherGroup groupId data = true
  | _ => True

/-- Only the id of a new group and the rows of a pass are not known beforehand. -/
theorem program_beside {Host : Type} (network : Deployment Host) (host : Host) {task : Task}
    (elsewhere : Elsewhere groupId task) (creates : ∀ req, task ≠ .groupsCreate req)
    (passes : task ≠ .retryPass) : (network.program host task).Only (beside groupId) := by
  cases task with
  | groupsCreate req => exact absurd rfl (creates req)
  | retryPass => exact absurd rfl passes
  | addMember req group =>
      have different : cstr group.text ≠ groupId := (cstr_of_clean group.clean).symm ▸ elsewhere
      exact addMember_beside _ _ req different
  | removeMember req group =>
      have different : cstr group.text ≠ groupId := (cstr_of_clean group.clean).symm ▸ elsewhere
      exact removeMember_beside _ _ req different
  | incoming endpoint body =>
      cases endpoint with
      | acceptMessage => exact Program.only_mono groupFree_beside _ (acceptMessage_groupFree _ _ body)
      | acceptEdit => exact Program.only_mono groupFree_beside _ (acceptEdit_groupFree _ _ body)
      | acceptDelete => exact Program.only_mono groupFree_beside _ (acceptDelete_groupFree _ body)
      | publicKey => trivial
      | acceptGroupUpdate =>
          cases body with
          | none => trivial
          | some data => exact acceptGroupUpdate_beside (elsewhere data rfl)
  | _ => exact Program.only_mono groupFree_beside _ (program_groupFree network host _ rfl)

section Runs
variable {Host : Type} [DecidableEq Host] {network : Deployment Host} {lossy : Bool}

omit [DecidableEq Host] in
theorem served_spared {peer : Host} {request : Request} {desk after : Solo.Desk}
    {response : Response} (aside : beside groupId (.inr request) = true)
    (ran : Solo.Runs (network.serve peer request) desk response after) :
    Spared groupId desk.store after.store := by
  have kept := Program.keeps_of_only Solo.step
    (fun current => Spared groupId desk.store current.store)
    (fun operation current answer next allowed spared taken => by
      cases operation with
      | inr request =>
          obtain ⟨drawn, ⟨⟩⟩ := taken
          exact spared
      | inl operation =>
          obtain ⟨drawn, ⟨⟩⟩ := taken
          exact spared.trans (handle_spared drawn.1 current.store allowed))
    _ (serve_beside network.sodium (network.keys peer) request aside) desk (Spared.refl _)
  exact (Program.wp_demonic_iff Solo.step _ _ _).mp kept _ _ ran

/-- What a request about something else changes, answered or not. -/
theorem exchange_spared {request : Request} {stores after : Stores Host}
    {answer : Option Response} (aside : beside groupId (.inr request) = true)
    (exchanged : Exchange network lossy request stores answer after) (host : Host) :
    Spared groupId (stores host) (after host) := by
  have updated : ∀ peer {response desk},
      Solo.Runs (network.serve peer request) ⟨stores peer, []⟩ response desk →
      Spared groupId (stores host) (Function.update stores peer desk.store host) := by
    intro peer response desk ran
    rcases eq_or_ne host peer with rfl | other
    · rw [Function.update_self]
      exact served_spared aside ran
    · rw [Function.update_of_ne other]
      exact Spared.refl _
  cases exchanged with
  | served peer routed ran => exact updated peer ran
  | answerLost peer loses routed ran => exact updated peer ran
  | unreached fails => exact Spared.refl _

variable {host : Host} {stores : Stores Host}

theorem wp_spared {Value : Type} {program : Proc Value} (only : program.Only (beside groupId)) :
    program.wp (Sequential.contract network lossy host)
      (fun _ after => ∀ peer, Spared groupId (stores peer) (after peer)) stores := by
  refine Program.keeps_of_only (Sequential.step network lossy host)
    (fun current => ∀ peer, Spared groupId (stores peer) (current peer))
    (fun operation current answer next allowed spared taken => ?_) _ only stores
    fun peer => Spared.refl _
  intro peer
  refine (spared peer).trans ?_
  cases operation with
  | inr request => exact exchange_spared allowed taken peer
  | inl operation =>
      obtain ⟨input, handled, rest⟩ := taken
      have own : (handle input operation (current host)).2 = next host := by
        rw [handled]
      rw [rest]
      rcases eq_or_ne peer host with rfl | other
      · rw [Function.update_self, ← own]
        exact handle_spared input _ allowed
      · rw [Function.update_of_ne other]
        exact Spared.refl _

end Runs
end NoMiddle.GroupFrame
