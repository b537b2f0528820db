import NoMiddle.Library.RpcInvariant
import NoMiddle.Footprint
import NoMiddle.Delivery

/-! What each route can reach: which tables it writes, whether it looks at message rows past the
views that leave the deleted ones out, whether it sends or pushes anything, says of a message
that it was delivered or passes the verdict that it never will be. A resource is left alone as
long as nothing that uses it is started on any node, however the rest is interleaved. -/
namespace NoMiddle.Effects
open Library Text Crypto DbManager Node MessageDelivery RetryWorker Handlers GroupHandlers
open AuthHandlers Network Footprint
open TaskConduct (World Action)

inductive Resource where
  | contacts
  | messages
  | groups
  | groupMembers
  | clients
  | authRequests
  | groupUpdates
  | rows
  | peers
  | devices
  | verdicts
  | deliveries
deriving DecidableEq

def marks : Mark → List Resource
  | .failed | .editFailed | .deleteFailed => [.messages, .verdicts]
  | .accepted => [.messages, .deliveries]
  | _ => [.messages]

@[simp] theorem messages_mem_marks (mark : Mark) : Resource.messages ∈ marks mark := by
  cases mark <;> exact List.mem_cons_self

/-- What a call writes. Of the reads only those count that see deleted messages. -/
def reaches : Call → List Resource
  | .upsertContact .. => [.contacts]
  | .addMessage _ => [.messages, .deliveries]
  | .updateMessages _ _ mark => marks mark
  | .getMessage _ | .getMessages .pendingMessages | .getMessages .pendingEdits
  | .getMessages .pendingDeletes => [.rows]
  | .createGroup _ | .updateGroupName .. => [.groups]
  | .deleteGroup _ => [.groups, .groupMembers]
  | .replaceGroupMembers .. => [.groupMembers]
  | .upsertGroupUpdate _ | .markGroupUpdateAccepted .. => [.groupUpdates]
  | .createClient _ | .deleteClient _ => [.clients]
  | .addAuthRequest .. | .deleteAuthRequest _ | .approveAuthRequest .. => [.authRequests]
  | _ => []

def touches : nodeSig.Op → List Resource
  | .inl (.call call) => reaches call
  | .inl (.notify _) => [.devices]
  | .inr _ => [.peers]
  | _ => []

def within (used : List Resource) (operation : nodeSig.Op) : Bool :=
  (touches operation).all (used.contains ·)

/-- What the routes use that peers call. -/
def served : Endpoint → List Resource
  | .acceptMessage => [.messages, .devices, .deliveries]
  | .acceptEdit | .acceptDelete => [.messages, .rows, .devices]
  | .acceptGroupUpdate => [.groups, .groupMembers]
  | .publicKey => []

def uses : Task → List Resource
  | .upsertContact _ => [.contacts]
  | .sendMessage _ => [.messages, .peers, .devices, .deliveries]
  | .editMessage _ | .deleteMessage _ | .groupEdit .. | .groupDelete .. =>
      [.messages, .rows, .peers, .devices]
  | .groupSend .. => [.messages, .peers, .deliveries]
  | .groupsCreate _ => [.groups, .groupMembers]
  | .addMember .. => [.groupMembers, .groupUpdates, .peers]
  | .removeMember .. => [.groups, .groupMembers, .groupUpdates, .peers]
  | .remotePublicKey .. => [.peers]
  | .authRegister | .deleteClient .. => [.clients]
  | .authRequest _ => [.clients, .authRequests, .devices]
  | .authApprove _ => [.clients, .authRequests]
  | .authPoll _ => [.authRequests]
  | .incoming endpoint _ => served endpoint
  | .retryPass => [.messages, .rows, .groupUpdates, .peers, .verdicts, .deliveries]
  | .contacts _ | .messages .. | .groups _ | .groupMembers .. | .groupMessages .. | .publicKey
  | .clients _ => []

/-- Nothing happened to the table. -/
def unchanged (before after : Store) : Resource → Prop
  | .contacts => after.contacts = before.contacts
  | .messages => after.messages = before.messages
  | .groups => after.groups = before.groups
  | .groupMembers => after.groupMembers = before.groupMembers
  | .clients => after.clients = before.clients
  | .authRequests => after.authRequests = before.authRequests
  | .groupUpdates => after.groupUpdates = before.groupUpdates
  | .rows | .peers | .devices | .verdicts | .deliveries => True

theorem unchanged_refl (store : Store) (resource : Resource) :
    unchanged store store resource := by
  cases resource <;> first | rfl | trivial

theorem unchanged_trans {before middle after : Store} {resource : Resource}
    (first : unchanged before middle resource) (second : unchanged middle after resource) :
    unchanged before after resource := by
  cases resource <;> first | exact second.trans first | trivial

theorem handle_unchanged (input : Input) (operation : LocalOp) (store : Store)
    {resource : Resource} (spared : resource ∉ touches (.inl operation)) :
    unchanged store (handle input operation store).2 resource := by
  cases operation with
  | call call =>
      cases call <;> cases resource <;>
        first
          | rfl
          | trivial
          | exact absurd (by simp [touches, reaches]) spared
  | _ => exact unchanged_refl store resource

theorem within_iff {used : List Resource} {operation : nodeSig.Op} :
    within used operation = true ↔ touches operation ⊆ used := by
  simp [within, List.subset_def]

theorem spared_of_within {used : List Resource} {operation : nodeSig.Op} {resource : Resource}
    (inside : within used operation = true) (spared : resource ∉ used) :
    resource ∉ touches operation :=
  fun touched => spared (within_iff.mp inside touched)

section Routes
variable (sodium : Sodium) (keys : KeyPair)

theorem isAuthed_only {permits : nodeSig.Op → Bool}
    (reads : ∀ clientId, permits (.inl (.call (.getClient clientId))) = true) (req : HttpRequest) :
    (isAuthed sodium req).Only permits := by
  unfold isAuthed authenticate
  split
  · trivial
  · exact ⟨reads _, fun found => by cases found <;> trivial⟩

theorem upsertContact_within (req : HttpRequest) :
    (upsertContact sodium req).Only (within [.contacts]) := by
  refine only_authed sodium (fun _ => rfl) req _ ?_
  repeat' split
  all_goals first
    | trivial
    | exact ⟨rfl, fun stored => by cases stored <;> trivial⟩

theorem contacts_within (req : HttpRequest) :
    (Handlers.contacts sodium keys req).Only (within []) :=
  only_authed sodium (fun _ => rfl) req _ ⟨rfl, fun _ => trivial⟩

theorem messages_within (req : HttpRequest) (contactId : Option Str) :
    (Handlers.messages sodium keys req contactId).Only (within []) := by
  refine only_authed sodium (fun _ => rfl) req _ ?_
  cases contactId with
  | none => trivial
  | some contactId => exact ⟨rfl, fun _ => trivial⟩

theorem groups_within (req : HttpRequest) :
    (GroupHandlers.groups sodium req).Only (within []) := by
  refine only_authed sodium (fun _ => rfl) req _ (only_perform rfl fun groups => ?_)
  refine Program.only_bind (Program.only_foldlM (fun arr g => ?_) groups []) fun _ => trivial
  refine only_perform rfl fun last => ?_
  cases last with
  | none => trivial
  | some last => exact ⟨rfl, fun _ => trivial⟩

theorem groupMembers_within (req : HttpRequest) (group : PathId) :
    (GroupHandlers.groupMembers sodium req group).Only (within []) :=
  only_authed sodium (fun _ => rfl) req _ ⟨rfl, fun _ => trivial⟩

theorem groupMessages_within (req : HttpRequest) (group : PathId) :
    (groupMessages sodium req group).Only (within []) := by
  refine only_authed sodium (fun _ => rfl) req _ (only_perform rfl fun messages => ?_)
  refine Program.only_bind (Program.only_foldlM (fun arr m => ?_) messages []) fun _ => trivial
  exact ⟨rfl, fun _ => trivial⟩

theorem clients_within (req : HttpRequest) :
    (AuthHandlers.clients sodium req).Only (within []) :=
  only_authed sodium (fun _ => rfl) req _ ⟨rfl, fun _ => trivial⟩

theorem remotePublicKey_within (req : HttpRequest) (addr : Option Str) :
    (remotePublicKey sodium req addr).Only (within [.peers]) := by
  refine only_authed sodium (fun _ => rfl) req _ ?_
  cases addr with
  | none => trivial
  | some serverAddress =>
      dsimp only
      split
      · trivial
      · refine Program.only_bind (only_post rfl fun answer => ?_) fun body => ?_
        · cases answer with
          | none => trivial
          | some answer =>
              dsimp only
              split <;> trivial
        · cases body <;> trivial

theorem newClient_within (deviceName : Str) (now : Int) {used : List Resource}
    (clients : Resource.clients ∈ used) : (newClient sodium deviceName now).Only (within used) := by
  have created : ∀ c, within used (.inl (.call (.createClient c))) = true :=
    fun c => within_iff.mpr (by simpa [touches, reaches] using clients)
  exact ⟨rfl, fun _ => ⟨rfl, fun _ => ⟨rfl, fun _ => ⟨created _, fun _ => trivial⟩⟩⟩⟩

theorem authRegister_within : (authRegister sodium).Only (within [.clients]) := by
  refine only_perform rfl fun (locked : Bool) => ?_
  cases locked with
  | true => trivial
  | false =>
      refine only_perform rfl fun now => Program.only_bind (newClient_within sodium [] now ?_) ?_
      · exact List.mem_cons_self
      · rintro ⟨clientId, secret, created⟩
        cases created <;> trivial

theorem authRequest_within (req : HttpRequest) :
    (authRequest sodium req).Only (within [.clients, .authRequests, .devices]) := by
  unfold authRequest
  split
  · refine only_perform rfl fun now => only_perform rfl fun (clients : Bool) => ?_
    cases clients with
    | true =>
        refine ⟨rfl, fun _ => only_perform rfl fun (added : Bool) => ?_⟩
        cases added
        · trivial
        · exact ⟨rfl, fun _ => trivial⟩
    | false =>
        refine Program.only_bind (newClient_within sodium _ now (by decide)) ?_
        rintro ⟨clientId, secret, created⟩
        cases created <;> trivial
  · trivial

theorem authApprove_within (req : HttpRequest) :
    (authApprove sodium req).Only (within [.clients, .authRequests]) := by
  refine only_authed sodium (fun _ => rfl) req _ ?_
  repeat' split
  all_goals first
    | trivial
    | refine only_perform rfl fun row => ?_
  all_goals
    cases row with
    | none => trivial
    | some row =>
        refine only_perform rfl fun now => ?_
        split
        · exact ⟨rfl, fun _ => trivial⟩
        · split
          · trivial
          · first
              | exact ⟨rfl, fun _ => trivial⟩
              | refine Program.only_bind (newClient_within sodium _ now (by decide)) ?_
                rintro ⟨clientId, secret, created⟩
                cases created with
                | false => trivial
                | true =>
                    refine only_perform rfl fun (approved : Bool) => ?_
                    cases approved
                    · exact ⟨rfl, fun _ => trivial⟩
                    · trivial

theorem authPoll_within (requestId : Option Str) :
    (authPoll requestId).Only (within [.authRequests]) := by
  cases requestId with
  | none => trivial
  | some requestId =>
      refine only_perform rfl fun row => ?_
      cases row with
      | none => trivial
      | some row =>
          refine only_perform rfl fun now => ?_
          repeat' split
          all_goals first
            | trivial
            | exact ⟨rfl, fun _ => trivial⟩

theorem deleteClient_within (req : HttpRequest) (clientId : Str) :
    (AuthHandlers.deleteClient sodium req clientId).Only (within [.clients]) := by
  refine only_authed sodium (fun _ => rfl) req _ ?_
  split
  · trivial
  · exact ⟨rfl, fun deleted => by cases deleted <;> trivial⟩

/-! The routes about messages. -/

theorem deliverMessage_within (senderId recipientId ciphertext plaintext : Str)
    (timestamp : Int) :
    (deliverMessage senderId recipientId ciphertext plaintext timestamp).Only
      (within [.messages, .peers, .devices, .deliveries]) := by
  refine only_perform rfl fun dice => only_perform rfl fun (added : Bool) => ?_
  cases added with
  | false => trivial
  | true =>
      refine only_perform rfl fun address => only_send rfl fun result => ?_
      split
      · exact ⟨rfl, fun _ => trivial⟩
      · trivial

theorem sendDirect_within (req : HttpRequest) :
    (sendDirect sodium keys req).Only (within [.messages, .peers, .devices, .deliveries]) := by
  refine only_authed sodium (fun _ => rfl) req _ ?_
  repeat' split
  all_goals first
    | trivial
    | refine only_perform rfl fun _ => only_encrypt sodium (fun _ => rfl) _ _ _ fun ciphertext => ?_
  cases ciphertext with
  | none => trivial
  | some ciphertext =>
      refine Program.only_bind (deliverMessage_within _ _ _ _ _) fun messageId => ?_
      cases messageId with
      | none => trivial
      | some messageId => exact ⟨rfl, fun _ => trivial⟩

/-- The deliveries that ask for a contact's address, and the retries. -/
theorem toContact_only {permits : nodeSig.Op → Bool} {recipientId : Str} {endpoint : Endpoint}
    {body : Json} {mark : Proc Unit}
    (asks : permits (.inl (.call (.getContactAddress recipientId))) = true)
    (posts : ∀ serverAddress, permits (.inr ⟨serverAddress, endpoint, body⟩) = true)
    (marks : mark.Only permits) :
    (do
      let serverAddress ← call (.getContactAddress recipientId)
      if serverAddress.isEmpty then return false
      let result ← sendMessage (cutServerAddress serverAddress) endpoint body
      if delivered result then mark
      return delivered result : Proc Bool).Only permits := by
  refine only_perform asks fun (address : Str) => ?_
  split
  · trivial
  · refine only_send (posts _) fun result => ?_
    dsimp only
    split
    · exact Program.only_bind marks fun _ => trivial
    · trivial

theorem editDirect_within (req : HttpRequest) :
    (editDirect sodium keys req).Only (within [.messages, .rows, .peers, .devices]) := by
  refine only_authed sodium (fun _ => rfl) req _ ?_
  repeat' split
  all_goals first
    | trivial
    | refine only_perform rfl fun found => ?_
  cases found with
  | none => trivial
  | some msg =>
      dsimp only
      split
      · trivial
      · refine only_encrypt sodium (fun _ => rfl) _ _ _ fun ciphertext => ?_
        cases ciphertext with
        | none => trivial
        | some ciphertext =>
            refine only_perform rfl fun _ => only_perform rfl fun (updated : Bool) => ?_
            cases updated with
            | false => trivial
            | true =>
                refine Program.only_bind
                  (toContact_only rfl (fun _ => rfl) ⟨rfl, fun _ => trivial⟩) fun _ => ?_
                exact ⟨rfl, fun _ => trivial⟩

theorem deleteDirect_within (req : HttpRequest) :
    (deleteDirect sodium keys req).Only (within [.messages, .rows, .peers, .devices]) := by
  refine only_authed sodium (fun _ => rfl) req _ ?_
  repeat' split
  all_goals first
    | trivial
    | refine only_perform rfl fun found => ?_
  cases found with
  | none => trivial
  | some msg =>
      dsimp only
      split
      · trivial
      · refine Program.only_bind ⟨rfl, fun _ => trivial⟩ fun _ => ?_
        refine Program.only_bind ⟨rfl, fun _ => trivial⟩ fun _ => ?_
        refine Program.only_bind
          (toContact_only rfl (fun _ => rfl) ⟨rfl, fun _ => trivial⟩) fun _ => ?_
        exact ⟨rfl, fun _ => trivial⟩

theorem sendToMember_within (messageId groupId text : Str) (timestamp : Int) (allOnline : Bool)
    (m : GroupMember) :
    (sendToMember sodium keys messageId groupId text timestamp allOnline m).Only
      (within [.messages, .peers, .deliveries]) := by
  unfold sendToMember
  split
  · trivial
  · refine only_memberAddress (fun _ => rfl) m fun address => ?_
    refine only_encrypt sodium (fun _ => rfl) _ _ _ fun ciphertext => ?_
    cases ciphertext with
    | none => trivial
    | some ciphertext =>
        refine only_perform rfl fun accepted => only_perform rfl fun (added : Bool) => ?_
        cases added with
        | false => trivial
        | true =>
            simp only [Bool.not_true, Bool.false_eq_true, ↓reduceIte]
            split
            · trivial
            · refine only_send rfl fun result => ?_
              split
              · exact ⟨rfl, fun _ => trivial⟩
              · trivial

theorem groupSend_within (req : HttpRequest) (group : PathId) :
    (groupSend sodium keys req group).Only (within [.messages, .peers, .deliveries]) := by
  refine only_authed sodium (fun _ => rfl) req _ ?_
  repeat' split
  all_goals first
    | trivial
    | refine only_perform rfl fun _ => only_perform rfl fun _ => only_perform rfl fun members => ?_
  split
  · trivial
  · exact Program.only_bind
      (Program.only_foldlM (sendToMember_within sodium keys _ _ _ _) _ _) fun _ => trivial

theorem editAtMember_within (messageId groupId plaintext : Str) (editedAt : Int)
    (m : GroupMember) :
    (editAtMember sodium keys messageId groupId plaintext editedAt m).Only
      (within [.messages, .rows, .peers, .devices]) := by
  unfold editAtMember
  split
  · trivial
  · refine only_encrypt sodium (fun _ => rfl) _ _ _ fun ciphertext => ?_
    cases ciphertext with
    | none => trivial
    | some ciphertext =>
        refine only_perform rfl fun _ => only_memberAddress (fun _ => rfl) m fun address => ?_
        split
        · trivial
        · refine only_send rfl fun result => ?_
          split
          · exact ⟨rfl, fun _ => trivial⟩
          · trivial

theorem deleteAtMember_within (messageId groupId : Str) (m : GroupMember) :
    (deleteAtMember keys messageId groupId m).Only (within [.messages, .rows, .peers, .devices]) := by
  unfold deleteAtMember
  split
  · trivial
  · refine only_memberAddress (fun _ => rfl) m fun address => ?_
    split
    · trivial
    · refine only_send rfl fun result => ?_
      split
      · exact ⟨rfl, fun _ => trivial⟩
      · trivial

theorem groupEdit_within (req : HttpRequest) (group : PathId) :
    (groupEdit sodium keys req group).Only (within [.messages, .rows, .peers, .devices]) := by
  refine only_authed sodium (fun _ => rfl) req _ ?_
  repeat' split
  all_goals first
    | trivial
    | refine only_perform rfl fun found => ?_
  cases found with
  | none => trivial
  | some msg =>
      dsimp only
      split
      · trivial
      · split
        · trivial
        · refine only_perform rfl fun members => ?_
          split
          · trivial
          · refine only_perform rfl fun _ => Program.only_bind
              (Program.only_forM (editAtMember_within sodium keys _ _ _ _) _) fun _ => ?_
            exact ⟨rfl, fun _ => trivial⟩

theorem groupDelete_within (req : HttpRequest) (group : PathId) :
    (groupDelete sodium keys req group).Only (within [.messages, .rows, .peers, .devices]) := by
  refine only_authed sodium (fun _ => rfl) req _ ?_
  repeat' split
  all_goals first
    | trivial
    | refine only_perform rfl fun found => ?_
  cases found with
  | none => trivial
  | some msg =>
      dsimp only
      split
      · trivial
      · split
        · trivial
        · refine Program.only_bind ⟨rfl, fun _ => trivial⟩ fun _ => ?_
          refine Program.only_bind ⟨rfl, fun _ => trivial⟩ fun _ => only_perform rfl fun _ => ?_
          refine Program.only_bind
            (Program.only_forM (deleteAtMember_within keys _ _) _) fun _ => ?_
          exact ⟨rfl, fun _ => trivial⟩

theorem acceptMessage_within (body : Option Json) :
    (acceptMessage sodium keys body).Only (within [.messages, .devices, .deliveries]) := by
  unfold acceptMessage
  repeat' split
  all_goals first
    | trivial
    | refine only_perform rfl fun (added : Bool) => ?_
  cases added with
  | false => trivial
  | true => exact ⟨rfl, fun _ => trivial⟩

theorem acceptEdit_within (body : Option Json) :
    (acceptEdit sodium keys body).Only (within [.messages, .rows, .devices]) := by
  unfold acceptEdit
  repeat' split
  all_goals first
    | trivial
    | refine only_perform rfl fun found => ?_
  all_goals
    cases found with
    | none => trivial
    | some msg =>
        first
          | trivial
          | refine only_perform rfl fun (updated : Bool) => ?_
            cases updated with
            | false => trivial
            | true => exact ⟨rfl, fun _ => ⟨rfl, fun _ => trivial⟩⟩

theorem acceptDelete_within (body : Option Json) :
    (acceptDelete keys body).Only (within [.messages, .rows, .devices]) := by
  unfold acceptDelete
  repeat' split
  all_goals first
    | trivial
    | refine only_perform rfl fun found => ?_
  cases found with
  | none => trivial
  | some msg =>
      dsimp only
      split
      · trivial
      · exact ⟨rfl, fun _ => ⟨rfl, fun _ => trivial⟩⟩

/-! The routes about groups and the worker. -/

theorem groupsCreate_within (req : HttpRequest) :
    (groupsCreate sodium keys req).Only (within [.groups, .groupMembers]) := by
  refine Program.only_mono (fun operation founding => ?_) _ (groupsCreate_founds sodium keys req)
  cases operation with
  | inl operation =>
      cases operation with
      | call call => cases call <;> first | rfl | cases founding
      | _ => first | rfl | cases founding
  | inr request => cases founding

theorem deliverGroupUpdate_within {used : List Resource}
    (updates : Resource.groupUpdates ∈ used) (peers : Resource.peers ∈ used)
    (groupId senderId : Str) (members : List GroupMember) (version : Int) :
    (deliverGroupUpdate groupId senderId members version).Only (within used) := by
  apply only_perform rfl
  intro grp
  apply Program.only_foldlM
  have reached : ∀ operation resource, resource ∈ used → touches operation = [resource] →
      within used operation = true := by
    intro operation resource among only
    rw [within_iff, only]
    simpa using among
  exact pushGroupUpdate_only (fun _ => reached _ _ updates rfl) (fun _ _ => reached _ _ updates rfl)
    (fun _ _ => reached _ _ peers rfl) _ _ _ _

theorem withMember_only {permits : nodeSig.Op → Bool} (clock : permits (.inl .time) = true)
    (groupId memberId serverAddress : Str) (existing : List GroupMember) :
    (withMember groupId memberId serverAddress existing).Only permits := by
  unfold withMember
  split
  · trivial
  · exact ⟨clock, fun _ => trivial⟩

theorem addMember_within (req : HttpRequest) (group : PathId) :
    (addMember sodium keys req group).Only
      (within [.groupMembers, .groupUpdates, .peers]) := by
  refine only_authed sodium (fun _ => rfl) req _ ?_
  repeat' split
  all_goals first
    | trivial
    | refine only_perform rfl fun stored =>
        Program.only_bind (withMember_only rfl _ _ _ _) fun members => ?_
  refine only_perform rfl fun (replaced : Bool) => ?_
  cases replaced with
  | false => trivial
  | true =>
      refine only_perform rfl fun version => ?_
      exact Program.only_bind
        (deliverGroupUpdate_within (by decide) (by decide) _ _ _ _) fun _ => trivial

theorem removeMember_within (req : HttpRequest) (group : PathId) :
    (removeMember sodium keys req group).Only
      (within [.groups, .groupMembers, .groupUpdates, .peers]) := by
  refine Program.only_mono (fun operation edits => ?_) _ (removeMember_edits sodium keys req group)
  cases operation with
  | inl operation =>
      cases operation with
      | call call => cases call <;> first | rfl | cases edits
      | _ => first | rfl | cases edits
  | inr request => rfl

theorem acceptGroupUpdate_within (body : Option Json) :
    (acceptGroupUpdate body).Only (within [.groups, .groupMembers]) := by
  have recorded : ∀ groupId senderId groupName,
      (recordGroup groupId senderId groupName).Only (within [.groups, .groupMembers]) := by
    intro groupId senderId groupName
    refine only_perform rfl fun found => ?_
    cases found with
    | none => exact ⟨rfl, fun _ => ⟨rfl, fun _ => trivial⟩⟩
    | some g =>
        dsimp only
        split
        · exact ⟨rfl, fun _ => trivial⟩
        · trivial
  have read : ∀ groupId members e,
      (readMember groupId members e).Only (within [.groups, .groupMembers]) := by
    intro groupId members e
    unfold readMember
    repeat' split
    all_goals first
      | trivial
      | exact ⟨rfl, fun _ => trivial⟩
  unfold acceptGroupUpdate
  repeat' split
  all_goals first
    | trivial
    | refine Program.only_bind (recorded _ _ _) fun _ => ?_
  · refine Program.only_bind (Program.only_foldlM (read _) _ _) fun members => ?_
    cases members with
    | none => trivial
    | some members =>
        refine only_perform rfl fun (replaced : Bool) => ?_
        cases replaced <;> trivial
  · trivial

/-- All that the worker does. -/
def works : nodeSig.Op → Bool
  | .inl (.call (.getMessages .pendingMessages)) | .inl (.call (.getMessages .pendingEdits))
  | .inl (.call (.getMessages .pendingDeletes)) | .inl (.call .getPendingGroupUpdates)
  | .inl (.call (.getContactAddress _)) | .inl (.call (.markGroupUpdateAccepted ..))
  | .inl .time => true
  | .inl (.call (.updateMessages _ _ mark)) =>
      match mark with
      | .accepted | .failed | .deleteAccepted | .deleteFailed | .editAccepted | .editFailed => true
      | .deleted | .deletePending | .edit .. => false
  | .inr request => request.endpoint ≠ .publicKey
  | _ => false

/-- A failed retry is given up in a last write, if at all. -/
theorem late_only {permits : nodeSig.Op → Bool} {retry : Proc Bool} {late : Prop} [Decidable late]
    {mark : Proc Unit} (retries : retry.Only permits) (marks : mark.Only permits) :
    (do if !(← retry) then if late then mark : Proc Unit).Only permits := by
  refine Program.only_bind retries fun done => ?_
  cases done with
  | true => trivial
  | false =>
      simp only [Bool.not_false, if_true]
      split
      · exact marks
      · trivial

theorem retryPass_works : retryPass.Only works := by
  refine only_perform rfl fun messages => only_perform rfl fun edits => ?_
  refine only_perform rfl fun updates => Program.only_bind (Program.only_forM ?_ _) fun _ => ?_
  · intro u
    exact Program.only_bind (toContact_only rfl (fun _ => rfl) ⟨rfl, fun _ => trivial⟩)
      fun _ => trivial
  · refine only_perform rfl fun deletes => only_perform rfl fun currentTime => ?_
    refine Program.only_bind (Program.only_forM ?_ _) fun _ =>
      Program.only_bind (Program.only_forM ?_ _) fun _ => Program.only_forM ?_ _
    all_goals
      intro msg
      exact late_only (toContact_only rfl (fun _ => rfl) ⟨rfl, fun _ => trivial⟩)
        ⟨rfl, fun _ => trivial⟩

theorem works_within {operation : nodeSig.Op} (working : works operation = true) :
    within [.messages, .rows, .groupUpdates, .peers, .verdicts, .deliveries] operation = true := by
  cases operation using operation_cases with
  | call db =>
      cases db with
      | getMessages query => cases query <;> rfl
      | updateMessages messageId only mark => cases mark <;> rfl
      | _ => first | rfl | cases working
  | notify payload => cases working
  | _ => rfl

theorem retryPass_within :
    retryPass.Only (within [.messages, .rows, .groupUpdates, .peers, .verdicts, .deliveries]) :=
  Program.only_mono (fun _ => works_within) _ retryPass_works

end Routes

section Runs
variable {Host : Type} (network : Deployment Host)

theorem serve_within (host : Host) (request : Request) :
    (network.serve host request).Only (within (served request.endpoint)) := by
  obtain ⟨serverAddress, endpoint, body⟩ := request
  cases endpoint with
  | acceptMessage => exact acceptMessage_within _ _ (some body)
  | acceptEdit => exact acceptEdit_within _ _ (some body)
  | acceptDelete => exact acceptDelete_within _ (some body)
  | acceptGroupUpdate => exact acceptGroupUpdate_within (some body)
  | publicKey => trivial

theorem program_within (host : Host) (task : Task) :
    (network.program host task).Only (within (uses task)) := by
  cases task with
  | upsertContact req => exact upsertContact_within _ req
  | sendMessage req => exact sendDirect_within _ _ req
  | editMessage req => exact editDirect_within _ _ req
  | deleteMessage req => exact deleteDirect_within _ _ req
  | contacts req => exact contacts_within _ _ req
  | messages req contactId => exact messages_within _ _ req contactId
  | groupsCreate req => exact groupsCreate_within _ _ req
  | addMember req group => exact addMember_within _ _ req group
  | removeMember req group => exact removeMember_within _ _ req group
  | groups req => exact groups_within _ req
  | groupMembers req group => exact groupMembers_within _ req group
  | groupSend req group => exact groupSend_within _ _ req group
  | groupMessages req group => exact groupMessages_within _ req group
  | groupEdit req group => exact groupEdit_within _ _ req group
  | groupDelete req group => exact groupDelete_within _ _ req group
  | remotePublicKey req addr => exact remotePublicKey_within _ req addr
  | publicKey => trivial
  | authRegister => exact authRegister_within _
  | authRequest req => exact authRequest_within _ req
  | authApprove req => exact authApprove_within _ req
  | authPoll requestId => exact authPoll_within requestId
  | clients req => exact clients_within _ req
  | deleteClient req clientId => exact deleteClient_within _ req clientId
  | incoming endpoint body =>
      cases endpoint with
      | acceptMessage => exact acceptMessage_within _ _ body
      | acceptEdit => exact acceptEdit_within _ _ body
      | acceptDelete => exact acceptDelete_within _ body
      | acceptGroupUpdate => exact acceptGroupUpdate_within body
      | publicKey => trivial
  | retryPass => exact Program.only_bind retryPass_within fun _ => trivial

/-- Neither the task that is started nor the request that arrives uses the resource. -/
def spares (resource : Resource) (world : World Host) : Action Host → Bool
  | .start _ task => !(uses task).contains resource
  | .deliver job _ =>
      match world.jobs[job]? with
      | some ⟨request, .flight⟩ => !(served request.endpoint).contains resource
      | _ => true
  | _ => true

def sparing (resource : Resource) : Discipline nodeSig where
  possible _ _ := True
  allowed _ operation := resource ∉ touches operation

theorem sparing_only {Value : Type} {program : Proc Value} {used : List Resource}
    {resource : Resource} (only : program.Only (within used)) (spared : resource ∉ used) :
    program.wp (sparing resource).contract (fun _ _ => True) [] :=
  Program.wp_of_only (fun _ _ inside => spared_of_within inside spared) program only []

theorem sparing_guaranteed (resource : Resource) (initial : Host → Store) :
    Rpc.Guaranteed network.system (fun _ _ _ => sparing resource)
      (fun _ _ _ _ _ => True) (fun host store => unchanged (initial host) store resource)
      (fun _ => resource ≠ .peers) (fun _ task => resource ∉ uses task)
      (fun _ request => resource ∉ served request.endpoint) where
  possible _ _ _ _ _ _ _ := trivial
  answers _ _ _ _ _ := trivial
  keeps _ _ _ _ input operation store spared same :=
    unchanged_trans same (handle_unchanged input operation store spared)
  posts _ _ _ _ _ spared := by
    rintro rfl
    exact spared List.mem_cons_self
  program host task spared := sparing_only (program_within network host task) spared
  serve host request _ spared _ := sparing_only (serve_within network host request) spared

theorem spares_admits {resource : Resource} {world : World Host} {label : Action Host}
    (spared : spares resource world label = true) :
    Rpc.Admits (fun _ task => resource ∉ uses task)
      (fun _ request => resource ∉ served request.endpoint) world label where
  starts host task := by
    rintro rfl
    simpa [spares] using spared
  delivers job host request := by
    rintro rfl flies
    simpa [spares, flies] using spared

variable [DecidableEq Host]

/-- What no started task and no request that arrived uses is as it was on every node, and no
thread has done anything that reaches it. Where that is the peers, nothing was ever sent. -/
theorem spared_untouched {resource : Resource} {initial : Host → Store} {world : World Host}
    (run : Rpc.Reachable network.system (spares resource · · = true) ⟨initial, [], []⟩ world) :
    (∀ host, unchanged (initial host) (world.stores host) resource) ∧
    (∀ thread ∈ world.threads, ∀ event ∈ thread.history, resource ∉ touches event.1) ∧
    (resource = .peers → world.jobs = []) := by
  have inOrder := Rpc.inOrder_run (sparing_guaranteed network resource initial)
    (fun _ _ spared => spares_admits spared) (fun host => unchanged_refl (initial host) resource) run
  refine ⟨inOrder.stores, fun thread member event happened => ?_, fun peers => ?_⟩
  · obtain ⟨later, earlier, split⟩ := List.append_of_mem happened
    have followed := inOrder.followed thread member
    rw [split] at followed
    exact followed.past.1
  · exact List.eq_nil_iff_forall_not_mem.mpr fun job member => inOrder.jobs job member peers

/-- A message is sent, delivered and acknowledged, and no list of devices changed. -/
theorem greeting_spares_clients : ∃ world : World Bool,
    (∃ row ∈ (world.stores true).messages.rows, row.accepted = 1) ∧
    ∀ host, (world.stores host).clients = (acquainted host).clients := by
  have ran : (Rpc.run pair.system (spares .clients) Delivery.greeting
      ⟨acquainted, [], []⟩).bind (fun world =>
        (world.stores true).messages.rows.find? (·.accepted = 1)) ≠ none := by
    decide +kernel
  obtain ⟨row, found⟩ := Option.ne_none_iff_exists'.mp ran
  obtain ⟨world, scheduled, accepted⟩ := Option.bind_eq_some_iff.mp found
  have untouched := spared_untouched pair
    (Rpc.run_reachable (fun _ _ spared => spared) Delivery.greeting scheduled)
  have isAccepted := List.find?_some accepted
  exact ⟨world, ⟨row, List.mem_of_find?_eq_some accepted, of_decide_eq_true isAccepted⟩,
    untouched.1⟩

end Runs
end NoMiddle.Effects
