import NoMiddle.Network

/-! Which routes touch what. A route that neither writes messages nor sends a
request about one needs no further look when messages are concerned, and likewise
for groups. -/
namespace NoMiddle.Footprint
open Library Text Crypto DbManager Node MessageDelivery RetryWorker Handlers GroupHandlers
open AuthHandlers Network

def messageFree : nodeSig.Op → Bool
  | .inl (.call (.addMessage _)) | .inl (.call (.updateMessages ..)) => false
  | .inr request => request.endpoint = .acceptGroupUpdate || request.endpoint = .publicKey
  | _ => true

/-- Free of messages and of requests altogether. -/
def silent : nodeSig.Op → Bool
  | .inr _ => false
  | operation => messageFree operation

def groupFree : nodeSig.Op → Bool
  | .inl (.call (.createGroup _)) | .inl (.call (.updateGroupName ..))
  | .inl (.call (.deleteGroup _)) | .inl (.call (.replaceGroupMembers ..))
  | .inl (.call (.upsertGroupUpdate _)) | .inl (.call (.markGroupUpdateAccepted ..)) => false
  | .inr request => request.endpoint ≠ .acceptGroupUpdate
  | _ => true

/-- Free of the lists of members, read or written. -/
def memberFree : nodeSig.Op → Bool
  | .inl (.call (.getGroupMembers _)) | .inl (.call (.replaceGroupMembers ..))
  | .inl (.call (.deleteGroup _)) => false
  | _ => true

/-- All that the founding of a group does. -/
def founds : nodeSig.Op → Bool
  | .inl (.call (.getClient _)) | .inl .dice | .inl .time | .inl (.call (.createGroup _))
  | .inl (.call (.replaceGroupMembers ..)) => true
  | _ => false

/-- All that an edit of a member list does. -/
def editsMembers : nodeSig.Op → Bool
  | .inl (.call (.getClient _)) | .inl (.call (.getGroupMembers _)) | .inl .time
  | .inl (.call (.replaceGroupMembers ..)) | .inl (.call (.deleteGroup _))
  | .inl (.call (.getGroup _)) | .inl (.call (.upsertGroupUpdate _))
  | .inl (.call (.markGroupUpdateAccepted ..)) => true
  | .inr request => request.endpoint = .acceptGroupUpdate
  | _ => false

def quiet (operation : nodeSig.Op) : Bool := messageFree operation && groupFree operation

variable {permits : nodeSig.Op → Bool} (sodium : Sodium) (keys : KeyPair)

theorem only_perform {operation : LocalOp} {Value : Type} {rest : operation.Res → Proc Value}
    (permitted : permits (.inl operation) = true) (only : ∀ answer, (rest answer).Only permits) :
    (perform operation >>= rest).Only permits := ⟨permitted, only⟩

theorem only_post {request : Request} {Value : Type} {rest : Option Response → Proc Value}
    (permitted : permits (.inr request) = true) (only : ∀ answer, (rest answer).Only permits) :
    (post request >>= rest).Only permits := ⟨permitted, only⟩

theorem only_authed (reads : ∀ clientId, permits (.inl (.call (.getClient clientId))) = true)
    (req : HttpRequest) (refused : Response) {rest : Proc Response} (only : rest.Only permits) :
    (do if !(← isAuthed sodium req) then return refused
        rest).Only permits := by
  have checked : (isAuthed sodium req).Only permits := by
    unfold isAuthed authenticate
    split
    · trivial
    · exact ⟨reads _, fun found => by cases found <;> trivial⟩
  refine Program.only_bind checked fun authed => ?_
  cases authed with
  | true => exact only
  | false => trivial

section Quiet

theorem upsertContact_quiet (req : HttpRequest) : (upsertContact sodium req).Only quiet := by
  refine only_authed sodium (fun _ => rfl) req _ ?_
  repeat' split
  all_goals first
    | trivial
    | exact ⟨rfl, fun stored => by cases stored <;> trivial⟩

theorem contacts_quiet (req : HttpRequest) : (Handlers.contacts sodium keys req).Only quiet :=
  only_authed sodium (fun _ => rfl) req _ ⟨rfl, fun _ => trivial⟩

theorem messages_quiet (req : HttpRequest) (contactId : Option Str) :
    (Handlers.messages sodium keys req contactId).Only quiet := by
  refine only_authed sodium (fun _ => rfl) req _ ?_
  cases contactId with
  | none => trivial
  | some contactId => exact ⟨rfl, fun _ => trivial⟩

theorem groups_quiet (req : HttpRequest) : (GroupHandlers.groups sodium req).Only quiet := by
  refine only_authed sodium (fun _ => rfl) req _ (only_perform rfl fun groups => ?_)
  refine Program.only_bind (Program.only_foldlM (fun arr g => ?_) groups []) fun _ => trivial
  refine only_perform rfl fun last => ?_
  cases last with
  | none => trivial
  | some last => exact ⟨rfl, fun _ => trivial⟩

theorem groupMembers_quiet (req : HttpRequest) (group : PathId) :
    (GroupHandlers.groupMembers sodium req group).Only quiet :=
  only_authed sodium (fun _ => rfl) req _ ⟨rfl, fun _ => trivial⟩

theorem groupMessages_quiet (req : HttpRequest) (group : PathId) :
    (groupMessages sodium req group).Only quiet := by
  refine only_authed sodium (fun _ => rfl) req _ (only_perform rfl fun messages => ?_)
  refine Program.only_bind (Program.only_foldlM (fun arr m => ?_) messages []) fun _ => trivial
  exact ⟨rfl, fun _ => trivial⟩

theorem fetchRemote_quiet (serverAddress : Str) :
    (fetchRemote serverAddress .publicKey).Only quiet := by
  refine only_post rfl fun answer => ?_
  cases answer with
  | none => trivial
  | some answer =>
      dsimp only
      split <;> trivial

theorem remotePublicKey_quiet (req : HttpRequest) (addr : Option Str) :
    (remotePublicKey sodium req addr).Only quiet := by
  refine only_authed sodium (fun _ => rfl) req _ ?_
  cases addr with
  | none => trivial
  | some serverAddress =>
      dsimp only
      split
      · trivial
      · refine Program.only_bind (fetchRemote_quiet _) fun body => ?_
        cases body <;> trivial

theorem newClient_quiet (deviceName : Str) (now : Int) :
    (newClient sodium deviceName now).Only quiet :=
  ⟨rfl, fun _ => ⟨rfl, fun _ => ⟨rfl, fun _ => ⟨rfl, fun _ => trivial⟩⟩⟩⟩

theorem authRegister_quiet : (authRegister sodium).Only quiet := by
  refine only_perform rfl fun (locked : Bool) => ?_
  cases locked with
  | true => trivial
  | false =>
      refine only_perform rfl fun now => Program.only_bind (newClient_quiet sodium [] now) ?_
      rintro ⟨clientId, secret, created⟩
      cases created <;> trivial

theorem authRequest_quiet (req : HttpRequest) : (authRequest sodium req).Only quiet := by
  unfold authRequest
  split
  · refine only_perform rfl fun now => only_perform rfl fun (clients : Bool) => ?_
    cases clients with
    | true =>
        refine ⟨rfl, fun _ => only_perform rfl fun (added : Bool) => ?_⟩
        cases added
        · trivial
        · exact ⟨rfl, fun _ => trivial⟩
    | false =>
        refine Program.only_bind (newClient_quiet sodium _ now) ?_
        rintro ⟨clientId, secret, created⟩
        cases created <;> trivial
  · trivial

theorem authApprove_quiet (req : HttpRequest) : (authApprove sodium req).Only quiet := by
  refine only_authed sodium (fun _ => rfl) req _ ?_
  split
  · split
    · split
      · trivial
      · split
        · split
          · trivial
          · refine only_perform rfl fun row => ?_
            cases row with
            | none => trivial
            | some row =>
                refine only_perform rfl fun now => ?_
                dsimp only
                split
                · exact ⟨rfl, fun _ => trivial⟩
                · split
                  · trivial
                  · split
                    · exact ⟨rfl, fun _ => trivial⟩
                    · refine Program.only_bind (newClient_quiet sodium _ now) ?_
                      rintro ⟨clientId, secret, created⟩
                      cases created with
                      | false => trivial
                      | true =>
                          refine only_perform rfl fun (approved : Bool) => ?_
                          cases approved
                          · exact ⟨rfl, fun _ => trivial⟩
                          · trivial
        · trivial
    · trivial
  · trivial

theorem authPoll_quiet (requestId : Option Str) : (authPoll requestId).Only quiet := by
  cases requestId with
  | none => trivial
  | some requestId =>
      refine only_perform rfl fun row => ?_
      cases row with
      | none => trivial
      | some row =>
          refine only_perform rfl fun now => ?_
          repeat' split
          all_goals first
            | trivial
            | exact ⟨rfl, fun _ => trivial⟩

theorem clients_quiet (req : HttpRequest) : (AuthHandlers.clients sodium req).Only quiet :=
  only_authed sodium (fun _ => rfl) req _ ⟨rfl, fun _ => trivial⟩

theorem deleteClient_quiet (req : HttpRequest) (clientId : Str) :
    (AuthHandlers.deleteClient sodium req clientId).Only quiet := by
  refine only_authed sodium (fun _ => rfl) req _ ?_
  split
  · trivial
  · exact ⟨rfl, fun deleted => by cases deleted <;> trivial⟩

end Quiet

section MessageFree

theorem groupsCreate_founds (req : HttpRequest) :
    (groupsCreate sodium keys req).Only founds := by
  refine only_authed sodium (fun _ => rfl) req _ ?_
  split
  · split
    · split
      · trivial
      · refine only_perform rfl fun dice => ?_
        split
        · refine only_perform rfl fun _ => only_perform rfl fun (created : Bool) => ?_
          cases created with
          | false => trivial
          | true =>
              refine only_perform rfl fun _ => only_perform rfl fun (replaced : Bool) => ?_
              cases replaced <;> trivial
        · trivial
    · trivial
  · trivial

theorem founds_messageFree (operation : nodeSig.Op) (founding : founds operation = true) :
    messageFree operation = true := by
  cases operation with
  | inl operation =>
      cases operation with
      | call call => cases call <;> first | rfl | cases founding
      | _ => rfl
  | inr request => cases founding

theorem groupsCreate_messageFree (req : HttpRequest) :
    (groupsCreate sodium keys req).Only messageFree :=
  Program.only_mono founds_messageFree _ (groupsCreate_founds sodium keys req)

theorem pushGroupUpdate_only
    (upserts : ∀ u, permits (.inl (.call (.upsertGroupUpdate u))) = true)
    (marks : ∀ groupId memberId,
      permits (.inl (.call (.markGroupUpdateAccepted groupId memberId))) = true)
    (posts : ∀ serverAddress body, permits (.inr ⟨serverAddress, .acceptGroupUpdate, body⟩) = true)
    (groupId senderId : Str) (version : Int) (snapshotJson : Json) (allOnline : Bool)
    (m : GroupMember) :
    (pushGroupUpdate groupId senderId version snapshotJson allOnline m).Only permits := by
  unfold pushGroupUpdate
  split
  · trivial
  · refine only_perform (upserts _) fun _ => ?_
    dsimp only
    split
    · trivial
    · refine only_post (posts _ _) fun answer => ?_
      change Program.Only permits (if delivered (answer.map (·.code)) then _ else _)
      split
      · exact ⟨marks _ _, fun _ => trivial⟩
      · trivial

theorem deliverGroupUpdate_memberFree (groupId senderId : Str) (members : List GroupMember)
    (version : Int) : (deliverGroupUpdate groupId senderId members version).Only memberFree := by
  apply only_perform rfl
  intro grp
  apply Program.only_foldlM
  apply pushGroupUpdate_only <;> intros <;> rfl

theorem deliverGroupUpdate_edits (groupId senderId : Str) (members : List GroupMember)
    (version : Int) :
    (deliverGroupUpdate groupId senderId members version).Only editsMembers := by
  apply only_perform rfl
  intro grp
  apply Program.only_foldlM
  apply pushGroupUpdate_only <;> intros <;> rfl

theorem addMember_edits (req : HttpRequest) (group : PathId) :
    (addMember sodium keys req group).Only editsMembers := by
  refine only_authed sodium (fun _ => rfl) req _ ?_
  split
  · split
    · split
      · trivial
      · split
        · split
          · refine only_perform rfl fun stored => Program.only_bind ?_ fun members => ?_
            · unfold withMember
              split
              · trivial
              · exact ⟨rfl, fun _ => trivial⟩
            · refine only_perform rfl fun (replaced : Bool) => ?_
              cases replaced with
              | false => trivial
              | true =>
                  refine only_perform rfl fun version => ?_
                  exact Program.only_bind (deliverGroupUpdate_edits _ _ _ _) fun _ => trivial
          · trivial
        · trivial
    · trivial
  · trivial

theorem removeMember_edits (req : HttpRequest) (group : PathId) :
    (removeMember sodium keys req group).Only editsMembers := by
  refine only_authed sodium (fun _ => rfl) req _ ?_
  split
  · split
    · split
      · trivial
      · split
        · refine only_perform rfl fun existing => ?_
          dsimp only
          split
          · trivial
          · refine only_perform rfl fun (replaced : Bool) => ?_
            cases replaced with
            | false => trivial
            | true =>
                refine only_perform rfl fun version => ?_
                refine Program.only_bind (deliverGroupUpdate_edits _ _ _ _) fun delivered => ?_
                split
                · exact ⟨rfl, fun _ => trivial⟩
                · trivial
        · trivial
    · trivial
  · trivial

theorem edits_messageFree (operation : nodeSig.Op) (edits : editsMembers operation = true) :
    messageFree operation = true := by
  cases operation with
  | inl operation =>
      cases operation with
      | call call => cases call <;> first | rfl | cases edits
      | _ => rfl
  | inr request =>
      unfold editsMembers at edits
      simp [messageFree, of_decide_eq_true edits]

theorem addMember_messageFree (req : HttpRequest) (group : PathId) :
    (addMember sodium keys req group).Only messageFree :=
  Program.only_mono edits_messageFree _ (addMember_edits sodium keys req group)

theorem removeMember_messageFree (req : HttpRequest) (group : PathId) :
    (removeMember sodium keys req group).Only messageFree :=
  Program.only_mono edits_messageFree _ (removeMember_edits sodium keys req group)

theorem recordGroup_silent (groupId senderId groupName : Str) :
    (recordGroup groupId senderId groupName).Only silent := by
  refine only_perform rfl fun found => ?_
  cases found with
  | none => exact ⟨rfl, fun _ => ⟨rfl, fun _ => trivial⟩⟩
  | some g =>
      dsimp only
      split
      · exact ⟨rfl, fun _ => trivial⟩
      · trivial

theorem readMember_silent (groupId : Str) (members : Option (List GroupMember)) (e : Json) :
    (readMember groupId members e).Only silent := by
  unfold readMember
  repeat' split
  all_goals first
    | trivial
    | exact ⟨rfl, fun _ => trivial⟩

theorem acceptGroupUpdate_silent (body : Option Json) :
    (acceptGroupUpdate body).Only silent := by
  unfold acceptGroupUpdate
  split
  · split
    · split
      · trivial
      · split
        · split
          · split
            · refine Program.only_bind (recordGroup_silent _ _ _) fun _ => ?_
              split
              · refine Program.only_bind
                  (Program.only_foldlM (readMember_silent _) _ _) fun members => ?_
                cases members with
                | none => trivial
                | some members =>
                    refine only_perform rfl fun (replaced : Bool) => ?_
                    cases replaced <;> trivial
              · trivial
            · trivial
          · trivial
        · trivial
    · trivial
  · trivial

end MessageFree

section GroupFree

theorem only_encrypt {permits : nodeSig.Op → Bool}
    (draws : ∀ size, permits (.inl (.randombytes size)) = true)
    (plaintext recipient sender : Str) {Value : Type} {rest : Option Str → Proc Value}
    (only : ∀ ciphertext, (rest ciphertext).Only permits) :
    (encrypt sodium plaintext recipient sender >>= rest).Only permits :=
  ⟨draws _, fun _ => only _⟩

theorem only_send {permits : nodeSig.Op → Bool} {serverAddress : Str} {endpoint : Endpoint}
    {body : Json} (permitted : permits (.inr ⟨serverAddress, endpoint, body⟩) = true)
    {Value : Type} {rest : Option Nat → Proc Value} (only : ∀ result, (rest result).Only permits) :
    (sendMessage serverAddress endpoint body >>= rest).Only permits :=
  ⟨permitted, fun _ => only _⟩

theorem deliverMessage_groupFree (senderId recipientId ciphertext plaintext : Str)
    (timestamp : Int) :
    (deliverMessage senderId recipientId ciphertext plaintext timestamp).Only groupFree := by
  refine only_perform rfl fun dice => only_perform rfl fun (added : Bool) => ?_
  cases added with
  | false => trivial
  | true =>
      refine only_perform rfl fun address => only_send rfl fun result => ?_
      split
      · exact ⟨rfl, fun _ => trivial⟩
      · trivial

theorem sendDirect_groupFree (req : HttpRequest) : (sendDirect sodium keys req).Only groupFree := by
  refine only_authed sodium (fun _ => rfl) req _ ?_
  repeat' split
  all_goals first
    | trivial
    | refine only_perform rfl fun _ => only_encrypt sodium (fun _ => rfl) _ _ _ fun ciphertext => ?_
  cases ciphertext with
  | none => trivial
  | some ciphertext =>
      refine Program.only_bind (deliverMessage_groupFree _ _ _ _ _) fun messageId => ?_
      cases messageId with
      | none => trivial
      | some messageId => exact ⟨rfl, fun _ => trivial⟩

theorem deliverMessageEdit_groupFree (messageId senderId recipientId ciphertext : Str)
    (editedAt : Int) :
    (deliverMessageEdit messageId senderId recipientId ciphertext editedAt).Only groupFree := by
  refine only_perform rfl fun address => ?_
  split
  · trivial
  · refine only_send rfl fun result => ?_
    dsimp only
    split
    · exact ⟨rfl, fun _ => trivial⟩
    · trivial

theorem editDirect_groupFree (req : HttpRequest) : (editDirect sodium keys req).Only groupFree := by
  refine only_authed sodium (fun _ => rfl) req _ ?_
  repeat' split
  all_goals first
    | trivial
    | refine only_perform rfl fun found => ?_
  cases found with
  | none => trivial
  | some msg =>
      dsimp only
      split
      · trivial
      · refine only_encrypt sodium (fun _ => rfl) _ _ _ fun ciphertext => ?_
        cases ciphertext with
        | none => trivial
        | some ciphertext =>
            refine only_perform rfl fun _ => only_perform rfl fun (updated : Bool) => ?_
            cases updated with
            | false => trivial
            | true =>
                refine Program.only_bind (deliverMessageEdit_groupFree _ _ _ _ _) fun _ => ?_
                exact ⟨rfl, fun _ => trivial⟩

theorem deliverMessageDelete_groupFree (messageId senderId recipientId : Str) :
    (deliverMessageDelete messageId senderId recipientId).Only groupFree := by
  refine only_perform rfl fun address => ?_
  split
  · trivial
  · refine only_send rfl fun result => ?_
    dsimp only
    split
    · exact ⟨rfl, fun _ => trivial⟩
    · trivial

theorem deleteDirect_groupFree (req : HttpRequest) :
    (deleteDirect sodium keys req).Only groupFree := by
  refine only_authed sodium (fun _ => rfl) req _ ?_
  repeat' split
  all_goals first
    | trivial
    | refine only_perform rfl fun found => ?_
  cases found with
  | none => trivial
  | some msg =>
      dsimp only
      split
      · trivial
      · refine Program.only_bind ⟨rfl, fun _ => trivial⟩ fun _ => ?_
        refine Program.only_bind ⟨rfl, fun _ => trivial⟩ fun _ => ?_
        refine Program.only_bind (deliverMessageDelete_groupFree _ _ _) fun _ => ?_
        exact ⟨rfl, fun _ => trivial⟩

theorem only_memberAddress {permits : nodeSig.Op → Bool}
    (reads : ∀ contactId, permits (.inl (.call (.getContactAddress contactId))) = true)
    (m : GroupMember) {Value : Type} {rest : Str → Proc Value}
    (only : ∀ address, (rest address).Only permits) : (memberAddress m >>= rest).Only permits := by
  refine Program.only_bind ?_ only
  unfold memberAddress
  dsimp only
  split
  · exact ⟨reads _, fun _ => trivial⟩
  · trivial

theorem sendToMember_groupFree (messageId groupId text : Str) (timestamp : Int) (allOnline : Bool)
    (m : GroupMember) :
    (sendToMember sodium keys messageId groupId text timestamp allOnline m).Only groupFree := by
  unfold sendToMember
  split
  · trivial
  · refine only_memberAddress (fun _ => rfl) m fun address => ?_
    refine only_encrypt sodium (fun _ => rfl) _ _ _ fun ciphertext => ?_
    cases ciphertext with
    | none => trivial
    | some ciphertext =>
        refine only_perform rfl fun accepted => only_perform rfl fun (added : Bool) => ?_
        cases added with
        | false => trivial
        | true =>
            simp only [Bool.not_true, Bool.false_eq_true, ↓reduceIte]
            split
            · trivial
            · refine only_send rfl fun result => ?_
              split
              · exact ⟨rfl, fun _ => trivial⟩
              · trivial

theorem groupSend_groupFree (req : HttpRequest) (group : PathId) :
    (groupSend sodium keys req group).Only groupFree := by
  refine only_authed sodium (fun _ => rfl) req _ ?_
  repeat' split
  all_goals first
    | trivial
    | refine only_perform rfl fun _ => only_perform rfl fun _ => only_perform rfl fun members => ?_
  split
  · trivial
  · exact Program.only_bind
      (Program.only_foldlM (sendToMember_groupFree sodium keys _ _ _ _) _ _) fun _ => trivial

theorem editAtMember_groupFree (messageId groupId plaintext : Str) (editedAt : Int)
    (m : GroupMember) :
    (editAtMember sodium keys messageId groupId plaintext editedAt m).Only groupFree := by
  unfold editAtMember
  split
  · trivial
  · refine only_encrypt sodium (fun _ => rfl) _ _ _ fun ciphertext => ?_
    cases ciphertext with
    | none => trivial
    | some ciphertext =>
        refine only_perform rfl fun _ => only_memberAddress (fun _ => rfl) m fun address => ?_
        split
        · trivial
        · refine only_send rfl fun result => ?_
          split
          · exact ⟨rfl, fun _ => trivial⟩
          · trivial

theorem groupEdit_groupFree (req : HttpRequest) (group : PathId) :
    (groupEdit sodium keys req group).Only groupFree := by
  refine only_authed sodium (fun _ => rfl) req _ ?_
  repeat' split
  all_goals first
    | trivial
    | refine only_perform rfl fun found => ?_
  cases found with
  | none => trivial
  | some msg =>
      dsimp only
      split
      · trivial
      · split
        · trivial
        · refine only_perform rfl fun members => ?_
          split
          · trivial
          · refine only_perform rfl fun _ => Program.only_bind
              (Program.only_forM (editAtMember_groupFree sodium keys _ _ _ _) _) fun _ => ?_
            exact ⟨rfl, fun _ => trivial⟩

theorem deleteAtMember_groupFree (messageId groupId : Str) (m : GroupMember) :
    (deleteAtMember keys messageId groupId m).Only groupFree := by
  unfold deleteAtMember
  split
  · trivial
  · refine only_memberAddress (fun _ => rfl) m fun address => ?_
    split
    · trivial
    · refine only_send rfl fun result => ?_
      split
      · exact ⟨rfl, fun _ => trivial⟩
      · trivial

theorem groupDelete_groupFree (req : HttpRequest) (group : PathId) :
    (groupDelete sodium keys req group).Only groupFree := by
  refine only_authed sodium (fun _ => rfl) req _ ?_
  repeat' split
  all_goals first
    | trivial
    | refine only_perform rfl fun found => ?_
  cases found with
  | none => trivial
  | some msg =>
      dsimp only
      split
      · trivial
      · split
        · trivial
        · refine Program.only_bind ⟨rfl, fun _ => trivial⟩ fun _ => ?_
          refine Program.only_bind ⟨rfl, fun _ => trivial⟩ fun _ => ?_
          refine only_perform rfl fun members => ?_
          refine Program.only_bind
            (Program.only_forM (deleteAtMember_groupFree keys _ _) _) fun _ => ?_
          exact ⟨rfl, fun _ => trivial⟩

/-- A retry asks for the contact's address, sends and marks what was delivered. -/
theorem only_retry {endpoint : Endpoint} {body : Json} {mark : Proc Unit}
    (other : endpoint ≠ .acceptGroupUpdate) (marks : mark.Only groupFree) (recipientId : Str) :
    (do
      let serverAddress ← call (.getContactAddress recipientId)
      if serverAddress.isEmpty then return false
      let result ← sendMessage (cutServerAddress serverAddress) endpoint body
      if delivered result then mark
      return delivered result : Proc Bool).Only groupFree := by
  refine only_perform rfl fun address => ?_
  split
  · trivial
  · refine only_send (decide_eq_true other) fun result => ?_
    dsimp only
    split
    · exact Program.only_bind marks fun _ => trivial
    · trivial

/-- A failed retry is given up in a last write, if at all. -/
theorem only_overdue {retry : Proc Bool} {overdue : Prop} [Decidable overdue] {giveUp : Proc Unit}
    (retries : retry.Only groupFree) (gives : giveUp.Only groupFree) :
    (do
      if !(← retry) then
        if overdue then
          giveUp : Proc Unit).Only groupFree := by
  refine Program.only_bind retries fun delivered => ?_
  repeat' split
  all_goals first
    | exact gives
    | trivial

theorem retryPendingMessage_groupFree (currentTime : Int) (msg : Message) :
    (retryPendingMessage currentTime msg).Only groupFree := by
  refine only_overdue (only_retry (by decide) ?_ _) ?_ <;> exact ⟨rfl, fun _ => trivial⟩

theorem retryPendingEdit_groupFree (currentTime : Int) (msg : Message) :
    (retryPendingEdit currentTime msg).Only groupFree := by
  refine only_overdue (only_retry (by decide) ?_ _) ?_ <;> exact ⟨rfl, fun _ => trivial⟩

theorem retryPendingDelete_groupFree (currentTime : Int) (msg : Message) :
    (retryPendingDelete currentTime msg).Only groupFree := by
  refine only_overdue (only_retry (by decide) ?_ _) ?_ <;> exact ⟨rfl, fun _ => trivial⟩

theorem acceptMessage_groupFree (body : Option Json) :
    (acceptMessage sodium keys body).Only groupFree := by
  unfold acceptMessage
  repeat' split
  all_goals first
    | trivial
    | refine only_perform rfl fun (added : Bool) => ?_
  cases added with
  | false => trivial
  | true => exact ⟨rfl, fun _ => trivial⟩

theorem acceptEdit_groupFree (body : Option Json) :
    (acceptEdit sodium keys body).Only groupFree := by
  unfold acceptEdit
  repeat' split
  all_goals first
    | trivial
    | refine only_perform rfl fun found => ?_
  all_goals cases found with
  | none => trivial
  | some msg =>
      first
        | trivial
        | refine only_perform rfl fun (updated : Bool) => ?_
          cases updated with
          | false => trivial
          | true => exact ⟨rfl, fun _ => ⟨rfl, fun _ => trivial⟩⟩

theorem acceptDelete_groupFree (body : Option Json) :
    (acceptDelete keys body).Only groupFree := by
  unfold acceptDelete
  repeat' split
  all_goals first
    | trivial
    | refine only_perform rfl fun found => ?_
  cases found with
  | none => trivial
  | some msg =>
      dsimp only
      split
      · trivial
      · exact ⟨rfl, fun _ => ⟨rfl, fun _ => trivial⟩⟩

end GroupFree

/-! The routes by what they touch. -/
section Tasks
variable {Host : Type} (network : Deployment Host) (host : Host)

def aboutMessages : Task → Bool
  | .sendMessage _ | .editMessage _ | .deleteMessage _ | .groupSend .. | .groupEdit ..
  | .groupDelete .. | .incoming .. | .retryPass => true
  | _ => false

def aboutGroups : Task → Bool
  | .groupsCreate _ | .addMember .. | .removeMember .. | .incoming .. | .retryPass => true
  | _ => false

theorem quiet_messageFree (operation : nodeSig.Op) (still : quiet operation = true) :
    messageFree operation = true := (Bool.and_eq_true_iff.mp still).1

theorem quiet_groupFree (operation : nodeSig.Op) (still : quiet operation = true) :
    groupFree operation = true := (Bool.and_eq_true_iff.mp still).2

theorem program_quiet (task : Task) (messages : aboutMessages task = false)
    (groups : aboutGroups task = false) : (network.program host task).Only quiet := by
  cases task with
  | upsertContact req => exact upsertContact_quiet _ req
  | contacts req => exact contacts_quiet _ _ req
  | messages req contactId => exact messages_quiet _ _ req contactId
  | groups req => exact groups_quiet _ req
  | groupMembers req group => exact groupMembers_quiet _ req group
  | groupMessages req group => exact groupMessages_quiet _ req group
  | remotePublicKey req addr => exact remotePublicKey_quiet _ req addr
  | publicKey => trivial
  | authRegister => exact authRegister_quiet _
  | authRequest req => exact authRequest_quiet _ req
  | authApprove req => exact authApprove_quiet _ req
  | authPoll requestId => exact authPoll_quiet requestId
  | clients req => exact clients_quiet _ req
  | deleteClient req clientId => exact deleteClient_quiet _ req clientId
  | sendMessage _ | editMessage _ | deleteMessage _ | groupSend | groupEdit | groupDelete
  | incoming | retryPass => cases messages
  | groupsCreate | addMember | removeMember => cases groups

theorem program_messageFree (task : Task) (messages : aboutMessages task = false) :
    (network.program host task).Only messageFree := by
  cases groups : aboutGroups task with
  | false =>
      exact Program.only_mono quiet_messageFree _ (program_quiet network host task messages groups)
  | true =>
      cases task with
      | groupsCreate req => exact groupsCreate_messageFree _ _ req
      | addMember req group => exact addMember_messageFree _ _ req group
      | removeMember req group => exact removeMember_messageFree _ _ req group
      | incoming | retryPass => cases messages
      | _ => cases groups

theorem program_groupFree (task : Task) (groups : aboutGroups task = false) :
    (network.program host task).Only groupFree := by
  cases messages : aboutMessages task with
  | false =>
      exact Program.only_mono quiet_groupFree _ (program_quiet network host task messages groups)
  | true =>
      cases task with
      | sendMessage req => exact sendDirect_groupFree _ _ req
      | editMessage req => exact editDirect_groupFree _ _ req
      | deleteMessage req => exact deleteDirect_groupFree _ _ req
      | groupSend req group => exact groupSend_groupFree _ _ req group
      | groupEdit req group => exact groupEdit_groupFree _ _ req group
      | groupDelete req group => exact groupDelete_groupFree _ _ req group
      | incoming | retryPass => cases groups
      | _ => cases messages

end Tasks
end NoMiddle.Footprint
