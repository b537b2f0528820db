import NoMiddle.FanOut
import NoMiddle.GroupMembership

/-! Where the first attempt for an item goes and where the worker's attempt goes. A
direct delivery looks its recipient up among the contacts, and so does every retry; a
group's delivery takes the address its member list has. -/
namespace NoMiddle.Targets
open Library Text Crypto DbManager DbViews Node MessageDelivery RetryWorker Handlers GroupHandlers
open Network Solo
open FanOut (addressOf)

/-- The things a node delivers, with what their first attempt is given. -/
inductive Item where
  | message (recipientId ciphertext plaintext : Str) (timestamp : Int)
  | edit (messageId recipientId ciphertext : Str) (editedAt : Int)
  | delete (messageId recipientId : Str)
  | groupMessage (messageId groupId text : Str) (timestamp : Int) (m : GroupMember)
  | groupEdit (messageId groupId plaintext : Str) (editedAt : Int) (m : GroupMember)
  | groupDelete (messageId groupId : Str) (m : GroupMember)
  | groupUpdate (groupId : Str) (version : Int) (snapshotJson : Json) (m : GroupMember)

namespace Item

/-- The first attempt. For a group it is the turn of its loop. -/
def deliver (sodium : Sodium) (keys : KeyPair) : Item → Proc Unit
  | message recipientId ciphertext plaintext timestamp => do
      let _ ← deliverMessage keys.publicKeyB64 recipientId ciphertext plaintext timestamp
  | edit messageId recipientId ciphertext editedAt => do
      let _ ← deliverMessageEdit messageId keys.publicKeyB64 recipientId ciphertext editedAt
  | delete messageId recipientId => do
      let _ ← deliverMessageDelete messageId keys.publicKeyB64 recipientId
  | groupMessage messageId groupId text timestamp m => do
      let _ ← sendToMember sodium keys messageId groupId text timestamp true m
  | groupEdit messageId groupId plaintext editedAt m =>
      editAtMember sodium keys messageId groupId plaintext editedAt m
  | groupDelete messageId groupId m => deleteAtMember keys messageId groupId m
  | groupUpdate groupId version snapshotJson m => do
      let _ ← pushGroupUpdate groupId keys.publicKeyB64 version snapshotJson true m

/-- Whom the item is for. -/
def party : Item → Str
  | message recipientId .. | edit _ recipientId .. | delete _ recipientId => recipientId
  | groupMessage _ _ _ _ m | groupEdit _ _ _ _ m | groupDelete _ _ m | groupUpdate _ _ _ m =>
      m.memberId

def endpoint : Item → Endpoint
  | message .. | groupMessage .. => .acceptMessage
  | edit .. | groupEdit .. => .acceptEdit
  | delete .. | groupDelete .. => .acceptDelete
  | groupUpdate .. => .acceptGroupUpdate

end Item

/-- The item is pending after its first attempt, and this is the worker's turn for it. -/
inductive Pends (keys : KeyPair) (before after : Store) : Item → Proc Unit → Prop where
  | message {recipientId ciphertext plaintext timestamp row} (currentTime : Int)
      (pending : row ∈ Query.pendingMessages.rows after.messages)
      (new : before.messages.find row.messageId ≠ some row)
      (party : row.recipientId = cstr recipientId) :
      Pends keys before after (.message recipientId ciphertext plaintext timestamp)
        (retryPendingMessage currentTime row)
  | edit {messageId recipientId ciphertext editedAt row} (currentTime : Int)
      (pending : row ∈ Query.pendingEdits.rows after.messages)
      (named : row.messageId = cstr messageId) (party : row.recipientId = cstr recipientId) :
      Pends keys before after (.edit messageId recipientId ciphertext editedAt)
        (retryPendingEdit currentTime row)
  | delete {messageId recipientId row} (currentTime : Int)
      (pending : row ∈ Query.pendingDeletes.rows after.messages)
      (named : row.messageId = cstr messageId) (party : row.recipientId = cstr recipientId) :
      Pends keys before after (.delete messageId recipientId) (retryPendingDelete currentTime row)
  | groupMessage {messageId groupId text timestamp m row} (currentTime : Int)
      (pending : row ∈ Query.pendingMessages.rows after.messages)
      (new : before.messages.find row.messageId ≠ some row)
      (other : m.memberId ≠ keys.publicKeyB64) (party : row.recipientId = cstr m.memberId) :
      Pends keys before after (.groupMessage messageId groupId text timestamp m)
        (retryPendingMessage currentTime row)
  | groupEdit {messageId groupId plaintext editedAt m row} (currentTime : Int)
      (pending : row ∈ Query.pendingEdits.rows after.messages)
      (new : before.messages.find row.messageId ≠ some row)
      (named : row.messageId = cstr messageId)
      (other : m.memberId ≠ keys.publicKeyB64) (party : row.recipientId = cstr m.memberId) :
      Pends keys before after (.groupEdit messageId groupId plaintext editedAt m)
        (retryPendingEdit currentTime row)
  | groupDelete {messageId groupId m row} (currentTime : Int)
      (pending : row ∈ Query.pendingDeletes.rows after.messages)
      (named : row.messageId = cstr messageId)
      (other : m.memberId ≠ keys.publicKeyB64) (party : row.recipientId = cstr m.memberId) :
      Pends keys before after (.groupDelete messageId groupId m)
        (retryPendingDelete currentTime row)
  | groupUpdate {groupId version snapshotJson m u}
      (pending : u ∈ pendingGroupUpdates after.groupUpdates)
      (named : u.groupId = cstr groupId)
      (other : m.memberId ≠ keys.publicKeyB64) (party : u.memberId = cstr m.memberId) :
      Pends keys before after (.groupUpdate groupId version snapshotJson m)
        (retryPendingGroupUpdate u)

def contactAddress (store : Store) (contactId : Str) : Str :=
  ((Call.getContactAddress contactId).exec 0 store).1

/-- The URLs of the requests, without what all of them share. -/
def targets (sent : List (Request × Option Response)) : List (Str × Endpoint) :=
  sent.map fun exchange => (exchange.1.serverAddress, exchange.1.endpoint)

/-- The two attempts aim at the same URL or both refuse, as the addresses are. -/
def Agrees (store : Store) : Item → Prop
  | .message recipientId .. => contactAddress store recipientId ≠ []
  | .edit .. | .delete .. => True
  | .groupMessage _ _ _ _ m | .groupEdit _ _ _ _ m | .groupDelete _ _ m =>
      if cutServerAddress m.serverAddress = [] then
        contactAddress store m.memberId = [] ∨
          cutServerAddress (contactAddress store m.memberId) ≠ []
      else cutServerAddress (contactAddress store m.memberId) = cutServerAddress m.serverAddress
  | .groupUpdate _ _ _ m =>
      if cutServerAddress m.serverAddress = [] then contactAddress store m.memberId = []
      else cutServerAddress (contactAddress store m.memberId) = cutServerAddress m.serverAddress

/-- A request to the contact's address, if there is one. -/
def toContact (store : Store) (contactId : Str) (endpoint : Endpoint) : List (Str × Endpoint) :=
  if (contactAddress store contactId).isEmpty then []
  else [(cutServerAddress (contactAddress store contactId), endpoint)]

/-- A request to this address, if there is one. -/
def toAddress (address : Str) (endpoint : Endpoint) : List (Str × Endpoint) :=
  if address.isEmpty then [] else [(address, endpoint)]

/-- The program sends what is said, beyond what was sent before. -/
def Sends {Value : Type} (program : Proc Value) (desk : Desk) (sent : List (Str × Endpoint)) : Prop :=
  program.wp contract (fun _ after => targets after.sent = targets desk.sent ++ sent ∧
    after.store.contacts = desk.store.contacts) desk

theorem targets_append (sent : List (Request × Option Response)) (request : Request)
    (answer : Option Response) : targets (sent ++ [(request, answer)]) =
      targets sent ++ [(request.serverAddress, request.endpoint)] := by
  simp [targets]

/-- A statement that neither sends nor touches the contacts. -/
def Silent (mark : Proc Unit) : Prop := ∀ desk, Sends mark desk []

theorem silent_call {db : Call} (same : ∀ now store, (db.exec now store).2.contacts = store.contacts) :
    Silent (do let _ ← call db) := by
  rintro desk _ _ ⟨drawn, ⟨⟩⟩
  exact ⟨(List.append_nil _).symm, same _ _⟩

theorem silent_mark (messageId : Str) (only : Option Str) (mark : Mark) :
    Silent (do let _ ← call (.updateMessages messageId only mark)) :=
  silent_call fun _ _ => rfl

/-- One request and the statement that follows a 200. -/
theorem sends_marking {serverAddress : Str} {endpoint : Endpoint} {body : Json}
    {mark : Proc Unit} (silent : Silent mark) (desk : Desk) :
    Sends (do
      let result ← sendMessage serverAddress endpoint body
      if delivered result then mark
      return delivered result) desk [(serverAddress, endpoint)] := by
  apply wp_send
  intro answer
  dsimp only
  split
  · refine Program.wp_seq monotone _ _ _ (silent _) fun _ after same => ?_
    rw [List.append_nil] at same
    exact ⟨same.1.trans (targets_append _ _ _), same.2⟩
  · exact ⟨targets_append _ _ _, rfl⟩

/-- The one program that all retries and two of the first attempts are. -/
theorem sends_toContact {contactId : Str} {endpoint : Endpoint} {body : Json}
    {mark : Proc Unit} (silent : Silent mark) (desk : Desk) :
    Sends (do
      let serverAddress ← call (.getContactAddress contactId)
      if serverAddress.isEmpty then return false
      let result ← sendMessage (cutServerAddress serverAddress) endpoint body
      if delivered result then mark
      return delivered result) desk (toContact desk.store contactId endpoint) := by
  apply wp_call
  intro now
  change Program.wp _ (if (contactAddress desk.store contactId).isEmpty = true then _ else _) _ _
  unfold toContact
  split
  · exact ⟨(List.append_nil _).symm, rfl⟩
  · exact sends_marking silent _

theorem deliverMessageEdit_sends (messageId senderId recipientId ciphertext : Str)
    (editedAt : Int) (desk : Desk) :
    Sends (deliverMessageEdit messageId senderId recipientId ciphertext editedAt) desk
      (toContact desk.store recipientId .acceptEdit) :=
  sends_toContact (silent_mark _ _ _) desk

theorem deliverMessageDelete_sends (messageId senderId recipientId : Str) (desk : Desk) :
    Sends (deliverMessageDelete messageId senderId recipientId) desk
      (toContact desk.store recipientId .acceptDelete) :=
  sends_toContact (silent_mark _ _ _) desk

theorem retryDeliverMessage_sends (msg : Message) (desk : Desk) :
    Sends (retryDeliverMessage msg) desk (toContact desk.store msg.recipientId .acceptMessage) :=
  sends_toContact (silent_mark _ _ _) desk

theorem retryMessageEdit_sends (msg : Message) (desk : Desk) :
    Sends (retryMessageEdit msg) desk (toContact desk.store msg.recipientId .acceptEdit) :=
  sends_toContact (silent_mark _ _ _) desk

theorem retryMessageDelete_sends (msg : Message) (desk : Desk) :
    Sends (retryMessageDelete msg) desk (toContact desk.store msg.recipientId .acceptDelete) :=
  sends_toContact (silent_mark _ _ _) desk

theorem retryGroupUpdate_sends (u : GroupUpdate) (desk : Desk) :
    Sends (retryGroupUpdate u) desk (toContact desk.store u.memberId .acceptGroupUpdate) :=
  sends_toContact (silent_call fun _ _ => rfl) desk

/-- The same for a program that may stop before it has stored anything. -/
def Tries {Value : Type} (program : Proc Value) (desk : Desk) (sent : List (Str × Endpoint)) : Prop :=
  program.wp contract (fun _ after => (after.store.messages = desk.store.messages ∨
    targets after.sent = targets desk.sent ++ sent) ∧
    after.store.contacts = desk.store.contacts) desk

theorem Sends.dropped {Value : Type} {program : Proc Value} {desk : Desk}
    {sent : List (Str × Endpoint)} (sends : Sends program desk sent) :
    Sends (do let _ ← program) desk sent :=
  Program.wp_seq monotone program _ desk sends fun _ _ holds => holds

theorem Tries.dropped {Value : Type} {program : Proc Value} {desk : Desk}
    {sent : List (Str × Endpoint)} (tries : Tries program desk sent) :
    Tries (do let _ ← program) desk sent :=
  Program.wp_seq monotone program _ desk tries fun _ _ holds => holds

theorem deliverMessage_tries (senderId recipientId ciphertext plaintext : Str) (timestamp : Int)
    (desk : Desk) :
    Tries (deliverMessage senderId recipientId ciphertext plaintext timestamp) desk
      [(cutServerAddress (contactAddress desk.store recipientId), .acceptMessage)] := by
  unfold deliverMessage
  apply wp_generateUuid
  intro dice
  apply wp_call
  intro now
  cases taken : desk.store.messages.has (cstr (uuidOf dice)) with
  | true =>
      simp only [Call.exec, taken, Bool.not_true, Bool.not_false, ↓reduceIte]
      exact ⟨.inl (dif_pos ((desk.store.messages.taken_iff _).mpr taken)), rfl⟩
  | false =>
      simp only [Call.exec, taken, Bool.not_true, Bool.not_false, Bool.false_eq_true, ↓reduceIte]
      apply wp_call
      intro _
      apply wp_send
      intro answer
      dsimp only
      split
      · apply wp_mark
        intro _
        exact ⟨.inr (targets_append _ _ _), rfl⟩
      · exact ⟨.inr (targets_append _ _ _), rfl⟩

variable {sodium : Sodium} {keys : KeyPair}

theorem sends_toAddress {address : Str} {endpoint : Endpoint} {body : Json} {mark : Proc Unit}
    (silent : Silent mark) (desk : Desk) :
    Sends (do
      if address.isEmpty then return
      let result ← sendMessage address endpoint body
      if delivered result then mark) desk (toAddress address endpoint) := by
  unfold toAddress
  split
  · exact ⟨(List.append_nil _).symm, rfl⟩
  apply wp_send
  intro answer
  split
  · refine Program.wp_mono monotone _ (fun _ after same => ?_) _ (silent _)
    rw [List.append_nil] at same
    exact ⟨same.1.trans (targets_append _ _ _), same.2⟩
  · exact ⟨targets_append _ _ _, rfl⟩

theorem editAtMember_tries {messageId groupId plaintext : Str} {editedAt : Int} {m : GroupMember}
    (other : m.memberId ≠ keys.publicKeyB64) (desk : Desk) :
    Tries (editAtMember sodium keys messageId groupId plaintext editedAt m) desk
      (toAddress (addressOf desk.store m) .acceptEdit) := by
  unfold editAtMember
  rw [if_neg other]
  apply wp_encrypt
  intro nonce
  rcases encryptMessage sodium nonce plaintext m.memberId keys.privateKeyB64 with _ | ciphertext
  · exact ⟨.inl rfl, rfl⟩
  apply wp_call
  intro now
  apply FanOut.wp_memberAddress
  refine Program.wp_mono monotone _ (fun _ _ holds => ⟨.inr holds.1, holds.2⟩) _
    (sends_toAddress (silent_mark _ _ _) _)

theorem deleteAtMember_sends {messageId groupId : Str} {m : GroupMember}
    (other : m.memberId ≠ keys.publicKeyB64) (desk : Desk) :
    Sends (deleteAtMember keys messageId groupId m) desk
      (toAddress (addressOf desk.store m) .acceptDelete) := by
  unfold deleteAtMember
  rw [if_neg other]
  apply FanOut.wp_memberAddress
  exact sends_toAddress (silent_mark _ _ _) desk

theorem sendToMember_tries {messageId groupId text : Str} {timestamp : Int} {online : Bool}
    {m : GroupMember} (other : m.memberId ≠ keys.publicKeyB64) (desk : Desk) :
    Tries (sendToMember sodium keys messageId groupId text timestamp online m) desk
      (toAddress (addressOf desk.store m) .acceptMessage) := by
  unfold sendToMember
  rw [if_neg other]
  apply FanOut.wp_memberAddress
  apply wp_encrypt
  intro nonce
  rcases encryptMessage sodium nonce text m.memberId keys.privateKeyB64 with _ | ciphertext
  · exact ⟨.inl rfl, rfl⟩
  apply wp_uninitialised
  intro memory
  apply wp_call
  intro now
  -- An id that is taken ends the attempt before anything is sent.
  cases taken : desk.store.messages.has (cstr messageId) with
  | true =>
      simp only [Call.exec, taken, Bool.not_true, Bool.not_false, ↓reduceIte]
      exact ⟨.inl (dif_pos ((desk.store.messages.taken_iff _).mpr taken)), rfl⟩
  | false =>
      simp only [Call.exec, taken, Bool.not_true, Bool.not_false, Bool.false_eq_true, ↓reduceIte]
      unfold toAddress
      split
      · exact ⟨.inr (List.append_nil _).symm, rfl⟩
      apply wp_send
      intro answer
      dsimp only
      split
      · apply wp_mark
        intro _
        exact ⟨.inr (targets_append _ _ _), rfl⟩
      · exact ⟨.inr (targets_append _ _ _), rfl⟩

theorem pushGroupUpdate_sends {groupId : Str} {version : Int} {snapshotJson : Json} {online : Bool}
    {m : GroupMember} (other : m.memberId ≠ keys.publicKeyB64) (desk : Desk) :
    Sends (pushGroupUpdate groupId keys.publicKeyB64 version snapshotJson online m) desk
      (toAddress (cutServerAddress m.serverAddress) .acceptGroupUpdate) := by
  unfold pushGroupUpdate toAddress
  rw [if_neg other]
  apply wp_call
  intro now
  dsimp only
  split
  · exact ⟨(List.append_nil _).symm, rfl⟩
  apply wp_send
  intro answer
  split
  · apply wp_call
    intro _
    exact ⟨targets_append _ _ _, rfl⟩
  · exact ⟨targets_append _ _ _, rfl⟩

/-- Where the first attempt goes. -/
def Item.aim (store : Store) : Item → List (Str × Endpoint)
  | message recipientId .. =>
      [(cutServerAddress (contactAddress store recipientId), .acceptMessage)]
  | edit _ recipientId .. => toContact store recipientId .acceptEdit
  | delete _ recipientId => toContact store recipientId .acceptDelete
  | groupMessage _ _ _ _ m => toAddress (addressOf store m) .acceptMessage
  | groupEdit _ _ _ _ m => toAddress (addressOf store m) .acceptEdit
  | groupDelete _ _ m => toAddress (addressOf store m) .acceptDelete
  | groupUpdate _ _ _ m => toAddress (cutServerAddress m.serverAddress) .acceptGroupUpdate

/-- What the first attempt for a pending item has done. -/
theorem aim_of_pends {item : Item} {before : Store} {after : Desk} {retry : Proc Unit}
    (attempt : (item.deliver sodium keys).Runs step ⟨before, []⟩ () after)
    (pends : Pends keys before after.store item retry) :
    targets after.sent = item.aim before ∧ after.store.contacts = before.contacts := by
  have outcome : ∀ sent, Tries (item.deliver sodium keys) ⟨before, []⟩ sent →
      after.store.messages ≠ before.messages →
      targets after.sent = sent ∧ after.store.contacts = before.contacts := by
    intro sent tries changed
    obtain ⟨same | goes, contacts⟩ := (Program.wp_demonic_iff step _ _ _).mp tries () after attempt
    · exact absurd same changed
    · exact ⟨goes, contacts⟩
  have surely : ∀ sent, Sends (item.deliver sodium keys) ⟨before, []⟩ sent →
      targets after.sent = sent ∧ after.store.contacts = before.contacts :=
    fun sent sends => (Program.wp_demonic_iff step _ _ _).mp sends () after attempt
  have changed : ∀ {query : Query} {row : Message}, row ∈ query.rows after.store.messages →
      before.messages.find row.messageId ≠ some row → after.store.messages ≠ before.messages := by
    intro query row pending new same
    have found := ((mem_rows query _ row).mp pending).1
    rw [same] at found
    exact new found
  cases pends with
  | message currentTime pending new =>
      exact outcome _ (deliverMessage_tries _ _ _ _ _ _).dropped (changed pending new)
  | groupMessage currentTime pending new other =>
      exact outcome _ (sendToMember_tries other _).dropped (changed pending new)
  | groupEdit currentTime pending new named other =>
      exact outcome _ (editAtMember_tries other _) (changed pending new)
  | edit => exact surely _ (deliverMessageEdit_sends _ _ _ _ _ _).dropped
  | delete => exact surely _ (deliverMessageDelete_sends _ _ _ _).dropped
  | groupDelete currentTime pending named other => exact surely _ (deleteAtMember_sends other _)
  | groupUpdate pending named other => exact surely _ (pushGroupUpdate_sends other _).dropped

/-- The worker's attempt, and the mark it may set when that has failed. -/
theorem sends_retry {retry : Proc Bool} {mark : Proc Unit} {sent : List (Str × Endpoint)}
    {desk : Desk} {old : Prop} [Decidable old] (sends : Sends retry desk sent)
    (silent : Silent mark) :
    Sends (do
      if !(← retry) then
        if old then mark) desk sent := by
  refine Program.wp_seq monotone retry _ desk sends fun done after holds => ?_
  cases done with
  | true => exact holds
  | false =>
      by_cases late : old
      · rw [Bool.not_false, if_pos rfl, if_pos late]
        refine Program.wp_mono monotone _ (fun _ last same => ?_) _ (silent after)
        rw [List.append_nil] at same
        exact ⟨same.1.trans holds.1, same.2.trans holds.2⟩
      · rw [Bool.not_false, if_pos rfl, if_neg late]
        exact holds

theorem contactAddress_cstr (store : Store) (contactId : Str) :
    contactAddress store (cstr contactId) = contactAddress store contactId := by
  simp [contactAddress, Call.exec]

theorem aim_of_retry {item : Item} {before later : Store} {after last : Desk} {retry : Proc Unit}
    (pends : Pends keys before after.store item retry)
    (again : retry.Runs step ⟨later, []⟩ () last) :
    targets last.sent = toContact later item.party item.endpoint := by
  have surely : ∀ sent, Sends retry ⟨later, []⟩ sent → targets last.sent = sent :=
    fun sent sends => ((Program.wp_demonic_iff step _ _ _).mp sends () last again).1
  have for_party : ∀ {recipientId contactId : Str}, recipientId = cstr contactId → ∀ endpoint,
      toContact later recipientId endpoint = toContact later contactId endpoint := by
    rintro _ contactId rfl endpoint
    simp only [toContact, contactAddress_cstr]
  cases pends with
  | message _ _ _ party | groupMessage _ _ _ _ party =>
      rw [surely _ (sends_retry (retryDeliverMessage_sends _ _) (silent_mark _ _ _))]
      exact for_party party _
  | edit _ _ _ party | groupEdit _ _ _ _ _ party =>
      rw [surely _ (sends_retry (retryMessageEdit_sends _ _) (silent_mark _ _ _))]
      exact for_party party _
  | delete _ _ _ party | groupDelete _ _ _ _ party =>
      rw [surely _ (sends_retry (retryMessageDelete_sends _ _) (silent_mark _ _ _))]
      exact for_party party _
  | groupUpdate _ _ _ party =>
      rw [surely _ (retryGroupUpdate_sends _ _).dropped]
      exact for_party party _

theorem toAddress_toContact_iff {address : Str} {store : Store} {contactId : Str}
    {endpoint : Endpoint} :
    toContact store contactId endpoint = toAddress address endpoint ↔
      if address = [] then contactAddress store contactId = []
      else cutServerAddress (contactAddress store contactId) = address := by
  unfold toContact toAddress
  by_cases known : address = []
  · simp [known]
  · by_cases contact : contactAddress store contactId = []
    · have cut : cutServerAddress ([] : Str) = [] := rfl
      simp [known, contact, cut, Ne.symm known]
    · simp [known, contact]

theorem aim_agrees (item : Item) (store : Store) :
    toContact store item.party item.endpoint = item.aim store ↔ Agrees store item := by
  have group : ∀ (m : GroupMember) (endpoint : Endpoint),
      toContact store m.memberId endpoint = toAddress (addressOf store m) endpoint ↔
        if cutServerAddress m.serverAddress = [] then contactAddress store m.memberId = [] ∨
          cutServerAddress (contactAddress store m.memberId) ≠ []
        else cutServerAddress (contactAddress store m.memberId) =
          cutServerAddress m.serverAddress := by
    intro m endpoint
    rw [toAddress_toContact_iff]
    by_cases own : cutServerAddress m.serverAddress = []
    · have fallback : addressOf store m = cutServerAddress (contactAddress store m.memberId) := by
        simp [addressOf, own, contactAddress]
      rw [if_pos own, fallback]
      split
      · next cut => simp [cut]
      · next cut => simp [cut]
    · have mine : addressOf store m = cutServerAddress m.serverAddress := by
        simp [addressOf, own]
      rw [if_neg own, mine, if_neg own]
  cases item with
  | message recipientId ciphertext plaintext timestamp =>
      change toContact store recipientId .acceptMessage = _ ↔ contactAddress store recipientId ≠ []
      by_cases contact : contactAddress store recipientId = []
      · simp [toContact, Item.aim, contact]
      · simp [toContact, Item.aim, contact]
  | edit | delete => exact ⟨fun _ => trivial, fun _ => rfl⟩
  | groupMessage _ _ _ _ m => exact group m _
  | groupEdit _ _ _ _ m => exact group m _
  | groupDelete _ _ m => exact group m _
  | groupUpdate _ _ _ m => exact toAddress_toContact_iff

/-- For an item that is pending after its first attempt, the worker's attempt aims at the
same URL, or both refuse, exactly if the addresses agree. -/
theorem same_target_iff {item : Item} {before later : Store} {after last : Desk}
    {retry : Proc Unit} (attempt : (item.deliver sodium keys).Runs step ⟨before, []⟩ () after)
    (pends : Pends keys before after.store item retry)
    (contacts : later.contacts = after.store.contacts)
    (again : retry.Runs step ⟨later, []⟩ () last) :
    targets last.sent = targets after.sent ↔ Agrees before item := by
  obtain ⟨aimed, kept⟩ := aim_of_pends attempt pends
  have address : contactAddress later item.party = contactAddress before item.party := by
    simp only [contactAddress, Call.exec, contacts, kept]
  rw [aim_of_retry pends again, aimed, ← aim_agrees item before]
  unfold toContact
  rw [address]

section Runs

/-- Nobody answers. -/
def offline : List (Input × Option Response) := List.replicate 20 (clockAt 7, none)

/-- The first attempt for a message and the worker's attempt for the row it left. -/
def attempted (store : Store) (item : Item) : Option (Desk × Message × Desk) :=
  ((item.deliver .transparent (pair.keys true)).exec act offline ⟨store, []⟩).bind fun first =>
    (Query.pendingMessages.rows first.2.store.messages).head?.bind fun row =>
      ((retryPendingMessage 8 row).exec act offline ⟨first.2.store, []⟩).map fun again =>
        (first.2, row, again.2)

theorem attempted_runs {store : Store} {item : Item} {after last : Desk} {row : Message}
    (done : attempted store item = some (after, row, last)) :
    (item.deliver .transparent (pair.keys true)).Runs step ⟨store, []⟩ () after ∧
    row ∈ Query.pendingMessages.rows after.store.messages ∧
    (retryPendingMessage 8 row).Runs step ⟨after.store, []⟩ () last := by
  obtain ⟨⟨_, first⟩, attempt, rest⟩ := Option.bind_eq_some_iff.mp done
  obtain ⟨_, listed, rest⟩ := Option.bind_eq_some_iff.mp rest
  obtain ⟨⟨_, second⟩, again, same⟩ := Option.map_eq_some_iff.mp rest
  cases same
  exact ⟨Program.exec_runs act _ _ _ _ _ attempt, List.mem_of_mem_head? listed,
    Program.exec_runs act _ _ _ _ _ again⟩

/-- A direct message. -/
def note : Item := .message (pair.id false) [] (str "hi") 7

theorem note_agrees : ∃ (after last : Desk),
    targets after.sent = [(str "b", .acceptMessage)] ∧ targets last.sent = targets after.sent := by
  have ran : (attempted (acquainted true) note).map (fun done =>
      (targets done.1.sent, done.2.1.recipientId)) =
      some ([(str "b", .acceptMessage)], pair.id false) := by
    decide +kernel
  obtain ⟨⟨after, row, last⟩, done, facts⟩ := Option.map_eq_some_iff.mp ran
  obtain ⟨sent, recipient⟩ := Prod.mk.inj facts
  obtain ⟨attempt, pending, again⟩ := attempted_runs done
  have party : row.recipientId = cstr (pair.id false) :=
    recipient.trans (cstr_of_clean (publicKeyB64_clean _)).symm
  refine ⟨after, last, sent, (same_target_iff attempt (.message 8 pending ?_ party) rfl again).mpr ?_⟩
  · intro there
    cases (rfl : (acquainted true).messages.find row.messageId = none).symm.trans there
  · have known : contactAddress (acquainted true) (pair.id false) = str "b" := by decide +kernel
    change contactAddress (acquainted true) (pair.id false) ≠ []
    rw [known]
    decide

/-- To a member of a group who is no contact. -/
def groupNote : Item := .groupMessage (str "m") (str "g") (str "hi") 7
  ⟨str "g", pair.id false, str "b", str "member", 0⟩

/-- Without a contact, the worker refuses what the first attempt sent to the member's own
address, or to no address at all. -/
theorem attempts_differ :
    (∃ (after last : Desk) (retry : Proc Unit),
      (groupNote.deliver .transparent (pair.keys true)).Runs step ⟨registered Store.initial, []⟩ ()
        after ∧
      Pends (pair.keys true) (registered Store.initial) after.store groupNote retry ∧
      retry.Runs step ⟨after.store, []⟩ () last ∧
      targets after.sent = [(str "b", .acceptMessage)] ∧ targets last.sent = []) ∧
    ∃ (after last : Desk) (retry : Proc Unit),
      (note.deliver .transparent (pair.keys true)).Runs step
        ⟨registered Store.initial, []⟩ () after ∧
      Pends (pair.keys true) (registered Store.initial) after.store note retry ∧
      retry.Runs step ⟨after.store, []⟩ () last ∧
      targets after.sent = [([], .acceptMessage)] ∧ targets last.sent = [] := by
  have clean : cstr (pair.id false) = pair.id false := cstr_of_clean (publicKeyB64_clean _)
  have fresh : ∀ row : Message, (registered Store.initial).messages.find row.messageId ≠ some row := by
    intro row there
    cases (rfl : (registered Store.initial).messages.find row.messageId = none).symm.trans there
  constructor
  · have ran : (attempted (registered Store.initial) groupNote).map (fun done =>
        (targets done.1.sent, done.2.1.recipientId, targets done.2.2.sent)) =
        some ([(str "b", .acceptMessage)], pair.id false, []) := by
      decide +kernel
    obtain ⟨⟨after, row, last⟩, done, facts⟩ := Option.map_eq_some_iff.mp ran
    simp only [Prod.mk.injEq] at facts
    obtain ⟨attempt, pending, again⟩ := attempted_runs done
    exact ⟨after, last, _, attempt, .groupMessage 8 pending (fresh row) (by decide +kernel)
      (facts.2.1.trans clean.symm), again, facts.1, facts.2.2⟩
  · have ran : (attempted (registered Store.initial) note).map (fun done =>
        (targets done.1.sent, done.2.1.recipientId, targets done.2.2.sent)) =
        some ([([], .acceptMessage)], pair.id false, []) := by
      decide +kernel
    obtain ⟨⟨after, row, last⟩, done, facts⟩ := Option.map_eq_some_iff.mp ran
    simp only [Prod.mk.injEq] at facts
    obtain ⟨attempt, pending, again⟩ := attempted_runs done
    exact ⟨after, last, _, attempt, .message 8 pending (fresh row) (facts.2.1.trans clean.symm),
      again, facts.1, facts.2.2⟩

end Runs
end NoMiddle.Targets
