import NoMiddle.Solo
import NoMiddle.Conduct

/-! A group message is one row a member, all under one id, and the id is the table's
primary key. The second row is refused, its member is skipped, and the sender is
told that somebody was offline. -/
namespace NoMiddle.FanOut
open Library Text Crypto DbManager DbViews Node MessageDelivery Handlers GroupHandlers Network Solo

variable (sodium : Sodium) (keys : KeyPair)

/-- The members a group message goes to. -/
def others (store : Store) (groupId : Str) : List GroupMember :=
  (groupMembersOf groupId store.groupMembers).filter (·.memberId ≠ keys.publicKeyB64)

/-- The member's own address or else the one of the contact. -/
def addressOf (store : Store) (m : GroupMember) : Str :=
  let serverAddress := cutServerAddress m.serverAddress
  if serverAddress.isEmpty then
    cutServerAddress ((Call.getContactAddress m.memberId).exec 0 store).1
  else serverAddress

def ValidKey (memberId : Str) : Prop :=
  ∀ nonce text, (encryptMessage sodium nonce text memberId keys.privateKeyB64).isSome = true

/-- The member was sent the message and answered like this. -/
def Asked (messageId : Str) (m : GroupMember) (sent : List (Request × Option Response))
    (request : Request) (answer : Option Response) : Prop :=
  (request, answer) ∈ sent ∧ request.endpoint = .acceptMessage ∧
    request.body.s? "message_id" = some messageId ∧
    request.body.s? "recipient_id" = some m.memberId

/-- The message has reached everybody it should, and the answer says how it went. -/
structure Complete (store : Store) (groupId messageId : Str) (online : Bool) (after : Desk) :
    Prop where
  rows : ∀ m ∈ others keys store groupId, ∃ row,
    after.store.messages.find messageId = some row ∧ row.recipientId = m.memberId
  requests : ∀ m ∈ others keys store groupId, addressOf store m ≠ [] →
    ∃ request answer, Asked messageId m after.sent request answer ∧
      request.serverAddress = addressOf store m
  delivered : online = true ↔ ∀ m ∈ others keys store groupId,
    ∃ request answer, Asked messageId m after.sent request (some answer) ∧ answer.code = 200

theorem one_of_complete {store : Store} {groupId messageId : Str} {online : Bool} {after : Desk}
    (nonempty : others keys store groupId ≠ [])
    (complete : Complete keys store groupId messageId online after) :
    (others keys store groupId).length = 1 := by
  have distinct : ((others keys store groupId).map (·.memberId)).Nodup :=
    (groupMembersOf_nodup groupId store.groupMembers).sublist (List.filter_sublist.map _)
  cases members : others keys store groupId with
  | nil => exact absurd members nonempty
  | cons first rest =>
      cases rest with
      | nil => rfl
      | cons second rest =>
          obtain ⟨row, found, recipient⟩ := complete.rows first (by simp [members])
          obtain ⟨other, there, also⟩ := complete.rows second (by simp [members])
          rw [found] at there
          cases there
          simp [members, recipient.symm.trans also] at distinct

variable {sodium keys} {post : Bool → Desk → Prop} {desk : Desk}

theorem wp_memberAddress {m : GroupMember} {Value : Type} {rest : Str → Proc Value}
    {post : Value → Desk → Prop} {desk : Desk}
    (later : (rest (addressOf desk.store m)).wp contract post desk) :
    (memberAddress m >>= rest).wp contract post desk := by
  unfold memberAddress
  unfold addressOf at later
  dsimp only at later ⊢
  split
  · next empty =>
    rw [if_pos empty] at later
    exact wp_perform fun input => later
  · next known =>
    rw [if_neg known] at later
    exact later

theorem sendToMember_complete {store : Store} {groupId messageId text : Str} {timestamp : Int}
    {m : GroupMember} (only : others keys store groupId = [m])
    (valid : ValidKey sodium keys m.memberId) (unused : store.messages.find messageId = none)
    (clean : Clean messageId) (other : m.memberId ≠ keys.publicKeyB64) :
    (sendToMember sodium keys messageId groupId text timestamp true m).wp contract
      (Complete keys store groupId messageId) ⟨store, []⟩ := by
  unfold sendToMember
  rw [if_neg other]
  refine wp_memberAddress (wp_encrypt fun nonce => ?_)
  have sealed := valid nonce text
  rcases sealedText : encryptMessage sodium nonce text m.memberId keys.privateKeyB64
    with _ | ciphertext
  · simp [sealedText] at sealed
  refine wp_uninitialised fun accepted => wp_call fun now => ?_
  let msg : Message := ⟨messageId, keys.publicKeyB64, m.memberId, groupId, text, ciphertext,
    accepted, timestamp, 0, 0, 1, 0⟩
  have absent : store.messages.find (cstr messageId) = none := (cstr_of_clean clean).symm ▸ unused
  have added : ((Call.addMessage msg).exec now store).1 = true := by
    simp [Call.exec, Table.has, msg, absent]
  have found : ((Call.addMessage msg).exec now store).2.messages.find messageId =
      some msg.stored := by
    rw [messages_exec, unused]
    simp [onMessage, msg, cstr_of_clean clean]
  have recipient : msg.stored.recipientId = m.memberId :=
    cstr_of_clean (encryptMessage_clean sealedText).2
  simp only [show ((Call.addMessage ⟨messageId, keys.publicKeyB64, m.memberId, groupId, text,
    ciphertext, accepted, timestamp, 0, 0, 1, 0⟩).exec now store).1 = true from added,
    Bool.not_true, Bool.false_eq_true, ↓reduceIte]
  split
  -- Without an address the row is stored and nothing is asked of anybody.
  · next unknown =>
    constructor
    · simpa [only] using ⟨_, found, recipient⟩
    · simpa [only] using fun known => absurd (List.isEmpty_iff.mp unknown) known
    · simp [only, Asked]
  refine wp_send fun answer => ?_
  let request : Request := ⟨addressOf store m, .acceptMessage, .obj
    [("message_id", .str messageId), ("sender_id", .str keys.publicKeyB64),
      ("recipient_id", .str m.memberId), ("group_id", .str groupId),
      ("ciphertext", .str ciphertext), ("timestamp", .num timestamp)]⟩
  have asked : Asked messageId m [(request, answer)] request answer :=
    ⟨List.mem_singleton.mpr rfl, rfl, rfl, rfl⟩
  dsimp only
  split
  · next ok =>
    obtain ⟨response, rfl, code⟩ := (Conduct.delivered_iff answer).mp ok
    refine wp_mark fun later => ⟨?_, ?_, ?_⟩
    · rw [only]
      refine List.forall_mem_singleton.mpr ?_
      dsimp only
      rw [messages_exec]
      change ∃ row, onMessage later messageId _
        (((Call.addMessage msg).exec now store).2.messages.find messageId) = some row ∧ _
      rw [found]
      refine ⟨_, rfl, ?_⟩
      dsimp only
      split <;> exact recipient
    · rw [only]
      exact List.forall_mem_singleton.mpr fun _ => ⟨request, some response, asked, rfl⟩
    · rw [only]
      exact ⟨fun _ => List.forall_mem_singleton.mpr ⟨request, response, asked, code⟩, fun _ => rfl⟩
  · next refused =>
    refine ⟨?_, ?_, ?_⟩
    · rw [only]
      exact List.forall_mem_singleton.mpr ⟨_, found, recipient⟩
    · rw [only]
      exact List.forall_mem_singleton.mpr fun _ => ⟨request, answer, asked, rfl⟩
    · rw [only]
      refine ⟨(absurd · Bool.false_ne_true), fun all => absurd ?_ refused⟩
      obtain ⟨_, response, ⟨member, _⟩, code⟩ := List.forall_mem_singleton.mp all
      cases List.mem_singleton.mp member
      simp [delivered, code]

/-- The loop, when one member besides the sender is there: before its turn nothing
has happened, after it everything has. -/
theorem sendLoop_complete {store : Store} {groupId messageId text : Str} {timestamp : Int}
    {peer : GroupMember} (only : others keys store groupId = [peer])
    (valid : ValidKey sodium keys peer.memberId) (unused : store.messages.find messageId = none)
    (clean : Clean messageId) :
    ((groupMembersOf groupId store.groupMembers).foldlM
      (sendToMember sodium keys messageId groupId text timestamp) true).wp contract
      (Complete keys store groupId messageId) ⟨store, []⟩ := by
  have monotone := Solo.monotone
  -- Before the one peer's turn nothing has happened, and after it the result stands:
  -- every other turn is the node's own and does nothing.
  refine Program.wp_mono monotone _ ?_ _ (Program.wp_foldlM monotone _
    (fun rest online desk =>
      rest.filter (·.memberId ≠ keys.publicKeyB64) = [peer] ∧ online = true ∧ desk = ⟨store, []⟩ ∨
      rest.filter (·.memberId ≠ keys.publicKeyB64) = [] ∧
        Complete keys store groupId messageId online desk)
    ?_ (groupMembersOf groupId store.groupMembers) true _ (.inl ⟨only, rfl, rfl⟩))
  · rintro online desk (⟨empty, _⟩ | ⟨_, complete⟩)
    · cases empty
    · exact complete
  intro m rest online desk holds
  by_cases self : m.memberId = keys.publicKeyB64
  · unfold sendToMember
    rw [if_pos self]
    simpa [self] using holds
  · have kept : (m :: rest).filter (·.memberId ≠ keys.publicKeyB64) =
        m :: rest.filter (·.memberId ≠ keys.publicKeyB64) := by
      simp [self]
    rw [kept] at holds
    rcases holds with ⟨head, rfl, rfl⟩ | ⟨empty, _⟩
    · obtain ⟨rfl, last⟩ := List.cons.inj head
      exact Program.wp_mono monotone _ (fun _ _ complete => .inr ⟨last, complete⟩) _
        (sendToMember_complete only valid unused clean self)
    · cases empty

/-- What an answer of 200 to a group message looks like. -/
def accepted (messageId : Str) (online : Bool) : Response :=
  ok [("message_id", .str messageId), ("delivered", .bool online)]

theorem accepted_inj {first second : Str} {one two : Bool}
    (same : accepted first one = accepted second two) : first = second ∧ one = two := by
  simpa [accepted, ok] using same

theorem groupSend_complete {req : HttpRequest} {group : PathId} {store : Store}
    {peer : GroupMember} (only : others keys store group.text = [peer])
    (valid : ValidKey sodium keys peer.memberId) :
    (groupSend sodium keys req group).wp contract (fun response after => ∀ messageId online,
      response = accepted messageId online → store.messages.find messageId = none →
      Complete keys store group.text messageId online after) ⟨store, []⟩ := by
  have refuse : ∀ (response : Response) (desk : Desk), response.code ≠ 200 →
      (pure response : Proc Response).wp contract (fun response after => ∀ messageId online,
        response = accepted messageId online → store.messages.find messageId = none →
        Complete keys store group.text messageId online after) desk :=
    fun response _ failure _ _ same => absurd (congrArg Response.code same) failure
  refine wp_authed sodium req _ (refuse _ _ (by decide)) ?_
  rcases req.body with _ | dataJson
  · exact refuse _ _ (by decide)
  dsimp only
  rcases dataJson.hasAll? ["text"] with _ | _ | _
  · exact refuse _ _ (by decide)
  · exact refuse _ _ (by decide)
  rcases dataJson.s? "text" with _ | text
  · exact refuse _ _ (by decide)
  simp only [Bool.not_true, Bool.false_eq_true, ↓reduceIte]
  refine wp_time fun timestamp => wp_generateUuid fun dice => wp_call fun now => ?_
  change (if (groupMembersOf group.text store.groupMembers).isEmpty then _ else _ :
    Proc Response).wp contract _ _
  split
  · exact refuse _ _ (by decide)
  by_cases unused : store.messages.find (uuidOf dice) = none
  · refine Program.wp_seq monotone _ _ _
      (sendLoop_complete only valid unused (uuid_clean dice)) fun online after complete => ?_
    rintro messageId told same _
    obtain ⟨rfl, rfl⟩ := accepted_inj same
    exact complete
  · refine wp_after fun online after messageId told same free => ?_
    obtain ⟨rfl, rfl⟩ := accepted_inj same
    exact absurd free unused

theorem groupSend_accepted {req : HttpRequest} {group : PathId} {desk after : Desk}
    {response : Response} (run : Runs (groupSend sodium keys req group) desk response after)
    (code : response.code = 200) : ∃ messageId online, response = accepted messageId online := by
  suffices (groupSend sodium keys req group).wp contract (fun response _ => response.code = 200 →
      ∃ messageId online, response = accepted messageId online) desk from
    (Program.wp_demonic_iff step _ _ desk).mp this response after run code
  have refuse : ∀ (response : Response) (desk : Desk), response.code ≠ 200 →
      (pure response : Proc Response).wp contract (fun response _ => response.code = 200 →
        ∃ messageId online, response = accepted messageId online) desk :=
    fun _ _ failure code => absurd code failure
  refine wp_authed sodium req _ (refuse _ desk (by decide)) ?_
  rcases req.body with _ | dataJson
  · exact refuse _ _ (by decide)
  dsimp only
  rcases dataJson.hasAll? ["text"] with _ | _ | _
  · exact refuse _ _ (by decide)
  · exact refuse _ _ (by decide)
  rcases dataJson.s? "text" with _ | text
  · exact refuse _ _ (by decide)
  simp only [Bool.not_true, Bool.false_eq_true, ↓reduceIte]
  refine wp_time fun timestamp => wp_generateUuid fun dice => wp_call fun now => ?_
  split
  · exact refuse _ _ (by decide)
  · exact wp_after fun online _ _ => ⟨uuidOf dice, online, rfl⟩

/-- A group message that was answered with 200 and got a fresh id is complete exactly
if it goes to one member. -/
theorem fan_out_iff (sodium : Sodium) (keys : KeyPair) (req : HttpRequest) (group : PathId)
    (store : Store) (after : Desk) (response : Response)
    (run : Runs (groupSend sodium keys req group) ⟨store, []⟩ response after)
    (code : response.code = 200)
    (nonempty : others keys store group.text ≠ [])
    (valid : ∀ m ∈ others keys store group.text, ValidKey sodium keys m.memberId)
    (unused : ∀ messageId online, response = accepted messageId online →
      store.messages.find messageId = none) :
    ∃ messageId online, response = accepted messageId online ∧
      (Complete keys store group.text messageId online after ↔
        (others keys store group.text).length = 1) := by
  obtain ⟨messageId, online, rfl⟩ := groupSend_accepted run code
  refine ⟨messageId, online, rfl, one_of_complete keys nonempty, fun one => ?_⟩
  obtain ⟨peer, only⟩ := List.length_eq_one_iff.mp one
  have complete := (Program.wp_demonic_iff step _ _ _).mp
    (groupSend_complete only (valid peer (by simp [only]))) _ after run
  exact complete messageId online rfl (unused messageId online rfl)

section Runs

theorem validKey_transparent (recipient : KeyPair) :
    ValidKey .transparent keys recipient.publicKeyB64 := by
  intro nonce text
  simp [encryptMessage, Sodium.transparent, base64ToBin_publicKey, base64ToBin_privateKey]

def node : KeyPair := .filled 1

def group : PathId := ⟨str "g", by decide, by decide⟩

def greet : HttpRequest := userRequest [("text", .str (str "hi"))]

/-- The node is in a group with the owners of these keys, all of known address. -/
def groupWith (peers : List KeyPair) : Store :=
  { registered Store.initial with
    groupMembers := (replaceGroupMembers group.text ((node :: peers).map fun keys =>
      ⟨group.text, keys.publicKeyB64, str "host", str "member", 0⟩) .empty).2 }

def online : List (Input × Option Response) := List.replicate 20 (clockAt 7, some ⟨200, .empty⟩)

def memberRow (keys : KeyPair) : GroupMember :=
  ⟨group.text, keys.publicKeyB64, str "host", str "member", 0⟩

theorem fan_out_one : ∃ response messageId delivered after,
    Runs (groupSend .transparent node greet group) ⟨groupWith [.filled 2], []⟩ response after ∧
    response = accepted messageId delivered ∧
    Complete node (groupWith [.filled 2]) group.text messageId delivered after := by
  have ran : ((groupSend .transparent node greet group).exec act online
      ⟨groupWith [.filled 2], []⟩).map (·.1.code) = some 200 := by decide +kernel
  obtain ⟨⟨response, after⟩, executed, code⟩ := Option.map_eq_some_iff.mp ran
  have members : others node (groupWith [.filled 2]) group.text = [memberRow (.filled 2)] := by
    decide +kernel
  obtain ⟨messageId, delivered, form, complete⟩ := fan_out_iff .transparent node greet group
    (groupWith [.filled 2]) after response (Program.exec_runs act _ _ _ _ _ executed) code
    (by simp [members])
    (by
      rw [members]
      exact List.forall_mem_singleton.mpr (validKey_transparent (.filled 2)))
    (fun _ _ _ => rfl)
  exact ⟨response, messageId, delivered, after, Program.exec_runs act _ _ _ _ _ executed, form,
    complete.mpr (by rw [members]; rfl)⟩

/-- Two members with valid keys, both reachable and ready to answer 200: the message
goes to one of them. -/
theorem fan_out_two : ∃ response messageId delivered after,
    Runs (groupSend .transparent node greet group) ⟨groupWith [.filled 2, .filled 3], []⟩ response
      after ∧
    response = accepted messageId delivered ∧ response.code = 200 ∧
    others node (groupWith [.filled 2, .filled 3]) group.text =
      [memberRow (.filled 2), memberRow (.filled 3)] ∧
    (∀ peer : KeyPair, ValidKey .transparent node peer.publicKeyB64) ∧
    (groupWith [.filled 2, .filled 3]).messages.find messageId = none ∧
    after.sent.length = 1 ∧
    ¬Complete node (groupWith [.filled 2, .filled 3]) group.text messageId delivered after := by
  have ran : ((groupSend .transparent node greet group).exec act online
      ⟨groupWith [.filled 2, .filled 3], []⟩).map (fun done =>
        (done.1.code, done.2.sent.length)) = some (200, 1) := by decide +kernel
  obtain ⟨⟨response, after⟩, executed, facts⟩ := Option.map_eq_some_iff.mp ran
  have run := Program.exec_runs act _ _ _ _ _ executed
  have members : others node (groupWith [.filled 2, .filled 3]) group.text =
      [memberRow (.filled 2), memberRow (.filled 3)] := by decide +kernel
  obtain ⟨code, requests⟩ := Prod.mk.inj facts
  obtain ⟨messageId, delivered, rfl⟩ := groupSend_accepted run code
  have incomplete : ¬Complete node (groupWith [.filled 2, .filled 3]) group.text messageId
      delivered after := by
    intro complete
    have one := one_of_complete node (by simp [members]) complete
    simp [members] at one
  exact ⟨_, messageId, delivered, after, run, rfl, code, members, validKey_transparent, rfl,
    requests, incomplete⟩

end Runs
end NoMiddle.FanOut
