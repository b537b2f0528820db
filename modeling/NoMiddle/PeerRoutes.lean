import NoMiddle.Solo
import NoMiddle.Conduct

/-! What the routes peers call do when they run by themselves: what they answer with
200, and what that leaves in the store. -/
namespace NoMiddle.PeerRoutes
open Library Text Crypto DbManager DbViews Node Handlers Conduct Solo

variable {sodium : Sodium} {keys : KeyPair} {body : Json} {desk : Desk}

theorem addMessage_taken (msg : Message) (messages : Messages)
    (taken : messages.has (cstr msg.messageId) = true) :
    DbManager.addMessage msg messages = messages :=
  dif_pos ((messages.taken_iff _).mpr taken)

theorem received_present {msg : Message} (received : Received sodium keys body msg) :
    body.hasAll? ["sender_id", "recipient_id", "ciphertext", "timestamp"] = some true := by
  apply Json.hasAll?_of_get? (by simp)
  simp only [List.forall_mem_cons, List.not_mem_nil, IsEmpty.forall_iff, implies_true, and_true]
  exact ⟨Json.get?_of_s? received.senderId, Json.get?_of_s? received.recipientId,
    Json.get?_of_s? received.ciphertext, Json.get?_of_i? received.timestamp⟩

/-- A message is stored under a new id or refused, and only its id can be in the way. -/
def MessageOutcome (sodium : Sodium) (keys : KeyPair) (body : Json) (before : Store)
    (response : Response) (after : Store) : Prop :=
  (response.code = 200 ∧ ∃ msg, Received sodium keys body msg ∧
    before.messages.has (cstr msg.messageId) = false ∧
    after = { before with messages := DbManager.addMessage msg before.messages }) ∨
  (response.code ≠ 200 ∧ after = before ∧
    ∀ msg, Received sodium keys body msg → before.messages.has (cstr msg.messageId) = true)

theorem acceptMessage_outcome :
    (acceptMessage sodium keys (some body)).wp contract
      (fun response after => MessageOutcome sodium keys body desk.store response after.store)
      desk := by
  have refuse : ∀ response : Response, response.code ≠ 200 →
      (∀ msg, ¬Received sodium keys body msg) →
      MessageOutcome sodium keys body desk.store response desk.store :=
    fun _ other none => .inr ⟨other, rfl, fun msg received => absurd received (none msg)⟩
  unfold acceptMessage
  dsimp only
  rcases present : body.hasAll? ["sender_id", "recipient_id", "ciphertext", "timestamp"]
    with _ | _ | _
  · apply refuse _ (by decide)
    intro msg received
    cases present.symm.trans (received_present received)
  · apply refuse _ (by decide)
    intro msg received
    cases present.symm.trans (received_present received)
  rcases sender : body.s? "sender_id" with _ | senderId
  · apply refuse _ (by decide)
    intro msg received
    cases sender.symm.trans received.senderId
  rcases recipient : body.s? "recipient_id" with _ | recipientId
  · apply refuse _ (by decide)
    intro msg received
    cases recipient.symm.trans received.recipientId
  rcases sealedText : body.s? "ciphertext" with _ | ciphertext
  · apply refuse _ (by decide)
    intro msg received
    cases sealedText.symm.trans received.ciphertext
  rcases time : body.i? "timestamp" with _ | timestamp
  · apply refuse _ (by decide)
    intro msg received
    cases time.symm.trans received.timestamp
  simp only [Bool.not_true, Bool.false_eq_true, ↓reduceIte]
  split
  · next other =>
    apply refuse _ (by decide)
    intro msg received
    cases recipient.symm.trans received.recipientId
    exact other received.own
  next self =>
  rcases opened : decryptMessage sodium ciphertext senderId keys.privateKeyB64 with _ | plaintext
  · apply refuse _ (by decide)
    intro msg received
    cases sender.symm.trans received.senderId
    cases sealedText.symm.trans received.ciphertext
    cases opened.symm.trans received.opened
  rcases named : body.s? "message_id" with _ | messageId
  · apply refuse _ (by decide)
    intro msg received
    cases named.symm.trans received.messageId
  let msg : Message := ⟨messageId, senderId, recipientId,
    (body.optional "group_id").getD [], plaintext, ciphertext, 1, timestamp, 0, 0, 1, 0⟩
  have received : Received sodium keys body msg :=
    ⟨named, sender, recipient, rfl, sealedText, time, not_not.mp self, rfl, opened⟩
  apply wp_call
  intro now
  cases taken : desk.store.messages.has (cstr messageId) with
  | true =>
      have added : ((Call.addMessage msg).exec now desk.store).1 = false := by
        simp [Call.exec, msg, taken]
      have same : ((Call.addMessage msg).exec now desk.store).2 = desk.store := by
        simp only [Call.exec, addMessage_taken msg desk.store.messages taken]
      simp only [msg] at added same
      simp only [added, same, Bool.not_false, ↓reduceIte]
      refine .inr ⟨by decide, rfl, fun other rival => ?_⟩
      cases named.symm.trans rival.messageId
      exact taken
  | false =>
      have added : ((Call.addMessage msg).exec now desk.store).1 = true := by
        simp [Call.exec, msg, taken]
      simp only [msg] at added
      simp only [added, Bool.not_true, Bool.false_eq_true, ↓reduceIte]
      apply Solo.wp_perform
      intro _
      exact .inl ⟨rfl, msg, received, taken, rfl⟩

end NoMiddle.PeerRoutes
