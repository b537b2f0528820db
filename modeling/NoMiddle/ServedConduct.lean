import NoMiddle.Footprint
import NoMiddle.Conduct

/-! The four routes peers call, checked against the conduct of a serving node. -/
namespace NoMiddle.ServedConduct
open Library Text Crypto DbManager Node Handlers Network Conduct Footprint

variable (sodium : Sodium) (keys : KeyPair)

theorem served_harmless (request : Request) (history : Trace) (operation : nodeSig.Op)
    (free : silent operation = true) : (served sodium keys request).allowed history operation := by
  cases operation using operation_cases with
  | call db => cases db <;> trivial
  | sent request => cases free
  | _ => trivial

theorem refused (request : Request) (history : Trace) {response : Response}
    (code : response.code ≠ 200) :
    (pure response : Proc Response).wp (served sodium keys request).contract
      (ensures sodium keys request) history :=
  fun ok => absurd ok code

theorem acceptMessage_served (request : Request) (endpoint : request.endpoint = .acceptMessage) :
    (acceptMessage sodium keys (some request.body)).wp (served sodium keys request).contract
      (ensures sodium keys request) [] := by
  have refuse := refused sodium keys request
  unfold acceptMessage
  dsimp only
  rcases request.body.hasAll? ["sender_id", "recipient_id", "ciphertext", "timestamp"]
    with _ | _ | _
  · exact refuse _ (by decide)
  · exact refuse _ (by decide)
  rcases sender : request.body.s? "sender_id" with _ | senderId
  · exact refuse _ (by decide)
  rcases recipient : request.body.s? "recipient_id" with _ | recipientId
  · exact refuse _ (by decide)
  rcases sealedText : request.body.s? "ciphertext" with _ | ciphertext
  · exact refuse _ (by decide)
  rcases time : request.body.i? "timestamp" with _ | timestamp
  · exact refuse _ (by decide)
  by_cases self : recipientId = keys.publicKeyB64
  · subst self
    simp only [ne_eq, not_true_eq_false, ↓reduceIte, Bool.not_true, Bool.false_eq_true]
    rcases opened : decryptMessage sodium ciphertext senderId keys.privateKeyB64 with _ | plaintext
    · exact refuse _ (by decide)
    rcases found : request.body.s? "message_id" with _ | messageId
    · exact refuse _ (by decide)
    let msg : Message := ⟨messageId, senderId, keys.publicKeyB64,
      (request.body.optional "group_id").getD [], plaintext, ciphertext, 1, timestamp, 0, 0, 1, 0⟩
    have received : Received sodium keys request.body msg :=
      ⟨found, sender, recipient, rfl, sealedText, time, rfl, rfl, opened⟩
    refine wp_perform ⟨endpoint, received⟩ fun (added : Bool) _ => ?_
    cases added with
    | false => exact refuse _ (by decide)
    | true =>
        refine ⟨trivial, fun _ _ _ => ?_⟩
        simp only [endpoint]
        exact ⟨msg, received, by simp [msg]⟩
  · simp only [self, ne_eq, not_false_eq_true, ↓reduceIte]
    exact refuse _ (by decide)

theorem acceptEdit_served (request : Request) (endpoint : request.endpoint = .acceptEdit) :
    (acceptEdit sodium keys (some request.body)).wp (served sodium keys request).contract
      (ensures sodium keys request) [] := by
  have refuse := refused sodium keys request
  unfold acceptEdit
  dsimp only
  rcases request.body.hasAll? ["message_id", "sender_id", "recipient_id",
    "ciphertext", "edited_at"]
    with _ | _ | _
  · exact refuse _ (by decide)
  · exact refuse _ (by decide)
  rcases named : request.body.s? "message_id" with _ | messageId
  · exact refuse _ (by decide)
  rcases sender : request.body.s? "sender_id" with _ | senderId
  · exact refuse _ (by decide)
  rcases recipient : request.body.s? "recipient_id" with _ | recipientId
  · exact refuse _ (by decide)
  rcases sealedText : request.body.s? "ciphertext" with _ | ciphertext
  · exact refuse _ (by decide)
  rcases time : request.body.i? "edited_at" with _ | editedAt
  · exact refuse _ (by decide)
  by_cases self : recipientId = keys.publicKeyB64
  · simp only [self, ne_eq, not_true_eq_false, ↓reduceIte, Bool.not_true, Bool.false_eq_true]
    refine wp_perform trivial fun found _ => ?_
    cases found with
    | none => exact refuse _ (by decide)
    | some msg =>
        rcases opened : decryptMessage sodium ciphertext senderId keys.privateKeyB64
          with _ | plaintext
        · exact refuse _ (by decide)
        have received : ReceivedEdit sodium keys request.body messageId plaintext ciphertext
            editedAt :=
          ⟨named, self ▸ recipient, sealedText, time, senderId, sender, opened⟩
        refine wp_perform ⟨rfl, endpoint, received, msg, by simp [Read]⟩ fun (updated : Bool) _ => ?_
        cases updated with
        | false => exact refuse _ (by decide)
        | true =>
            have taken : takesEdit (cstr messageId) ⟨.inl (.call (.updateMessages messageId none
                (.edit plaintext ciphertext editedAt))), true⟩ = some (cstr ciphertext, editedAt) :=
              if_pos rfl
            refine wp_mark ⟨rfl, endpoint, by simp [names, named], received.recipientId, _,
              Custody.held_taken _ taken⟩ fun _ _ => ⟨trivial, fun _ _ _ => ?_⟩
            simp only [endpoint]
            exact ⟨messageId, plaintext, ciphertext, editedAt, true, received, by simp⟩
  · simp only [self, ne_eq, not_false_eq_true, ↓reduceIte]
    exact refuse _ (by decide)

theorem acceptDelete_served (request : Request) (endpoint : request.endpoint = .acceptDelete) :
    (acceptDelete keys (some request.body)).wp (served sodium keys request).contract
      (ensures sodium keys request) [] := by
  have refuse := refused sodium keys request
  unfold acceptDelete
  dsimp only
  rcases request.body.hasAll? ["message_id", "sender_id", "recipient_id"]
    with _ | _ | _
  · exact refuse _ (by decide)
  · exact refuse _ (by decide)
  rcases named : request.body.s? "message_id" with _ | messageId
  · exact refuse _ (by decide)
  rcases sender : request.body.s? "sender_id" with _ | senderId
  · exact refuse _ (by decide)
  rcases recipient : request.body.s? "recipient_id" with _ | recipientId
  · exact refuse _ (by decide)
  by_cases self : recipientId = keys.publicKeyB64
  · have received : ReceivedDelete keys request.body messageId senderId :=
      ⟨named, sender, self ▸ recipient⟩
    simp only [self, ne_eq, not_true_eq_false, ↓reduceIte, Bool.not_true, Bool.false_eq_true]
    refine wp_perform trivial fun found _ => ?_
    cases found with
    | none =>
        intro _
        simp only [endpoint]
        exact ⟨messageId, senderId, received, .inl (by simp)⟩
    | some msg =>
        by_cases same : msg.senderId = senderId
        · simp only [same, not_true_eq_false, ↓reduceIte]
          refine ⟨⟨rfl, endpoint, msg, same ▸ received, by simp [Read]⟩, fun done _ => ?_⟩
          refine ⟨trivial, fun _ _ _ => ?_⟩
          simp only [endpoint]
          exact ⟨messageId, senderId, received, .inr ⟨done, by simp⟩⟩
        · simp only [same, not_false_eq_true, ↓reduceIte]
          exact refuse _ (by decide)
  · simp only [self, ne_eq, not_false_eq_true, ↓reduceIte]
    exact refuse _ (by decide)

theorem serve_served {Host : Type} (network : Deployment Host) (host : Host) (request : Request) :
    (network.serve host request).wp (served network.sodium (network.keys host) request).contract
      (ensures network.sodium (network.keys host) request) [] := by
  unfold Deployment.serve Handlers.serve
  cases endpoint : request.endpoint with
  | acceptMessage => exact acceptMessage_served _ _ request endpoint
  | acceptEdit => exact acceptEdit_served _ _ request endpoint
  | acceptDelete => exact acceptDelete_served _ _ request endpoint
  | acceptGroupUpdate =>
      refine Program.wp_mono (served _ _ request).contract_monotone _ ?_ []
        (Program.wp_of_only (served_harmless _ _ request) _ (acceptGroupUpdate_silent _) [])
      intro _ _ _ _
      simp [endpoint]
  | publicKey =>
      intro _
      simp [endpoint]

end NoMiddle.ServedConduct
