import NoMiddle.Crypto

/-! Sealing and opening with their buffers: every size is computed as the program
computes it, and a subtraction that wraps, a read past a buffer and a write past one are
faults of their own. No input reaches a fault, and what opens is what was sealed. -/
namespace NoMiddle.Sealing
open Library Text Crypto

inductive Fault where
  | wrapped
  | overread
  | overwritten
deriving DecidableEq

/-- A subtraction of two `size_t`. -/
def sizeSub (left right : Nat) : Except Fault Nat :=
  if left < right then .error .wrapped else .ok (left - right)

/-- What a callee sees that is given a pointer into a buffer and a length. -/
def view (buffer : Str) (start length : Nat) : Except Fault Str :=
  if buffer.length < start + length then .error .overread
  else .ok ((buffer.drop start).take length)

/-- A buffer of zeroes after bytes were written to its front. -/
def fill (size : Nat) (data : Str) : Except Fault Str :=
  if size < data.length then .error .overwritten
  else .ok (data ++ List.replicate (size - data.length) 0)

/-- Room for the encoding and its terminating NUL. -/
def sodiumBase64EncodedLen (length : Nat) : Nat := (length + 2) / 3 * 4 + 1

/-- Decoding fails when the result does not fit. -/
def sodiumBase642bin (capacity : Nat) (text : Str) : Option Str :=
  (Base64.decode original text).filter (·.length ≤ capacity)

def binToBase64 (data : Str) : Except Fault Str := do
  let b64Len := sodiumBase64EncodedLen data.length
  let out ← fill b64Len (Base64.encode original data ++ [0])
  let kept ← sizeSub b64Len 1
  return out.take kept

def base64ToBin (b64 : Str) (outLen : Nat) : Option Str :=
  (sodiumBase642bin outLen b64).filter (·.length = outLen)

def encryptMessage (sodium : Sodium) (nonce plaintext recipientPublicKey senderPrivateKey : Str) :
    Except Fault (Option Str) :=
  if !sodium.ready then .ok none
  else
    match base64ToBin recipientPublicKey publicKeyBytes,
      base64ToBin senderPrivateKey secretKeyBytes with
    | some recipientPk, some senderSk =>
        match sodium.cryptoBoxEasy plaintext nonce recipientPk senderSk with
        | none => .ok none
        | some box => do
            let ciphertext ← fill (plaintext.length + macBytes) box
            let blob ← fill (nonceBytes + ciphertext.length) (nonce ++ ciphertext)
            let encoded ← binToBase64 blob
            return some encoded
    | _, _ => .ok none

def decryptMessage (sodium : Sodium) (ciphertext senderPublicKey recipientPrivateKey : Str) :
    Except Fault (Option Str) :=
  if !sodium.ready then .ok none
  else
    match base64ToBin senderPublicKey publicKeyBytes,
      base64ToBin recipientPrivateKey secretKeyBytes with
    | some senderPk, some recipientSk =>
        match sodiumBase642bin ciphertext.length ciphertext with
        | none => .ok none
        | some blob =>
            if blob.length < nonceBytes + macBytes then .ok none
            else do
              let nonce ← view blob 0 nonceBytes
              let actualCiphertextLen ← sizeSub blob.length nonceBytes
              let actualCiphertext ← view blob nonceBytes actualCiphertextLen
              let decryptedLen ← sizeSub actualCiphertextLen macBytes
              match sodium.cryptoBoxOpenEasy actualCiphertext nonce senderPk recipientSk with
              | none => return none
              | some message =>
                  let decrypted ← fill decryptedLen message
                  return some decrypted
    | _, _ => .ok none

/-- How libsodium documents `crypto_box`: the two keys give a shared one or are refused, a
box is 16 bytes longer than what it seals, and it is all that opens to it. -/
structure Box (sodium : Sodium) where
  beforenm : (publicKey secretKey : Str) → Option Str
  easyAfternm : (message nonce shared : Str) → Str
  openEasyAfternm : (ciphertext nonce shared : Str) → Option Str
  easy : ∀ message nonce publicKey secretKey,
    sodium.cryptoBoxEasy message nonce publicKey secretKey =
      (beforenm publicKey secretKey).map (easyAfternm message nonce)
  openEasy : ∀ ciphertext nonce publicKey secretKey,
    sodium.cryptoBoxOpenEasy ciphertext nonce publicKey secretKey =
      (beforenm publicKey secretKey).bind (openEasyAfternm ciphertext nonce)
  overhead : ∀ message nonce shared,
    (easyAfternm message nonce shared).length = message.length + macBytes
  opens : ∀ ciphertext nonce shared message, nonce.length = nonceBytes →
    (openEasyAfternm ciphertext nonce shared = some message ↔
      easyAfternm message nonce shared = ciphertext)

variable {sodium : Sodium} {sender recipient : KeyPair}

/-- Both sides of two valid pairs come to the same shared key. -/
def Box.Agreed (box : Box sodium) (sender recipient : KeyPair) : Prop :=
  box.beforenm recipient.publicKey sender.privateKey =
    box.beforenm sender.publicKey recipient.privateKey

theorem Box.sealed_length (box : Box sodium) {message nonce publicKey secretKey boxed : Str}
    (sealed : sodium.cryptoBoxEasy message nonce publicKey secretKey = some boxed) :
    boxed.length = message.length + macBytes := by
  rw [box.easy, Option.map_eq_some_iff] at sealed
  obtain ⟨shared, _, rfl⟩ := sealed
  exact box.overhead message nonce shared

theorem Box.opened_length (box : Box sodium) {ciphertext nonce publicKey secretKey message : Str}
    (size : nonce.length = nonceBytes)
    (opened : sodium.cryptoBoxOpenEasy ciphertext nonce publicKey secretKey = some message) :
    ciphertext.length = message.length + macBytes := by
  rw [box.openEasy, Option.bind_eq_some_iff] at opened
  obtain ⟨shared, _, opened⟩ := opened
  rw [← (box.opens _ _ shared _ size).mp opened]
  exact box.overhead message nonce shared

/-- What one of the two seals is what the other one opens. -/
theorem Box.opens_iff (box : Box sodium) (agreed : box.Agreed sender recipient)
    {ciphertext nonce message : Str} (size : nonce.length = nonceBytes) :
    sodium.cryptoBoxOpenEasy ciphertext nonce sender.publicKey recipient.privateKey = some message ↔
      sodium.cryptoBoxEasy message nonce recipient.publicKey sender.privateKey =
        some ciphertext := by
  rw [box.openEasy, box.easy, agreed, Option.bind_eq_some_iff, Option.map_eq_some_iff]
  apply exists_congr
  intro shared
  rw [box.opens ciphertext nonce shared message size]

theorem fill_exact (data : Str) : fill data.length data = .ok data := by
  simp [fill]

theorem fill_of_eq {size : Nat} {data : Str} (same : data.length = size) :
    fill size data = .ok data :=
  same ▸ fill_exact data

theorem view_of_le {buffer : Str} {start length : Nat} (fits : start + length ≤ buffer.length) :
    view buffer start length = .ok ((buffer.drop start).take length) := by
  rw [view, if_neg (by omega)]

theorem sizeSub_of_le {left right : Nat} (below : right ≤ left) :
    sizeSub left right = .ok (left - right) := by
  rw [sizeSub, if_neg (by omega)]

theorem encoded_fits (data : Str) :
    (Base64.encode original data ++ [0]).length = sodiumBase64EncodedLen data.length := by
  rw [List.length_append, Base64.length_encode, sodiumBase64EncodedLen, List.length_singleton]

/-- The NUL is what the resize cuts off. -/
theorem binToBase64_eq (data : Str) : binToBase64 data = .ok (Crypto.binToBase64 data) := by
  have cut : sodiumBase64EncodedLen data.length - 1 = (Base64.encode original data).length := by
    rw [Base64.length_encode, sodiumBase64EncodedLen, Nat.add_sub_cancel]
  have positive : 1 ≤ sodiumBase64EncodedLen data.length := by
    rw [sodiumBase64EncodedLen]
    omega
  rw [binToBase64, fill_of_eq (encoded_fits data), sizeSub_of_le positive, cut]
  exact congrArg Except.ok (List.take_left)

theorem base64ToBin_eq (b64 : Str) (outLen : Nat) :
    base64ToBin b64 outLen = Crypto.base64ToBin b64 outLen := by
  unfold base64ToBin sodiumBase642bin Crypto.base64ToBin
  cases Base64.decode original b64 with
  | none => rfl
  | some bytes =>
      by_cases fits : bytes.length = outLen
      · simp [fits, Option.filter]
      · by_cases room : bytes.length ≤ outLen <;> simp [fits, room, Option.filter]

/-- A text has room for the bytes it encodes. -/
theorem sodiumBase642bin_eq (text : Str) :
    sodiumBase642bin text.length text = Base64.decode original text := by
  unfold sodiumBase642bin
  cases decoded : Base64.decode original text with
  | none => rfl
  | some bytes =>
      have encoded : (Base64.encode original bytes).length = (bytes.length + 2) / 3 * 4 :=
        Base64.length_encode bytes
      rw [Base64.encode_decode text bytes decoded] at encoded
      have room : bytes.length ≤ text.length := by omega
      simp [room, Option.filter]

theorem encryptMessage_eq (box : Box sodium) {nonce : Str} (size : nonce.length = nonceBytes)
    (plaintext recipientPublicKey senderPrivateKey : Str) :
    encryptMessage sodium nonce plaintext recipientPublicKey senderPrivateKey =
      .ok (Crypto.encryptMessage sodium nonce plaintext recipientPublicKey senderPrivateKey) := by
  unfold encryptMessage Crypto.encryptMessage
  rw [base64ToBin_eq, base64ToBin_eq]
  split
  · rfl
  · cases Crypto.base64ToBin recipientPublicKey publicKeyBytes with
    | none => rfl
    | some recipientPk =>
    cases Crypto.base64ToBin senderPrivateKey secretKeyBytes with
    | none => rfl
    | some senderSk =>
    cases sealed : sodium.cryptoBoxEasy plaintext nonce recipientPk senderSk with
    | none => simp only [sealed]
    | some boxed =>
        have whole : (nonce ++ boxed).length = nonceBytes + boxed.length := by
          rw [List.length_append, size]
        simp only [sealed, fill_of_eq (box.sealed_length sealed), bind, Except.bind,
          fill_of_eq whole, binToBase64_eq]
        rfl

theorem decryptMessage_eq (box : Box sodium)
    (ciphertext senderPublicKey recipientPrivateKey : Str) :
    decryptMessage sodium ciphertext senderPublicKey recipientPrivateKey =
      .ok (Crypto.decryptMessage sodium ciphertext senderPublicKey recipientPrivateKey) := by
  unfold decryptMessage Crypto.decryptMessage
  rw [base64ToBin_eq, base64ToBin_eq, sodiumBase642bin_eq]
  split
  · rfl
  · cases Crypto.base64ToBin senderPublicKey publicKeyBytes with
    | none => rfl
    | some senderPk =>
    cases Crypto.base64ToBin recipientPrivateKey secretKeyBytes with
    | none => rfl
    | some recipientSk =>
    cases Base64.decode original ciphertext with
    | none => rfl
    | some blob =>
        dsimp only
        split
        · rfl
        · next long =>
          -- The one length check is what keeps both subtractions from wrapping.
          have enough : nonceBytes + macBytes ≤ blob.length := Nat.le_of_not_lt long
          have nonce : view blob 0 nonceBytes = .ok (blob.take nonceBytes) :=
            view_of_le (by omega)
          have rest : view blob nonceBytes (blob.length - nonceBytes) =
              .ok (blob.drop nonceBytes) := by
            rw [view_of_le (by omega), ← List.length_drop, List.take_length]
          have first : sizeSub blob.length nonceBytes = .ok (blob.length - nonceBytes) :=
            sizeSub_of_le (by omega)
          have second : sizeSub (blob.length - nonceBytes) macBytes =
              .ok (blob.length - nonceBytes - macBytes) := sizeSub_of_le (by omega)
          have size : (blob.take nonceBytes).length = nonceBytes := by
            rw [List.length_take]
            omega
          simp only [nonce, first, rest, second, bind, Except.bind]
          cases opened : sodium.cryptoBoxOpenEasy (blob.drop nonceBytes) (blob.take nonceBytes)
              senderPk recipientSk with
          | none => rfl
          | some message =>
              have length := box.opened_length size opened
              rw [List.length_drop] at length
              have fits : message.length = blob.length - nonceBytes - macBytes := by omega
              simp only [fill_of_eq fits]
              rfl

theorem encryptMessage_iff (sodium : Sodium) (nonce message ciphertext : Str) :
    Crypto.encryptMessage sodium nonce message recipient.publicKeyB64 sender.privateKeyB64 =
        some ciphertext ↔
      sodium.ready = true ∧ ∃ boxed,
        sodium.cryptoBoxEasy message nonce recipient.publicKey sender.privateKey = some boxed ∧
        Crypto.binToBase64 (nonce ++ boxed) = ciphertext := by
  unfold Crypto.encryptMessage
  rw [base64ToBin_publicKey, base64ToBin_privateKey]
  cases sodium.ready with
  | false => simp
  | true =>
      cases sealed : sodium.cryptoBoxEasy message nonce recipient.publicKey sender.privateKey <;>
        simp [sealed]

theorem decryptMessage_iff (sodium : Sodium) (ciphertext message : Str) :
    Crypto.decryptMessage sodium ciphertext sender.publicKeyB64 recipient.privateKeyB64 =
        some message ↔
      sodium.ready = true ∧ ∃ nonce boxed, nonce.length = nonceBytes ∧ macBytes ≤ boxed.length ∧
        sodium.cryptoBoxOpenEasy boxed nonce sender.publicKey recipient.privateKey =
          some message ∧
        Crypto.binToBase64 (nonce ++ boxed) = ciphertext := by
  unfold Crypto.decryptMessage
  rw [base64ToBin_publicKey, base64ToBin_privateKey]
  cases sodium.ready with
  | false => simp
  | true =>
      simp only [Bool.not_true, Bool.false_eq_true, ↓reduceIte, true_and]
      constructor
      · intro decrypted
        split at decrypted
        · cases decrypted
        · next blob decoded =>
          split at decrypted
          · cases decrypted
          · next long =>
            refine ⟨blob.take nonceBytes, blob.drop nonceBytes, ?_, ?_, decrypted, ?_⟩
            · rw [List.length_take]
              omega
            · rw [List.length_drop]
              omega
            · rw [List.take_append_drop]
              exact Base64.encode_decode ciphertext blob decoded
      · rintro ⟨nonce, boxed, size, room, opened, rfl⟩
        have decoded : Base64.decode original (Crypto.binToBase64 (nonce ++ boxed)) =
            some (nonce ++ boxed) := Base64.decode_encode _
        have long : ¬(nonce ++ boxed).length < nonceBytes + macBytes := by
          rw [List.length_append]
          omega
        simp only [decoded, long, ↓reduceIte]
        rw [← size, List.drop_left, List.take_left]
        exact opened

theorem decrypt_iff_encrypt (box : Box sodium) (agreed : box.Agreed sender recipient)
    (ciphertext message : Str) :
    Crypto.decryptMessage sodium ciphertext sender.publicKeyB64 recipient.privateKeyB64 =
        some message ↔
      ∃ nonce, nonce.length = nonceBytes ∧ Crypto.encryptMessage sodium nonce message
        recipient.publicKeyB64 sender.privateKeyB64 = some ciphertext := by
  simp only [decryptMessage_iff, encryptMessage_iff]
  constructor
  · rintro ⟨ready, nonce, boxed, size, _, opened, encoded⟩
    exact ⟨nonce, size, ready, boxed, (box.opens_iff agreed size).mp opened, encoded⟩
  · rintro ⟨nonce, size, ready, boxed, sealed, encoded⟩
    have room : macBytes ≤ boxed.length := by
      rw [box.sealed_length sealed]
      exact Nat.le_add_left _ _
    exact ⟨ready, nonce, boxed, size, room, (box.opens_iff agreed size).mpr sealed, encoded⟩

/-- Some nonce makes this text of the message. -/
def Sealed (sodium : Sodium) (sender recipient : KeyPair) (message ciphertext : Str) : Prop :=
  ∃ nonce, nonce.length = nonceBytes ∧ encryptMessage sodium nonce message
    recipient.publicKeyB64 sender.privateKeyB64 = .ok (some ciphertext)

/-- What decryption accepts is what encryption produces; it refuses everything else, and
neither of them ever leaves a buffer or wraps a size. -/
theorem opened_exactly (box : Box sodium) (agreed : box.Agreed sender recipient)
    (ciphertext : Str) :
    (∀ message, decryptMessage sodium ciphertext sender.publicKeyB64 recipient.privateKeyB64 =
        .ok (some message) ↔ Sealed sodium sender recipient message ciphertext) ∧
    ((¬∃ message, Sealed sodium sender recipient message ciphertext) →
      decryptMessage sodium ciphertext sender.publicKeyB64 recipient.privateKeyB64 = .ok none) ∧
    ∀ nonce message fault, nonce.length = nonceBytes → encryptMessage sodium nonce message
      recipient.publicKeyB64 sender.privateKeyB64 ≠ .error fault := by
  have accepts : ∀ message, decryptMessage sodium ciphertext sender.publicKeyB64
      recipient.privateKeyB64 = .ok (some message) ↔
        Sealed sodium sender recipient message ciphertext := by
    intro message
    rw [decryptMessage_eq box, Except.ok.injEq, decrypt_iff_encrypt box agreed]
    apply exists_congr
    intro nonce
    apply and_congr_right
    intro size
    rw [encryptMessage_eq box size, Except.ok.injEq]
  refine ⟨accepts, fun unsealed => ?_, fun nonce message fault size => ?_⟩
  · rw [decryptMessage_eq box]
    cases decrypted : Crypto.decryptMessage sodium ciphertext sender.publicKeyB64
        recipient.privateKeyB64 with
    | none => rfl
    | some message =>
        refine absurd ⟨message, (accepts message).mp ?_⟩ unsealed
        rw [decryptMessage_eq box, decrypted]
  · rw [encryptMessage_eq box size]
    exact nofun

/-- A box marked by sixteen zeroes, whatever the keys. -/
def marked : Sodium where
  ready := true
  cryptoBoxEasy message _ _ _ := some (List.replicate macBytes 0 ++ message)
  cryptoBoxOpenEasy ciphertext _ _ _ :=
    if ciphertext.take macBytes = List.replicate macBytes 0 then some (ciphertext.drop macBytes)
    else none
  cryptoGenerichash message _ := message

def marked_box : Box marked where
  beforenm _ _ := some []
  easyAfternm message _ _ := List.replicate macBytes 0 ++ message
  openEasyAfternm ciphertext _ _ :=
    if ciphertext.take macBytes = List.replicate macBytes 0 then some (ciphertext.drop macBytes)
    else none
  easy _ _ _ _ := rfl
  openEasy _ _ _ _ := rfl
  overhead message _ _ := by
    rw [List.length_append, List.length_replicate, Nat.add_comm]
  opens ciphertext nonce shared message _ := by
    split
    · next front =>
      rw [Option.some.injEq, ← front]
      constructor
      · rintro rfl
        exact List.take_append_drop _ _
      · intro same
        have whole := same.trans (List.take_append_drop macBytes ciphertext).symm
        exact (List.append_cancel_left whole).symm
    · next other =>
      refine iff_of_false nofun ?_
      rintro rfl
      exact other (List.take_left' List.length_replicate)

/-- The empty message, sealed with the nonce of zeroes. -/
theorem opened_marked :
    decryptMessage marked (Crypto.binToBase64 (List.replicate 40 0))
      (KeyPair.filled 1).publicKeyB64 (KeyPair.filled 2).privateKeyB64 = .ok (some []) := by
  have exactly := @opened_exactly marked (.filled 1) (.filled 2) marked_box rfl
    (Crypto.binToBase64 (List.replicate 40 0))
  exact (exactly.1 []).mpr ⟨List.replicate 24 0, rfl, by decide +kernel⟩

end NoMiddle.Sealing
