import NoMiddle.Library.Base64
import NoMiddle.Text

/-! Keys and sealed messages. libsodium's primitives are parameters; the formats
around them, base64 and the framing of nonce and box, are the program's own. -/
namespace NoMiddle.Crypto
open Library Text

structure Sodium where
  /-- `sodium_init() >= 0`. -/
  ready : Bool
  cryptoBoxEasy : (message nonce publicKey secretKey : Str) → Option Str
  cryptoBoxOpenEasy : (ciphertext nonce publicKey secretKey : Str) → Option Str
  cryptoGenerichash : (message key : Str) → Str

def publicKeyBytes : Nat := 32
def secretKeyBytes : Nat := 32
def nonceBytes : Nat := 24
def macBytes : Nat := 16

def original : Base64.Alphabet :=
  .ofSymbols (str "ABCDEFGHIJKLMNOPQRSTUVWXYZabcdefghijklmnopqrstuvwxyz0123456789+/") 61
    (by decide +kernel) (by decide +kernel) (by decide +kernel)

def urlsafe : Base64.Alphabet :=
  .ofSymbols (str "ABCDEFGHIJKLMNOPQRSTUVWXYZabcdefghijklmnopqrstuvwxyz0123456789-_") 61
    (by decide +kernel) (by decide +kernel) (by decide +kernel)

def binToBase64 (data : Str) : Str := Base64.encode original data

def base64ToBin (b64 : Str) (outLen : Nat) : Option Str :=
  match Base64.decode original b64 with
  | some bytes => if bytes.length = outLen then some bytes else none
  | none => none

def b64urlEncode (data : Str) : Str := Base64.encode urlsafe data

def hashSecret (sodium : Sodium) (secret salt : Str) : Str :=
  b64urlEncode (sodium.cryptoGenerichash secret salt)

/-- The keys a node starts with, as raw bytes of the sizes `crypto_box` fixes. -/
structure KeyPair where
  publicKey : Str
  privateKey : Str
  publicSize : publicKey.length = publicKeyBytes
  privateSize : privateKey.length = secretKeyBytes

def KeyPair.publicKeyB64 (keys : KeyPair) : Str := binToBase64 keys.publicKey
def KeyPair.privateKeyB64 (keys : KeyPair) : Str := binToBase64 keys.privateKey

/-- The nonce is drawn by the caller. -/
def encryptMessage (sodium : Sodium) (nonce plaintext recipientPublicKey senderPrivateKey : Str) :
    Option Str :=
  if !sodium.ready then none
  else
    match base64ToBin recipientPublicKey publicKeyBytes with
    | none => none
    | some recipientPk =>
        match base64ToBin senderPrivateKey secretKeyBytes with
        | none => none
        | some senderSk =>
            match sodium.cryptoBoxEasy plaintext nonce recipientPk senderSk with
            | none => none
            | some ciphertext => some (binToBase64 (nonce ++ ciphertext))

def decryptMessage (sodium : Sodium) (ciphertext senderPublicKey recipientPrivateKey : Str) :
    Option Str :=
  if !sodium.ready then none
  else
    match base64ToBin senderPublicKey publicKeyBytes with
    | none => none
    | some senderPk =>
        match base64ToBin recipientPrivateKey secretKeyBytes with
        | none => none
        | some recipientSk =>
            match Base64.decode original ciphertext with
            | none => none
            | some blob =>
                if blob.length < nonceBytes + macBytes then none
                else
                  sodium.cryptoBoxOpenEasy (blob.drop nonceBytes) (blob.take nonceBytes)
                    senderPk recipientSk

theorem symbol_clean (digit : Nat) (small : digit < 64) : original.symbol digit ≠ 0 := by
  have all : ∀ digit < 64, original.symbol digit ≠ 0 := by decide +kernel
  exact all digit small

theorem binToBase64_clean (data : Str) : Clean (binToBase64 data) := by
  intro member
  rcases Base64.mem_encode data member with pad | ⟨digit, small, symbol⟩
  · exact absurd pad (by decide)
  · exact symbol_clean digit small symbol

theorem b64urlEncode_clean (data : Str) : Clean (b64urlEncode data) := by
  have nonzero : ∀ digit < 64, urlsafe.symbol digit ≠ 0 := by decide +kernel
  intro member
  rcases Base64.mem_encode data member with pad | ⟨digit, small, symbol⟩
  · exact absurd pad (by decide)
  · exact nonzero digit small symbol

theorem b64urlEncode_injective {left right : Str} (same : b64urlEncode left = b64urlEncode right) :
    left = right :=
  Base64.encode_injective same

theorem b64urlEncode_ne_nil {data : Str} (nonempty : data ≠ []) : b64urlEncode data ≠ [] :=
  fun empty => nonempty (b64urlEncode_injective (empty.trans rfl : _ = b64urlEncode []))

@[simp] theorem publicKeyB64_clean (keys : KeyPair) : Clean keys.publicKeyB64 :=
  binToBase64_clean _

theorem base64ToBin_eq_some (b64 bytes : Str) (size : Nat) :
    base64ToBin b64 size = some bytes ↔ binToBase64 bytes = b64 ∧ bytes.length = size := by
  unfold base64ToBin binToBase64
  rw [← Base64.decode_eq_some]
  cases decoded : Base64.decode original b64 with
  | none => simp
  | some other =>
      by_cases fits : other.length = size
      · simp only [fits, ↓reduceIte, Option.some.injEq]
        constructor
        · rintro rfl
          exact ⟨rfl, fits⟩
        · exact fun same => same.1
      · simp only [fits, ↓reduceIte, Option.some.injEq]
        constructor
        · rintro ⟨⟩
        · rintro ⟨rfl, size⟩
          exact absurd size fits

theorem base64ToBin_clean {b64 bytes : Str} {size : Nat} (decoded : base64ToBin b64 size = some bytes) :
    Clean b64 := by
  rw [← ((base64ToBin_eq_some b64 bytes size).mp decoded).1]
  exact binToBase64_clean bytes

theorem base64ToBin_publicKey (keys : KeyPair) :
    base64ToBin keys.publicKeyB64 publicKeyBytes = some keys.publicKey :=
  (base64ToBin_eq_some _ _ _).mpr ⟨rfl, keys.publicSize⟩

theorem base64ToBin_privateKey (keys : KeyPair) :
    base64ToBin keys.privateKeyB64 secretKeyBytes = some keys.privateKey :=
  (base64ToBin_eq_some _ _ _).mpr ⟨rfl, keys.privateSize⟩

theorem publicKeyB64_injective {left right : KeyPair}
    (same : left.publicKeyB64 = right.publicKeyB64) : left.publicKey = right.publicKey := by
  have decoded := base64ToBin_publicKey left
  rw [same, base64ToBin_publicKey right] at decoded
  exact (Option.some.inj decoded).symm

/-- What a successful encryption says about its inputs and its result. -/
theorem encryptMessage_eq_some {sodium : Sodium} {nonce plaintext recipient sender result : Str}
    (encrypted : encryptMessage sodium nonce plaintext recipient sender = some result) :
    sodium.ready = true ∧ ∃ recipientPk senderSk box,
      base64ToBin recipient publicKeyBytes = some recipientPk ∧
      base64ToBin sender secretKeyBytes = some senderSk ∧
      sodium.cryptoBoxEasy plaintext nonce recipientPk senderSk = some box ∧
      result = binToBase64 (nonce ++ box) := by
  unfold encryptMessage at encrypted
  split at encrypted
  · cases encrypted
  · next notReady =>
    split at encrypted
    · cases encrypted
    · next recipientPk recipientKey =>
      split at encrypted
      · cases encrypted
      · next senderSk senderKey =>
        split at encrypted
        · cases encrypted
        · next box sealed =>
          exact ⟨by simpa using notReady, recipientPk, senderSk, box, recipientKey, senderKey,
            sealed, (Option.some.inj encrypted).symm⟩

theorem encryptMessage_clean {sodium : Sodium} {nonce plaintext recipient sender result : Str}
    (encrypted : encryptMessage sodium nonce plaintext recipient sender = some result) :
    Clean result ∧ Clean recipient := by
  obtain ⟨_, _, _, box, recipientKey, _, _, rfl⟩ := encryptMessage_eq_some encrypted
  exact ⟨binToBase64_clean _, base64ToBin_clean recipientKey⟩

/-- What a successful decryption says about its inputs. -/
theorem decryptMessage_eq_some {sodium : Sodium} {ciphertext sender recipient plaintext : Str}
    (decrypted : decryptMessage sodium ciphertext sender recipient = some plaintext) :
    ∃ senderPk recipientSk blob, base64ToBin sender publicKeyBytes = some senderPk ∧
      base64ToBin recipient secretKeyBytes = some recipientSk ∧
      Base64.decode original ciphertext = some blob ∧
      sodium.cryptoBoxOpenEasy (blob.drop nonceBytes) (blob.take nonceBytes) senderPk recipientSk =
        some plaintext := by
  unfold decryptMessage at decrypted
  split at decrypted
  · cases decrypted
  · split at decrypted
    · cases decrypted
    · next senderPk senderKey =>
      split at decrypted
      · cases decrypted
      · next recipientSk recipientKey =>
        split at decrypted
        · cases decrypted
        · next blob decoded =>
          split at decrypted
          · cases decrypted
          · exact ⟨senderPk, recipientSk, blob, senderKey, recipientKey, decoded, decrypted⟩

theorem decryptMessage_clean {sodium : Sodium} {ciphertext sender recipient plaintext : Str}
    (decrypted : decryptMessage sodium ciphertext sender recipient = some plaintext) :
    Clean ciphertext ∧ Clean sender := by
  obtain ⟨_, _, blob, senderKey, _, decoded, _⟩ := decryptMessage_eq_some decrypted
  rw [← Base64.encode_decode ciphertext blob decoded]
  exact ⟨binToBase64_clean blob, base64ToBin_clean senderKey⟩

/-- `crypto_box` is correct between two nodes: a box opens to what was sealed and
is 16 bytes longer. -/
def Sodium.Correct (sodium : Sodium) (sender recipient : KeyPair) : Prop :=
  ∀ message nonce box,
    sodium.cryptoBoxEasy message nonce recipient.publicKey sender.privateKey = some box →
    box.length = message.length + macBytes ∧
      sodium.cryptoBoxOpenEasy box nonce sender.publicKey recipient.privateKey = some message

/-- Between such nodes, decryption takes back encryption. -/
theorem decrypt_encrypt {sodium : Sodium} {sender recipient : KeyPair}
    (correct : sodium.Correct sender recipient) {nonce plaintext ciphertext : Str}
    (size : nonce.length = nonceBytes)
    (encrypted : encryptMessage sodium nonce plaintext recipient.publicKeyB64
      sender.privateKeyB64 = some ciphertext) :
    decryptMessage sodium ciphertext sender.publicKeyB64 recipient.privateKeyB64 =
      some plaintext := by
  obtain ⟨ready, recipientPk, senderSk, box, recipientKey, senderKey, sealed, rfl⟩ :=
    encryptMessage_eq_some encrypted
  rw [base64ToBin_publicKey] at recipientKey
  rw [base64ToBin_privateKey] at senderKey
  cases recipientKey
  cases senderKey
  obtain ⟨length, opened⟩ := correct _ _ _ sealed
  have decoded : Base64.decode original (binToBase64 (nonce ++ box)) = some (nonce ++ box) :=
    Base64.decode_encode _
  have long : ¬(nonce ++ box).length < nonceBytes + macBytes := by
    rw [List.length_append, size, length]
    omega
  simp only [decryptMessage, ready, Bool.not_true, Bool.false_eq_true, ↓reduceIte,
    base64ToBin_publicKey, base64ToBin_privateKey, decoded, long]
  rw [← size, List.drop_left, List.take_left]
  exact opened

/-- A box that hides nothing. It meets the assumption, so the results that rest on
it are about something, and runs can be evaluated with it. -/
def Sodium.transparent : Sodium where
  ready := true
  cryptoBoxEasy message _ _ _ := some (List.replicate macBytes 0 ++ message)
  cryptoBoxOpenEasy ciphertext _ _ _ := some (ciphertext.drop macBytes)
  cryptoGenerichash message _ := message

theorem transparent_correct (sender recipient : KeyPair) :
    Sodium.transparent.Correct sender recipient := by
  rintro message nonce box ⟨⟩
  constructor
  · rw [List.length_append, List.length_replicate, Nat.add_comm]
  · exact congrArg some (List.drop_left' List.length_replicate)

/-- A key pair of one repeated byte. -/
def KeyPair.filled (byte : UInt8) : KeyPair :=
  ⟨List.replicate 32 byte, List.replicate 32 byte, List.length_replicate, List.length_replicate⟩

end NoMiddle.Crypto
