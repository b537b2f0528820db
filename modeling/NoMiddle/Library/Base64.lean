import Mathlib.Tactic

/-! Padded base64 over an arbitrary alphabet. The decoder accepts exactly what the
encoder produces: full groups of four, the padding the length asks for and no
stray bits before it. -/
namespace Library.Base64

structure Alphabet where
  symbol : Nat → UInt8
  value : UInt8 → Option Nat
  pad : UInt8
  value_symbol : ∀ digit, digit < 64 → value (symbol digit) = some digit
  symbol_value : ∀ char digit, value char = some digit → digit < 64 ∧ symbol digit = char
  value_pad : value pad = none

namespace Alphabet

def ofSymbols (symbols : List UInt8) (pad : UInt8) (size : symbols.length = 64)
    (distinct : symbols.Nodup) (fresh : pad ∉ symbols) : Alphabet where
  symbol digit := symbols.getD digit 0
  value char := if char ∈ symbols then some (symbols.idxOf char) else none
  pad := pad
  value_symbol := by
    intro digit small
    have bound : digit < symbols.length := size ▸ small
    simp [List.getElem?_eq_getElem bound, distinct.idxOf_getElem]
  symbol_value := by
    intro char digit found
    by_cases member : char ∈ symbols
    · simp only [member, ↓reduceIte, Option.some.injEq] at found
      subst found
      have bound := List.idxOf_lt_length_of_mem member
      exact ⟨size ▸ bound, by simp [List.getElem?_eq_getElem bound]⟩
    · simp [member] at found
  value_pad := by simp [fresh]

end Alphabet

variable (alphabet : Alphabet)

def byte (number : Nat) : UInt8 := UInt8.ofNat number

def encode : List UInt8 → List UInt8
  | [] => []
  | [a] =>
      [alphabet.symbol (a.toNat / 4), alphabet.symbol (a.toNat % 4 * 16),
        alphabet.pad, alphabet.pad]
  | [a, b] =>
      [alphabet.symbol (a.toNat / 4), alphabet.symbol (a.toNat % 4 * 16 + b.toNat / 16),
        alphabet.symbol (b.toNat % 16 * 4), alphabet.pad]
  | a :: b :: c :: rest =>
      alphabet.symbol (a.toNat / 4) :: alphabet.symbol (a.toNat % 4 * 16 + b.toNat / 16) ::
        alphabet.symbol (b.toNat % 16 * 4 + c.toNat / 64) :: alphabet.symbol (c.toNat % 64) ::
        encode rest

/-- The last group may end in padding, any other may not. -/
def decode : List UInt8 → Option (List UInt8)
  | [] => some []
  | w :: x :: y :: z :: rest =>
      match alphabet.value w, alphabet.value x with
      | some p, some q =>
          if y = alphabet.pad then
            if z = alphabet.pad ∧ rest = [] ∧ q % 16 = 0 then some [byte (p * 4 + q / 16)]
            else none
          else
            match alphabet.value y with
            | none => none
            | some r =>
                if z = alphabet.pad then
                  if rest = [] ∧ r % 4 = 0 then
                    some [byte (p * 4 + q / 16), byte (q % 16 * 16 + r / 4)]
                  else none
                else
                  match alphabet.value z, decode rest with
                  | some s, some tail =>
                      some (byte (p * 4 + q / 16) :: byte (q % 16 * 16 + r / 4) ::
                        byte (r % 4 * 64 + s) :: tail)
                  | _, _ => none
      | _, _ => none
  | _ => none

variable {alphabet}

theorem byte_eq (byte : UInt8) (number : Nat) (same : number = byte.toNat) :
    Base64.byte number = byte := by
  subst same
  simp [Base64.byte]

theorem byte_toNat (number : Nat) (small : number < 256) : (byte number).toNat = number := by
  simpa [byte] using Nat.mod_eq_of_lt small

theorem symbol_ne_pad (alphabet : Alphabet) (digit : Nat) (small : digit < 64) :
    alphabet.symbol digit ≠ alphabet.pad := by
  intro same
  have decoded := alphabet.value_symbol digit small
  rw [same, alphabet.value_pad] at decoded
  cases decoded

theorem decode_encode (bytes : List UInt8) : decode alphabet (encode alphabet bytes) = some bytes := by
  induction bytes using encode.induct with
  | case1 => rfl
  | case2 a =>
      have small := a.toNat_lt
      simp only [encode, decode, alphabet.value_symbol (a.toNat / 4) (by omega),
        alphabet.value_symbol (a.toNat % 4 * 16) (by omega)]
      rw [byte_eq a _ (by omega)]
      simp only [true_and, ↓reduceIte]
      rw [if_pos (by omega)]
  | case3 a b =>
      have smallA := a.toNat_lt
      have smallB := b.toNat_lt
      simp only [encode, decode, alphabet.value_symbol (a.toNat / 4) (by omega),
        alphabet.value_symbol (a.toNat % 4 * 16 + b.toNat / 16) (by omega),
        alphabet.value_symbol (b.toNat % 16 * 4) (by omega),
        symbol_ne_pad alphabet (b.toNat % 16 * 4) (by omega)]
      rw [byte_eq a _ (by omega), byte_eq b _ (by omega)]
      simp only [true_and, ↓reduceIte]
      rw [if_pos (by omega)]
  | case4 a b c rest ih =>
      have smallA := a.toNat_lt
      have smallB := b.toNat_lt
      have smallC := c.toNat_lt
      simp only [encode, decode, alphabet.value_symbol (a.toNat / 4) (by omega),
        alphabet.value_symbol (a.toNat % 4 * 16 + b.toNat / 16) (by omega),
        alphabet.value_symbol (b.toNat % 16 * 4 + c.toNat / 64) (by omega),
        alphabet.value_symbol (c.toNat % 64) (by omega),
        symbol_ne_pad alphabet (b.toNat % 16 * 4 + c.toNat / 64) (by omega),
        symbol_ne_pad alphabet (c.toNat % 64) (by omega), ih]
      rw [byte_eq a _ (by omega), byte_eq b _ (by omega), byte_eq c _ (by omega)]
      simp

theorem encode_injective {left right : List UInt8}
    (same : encode alphabet left = encode alphabet right) : left = right := by
  have decoded : decode alphabet (encode alphabet left) = some left := decode_encode left
  rw [same, decode_encode] at decoded
  exact (Option.some.inj decoded).symm

theorem first_digit {p q : Nat} (low : p < 64) (high : q < 64) :
    (byte (p * 4 + q / 16)).toNat / 4 = p ∧ (byte (p * 4 + q / 16)).toNat % 4 = q / 16 := by
  rw [byte_toNat _ (by omega)]
  omega

theorem second_digit {q r : Nat} (high : r < 64) :
    (byte (q % 16 * 16 + r / 4)).toNat / 16 = q % 16 ∧
      (byte (q % 16 * 16 + r / 4)).toNat % 16 = r / 4 := by
  rw [byte_toNat _ (by omega)]
  omega

theorem third_digit {r s : Nat} (high : s < 64) :
    (byte (r % 4 * 64 + s)).toNat / 64 = r % 4 ∧ (byte (r % 4 * 64 + s)).toNat % 64 = s := by
  rw [byte_toNat _ (by omega)]
  omega

theorem encode_decode (text bytes : List UInt8) (decoded : decode alphabet text = some bytes) :
    encode alphabet bytes = text := by
  induction text using decode.induct alphabet generalizing bytes with
  | case1 => simp_all [decode, encode]
  | case2 w x z rest p q second first ending =>
      obtain ⟨rfl, rfl, even⟩ := ending
      have ⟨low, symbolW⟩ := alphabet.symbol_value w p first
      have ⟨high, symbolX⟩ := alphabet.symbol_value x q second
      have same : bytes = [byte (p * 4 + q / 16)] := by simpa [decode, first, second, even] using decoded.symm
      have ⟨one, two⟩ := first_digit low high
      have whole : q / 16 * 16 = q := by omega
      simp [same, encode, one, two, whole, symbolW, symbolX]
  | case5 w x y rest p q second first notPad r third ending =>
      obtain ⟨rfl, even⟩ := ending
      have ⟨low, symbolW⟩ := alphabet.symbol_value w p first
      have ⟨high, symbolX⟩ := alphabet.symbol_value x q second
      have ⟨last, symbolY⟩ := alphabet.symbol_value y r third
      have same : bytes = [byte (p * 4 + q / 16), byte (q % 16 * 16 + r / 4)] := by
        simpa [decode, first, second, third, notPad, even] using decoded.symm
      have ⟨one, two⟩ := first_digit low high
      have ⟨three, four⟩ := second_digit (q := q) last
      have wholeX : q / 16 * 16 + q % 16 = q := by omega
      have wholeY : r / 4 * 4 = r := by omega
      simp [same, encode, one, two, three, four, wholeX, wholeY, symbolW, symbolX, symbolY]
  | case7 w x y z rest p q second first notPad r third notPad' s tail decodedTail fourth ih =>
      have ⟨low, symbolW⟩ := alphabet.symbol_value w p first
      have ⟨high, symbolX⟩ := alphabet.symbol_value x q second
      have ⟨last, symbolY⟩ := alphabet.symbol_value y r third
      have ⟨final, symbolZ⟩ := alphabet.symbol_value z s fourth
      have same : bytes = byte (p * 4 + q / 16) :: byte (q % 16 * 16 + r / 4) ::
          byte (r % 4 * 64 + s) :: tail := by
        simpa [decode, first, second, third, fourth, notPad, notPad', decodedTail] using decoded.symm
      have ⟨one, two⟩ := first_digit low high
      have ⟨three, four⟩ := second_digit (q := q) last
      have ⟨five, six⟩ := third_digit (r := r) final
      have wholeX : q / 16 * 16 + q % 16 = q := by omega
      have wholeY : r / 4 * 4 + r % 4 = r := by omega
      simp [same, encode, one, two, three, four, five, six, wholeX, wholeY, symbolW, symbolX,
        symbolY, symbolZ, ih tail decodedTail]
  | _ => simp_all [decode]

theorem decode_eq_some (text bytes : List UInt8) :
    decode alphabet text = some bytes ↔ encode alphabet bytes = text := by
  constructor
  · exact encode_decode text bytes
  · rintro rfl
    exact decode_encode bytes

theorem length_encode (bytes : List UInt8) :
    (encode alphabet bytes).length = (bytes.length + 2) / 3 * 4 := by
  induction bytes using encode.induct with
  | case1 => rfl
  | case2 a => simp [encode]
  | case3 a b => simp [encode]
  | case4 a b c rest ih =>
      simp only [encode, List.length_cons, ih]
      omega

theorem mem_encode {char : UInt8} (bytes : List UInt8) (member : char ∈ encode alphabet bytes) :
    char = alphabet.pad ∨ ∃ digit < 64, alphabet.symbol digit = char := by
  induction bytes using encode.induct with
  | case1 => simp [encode] at member
  | case2 a =>
      have small := a.toNat_lt
      simp only [encode, List.mem_cons, List.not_mem_nil, or_false] at member
      rcases member with rfl | rfl | rfl | rfl
      · exact .inr ⟨_, by omega, rfl⟩
      · exact .inr ⟨_, by omega, rfl⟩
      · exact .inl rfl
      · exact .inl rfl
  | case3 a b =>
      have smallA := a.toNat_lt
      have smallB := b.toNat_lt
      simp only [encode, List.mem_cons, List.not_mem_nil, or_false] at member
      rcases member with rfl | rfl | rfl | rfl
      · exact .inr ⟨_, by omega, rfl⟩
      · exact .inr ⟨_, by omega, rfl⟩
      · exact .inr ⟨_, by omega, rfl⟩
      · exact .inl rfl
  | case4 a b c rest ih =>
      have smallA := a.toNat_lt
      have smallB := b.toNat_lt
      have smallC := c.toNat_lt
      simp only [encode, List.mem_cons] at member
      rcases member with rfl | rfl | rfl | rfl | later
      · exact .inr ⟨_, by omega, rfl⟩
      · exact .inr ⟨_, by omega, rfl⟩
      · exact .inr ⟨_, by omega, rfl⟩
      · exact .inr ⟨_, by omega, rfl⟩
      · exact ih later

end Library.Base64
