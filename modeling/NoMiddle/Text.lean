import Mathlib.Data.List.TakeWhile
import Mathlib.Tactic

/-! Byte strings as the program handles them: `std::string` values of any bytes,
their view as C strings, and the JSON values that cross the network. Dumping a
value and loading it again is taken to be the identity, so a body is the value. -/
namespace NoMiddle.Text

abbrev Str := List UInt8

/-- The bytes of an ASCII literal. -/
def str (literal : String) : Str := literal.toList.map fun char => char.toNat.toUInt8

/-- What `sqlite3_bind_text` with length -1 stores of `s.c_str()`. -/
def cstr (text : Str) : Str := text.takeWhile (· ≠ 0)

def Clean (text : Str) : Prop := 0 ∉ text

instance (text : Str) : Decidable (Clean text) := inferInstanceAs (Decidable (0 ∉ text))

theorem cstr_clean (text : Str) : Clean (cstr text) := by
  intro member
  simpa using List.mem_takeWhile_imp member

theorem cstr_of_clean {text : Str} (clean : Clean text) : cstr text = text := by
  refine List.takeWhile_eq_self_iff.mpr fun char member => ?_
  simpa using ne_of_mem_of_not_mem member clean

@[simp] theorem cstr_cstr (text : Str) : cstr (cstr text) = cstr text :=
  cstr_of_clean (cstr_clean text)

@[simp] theorem cstr_nil : cstr [] = [] := rfl

/-! Objects keep their fields in order; a key is looked up at its first
occurrence, and no value the program builds repeats one. -/
inductive Json where
  | null
  | bool (value : Bool)
  | num (value : Int)
  | str (text : Str)
  | arr (items : List Json)
  | obj (fields : List (String × Json))

def digit (char : UInt8) : Option Nat :=
  if 48 ≤ char.toNat ∧ char.toNat ≤ 57 then some (char.toNat - 48) else none

def number : Str → Nat → Nat
  | [], total => total
  | char :: rest, total =>
      match digit char with
      | some value => number rest (total * 10 + value)
      | none => total

def isSpace (char : UInt8) : Bool := char = 32 || (9 ≤ char.toNat && char.toNat ≤ 13)

/-- Reading an `int64_t` from a string stream: leading blanks, an optional sign
and digits; nothing readable gives 0 and an overflow the nearest bound. -/
def lexicalCast (text : Str) : Int :=
  match text.dropWhile isSpace with
  | 45 :: rest => max (-2 ^ 63) (-(number rest 0))
  | 43 :: rest => min (2 ^ 63 - 1) (number rest 0)
  | rest => min (2 ^ 63 - 1) (number rest 0)

namespace Json

/-- `data[key]`, which throws when the key is missing. -/
def get? (data : Json) (key : String) : Option Json :=
  match data with
  | obj fields => fields.lookup key
  | _ => none

/-- A conjunction of `data.has(key)`, which throws on a value that is no container. -/
def hasAll? (data : Json) (keys : List String) : Option Bool :=
  match data with
  | obj fields => some (keys.all fun key => (fields.lookup key).isSome)
  | arr _ => some keys.isEmpty
  | _ => none

/-- `data.has(key)` where it cannot throw any more. -/
def has (data : Json) (key : String) : Bool := (data.get? key).isSome

/-- `data[key].s()`, which throws on anything but a string. -/
def s? (data : Json) (key : String) : Option Str :=
  match data.get? key with
  | some (str text) => some text
  | _ => none

/-- `data[key].i()`, which reads numbers and strings. -/
def i? (data : Json) (key : String) : Option Int :=
  match data.get? key with
  | some (num value) => some value
  | some (str text) => some (lexicalCast text)
  | _ => none

/-- `data.has(key) && data[key].t() == String`, with the string. -/
def optional (data : Json) (key : String) : Option Str := data.s? key

/-- `data[key].t() == True`. -/
def isTrue (data : Json) (key : String) : Bool :=
  match data.get? key with
  | some (bool true) => true
  | _ => false

/-- What `for (const auto &e : data[key])` runs over. -/
def items? (data : Json) (key : String) : Option (List Json) :=
  match data.get? key with
  | some (arr items) => some items
  | some (obj fields) => some (fields.map (·.2))
  | _ => none

theorem get?_of_s? {body : Json} {key : String} {text : Str} (found : body.s? key = some text) :
    (body.get? key).isSome = true := by
  unfold s? at found
  split at found
  · next there => simp [there]
  · cases found

theorem get?_of_i? {body : Json} {key : String} {value : Int} (found : body.i? key = some value) :
    (body.get? key).isSome = true := by
  unfold i? at found
  split at found
  · next there => simp [there]
  · next there => simp [there]
  · cases found

/-- A body whose fields can be read passes the check for them. -/
theorem hasAll?_of_get? {body : Json} {keys : List String} (nonempty : keys ≠ [])
    (present : ∀ key ∈ keys, (body.get? key).isSome = true) : body.hasAll? keys = some true := by
  obtain ⟨key, member⟩ := List.exists_mem_of_ne_nil keys nonempty
  cases body with
  | obj fields => exact congrArg some (List.all_eq_true.mpr present)
  | _ => cases present key member

end Json
end NoMiddle.Text
