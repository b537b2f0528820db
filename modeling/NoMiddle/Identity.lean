import NoMiddle.Disk

/-! The identity of a node is a key pair, and what is kept of it is the private key in a
file next to the database. It stays the same from one start to the next as long as the file
is whole, and the file is found as long as it is where the database is. -/
namespace NoMiddle.Identity
open Library Text Crypto Disk

/-- `crypto_scalarmult_base`, which makes a public key of a private one. -/
structure Curve where
  scalarmultBase : Str → Str
  size : ∀ secret, secret.length = secretKeyBytes → (scalarmultBase secret).length = publicKeyBytes

def openOut (path : Str) : FileProc Bool := Disk.perform (.openOut (cstr path))
def write (path data : Str) : FileProc Bool := Disk.perform (.write (cstr path) data)
def close (path : Str) : FileProc Unit := Disk.perform (.close (cstr path))
def chmod (path : Str) : FileProc Unit := Disk.perform (.chmod (cstr path))
def cryptoBoxKeypair : FileProc KeyPair := Disk.perform .cryptoBoxKeypair

/-- A write that fails is only logged. -/
def generateAndSaveKeypair (ready : Bool) (privateKeyPath : Str) : FileProc (Option KeyPair) := do
  if !ready then return none
  let keys ← cryptoBoxKeypair
  if !(← openOut privateKeyPath) then return none
  let _good ← write privateKeyPath keys.privateKey
  close privateKeyPath
  chmod privateKeyPath
  return some keys

def loadOrCreateKeypair (curve : Curve) (ready : Bool) (privateKeyPath : Str) :
    FileProc (Option KeyPair) := do
  if !ready then return none
  if !(← openIn privateKeyPath) then
    generateAndSaveKeypair ready privateKeyPath
  else
    let sk ← Disk.perform (.read (cstr privateKeyPath) (some secretKeyBytes))
    if whole : sk.length = secretKeyBytes then
      return some ⟨curve.scalarmultBase sk, sk, curve.size sk whole, whole⟩
    else
      return none

abbrev Files := Str → Option Str

/-- How the file system and the random generator answer one start. A write may store less
than it was given, and say so or not. -/
structure Outcome (curve : Curve) where
  readable : Bool
  writable : Bool
  stored : Nat
  good : Bool
  keys : KeyPair
  derived : keys.publicKey = curve.scalarmultBase keys.privateKey

variable {curve : Curve}

def handle (outcome : Outcome curve) (operation : FileOp) (files : Files) :
    operation.Res × Files :=
  match operation with
  | .openIn path => (outcome.readable && (files path).isSome, files)
  | .read path size =>
      let contents := (files path).getD []
      (match size with
        | some size => contents.take size
        | none => contents, files)
  | .openOut path =>
      (outcome.writable, if outcome.writable then Function.update files path (some []) else files)
  | .write path data =>
      (outcome.good, Function.update files path
        ((files path).map fun contents => contents ++ data.take outcome.stored))
  | .close _ | .chmod _ => ((), files)
  | .cryptoBoxKeypair => (outcome.keys, files)

/-- One start: what it answers with and the files it leaves. -/
def started (ready : Bool) (path : Str) (outcome : Outcome curve) (files : Files) :
    Option KeyPair × Files :=
  (loadOrCreateKeypair curve ready path).play handle (fun _ => outcome) files

/-- Later starts. Between two of them any file but the key file may change. -/
def restarts (ready : Bool) (path : Str) : List (Outcome curve × Files) → Files →
    List (Option KeyPair)
  | [], _ => []
  | (outcome, elsewhere) :: rest, files =>
      let next := started ready path outcome
        (Function.update elsewhere (cstr path) (files (cstr path)))
      next.1 :: restarts ready path rest next.2

/-- Once a start has answered with keys, every later one that can read the file does so with
the same keys. -/
def Stable (ready : Bool) (path : Str) (outcome : Outcome curve) (files : Files) : Prop :=
  ∀ keys, (started ready path outcome files).1 = some keys →
    ∀ later : List (Outcome curve × Files), (∀ start ∈ later, start.1.readable = true) →
      ∀ answer ∈ restarts ready path later (started ready path outcome files).2,
        answer = some keys

/-- A key that has to be made is stored as a whole. -/
def Persists (ready : Bool) (path : Str) (outcome : Outcome curve) (files : Files) : Prop :=
  ready = true → (outcome.readable && (files (cstr path)).isSome) = false →
    outcome.writable = true → secretKeyBytes ≤ outcome.stored

/-- The file holds the keys. -/
def Holds (curve : Curve) (path : Str) (keys : KeyPair) (files : Files) : Prop :=
  (∃ contents, files (cstr path) = some contents ∧
    contents.take secretKeyBytes = keys.privateKey) ∧
  keys.publicKey = curve.scalarmultBase keys.privateKey

theorem started_loads {path : Str} {outcome : Outcome curve} {files : Files} {contents : Str}
    (readable : outcome.readable = true) (found : files (cstr path) = some contents) :
    started true path outcome files =
      (if whole : (contents.take secretKeyBytes).length = secretKeyBytes then
        some ⟨curve.scalarmultBase (contents.take secretKeyBytes), contents.take secretKeyBytes,
          curve.size _ whole, whole⟩
      else none, files) := by
  simp only [started, loadOrCreateKeypair, openIn, Disk.perform, Program.perform, Program.play_op,
    Program.op_bind, Program.ret_bind, Bool.not_true, Bool.false_eq_true, ↓reduceIte, handle,
    readable, found, Option.isSome_some, Bool.and_true, Option.getD_some]
  split <;> rfl

theorem started_short {path : Str} {outcome : Outcome curve} {files : Files} {contents : Str}
    (readable : outcome.readable = true) (found : files (cstr path) = some contents)
    (short : contents.length < secretKeyBytes) :
    (started true path outcome files).1 = none := by
  rw [started_loads readable found, dif_neg]
  rw [List.length_take]
  omega

theorem started_generates {path : Str} {outcome : Outcome curve} {files : Files}
    (unread : (outcome.readable && (files (cstr path)).isSome) = false) :
    started true path outcome files =
      if outcome.writable then
        (some outcome.keys, Function.update files (cstr path)
          (some (outcome.keys.privateKey.take outcome.stored)))
      else (none, files) := by
  simp only [started, loadOrCreateKeypair, generateAndSaveKeypair, openIn, openOut, write, close,
    chmod, cryptoBoxKeypair, Disk.perform, Program.perform, Program.play_op, Program.op_bind,
    Program.ret_bind, Bool.not_true, Bool.false_eq_true, ↓reduceIte, handle, unread,
    Bool.not_false]
  by_cases writable : outcome.writable = true
  · simp only [writable, Bool.not_true, Bool.false_eq_true, ↓reduceIte, Program.play_op, handle,
      Function.update_self, Option.map_some, List.nil_append, Function.update_idem]
    rfl
  · simp only [writable, Bool.not_false, Bool.false_eq_true, ↓reduceIte]
    rfl

/-- Whoever finds the keys in the file answers with them and leaves them there. -/
theorem started_holds {path : Str} {keys : KeyPair} {outcome : Outcome curve} {files : Files}
    (readable : outcome.readable = true) (holds : Holds curve path keys files) :
    started true path outcome files = (some keys, files) := by
  obtain ⟨⟨contents, found, stored⟩, derived⟩ := holds
  obtain ⟨publicKey, privateKey, publicSize, privateSize⟩ := keys
  dsimp only at stored derived
  subst stored derived
  rw [started_loads readable found, dif_pos privateSize]

/-- What a start leaves when it answers with keys: they are in the file unless they are new
and the write stored less than all of them. -/
theorem started_keys {path : Str} {keys : KeyPair} {outcome : Outcome curve} {files : Files}
    (persists : Persists true path outcome files)
    (answers : (started true path outcome files).1 = some keys) :
    Holds curve path keys (started true path outcome files).2 := by
  cases unread : (outcome.readable && (files (cstr path)).isSome) with
  | true =>
      obtain ⟨readable, present⟩ := Bool.and_eq_true_iff.mp unread
      obtain ⟨contents, found⟩ := Option.isSome_iff_exists.mp present
      rw [started_loads readable found] at answers ⊢
      dsimp only at answers ⊢
      split at answers
      · cases answers
        exact ⟨⟨contents, found, rfl⟩, rfl⟩
      · cases answers
  | false =>
      rw [started_generates unread] at answers ⊢
      by_cases writable : outcome.writable = true
      · have stored := persists rfl unread writable
        rw [if_pos writable] at answers ⊢
        cases answers
        have whole : outcome.keys.privateKey.take outcome.stored = outcome.keys.privateKey :=
          List.take_of_length_le (by rw [outcome.keys.privateSize]; exact stored)
        refine ⟨⟨outcome.keys.privateKey, ?_, ?_⟩, outcome.derived⟩
        · dsimp only
          rw [Function.update_self, whole]
        · exact List.take_of_length_le outcome.keys.privateSize.le
      · rw [if_neg writable] at answers
        cases answers

theorem restarts_hold {path : Str} {keys : KeyPair} {later : List (Outcome curve × Files)}
    {files : Files} (holds : Holds curve path keys files)
    (readable : ∀ start ∈ later, start.1.readable = true) :
    ∀ answer ∈ restarts true path later files, answer = some keys := by
  induction later generalizing files with
  | nil => exact nofun
  | cons start rest ih =>
      obtain ⟨first, others⟩ := List.forall_mem_cons.mp readable
      have kept : Holds curve path keys
          (Function.update start.2 (cstr path) (files (cstr path))) := by
        obtain ⟨⟨contents, found, stored⟩, derived⟩ := holds
        exact ⟨⟨contents, by rw [Function.update_self, found], stored⟩, derived⟩
      rw [restarts, started_holds first kept]
      exact List.forall_mem_cons.mpr ⟨rfl, ih kept others⟩

theorem identity_stable_iff (ready : Bool) (path : Str) (outcome : Outcome curve) (files : Files) :
    Stable ready path outcome files ↔ Persists ready path outcome files := by
  cases ready with
  | false => exact iff_of_true (fun _ answers => nomatch answers) (fun started => nomatch started)
  | true =>
      constructor
      · intro stable _ unread writable
        by_contra short
        -- The next start finds a file that is too short for a key.
        have first := started_generates unread
        rw [if_pos writable] at first
        have cut : (outcome.keys.privateKey.take outcome.stored).length < secretKeyBytes := by
          rw [List.length_take, outcome.keys.privateSize]
          omega
        have again : (started true path { outcome with readable := true }
            (Function.update files (cstr path)
              (some (outcome.keys.privateKey.take outcome.stored)))).1 = none :=
          started_short rfl (Function.update_self ..) cut
        refine absurd (stable outcome.keys (congrArg Prod.fst first)
          [({ outcome with readable := true }, files)] (by simp) none ?_) nofun
        rw [first, restarts]
        dsimp only
        rw [Function.update_self, again]
        exact List.mem_cons_self
      · intro persists keys answers later readable
        exact restarts_hold (started_keys persists answers) readable

/-- A curve on which every private key is its own public key. -/
def flat : Curve := ⟨id, fun _ whole => whole⟩

/-- The first start of a node on a full disk: the file can be made, but nothing be stored. -/
def full : Outcome flat := ⟨true, true, 0, false, KeyPair.filled 7, rfl⟩

theorem full_unstable : ¬Stable true (str "private_key18080.bin") full fun _ => none := by
  intro stable
  exact absurd (stable (KeyPair.filled 7) rfl [(full, fun _ => none)] (by decide) none
    (.head _)) nofun

/-! Where the file is. -/

/-- `text.find_last_of(chars)`. -/
def findLastOf (chars : Str) : Str → Option Nat
  | [] => none
  | char :: rest =>
      match findLastOf chars rest with
      | some index => some (index + 1)
      | none => if char ∈ chars then some 0 else none

def digits (number : Nat) : Str := (Nat.toDigits 10 number).map fun char => char.toNat.toUInt8

/-- `std::to_string`. -/
def toString : Int → Str
  | .ofNat number => digits number
  | .negSucc number => str "-" ++ digits (number + 1)

def keyPathForDb (dbPath : Str) (port : Int) : Str :=
  let dir := match findLastOf (str "/\\") dbPath with
    | none => []
    | some slash => dbPath.take slash
  dir ++ (if dir.isEmpty then [] else str "/") ++ str "private_key" ++ toString port ++ str ".bin"

/-- The name of the file that is opened. -/
def keyFile (dbPath : Str) (port : Int) : Str := cstr (keyPathForDb dbPath port)

/-- The key file of each port is in the directory of the database, has the name it should
have and is no other port's. -/
structure NextTo (working : Paths.Location) (dbPath : Str) : Prop where
  directory : ∀ port, Paths.resolve working (Paths.directory (keyFile dbPath port)) =
    Paths.resolve working (Paths.directory (cstr dbPath))
  name : ∀ port, Paths.name (keyFile dbPath port) =
    str "private_key" ++ toString port ++ str ".bin"
  distinct : ∀ port other, keyFile dbPath port = keyFile dbPath other → port = other

def separator (char : UInt8) : Bool := char ∈ str "/\\"

/-- What stands before the last slash or backslash has no NUL. A slash is not the path's
first character, unless the node runs in the root. Before a backslash there is no directory
name: nothing since the last slash, one dot or, in the root, two. -/
def Apart (working : Paths.Location) (front : Str) (sep : UInt8) : Prop :=
  Clean front ∧
  (sep = Paths.slash → front ≠ [] ∨ working = []) ∧
  (sep ≠ Paths.slash → Paths.name front = [] ∨ Paths.name front = [Paths.dot] ∨
    Paths.name front = [Paths.dot, Paths.dot] ∧
      Paths.resolve working (Paths.directory front) = [])

/-- That of the last of them, if there is one. -/
def Separated (working : Paths.Location) (dbPath : Str) : Prop :=
  ∀ front sep base, dbPath = front ++ sep :: base → separator sep = true →
    (∀ char ∈ base, separator char = false) → Apart working front sep

theorem decimal_char {number : Nat} {char : Char} (member : char ∈ Nat.toDigits 10 number) :
    48 ≤ char.toNat ∧ char.toNat ≤ 57 :=
  Char.isDigit_iff_toNat.mp (Nat.isDigit_of_mem_toDigits (by decide) (by decide) member)

theorem decimal_byte {number : Nat} {char : Char} (member : char ∈ Nat.toDigits 10 number) :
    char.toNat.toUInt8.toNat = char.toNat := by
  have high := (decimal_char member).2
  rw [Nat.toUInt8, UInt8.toNat_ofNat']
  omega

theorem digits_char {number : Nat} {char : UInt8} (member : char ∈ digits number) :
    48 ≤ char.toNat := by
  obtain ⟨digit, among, rfl⟩ := List.mem_map.mp member
  rw [decimal_byte among]
  exact (decimal_char among).1

theorem digits_injective {left right : Nat} (same : digits left = digits right) :
    left = right := by
  -- A digit can be read back from its byte.
  have back : ∀ number, (digits number).map (fun byte => Char.ofNat byte.toNat) =
      Nat.toDigits 10 number := by
    intro number
    rw [digits, List.map_map, List.map_congr_left fun char member => ?_, List.map_id]
    rw [Function.comp_apply, decimal_byte member, Char.ofNat_toNat, id]
  have decimals := congrArg (List.map fun byte => Char.ofNat byte.toNat) same
  rw [back, back] at decimals
  rw [← Nat.ofDigitChars_ten_toDigits (n := left), decimals, Nat.ofDigitChars_ten_toDigits]

theorem toString_char {port : Int} {char : UInt8} (member : char ∈ toString port) :
    char ≠ 0 ∧ char ≠ Paths.slash := by
  have digit : ∀ {number}, char ∈ digits number → char ≠ 0 ∧ char ≠ Paths.slash := by
    intro number among
    have low := digits_char among
    constructor <;> rintro rfl <;> exact absurd low (by decide)
  cases port with
  | ofNat number => exact digit member
  | negSucc number =>
      rcases List.mem_append.mp member with minus | among
      · rw [List.mem_singleton.mp minus]
        decide
      · exact digit among

theorem toString_injective {left right : Int} (same : toString left = toString right) :
    left = right := by
  have apart : ∀ number other, digits number ≠ str "-" ++ digits other := by
    intro number other equal
    have low := digits_char (equal ▸ List.mem_append_left _ (by decide) :
      45 ∈ digits number)
    exact absurd low (by decide)
  cases left with
  | ofNat number =>
      cases right with
      | ofNat other => rw [digits_injective same]
      | negSucc other => exact absurd same (apart number (other + 1))
  | negSucc number =>
      cases right with
      | ofNat other => exact absurd same.symm (apart other (number + 1))
      | negSucc other =>
          have equal := digits_injective (List.append_cancel_left same)
          rw [Nat.succ_injective equal]

theorem findLastOf_none {chars text : Str} (free : ∀ char ∈ text, char ∉ chars) :
    findLastOf chars text = none := by
  induction text with
  | nil => rfl
  | cons char rest ih =>
      obtain ⟨first, later⟩ := List.forall_mem_cons.mp free
      rw [findLastOf, ih later]
      simp [first]

theorem findLastOf_split {chars front base : Str} {char : UInt8} (found : char ∈ chars)
    (free : ∀ later ∈ base, later ∉ chars) :
    findLastOf chars (front ++ char :: base) = some front.length := by
  induction front with
  | nil =>
      rw [List.nil_append, findLastOf, findLastOf_none free]
      simp [found]
  | cons first rest ih =>
      rw [List.cons_append, findLastOf, ih]
      rfl

/-- What the key file of a port is called. -/
def keyName (port : Int) : Str := str "private_key" ++ toString port ++ str ".bin"

theorem keyName_char {port : Int} {char : UInt8} (member : char ∈ keyName port) :
    char ≠ 0 ∧ char ≠ Paths.slash := by
  have plain : ∀ char ∈ str "private_key" ++ str ".bin", char ≠ 0 ∧ char ≠ Paths.slash := by
    decide +kernel
  simp only [keyName, List.mem_append] at member plain
  rcases member with (before | number) | after
  · exact plain char (.inl before)
  · exact toString_char number
  · exact plain char (.inr after)

theorem keyName_clean (port : Int) : Clean (keyName port) :=
  fun member => (keyName_char member).1 rfl

theorem keyName_slashless (port : Int) : Paths.slash ∉ keyName port :=
  fun member => (keyName_char member).2 rfl

theorem keyName_injective {left right : Int} (same : keyName left = keyName right) :
    left = right :=
  toString_injective (List.append_cancel_left (List.append_cancel_right same))

theorem findLastOf_free {dbPath : Str} (free : ∀ char ∈ dbPath, separator char = false) :
    findLastOf (str "/\\") dbPath = none :=
  findLastOf_none fun char member => of_decide_eq_false (free char member)

theorem findLastOf_last {front base : Str} {sep : UInt8} (found : separator sep = true)
    (free : ∀ char ∈ base, separator char = false) :
    findLastOf (str "/\\") (front ++ sep :: base) = some front.length :=
  findLastOf_split (of_decide_eq_true found) fun char member => of_decide_eq_false (free char member)

/-- There is but one last separator. -/
theorem separated_iff {working : Paths.Location} {front base : Str} {sep : UInt8}
    (found : separator sep = true) (free : ∀ char ∈ base, separator char = false) :
    Separated working (front ++ sep :: base) ↔ Apart working front sep := by
  constructor
  · exact fun separated => separated front sep base rfl found free
  · intro apart other sep' base' same found' free'
    have place : findLastOf (str "/\\") (front ++ sep :: base) = some front.length :=
      findLastOf_last found free
    rw [same, findLastOf_last found' free'] at place
    obtain ⟨rfl, tail⟩ := List.append_inj same (Option.some.inj place).symm
    cases tail
    exact apart

theorem keyFile_free {dbPath : Str} (free : ∀ char ∈ dbPath, separator char = false)
    (port : Int) : keyFile dbPath port = [] ++ keyName port := by
  rw [keyFile, keyPathForDb, findLastOf_free free]
  exact cstr_of_clean (keyName_clean port)

theorem keyFile_split {front base : Str} {sep : UInt8} (found : separator sep = true)
    (free : ∀ char ∈ base, separator char = false) (port : Int) :
    keyFile (front ++ sep :: base) port =
      cstr (front ++ ((if front.isEmpty then [] else str "/") ++ keyName port)) := by
  simp only [keyFile, keyPathForDb, findLastOf_last found free, List.take_left, keyName,
    List.append_assoc]

/-- Only the directory can be a wrong one. -/
theorem nextTo_iff {working : Paths.Location} {dbPath dir : Str}
    (named : ∀ port, keyFile dbPath port = dir ++ keyName port)
    (closed : Paths.directory dir = dir) :
    NextTo working dbPath ↔
      Paths.resolve working dir = Paths.resolve working (Paths.directory (cstr dbPath)) := by
  have within : ∀ port, Paths.directory (keyFile dbPath port) = dir := fun port => by
    rw [named, Paths.directory_extend dir (keyName_slashless port), closed]
  constructor
  · intro next
    rw [← next.directory 0, within]
  · intro same
    refine ⟨fun port => by rw [within, same], fun port => ?_, fun port other equal => ?_⟩
    · have whole := Paths.directory_name (keyFile dbPath port)
      rw [within, named] at whole
      rw [named]
      exact List.append_cancel_left whole
    · rw [named, named] at equal
      exact keyName_injective (List.append_cancel_left equal)

theorem cstr_unclean {front : Str} (unclean : ¬Clean front) (back : Str) :
    cstr (front ++ back) = cstr front := by
  obtain ⟨before, after, rfl⟩ := List.append_of_mem (not_not.mp unclean)
  simp [cstr, List.takeWhile_append]

theorem cstr_cons {char : UInt8} (rest : Str) (proper : char ≠ 0) :
    cstr (char :: rest) = char :: cstr rest :=
  List.takeWhile_cons_of_pos (by simpa using proper)

theorem dir_closed (front : Str) :
    Paths.directory (front ++ if front.isEmpty then [] else str "/") =
      front ++ if front.isEmpty then [] else str "/" := by
  cases front with
  | nil => rfl
  | cons char rest =>
      have free : Paths.slash ∉ ([] : Str) := List.not_mem_nil
      exact Paths.directory_append free

theorem keyFile_clean {front base : Str} {sep : UInt8} (clean : Clean front)
    (found : separator sep = true) (free : ∀ char ∈ base, separator char = false) (port : Int) :
    keyFile (front ++ sep :: base) port =
      (front ++ if front.isEmpty then [] else str "/") ++ keyName port := by
  rw [keyFile_split found free, ← List.append_assoc]
  refine cstr_of_clean fun member => ?_
  simp only [List.mem_append] at member
  rcases member with (before | joint) | called
  · exact clean before
  · split at joint
    · cases joint
    · exact absurd joint (by decide)
  · exact keyName_clean port called

theorem key_beside_iff (working : Paths.Location) (dbPath : Str) :
    NextTo working dbPath ↔ Separated working dbPath := by
  rcases Paths.last_split separator dbPath with free | ⟨front, sep, base, rfl, found, free⟩
  · have slashless : Paths.slash ∉ cstr dbPath := fun member =>
      absurd (free _ ((List.takeWhile_prefix _).subset member)) (by decide)
    rw [nextTo_iff (keyFile_free free) rfl, Paths.directory_free slashless]
    refine iff_of_true rfl fun front sep base same found _ => ?_
    rw [free sep (same ▸ List.mem_append_right _ List.mem_cons_self)] at found
    cases found
  rw [separated_iff found free]
  by_cases clean : Clean front
  · have slashless : Paths.slash ∉ cstr base := fun member =>
      absurd (free _ ((List.takeWhile_prefix _).subset member)) (by decide)
    have proper : sep ≠ 0 := by
      rintro rfl
      exact absurd found (by decide)
    rw [nextTo_iff (keyFile_clean clean found free) (dir_closed front), cstr_append clean,
      cstr_cons base proper]
    by_cases forward : sep = Paths.slash
    · subst forward
      rw [Paths.directory_append slashless]
      cases front with
      | nil =>
          -- The key file is then in the working directory and the database in the root.
          change working = [] ↔ _
          constructor
          · intro root
            exact ⟨clean, fun _ => .inr root, fun backward => absurd rfl backward⟩
          · intro apart
            exact (apart.2.1 rfl).resolve_left fun nonempty => nonempty rfl
      | cons char rest =>
          exact iff_of_true rfl ⟨clean, fun _ => .inl (List.cons_ne_nil char rest),
            fun backward => absurd rfl backward⟩
    · have none : Paths.slash ∉ sep :: cstr base := fun member =>
        (List.mem_cons.mp member).elim (Ne.symm forward) slashless
      rw [Paths.directory_extend front none]
      cases front with
      | nil => exact iff_of_true rfl ⟨clean, fun same => absurd same forward, fun _ => .inl rfl⟩
      | cons char rest =>
          have inside := Paths.resolve_slash working (List.cons_ne_nil char rest)
          change Paths.resolve working (char :: rest ++ [Paths.slash]) = _ ↔ _
          rw [inside, Paths.enter_eq_self_iff]
          constructor
          · exact fun stays => ⟨clean, fun same => absurd same forward, fun _ => stays⟩
          · exact fun apart => apart.2.2 forward
  · refine iff_of_false (fun next => ?_) fun apart => clean apart.1
    -- The path ends before the port.
    have same : keyFile (front ++ sep :: base) 0 = keyFile (front ++ sep :: base) 1 := by
      rw [keyFile_split found free, keyFile_split found free, cstr_unclean clean,
        cstr_unclean clean]
    exact absurd (next.distinct 0 1 same) (by decide)

/-- A database in the root of the file system, for a node that is started elsewhere. -/
theorem root_database_apart : ¬NextTo [str "srv"] (str "/NoMiddle.db") := by
  intro next
  exact absurd (next.directory 18080) (by decide +kernel)

end NoMiddle.Identity
