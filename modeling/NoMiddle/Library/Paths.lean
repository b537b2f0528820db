import Mathlib.Data.List.TakeWhile
import Mathlib.Tactic

/-! File paths as byte strings, resolved as POSIX does it without symbolic links: a path is
walked component by component, a dot and an empty component stay where they are, two dots go
back one and a name goes on. A location is the list of the names on the way from the root. -/
namespace Library.Paths

abbrev Path := List UInt8
abbrev Location := List Path

def slash : UInt8 := 47
def dot : UInt8 := 46

def components (path : Path) : List Path := path.splitOn slash

/-- The root's parent is the root. -/
def enter (location : Location) (component : Path) : Location :=
  if component = [] ∨ component = [dot] then location
  else if component = [dot, dot] then location.dropLast
  else location ++ [component]

def walk (start : Location) (path : Path) : Location := (components path).foldl enter start

/-- An absolute path is walked from the root, any other from the working directory. -/
def resolve (working : Location) (path : Path) : Location :=
  walk (if path.head? = some slash then [] else working) path

/-- A path up to and including its last slash. -/
def directory (path : Path) : Path := (path.reverse.dropWhile (· ≠ slash)).reverse

/-- What follows the last slash. -/
def name (path : Path) : Path := (path.reverse.takeWhile (· ≠ slash)).reverse

/-- After the first component, and after each one that follows, the walk is in or below
the one directory. -/
def Confined (base path : Path) : Prop :=
  ∀ count < (components path).length,
    (((components path).take (count + 1)).foldl enter []).head? = some base

instance (base path : Path) : Decidable (Confined base path) :=
  inferInstanceAs (Decidable (∀ count < _, _))

theorem component_infix {component path : Path} (member : component ∈ components path) :
    component <:+: path := by
  have within : ∀ list : List Path, component ∈ list → component <:+: [slash].intercalate list := by
    intro list
    induction list with
    | nil => exact nofun
    | cons first rest ih =>
        intro member
        cases rest with
        | nil =>
            rw [List.mem_singleton.mp member, List.intercalate_singleton]
        | cons second others =>
            rw [List.intercalate_cons_of_ne_nil (List.cons_ne_nil second others)]
            rcases List.mem_cons.mp member with rfl | later
            · rw [List.append_assoc]
              exact (List.prefix_append _ _).isInfix
            · exact (ih later).trans (List.suffix_append _ _).isInfix
  have whole := within (components path) member
  rwa [components, List.intercalate_splitOn] at whole

theorem slashless {base : Path} (free : slash ∉ base) :
    ∀ char ∈ base.reverse, (decide (char ≠ slash)) = true := by
  intro char member
  simpa using ne_of_mem_of_not_mem (List.mem_reverse.mp member) free

theorem directory_append {front base : Path} (free : slash ∉ base) :
    directory (front ++ slash :: base) = front ++ [slash] := by
  unfold directory
  rw [List.reverse_append, List.reverse_cons, List.append_assoc,
    List.dropWhile_append_of_pos (slashless free)]
  simp

theorem name_append {front base : Path} (free : slash ∉ base) :
    name (front ++ slash :: base) = base := by
  unfold name
  rw [List.reverse_append, List.reverse_cons, List.append_assoc,
    List.takeWhile_append_of_pos (slashless free)]
  simp

theorem directory_free {path : Path} (free : slash ∉ path) : directory path = [] := by
  unfold directory
  rw [List.dropWhile_eq_nil_iff.mpr (slashless free), List.reverse_nil]

theorem name_free {path : Path} (free : slash ∉ path) : name path = path := by
  unfold name
  rw [List.takeWhile_eq_self_iff.mpr (slashless free), List.reverse_reverse]

theorem directory_name (path : Path) : directory path ++ name path = path := by
  unfold directory name
  rw [← List.reverse_append, List.takeWhile_append_dropWhile, List.reverse_reverse]

/-- A list has none of some items, or one that is the last of them. -/
theorem last_split {Item : Type} (here : Item → Bool) (items : List Item) :
    (∀ item ∈ items, here item = false) ∨
    ∃ front item back, items = front ++ item :: back ∧ here item = true ∧
      ∀ later ∈ back, here later = false := by
  induction items with
  | nil => exact .inl nofun
  | cons head rest ih =>
      rcases ih with none | ⟨front, item, back, rfl, found, last⟩
      · cases first : here head with
        | false => exact .inl (List.forall_mem_cons.mpr ⟨first, none⟩)
        | true => exact .inr ⟨[], head, rest, rfl, first, none⟩
      · exact .inr ⟨head :: front, item, back, rfl, found, last⟩

theorem last_slash (path : Path) :
    slash ∉ path ∨ ∃ front base, path = front ++ slash :: base ∧ slash ∉ base := by
  rcases last_split (fun char => decide (char = slash)) path with none | found
  · exact .inl fun member => by simpa using none slash member
  · obtain ⟨front, char, base, same, isSlash, free⟩ := found
    obtain rfl := of_decide_eq_true isSlash
    exact .inr ⟨front, base, same, fun member => by simpa using free slash member⟩

/-- What has no slash adds nothing to the directory. -/
theorem directory_extend (path : Path) {base : Path} (free : slash ∉ base) :
    directory (path ++ base) = directory path := by
  rcases last_slash path with none | ⟨front, last, rfl, alone⟩
  · rw [directory_free none, directory_free fun member =>
      (List.mem_append.mp member).elim none free]
  · rw [directory_append alone, List.append_assoc, List.cons_append,
      directory_append fun member => (List.mem_append.mp member).elim alone free]

theorem walk_append (start : Location) (front back : Path) :
    walk start (front ++ slash :: back) = walk (walk start front) back := by
  unfold walk components
  rw [List.splitOn_append_cons_self, List.foldl_append]

theorem walk_free (start : Location) {path : Path} (free : slash ∉ path) :
    walk start path = enter start path := by
  rw [walk, components, List.splitOn_eq_singleton free]
  rfl

@[simp] theorem walk_nil (start : Location) : walk start [] = start := rfl

theorem enter_eq_self_iff (location : Location) (component : Path) :
    enter location component = location ↔
      component = [] ∨ component = [dot] ∨ component = [dot, dot] ∧ location = [] := by
  unfold enter
  split
  · next stays => exact iff_of_true rfl (stays.imp_right .inl)
  · next moves =>
    simp only [not_or] at moves
    simp only [moves.1, moves.2, false_or]
    split
    · next back =>
      simp only [back, true_and]
      constructor
      · intro same
        have shorter := congrArg List.length same
        rw [List.length_dropLast] at shorter
        exact List.length_eq_zero_iff.mp (by omega)
      · rintro rfl
        rfl
    · next forth => simp [forth]

/-- The directory a path names is its own directory and then its last component. -/
theorem resolve_slash (working : Location) {path : Path} (nonempty : path ≠ []) :
    resolve working (path ++ [slash]) =
      enter (resolve working (directory path)) (name path) := by
  unfold resolve
  rw [List.head?_append_of_ne_nil path nonempty]
  rcases last_slash path with free | ⟨front, base, rfl, free⟩
  · have relative : path.head? ≠ some slash := fun first => free (List.mem_of_head? first)
    rw [directory_free free, name_free free, if_neg relative, walk_append, walk_free _ free]
    rfl
  · have same : (front ++ [slash]).head? = (front ++ slash :: base).head? := by
      cases front <;> rfl
    rw [directory_append free, name_append free, same, List.append_assoc, List.cons_append,
      walk_append, walk_append, walk_append, walk_free _ free, walk_nil, walk_nil]

/-- Only two dots lead back. -/
theorem enter_below (location : Location) {component : Path} (forth : component ≠ [dot, dot]) :
    location <+: enter location component := by
  unfold enter
  split
  · exact List.prefix_refl location
  · exact List.prefix_append location [component]

theorem foldl_enter_below (location : Location) (steps : List Path)
    (forth : ∀ component ∈ steps, component ≠ [dot, dot]) :
    location <+: steps.foldl enter location := by
  induction steps generalizing location with
  | nil => exact List.prefix_refl location
  | cons component rest ih =>
      obtain ⟨first, later⟩ := List.forall_mem_cons.mp forth
      exact (enter_below location first).trans (ih _ later)

/-- A path below a directory that has no two dots next to each other stays below it. -/
theorem confined_of_dotless {base rest : Path} (free : slash ∉ base) (proper : base ≠ [])
    (here : base ≠ [dot]) (forth : base ≠ [dot, dot]) (dotless : ¬[dot, dot] <:+: rest) :
    Confined base (base ++ slash :: rest) := by
  intro count _
  have split : components (base ++ slash :: rest) = base :: components rest :=
    List.splitOn_append_cons_self_of_not_mem free rest
  have entered : enter [] base = [base] := by simp [enter, proper, here, forth]
  rw [split, List.take_succ_cons, List.foldl_cons, entered]
  have below := foldl_enter_below [base] ((components rest).take count) fun component member =>
    fun back => dotless (back ▸ component_infix (List.mem_of_mem_take member))
  obtain ⟨further, same⟩ := below
  rw [← same]
  rfl

end Library.Paths
