import NoMiddle.Library.Program

/-! A program that works through a list of rows, one turn each. A turn attempts what its row asks
for, once or not at all, and changes no row but its own by what came of it. Then the whole
program changes each row of the list by what came of its own turn. -/
namespace Library.Sweep
variable {S : Sig} {State Row Key Item Answer : Type} [DecidableEq Key] [DecidableEq Item]

/-- What was attempted, in order, and how it was answered. -/
abbrev Log (Item Answer : Type) := List (Item × Answer)

variable (good : Answer → Bool)

def succeeded (log : Log Item Answer) (item : Item) : Bool :=
  log.any fun entry => entry.1 = item && good entry.2

theorem succeeded_append (earlier later : Log Item Answer) (item : Item) :
    succeeded good (earlier ++ later) item =
      (succeeded good earlier item || succeeded good later item) :=
  List.any_append

theorem succeeded_unattempted {log : Log Item Answer} {item : Item}
    (unattempted : item ∉ log.map (·.1)) : succeeded good log item = false := by
  apply List.any_eq_false.mpr
  intro entry member
  have other : entry.1 ≠ item := fun same => unattempted (same ▸ List.mem_map_of_mem member)
  simp [other]

variable (key : Row → Key) (item : Row → Item) (settle : Bool → Row → Row)

/-- The rows of the list are settled, on top of an earlier change. -/
def swept (rows : List Row) (log : Log Item Answer) (change : Row → Row) (row : Row) : Row :=
  if key row ∈ rows.map key then settle (succeeded good log (item row)) (change row)
  else change row

/-- The first row's turn and then the others' settle them all. -/
theorem swept_cons {first : Row} {rest : List Row} {entries later : Log Item Answer}
    {change : Row → Row} (distinct : ((first :: rest).map key).Nodup)
    (apart : ∀ left right, item left = item right → key left = key right)
    (own : ∀ tried ∈ entries.map (·.1), tried = item first)
    (others : ∀ tried ∈ later.map (·.1), ∃ row ∈ rest, tried = item row) :
    swept good key item settle rest later
        (swept good key item settle [first] entries change) =
      swept good key item settle (first :: rest) (entries ++ later) change := by
  rw [List.map_cons, List.nodup_cons] at distinct
  funext row
  unfold swept
  simp only [succeeded_append, List.map_cons, List.map_nil, List.mem_cons, List.not_mem_nil,
    or_false]
  by_cases same : key row = key first
  · have gone : key row ∉ rest.map key := same ▸ distinct.1
    have untried : item row ∉ later.map (·.1) := by
      intro member
      obtain ⟨other, among, equal⟩ := others _ member
      exact gone (apart row other equal ▸ List.mem_map_of_mem among)
    rw [if_neg gone, if_pos same, if_pos (.inl same), succeeded_unattempted good untried,
      Bool.or_false]
  · have untried : item row ∉ entries.map (·.1) := fun member =>
      same (apart row first (own _ member))
    rw [if_neg same, succeeded_unattempted good untried, Bool.false_or]
    simp only [same, false_or]

variable {contract : Contract S State} (attempts : Row → List Item)

theorem wp_sweep (monotone : contract.Monotone) {turn : Row → Program S Unit}
    (holds : Log Item Answer → (Row → Row) → State → Prop)
    (own : ∀ row, ∀ tried ∈ attempts row, tried = item row)
    (apart : ∀ left right, item left = item right → key left = key right)
    {rows : List Row} (distinct : (rows.map key).Nodup)
    (step : ∀ row ∈ rows, ∀ log change state, holds log change state →
      (turn row).wp contract (fun _ after => ∃ entries, entries.map (·.1) = attempts row ∧
        holds (log ++ entries) (swept good key item settle [row] entries change) after) state)
    {log : Log Item Answer} {change : Row → Row} {state : State} (start : holds log change state) :
    (rows.forM turn).wp contract (fun _ after => ∃ entries,
      entries.map (·.1) = rows.flatMap attempts ∧
        holds (log ++ entries) (swept good key item settle rows entries change) after) state := by
  induction rows generalizing log change state with
  | nil =>
      refine ⟨[], rfl, ?_⟩
      have none : swept good key item settle [] ([] : Log Item Answer) change = change := by
        funext row
        simp [swept]
      rw [none, List.append_nil]
      exact start
  | cons first rest ih =>
      change (turn first >>= fun _ => rest.forM turn).wp contract _ state
      refine Program.wp_seq monotone _ _ state (step first List.mem_cons_self log change state start)
        ?_
      rintro _ after ⟨entries, tried, turned⟩
      rw [List.map_cons, List.nodup_cons] at distinct
      refine Program.wp_mono monotone _ ?_ after (ih distinct.2
        (fun row member => step row (List.mem_cons_of_mem first member)) turned)
      rintro _ final ⟨later, triedLater, done⟩
      refine ⟨entries ++ later, ?_, ?_⟩
      · rw [List.map_append, tried, triedLater, List.flatMap_cons]
      · rw [List.append_assoc, swept_cons good key item settle (List.nodup_cons.mpr distinct) apart
          ?_ ?_] at done
        · exact done
        · intro one member
          exact own first one (tried ▸ member)
        · intro one member
          rw [triedLater] at member
          obtain ⟨row, among, attempted⟩ := List.mem_flatMap.mp member
          exact ⟨row, among, own row one attempted⟩

end Library.Sweep
