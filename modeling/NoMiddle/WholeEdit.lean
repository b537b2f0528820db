import NoMiddle.Network
import NoMiddle.PartialEdit

/-! When a membership edit is whole: the rows that a list read in part, or inserted in part,
leaves behind, and the exact condition on the failing calls. -/
namespace NoMiddle.WholeEdit
open Library Text Crypto DbManager DbViews Node MessageDelivery Handlers GroupHandlers Footprint
open Faults PartialEdit

/-! Lists and the rows they become. -/
section Lists
variable {groupId id selfId : Str} {selfAddress : Option Str} {members : List GroupMember}

theorem entryFor_cons (m : GroupMember) :
    entryFor groupId id (m :: members) =
      if cstr m.memberId = id then some (m.stored groupId) else entryFor groupId id members := by
  by_cases same : cstr m.memberId = id <;> simp [entryFor, same]

theorem entryFor_append (others : List GroupMember) :
    entryFor groupId id (members ++ others) =
      (entryFor groupId id members).or (entryFor groupId id others) := by
  simp only [entryFor, List.find?_append, Option.map_or]

theorem entryFor_id {row : GroupMember} (found : entryFor groupId id members = some row) :
    row.memberId = id := by
  obtain ⟨m, first, rfl⟩ := Option.map_eq_some_iff.mp found
  have holds := List.find?_some first
  exact of_decide_eq_true holds

theorem entryFor_mem {m : GroupMember} (member : m ∈ members) :
    ∃ row, entryFor groupId (cstr m.memberId) members = some row := by
  induction members with
  | nil => cases member
  | cons first rest ih =>
      rw [entryFor_cons]
      split
      · exact ⟨_, rfl⟩
      · next other =>
        rcases List.mem_cons.mp member with rfl | later
        · exact absurd rfl other
        · exact ih later

/-- Changing the first entry of a member changes its row. -/
theorem entryFor_setAddress (memberId serverAddress : Str)
    (clean : ∀ m ∈ members, Clean m.memberId) :
    entryFor groupId id (setAddress memberId serverAddress members) =
      (entryFor groupId id members).map fun row =>
        if row.memberId = memberId then { row with serverAddress := cstr serverAddress } else row := by
  induction members with
  | nil => rfl
  | cons m rest ih =>
      obtain ⟨first, later⟩ := List.forall_mem_cons.mp clean
      have key := cstr_of_clean first
      rw [setAddress, entryFor_cons]
      split
      · next named =>
        rw [entryFor_cons]
        by_cases same : cstr m.memberId = id
        · have here : (m.stored groupId).memberId = memberId := key.trans named
          rw [if_pos same, if_pos same, Option.map_some, if_pos here]
          rfl
        · -- No later row of this id is the member's.
          rw [if_neg same, if_neg same]
          cases found : entryFor groupId id rest with
          | none => rfl
          | some row =>
              have other : row.memberId ≠ memberId := by
                rw [entryFor_id found, ← named, ← key]
                exact Ne.symm same
              simp [other]
      · next other =>
        rw [entryFor_cons, ih later]
        by_cases same : cstr m.memberId = id
        · have different : (m.stored groupId).memberId ≠ memberId := by
            change cstr m.memberId ≠ memberId
            rwa [key]
          simp [same, different]
        · simp [same]

theorem entryFor_withSelfAddress (clean : ∀ m ∈ members, Clean m.memberId) :
    entryFor groupId id (withSelfAddress selfId selfAddress members) =
      (entryFor groupId id members).map (readdressed selfId selfAddress) := by
  cases selfAddress with
  | none =>
      change entryFor groupId id members = (entryFor groupId id members).map fun row => row
      rw [Option.map_id']
  | some address => exact entryFor_setAddress selfId address clean

end Lists

section Stored
variable {group : PathId} {store : Store} {selfId : Str} {selfAddress : Option Str}

/-- The list of a group, as `getGroupMembers` orders it. -/
abbrev listed (group : PathId) (store : Store) : List GroupMember :=
  groupMembersOf group.text store.groupMembers

theorem mem_listed (m : GroupMember) :
    m ∈ listed group store ↔ m.groupId = group.text ∧ view group store m.memberId = some m := by
  rw [mem_groupMembersOf, cstr_of_clean group.clean]
  rfl

theorem listed_clean {m : GroupMember} (member : m ∈ listed group store) :
    Clean m.memberId ∧ m.stored group.text = m := by
  obtain ⟨same, found⟩ := (mem_listed m).mp member
  have valid := store.groupMembers.find_valid found
  simp only [AllClean, GroupMember.texts, List.forall_mem_cons] at valid
  obtain ⟨group', memberId, address, role, _⟩ := valid
  refine ⟨memberId, ?_⟩
  cases m
  cases same
  simp only [GroupMember.stored, cstr_of_clean memberId, cstr_of_clean address, cstr_of_clean role,
    cstr_of_clean group']

theorem view_listed {id : Str} {row : GroupMember} (found : view group store id = some row) :
    row ∈ listed group store ∧ row.memberId = id := by
  have key := store.groupMembers.find_key found
  simp only [Prod.mk.injEq] at key
  refine ⟨(mem_listed row).mpr ⟨key.1, ?_⟩, key.2⟩
  rw [key.2]
  exact found

theorem entryFor_listed (id : Str) :
    entryFor group.text id (listed group store) = view group store id := by
  cases found : view group store id with
  | some row =>
      obtain ⟨member, same⟩ := view_listed found
      obtain ⟨m, first⟩ : ∃ m, (listed group store).find? (cstr ·.memberId = id) = some m := by
        apply Option.isSome_iff_exists.mp
        apply List.find?_isSome.mpr
        exact ⟨row, member, by simp [← same, cstr_of_clean (listed_clean member).1]⟩
      have among := List.mem_of_find?_eq_some first
      have named : cstr m.memberId = id := by simpa using List.find?_some first
      rw [cstr_of_clean (listed_clean among).1] at named
      have also := ((mem_listed m).mp among).2
      rw [named, found] at also
      cases also
      rw [entryFor, first]
      exact congrArg some (listed_clean among).2
  | none =>
      rw [entryFor, Option.map_eq_none_iff, List.find?_eq_none]
      intro m member
      have also := ((mem_listed m).mp member).2
      rw [decide_eq_true_eq, cstr_of_clean (listed_clean member).1]
      rintro rfl
      rw [found] at also
      cases also

theorem entryFor_base (id : Str) :
    entryFor group.text id (withSelfAddress selfId selfAddress (listed group store)) =
      (view group store id).map (readdressed selfId selfAddress) := by
  rw [entryFor_withSelfAddress fun m member => (listed_clean member).1, entryFor_listed]

theorem extended_known {memberId serverAddress : Str} {addedAt : Int} {stored : List GroupMember}
    (known : stored.any (·.memberId = memberId) = true) :
    extended group.text selfId memberId serverAddress selfAddress addedAt stored =
      setAddress memberId serverAddress (withSelfAddress selfId selfAddress stored) := by
  have ids := congrArg (List.any · (· = memberId)) (withSelfAddress_ids selfId selfAddress stored)
  simp only [List.any_map, Function.comp_def] at ids
  rw [extended, if_pos (ids.trans known)]

/-- The entry made for a new member. -/
def newcomer (group : PathId) (memberId serverAddress : Str) (addedAt : Int) : GroupMember :=
  ⟨group.text, memberId, serverAddress, str "member", addedAt⟩

theorem extended_new {memberId serverAddress : Str} {addedAt : Int} {stored : List GroupMember}
    (unknown : stored.any (·.memberId = memberId) = false) :
    extended group.text selfId memberId serverAddress selfAddress addedAt stored =
      withSelfAddress selfId selfAddress stored ++
        [newcomer group memberId serverAddress addedAt] := by
  have ids := congrArg (List.any · (· = memberId)) (withSelfAddress_ids selfId selfAddress stored)
  simp only [List.any_map, Function.comp_def] at ids
  rw [extended, if_neg (by simp [ids.trans unknown])]
  rfl

theorem length_withSelfAddress (stored : List GroupMember) :
    (withSelfAddress selfId selfAddress stored).length = stored.length := by
  have ids := congrArg List.length (withSelfAddress_ids selfId selfAddress stored)
  simpa using ids

theorem readdressed_id (row : GroupMember) :
    (readdressed selfId selfAddress row).memberId = row.memberId := by
  unfold readdressed
  split
  · split <;> rfl
  · rfl

/-- The address given to a row counts, whatever it had before. -/
theorem readdressed_last (row : GroupMember) (address : Str) :
    ({ readdressed selfId selfAddress row with serverAddress := address } : GroupMember) =
      { row with serverAddress := address } := by
  unfold readdressed
  split
  · split <;> rfl
  · rfl

variable {memberId serverAddress : Str} {addedAt : Int} {replace : Codes}

/-- The rows a replacement of the edited list leaves. -/
def rewritten (replace : Codes) (group : PathId) (selfId memberId serverAddress : Str)
    (selfAddress : Option Str) (addedAt : Int) (read : List GroupMember) : View :=
  fun id => entryFor group.text id (survivors replace 1
    (extended group.text selfId memberId serverAddress selfAddress addedAt read))

theorem rewritten_known
    (known : (listed group store).any (·.memberId = memberId) = true)
    (works : ∀ index < (listed group store).length, replace.fails (1 + index) = false) :
    (Edit.add memberId serverAddress selfAddress).Done group.text selfId (view group store)
      (rewritten replace group selfId memberId serverAddress selfAddress addedAt
        (listed group store)) := by
  let base := withSelfAddress selfId selfAddress (listed group store)
  have ids : (setAddress memberId serverAddress base).map (·.memberId) =
      (listed group store).map (·.memberId) :=
    (GroupMembership.setAddress_ids base).trans (withSelfAddress_ids ..)
  have size := congrArg List.length ids
  simp only [List.length_map] at size
  obtain ⟨m, member, named⟩ := List.any_eq_true.mp known
  obtain rfl : m.memberId = memberId := of_decide_eq_true named
  have key : cstr m.memberId = m.memberId := cstr_of_clean (listed_clean member).1
  have clean : ∀ other ∈ base, Clean other.memberId := by
    intro other among
    have there := List.mem_map_of_mem (f := (·.memberId)) among
    rw [withSelfAddress_ids] at there
    obtain ⟨old, present, same⟩ := List.mem_map.mp there
    rw [← same]
    exact (listed_clean present).1
  have whole : survivors replace 1 (setAddress m.memberId serverAddress base) =
      setAddress m.memberId serverAddress base :=
    (survivors_all ..).mpr (by rwa [size])
  -- A known member keeps its place, so each row is moved where it stands.
  have rows : ∀ id, rewritten replace group selfId m.memberId serverAddress selfAddress addedAt
      (listed group store) id = ((view group store id).map (readdressed selfId selfAddress)).map
        fun row => if row.memberId = m.memberId
          then { row with serverAddress := cstr serverAddress } else row := by
    intro id
    rw [rewritten, extended_known known, whole, entryFor_setAddress _ _ clean, entryFor_base]
  constructor
  · intro id other
    rw [rows]
    cases found : view group store id with
    | none => rfl
    | some row =>
        have different : (readdressed selfId selfAddress row).memberId ≠ m.memberId := by
          rw [readdressed_id, (view_listed found).2, ← key]
          exact other
        rw [Option.map_some, Option.map_some, if_neg different]
  · rw [rows, key, ((mem_listed m).mp member).2, Option.map_some, Option.map_some,
      if_pos (readdressed_id m)]
    exact congrArg some (readdressed_last m _)

theorem rewritten_unknown
    (unknown : (listed group store).any (·.memberId = memberId) = false)
    (works : ∀ index < (listed group store).length, replace.fails (1 + index) = false) (id : Str) :
    rewritten replace group selfId memberId serverAddress selfAddress addedAt
        (listed group store) id =
      ((view group store id).map (readdressed selfId selfAddress)).or
        (if replace.fails (1 + (listed group store).length) then none
          else if cstr memberId = id
            then some ((newcomer group memberId serverAddress addedAt).stored group.text)
          else none) := by
  have whole : survivors replace 1 (withSelfAddress selfId selfAddress (listed group store)) =
      withSelfAddress selfId selfAddress (listed group store) :=
    (survivors_all ..).mpr (by rwa [length_withSelfAddress])
  rw [rewritten, extended_new unknown, survivors_append, whole, length_withSelfAddress,
    entryFor_append, entryFor_base]
  congr 1
  split
  · rfl
  · exact entryFor_cons (newcomer group memberId serverAddress addedAt)

/-- Where the newcomer's entry is not inserted only this node's address can change. -/
theorem rewritten_lost
    (unknown : (listed group store).any (·.memberId = memberId) = false)
    (works : ∀ index < (listed group store).length, replace.fails (1 + index) = false)
    (lost : replace.fails (1 + (listed group store).length) = true ∨
      ∃ row ∈ listed group store, row.memberId = cstr memberId) (id : Str) :
    rewritten replace group selfId memberId serverAddress selfAddress addedAt
        (listed group store) id = (view group store id).map (readdressed selfId selfAddress) := by
  rw [rewritten_unknown unknown works]
  cases found : view group store id with
  | some row => rfl
  | none =>
      rcases lost with fails | ⟨row, member, named⟩
      · rw [if_pos fails]
        rfl
      · have other : cstr memberId ≠ id := by
          rintro rfl
          rw [← named, ((mem_listed row).mp member).2] at found
          cases found
        simp [other]

theorem whole_add
    (works : ∀ index < (listed group store).length, replace.fails (1 + index) = false)
    (spared : (listed group store).any (·.memberId = memberId) = false →
      (replace.fails (1 + (listed group store).length) = true ∨
        ∃ row ∈ listed group store, row.memberId = cstr memberId) →
      (∀ row ∈ listed group store, readdressed selfId selfAddress row = row) ∨
        ∃ row ∈ listed group store, row.memberId = cstr memberId ∧
          readdressed selfId selfAddress row = { row with serverAddress := cstr serverAddress }) :
    rewritten replace group selfId memberId serverAddress selfAddress addedAt
        (listed group store) = view group store ∨
      (Edit.add memberId serverAddress selfAddress).Done group.text selfId (view group store)
        (rewritten replace group selfId memberId serverAddress selfAddress addedAt
          (listed group store)) := by
  cases known : (listed group store).any (·.memberId = memberId) with
  | true => exact .inr (rewritten_known known works)
  | false =>
      -- A new member's insert is the last one, and it may fail.
      by_cases lost : replace.fails (1 + (listed group store).length) = true ∨
          ∃ row ∈ listed group store, row.memberId = cstr memberId
      · rcases spared known lost with same | ⟨row, member, named, same⟩
        · apply Or.inl
          funext id
          rw [rewritten_lost known works lost]
          cases found : view group store id with
          | none => rfl
          | some row => exact congrArg some (same row (view_listed found).1)
        · have present := ((mem_listed row).mp member).2
          rw [named] at present
          refine .inr ⟨fun id _ => rewritten_lost known works lost id, ?_⟩
          rw [rewritten_lost known works lost, present]
          exact congrArg some same
      · simp only [not_or, Bool.not_eq_true, not_exists, not_and] at lost
        obtain ⟨inserts, fresh⟩ := lost
        have absent : view group store (cstr memberId) = none := by
          cases found : view group store (cstr memberId) with
          | none => rfl
          | some row =>
              obtain ⟨member, named⟩ := view_listed found
              exact absurd named (fresh row member)
        refine .inr ⟨fun id other => ?_, ?_⟩
        · rw [rewritten_unknown known works, inserts]
          simp [Ne.symm other]
        · rw [rewritten_unknown known works, inserts, absent]
          refine ⟨addedAt, ?_⟩
          simp only [Option.map_none, Option.none_or, Bool.false_eq_true, ↓reduceIte]
          have key : cstr group.text = group.text := cstr_of_clean group.clean
          rw [show (newcomer group memberId serverAddress addedAt).stored group.text =
            ⟨cstr group.text, _, _, cstr (str "member"), _⟩ from rfl, key]
          rfl

/-- A member cannot be lost and come back as it was: what is inserted anew has a new time. -/
theorem kept_time {before after : View} {edit : Edit} {row : GroupMember} {id : Str}
    (found : before id = some row)
    (whole : after = before ∨ edit.Done group.text selfId before after)
    (stays : ∀ memberId, edit = .remove memberId → id ≠ memberId) :
    ∃ kept, after id = some kept ∧ kept.addedAt = row.addedAt := by
  rcases whole with rfl | done
  · exact ⟨row, found, rfl⟩
  cases edit with
  | remove memberId =>
      have other := stays memberId rfl
      exact ⟨row, by rw [done id, if_neg other, found], rfl⟩
  | add memberId serverAddress selfAddress =>
      obtain ⟨others, member⟩ := done
      by_cases same : id = cstr memberId
      · rw [← same, found] at member
        exact ⟨_, member, rfl⟩
      · refine ⟨readdressed selfId selfAddress row, by rw [others id same, found]; rfl, ?_⟩
        unfold readdressed
        split
        · split <;> rfl
        · rfl

/-- Every member that is still found has an entry. -/
theorem covers {kept whole : List GroupMember} (clean : ∀ m ∈ kept, Clean m.memberId)
    (all : ∀ m ∈ whole, ∃ row, entryFor group.text m.memberId kept = some row) :
    whole.map (·.memberId) ⊆ kept.map (·.memberId) := by
  intro id member
  obtain ⟨m, there, rfl⟩ := List.mem_map.mp member
  obtain ⟨row, found⟩ := all m there
  obtain ⟨entry, first, _⟩ := Option.map_eq_some_iff.mp found
  have inKept := List.mem_of_find?_eq_some first
  have named : cstr entry.memberId = m.memberId := by simpa using List.find?_some first
  rw [← named, cstr_of_clean (clean entry inKept)]
  exact List.mem_map_of_mem inKept

/-- If all of a list's members are still found, none of its rows was lost. -/
theorem nothing_lost {read base kept : List GroupMember} (front : read <+: listed group store)
    (same : base.map (·.memberId) = read.map (·.memberId)) (among : kept.Sublist base)
    (all : ∀ m ∈ listed group store, ∃ row, entryFor group.text m.memberId kept = some row) :
    read = listed group store ∧ kept = base := by
  have clean : ∀ entry ∈ kept, Clean entry.memberId := by
    intro entry inKept
    have inRead := List.mem_map_of_mem (f := (·.memberId)) (among.subset inKept)
    rw [same] at inRead
    obtain ⟨old, present, also⟩ := List.mem_map.mp inRead
    rw [← also]
    exact (listed_clean (front.subset present)).1
  have distinct := groupMembersOf_nodup group.text store.groupMembers
  have bound : ((listed group store).map (·.memberId)).length ≤ (kept.map (·.memberId)).length :=
    (List.subperm_of_subset distinct (covers clean all)).length_le
  have size := congrArg List.length same
  have short := among.length_le
  have part := front.length_le
  simp only [List.length_map] at bound size
  exact ⟨front.eq_of_length (by omega), among.eq_of_length (by omega)⟩

/-- The list without the newcomer's entry. -/
def inPlace (selfId memberId serverAddress : Str) (selfAddress : Option Str)
    (read : List GroupMember) : List GroupMember :=
  if read.any (·.memberId = memberId) then
    setAddress memberId serverAddress (withSelfAddress selfId selfAddress read)
  else withSelfAddress selfId selfAddress read

theorem inPlace_ids (read : List GroupMember) :
    (inPlace selfId memberId serverAddress selfAddress read).map (·.memberId) =
      read.map (·.memberId) := by
  unfold inPlace
  split
  · exact (GroupMembership.setAddress_ids _).trans (withSelfAddress_ids ..)
  · exact withSelfAddress_ids ..

/-- A row that is not there in place is missing or has the newcomer's time. -/
theorem rewritten_missing {read : List GroupMember} {id : Str} {row : GroupMember}
    (missing : entryFor group.text id (survivors replace 1
      (inPlace selfId memberId serverAddress selfAddress read)) = none)
    (found : rewritten replace group selfId memberId serverAddress selfAddress addedAt read id =
      some row) : row.addedAt = addedAt := by
  unfold rewritten at found
  unfold inPlace at missing
  cases known : read.any (·.memberId = memberId) with
  | true =>
      rw [if_pos known] at missing
      rw [extended_known known, missing] at found
      cases found
  | false =>
      rw [if_neg (by simp [known])] at missing
      rw [extended_new known, survivors_append, entryFor_append, missing, Option.none_or] at found
      split at found
      · cases found
      · rw [entryFor_cons] at found
        split at found
        · cases found
          rfl
        · cases found

theorem add_whole {codes : Codes}
    (whole : ∀ addedAt, rewritten replace group selfId memberId serverAddress selfAddress addedAt
        (codes.read (listed group store)) = view group store ∨
      (Edit.add memberId serverAddress selfAddress).Done group.text selfId (view group store)
        (rewritten replace group selfId memberId serverAddress selfAddress addedAt
          (codes.read (listed group store)))) :
    codes.read (listed group store) = listed group store ∧
      (∀ index < (listed group store).length, replace.fails (1 + index) = false) ∧
      ((listed group store).any (·.memberId = memberId) = false →
        (replace.fails (1 + (listed group store).length) = true ∨
          ∃ row ∈ listed group store, row.memberId = cstr memberId) →
        (∀ row ∈ listed group store, readdressed selfId selfAddress row = row) ∨
          ∃ row ∈ listed group store, row.memberId = cstr memberId ∧
            readdressed selfId selfAddress row =
              { row with serverAddress := cstr serverAddress }) := by
  have all : ∀ m ∈ listed group store, ∃ row, entryFor group.text m.memberId
      (survivors replace 1 (inPlace selfId memberId serverAddress selfAddress
        (codes.read (listed group store)))) = some row := by
    intro m member
    apply Option.ne_none_iff_exists'.mp
    intro missing
    -- Otherwise what stands there was inserted at a time the row never had.
    obtain ⟨kept, found, same⟩ :=
      kept_time ((mem_listed m).mp member).2 (whole (m.addedAt + 1)) nofun
    have time := rewritten_missing missing found
    omega
  obtain ⟨complete, inserted⟩ := nothing_lost (read_front codes _) (inPlace_ids _)
    (survivors_sublist ..) all
  have works := (survivors_all ..).mp inserted
  have size : (inPlace selfId memberId serverAddress selfAddress
      (codes.read (listed group store))).length = (codes.read (listed group store)).length := by
    simpa using congrArg List.length (inPlace_ids (codes.read (listed group store)))
  rw [size, complete] at works
  refine ⟨complete, works, fun unknown lost => ?_⟩
  rw [complete] at whole
  rcases whole 0 with same | ⟨_, entry⟩
  · left
    intro row member
    have there := congrFun same row.memberId
    rw [rewritten_lost unknown works lost, ((mem_listed row).mp member).2] at there
    exact Option.some.inj there
  · rw [rewritten_lost unknown works lost] at entry
    cases found : view group store (cstr memberId) with
    | none =>
        rw [found] at entry
        obtain ⟨_, impossible⟩ := entry
        cases impossible
    | some row =>
        rw [found] at entry
        obtain ⟨member, named⟩ := view_listed found
        exact .inr ⟨row, member, named, Option.some.inj entry⟩

/-! Removal. -/

theorem entryFor_filter {id memberId : Str} {members : List GroupMember}
    (clean : ∀ m ∈ members, Clean m.memberId) :
    entryFor group.text id (members.filter (·.memberId ≠ memberId)) =
      if id = memberId then none else entryFor group.text id members := by
  induction members with
  | nil => simp [entryFor]
  | cons m rest ih =>
      obtain ⟨first, later⟩ := List.forall_mem_cons.mp clean
      have key := cstr_of_clean first
      rw [entryFor_cons, key]
      by_cases gone : m.memberId = memberId
      · rw [List.filter_cons_of_neg (by simpa using gone), ih later]
        by_cases here : id = memberId
        · rw [if_pos here, if_pos here]
        · rw [if_neg here, if_neg here, if_neg]
          rintro rfl
          exact here gone
      · rw [List.filter_cons_of_pos (by simpa using gone), entryFor_cons, key, ih later]
        by_cases here : m.memberId = id
        · rw [if_pos here, if_pos here, if_neg]
          rintro rfl
          exact gone here
        · rw [if_neg here, if_neg here]

theorem whole_remove {memberId : Str}
    (works : ∀ index < ((listed group store).filter (·.memberId ≠ memberId)).length,
      replace.fails (1 + index) = false) :
    (Edit.remove memberId).Done group.text selfId (view group store) fun id =>
      entryFor group.text id
        (survivors replace 1 ((listed group store).filter (·.memberId ≠ memberId))) := by
  intro id
  dsimp only
  rw [(survivors_all ..).mpr works, entryFor_filter fun m member => (listed_clean member).1,
    entryFor_listed]

/-- A member that has no entry is not found. -/
theorem entryFor_absent {id : Str} {members : List GroupMember}
    (absent : ∀ m ∈ members, cstr m.memberId ≠ id) : entryFor group.text id members = none := by
  rw [entryFor, Option.map_eq_none_iff, List.find?_eq_none]
  intro m member
  simpa using absent m member

theorem remove_whole {memberId : Str} {codes : Codes}
    (present : (codes.read (listed group store)).any (·.memberId = memberId) = true)
    (whole : (fun id => entryFor group.text id (survivors replace 1
        ((codes.read (listed group store)).filter (·.memberId ≠ memberId)))) = view group store ∨
      (Edit.remove memberId).Done group.text selfId (view group store) fun id =>
        entryFor group.text id (survivors replace 1
          ((codes.read (listed group store)).filter (·.memberId ≠ memberId)))) :
    codes.read (listed group store) = listed group store ∧
      ∀ index < ((listed group store).filter (·.memberId ≠ memberId)).length,
        replace.fails (1 + index) = false := by
  let read := codes.read (listed group store)
  let kept := survivors replace 1 (read.filter (·.memberId ≠ memberId))
  have front : read <+: listed group store := read_front codes _
  have among : kept.Sublist (read.filter (·.memberId ≠ memberId)) := survivors_sublist ..
  have clean : ∀ m ∈ kept, Clean m.memberId := fun m member =>
    (listed_clean (front.subset (List.mem_of_mem_filter (among.subset member)))).1
  obtain ⟨member, inRead, named⟩ := List.any_eq_true.mp present
  obtain rfl : member.memberId = memberId := of_decide_eq_true named
  have gone : entryFor group.text member.memberId kept = none := by
    apply entryFor_absent
    intro m inKept
    rw [cstr_of_clean (clean m inKept)]
    simpa using (List.mem_filter.mp (among.subset inKept)).2
  have done : (Edit.remove member.memberId).Done group.text selfId (view group store) fun id =>
      entryFor group.text id kept := by
    refine whole.resolve_left fun same => ?_
    have there := congrFun same member.memberId
    rw [((mem_listed member).mp (front.subset inRead)).2] at there
    exact nomatch gone.symm.trans there
  have all : ∀ m ∈ (listed group store).filter (·.memberId ≠ member.memberId),
      ∃ row, entryFor group.text m.memberId kept = some row := by
    intro m inListed
    obtain ⟨there, other⟩ := List.mem_filter.mp inListed
    have found := done m.memberId
    rw [if_neg (by simpa using other), ((mem_listed m).mp there).2] at found
    exact ⟨m, found⟩
  have distinct : ((listed group store).map (·.memberId)).Nodup := groupMembersOf_nodup ..
  have bound := (List.subperm_of_subset (distinct.sublist (List.filter_sublist.map _))
    (covers clean all)).length_le
  simp only [List.length_map] at bound
  obtain ⟨lost, split⟩ := front
  -- What was not read is all the removed member's, whose one row was read.
  have none : lost = [] := by
    have short := among.length_le
    rw [← split, List.filter_append, List.length_append] at bound
    have empty : lost.filter (·.memberId ≠ member.memberId) = [] :=
      List.length_eq_zero_iff.mp (by omega)
    apply List.eq_nil_iff_forall_not_mem.mpr
    intro m inLost
    have same := List.filter_eq_nil_iff.mp empty m inLost
    simp only [ne_eq, decide_not, Bool.not_eq_eq_eq_not, Bool.not_true, decide_eq_false_iff_not,
      not_not] at same
    rw [← split, List.map_append] at distinct
    have apart := (List.nodup_append.mp distinct).2.2
    exact apart _ (List.mem_map_of_mem inRead) _ (List.mem_map_of_mem inLost) same.symm
  have complete : read = listed group store := by
    rw [← split, none, List.append_nil]
  refine ⟨complete, ?_⟩
  apply (survivors_all ..).mp
  rw [← complete] at bound ⊢
  exact among.eq_of_length (by have short := among.length_le; omega)

end Stored

/-! The whole request. -/
section Requests
variable {sodium : Sodium} {keys : KeyPair} {group : PathId} {store : Store}
  {drawn : Nat → Drawn} {route : Route}

/-- A request that is refused, or that describes no edit, leaves the store. -/
theorem idle_play (idle : route.edit = none ∨ ¬Admits sodium (drawn 0).codes store route.req) :
    (play (route.program sodium keys group) drawn store).2 = store := by
  cases route with
  | addMember req =>
      unfold Route.program addMember
      rcases @authed_play sodium store drawn req (error 401 "Unauthorized") _ with
        ⟨ran, _⟩ | ⟨ran, admits⟩
      · rw [ran]
      rw [ran]
      -- Some field is missing, and every missing field is refused before a statement runs.
      have stops := idle.resolve_right (not_not_intro admits)
      unfold Route.edit Route.req at stops
      cases body : req.body with
      | none => rfl
      | some dataJson =>
          simp only [body] at stops ⊢
          cases present : dataJson.hasAll? ["member_id", "server_address"] with
          | none => rfl
          | some given =>
              cases given with
              | false => rfl
              | true =>
                  cases member : dataJson.s? "member_id" with
                  | none => rfl
                  | some memberId =>
                      cases address : dataJson.s? "server_address" with
                      | none => rfl
                      | some serverAddress =>
                          simp [present, member, address] at stops
  | removeMember req =>
      unfold Route.program removeMember
      rcases @authed_play sodium store drawn req (error 401 "Unauthorized") _ with
        ⟨ran, _⟩ | ⟨ran, admits⟩
      · rw [ran]
      rw [ran]
      have stops := idle.resolve_right (not_not_intro admits)
      unfold Route.edit Route.req at stops
      cases body : req.body with
      | none => rfl
      | some dataJson =>
          simp only [body] at stops ⊢
          cases present : dataJson.hasAll? ["member_id"] with
          | none => rfl
          | some given =>
              cases given with
              | false => rfl
              | true =>
                  cases member : dataJson.s? "member_id" with
                  | none => rfl
                  | some memberId => simp [present, member] at stops

theorem add_after {memberId serverAddress : Str} {selfAddress : Option Str} {req : HttpRequest}
    {codes : Nat → Codes} (same : ∀ index, (drawn index).codes = codes index)
    (edit : (Route.addMember req).edit = some (.add memberId serverAddress selfAddress))
    (admits : Admits sodium (codes 0) store req) :
    let read := (codes 1).read (listed group store)
    let replace := codes (if read.any (·.memberId = memberId) then 2 else 3)
    view group (play ((Route.addMember req).program sodium keys group) drawn store).2 =
      if replace.fails 0 then view group store
      else rewritten replace group keys.publicKeyB64 memberId serverAddress selfAddress
        (drawn 2).input.now read := by
  intro read replace
  refine Eq.trans (add_view edit (by rwa [same])) ?_
  rw [same, same]
  rfl

theorem remove_after {memberId : Str} {req : HttpRequest} {codes : Nat → Codes}
    (same : ∀ index, (drawn index).codes = codes index)
    (edit : (Route.removeMember req).edit = some (.remove memberId))
    (admits : Admits sodium (codes 0) store req) :
    let read := (codes 1).read (listed group store)
    view group (play ((Route.removeMember req).program sodium keys group) drawn store).2 =
      if read.any (·.memberId = memberId) then
        if (codes 2).fails 0 then view group store
        else fun id => entryFor group.text id
          (survivors (codes 2) 1 (read.filter (·.memberId ≠ memberId)))
      else view group store := by
  intro read
  refine Eq.trans (remove_view edit (by rwa [same])) ?_
  rw [same, same]
  rfl

theorem add_route {req : HttpRequest} {edit : Edit} (asked : (Route.addMember req).edit = some edit) :
    ∃ memberId serverAddress selfAddress, edit = .add memberId serverAddress selfAddress := by
  unfold Route.edit at asked
  split at asked
  · split at asked
    · cases asked
      exact ⟨_, _, _, rfl⟩
    · cases asked
  · next impossible _ => cases impossible
  · cases asked

theorem remove_route {req : HttpRequest} {edit : Edit}
    (asked : (Route.removeMember req).edit = some edit) : ∃ memberId, edit = .remove memberId := by
  unfold Route.edit at asked
  split at asked
  · next impossible _ => cases impossible
  · split at asked
    · cases asked
      exact ⟨_, rfl⟩
    · cases asked
  · cases asked

theorem whole_after {codes : Nat → Codes}
    (whole : Atomic sodium keys.publicKeyB64 group store codes route)
    (same : ∀ index, (drawn index).codes = codes index) :
    AllOrNothing keys.publicKeyB64 group route store
      (play (route.program sodium keys group) drawn store).2 := by
  by_cases idle : route.edit = none ∨ ¬Admits sodium (codes 0) store route.req
  · left
    rw [idle_play (by rwa [same])]
  obtain ⟨describes, admits⟩ := not_or.mp idle
  have admits := not_not.mp admits
  obtain ⟨edit, asked⟩ := Option.ne_none_iff_exists'.mp describes
  have whole := whole admits edit asked
  unfold AllOrNothing
  cases route with
  | addMember req =>
      obtain ⟨memberId, serverAddress, selfAddress, rfl⟩ := add_route asked
      rw [add_after same asked admits]
      dsimp only [Edit.Whole] at whole
      -- The list is replaced at another place of the run when the clock is read before.
      generalize codes (if ((codes 1).read (listed group store)).any (·.memberId = memberId)
        then 2 else 3) = replace at whole ⊢
      by_cases works : replace.fails 0 = true
      · rw [if_pos works]
        exact .inl rfl
      · rw [if_neg works]
        obtain ⟨complete, inserted, spared⟩ := Or.resolve_left whole works
        change (codes 1).read (listed group store) = listed group store at complete
        rw [complete]
        exact (whole_add inserted spared).imp_right fun done => ⟨_, asked, done⟩
  | removeMember req =>
      obtain ⟨memberId, rfl⟩ := remove_route asked
      rw [remove_after same asked admits]
      split
      · next known =>
        split
        · exact .inl rfl
        · next works =>
          rcases whole with unknown | fails | ⟨complete, inserted⟩
          · exact nomatch known.symm.trans unknown
          · exact absurd fails works
          · rw [complete]
            exact .inr ⟨_, asked, whole_remove inserted⟩
      · exact .inl rfl

theorem after_whole {codes : Nat → Codes}
    (safe : ∀ drawn : Nat → Drawn, (∀ index, (drawn index).codes = codes index) →
      AllOrNothing keys.publicKeyB64 group route store
        (play (route.program sodium keys group) drawn store).2) :
    Atomic sodium keys.publicKeyB64 group store codes route := by
  intro admits edit asked
  let drawn (now : Int) (index : Nat) : Drawn :=
    ⟨Network.clockAt now, codes index, none⟩
  -- One run for every time, so the condition cannot depend on the clock.
  have after := fun now => safe (drawn now) fun _ => rfl
  unfold AllOrNothing at after
  simp only [asked, Option.some.injEq, exists_eq_left'] at after
  cases route with
  | addMember req =>
      obtain ⟨memberId, serverAddress, selfAddress, rfl⟩ := add_route asked
      apply Classical.or_iff_not_imp_left.mpr
      intro works
      apply add_whole
      intro now
      have done := after now
      rw [add_after (fun _ => rfl) asked admits, if_neg works] at done
      exact done
  | removeMember req =>
      obtain ⟨memberId, rfl⟩ := remove_route asked
      have done := after 0
      rw [remove_after (fun _ => rfl) asked admits] at done
      cases known : ((codes 1).read (listed group store)).any (·.memberId = memberId) with
      | false => exact .inl known
      | true =>
          right
          apply Classical.or_iff_not_imp_left.mpr
          intro works
          rw [if_pos known, if_neg works] at done
          exact remove_whole known done

/-- A membership edit is all or nothing exactly if the list is read to its end and every
entry that was there is inserted again. -/
theorem all_or_nothing_iff (sodium : Sodium) (keys : KeyPair) (group : PathId) (store : Store)
    (route : Route) (codes : Nat → Codes) :
    (∀ drawn : Nat → Drawn, (∀ index, (drawn index).codes = codes index) →
      AllOrNothing keys.publicKeyB64 group route store
        (play (route.program sodium keys group) drawn store).2) ↔
      Atomic sodium keys.publicKeyB64 group store codes route :=
  ⟨after_whole, fun whole _ same => whole_after whole same⟩

end Requests

/-! A node with one device, and a group of two. -/

def staffed : Store :=
  { Store.initial with
    clients := createClient ⟨str "c", [], str "salt", hashSecret .transparent (str "x") (str "salt"),
      0⟩ .empty
    groupMembers := (replaceGroupMembers (str "team") [⟨str "team", str "a", str "a", str "admin", 0⟩,
      ⟨str "team", str "b", str "b", str "member", 1⟩] .empty).2 }

def staff : PathId := ⟨str "team", by decide, by decide⟩

/-- Someone else is to be added. -/
def invite : Route :=
  .addMember ⟨str "c", str "x", some (.obj [("member_id", .str (str "d")),
    ("server_address", .str (str "d"))])⟩

/-- One step of one statement fails, in the operation of the given number. -/
def fault (operation statement row index : Nat) : Drawn :=
  ⟨Network.clockAt 2,
    ⟨fun _ => false, fun failing step =>
      decide (index = operation ∧ failing = statement ∧ step = row)⟩, none⟩

theorem bystander_lost {keys : KeyPair} {drawn : Nat → Drawn}
    (lost : (view staff (play (invite.program .transparent keys staff) drawn staffed).2
      (str "b")).isNone = true) :
    ¬AllOrNothing keys.publicKeyB64 staff invite staffed
      (play (invite.program .transparent keys staff) drawn staffed).2 := by
  intro whole
  have there : (view staff staffed (str "b")).isSome = true := by decide +kernel
  obtain ⟨row, found⟩ := Option.isSome_iff_exists.mp there
  rcases whole with same | ⟨edit, asked, done⟩
  · rw [same, found] at lost
    cases lost
  · obtain ⟨memberId, serverAddress, selfAddress, rfl⟩ := add_route asked
    obtain ⟨kept, present, _⟩ := kept_time found (.inr done) nofun
    rw [present] at lost
    cases lost

/-- A read that stops after one row drops the other member, and so does an insert that
fails. -/
theorem bystander_dropped :
    ¬AllOrNothing (KeyPair.filled 1).publicKeyB64 staff invite staffed
      (play (invite.program .transparent (.filled 1) staff) (fault 1 0 1) staffed).2 ∧
    ¬AllOrNothing (KeyPair.filled 1).publicKeyB64 staff invite staffed
      (play (invite.program .transparent (.filled 1) staff) (fault 3 2 0) staffed).2 :=
  ⟨bystander_lost (by decide +kernel), bystander_lost (by decide +kernel)⟩

end NoMiddle.WholeEdit
