import NoMiddle.FailedCalls
import NoMiddle.MemberLists

/-! What the two routes that edit a group's member list make of it. The list is read, edited
in memory and written back as a whole, and what is written back is what was asked for: the
rest of it, the other groups and the times and roles of the members stay as they were. -/
namespace NoMiddle.MemberEdits
open Library Text Crypto DbManager DbViews Node MessageDelivery Handlers GroupHandlers Solo
open GroupMembership (Sound entry NulFree remaining setAddress_ids sound_iff sound_stored
  sound_setAddress sound_withSelfAddress sound_append sound_filter)
open GroupTables (Asks wp_addMember wp_removeMember)
open PartialEdit (withSelfAddress_ids)
open WholeEdit (listed newcomer listed_clean mem_listed)

/-- A pre-existing member after the edit. Its own address comes before this node's. -/
def moved (selfId memberId serverAddress : Str) (selfAddress : Option Str) (m : GroupMember) :
    GroupMember :=
  { m with serverAddress :=
      if m.memberId = memberId then serverAddress
      else if m.memberId = selfId then selfAddress.getD m.serverAddress
      else m.serverAddress }

structure Apart (group : PathId) (before after : Store) : Prop where
  members : (after.groupMembers.rows.filter fun row => !decide (row.groupId = group.text)) =
    before.groupMembers.rows.filter fun row => !decide (row.groupId = group.text)
  groups : (after.groups.rows.filter fun g => !decide (g.groupId = group.text)) =
    before.groups.rows.filter fun g => !decide (g.groupId = group.text)

/-- The member is there with the address, and nothing else is new. -/
structure Added (group : PathId) (selfId memberId serverAddress : Str) (selfAddress : Option Str)
    (before after : Store) : Prop where
  apart : Apart group before after
  groups : after.groups = before.groups
  list : (∃ m ∈ listed group before, m.memberId = memberId) ∧
      (∀ row, row ∈ listed group after ↔ ∃ m ∈ listed group before,
        row = moved selfId memberId serverAddress selfAddress m) ∨
    (∀ m ∈ listed group before, m.memberId ≠ memberId) ∧
      ∃ addedAt, ∀ row, row ∈ listed group after ↔ (∃ m ∈ listed group before,
        row = moved selfId memberId serverAddress selfAddress m) ∨
          row = newcomer group memberId serverAddress addedAt

/-- The member is gone, and with the last one the group. -/
structure Removed (group : PathId) (memberId : Str) (before after : Store) : Prop where
  apart : Apart group before after
  list : ∀ row, row ∈ listed group after ↔ row ∈ listed group before ∧ row.memberId ≠ memberId
  group : ∀ g : DbManager.Group, g.groupId = group.text →
    (g ∈ after.groups.rows ↔ g ∈ before.groups.rows ∧
      ∃ m ∈ listed group before, m.memberId ≠ memberId)

/-! The lists. -/
section Lists
variable {group : PathId} {members : List GroupMember} {store : Store}

theorem setAddress_map {memberId serverAddress : Str}
    (distinct : (members.map (·.memberId)).Nodup) :
    setAddress memberId serverAddress members = members.map fun m =>
      if m.memberId = memberId then { m with serverAddress := serverAddress } else m := by
  induction members with
  | nil => rfl
  | cons m rest ih =>
      rw [List.map_cons, List.nodup_cons] at distinct
      rw [setAddress, List.map_cons]
      split
      · next named =>
        -- None of the others is this member.
        have others : ∀ other ∈ rest, (if other.memberId = memberId then
            { other with serverAddress := serverAddress } else other) = other := by
          intro other member
          refine if_neg fun same => distinct.1 ?_
          rw [named, ← same]
          exact List.mem_map_of_mem member
        rw [List.map_congr_left others, List.map_id']
      · rw [ih distinct.2]

theorem withSelfAddress_map {selfId : Str} {selfAddress : Option Str}
    (distinct : (members.map (·.memberId)).Nodup) :
    withSelfAddress selfId selfAddress members = members.map fun m =>
      if m.memberId = selfId then
        { m with serverAddress := selfAddress.getD m.serverAddress } else m := by
  cases selfAddress with
  | some address => exact setAddress_map distinct
  | none =>
      refine (List.map_id members).symm.trans (List.map_congr_left fun m _ => ?_)
      exact (ite_self m).symm

theorem edited_map {selfId memberId serverAddress : Str} {selfAddress : Option Str}
    (distinct : (members.map (·.memberId)).Nodup) :
    setAddress memberId serverAddress (withSelfAddress selfId selfAddress members) =
      members.map (moved selfId memberId serverAddress selfAddress) := by
  have ids : ((withSelfAddress selfId selfAddress members).map (·.memberId)).Nodup := by
    rw [withSelfAddress_ids]
    exact distinct
  rw [setAddress_map ids, withSelfAddress_map distinct, List.map_map]
  refine List.map_congr_left fun m _ => ?_
  rw [Function.comp_apply, moved]
  by_cases self : m.memberId = selfId
  · rw [if_pos self, if_pos self]
    by_cases named : m.memberId = memberId
    · rw [if_pos named, if_pos named]
    · rw [if_neg named, if_neg named]
  · rw [if_neg self, if_neg self]
    by_cases named : m.memberId = memberId
    · rw [if_pos named, if_pos named]
    · rw [if_neg named, if_neg named]

theorem moved_other {selfId memberId serverAddress : Str} {selfAddress : Option Str}
    {m : GroupMember} (other : m.memberId ≠ memberId) :
    moved selfId memberId serverAddress selfAddress m = if m.memberId = selfId then
      { m with serverAddress := selfAddress.getD m.serverAddress } else m := by
  rw [moved, if_neg other]
  by_cases self : m.memberId = selfId
  · rw [if_pos self, if_pos self]
  · rw [if_neg self, if_neg self]

/-- A sound list of the group is what the table lists afterwards. -/
theorem listed_replaced (sound : Sound (members.map entry))
    (inGroup : ∀ m ∈ members, m.groupId = group.text) (row : GroupMember) :
    row ∈ groupMembersOf group.text (replaceGroupMembers group.text members
      store.groupMembers).2 ↔ row ∈ members := by
  obtain ⟨distinct, plain⟩ := sound_iff.mp sound
  have same : members.map (·.stored group.text) = members := by
    conv_rhs => rw [← List.map_id members]
    refine List.map_congr_left fun m member => ?_
    rw [MemberLists.stored_plain group.clean (plain m member), ← inGroup m member]
    rfl
  rw [MemberLists.listing_distinct group.text distinct fun m member => (plain m member).1,
    List.mem_insertionSort, same]

end Lists

section Routes
variable {sodium : Sodium} {keys : KeyPair} {req : HttpRequest} {group : PathId} {desk : Desk}
  {groupId : Str} {members : List GroupMember}

theorem pushGroupUpdate_lists {senderId : Str} {version : Int} {snapshotJson : Json}
    {allOnline : Bool} {m : GroupMember} {before : Store}
    (groups : desk.store.groups = before.groups)
    (lists : desk.store.groupMembers = before.groupMembers) :
    (pushGroupUpdate groupId senderId version snapshotJson allOnline m).wp contract
      (fun _ after => after.store.groups = before.groups ∧
        after.store.groupMembers = before.groupMembers) desk := by
  unfold pushGroupUpdate
  split
  · exact ⟨groups, lists⟩
  apply wp_call
  intro now
  dsimp only
  split
  · exact ⟨groups, lists⟩
  apply wp_send
  intro answer
  dsimp only
  split
  · apply wp_call
    intro later
    exact ⟨groups, lists⟩
  · exact ⟨groups, lists⟩

theorem deliverGroupUpdate_lists (senderId : Str) (version : Int) :
    (deliverGroupUpdate groupId senderId members version).wp contract
      (fun _ after => after.store.groups = desk.store.groups ∧
        after.store.groupMembers = desk.store.groupMembers) desk := by
  unfold deliverGroupUpdate
  apply wp_call
  intro now
  apply Program.wp_foldlM monotone _ (fun _ _ after => after.store.groups = desk.store.groups ∧
    after.store.groupMembers = desk.store.groupMembers)
  · rintro m rest allOnline after ⟨groups, lists⟩
    exact pushGroupUpdate_lists groups lists
  · exact ⟨rfl, rfl⟩

theorem wp_written {senderId : Str} {refused : Response} {rest : Bool → Proc Response}
    {post : Response → Desk → Prop}
    (stored : (replaceGroupMembers groupId members desk.store.groupMembers).1 = true)
    (later : ∀ delivered after, after.store.groups = desk.store.groups →
      after.store.groupMembers =
        (replaceGroupMembers groupId members desk.store.groupMembers).2 →
      (rest delivered).wp contract post after) :
    (do if !(← call (.replaceGroupMembers groupId members)) then return refused
        let version ← time
        let delivered ← deliverGroupUpdate groupId senderId members version
        rest delivered).wp contract post desk := by
  apply wp_call
  intro now
  split
  · next failed =>
    have done : ((Call.replaceGroupMembers groupId members).exec now desk.store).1 = true := stored
    rw [done] at failed
    cases failed
  apply wp_time
  intro version
  apply Program.wp_seq monotone _ _ _ (deliverGroupUpdate_lists senderId version)
  rintro delivered after ⟨groups, lists⟩
  exact later delivered after groups lists

theorem apart_replaced {before after : Store} (groups : after.groups = before.groups)
    (lists : after.groupMembers =
      (replaceGroupMembers group.text members before.groupMembers).2) :
    Apart group before after where
  members := by
    have kept := MemberLists.other_rows_replaced group.text members before.groupMembers
    rw [cstr_of_clean group.clean] at kept
    rw [lists, kept]
  groups := by rw [groups]

theorem stored_distinct (store : Store) : ((listed group store).map (·.memberId)).Nodup :=
  groupMembersOf_nodup group.text store.groupMembers

theorem asks_same {store : Store} {memberId serverAddress otherId otherAddress : Str}
    (asks : Asks sodium req store [("member_id", memberId), ("server_address", serverAddress)])
    (also : Asks sodium req store [("member_id", otherId), ("server_address", otherAddress)]) :
    memberId = otherId ∧ serverAddress = otherAddress := by
  obtain ⟨_, body, brought, strings⟩ := asks
  obtain ⟨_, _, same, others⟩ := also
  cases brought.symm.trans same
  simp only [List.forall_mem_cons] at strings others
  exact ⟨Option.some.inj (strings.1.symm.trans others.1),
    Option.some.inj (strings.2.1.symm.trans others.2.1)⟩

theorem mem_moved {selfId memberId serverAddress : Str} {selfAddress : Option Str}
    {store : Store} {row : GroupMember} :
    row ∈ (listed group store).map (moved selfId memberId serverAddress selfAddress) ↔
      ∃ m ∈ listed group store, row = moved selfId memberId serverAddress selfAddress m := by
  rw [List.mem_map]
  exact exists_congr fun m => and_congr_right fun _ => eq_comm

theorem moved_group {selfId memberId serverAddress : Str} {selfAddress : Option Str}
    {store : Store} {row : GroupMember} (member : row ∈ (listed group store).map
      (moved selfId memberId serverAddress selfAddress)) : row.groupId = group.text := by
  obtain ⟨m, there, rfl⟩ := mem_moved.mp member
  exact ((mem_listed m).mp there).1

theorem withMember_exact {memberId serverAddress : Str} {selfAddress : Option Str}
    {refused : Response} (cleanId : Clean memberId) (cleanAddress : Clean serverAddress)
    (cleanSelf : ∀ address, selfAddress = some address → Clean address) :
    (withMember group.text memberId serverAddress (withSelfAddress keys.publicKeyB64 selfAddress
        (listed group desk.store)) >>= fun members => do
      if !(← call (.replaceGroupMembers group.text members)) then return refused
      let version ← time
      let delivered ← deliverGroupUpdate group.text keys.publicKeyB64 members version
      return ok [("delivered", .bool delivered)]).wp contract
      (fun response after => response.code = 200 ∧ Added group keys.publicKeyB64 memberId
        serverAddress selfAddress desk.store after.store) desk := by
  have base : Sound ((withSelfAddress keys.publicKeyB64 selfAddress
      (listed group desk.store)).map entry) :=
    sound_withSelfAddress cleanSelf (sound_stored group.text desk.store.groupMembers)
  have distinct : ((listed group desk.store).map (·.memberId)).Nodup := stored_distinct desk.store
  unfold withMember
  split
  · next known =>
    have sound : Sound ((setAddress memberId serverAddress (withSelfAddress keys.publicKeyB64
        selfAddress (listed group desk.store))).map entry) := sound_setAddress cleanAddress base
    rw [edited_map distinct] at sound ⊢
    rw [Program.pure_eq, Program.ret_bind]
    apply wp_written (GroupMembership.replace_ok sound _)
    intro delivered after groups lists
    refine ⟨rfl, apart_replaced groups lists, groups, .inl ⟨?_, fun row => ?_⟩⟩
    · exact FailedCalls.listed_known.mp known
    · rw [listed, lists, listed_replaced sound fun m member => moved_group member]
      exact mem_moved
  · next absent =>
    have others : ∀ m ∈ listed group desk.store, m.memberId ≠ memberId := fun m member same =>
      absent (FailedCalls.listed_known.mpr ⟨m, member, same⟩)
    apply wp_time
    intro addedAt
    have sound : Sound ((withSelfAddress keys.publicKeyB64 selfAddress (listed group desk.store) ++
        [newcomer group memberId serverAddress addedAt]).map entry) := by
      have cleanRole : Clean (str "member") := by decide
      refine sound_append ⟨cleanId, cleanAddress, cleanRole⟩ ?_ base
      intro m member same
      exact absent (List.any_eq_true.mpr ⟨m, member, decide_eq_true same⟩)
    have same : withSelfAddress keys.publicKeyB64 selfAddress (listed group desk.store) =
        (listed group desk.store).map
          (moved keys.publicKeyB64 memberId serverAddress selfAddress) := by
      rw [withSelfAddress_map distinct]
      exact List.map_congr_left fun m member => (moved_other (others m member)).symm
    rw [same] at sound ⊢
    apply wp_written (GroupMembership.replace_ok sound _)
    intro delivered after groups lists
    refine ⟨rfl, apart_replaced groups lists, groups, .inr ⟨others, addedAt, fun row => ?_⟩⟩
    rw [listed, lists, listed_replaced sound fun m member => ?_, List.mem_append, mem_moved,
      List.mem_singleton]
    rcases List.mem_append.mp member with old | new
    · exact moved_group old
    · rw [List.mem_singleton.mp new]
      rfl

theorem addMember_exact (clean : NulFree req) :
    (addMember sodium keys req group).wp contract
      (fun response after => ∀ body memberId serverAddress, req.body = some body →
        Asks sodium req desk.store [("member_id", memberId), ("server_address", serverAddress)] →
        response.code = 200 ∧ Added group keys.publicKeyB64 memberId serverAddress
          (body.optional "self_server_address") desk.store after.store) desk := by
  apply wp_addMember
  · intro silent response body memberId serverAddress _ asks
    exact absurd asks (silent memberId serverAddress)
  intro body memberId serverAddress brought asks
  obtain ⟨_, _, same, strings⟩ := id asks
  cases brought.symm.trans same
  simp only [List.forall_mem_cons] at strings
  refine Program.wp_mono monotone _ ?_ desk (withMember_exact (clean body brought _ _ strings.1)
    (clean body brought _ _ strings.2.1) fun address given => clean body brought _ _ given)
  intro response after done other otherId otherAddress also asksToo
  cases brought.symm.trans also
  obtain ⟨rfl, rfl⟩ := asks_same asks asksToo
  exact done

theorem remaining_length {memberId : Str} {store : Store} :
    (remaining group.text memberId store).length = (listed group store).length ↔
      ∀ m ∈ listed group store, m.memberId ≠ memberId := by
  simp only [remaining, List.length_filter_eq_length_iff, decide_eq_true_iff]

theorem mem_remaining {memberId : Str} {store : Store} {m : GroupMember} :
    m ∈ remaining group.text memberId store ↔
      m ∈ listed group store ∧ m.memberId ≠ memberId := by
  rw [remaining, List.mem_filter, decide_eq_true_iff]

theorem emptied_exact {memberId : Str} {before : Store}
    (left : remaining group.text memberId before = []) (now later : Int) :
    Removed group memberId before ((Call.deleteGroup group.text).exec later
      ((Call.replaceGroupMembers group.text []).exec now before).2).2 := by
  have nobody : ∀ m ∈ listed group before, m.memberId = memberId := by
    intro m member
    by_contra other
    have among := mem_remaining.mpr ⟨member, other⟩
    rw [left] at among
    cases among
  have clean := cstr_of_clean group.clean
  refine ⟨⟨?_, ?_⟩, fun row => ⟨fun member => ?_, fun ⟨there, other⟩ => ?_⟩, fun g own => ?_⟩
  · have kept := MemberLists.other_rows_replaced group.text [] before.groupMembers
    rw [clean] at kept
    simp only [Call.exec, Table.delete, clean, List.filter_filter, Bool.and_self]
    exact kept
  · simp only [Call.exec, Table.delete, clean, List.filter_filter, Bool.and_self]
  · obtain ⟨same, found⟩ := (mem_groupMembersOf _ _ row).mp member
    rw [groupMembers_exec] at found
    simp [onMember] at found
  · exact absurd (nobody row there) other
  · constructor
    · intro member
      have out := (List.mem_filter.mp member).2
      simp [own, clean] at out
    · rintro ⟨_, m, member, other⟩
      exact absurd (nobody m member) other

theorem left_exact {memberId : Str} {before after : Store}
    (some : remaining group.text memberId before ≠ []) (groups : after.groups = before.groups)
    (lists : after.groupMembers = (replaceGroupMembers group.text
      (remaining group.text memberId before) before.groupMembers).2) :
    Removed group memberId before after := by
  have sound : Sound ((remaining group.text memberId before).map entry) :=
    sound_filter _ (sound_stored group.text before.groupMembers)
  obtain ⟨m, member⟩ := List.exists_mem_of_ne_nil _ some
  refine ⟨apart_replaced groups lists, fun row => ?_, fun g _ => ?_⟩
  · rw [listed, lists, listed_replaced sound fun other among =>
      ((mem_listed other).mp (mem_remaining.mp among).1).1]
    exact mem_remaining
  · rw [groups]
    exact (and_iff_left ⟨m, mem_remaining.mp member⟩).symm

theorem removeMember_exact :
    (removeMember sodium keys req group).wp contract
      (fun response after => ∀ memberId, Asks sodium req desk.store [("member_id", memberId)] →
        (∃ m ∈ listed group desk.store, m.memberId = memberId) ∧ response.code = 200 ∧
          Removed group memberId desk.store after.store ∨
        (∀ m ∈ listed group desk.store, m.memberId ≠ memberId) ∧ response.code = 404 ∧
          after = desk) desk := by
  apply wp_removeMember
  · intro silent response memberId asks
    exact absurd asks (silent memberId)
  · intro memberId asks nobody other also
    rw [GroupTables.asks_unique also asks]
    exact .inr ⟨remaining_length.mp nobody, rfl, rfl⟩
  intro memberId asks somebody
  have there : ∃ m ∈ listed group desk.store, m.memberId = memberId := by
    by_contra! none
    exact somebody (remaining_length.mpr none)
  have done : ∀ {response : Response} {after : Desk}, response.code = 200 →
      Removed group memberId desk.store after.store →
      ∀ other, Asks sodium req desk.store [("member_id", other)] →
        (∃ m ∈ listed group desk.store, m.memberId = other) ∧ response.code = 200 ∧
          Removed group other desk.store after.store ∨
        (∀ m ∈ listed group desk.store, m.memberId ≠ other) ∧ response.code = 404 ∧
          after = desk := by
    intro response after fine removed other also
    rw [GroupTables.asks_unique also asks]
    exact .inl ⟨there, fine, removed⟩
  cases left : remaining group.text memberId desk.store with
  | nil =>
      apply wp_call
      intro now
      apply wp_time
      intro version
      apply wp_call
      intro _
      apply wp_call
      intro later
      exact done rfl (emptied_exact left now later)
  | cons m rest =>
      have sound : Sound ((m :: rest).map entry) := by
        rw [← left]
        exact sound_filter _ (sound_stored group.text desk.store.groupMembers)
      apply wp_written (GroupMembership.replace_ok sound _)
      intro delivered after groups lists
      rw [List.isEmpty_cons, Bool.and_false]
      rw [← left] at lists
      have some : remaining group.text memberId desk.store ≠ [] := by
        rw [left]
        exact List.cons_ne_nil m rest
      exact done rfl (left_exact some groups lists)

/-- The two routes do the requested edit and nothing else. -/
theorem member_edits_exact (sodium : Sodium) (keys : KeyPair) (req : HttpRequest)
    (group : PathId) (desk : Desk) (clean : NulFree req) :
    (∀ response after, Runs (addMember sodium keys req group) desk response after →
      ∀ body memberId serverAddress, req.body = some body →
        Asks sodium req desk.store [("member_id", memberId), ("server_address", serverAddress)] →
        response.code = 200 ∧ Added group keys.publicKeyB64 memberId serverAddress
          (body.optional "self_server_address") desk.store after.store) ∧
      ∀ response after, Runs (removeMember sodium keys req group) desk response after →
        ∀ memberId, Asks sodium req desk.store [("member_id", memberId)] →
        (∃ m ∈ listed group desk.store, m.memberId = memberId) ∧ response.code = 200 ∧
            Removed group memberId desk.store after.store ∨
          (∀ m ∈ listed group desk.store, m.memberId ≠ memberId) ∧ response.code = 404 ∧
            after = desk :=
  ⟨(Program.wp_demonic_iff _ _ _ _).mp (addMember_exact clean),
    (Program.wp_demonic_iff _ _ _ _).mp removeMember_exact⟩

end Routes

section Runs
open Network
open GroupMembership (founded)
open GroupTables (blank)

def founder : GroupMember := ⟨founded.text, pair.id true, str "a", str "admin", 1⟩
def friend : GroupMember := ⟨founded.text, str "e", str "x", str "member", 2⟩
def elsewhere : GroupMember := ⟨str "other", str "e", str "x", str "member", 3⟩

/-- A group of two, and one of them is in another group too. -/
def peopled : Store :=
  { blank with
    groupMembers := (DbManager.replaceGroupMembers (str "other") [elsewhere]
      (DbManager.replaceGroupMembers founded.text [founder, friend] .empty).2).2 }

def joining : HttpRequest :=
  userRequest [("member_id", .str (pair.id false)), ("server_address", .str (str "b")),
    ("self_server_address", .str (str "c"))]

def parting : HttpRequest := userRequest [("member_id", .str (str "e"))]

theorem userRequest_clean {fields : List (String × Json)}
    (clean : ∀ field ∈ fields, ∀ text, field.2 = .str text → Clean text) :
    NulFree (userRequest fields) := by
  rintro _ ⟨⟩ key text found
  unfold Json.s? at found
  split at found
  · next other there =>
    cases found
    obtain ⟨before, rest, split, _⟩ := List.lookup_eq_some_iff.mp there
    exact clean (key, .str text) (by simp [split]) text rfl
  · cases found

theorem joining_clean : NulFree joining := by
  apply userRequest_clean
  simp only [List.forall_mem_cons, Json.str.injEq, forall_eq']
  exact ⟨by decide +kernel, by decide, by decide, fun _ none => absurd none List.not_mem_nil⟩

theorem parting_clean : NulFree parting := by
  apply userRequest_clean
  simp only [List.forall_mem_cons, Json.str.injEq, forall_eq']
  exact ⟨by decide, fun _ none => absurd none List.not_mem_nil⟩

/-- A device takes somebody in, takes him off before he is there, and takes a friend off. -/
theorem admission_exact :
    (∃ response after, Runs (addMember .transparent (pair.keys true) joining founded)
      ⟨peopled, []⟩ response after ∧ response.code = 200 ∧ friend ∈ listed founded after.store ∧
      { founder with serverAddress := str "c" } ∈ listed founded after.store ∧
      ∃ m ∈ listed founded after.store, m.memberId = pair.id false ∧ m.serverAddress = str "b") ∧
    (∃ response after, Runs (removeMember .transparent (pair.keys true) joining founded)
      ⟨peopled, []⟩ response after ∧ response.code = 404 ∧ after = ⟨peopled, []⟩) ∧
    ∃ response after, Runs (removeMember .transparent (pair.keys true) parting founded)
      ⟨peopled, []⟩ response after ∧ response.code = 200 ∧ founder ∈ listed founded after.store ∧
      (∀ m ∈ listed founded after.store, m.memberId ≠ str "e") ∧
      elsewhere ∈ after.store.groupMembers.rows := by
  have : Nonempty (Input × Option Response) := ⟨(clockAt 0, none)⟩
  obtain ⟨adds, denies⟩ := member_edits_exact .transparent (pair.keys true) joining founded
    ⟨peopled, []⟩ joining_clean
  obtain ⟨_, removes⟩ := member_edits_exact .transparent (pair.keys true) parting founded
    ⟨peopled, []⟩ parting_clean
  obtain ⟨added, joined, ranAdd⟩ := Program.runs_total Solo.act
    (addMember .transparent (pair.keys true) joining founded) ⟨peopled, []⟩
  obtain ⟨denied, same, ranDeny⟩ := Program.runs_total Solo.act
    (removeMember .transparent (pair.keys true) joining founded) ⟨peopled, []⟩
  obtain ⟨removed, left, ranRemove⟩ := Program.runs_total Solo.act
    (removeMember .transparent (pair.keys true) parting founded) ⟨peopled, []⟩
  have before : listed founded peopled = [founder, friend] := by decide +kernel
  have absent : ∀ m ∈ listed founded peopled, m.memberId ≠ pair.id false := by
    rw [before]
    decide +kernel
  have authed : ∀ req ∈ [joining, parting], GroupTables.authed .transparent req peopled = true := by
    decide +kernel
  refine ⟨⟨added, joined, ranAdd, ?_⟩, ⟨denied, same, ranDeny, ?_⟩, removed, left, ranRemove, ?_⟩
  · obtain ⟨fine, done⟩ := adds added joined ranAdd _ (pair.id false) (str "b") rfl
      ⟨authed joining (by simp), _, rfl, by decide +kernel⟩
    refine ⟨fine, ?_⟩
    rcases done.list with ⟨⟨m, there, known⟩, _⟩ | ⟨_, addedAt, new⟩
    · exact absurd known (absent m there)
    · rw [before] at new
      refine ⟨(new _).mpr (.inl ⟨friend, by simp, ?_⟩), (new _).mpr (.inl ⟨founder, by simp, ?_⟩),
        _, (new _).mpr (.inr rfl), rfl, rfl⟩
      all_goals decide +kernel
  · rcases denies denied same ranDeny (pair.id false) ⟨authed joining (by simp), _, rfl,
      by decide +kernel⟩ with ⟨⟨m, there, known⟩, _⟩ | ⟨_, refused⟩
    · exact absurd known (absent m there)
    · exact refused
  · rcases removes removed left ranRemove (str "e") ⟨authed parting (by simp), _, rfl,
      by decide +kernel⟩ with ⟨_, fine, done⟩ | ⟨missing, _⟩
    · have others := done.apart.members
      refine ⟨fine, (done.list _).mpr ⟨by simp [before], by decide +kernel⟩,
        fun m there => ((done.list m).mp there).2, ?_⟩
      have there : elsewhere ∈ left.store.groupMembers.rows.filter
          fun row => !decide (row.groupId = founded.text) := by
        rw [others]
        decide +kernel
      exact List.mem_of_mem_filter there
    · exact absurd rfl (missing friend (by simp [before]))

end Runs

end NoMiddle.MemberEdits
