import NoMiddle.MemberLists
import NoMiddle.GroupMembership

/-! A member list on its way from the node that stores it, through a snapshot, into the
table of another. The times of the members go into the snapshot and are not read out of it:
the receiver stores whatever its memory held, and sorts the list by that. -/
namespace NoMiddle.RoundTrip
open Library Text DbManager Node MessageDelivery Handlers Solo
open Rejection GroupMembership MemberLists

/-- The value nobody set, where one was read. -/
def leftover : Event nodeSig → Option Int
  | ⟨.inl .uninitialised, value⟩ => some value
  | _ => none

/-- What the memory held, in the order it was read. -/
def drawn (trace : List (Event nodeSig)) : List Int := (trace.filterMap leftover).reverse

theorem drawn_cons (event : Event nodeSig) (trace : List (Event nodeSig)) :
    drawn (event :: trace) = drawn trace ++ (leftover event).toList := by
  unfold drawn
  cases kind : leftover event with
  | none => rw [List.filterMap_cons_none kind, Option.toList_none, List.append_nil]
  | some value => rw [List.filterMap_cons_some kind, List.reverse_cons]; rfl

section Receiver
variable {note : Note}

theorem recordGroup_spares (groupId senderId groupName : Str) :
    (recordGroup groupId senderId groupName).wp noted
      (fun _ after => after.1.store.groupMembers = note.1.store.groupMembers ∧
        drawn after.2 = drawn note.2) note := by
  unfold recordGroup
  apply noted_perform
  intro input
  split
  · apply noted_perform
    intro timed
    apply noted_perform
    intro created
    exact ⟨rfl, by simp [drawn_cons, leftover]⟩
  · split
    · apply noted_perform
      intro renamed
      exact ⟨rfl, by simp [drawn_cons, leftover]⟩
    · exact ⟨rfl, by simp [drawn_cons, leftover]⟩

def sentTo (groupId : Str) (m : GroupMember) : Str × Entry := (groupId, entry m)

/-- The list that is read has the snapshot's entries and the times that were drawn. -/
theorem readMembers_drawn (groupId : Str) (members : List GroupMember)
    (fresh : drawn note.2 = []) :
    ((members.map memberJson).foldlM (readMember groupId) (some [])).wp noted
      (fun read after => after.1 = note.1 ∧ ∃ list, read = some list ∧
        list.map ident = members.map (sentTo groupId) ∧
        drawn after.2 = list.map (·.addedAt)) note := by
  have start : ∃ left : List GroupMember, members.map memberJson = left.map memberJson ∧
      note.1 = note.1 ∧ ∃ list : List GroupMember, some [] = some list ∧
        list.map ident ++ left.map (sentTo groupId) = members.map (sentTo groupId) ∧
        drawn note.2 = list.map (·.addedAt) :=
    ⟨members, rfl, rfl, [], rfl, rfl, fresh⟩
  refine Program.wp_mono noted_monotone _ ?_ note (Program.wp_foldlM noted_monotone _
    (fun rest read after => ∃ left : List GroupMember, rest = left.map memberJson ∧
      after.1 = note.1 ∧ ∃ list, read = some list ∧
        list.map ident ++ left.map (sentTo groupId) = members.map (sentTo groupId) ∧
        drawn after.2 = list.map (·.addedAt)) ?_ _ _ note start)
  · rintro read after ⟨left, none, same, list, rfl, entries, times⟩
    rw [List.map_eq_nil_iff.mp none.symm, List.map_nil, List.append_nil] at entries
    exact ⟨same, list, rfl, entries, times⟩
  rintro e rest read after ⟨left, step, same, list, rfl, entries, times⟩
  cases left with
  | nil => cases step
  | cons m later =>
      obtain ⟨rfl, rfl⟩ := List.cons.inj step
      apply noted_perform
      intro input
      refine ⟨later, rfl, same, _, rfl, ?_, ?_⟩
      · rw [← entries, List.map_append, List.append_assoc]
        rfl
      · rw [drawn_cons, times, List.map_append]
        rfl

/-- The whole handler: the list is replaced by one with the snapshot's entries and the times
that were drawn. -/
theorem acceptGroupUpdate_drawn (groupId senderId : Str) (version : Int) (grp : Option Group)
    (members : List GroupMember) (fresh : drawn note.2 = []) :
    (acceptGroupUpdate (some (snapshot groupId senderId version grp members))).wp noted
      (fun _ after => ∃ list : List GroupMember,
        list.map ident = members.map (sentTo groupId) ∧
        drawn after.2 = list.map (·.addedAt) ∧ after.1.store.groupMembers =
          (replaceGroupMembers groupId list note.1.store.groupMembers).2) note := by
  obtain ⟨present, group, hasSender, sender, hasName, name, items⟩ :=
    snapshot_fields groupId senderId version grp members
  obtain ⟨groupName, named⟩ : ∃ groupName,
      (if (snapshot groupId senderId version grp members).has "name" then
        (snapshot groupId senderId version grp members).s? "name" else some []) =
      some groupName := by
    rw [hasName, name]
    cases grp <;> exact ⟨_, rfl⟩
  unfold acceptGroupUpdate
  simp only [present, group, hasSender, sender, named, items, Bool.not_true, Bool.false_eq_true,
    ↓reduceIte]
  apply Program.wp_seq noted_monotone _ _ note (recordGroup_spares groupId senderId groupName)
  rintro _ recorded ⟨kept, undrawn⟩
  apply Program.wp_seq noted_monotone _ _ recorded
    (readMembers_drawn groupId members (undrawn.trans fresh))
  rintro _ after ⟨same, list, rfl, entries, times⟩
  apply noted_perform
  intro input
  have result : ∀ response : Response, (Program.ret response : Proc Response).wp noted
      (fun _ after => ∃ list : List GroupMember,
        list.map ident = members.map (sentTo groupId) ∧
        drawn after.2 = list.map (·.addedAt) ∧ after.1.store.groupMembers =
          (replaceGroupMembers groupId list note.1.store.groupMembers).2)
      (⟨(handle input (.call (.replaceGroupMembers groupId list)) after.1.store).2, after.1.sent⟩,
        ⟨.inl (.call (.replaceGroupMembers groupId list)),
          (handle input (.call (.replaceGroupMembers groupId list)) after.1.store).1⟩ ::
            after.2) := by
    intro response
    refine ⟨list, entries, ?_, ?_⟩
    · rw [drawn_cons, times]
      exact List.append_nil _
    · change (replaceGroupMembers groupId list after.1.store.groupMembers).2 = _
      rw [same, kept]
  split
  · exact result _
  · exact result _

end Receiver

/-! The two lists. -/
section Lists
variable {groupId : Str} {members list : List GroupMember} {table other : GroupMembers}

structure Distinct (members : List GroupMember) : Prop where
  clean : ∀ m ∈ members, Clean m.memberId
  nodup : (members.map (·.memberId)).Nodup

theorem ids_carried (carried : list.map ident = members.map (sentTo groupId)) :
    list.map (·.memberId) = members.map (·.memberId) := by
  have ids := congrArg (List.map fun row => row.2.1) carried
  rwa [List.map_map, List.map_map] at ids

theorem Distinct.carried (distinct : Distinct members)
    (carried : list.map ident = members.map (sentTo groupId)) : Distinct list := by
  have ids := ids_carried carried
  refine ⟨fun m member => ?_, ids ▸ distinct.nodup⟩
  have among : m.memberId ∈ members.map (·.memberId) := ids ▸ List.mem_map_of_mem member
  obtain ⟨sent, there, same⟩ := List.mem_map.mp among
  exact same ▸ distinct.clean sent there

theorem rows_carried (carried : list.map ident = members.map (sentTo groupId))
    (times : list.map (·.addedAt) = members.map (·.addedAt)) :
    list.map (·.stored groupId) = members.map (·.stored groupId) := by
  have pairs := congrArg₂ List.zip carried times
  rw [List.zip_map', List.zip_map'] at pairs
  have rows := congrArg (List.map fun pair : (Str × Entry) × Int =>
    (⟨pair.1.1, pair.1.2.1, pair.1.2.2.1, pair.1.2.2.2, pair.2⟩ : GroupMember).stored groupId) pairs
  rwa [List.map_map, List.map_map] at rows

theorem times_carried (distinct : Distinct members)
    (carried : list.map ident = members.map (sentTo groupId))
    (rows : (list.map (·.stored groupId)).Perm (members.map (·.stored groupId))) :
    list.map (·.addedAt) = members.map (·.addedAt) := by
  have ids := ids_carried carried
  have cleanList := (distinct.carried carried).clean
  apply List.ext_getElem
  · rw [List.length_map, List.length_map]
    simpa using congrArg List.length ids
  intro index before after
  rw [List.getElem_map, List.getElem_map]
  rw [List.length_map] at before after
  have same : list[index].memberId = members[index].memberId := by
    have here := List.getElem_of_eq ids (i := index) (by simpa using before)
    rwa [List.getElem_map, List.getElem_map] at here
  have among : list[index].stored groupId ∈ members.map (·.stored groupId) :=
    rows.mem_iff.mp (List.mem_map_of_mem (List.getElem_mem before))
  obtain ⟨m, member, row⟩ := List.mem_map.mp among
  have id : m.memberId = list[index].memberId := by
    have stored : cstr m.memberId = cstr list[index].memberId := congrArg (·.memberId) row
    rwa [cstr_of_clean (distinct.clean m member),
      cstr_of_clean (cleanList _ (List.getElem_mem before))] at stored
  have it := List.inj_on_of_nodup_map distinct.nodup member (List.getElem_mem after) (id.trans same)
  have time : m.addedAt = list[index].addedAt := congrArg (·.addedAt) row
  rw [← time, it]

theorem listings_agree_iff (distinct : Distinct members)
    (carried : list.map ident = members.map (sentTo groupId)) :
    groupMembersOf groupId (replaceGroupMembers groupId list table).2 =
        groupMembersOf groupId (replaceGroupMembers groupId members other).2 ↔
      list.map (·.addedAt) = members.map (·.addedAt) := by
  have carriedOver := distinct.carried carried
  rw [listing_distinct groupId carriedOver.nodup carriedOver.clean,
    listing_distinct groupId distinct.nodup distinct.clean]
  constructor
  · intro same
    apply times_carried distinct carried
    exact ((List.perm_insertionSort _ _).symm.trans (.of_eq same)).trans
      (List.perm_insertionSort _ _)
  · intro times
    rw [rows_carried carried times]

end Lists

/-- The receiver lists the members as the sender does, with their times and in their order,
exactly if its memory happened to hold those times where it reads them. -/
theorem snapshot_carried_iff {groupId senderId : Str} {version : Int} {grp : Option Group}
    {members : List GroupMember} (distinct : Distinct members) {sender receiver : Store}
    {sent : List (Request × Option Response)} {response : Response} {after : Note}
    (run : NotedRuns (acceptGroupUpdate (some (snapshot groupId senderId version grp members)))
      ⟨receiver, sent⟩ response after) :
    groupMembersOf groupId after.1.store.groupMembers =
        groupMembersOf groupId (replaceGroupMembers groupId members sender.groupMembers).2 ↔
      drawn after.2 = members.map (·.addedAt) := by
  have accepted := @acceptGroupUpdate_drawn ⟨⟨receiver, sent⟩, []⟩ groupId senderId version grp
    members rfl
  obtain ⟨list, carried, times, stored⟩ :=
    (Program.wp_demonic_iff _ _ _ _).mp accepted response after run
  rw [stored, times]
  exact listings_agree_iff distinct carried

def couple : List GroupMember :=
  [⟨str "g", str "a", str "here", str "admin", 1⟩, ⟨str "g", str "b", str "there", str "member", 2⟩]

def told : Json := snapshot (str "g") (str "a") 3 none couple

def memories (first second : Int) : List (Input × Option Response) :=
  [Network.clockAt 0, Network.clockAt 0, Network.clockAt 0, { Network.clockAt 0 with memory := first },
    { Network.clockAt 0 with memory := second }, Network.clockAt 0].map fun input => (input, none)

theorem told_runs (first second : Int) (holds : Note → Prop) [DecidablePred holds]
    (executed : ((acceptGroupUpdate (some told)).exec (Program.traced act)
      (memories first second) (⟨Store.initial, []⟩, [])).any
        (fun done => decide (holds done.2)) = true) :
    ∃ response after, NotedRuns (acceptGroupUpdate (some told)) ⟨Store.initial, []⟩ response after ∧
      holds after := by
  obtain ⟨⟨response, after⟩, run, shown⟩ := (Option.any_eq_true _ _).mp executed
  have runs := Program.exec_runs (Program.traced act) _ _ _ _ _ run
  exact ⟨response, after, runs, of_decide_eq_true shown⟩

def shown : List GroupMember :=
  groupMembersOf (str "g") (replaceGroupMembers (str "g") couple Store.initial.groupMembers).2

theorem told_carried : ∃ response after,
    NotedRuns (acceptGroupUpdate (some told)) ⟨Store.initial, []⟩ response after ∧
    groupMembersOf (str "g") after.1.store.groupMembers = shown := by
  obtain ⟨response, after, run, drew⟩ :=
    told_runs 1 2 (fun after => drawn after.2 = [1, 2]) (by decide +kernel)
  exact ⟨response, after, run, (snapshot_carried_iff ⟨by decide, by decide⟩ run).mpr drew⟩

/-- With other memory the second member comes first. -/
theorem told_reordered : ∃ response after,
    NotedRuns (acceptGroupUpdate (some told)) ⟨Store.initial, []⟩ response after ∧
    (groupMembersOf (str "g") after.1.store.groupMembers).map (·.memberId) ≠
      shown.map (·.memberId) :=
  told_runs 9 8 (fun after => (groupMembersOf (str "g") after.1.store.groupMembers).map
    (·.memberId) ≠ shown.map (·.memberId)) (by decide +kernel)

end NoMiddle.RoundTrip
