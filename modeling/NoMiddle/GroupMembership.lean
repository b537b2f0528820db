import NoMiddle.Sequential

/-! The member list of a group, on the node that edits it and on the nodes it is
pushed to. Every push carries the whole list and replaces the receiver's, so after an
edit the members agree, whatever they knew before. -/
namespace NoMiddle.GroupMembership
open Library Text Crypto DbManager DbViews Node MessageDelivery Handlers GroupHandlers Network
open NoMiddle.Sequential (Stores)

/-- What a snapshot says of a member. -/
abbrev Entry := Str × Str × Str

def entry (m : GroupMember) : Entry := (m.memberId, m.serverAddress, m.role)

/-- The member list of a group, as a node's table has it. -/
def listed (store : Store) (groupId : Str) : Set Entry :=
  {e | e ∈ (groupMembersOf groupId store.groupMembers).map entry}

/-- A list that can replace a member list without a conflict and unchanged. -/
structure Sound (entries : List Entry) : Prop where
  distinct : (entries.map (·.1)).Nodup
  clean : ∀ e ∈ entries, Clean e.1 ∧ Clean e.2.1 ∧ Clean e.2.2

theorem entry_stored {groupId : Str} {m : GroupMember}
    (clean : Clean (entry m).1 ∧ Clean (entry m).2.1 ∧ Clean (entry m).2.2) :
    entry (m.stored groupId) = entry m := by
  obtain ⟨id, address, role⟩ := clean
  exact Prod.ext (cstr_of_clean id)
    (Prod.ext (cstr_of_clean address) (cstr_of_clean role))

theorem sound_cons {m : GroupMember} {rest : List GroupMember}
    (sound : Sound ((m :: rest).map entry)) :
    Sound (rest.map entry) ∧ ∀ other ∈ rest, other.memberId ≠ m.memberId := by
  obtain ⟨fresh, distinct⟩ := List.nodup_cons.mp sound.distinct
  refine ⟨⟨distinct, fun e member => sound.clean e (List.mem_cons_of_mem _ member)⟩, ?_⟩
  intro other member same
  apply fresh
  simp only [List.map_map, List.mem_map, Function.comp_apply]
  exact ⟨other, member, same⟩

/-- Inserting a sound list meets no conflict as long as the table has none of it. -/
theorem insertAll_ok {groupId : Str} {members : List GroupMember} (sound : Sound (members.map entry))
    (done : Bool × GroupMembers) (fine : done.1 = true)
    (fresh : ∀ m ∈ members, done.2.find (cstr groupId, m.memberId) = none) :
    (members.foldl (insertMember groupId) done).1 = true := by
  induction members generalizing done with
  | nil => exact fine
  | cons m rest ih =>
      obtain ⟨later, different⟩ := sound_cons sound
      have clean : cstr m.memberId = m.memberId :=
        cstr_of_clean (sound.clean (entry m) List.mem_cons_self).1
      apply ih later
      · simp [insertMember, fine, Table.has, clean, fresh m List.mem_cons_self]
      · intro other member
        rw [find_insertMember, fresh other (List.mem_cons_of_mem m member), clean]
        simp [Ne.symm (different other member)]

theorem replace_ok {groupId : Str} {members : List GroupMember} (sound : Sound (members.map entry))
    (table : GroupMembers) : (replaceGroupMembers groupId members table).1 = true := by
  apply insertAll_ok sound _ rfl
  intro m _
  rw [Table.find_delete]
  cases found : table.find (cstr groupId, m.memberId) with
  | none => rfl
  | some row =>
      have key := table.find_key found
      simp only [Prod.mk.injEq] at key
      simp [Option.filter, key.1]

/-- Afterwards the group's list is the given one. -/
theorem mem_replaced {groupId : Str} {members : List GroupMember}
    (sound : Sound (members.map entry)) (table : GroupMembers) (e : Entry) :
    e ∈ (groupMembersOf groupId (replaceGroupMembers groupId members table).2).map entry ↔
      e ∈ members.map entry := by
  have cleanOf : ∀ m ∈ members,
      Clean (entry m).1 ∧ Clean (entry m).2.1 ∧ Clean (entry m).2.2 :=
    fun m member => sound.clean (entry m) (List.mem_map_of_mem member)
  simp only [List.mem_map, mem_groupMembersOf, find_replaceGroupMembers, ↓reduceIte, entryFor]
  constructor
  · rintro ⟨row, ⟨_, found⟩, rfl⟩
    obtain ⟨m, first, rfl⟩ := Option.map_eq_some_iff.mp found
    have member := List.mem_of_find?_eq_some first
    exact ⟨m, member, (entry_stored (cleanOf m member)).symm⟩
  · rintro ⟨m, member, rfl⟩
    refine ⟨m.stored groupId, ⟨rfl, ?_⟩, entry_stored (cleanOf m member)⟩
    -- The first entry that names the member is the member, as the ids are distinct.
    obtain ⟨first, found⟩ : ∃ first, members.find?
        (fun other => cstr other.memberId = (m.stored groupId).memberId) = some first := by
      apply Option.isSome_iff_exists.mp
      exact List.find?_isSome.mpr ⟨m, member, by simp [GroupMember.stored]⟩
    have among := List.mem_of_find?_eq_some found
    have key : cstr first.memberId = cstr m.memberId := by
      have holds := List.find?_some found
      exact of_decide_eq_true holds
    have same : first.memberId = m.memberId :=
      (cstr_of_clean (cleanOf first among).1).symm.trans
        (key.trans (cstr_of_clean (cleanOf m member).1))
    have distinct : (members.map (·.memberId)).Nodup := by
      have ids := sound.distinct
      rwa [List.map_map] at ids
    rw [found, List.inj_on_of_nodup_map distinct among member same]
    rfl

theorem listed_replaced {groupId : Str} {members : List GroupMember} {store : Store}
    (sound : Sound (members.map entry)) (table : GroupMembers)
    (replaced : store.groupMembers = (replaceGroupMembers groupId members table).2) :
    listed store groupId = {e | e ∈ members.map entry} := by
  ext e
  unfold listed
  rw [replaced]
  exact mem_replaced sound table e

/-- A member list that was stored is sound. -/
theorem sound_stored (groupId : Str) (table : GroupMembers) :
    Sound ((groupMembersOf groupId table).map entry) where
  distinct := by
    rw [List.map_map]
    exact groupMembersOf_nodup groupId table
  clean := by
    intro e member
    obtain ⟨m, stored, rfl⟩ := List.mem_map.mp member
    have valid := table.find_valid ((mem_groupMembersOf groupId table m).mp stored).2
    simp only [AllClean, GroupMember.texts, List.forall_mem_cons] at valid
    exact ⟨valid.2.1, valid.2.2.1, valid.2.2.2.1⟩

/-! What a node makes of a snapshot. -/
section Receiver
variable {desk : Solo.Desk}

theorem recordGroup_known {groupId : Str} (senderId groupName : Str) (clean : Clean groupId) :
    (recordGroup groupId senderId groupName).wp Solo.contract
      (fun _ after => after.store.groups.has groupId = true) desk := by
  have key := cstr_of_clean clean
  apply Solo.wp_call
  intro now
  rcases found : ((Call.getGroup groupId).exec now desk.store).1 with _ | g
  · apply Solo.wp_time
    intro createdAt
    apply Solo.wp_mark
    intro later
    apply (congrArg (Table.has _) key).symm.trans
    exact Table.has_insert desk.store.groups
      ⟨cstr groupId, cstr (if groupName.isEmpty then groupId else groupName), cstr senderId,
        createdAt⟩ (allClean_map [groupId, _, senderId])
  · have there : desk.store.groups.find groupId = some g := by
      simpa [Call.exec, key] using found
    have known : desk.store.groups.has groupId = true := (Table.has_iff _ _).mpr ⟨g, there⟩
    dsimp only
    split
    · apply Solo.wp_mark
      intro later
      -- A known group is renamed at most.
      have renamed : (updateGroupName groupId groupName desk.store.groups).has groupId =
          desk.store.groups.has groupId := by
        unfold updateGroupName
        exact Table.has_update desk.store.groups _ _ _ _ groupId
      exact renamed.trans known
    · exact known

/-- Reading the entries of a snapshot takes back the list they were written from,
except for the times. -/
theorem readMembers_entries (groupId : Str) (members : List GroupMember) :
    ((members.map memberJson).foldlM (readMember groupId) (some [])).wp Solo.contract
      (fun read after => after = desk ∧ ∃ list, read = some list ∧
        list.map entry = members.map entry) desk := by
  have start : ∃ left : List GroupMember, members.map memberJson = left.map memberJson ∧
      desk = desk ∧ ∃ list : List GroupMember, some [] = some list ∧
        list.map entry ++ left.map entry = members.map entry :=
    ⟨members, rfl, rfl, [], rfl, rfl⟩
  refine Program.wp_mono Solo.monotone _ ?_ desk (Program.wp_foldlM Solo.monotone _
    (fun rest read after => ∃ left : List GroupMember, rest = left.map memberJson ∧
      after = desk ∧ ∃ list, read = some list ∧
        list.map entry ++ left.map entry = members.map entry) ?_ _ _ desk start)
  · rintro read after ⟨left, none, same, list, rfl, entries⟩
    rw [List.map_eq_nil_iff.mp none.symm, List.map_nil, List.append_nil] at entries
    exact ⟨same, list, rfl, entries⟩
  rintro e rest read after ⟨left, step, rfl, list, rfl, entries⟩
  cases left with
  | nil => cases step
  | cons m later =>
      obtain ⟨rfl, rfl⟩ := List.cons.inj step
      apply Solo.wp_uninitialised
      intro addedAt
      refine ⟨later, rfl, rfl, _, rfl, ?_⟩
      simpa [entry] using entries

variable {groupId senderId : Str} {version : Int} {grp : Option Group} {members : List GroupMember}

/-- The fields of a snapshot are there whether or not it names the group. -/
theorem snapshot_fields (groupId senderId : Str) (version : Int) (grp : Option Group)
    (members : List GroupMember) :
    (snapshot groupId senderId version grp members).hasAll? ["group_id", "members"] = some true ∧
    (snapshot groupId senderId version grp members).s? "group_id" = some groupId ∧
    (snapshot groupId senderId version grp members).has "sender_id" = true ∧
    (snapshot groupId senderId version grp members).s? "sender_id" = some senderId ∧
    (snapshot groupId senderId version grp members).has "name" = grp.isSome ∧
    (snapshot groupId senderId version grp members).s? "name" = grp.map (·.name) ∧
    (snapshot groupId senderId version grp members).items? "members" =
      some (members.map memberJson) := by
  cases grp <;> exact ⟨rfl, rfl, rfl, rfl, rfl, rfl, rfl⟩

/-- The receiver has the group and its list is the snapshot's. -/
structure Informed (groupId : Str) (entries : Set Entry) (store : Store) : Prop where
  known : store.groups.has groupId = true
  same : listed store groupId = entries

theorem accept_snapshot (clean : Clean groupId) (sound : Sound (members.map entry)) :
    (acceptGroupUpdate (some (snapshot groupId senderId version grp members))).wp Solo.contract
      (fun response after => response.code = 200 ∧
        Informed groupId {e | e ∈ members.map entry} after.store) desk := by
  obtain ⟨present, group, hasSender, sender, hasName, name, items⟩ :=
    snapshot_fields groupId senderId version grp members
  obtain ⟨groupName, named⟩ : ∃ groupName,
      (if (snapshot groupId senderId version grp members).has "name" then
        (snapshot groupId senderId version grp members).s? "name" else some []) =
      some groupName := by
    rw [hasName, name]
    cases grp <;> exact ⟨_, rfl⟩
  unfold acceptGroupUpdate
  simp only [present, group, hasSender, sender, named, items, Bool.not_true, Bool.false_eq_true,
    ↓reduceIte]
  apply Program.wp_seq Solo.monotone _ _ desk (recordGroup_known senderId groupName clean)
  intro _ recorded known
  apply Program.wp_seq Solo.monotone _ _ recorded (readMembers_entries groupId members)
  -- What is read back are the snapshot's entries, which can be stored together.
  rintro _ after ⟨rfl, list, rfl, entries⟩
  have same : Sound (list.map entry) := entries ▸ sound
  apply Solo.wp_call
  intro now
  have stored : ((Call.replaceGroupMembers groupId list).exec now after.store).1 = true :=
    replace_ok same after.store.groupMembers
  simp only [stored, Bool.not_true, Bool.false_eq_true, ↓reduceIte]
  refine ⟨rfl, known, ?_⟩
  rw [← entries]
  exact listed_replaced same after.store.groupMembers rfl

end Receiver

/-! One edit: the editor stores its new list and pushes it to every other member. -/
section Editor
variable {Host : Type} [DecidableEq Host] {network : Deployment Host} {editor : Host}
  {groupId : Str} {members : List GroupMember}

/-- The address leads to the member's node and nowhere else. -/
def Leads (network : Deployment Host) (memberId serverAddress : Str) : Prop :=
  cutServerAddress serverAddress ≠ [] ∧
  (∃ peer, network.routes (cutServerAddress serverAddress) peer = true) ∧
  ∀ peer, network.routes (cutServerAddress serverAddress) peer = true →
    network.id peer = memberId

def Routed (network : Deployment Host) (editor : Host) (entries : Set Entry) : Prop :=
  ∀ e ∈ entries, e.1 ≠ network.id editor → Leads network e.1 e.2.1

/-- The editor has the list and has pushed it to the members that are not pending. -/
structure Pushed (network : Deployment Host) (editor : Host) (groupId : Str)
    (members pending : List GroupMember) (before after : Stores Host) : Prop where
  own : listed (after editor) groupId = {e | e ∈ members.map entry}
  informed : Routed network editor {e | e ∈ members.map entry} →
    ∀ m ∈ members, m ∈ pending ∨ m.memberId = network.id editor ∨
      ∀ peer, network.id peer = m.memberId →
        Informed groupId {e | e ∈ members.map entry} (after peer)
  untouched : ∀ peer, peer ≠ editor → (∀ m ∈ members, m.memberId ≠ network.id editor →
    network.routes (cutServerAddress m.serverAddress) peer = false) → after peer = before peer

/-- The editor's own bookkeeping of the push does not matter. -/
theorem Pushed.bookkept {pending : List GroupMember} {before after : Stores Host} {store : Store}
    (pushed : Pushed network editor groupId members pending before after)
    (sameMembers : store.groupMembers = (after editor).groupMembers)
    (sameGroups : store.groups = (after editor).groups) :
    Pushed network editor groupId members pending before (Function.update after editor store) where
  own := by
    rw [Function.update_self, ← pushed.own]
    simp only [listed, sameMembers]
  informed := by
    intro routed m member
    rcases pushed.informed routed m member with waits | self | done
    · exact .inl waits
    · exact .inr (.inl self)
    · apply Or.inr
      apply Or.inr
      intro peer owner
      rcases eq_or_ne peer editor with rfl | other
      · rw [Function.update_self]
        obtain ⟨known, same⟩ := done peer owner
        exact ⟨by rw [sameGroups, known], by rw [← same]; simp only [listed, sameMembers]⟩
      · rw [Function.update_of_ne other]
        exact done peer owner
  untouched := by
    intro peer other missed
    rw [Function.update_of_ne other]
    exact pushed.untouched peer other missed

omit [DecidableEq Host] in
/-- A member that needs no push, or whose push could not have left, is done with. -/
theorem Pushed.skip {m : GroupMember} {rest : List GroupMember} {before after : Stores Host}
    (pushed : Pushed network editor groupId members (m :: rest) before after)
    (excused : Routed network editor {e | e ∈ members.map entry} →
      m.memberId = network.id editor) :
    Pushed network editor groupId members rest before after where
  own := pushed.own
  informed := by
    intro routed other member
    rcases pushed.informed routed other member with waits | done
    · rcases List.mem_cons.mp waits with rfl | later
      · exact .inr (.inl (excused routed))
      · exact .inl later
    · exact .inr done
  untouched := pushed.untouched

/-- Whoever serves the push holds the list afterwards, the editor included. -/
theorem Pushed.served {m : GroupMember} {rest : List GroupMember} {before after : Stores Host}
    {peer : Host} {store : Store} (among : m ∈ members)
    (pushed : Pushed network editor groupId members (m :: rest) before after)
    (foreign : m.memberId ≠ network.id editor)
    (routed : network.routes (cutServerAddress m.serverAddress) peer = true)
    (informed : Informed groupId {e | e ∈ members.map entry} store) :
    Pushed network editor groupId members rest before (Function.update after peer store) := by
  have kept : ∀ host, Informed groupId {e | e ∈ members.map entry} (after host) →
      Informed groupId {e | e ∈ members.map entry} (Function.update after peer store host) := by
    intro host holds
    rcases eq_or_ne host peer with rfl | other
    · rw [Function.update_self]
      exact informed
    · rw [Function.update_of_ne other]
      exact holds
  refine ⟨?_, ?_, ?_⟩
  · rcases eq_or_ne editor peer with rfl | other
    · rw [Function.update_self]
      exact informed.same
    · rw [Function.update_of_ne other]
      exact pushed.own
  · intro all other member
    rcases pushed.informed all other member with waits | self | done
    · rcases List.mem_cons.mp waits with rfl | later
      · apply Or.inr
        apply Or.inr
        intro owner same
        -- The address leads to nobody but the member.
        obtain ⟨_, _, leads⟩ := all (entry other) (List.mem_map_of_mem member) foreign
        have here : owner = peer := by
          apply network.distinct
          exact publicKeyB64_injective (same.trans (leads peer routed).symm)
        rw [here, Function.update_self]
        exact informed
      · exact .inl later
    · exact .inr (.inl self)
    · exact .inr (.inr fun owner same => kept owner (done owner same))
  · intro other elsewhere missed
    have different : other ≠ peer := by
      rintro rfl
      rw [missed m among foreign] at routed
      cases routed
    rw [Function.update_of_ne different]
    exact pushed.untouched other elsewhere missed

/-- One turn of the push loop. -/
theorem pushGroupUpdate_pushed {m : GroupMember} {rest : List GroupMember}
    {before stores : Stores Host} {version : Int} {grp : Option Group} (clean : Clean groupId)
    (sound : Sound (members.map entry)) (among : m ∈ members) (allOnline : Bool)
    (pushed : Pushed network editor groupId members (m :: rest) before stores) :
    (pushGroupUpdate groupId (network.id editor) version
      (snapshot groupId (network.id editor) version grp members) allOnline m).wp
      (Sequential.contract network false editor)
      (fun _ after => Pushed network editor groupId members rest before after) stores := by
  unfold pushGroupUpdate
  split
  · next self => exact pushed.skip fun _ => self
  next foreign =>
  apply Sequential.wp_call
  intro now
  let store := ((Call.upsertGroupUpdate ⟨groupId, m.memberId,
    snapshot groupId (network.id editor) version grp members, version, 0, 0⟩).exec now
      (stores editor)).2
  have noted : Pushed network editor groupId members (m :: rest) before
      (Function.update stores editor store) := pushed.bookkept rfl rfl
  dsimp only
  split
  · next none =>
    apply noted.skip
    intro routed
    obtain ⟨nonempty, _⟩ := routed (entry m) (List.mem_map_of_mem among) foreign
    exact absurd (List.isEmpty_iff.mp none) nonempty
  apply Sequential.wp_send
  intro answer after exchanged
  -- Nothing is lost here, so a member with an address was told.
  have sent : Pushed network editor groupId members rest before after := by
    cases exchanged with
    | served peer routed ran =>
        have holds := (Program.wp_demonic_iff Solo.step _ _ _).mp
          (accept_snapshot clean sound) _ _ ran
        exact noted.served among foreign routed holds.2
    | answerLost peer loses => cases loses
    | unreached fails =>
        apply noted.skip
        intro routed
        obtain ⟨_, ⟨peer, leads⟩, _⟩ :=
          routed (entry m) (List.mem_map_of_mem among) foreign
        rcases fails with loses | nowhere
        · cases loses
        · cases (nowhere peer).symm.trans leads
  split
  · apply Sequential.wp_call
    intro later
    exact sent.bookkept rfl rfl
  · exact sent

theorem deliverGroupUpdate_pushed {before stores : Stores Host} (clean : Clean groupId)
    (sound : Sound (members.map entry)) (version : Int)
    (pushed : Pushed network editor groupId members members before stores) :
    (deliverGroupUpdate groupId (network.id editor) members version).wp
      (Sequential.contract network false editor)
      (fun _ after => Pushed network editor groupId members [] before after) stores := by
  unfold deliverGroupUpdate
  apply Sequential.wp_call
  intro now
  rw [show ((Call.getGroup groupId).exec now (stores editor)).2 = stores editor from rfl,
    Function.update_eq_self]
  have turns := Program.wp_foldlM Sequential.monotone
    (pushGroupUpdate groupId (network.id editor) version (snapshot groupId (network.id editor)
      version ((Call.getGroup groupId).exec now (stores editor)).1 members))
    (fun rest _ after => rest ⊆ members ∧
      Pushed network editor groupId members rest before after)
    (by
      rintro m rest allOnline after ⟨within, so⟩
      obtain ⟨among, later⟩ := List.cons_subset.mp within
      exact Program.wp_mono Sequential.monotone _ (fun _ _ holds => ⟨later, holds⟩) after
        (pushGroupUpdate_pushed clean sound among allOnline so))
    members true stores ⟨List.Subset.refl members, pushed⟩
  exact Program.wp_mono Sequential.monotone _ (fun _ _ holds => holds.2) stores turns

/-- What the two routes share: store the list, then push it. -/
theorem replaced_pushed {stores : Stores Host} {post : Response → Stores Host → Prop}
    {refused : Response} {rest : Bool → Proc Response} (clean : Clean groupId)
    (sound : Sound (members.map entry))
    (later : ∀ delivered after, Pushed network editor groupId members [] stores after →
      (rest delivered).wp (Sequential.contract network false editor) post after) :
    (do if !(← call (.replaceGroupMembers groupId members)) then return refused
        let version ← time
        let delivered ← deliverGroupUpdate groupId (network.id editor) members version
        rest delivered).wp (Sequential.contract network false editor) post stores := by
  apply Sequential.wp_call
  intro now
  have stored : ((Call.replaceGroupMembers groupId members).exec now (stores editor)).1 = true :=
    replace_ok sound (stores editor).groupMembers
  simp only [stored, Bool.not_true, Bool.false_eq_true, ↓reduceIte]
  apply Sequential.wp_time
  intro version
  have start : Pushed network editor groupId members members stores (Function.update stores editor
      ((Call.replaceGroupMembers groupId members).exec now (stores editor)).2) := by
    refine ⟨?_, fun _ _ member => .inl member, fun peer other _ => Function.update_of_ne other _ _⟩
    rw [Function.update_self]
    exact listed_replaced sound (stores editor).groupMembers rfl
  exact Program.wp_seq Sequential.monotone _ _ _
    (deliverGroupUpdate_pushed clean sound version start) later

end Editor

/-! The lists the routes compute are sound if what the request brings is clean. -/
section Lists
variable {members : List GroupMember} {memberId serverAddress : Str}

theorem sound_iff : Sound (members.map entry) ↔ (members.map (·.memberId)).Nodup ∧
    ∀ m ∈ members, Clean m.memberId ∧ Clean m.serverAddress ∧ Clean m.role := by
  constructor
  · rintro ⟨distinct, clean⟩
    rw [List.map_map] at distinct
    exact ⟨distinct, fun m member => clean (entry m) (List.mem_map_of_mem member)⟩
  · rintro ⟨distinct, clean⟩
    refine ⟨?_, ?_⟩
    · rw [List.map_map]
      exact distinct
    · intro e member
      obtain ⟨m, there, rfl⟩ := List.mem_map.mp member
      exact clean m there

theorem setAddress_ids (members : List GroupMember) :
    (setAddress memberId serverAddress members).map (·.memberId) = members.map (·.memberId) := by
  induction members with
  | nil => rfl
  | cons m rest ih =>
      rw [setAddress]
      split
      · rfl
      · rw [List.map_cons, List.map_cons, ih]

theorem mem_setAddress {m : GroupMember}
    (member : m ∈ setAddress memberId serverAddress members) :
    ∃ old ∈ members, m = old ∨ m = { old with serverAddress := serverAddress } := by
  induction members with
  | nil => cases member
  | cons first rest ih =>
      rw [setAddress] at member
      split at member
      · rcases List.mem_cons.mp member with rfl | later
        · exact ⟨first, List.mem_cons_self, .inr rfl⟩
        · exact ⟨m, List.mem_cons_of_mem first later, .inl rfl⟩
      · rcases List.mem_cons.mp member with rfl | later
        · exact ⟨m, List.mem_cons_self, .inl rfl⟩
        · obtain ⟨old, there, same⟩ := ih later
          exact ⟨old, List.mem_cons_of_mem first there, same⟩

theorem sound_setAddress (clean : Clean serverAddress) (sound : Sound (members.map entry)) :
    Sound ((setAddress memberId serverAddress members).map entry) := by
  obtain ⟨distinct, texts⟩ := sound_iff.mp sound
  apply sound_iff.mpr
  constructor
  · rw [setAddress_ids]
    exact distinct
  · intro m member
    obtain ⟨old, there, rfl | rfl⟩ := mem_setAddress member
    · exact texts m there
    · obtain ⟨id, _, role⟩ := texts old there
      exact ⟨id, clean, role⟩

theorem sound_withSelfAddress {selfId : Str} {selfAddress : Option Str}
    (clean : ∀ address, selfAddress = some address → Clean address)
    (sound : Sound (members.map entry)) :
    Sound ((withSelfAddress selfId selfAddress members).map entry) := by
  cases selfAddress with
  | none => exact sound
  | some address => exact sound_setAddress (clean address rfl) sound

theorem sound_append {m : GroupMember}
    (clean : Clean m.memberId ∧ Clean m.serverAddress ∧ Clean m.role)
    (fresh : ∀ other ∈ members, other.memberId ≠ m.memberId) (sound : Sound (members.map entry)) :
    Sound ((members ++ [m]).map entry) := by
  obtain ⟨distinct, texts⟩ := sound_iff.mp sound
  apply sound_iff.mpr
  constructor
  · rw [List.map_append, List.nodup_append]
    refine ⟨distinct, List.nodup_singleton _, ?_⟩
    intro id there other single
    obtain ⟨old, among, rfl⟩ := List.mem_map.mp there
    rw [List.mem_singleton.mp single]
    exact fresh old among
  · intro other member
    rcases List.mem_append.mp member with old | new
    · exact texts other old
    · rw [List.mem_singleton.mp new]
      exact clean

theorem sound_filter (keep : GroupMember → Bool) (sound : Sound (members.map entry)) :
    Sound ((members.filter keep).map entry) := by
  obtain ⟨distinct, texts⟩ := sound_iff.mp sound
  apply sound_iff.mpr
  constructor
  · exact distinct.sublist (List.filter_sublist.map _)
  · exact fun m member => texts m (List.mem_of_mem_filter member)

end Lists

section Routes
variable {Host : Type} [DecidableEq Host] {network : Deployment Host} {editor : Host}
  {req : HttpRequest} {group : PathId} {stores : Stores Host}

/-- The strings of the request's body are free of NUL bytes. -/
def NulFree (req : HttpRequest) : Prop :=
  ∀ body, req.body = some body → ∀ key text, body.s? key = some text → Clean text

theorem addMember_pushed (clean : NulFree req) :
    (addMember network.sodium (network.keys editor) req group).wp
      (Sequential.contract network false editor)
      (fun _ after => after = stores ∨
        ∃ members, Pushed network editor group.text members [] stores after) stores := by
  unfold addMember
  apply Sequential.wp_authed _ _ _ (.inl rfl)
  split
  case h_2 => exact .inl rfl
  next dataJson body =>
  split
  case h_2 => exact .inl rfl
  split
  · exact .inl rfl
  split
  case h_2 => exact .inl rfl
  next memberId named =>
  split
  case h_2 => exact .inl rfl
  next serverAddress addressed =>
  have cleanId := clean dataJson body _ _ named
  have cleanAddress := clean dataJson body _ _ addressed
  apply Sequential.wp_call
  intro now
  rw [show ((Call.getGroupMembers group.text).exec now (stores editor)).2 = stores editor from rfl,
    Function.update_eq_self]
  have existing : Sound ((withSelfAddress (network.id editor)
      (dataJson.optional "self_server_address")
      (groupMembersOf group.text (stores editor).groupMembers)).map entry) :=
    sound_withSelfAddress (fun address given => clean dataJson body _ _ given)
      (sound_stored group.text (stores editor).groupMembers)
  -- Moved or appended, the list stays one that can be stored and sent.
  have updated : (withMember group.text memberId serverAddress
      (withSelfAddress (network.id editor) (dataJson.optional "self_server_address")
        (groupMembersOf group.text (stores editor).groupMembers))).wp
      (Sequential.contract network false editor)
      (fun members after => after = stores ∧ Sound (members.map entry)) stores := by
    unfold withMember
    split
    · exact ⟨rfl, sound_setAddress cleanAddress existing⟩
    · next absent =>
      apply Sequential.wp_time
      intro addedAt
      refine ⟨rfl, sound_append ⟨cleanId, cleanAddress, (by decide : Clean (str "member"))⟩
        ?_ existing⟩
      intro other member same
      apply absent
      exact List.any_eq_true.mpr ⟨other, member, decide_eq_true same⟩
  apply Program.wp_seq Sequential.monotone _ _ stores updated
  rintro members _ ⟨rfl, sound⟩
  apply replaced_pushed group.clean sound
  intro delivered after pushed
  exact .inr ⟨members, pushed⟩

/-- The members that stay when the given one is removed. -/
def remaining (groupId memberId : Str) (store : Store) : List GroupMember :=
  (groupMembersOf groupId store.groupMembers).filter (·.memberId ≠ memberId)

theorem listed_deleted (groupId : Str) (now : Int) (store : Store) :
    listed ((Call.deleteGroup groupId).exec now store).2 groupId = {e | e ∈ [].map entry} := by
  ext e
  simp only [listed, Set.mem_ofPred_eq, List.map_nil, List.not_mem_nil, iff_false, List.mem_map,
    not_exists, not_and]
  intro m member
  have found := ((mem_groupMembersOf groupId _ m).mp member).2
  rw [groupMembers_exec] at found
  simp [onMember] at found

/-- A removal that is refused does nothing; any other takes the member off the list. -/
theorem removeMember_pushed :
    (removeMember network.sodium (network.keys editor) req group).wp
      (Sequential.contract network false editor)
      (fun response after => after = stores ∧ response.code ≠ 200 ∨
        ∃ body memberId, req.body = some body ∧ body.s? "member_id" = some memberId ∧
          Pushed network editor group.text (remaining group.text memberId (stores editor)) []
            stores after) stores := by
  unfold removeMember
  have refuse : ∀ response : Response, response.code ≠ 200 →
      stores = stores ∧ response.code ≠ 200 ∨
        ∃ body memberId, req.body = some body ∧ body.s? "member_id" = some memberId ∧
          Pushed network editor group.text (remaining group.text memberId (stores editor)) []
            stores stores := fun _ other => .inl ⟨rfl, other⟩
  apply Sequential.wp_authed _ _ _ (refuse _ (by decide))
  split
  case h_2 => exact refuse _ (by decide)
  next dataJson body =>
  split
  case h_2 => exact refuse _ (by decide)
  split
  · exact refuse _ (by decide)
  split
  case h_2 => exact refuse _ (by decide)
  next memberId named =>
  apply Sequential.wp_call
  intro now
  rw [show ((Call.getGroupMembers group.text).exec now (stores editor)).2 = stores editor from rfl,
    Function.update_eq_self]
  dsimp only
  split
  · exact refuse _ (by decide)
  apply replaced_pushed group.clean
    (sound_filter _ (sound_stored group.text (stores editor).groupMembers))
  intro delivered after pushed
  split
  · next last =>
    -- The editor forgets a group that has nobody left, itself included.
    apply Sequential.wp_call
    intro later
    have none : remaining group.text memberId (stores editor) = [] := by
      simp only [Bool.and_eq_true, List.isEmpty_iff] at last
      exact last.2
    refine .inr ⟨dataJson, memberId, body, named, ?_, ?_, ?_⟩
    · rw [Function.update_self, none]
      exact listed_deleted group.text later (after editor)
    · intro _ m member
      rw [none] at member
      cases member
    · intro peer other missed
      rw [Function.update_of_ne other]
      exact pushed.untouched peer other missed
  · exact .inr ⟨dataJson, memberId, body, named, pushed⟩

/-- A new group has its creator for a member and nobody else. -/
theorem groupsCreate_alone :
    (groupsCreate network.sodium (network.keys editor) req).wp
      (Sequential.contract network false editor)
      (fun response after => response = ok [("group_id", .str group.text)] →
        ∀ e ∈ listed (after editor) group.text, e.1 = network.id editor) stores := by
  unfold groupsCreate
  have refuse : ∀ (response : Response) (after : Stores Host), response.code ≠ 200 →
      response = ok [("group_id", .str group.text)] →
        ∀ e ∈ listed (after editor) group.text, e.1 = network.id editor := by
    rintro _ after other rfl
    exact absurd rfl other
  apply Sequential.wp_authed _ _ _ (refuse _ _ (by decide))
  split
  case h_2 => exact refuse _ _ (by decide)
  split
  case h_2 => exact refuse _ _ (by decide)
  split
  · exact refuse _ _ (by decide)
  apply Sequential.wp_generateUuid
  intro dice
  split
  case h_2 => exact refuse _ _ (by decide)
  apply Sequential.wp_time
  intro createdAt
  apply Sequential.wp_call
  intro now
  split
  · exact refuse _ _ (by decide)
  apply Sequential.wp_time
  intro addedAt
  apply Sequential.wp_call
  intro later
  split
  · exact refuse _ _ (by decide)
  intro answered e listed
  have same : uuidOf dice = group.text := by
    simpa [ok] using answered
  obtain ⟨m, member, rfl⟩ := List.mem_map.mp listed
  have found := ((mem_groupMembersOf group.text _ m).mp member).2
  rw [Function.update_self, groupMembers_exec, same] at found
  simp only [onMember, ↓reduceIte, entryFor] at found
  obtain ⟨me, first, rfl⟩ := Option.map_eq_some_iff.mp found
  have only := List.mem_singleton.mp (List.mem_of_find?_eq_some first)
  subst only
  exact cstr_of_clean (publicKeyB64_clean _)

/-! A group and the edits its creator makes, one after another. -/
inductive Edited (network : Deployment Host) (editor : Host) (group : PathId) :
    Stores Host → Prop where
  | created {before after req}
      (ran : Sequential.Runs network false editor
        (groupsCreate network.sodium (network.keys editor) req) before
        (ok [("group_id", .str group.text)]) after) :
      Edited network editor group after
  | added {before after req response} (edited : Edited network editor group before)
      (clean : NulFree req)
      (ran : Sequential.Runs network false editor
        (addMember network.sodium (network.keys editor) req group) before response after)
      (routed : Routed network editor (listed (after editor) group.text)) :
      Edited network editor group after
  | removed {before after req response} (edited : Edited network editor group before)
      (ran : Sequential.Runs network false editor
        (removeMember network.sodium (network.keys editor) req group) before response after)
      (routed : Routed network editor (listed (after editor) group.text)) :
      Edited network editor group after

/-- Every member but the editor holds the editor's list. -/
def Agreed (network : Deployment Host) (editor : Host) (groupId : Str)
    (stores : Stores Host) : Prop :=
  ∀ e ∈ listed (stores editor) groupId, e.1 ≠ network.id editor →
    ∀ peer, network.id peer = e.1 →
      Informed groupId (listed (stores editor) groupId) (stores peer)

omit [DecidableEq Host] in
theorem agreed_pushed {members : List GroupMember} {before after : Stores Host}
    (pushed : Pushed network editor group.text members [] before after)
    (routed : Routed network editor (listed (after editor) group.text)) :
    Agreed network editor group.text after := by
  intro e member foreign peer owner
  rw [pushed.own] at routed member ⊢
  obtain ⟨m, among, rfl⟩ := List.mem_map.mp member
  rcases pushed.informed routed m among with waits | self | informed
  · cases waits
  · exact absurd self foreign
  · exact informed peer owner

/-- After every edit each member other than the editor holds exactly the editor's
entries and has the group, whoever joined, left or moved before. -/
theorem edits_agreed {network : Deployment Host} {editor : Host} {group : PathId}
    {stores : Stores Host} (edited : Edited network editor group stores) :
    ∀ m ∈ groupMembersOf group.text (stores editor).groupMembers,
      m.memberId ≠ network.id editor → ∀ peer, network.id peer = m.memberId →
        listed (stores peer) group.text = listed (stores editor) group.text ∧
        (stores peer).groups.has group.text = true := by
  have agreed : Agreed network editor group.text stores := by
    induction edited with
    | created ran =>
        intro e member foreign
        have alone := (Program.wp_demonic_iff _ _ _ _).mp groupsCreate_alone _ _ ran rfl
        exact absurd (alone e member) foreign
    | added _ clean ran routed ih =>
        rcases (Program.wp_demonic_iff _ _ _ _).mp (addMember_pushed clean) _ _ ran with
          rfl | ⟨members, pushed⟩
        · exact ih
        · exact agreed_pushed pushed routed
    | removed _ ran routed ih =>
        rcases (Program.wp_demonic_iff _ _ _ _).mp removeMember_pushed _ _ ran with
          ⟨rfl, _⟩ | ⟨body, memberId, _, _, pushed⟩
        · exact ih
        · exact agreed_pushed pushed routed
  intro m member foreign peer owner
  obtain ⟨known, same⟩ := agreed (entry m) (List.mem_map_of_mem member) foreign peer owner
  exact ⟨same, known⟩

end Routes

section Runs

def founded : PathId := ⟨firstId, uuid_ne_nil _, uuid_clean _⟩
def foundation : HttpRequest := userRequest [("name", .str (str "friends"))]

def admission : HttpRequest :=
  userRequest [("member_id", .str (pair.id false)), ("server_address", .str (str "b"))]

/-- Every request reaches the other node. -/
def online : List (Input × Sequential.Fate Bool) :=
  List.replicate 20 (clockAt 7, .served false)

/-- One node makes a group and takes the other in. -/
def joined : Option (Stores Bool) :=
  (Sequential.exec pair false true (groupsCreate .transparent (pair.keys true) foundation) online
    acquainted).bind fun created =>
      (Sequential.exec pair false true (addMember .transparent (pair.keys true) admission founded)
        online created.2).map (·.2)

theorem joined_entries {stores : Stores Bool} (done : joined = some stores) :
    (groupMembersOf founded.text (stores true).groupMembers).map entry =
      [(pair.id true, [], str "admin"), (pair.id false, str "b", str "member")] := by
  have entries : joined.map (fun stores =>
      (groupMembersOf founded.text (stores true).groupMembers).map entry) =
      some [(pair.id true, [], str "admin"), (pair.id false, str "b", str "member")] := by
    decide +kernel
  rw [done] at entries
  exact Option.some.inj entries

theorem admission_clean : NulFree admission := by
  rintro _ ⟨⟩ key text found
  unfold Json.s? at found
  split at found
  · next other there =>
    cases found
    simp only [Json.get?, List.lookup_cons, List.lookup_nil] at there
    split at there
    · cases there
      decide +kernel
    · split at there
      · cases there
        decide
      · cases there
  · cases found

theorem joined_edited {stores : Stores Bool} (done : joined = some stores) :
    Edited pair true founded stores := by
  obtain ⟨⟨response, created⟩, first, rest⟩ := Option.bind_eq_some_iff.mp done
  obtain ⟨⟨answer, after⟩, second, rfl⟩ := Option.map_eq_some_iff.mp rest
  have answered : (Sequential.exec pair false true (groupsCreate .transparent (pair.keys true)
      foundation) online acquainted).map (·.1) = some (ok [("group_id", .str founded.text)]) :=
    rfl
  rw [first] at answered
  cases answered
  apply Edited.added (.created (Sequential.exec_runs _ _ first)) admission_clean
    (Sequential.exec_runs _ _ second)
  intro e member foreign
  have listed : e ∈ (groupMembersOf founded.text (after true).groupMembers).map entry := member
  rw [joined_entries done] at listed
  simp only [List.mem_cons, List.not_mem_nil, or_false] at listed
  rcases listed with rfl | rfl
  · exact absurd rfl foreign
  · exact ⟨by decide, ⟨false, by decide⟩, by decide⟩

theorem joined_agreed : ∃ (stores : Stores Bool), Edited pair true founded stores ∧
    listed (stores false) founded.text = listed (stores true) founded.text ∧
    (stores false).groups.has founded.text = true := by
  have ran : joined.isSome = true := by decide +kernel
  obtain ⟨stores, done⟩ := Option.isSome_iff_exists.mp ran
  have edited := joined_edited done
  have joins : (pair.id false, str "b", str "member") ∈
      (groupMembersOf founded.text (stores true).groupMembers).map entry := by
    rw [joined_entries done]
    exact List.mem_cons_of_mem _ List.mem_cons_self
  obtain ⟨m, member, same⟩ := List.mem_map.mp joins
  have owner : m.memberId = pair.id false := congrArg Prod.fst same
  exact ⟨stores, edited, edits_agreed edited m member (by rw [owner]; decide) false owner.symm⟩

end Runs
end NoMiddle.GroupMembership
