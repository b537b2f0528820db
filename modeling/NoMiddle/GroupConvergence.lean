import NoMiddle.GroupFrame
import NoMiddle.Effects

/-! A group with one editor on a network that loses requests and answers. What a push did not
bring is kept for each member, the whole list at a time, and a pass that loses nothing brings
it: whatever was lost before, all members hold the editor's list then. -/
namespace NoMiddle.GroupConvergence
open Library Text Crypto DbManager DbViews Node MessageDelivery RetryWorker Handlers GroupHandlers
open Network Footprint GroupMembership GroupFrame
open NoMiddle.Sequential (Stores Exchange)

section Tending
variable {Host : Type} [DecidableEq Host] (network : Deployment Host) (editor : Host)
  (groupId : Str)

/-- What is kept for a member: a list that can replace its own, the editor's list unless the
member is off the list or waits for a newer one. -/
def Letter (store : Store) (waits : Prop) (memberId : Str) (data : Json) : Prop :=
  memberId ≠ network.id editor ∧ ∃ senderId version grp members,
    data = snapshot groupId senderId version grp members ∧ Sound (members.map entry) ∧
    (¬waits → (∃ e ∈ listed store groupId, e.1 = memberId) →
      {e | e ∈ members.map entry} = listed store groupId)

def Holds (memberId : Str) (stores : Stores Host) : Prop :=
  ∀ peer, network.id peer = memberId →
    Informed groupId (listed (stores editor) groupId) (stores peer)

/-- The editor has a row for every member that does not wait, and where it says the member
has the list, it has. -/
structure Tended (waits : Str → Prop) (stores : Stores Host) : Prop where
  letters : ∀ id row, (stores editor).groupUpdates.find (groupId, id) = some row →
    Letter network editor groupId (stores editor) (waits id) id row.snapshotJson
  current : ∀ e ∈ listed (stores editor) groupId, e.1 ≠ network.id editor → ¬waits e.1 →
    ∃ row, (stores editor).groupUpdates.find (groupId, e.1) = some row ∧
      (row.accepted ≠ 0 → Holds network editor groupId e.1 stores)
  strange : ∀ host, host ≠ editor → ∀ id, (stores host).groupUpdates.find (groupId, id) = none
  apart : ∀ host, Apart groupId (stores host)

variable {network editor groupId} {waits : Str → Prop} {stores after : Stores Host}

omit [DecidableEq Host] in
theorem Letter.relisted {before store : Store} {waiting : Prop} {id : Str} {data : Json}
    (letter : Letter network editor groupId before waiting id data)
    (same : listed store groupId = listed before groupId) :
    Letter network editor groupId store waiting id data := by
  unfold Letter at letter ⊢
  rwa [same]

omit [DecidableEq Host] in
theorem Letter.settled {store : Store} {waiting settled : Prop} {id : Str} {data : Json}
    (letter : Letter network editor groupId store waiting id data)
    (still : waiting → settled) : Letter network editor groupId store settled id data := by
  obtain ⟨foreign, senderId, version, grp, members, rfl, sound, latest⟩ := letter
  exact ⟨foreign, senderId, version, grp, members, rfl, sound, fun done => latest (mt still done)⟩

omit [DecidableEq Host] in
theorem Holds.spared {id : Str} (holds : Holds network editor groupId id stores)
    (clean : Clean groupId) (spared : ∀ host, Spared groupId (stores host) (after host)) :
    Holds network editor groupId id after := by
  intro peer owner
  rw [(spared editor).listed clean]
  exact (spared peer).informed clean (holds peer owner)

omit [DecidableEq Host] in
/-- What is about other groups does not matter. -/
theorem Tended.spared (tended : Tended network editor groupId waits stores)
    (clean : Clean groupId) (spared : ∀ host, Spared groupId (stores host) (after host)) :
    Tended network editor groupId waits after where
  letters := by
    intro id row found
    rw [(spared editor).updates] at found
    exact (tended.letters id row found).relisted ((spared editor).listed clean)
  current := by
    intro e member foreign settled
    rw [(spared editor).listed clean] at member
    obtain ⟨row, found, holds⟩ := tended.current e member foreign settled
    refine ⟨row, ((spared editor).updates e.1).trans found, fun accepted => ?_⟩
    exact (holds accepted).spared clean spared
  strange := by
    intro host other id
    rw [(spared host).updates]
    exact tended.strange host other id
  apart := fun host => (spared host).apart (tended.apart host)

/-! A letter on its way. -/

omit [DecidableEq Host] in
/-- What a route of the peers does not use is as it was. -/
theorem served_untouched {peer : Host} {request : Request} {resource : Effects.Resource}
    {desk final : Solo.Desk} {response : Response}
    (aside : resource ∉ Effects.served request.endpoint)
    (ran : Solo.Runs (network.serve peer request) desk response final) :
    Effects.unchanged desk.store final.store resource := by
  have kept := Program.keeps_of_only Solo.step
    (fun current => Effects.unchanged desk.store current.store resource)
    (fun operation current answer next allowed same taken => by
      cases operation with
      | inr request =>
          obtain ⟨drawn, ⟨⟩⟩ := taken
          exact same
      | inl operation =>
          obtain ⟨drawn, ⟨⟩⟩ := taken
          have spared := Effects.spared_of_within allowed aside
          exact Effects.unchanged_trans same
            (Effects.handle_unchanged drawn.1 operation current.store spared))
    _ (Effects.serve_within network peer request) desk (Effects.unchanged_refl _ _)
  exact (Program.wp_demonic_iff Solo.step _ _ _).mp kept _ _ ran

omit [DecidableEq Host] in
theorem served_letter {peer : Host} {serverAddress senderId : Str} {version : Int}
    {grp : Option Group} {members : List GroupMember} {desk final : Solo.Desk} {response : Response}
    (clean : Clean groupId) (sound : Sound (members.map entry))
    (ran : Solo.Runs (network.serve peer ⟨serverAddress, .acceptGroupUpdate,
      snapshot groupId senderId version grp members⟩) desk response final) :
    response.code = 200 ∧ Informed groupId {e | e ∈ members.map entry} final.store ∧
      final.store.groupUpdates = desk.store.groupUpdates := by
  obtain ⟨answered, informed⟩ := (Program.wp_demonic_iff Solo.step _ _ _).mp
    (accept_snapshot clean sound) _ _ ran
  refine ⟨answered, informed, ?_⟩
  have aside : Effects.Resource.groupUpdates ∉ Effects.served .acceptGroupUpdate := by decide
  exact served_untouched aside ran

/-- A letter to where only its member is leaves everything in order, and whoever answers it
holds the list. -/
theorem told {lossy : Bool} {serverAddress id : Str} {data : Json} {answer : Option Response}
    (clean : Clean groupId) (tended : Tended network editor groupId waits stores)
    (letter : Letter network editor groupId (stores editor) False id data)
    (toward : ∀ peer, network.routes serverAddress peer = true → network.id peer = id)
    (exchanged : Exchange network lossy ⟨serverAddress, .acceptGroupUpdate, data⟩ stores answer
      after) :
    Tended network editor groupId waits after ∧ after editor = stores editor ∧
    (∀ e ∈ listed (stores editor) groupId, Holds network editor groupId e.1 stores →
      Holds network editor groupId e.1 after) ∧
    (∀ response, answer = some response → response.code = 200 ∧
      ((∃ e ∈ listed (stores editor) groupId, e.1 = id) →
        Holds network editor groupId id after)) := by
  obtain ⟨foreign, senderId, version, grp, members, rfl, sound, latest⟩ := letter
  have updated : ∀ peer {response desk}, network.routes serverAddress peer = true →
      Solo.Runs (network.serve peer ⟨serverAddress, .acceptGroupUpdate,
        snapshot groupId senderId version grp members⟩) ⟨stores peer, []⟩ response desk →
      Tended network editor groupId waits (Function.update stores peer desk.store) ∧
      Function.update stores peer desk.store editor = stores editor ∧
      (∀ e ∈ listed (stores editor) groupId, Holds network editor groupId e.1 stores →
        Holds network editor groupId e.1 (Function.update stores peer desk.store)) ∧
      response.code = 200 ∧ ((∃ e ∈ listed (stores editor) groupId, e.1 = id) →
        Holds network editor groupId id (Function.update stores peer desk.store)) := by
    intro peer response desk routed ran
    have owner := toward peer routed
    obtain ⟨answered, informed, sameUpdates⟩ := served_letter clean sound ran
    have other : editor ≠ peer := by
      rintro rfl
      exact foreign owner.symm
    have own : Function.update stores peer desk.store editor = stores editor :=
      Function.update_of_ne other _ _
    have holds : (∃ e ∈ listed (stores editor) groupId, e.1 = id) →
        Holds network editor groupId id (Function.update stores peer desk.store) := by
      intro member host named
      have here : host = peer := network.distinct host peer
        (publicKeyB64_injective (named.trans owner.symm))
      rw [here, own, Function.update_self, ← latest not_false member]
      exact informed
    have persists : ∀ e ∈ listed (stores editor) groupId, Holds network editor groupId e.1 stores →
        Holds network editor groupId e.1 (Function.update stores peer desk.store) := by
      intro e member held host named
      rcases eq_or_ne host peer with rfl | different
      · have same : e.1 = id := named.symm.trans owner
        exact holds ⟨e, member, same⟩ host (named.trans same)
      · rw [own, Function.update_of_ne different]
        exact held host named
    refine ⟨⟨?_, ?_, ?_, ?_⟩, own, persists, answered, holds⟩
    · rw [own]
      exact tended.letters
    · rw [own]
      intro e member elsewhere waiting
      obtain ⟨row, found, held⟩ := tended.current e member elsewhere waiting
      exact ⟨row, found, fun accepted => persists e member (held accepted)⟩
    · intro host different memberId
      rcases eq_or_ne host peer with rfl | apart
      · rw [Function.update_self, sameUpdates]
        exact tended.strange host different memberId
      · rw [Function.update_of_ne apart]
        exact tended.strange host different memberId
    · intro host
      rcases eq_or_ne host peer with rfl | apart
      · rw [Function.update_self, Apart, sameUpdates]
        exact tended.apart host
      · rw [Function.update_of_ne apart]
        exact tended.apart host
  cases exchanged with
  | served peer routed ran =>
      obtain ⟨kept, own, persists, answered, holds⟩ := updated peer routed ran
      refine ⟨kept, own, persists, fun response same => ?_⟩
      cases same
      exact ⟨answered, holds⟩
  | answerLost peer loses routed ran =>
      obtain ⟨kept, own, persists, _⟩ := updated peer routed ran
      exact ⟨kept, own, persists, fun _ none => by cases none⟩
  | unreached fails => exact ⟨tended, rfl, fun _ _ held => held, fun _ none => by cases none⟩

/-! What the editor writes down. -/

/-- Nothing of a push is written where the lists are. -/
theorem Holds.noted {id : Str} {store : Store} (holds : Holds network editor groupId id stores)
    (sameMembers : store.groupMembers = (stores editor).groupMembers)
    (sameGroups : store.groups = (stores editor).groups) :
    Holds network editor groupId id (Function.update stores editor store) := by
  have lists : listed store groupId = listed (stores editor) groupId := by
    simp only [listed, sameMembers]
  intro peer owner
  obtain ⟨known, same⟩ := holds peer owner
  rw [Function.update_self, lists]
  rcases eq_or_ne peer editor with rfl | other
  · rw [Function.update_self]
    exact ⟨sameGroups ▸ known, lists.trans same⟩
  · rw [Function.update_of_ne other]
    exact ⟨known, same⟩

theorem Tended.kept {id : Str} {data : Json} (tended : Tended network editor groupId waits stores)
    (clean : Clean groupId) (cleanId : Clean id)
    (letter : Letter network editor groupId (stores editor) False id data) (version now : Int) :
    Tended network editor groupId (fun other => waits other ∧ other ≠ id)
      (Function.update stores editor
        ((Call.upsertGroupUpdate ⟨groupId, id, data, version, 0, 0⟩).exec now (stores editor)).2) := by
  have key : (cstr groupId, cstr id) = (groupId, id) := by
    rw [cstr_of_clean clean, cstr_of_clean cleanId]
  let store := ((Call.upsertGroupUpdate ⟨groupId, id, data, version, 0, 0⟩).exec now
    (stores editor)).2
  obtain ⟨fresh, here, carried, pending⟩ : ∃ row, store.groupUpdates.find (groupId, id) = some row ∧
      row.snapshotJson = data ∧ row.accepted = 0 := by
    rw [groupUpdates_exec]
    simp only [onGroupUpdate, key, ↓reduceIte]
    cases (stores editor).groupUpdates.find (groupId, id) <;> exact ⟨_, rfl, rfl, rfl⟩
  have elsewhere : ∀ other, other ≠ id → store.groupUpdates.find (groupId, other) =
      (stores editor).groupUpdates.find (groupId, other) := by
    intro other different
    rw [groupUpdates_exec]
    simp [onGroupUpdate, key, different.symm]
  have lists : listed store groupId = listed (stores editor) groupId := rfl
  refine ⟨?_, ?_, ?_, ?_⟩
  · rw [Function.update_self]
    intro other row found
    rcases eq_or_ne other id with rfl | different
    · have same : row.snapshotJson = data := by
        cases here.symm.trans found
        exact carried
      rw [same]
      exact (letter.relisted lists).settled False.elim
    · rw [elsewhere other different] at found
      exact ((tended.letters other row found).relisted lists).settled fun waiting =>
        ⟨waiting, different⟩
  · rw [Function.update_self]
    intro e member foreign settled
    rcases eq_or_ne e.1 id with same | different
    · rw [same]
      exact ⟨fresh, here, fun accepted => absurd pending accepted⟩
    · rw [elsewhere e.1 different]
      obtain ⟨row, found, holds⟩ := tended.current e member foreign
        fun waiting => settled ⟨waiting, different⟩
      exact ⟨row, found, fun accepted => (holds accepted).noted rfl rfl⟩
  · intro host other
    rw [Function.update_of_ne other]
    exact tended.strange host other
  · intro host
    rcases eq_or_ne host editor with rfl | other
    · rw [Function.update_self]
      exact apart_upserted now (fun different => absurd (cstr_of_clean clean) different)
        (tended.apart host)
    · rw [Function.update_of_ne other]
      exact tended.apart host

theorem Tended.marked {id : Str} (tended : Tended network editor groupId waits stores)
    (clean : Clean groupId) (cleanId : Clean id)
    (holds : (∃ e ∈ listed (stores editor) groupId, e.1 = id) →
      Holds network editor groupId id stores) (now : Int) :
    Tended network editor groupId waits (Function.update stores editor
      ((Call.markGroupUpdateAccepted groupId id).exec now (stores editor)).2) := by
  let store := ((Call.markGroupUpdateAccepted groupId id).exec now (stores editor)).2
  have row : ∀ other, store.groupUpdates.find (groupId, other) =
      if id = other then ((stores editor).groupUpdates.find (groupId, other)).map
        fun old => { old with accepted := 1 }
      else (stores editor).groupUpdates.find (groupId, other) := by
    intro other
    rw [groupUpdates_exec]
    simp [onGroupUpdate, cstr_of_clean clean, cstr_of_clean cleanId]
  have lists : listed store groupId = listed (stores editor) groupId := rfl
  refine ⟨?_, ?_, ?_, ?_⟩
  · rw [Function.update_self]
    intro other after found
    rw [row] at found
    split at found
    · obtain ⟨old, there, rfl⟩ := Option.map_eq_some_iff.mp found
      exact (tended.letters other old there).relisted lists
    · exact (tended.letters other after found).relisted lists
  · rw [Function.update_self]
    intro e member foreign settled
    obtain ⟨old, there, held⟩ := tended.current e member foreign settled
    rw [row]
    split
    · next same =>
      refine ⟨_, congrArg (Option.map _) there, fun _ => ?_⟩
      rw [← same]
      exact (holds ⟨e, member, same.symm⟩).noted rfl rfl
    · exact ⟨old, there, fun accepted => (held accepted).noted rfl rfl⟩
  · intro host other
    rw [Function.update_of_ne other]
    exact tended.strange host other
  · intro host
    rcases eq_or_ne host editor with rfl | other
    · rw [Function.update_self]
      exact apart_marked (tended.apart host)
    · rw [Function.update_of_ne other]
      exact tended.apart host

/-! A pass of the editor's worker. -/

omit [DecidableEq Host] in
/-- What the contacts say leads to nobody but them. -/
def Honest (network : Deployment Host) (contacts : Contacts) : Prop :=
  ∀ id row, contacts.find id = some row → ∀ peer,
    network.routes (cutServerAddress row.serverAddress) peer = true → network.id peer = id

omit [DecidableEq Host] in
/-- The member is a contact that can be reached. -/
def Reachable (network : Deployment Host) (contacts : Contacts) (memberId : Str) : Prop :=
  ∃ row, contacts.find memberId = some row ∧ Leads network memberId row.serverAddress

theorem answered_of_lossless {request : Request} {answer : Option Response}
    (reaches : ∃ peer, network.routes request.serverAddress peer = true)
    (exchanged : Exchange network false request stores answer after) :
    ∃ response, answer = some response := by
  cases exchanged with
  | served peer routed ran => exact ⟨_, rfl⟩
  | answerLost peer loses => cases loses
  | unreached fails =>
      obtain ⟨peer, routed⟩ := reaches
      rcases fails with loses | nowhere
      · cases loses
      · rw [nowhere peer] at routed
        cases routed

/-- One turn of the pass, for an update of this group. -/
structure Turned (network : Deployment Host) (editor : Host) (groupId : Str) (lossy : Bool)
    (memberId : Str) (before after : Stores Host) : Prop where
  tended : Tended network editor groupId (fun _ => False) after
  lists : listed (after editor) groupId = listed (before editor) groupId
  contacts : (after editor).contacts = (before editor).contacts
  persists : ∀ e ∈ listed (before editor) groupId, Holds network editor groupId e.1 before →
    Holds network editor groupId e.1 after
  reached : lossy = false → Reachable network (before editor).contacts memberId →
    (∃ e ∈ listed (before editor) groupId, e.1 = memberId) →
    Holds network editor groupId memberId after

theorem Turned.marked {lossy : Bool} {id : Str} {before : Stores Host}
    (turned : Turned network editor groupId lossy id before after) (clean : Clean groupId)
    (cleanId : Clean id) (holds : (∃ e ∈ listed (before editor) groupId, e.1 = id) →
      Holds network editor groupId id after) (now : Int) :
    Turned network editor groupId lossy id before (Function.update after editor
      ((Call.markGroupUpdateAccepted groupId id).exec now (after editor)).2) where
  tended := by
    refine turned.tended.marked clean cleanId (fun member => holds ?_) now
    rwa [← turned.lists]
  lists := by
    rw [Function.update_self]
    exact turned.lists
  contacts := by
    rw [Function.update_self]
    exact turned.contacts
  persists := fun e member held => (turned.persists e member held).noted rfl rfl
  reached := fun lossless reachable member =>
    (turned.reached lossless reachable member).noted rfl rfl

theorem retryPendingGroupUpdate_turned {lossy : Bool} {u : GroupUpdate} (clean : Clean groupId)
    (same : u.groupId = groupId) (cleanId : Clean u.memberId)
    (honest : Honest network (stores editor).contacts)
    (tended : Tended network editor groupId (fun _ => False) stores)
    (letter : Letter network editor groupId (stores editor) False u.memberId u.snapshotJson) :
    (retryPendingGroupUpdate u).wp (Sequential.contract network lossy editor)
      (fun _ after => Turned network editor groupId lossy u.memberId stores after) stores := by
  subst same
  have still : (lossy = false → Reachable network (stores editor).contacts u.memberId → False) →
      Turned network editor u.groupId lossy u.memberId stores stores := fun unreachable =>
    ⟨tended, rfl, rfl, fun _ _ held => held,
      fun lossless reachable => (unreachable lossless reachable).elim⟩
  unfold retryPendingGroupUpdate retryGroupUpdate
  rw [Program.bind_assoc]
  apply Sequential.wp_call
  intro now
  rw [show ((Call.getContactAddress u.memberId).exec now (stores editor)).2 = stores editor from rfl,
    Function.update_eq_self]
  cases found : (stores editor).contacts.find u.memberId with
  | none =>
      simp only [Call.exec, cstr_of_clean cleanId, found]
      apply still
      rintro _ ⟨row, there, _⟩
      rw [found] at there
      cases there
  | some row =>
      simp only [Call.exec, cstr_of_clean cleanId, found]
      split
      · next empty =>
        apply still
        rintro _ ⟨other, there, leads, _⟩
        rw [found] at there
        cases there
        rw [List.isEmpty_iff.mp empty] at leads
        exact leads rfl
      rw [Program.bind_assoc]
      apply Sequential.wp_send
      intro answer after exchanged
      have toward := honest u.memberId row found
      obtain ⟨kept, own, persists, answers⟩ := told clean tended letter toward exchanged
      have sent : Turned network editor u.groupId lossy u.memberId stores after := by
        refine ⟨kept, by rw [own], by rw [own], persists, ?_⟩
        rintro rfl ⟨other, there, leads⟩ member
        rw [found] at there
        cases there
        obtain ⟨response, answered⟩ := answered_of_lossless leads.2.1 exchanged
        exact (answers response answered).2 member
      split
      · next done =>
        obtain ⟨response, answered⟩ : ∃ response, answer = some response := by
          cases answer with
          | none => cases done
          | some response => exact ⟨response, rfl⟩
        rw [Program.bind_assoc]
        apply Sequential.wp_call
        intro later
        exact sent.marked clean cleanId (answers response answered).2 later
      · exact sent

theorem exchange_contacts {lossy : Bool} {request : Request} {answer : Option Response}
    (exchanged : Exchange network lossy request stores answer after) (host : Host) :
    (after host).contacts = (stores host).contacts := by
  have aside : Effects.Resource.contacts ∉ Effects.served request.endpoint := by
    cases request.endpoint <;> decide
  have updated : ∀ peer {response desk},
      Solo.Runs (network.serve peer request) ⟨stores peer, []⟩ response desk →
      (Function.update stores peer desk.store host).contacts = (stores host).contacts := by
    intro peer response desk ran
    rcases eq_or_ne host peer with rfl | other
    · rw [Function.update_self]
      exact served_untouched aside ran
    · rw [Function.update_of_ne other]
  cases exchanged with
  | served peer routed ran => exact updated peer ran
  | answerLost peer loses routed ran => exact updated peer ran
  | unreached fails => rfl

/-- A retry of any update adds no contact and changes none. -/
theorem retryPendingGroupUpdate_contacts {lossy : Bool} (u : GroupUpdate) :
    (retryPendingGroupUpdate u).wp (Sequential.contract network lossy editor)
      (fun _ after => (after editor).contacts = (stores editor).contacts) stores := by
  have only : (retryPendingGroupUpdate u).Only (Effects.within [.groupUpdates, .peers]) := by
    refine Program.only_bind (only_perform rfl fun addr => ?_) fun _ => trivial
    split
    · trivial
    · refine only_post rfl fun answer => ?_
      change Program.Only _ (if delivered (answer.map (·.code)) then _ else _)
      split
      · exact ⟨rfl, fun _ => trivial⟩
      · trivial
  refine Program.keeps_of_only (Sequential.step network lossy editor)
    (fun current => (current editor).contacts = (stores editor).contacts)
    (fun operation current answer next allowed same taken => ?_) _ only stores rfl
  refine Eq.trans ?_ same
  cases operation with
  | inr request => exact exchange_contacts taken editor
  | inl operation =>
      obtain ⟨input, handled, _⟩ := taken
      have own : (handle input operation (current editor)).2 = next editor := by
        rw [handled]
      have aside : Effects.Resource.contacts ∉ [Effects.Resource.groupUpdates, .peers] := by decide
      rw [← own]
      exact Effects.handle_unchanged input operation (current editor)
        (Effects.spared_of_within allowed aside)

/-- The pass so far, with these updates to come. -/
structure Passing (network : Deployment Host) (editor : Host) (groupId : Str) (lossy : Bool)
    (before : Stores Host) (rest : List GroupUpdate) (current : Stores Host) : Prop where
  tended : Tended network editor groupId (fun _ => False) current
  lists : listed (current editor) groupId = listed (before editor) groupId
  contacts : (current editor).contacts = (before editor).contacts
  listing : rest ⊆ pendingGroupUpdates (before editor).groupUpdates
  told : lossy = false → ∀ e ∈ listed (before editor) groupId, e.1 ≠ network.id editor →
    Reachable network (before editor).contacts e.1 →
    Holds network editor groupId e.1 current ∨ ∃ u ∈ rest, u.groupId = groupId ∧ u.memberId = e.1

omit [DecidableEq Host] in
theorem passing_start {lossy : Bool}
    (tended : Tended network editor groupId (fun _ => False) stores) :
    Passing network editor groupId lossy stores
      (pendingGroupUpdates (stores editor).groupUpdates) stores := by
  refine ⟨tended, rfl, rfl, List.Subset.refl _, fun _ e member foreign _ => ?_⟩
  obtain ⟨row, found, holds⟩ := tended.current e member foreign id
  by_cases accepted : row.accepted = 0
  · have key := (stores editor).groupUpdates.find_key found
    simp only [Prod.mk.injEq] at key
    refine .inr ⟨row, (mem_pendingGroupUpdates _ row).mpr ⟨?_, accepted⟩, key⟩
    rw [key.1, key.2]
    exact found
  · exact .inl (holds accepted)

theorem Passing.turn {lossy : Bool} {before : Stores Host} {u : GroupUpdate}
    {rest : List GroupUpdate} (clean : Clean groupId)
    (honest : Honest network (before editor).contacts)
    (tended : Tended network editor groupId (fun _ => False) before)
    (passing : Passing network editor groupId lossy before (u :: rest) stores) :
    (retryPendingGroupUpdate u).wp (Sequential.contract network lossy editor)
      (fun _ after => Passing network editor groupId lossy before rest after) stores := by
  obtain ⟨listing, later⟩ := List.cons_subset.mp passing.listing
  obtain ⟨found, _⟩ := (mem_pendingGroupUpdates _ u).mp listing
  have stored := ((before editor).groupUpdates.find_eq_some _ u).mp found
  have texts := (before editor).groupUpdates.find_valid found
  simp only [AllClean, GroupUpdate.texts, List.forall_mem_cons] at texts
  by_cases same : u.groupId = groupId
  · have letter := (tended.letters u.memberId u (same ▸ found)).relisted passing.lists
    refine Program.wp_mono Sequential.monotone _ ?_ stores (retryPendingGroupUpdate_turned clean same
      texts.2.1 (passing.contacts ▸ honest) passing.tended letter)
    intro _ after turned
    refine ⟨turned.tended, turned.lists.trans passing.lists,
      turned.contacts.trans passing.contacts, later, fun lossless e member foreign reachable => ?_⟩
    rw [← passing.lists] at member
    rcases passing.told lossless e (passing.lists ▸ member) foreign reachable with
      held | ⟨v, among, named, owner⟩
    · exact .inl (turned.persists e member held)
    · rcases List.mem_cons.mp among with rfl | waits
      · rw [← owner] at reachable ⊢
        exact .inl (turned.reached lossless (passing.contacts ▸ reachable) ⟨e, member, owner.symm⟩)
      · exact .inr ⟨v, waits, named, owner⟩
  · have different : cstr u.groupId ≠ groupId := by
      rwa [cstr_of_clean texts.1]
    have only := retryPendingGroupUpdate_beside different (tended.apart editor u stored.1 same)
    apply (Program.wp_demonic_iff _ _ _ _).mpr
    intro _ after ran
    have spared := (Program.wp_demonic_iff _ _ _ _).mp (wp_spared only) _ _ ran
    have contacts := (Program.wp_demonic_iff _ _ _ _).mp
      (retryPendingGroupUpdate_contacts u) _ _ ran
    refine ⟨passing.tended.spared clean spared, ((spared editor).listed clean).trans passing.lists,
      contacts.trans passing.contacts, later, fun lossless e member foreign reachable => ?_⟩
    rcases passing.told lossless e member foreign reachable with held | ⟨v, among, named, owner⟩
    · exact .inl (held.spared clean spared)
    · rcases List.mem_cons.mp among with rfl | waits
      · exact absurd named same
      · exact .inr ⟨v, waits, named, owner⟩

/-- No address of the list leads to the wrong node. -/
def Toward (network : Deployment Host) (editor : Host) (entries : Set Entry) : Prop :=
  ∀ e ∈ entries, e.1 ≠ network.id editor → ∀ peer,
    network.routes (cutServerAddress e.2.1) peer = true → network.id peer = e.1

/-- The editor has the list, and the members still to be told wait. -/
structure Pushing (network : Deployment Host) (editor : Host) (groupId : Str)
    (members pending : List GroupMember) (stores : Stores Host) : Prop where
  own : listed (stores editor) groupId = {e | e ∈ members.map entry}
  tended : Toward network editor {e | e ∈ members.map entry} →
    Tended network editor groupId (fun id => ∃ m ∈ pending, m.memberId = id) stores

omit [DecidableEq Host] in
theorem Tended.narrowed {fewer : Str → Prop} (tended : Tended network editor groupId waits stores)
    (still : ∀ id, id ≠ network.id editor → waits id → fewer id) :
    Tended network editor groupId fewer stores where
  letters id row found := by
    have letter := tended.letters id row found
    exact letter.settled (still id letter.1)
  current e member foreign settled :=
    tended.current e member foreign (mt (still e.1 foreign) settled)
  strange := tended.strange
  apart := tended.apart

/-- A member's letter leaves the editor's list as it is, wherever it goes. -/
theorem own_sent {lossy : Bool} {serverAddress senderId : Str} {version : Int}
    {grp : Option Group} {members : List GroupMember} {answer : Option Response}
    (clean : Clean groupId) (sound : Sound (members.map entry))
    (own : listed (stores editor) groupId = {e | e ∈ members.map entry})
    (exchanged : Exchange network lossy ⟨serverAddress, .acceptGroupUpdate,
      snapshot groupId senderId version grp members⟩ stores answer after) :
    listed (after editor) groupId = {e | e ∈ members.map entry} := by
  have updated : ∀ peer {response desk}, Solo.Runs (network.serve peer ⟨serverAddress,
      .acceptGroupUpdate, snapshot groupId senderId version grp members⟩) ⟨stores peer, []⟩
      response desk →
      listed (Function.update stores peer desk.store editor) groupId =
        {e | e ∈ members.map entry} := by
    intro peer response desk ran
    rcases eq_or_ne editor peer with rfl | other
    · rw [Function.update_self]
      exact (served_letter clean sound ran).2.1.same
    · rw [Function.update_of_ne other]
      exact own
  cases exchanged with
  | served peer routed ran => exact updated peer ran
  | answerLost peer loses routed ran => exact updated peer ran
  | unreached fails => exact own

theorem pushGroupUpdate_pushing {lossy : Bool} {m : GroupMember} {members rest : List GroupMember}
    {version : Int} {grp : Option Group} (clean : Clean groupId)
    (sound : Sound (members.map entry)) (among : m ∈ members) (allOnline : Bool)
    (pushing : Pushing network editor groupId members (m :: rest) stores) :
    (pushGroupUpdate groupId (network.id editor) version
      (snapshot groupId (network.id editor) version grp members) allOnline m).wp
      (Sequential.contract network lossy editor)
      (fun _ after => Pushing network editor groupId members rest after) stores := by
  obtain ⟨own, tended⟩ := pushing
  unfold pushGroupUpdate
  split
  · next self =>
    refine ⟨own, fun toward => (tended toward).narrowed ?_⟩
    rintro id foreign ⟨other, waits, rfl⟩
    rcases List.mem_cons.mp waits with rfl | later
    · exact absurd self foreign
    · exact ⟨other, later, rfl⟩
  next foreign =>
  have cleanId := (sound.clean (entry m) (List.mem_map_of_mem among)).1
  have letter : ∀ store : Store, listed store groupId = {e | e ∈ members.map entry} →
      Letter network editor groupId store False m.memberId
        (snapshot groupId (network.id editor) version grp members) := fun store same =>
    ⟨foreign, network.id editor, version, grp, members, rfl, sound, fun _ _ => same.symm⟩
  apply Sequential.wp_call
  intro now
  let store := ((Call.upsertGroupUpdate ⟨groupId, m.memberId,
    snapshot groupId (network.id editor) version grp members, version, 0, 0⟩).exec now
      (stores editor)).2
  have kept : Pushing network editor groupId members rest
      (Function.update stores editor store) := by
    refine ⟨?_, fun toward => ?_⟩
    · rw [Function.update_self]
      exact own
    refine ((tended toward).kept clean cleanId (letter _ own) version now).narrowed ?_
    rintro id _ ⟨⟨other, waits, rfl⟩, different⟩
    rcases List.mem_cons.mp waits with rfl | later
    · exact absurd rfl different
    · exact ⟨other, later, rfl⟩
  dsimp only
  split
  · exact kept
  apply Sequential.wp_send
  intro answer after exchanged
  have ownAfter := own_sent clean sound kept.own exchanged
  have sent := fun toward => told clean (kept.tended toward) (letter _ kept.own)
    (toward (entry m) (List.mem_map_of_mem among) foreign) exchanged
  split
  · next done =>
    obtain ⟨response, answered⟩ : ∃ response, answer = some response := by
      cases answer with
      | none => cases done
      | some response => exact ⟨response, rfl⟩
    apply Sequential.wp_call
    intro later
    refine ⟨?_, fun toward => ?_⟩
    · rw [Function.update_self]
      exact ownAfter
    · obtain ⟨tendedAfter, same, _, answers⟩ := sent toward
      refine tendedAfter.marked clean cleanId (fun member => ?_) later
      rw [same] at member
      exact (answers response answered).2 member
  · exact ⟨ownAfter, fun toward => (sent toward).1⟩

theorem deliverGroupUpdate_pushing {lossy : Bool} {members : List GroupMember}
    (clean : Clean groupId) (sound : Sound (members.map entry)) (version : Int)
    (pushing : Pushing network editor groupId members members stores) :
    (deliverGroupUpdate groupId (network.id editor) members version).wp
      (Sequential.contract network lossy editor)
      (fun _ after => Pushing network editor groupId members [] after) stores := by
  unfold deliverGroupUpdate
  apply Sequential.wp_call
  intro now
  rw [show ((Call.getGroup groupId).exec now (stores editor)).2 = stores editor from rfl,
    Function.update_eq_self]
  refine Program.wp_mono Sequential.monotone _ (fun _ _ holds => holds.2) stores
    (Program.wp_foldlM Sequential.monotone _
      (fun rest _ after => rest ⊆ members ∧ Pushing network editor groupId members rest after)
      ?_ members true stores ⟨List.Subset.refl members, pushing⟩)
  rintro m rest allOnline after ⟨inside, so⟩
  obtain ⟨among, later⟩ := List.cons_subset.mp inside
  exact Program.wp_mono Sequential.monotone _ (fun _ _ holds => ⟨later, holds⟩) after
    (pushGroupUpdate_pushing clean sound among allOnline so)

omit [DecidableEq Host] in
theorem Pushing.done {members : List GroupMember}
    (pushing : Pushing network editor groupId members [] stores)
    (toward : Toward network editor (listed (stores editor) groupId)) :
    Tended network editor groupId (fun _ => False) stores := by
  rw [pushing.own] at toward
  refine (pushing.tended toward).narrowed ?_
  rintro id _ ⟨m, none, _⟩
  cases none

/-- Every edit leaves everything in order, whatever was lost on the way. -/
def Careful (network : Deployment Host) (editor : Host) (groupId : Str) (after : Stores Host) :
    Prop :=
  Toward network editor (listed (after editor) groupId) →
    Tended network editor groupId (fun _ => False) after

theorem Tended.deleted {id : Str} (tended : Tended network editor groupId waits stores)
    (emptied : id = groupId) (now : Int) :
    Tended network editor groupId waits (Function.update stores editor
      ((Call.deleteGroup id).exec now (stores editor)).2) := by
  subst emptied
  have nobody : ∀ e, e ∉ listed ((Call.deleteGroup id).exec now (stores editor)).2 id := by
    intro e member
    rw [listed_deleted] at member
    cases member
  refine ⟨?_, ?_, ?_, ?_⟩
  · rw [Function.update_self]
    intro other row found
    obtain ⟨foreign, senderId, version, grp, list, same, sound, _⟩ :=
      tended.letters other row found
    refine ⟨foreign, senderId, version, grp, list, same, sound, fun _ => ?_⟩
    rintro ⟨e, member, _⟩
    exact absurd member (nobody e)
  · rw [Function.update_self]
    intro e member
    exact absurd member (nobody e)
  · intro host other
    rw [Function.update_of_ne other]
    exact tended.strange host other
  · intro host
    rcases eq_or_ne host editor with rfl | other
    · rw [Function.update_self]
      exact tended.apart host
    · rw [Function.update_of_ne other]
      exact tended.apart host

end Tending

/-! Any number of edits, passes and other tasks, whatever is lost. -/
section Courses
variable {Host : Type} [DecidableEq Host] {network : Deployment Host} {editor : Host}
  {group : PathId} {stores : Stores Host}

end Courses

section Runs

/-- No request arrives anywhere. -/
def offline : List (Input × Sequential.Fate Bool) := List.replicate 20 (clockAt 7, .lost)

end Runs
end NoMiddle.GroupConvergence
