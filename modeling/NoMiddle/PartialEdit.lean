import NoMiddle.Faults
import NoMiddle.GroupMembership

/-! What an edit of a member list leaves behind when SQLite calls fail. The list is read,
changed in memory, deleted and inserted again row by row; a row that was not read or not
inserted is gone. -/
namespace NoMiddle.PartialEdit
open Library Text Crypto DbManager DbViews Node MessageDelivery Handlers GroupHandlers Footprint
open Faults

/-- What a request asks for. -/
inductive Edit where
  | add (memberId serverAddress : Str) (selfAddress : Option Str)
  | remove (memberId : Str)

inductive Route where
  | addMember (req : HttpRequest)
  | removeMember (req : HttpRequest)

def Route.req : Route → HttpRequest
  | addMember req | removeMember req => req

def Route.program (sodium : Sodium) (keys : KeyPair) (group : PathId) : Route → Proc Response
  | addMember req => GroupHandlers.addMember sodium keys req group
  | removeMember req => GroupHandlers.removeMember sodium keys req group

/-- The edit the body describes, unless the handler stops at it. -/
def Route.edit (route : Route) : Option Edit :=
  match route, route.req.body with
  | addMember _, some dataJson =>
      match dataJson.hasAll? ["member_id", "server_address"], dataJson.s? "member_id",
        dataJson.s? "server_address" with
      | some true, some memberId, some serverAddress =>
          some (.add memberId serverAddress (dataJson.optional "self_server_address"))
      | _, _, _ => none
  | removeMember _, some dataJson =>
      match dataJson.hasAll? ["member_id"], dataJson.s? "member_id" with
      | some true, some memberId => some (.remove memberId)
      | _, _ => none
  | _, none => none

/-! The list in memory. -/

/-- The list `addMember` writes back, a new member being added at the given time. -/
def extended (groupId selfId memberId serverAddress : Str) (selfAddress : Option Str)
    (addedAt : Int) (stored : List GroupMember) : List GroupMember :=
  let existing := withSelfAddress selfId selfAddress stored
  if existing.any (·.memberId = memberId) then setAddress memberId serverAddress existing
  else existing ++ [⟨groupId, memberId, serverAddress, str "member", addedAt⟩]

/-- The entries of the insert loop whose statements do not fail. -/
def survivors (codes : Codes) : Nat → List GroupMember → List GroupMember
  | _, [] => []
  | statement, m :: rest =>
      if codes.fails statement then survivors codes (statement + 1) rest
      else m :: survivors codes (statement + 1) rest

theorem find_insertMembers (codes : Codes) (groupId id : Str) (statement : Nat)
    (members : List GroupMember) (done : Bool × GroupMembers) :
    (insertMembers codes groupId statement members done).2.find (cstr groupId, id) =
      (done.2.find (cstr groupId, id)).or
        (entryFor groupId id (survivors codes statement members)) := by
  induction members generalizing statement done with
  | nil => simp [insertMembers, survivors, entryFor]
  | cons m rest ih =>
      rw [insertMembers, ih, survivors]
      cases codes.fails statement with
      | true => rfl
      | false =>
          simp only [Bool.false_eq_true, ↓reduceIte, find_insertMember, Option.or_assoc]
          congr 1
          by_cases same : cstr m.memberId = id <;> simp [same, entryFor]

theorem survivors_sublist (codes : Codes) (statement : Nat) (members : List GroupMember) :
    (survivors codes statement members).Sublist members := by
  induction members generalizing statement with
  | nil => exact List.Sublist.slnil
  | cons m rest ih =>
      unfold survivors
      split
      · exact (ih _).cons m
      · exact (ih _).cons_cons m

theorem survivors_append (codes : Codes) (statement : Nat) (members : List GroupMember)
    (m : GroupMember) :
    survivors codes statement (members ++ [m]) = survivors codes statement members ++
      if codes.fails (statement + members.length) then [] else [m] := by
  induction members generalizing statement with
  | nil => rfl
  | cons first rest ih =>
      rw [List.cons_append, survivors, survivors, ih, List.length_cons,
        show statement + 1 + rest.length = statement + (rest.length + 1) by omega]
      split
      · rfl
      · rfl

/-- All are there exactly if none of their statements fails. -/
theorem survivors_all (codes : Codes) (statement : Nat) (members : List GroupMember) :
    survivors codes statement members = members ↔
      ∀ index < members.length, codes.fails (statement + index) = false := by
  induction members generalizing statement with
  | nil => simp [survivors]
  | cons m rest ih =>
      unfold survivors
      constructor
      · intro whole
        split at whole
        · -- A lost element cannot be made up for, as what survives is a sublist.
          have short := (survivors_sublist codes (statement + 1) rest).length_le
          rw [whole, List.length_cons] at short
          omega
        · next works =>
          have later := (ih (statement + 1)).mp (List.cons.inj whole).2
          intro index bound
          cases index with
          | zero => simpa using works
          | succ index =>
              have found := later index (by simpa using bound)
              rwa [show statement + 1 + index = statement + (index + 1) by omega] at found
      · intro works
        have first := works 0 (by simp)
        rw [Nat.add_zero] at first
        rw [if_neg (by simp [first])]
        congr 1
        apply (ih (statement + 1)).mpr
        intro index bound
        have later := works (index + 1) (by simpa using bound)
        rwa [show statement + (index + 1) = statement + 1 + index by omega] at later

/-- A program that touches no list of members leaves them all. -/
theorem play_memberFree {Value : Type} {program : Proc Value} (only : program.Only memberFree)
    (drawn : Nat → Drawn) (store : Store) :
    (play program drawn store).2.groupMembers = store.groupMembers := by
  induction program generalizing drawn store with
  | ret value => rfl
  | op operation next ih =>
      have kept : (act (drawn 0) operation store).2.groupMembers = store.groupMembers := by
        cases operation with
        | inr request => rfl
        | inl operation =>
            cases operation with
            | call call =>
                cases call with
                | getGroupMembers | replaceGroupMembers | deleteGroup => cases only.1
                | _ =>
                    first
                      | rfl
                      | (unfold act attempt; dsimp only; split <;> rfl)
            | _ => rfl
      exact (ih _ (only.2 _) _ _).trans kept

/-! The property and the condition. -/

abbrev View := Str → Option GroupMember

def view (group : PathId) (store : Store) : View :=
  fun id => store.groupMembers.find (group.text, id)

/-- This node's own row takes the address that comes with the request. -/
def readdressed (selfId : Str) (selfAddress : Option Str) (row : GroupMember) : GroupMember :=
  match selfAddress with
  | some address => if row.memberId = selfId then { row with serverAddress := cstr address } else row
  | none => row

/-- The old rows with the requested member added, updated or removed. -/
def Edit.Done (groupId selfId : Str) (before after : View) : Edit → Prop
  | add memberId serverAddress selfAddress =>
      (∀ id, id ≠ cstr memberId → after id = (before id).map (readdressed selfId selfAddress)) ∧
      match before (cstr memberId) with
      | some row => after (cstr memberId) = some { row with serverAddress := cstr serverAddress }
      | none => ∃ addedAt, after (cstr memberId) =
          some ⟨groupId, cstr memberId, cstr serverAddress, str "member", addedAt⟩
  | remove memberId => ∀ id, after id = if id = memberId then none else before id

def AllOrNothing (selfId : Str) (group : PathId) (route : Route) (store after : Store) : Prop :=
  view group after = view group store ∨
    ∃ edit, route.edit = some edit ∧
      edit.Done group.text selfId (view group store) (view group after)

/-- The credentials are right and can be looked up. -/
def Admits (sodium : Sodium) (codes : Codes) (store : Store) (req : HttpRequest) : Prop :=
  (req.clientId ≠ [] ∧ req.clientSecret ≠ []) ∧ codes.fails 0 = false ∧
    ∃ info, store.clients.find (cstr req.clientId) = some info ∧
      hashSecret sodium req.clientSecret info.salt = info.secretHash

/-- The list is read to its end and all its entries are inserted again; the new member too,
unless the rest of the list is left as it was. -/
def Edit.Whole (selfId : Str) (group : PathId) (store : Store) (codes : Nat → Codes) :
    Edit → Prop
  | add memberId serverAddress selfAddress =>
      let listed := groupMembersOf group.text store.groupMembers
      let read := (codes 1).read listed
      let replace := codes (if read.any (·.memberId = memberId) then 2 else 3)
      replace.fails 0 = true ∨
        (read = listed ∧ (∀ index < listed.length, replace.fails (1 + index) = false) ∧
          (listed.any (·.memberId = memberId) = false →
            (replace.fails (1 + listed.length) = true ∨
              ∃ row ∈ listed, row.memberId = cstr memberId) →
            (∀ row ∈ listed, readdressed selfId selfAddress row = row) ∨
              ∃ row ∈ listed, row.memberId = cstr memberId ∧
                readdressed selfId selfAddress row =
                  { row with serverAddress := cstr serverAddress }))
  | remove memberId =>
      let listed := groupMembersOf group.text store.groupMembers
      let read := (codes 1).read listed
      read.any (·.memberId = memberId) = false ∨ (codes 2).fails 0 = true ∨
        (read = listed ∧ ∀ index < (listed.filter (·.memberId ≠ memberId)).length,
          (codes 2).fails (1 + index) = false)

/-- The request is refused or its edit is whole. -/
def Atomic (sodium : Sodium) (selfId : Str) (group : PathId) (store : Store)
    (codes : Nat → Codes) (route : Route) : Prop :=
  Admits sodium (codes 0) store route.req →
    ∀ edit, route.edit = some edit → edit.Whole selfId group store codes

/-! The runs. -/
section Runs
variable {sodium : Sodium} {keys : KeyPair} {group : PathId} {store : Store}
  {drawn : Nat → Drawn} {req : HttpRequest}

theorem lookup_play {Value : Type} (clientId : Str) (rest : Option Client → Proc Value) :
    play (call (.getClient clientId) >>= rest) drawn store =
      play (rest (if (drawn 0).codes.fails 0 then none else store.clients.find (cstr clientId)))
        (fun index => drawn (index + 1)) store := by
  change play (rest (attempt _ (drawn 0).codes store (.getClient clientId)).1) _
    (attempt _ (drawn 0).codes store (.getClient clientId)).2 = _
  have looked : attempt (drawn 0).input.now (drawn 0).codes store (.getClient clientId) =
      (if (drawn 0).codes.fails 0 then none else store.clients.find (cstr clientId), store) := by
    change (if _ then _ else _) = _
    split <;> rfl
  rw [looked]

/-- Without the right credentials nothing happens; with them the look-up is the one
operation before the handler's own. -/
theorem authed_play (refused : Response) (rest : Proc Response) :
    play (do if !(← isAuthed sodium req) then return refused
             rest) drawn store = (refused, store) ∧ ¬Admits sodium (drawn 0).codes store req ∨
    play (do if !(← isAuthed sodium req) then return refused
             rest) drawn store = play rest (fun index => drawn (index + 1)) store ∧
      Admits sodium (drawn 0).codes store req := by
  unfold isAuthed authenticate
  split
  · next missing =>
    simp only [Bool.or_eq_true, List.isEmpty_iff] at missing
    refine .inl ⟨rfl, ?_⟩
    rintro ⟨⟨id, secret⟩, _⟩
    exact missing.elim id secret
  next given =>
  simp only [Bool.or_eq_true, List.isEmpty_iff, not_or] at given
  rw [Program.bind_assoc, lookup_play]
  unfold Admits
  cases (drawn 0).codes.fails 0 with
  | true => exact .inl ⟨rfl, by simp⟩
  | false =>
      cases store.clients.find (cstr req.clientId) with
      | none => exact .inl ⟨rfl, by simp⟩
      | some info =>
          by_cases shown : hashSecret sodium req.clientSecret info.salt = info.secretHash
          · refine .inr ⟨?_, given, rfl, info, rfl, shown⟩
            simp [shown]
          · refine .inl ⟨?_, by simp [shown]⟩
            simp [shown]

theorem time_play {Value : Type} (rest : Int → Proc Value) :
    play (time >>= rest) drawn store =
      play (rest (drawn 0).input.now) (fun index => drawn (index + 1)) store := rfl

theorem members_play {Value : Type} (groupId : Str) (rest : List GroupMember → Proc Value) :
    play (call (.getGroupMembers groupId) >>= rest) drawn store =
      play (rest ((drawn 0).codes.read (groupMembersOf groupId store.groupMembers)))
        (fun index => drawn (index + 1)) store := rfl

theorem play_view {Value : Type} {program : Proc Value} (only : program.Only memberFree) :
    view group (play program drawn store).2 = view group store := by
  unfold view
  rw [play_memberFree only]

/-- What the replacement makes of the group's rows. -/
def replaced (codes : Codes) (group : PathId) (list : List GroupMember) (store : Store) : View :=
  if codes.fails 0 then view group store
  else fun id => entryFor group.text id (survivors codes 1 list)

/-- As long as what follows leaves the rows it finds, they are what the replacement made. -/
theorem replace_play {list : List GroupMember} {rest : Bool → Proc Response}
    (keeps : ∀ done later after, (done = true → (drawn 0).codes.fails 0 = false ∧
        view group after = replaced (drawn 0).codes group list store) →
      view group (play (rest done) later after).2 = view group after) :
    view group (play (call (.replaceGroupMembers group.text list) >>= rest) drawn store).2 =
      replaced (drawn 0).codes group list store := by
  let taken := attempt (drawn 0).input.now (drawn 0).codes store
    (.replaceGroupMembers group.text list)
  have table : view group taken.2 = replaced (drawn 0).codes group list store := by
    funext id
    unfold view replaced
    cases failing : (drawn 0).codes.fails 0 with
    | true => simp [taken, attempt, failing, view]
    | false =>
        have key : cstr group.text = group.text := cstr_of_clean group.clean
        have found := find_insertMembers (drawn 0).codes group.text id 1 list
          (true, store.groupMembers.delete (·.groupId = cstr group.text))
        -- The delete comes first, so what is there afterwards was inserted.
        have cleared : (store.groupMembers.delete (·.groupId = cstr group.text)).find
            (group.text, id) = none := by
          rw [Table.find_delete]
          cases old : store.groupMembers.find (group.text, id) with
          | none => rfl
          | some row =>
              have same := congrArg Prod.fst (store.groupMembers.find_key old)
              simp [Option.filter, key, show row.groupId = group.text from same]
        rw [key] at found cleared
        simp only [taken, attempt, failing, Bool.false_eq_true, ↓reduceIte, key]
        rw [found, cleared, Option.none_or]
  have ran : play (call (.replaceGroupMembers group.text list) >>= rest) drawn store =
      play (rest taken.1) (fun index => drawn (index + 1)) taken.2 := rfl
  have worked : taken.1 = true → (drawn 0).codes.fails 0 = false := by
    cases failing : (drawn 0).codes.fails 0 with
    | true => simp [taken, attempt, failing]
    | false => exact fun _ => rfl
  rw [ran, keeps taken.1 _ taken.2 fun done => ⟨worked done, table⟩]
  exact table

theorem add_body {memberId serverAddress : Str} {selfAddress : Option Str}
    (edit : (Route.addMember req).edit = some (.add memberId serverAddress selfAddress)) :
    ∃ dataJson, req.body = some dataJson ∧
      dataJson.hasAll? ["member_id", "server_address"] = some true ∧
      dataJson.s? "member_id" = some memberId ∧
      dataJson.s? "server_address" = some serverAddress ∧
      dataJson.optional "self_server_address" = selfAddress := by
  unfold Route.edit Route.req at edit
  cases body : req.body with
  | none => simp [body] at edit
  | some dataJson =>
      simp only [body] at edit
      split at edit
      · next present member address =>
        cases edit
        exact ⟨dataJson, rfl, present, member, address, rfl⟩
      · cases edit

theorem withSelfAddress_ids (selfId : Str) (selfAddress : Option Str)
    (members : List GroupMember) :
    (withSelfAddress selfId selfAddress members).map (·.memberId) = members.map (·.memberId) := by
  cases selfAddress with
  | none => rfl
  | some address => exact GroupMembership.setAddress_ids members

theorem add_view {memberId serverAddress : Str} {selfAddress : Option Str}
    (edit : (Route.addMember req).edit = some (.add memberId serverAddress selfAddress))
    (admits : Admits sodium (drawn 0).codes store req) :
    view group (play (addMember sodium keys req group) drawn store).2 =
      replaced
        (drawn (if ((drawn 1).codes.read (groupMembersOf group.text store.groupMembers)).any
          (·.memberId = memberId) then 2 else 3)).codes group
        (extended group.text keys.publicKeyB64 memberId serverAddress selfAddress
          (drawn 2).input.now
          ((drawn 1).codes.read (groupMembersOf group.text store.groupMembers))) store := by
  unfold addMember
  rcases @authed_play sodium store drawn req (error 401 "Unauthorized") _ with
    ⟨_, denied⟩ | ⟨ran, _⟩
  · exact absurd admits denied
  rw [ran]
  obtain ⟨dataJson, body, present, member, address, rfl⟩ := add_body edit
  simp only [body, present, member, address, Bool.not_true, Bool.false_eq_true, ↓reduceIte]
  rw [members_play]
  generalize (drawn (0 + 1)).codes.read (groupMembersOf group.text store.groupMembers) = read
  have quiet : ∀ members (done : Bool) later after, view group (play (do
      if !done then return error 500 "Failed to update membership"
      let version ← time
      let delivered ← deliverGroupUpdate group.text keys.publicKeyB64 members version
      return ok [("delivered", .bool delivered)]) later after).2 = view group after := by
    intro members done later after
    cases done with
    | false => rfl
    | true =>
        apply play_view
        apply only_perform rfl
        intro version
        exact Program.only_bind (deliverGroupUpdate_memberFree ..) fun _ => trivial
  have ids := congrArg (List.any · (· = memberId)) (withSelfAddress_ids keys.publicKeyB64
    (dataJson.optional "self_server_address") read)
  simp only [List.any_map, Function.comp_def] at ids
  unfold withMember extended
  dsimp only
  rw [ids]
  cases read.any (·.memberId = memberId) with
  | true => exact replace_play fun done later after _ => quiet _ done later after
  | false =>
      -- The clock is read in between.
      change view group (play (call (.replaceGroupMembers group.text _) >>= _)
        (fun index => drawn (index + 3)) store).2 = _
      exact replace_play fun done later after _ => quiet _ done later after

theorem remove_body {memberId : Str}
    (edit : (Route.removeMember req).edit = some (.remove memberId)) :
    ∃ dataJson, req.body = some dataJson ∧ dataJson.hasAll? ["member_id"] = some true ∧
      dataJson.s? "member_id" = some memberId := by
  unfold Route.edit Route.req at edit
  cases body : req.body with
  | none => simp [body] at edit
  | some dataJson =>
      simp only [body] at edit
      split at edit
      · next present member =>
        cases edit
        exact ⟨dataJson, rfl, present, member⟩
      · cases edit

/-- `deleteGroup` comes only after an empty list has been stored. -/
theorem delete_view {version : Proc Bool} {remaining : List GroupMember}
    (only : version.Only memberFree) (empty : remaining = [] → view group store = fun _ => none) :
    view group (play (do
      let delivered ← version
      if delivered && remaining.isEmpty then call (.deleteGroup group.text)
      return ok [("delivered", .bool delivered)]) drawn store).2 = view group store := by
  obtain ⟨later, ran⟩ := Program.play_bind act version (fun delivered => do
      if delivered && remaining.isEmpty then call (.deleteGroup group.text)
      return ok [("delivered", .bool delivered)]) drawn store
  have kept : view group (Program.play act version drawn store).2 = view group store :=
    play_view only
  have cleared : remaining = [] →
      view group (Program.play act version drawn store).2 = fun _ => none :=
    fun none => kept.trans (empty none)
  rw [play, ran]
  refine Eq.trans ?_ kept
  generalize Program.play act version drawn store = middle at cleared
  obtain ⟨delivered, middle⟩ := middle
  cases remaining with
  | cons m rest => cases delivered <;> rfl
  | nil =>
      cases delivered with
      | false => rfl
      | true =>
          funext id
          -- The group that is deleted has no members left to delete.
          have absent : middle.groupMembers.find (group.text, id) = none :=
            congrFun (cleared rfl) id
          change (if (later 0).codes.fails 1 then middle.groupMembers else
            middle.groupMembers.delete (·.groupId = cstr group.text)).find (group.text, id) =
            middle.groupMembers.find (group.text, id)
          split
          · rfl
          · rw [Table.find_delete, absent]
            rfl

theorem remove_view {memberId : Str}
    (edit : (Route.removeMember req).edit = some (.remove memberId))
    (admits : Admits sodium (drawn 0).codes store req) :
    let read := (drawn 1).codes.read (groupMembersOf group.text store.groupMembers)
    view group (play (removeMember sodium keys req group) drawn store).2 =
      if read.any (·.memberId = memberId) then
        replaced (drawn 2).codes group (read.filter (·.memberId ≠ memberId)) store
      else view group store := by
  intro read
  unfold removeMember
  rcases @authed_play sodium store drawn req (error 401 "Unauthorized") _ with
    ⟨_, denied⟩ | ⟨ran, _⟩
  · exact absurd admits denied
  rw [ran]
  obtain ⟨dataJson, body, present, member⟩ := remove_body edit
  simp only [body, present, member, Bool.not_true, Bool.false_eq_true, ↓reduceIte]
  rw [members_play]
  change view group (play (if (read.filter (·.memberId ≠ memberId)).length = read.length then _
    else _) _ store).2 = _
  cases listed : read.any (·.memberId = memberId) with
  | false =>
      have same : read.filter (·.memberId ≠ memberId) = read := by
        apply List.filter_eq_self.mpr
        intro m there
        have other := List.any_eq_false.mp listed m there
        simpa using other
      rw [same, if_pos rfl]
      rfl
  | true =>
      -- The lengths differ exactly if the member was there.
      have shorter : (read.filter (·.memberId ≠ memberId)).length ≠ read.length := by
        intro same
        obtain ⟨m, there, named⟩ := List.any_eq_true.mp listed
        have kept := List.length_filter_eq_length_iff.mp same m there
        simp_all
      rw [if_neg shorter]
      apply replace_play
      intro done later after stored
      cases done with
      | false => rfl
      | true =>
          simp only [Bool.not_true, Bool.false_eq_true, ↓reduceIte]
          rw [time_play]
          refine delete_view (deliverGroupUpdate_memberFree ..) fun empty => ?_
          obtain ⟨works, rows⟩ := stored rfl
          rw [rows, empty, replaced, if_neg (by simp [works])]
          rfl

end Runs
end NoMiddle.PartialEdit
