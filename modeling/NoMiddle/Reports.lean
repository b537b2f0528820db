import NoMiddle.Honesty
import NoMiddle.MemberLists

/-! What an edit of a member list reports when SQLite calls fail. The flag of the answer says
exactly whether the push to every other member was answered with 200, and whoever answered so
had the very list the editor stored. -/
namespace NoMiddle.Reports
open Library Text Crypto DbManager Node MessageDelivery Handlers GroupHandlers Network Conduct
open Effects Footprint Faults Frailty SnapshotConduct
open Authorship (Does)
open GroupMembership (Entry entry listed snapshot_fields)
open Rejection (memberEntries replaced_iff)
open TaskConduct (World Thread)

/-- The push to the member was answered with 200, and the editor went on to note that. -/
def Noted (groupId : Str) (snapshotJson : Json) (m : GroupMember) (history : Trace) : Prop :=
  ∃ earlier response, response.code = 200 ∧
    (⟨.inl (.call (.markGroupUpdateAccepted groupId m.memberId)), ()⟩ ::
      ⟨.inr ⟨cutServerAddress m.serverAddress, .acceptGroupUpdate, snapshotJson⟩, some response⟩ ::
      earlier) <:+ history

/-- Anything but noting that the member has the list. -/
def besides (memberId : Str) : nodeSig.Op → Bool
  | .inl (.call (.markGroupUpdateAccepted _ id)) => id ≠ memberId
  | _ => true

def free : Discipline nodeSig := ⟨Credible, fun _ _ => True⟩

section Edits
variable {groupId own : Str} {snapshotJson : Json} {m : GroupMember} {history after : Trace}
  {Value : Type} {post : Value → Trace → Prop}

theorem noted_grown (grown : Grown (besides m.memberId) history after) :
    Noted groupId snapshotJson m after ↔ Noted groupId snapshotJson m history := by
  obtain ⟨newer, rfl, among⟩ := grown
  constructor
  · rintro ⟨earlier, response, code, suffix⟩
    refine ⟨earlier, response, code, ?_⟩
    -- None of the newer events is the mark, so the pair lies in the older ones.
    induction newer with
    | nil => exact suffix
    | cons event rest ih =>
        rcases List.suffix_cons_iff.mp suffix with same | older
        · have permitted := among event List.mem_cons_self
          rw [← (List.cons.inj same).1] at permitted
          simp [besides] at permitted
        · exact ih (fun other member => among other (List.mem_cons_of_mem event member)) older
  · rintro ⟨earlier, response, code, suffix⟩
    exact ⟨earlier, response, code, suffix.trans (List.suffix_append newer history)⟩

theorem wp_free {program : Proc Value} (history : Trace) :
    program.wp free.contract (fun _ _ => True) history :=
  Program.wp_free (fun _ _ => trivial) program history

/-- A 200 says whether the list that was stored has reached all the other members. -/
def Reported (groupId own : Str) (answer : Response) (history : Trace) : Prop :=
  answer.code = 200 → ∃ members snapshotJson flag, answer = ok [("delivered", .bool flag)] ∧
    (⟨.inl (.call (.replaceGroupMembers groupId members)), true⟩ : Event nodeSig) ∈ history ∧
    snapshotJson.s? "group_id" = some groupId ∧
    memberEntries snapshotJson = some (members.map entry) ∧
    (flag = true ↔ ∀ m ∈ members, m.memberId = own ∨ Noted groupId snapshotJson m history)

theorem Reported.grown {answer : Response} (reported : Reported groupId own answer history)
    (grown : ∀ memberId, Grown (besides memberId) history after) :
    Reported groupId own answer after := by
  intro code
  obtain ⟨members, snapshotJson, flag, same, stored, named, entries, flagged⟩ := reported code
  refine ⟨members, snapshotJson, flag, same, (grown []).mem stored, named, entries, ?_⟩
  exact flagged.trans (forall₂_congr fun m _ => or_congr_right (noted_grown (grown m.memberId)).symm)

section Routes
variable (sodium : Sodium) (keys : KeyPair)

theorem wp_still {Output : Type} {program : Proc Output} {rest : Output → Proc Value}
    (only : program.Only (within []))
    (later : ∀ value after, Grown (within []) history after →
      (rest value).wp free.contract post after) :
    (program >>= rest).wp free.contract post history :=
  Program.wp_seq free.contract_monotone program rest history
    (Program.wp_grown program only (.refl history) (wp_free history))
    fun value after still => later value after still.2

theorem wp_authed {rest : Proc Response} (req : HttpRequest)
    (later : ∀ after, Grown (within []) [] after →
      rest.wp free.contract (Reported groupId own) after) :
    (do if !(← isAuthed sodium req) then return error 401 "Unauthorized"
        rest).wp free.contract (Reported groupId own) [] := by
  refine wp_still (isAuthed_only sodium (fun _ => rfl) req) fun authed after still => ?_
  cases authed with
  | true => exact later after still
  | false => exact fun code => by cases code

/-- The list of the body was stored, insert by insert. -/
def Installed (body : Json) (history : Trace) : Prop :=
  ∃ groupId members, body.s? "group_id" = some groupId ∧
    memberEntries body = some (members.map entry) ∧
    (⟨.inl (.call (.replaceGroupMembers groupId members)), true⟩ : Event nodeSig) ∈ history

end Routes
end Edits

section Runs
variable {Host : Type} (network : Deployment Host)

/-- A 200 to a push says that its list was stored. -/
def settles (origin : Option Request) (answer : Response) (history : Trace) : Prop :=
  ∀ request, origin = some request → request.endpoint = .acceptGroupUpdate →
    answer.code = 200 → Installed request.body history

/-- The texts of an entry as the columns hold them. -/
def kept (e : Entry) : Entry := (cstr e.1, cstr e.2.1, cstr e.2.2)

variable [DecidableEq Host] (stores : Host → Store)

/-- The node had exactly this list at some moment of the run. -/
def Had (state : World Host) (host : Host) (groupId : Str) (entries : List Entry) : Prop :=
  ∃ moment : World Host, Rpc.Reachable (frail network) (fun _ _ => True) ⟨stores, [], []⟩ moment ∧
    Rpc.Reachable (frail network) (fun _ _ => True) moment state ∧
    listed (moment.stores host) groupId = {e | e ∈ entries.map kept}

/-- Whoever answered a push with 200 was reached by it and had its list. -/
def granted (request : Request) (answer : Response) (state : World Host) : Prop :=
  answer.code = 200 → request.endpoint = .acceptGroupUpdate → ∃ peer groupId entries,
    network.routes request.serverAddress peer = true ∧
    request.body.s? "group_id" = some groupId ∧ memberEntries request.body = some entries ∧
    Had network stores state peer groupId entries

def shows (host : Host) : Event nodeSig → World Host → Prop
  | ⟨.inl (.call (.replaceGroupMembers groupId members)), stored⟩, state =>
      stored = true → Had network stores state host groupId (members.map entry)
  | ⟨.inr request, some answer⟩, state => granted network stores request answer state
  | _, _ => True

/-- The invariant of every run with faults. -/
structure Watched (state : World Host) : Prop where
  reached : Rpc.Reachable (frail network) (fun _ _ => True) ⟨stores, [], []⟩ state
  linked : Rpc.Linked state
  routed : Rpc.Reached (frail network) state
  orderly : Rpc.InOrder (fun _ _ _ => free) (fun _ origin _ => settles origin) (fun _ _ => True)
    (fun _ => True) state
  testified : Rpc.Testified (shows network stores) (granted network stores) state

omit [DecidableEq Host] in
theorem listed_stored {groupId : Str} {members : List GroupMember} {store : Store} (now : Int)
    (stored : (replaceGroupMembers groupId members store.groupMembers).1 = true) :
    listed ((Call.replaceGroupMembers groupId members).exec now store).2 groupId =
      {e | e ∈ (members.map entry).map kept} := by
  have keys : (members.map (·.stored groupId)).map MemberLists.place =
      (members.map fun m => cstr m.memberId).map (Prod.mk (cstr groupId)) := by
    rw [List.map_map, List.map_map]
    rfl
  have distinct : ((members.map (·.stored groupId)).map MemberLists.place).Nodup := by
    rw [keys]
    exact ((replaced_iff groupId members store.groupMembers).mp stored).map
      (Prod.mk_right_injective _)
  have list := MemberLists.listing_replaced groupId members store.groupMembers
  rw [Table.firsts_of_nodup distinct] at list
  ext e
  change e ∈ (groupMembersOf groupId
    (replaceGroupMembers groupId members store.groupMembers).2).map entry ↔ _
  rw [list, ((List.perm_insertionSort _ _).map entry).mem_iff, List.map_map]
  exact Iff.of_eq (congrArg (e ∈ ·) (List.map_map (g := kept) (f := entry) (l := members)).symm)

variable {network stores} {before after : World Host} {label : FrailAction Host}

theorem Had.later {host : Host} {groupId : Str} {entries : List Entry}
    (had : Had network stores before host groupId entries)
    (step : Rpc.Step (frail network) label before after) :
    Had network stores after host groupId entries := by
  obtain ⟨moment, reached, rest, list⟩ := had
  exact ⟨moment, reached, rest.step trivial step, list⟩

theorem granted_step (step : Rpc.Step (frail network) label before after) (request : Request)
    (answer : Response) (known : granted network stores request answer before) :
    granted network stores request answer after := by
  intro code endpoint
  obtain ⟨peer, groupId, entries, routed, named, read, had⟩ := known code endpoint
  exact ⟨peer, groupId, entries, routed, named, read, had.later step⟩

theorem shows_step (step : Rpc.Step (frail network) label before after) (host : Host)
    (event : Event nodeSig) (shown : shows network stores host event before) :
    shows network stores host event after := by
  obtain ⟨operation, answer⟩ := event
  cases operation using operation_cases with
  | call db =>
      cases db with
      | replaceGroupMembers groupId members => exact fun stored => (shown stored).later step
      | _ => trivial
  | sent request =>
      cases answer with
      | none => trivial
      | some answer => exact granted_step step request answer shown
  | _ => trivial

/-- A list that was stored is the node's from then on, if only for a moment. -/
theorem shows_act {state : World Host} {host : Host} {drawn : Drawn} {operation : LocalOp}
    {store : Store} (left : (act drawn (.inl operation) store).2 = state.stores host)
    (reached : Rpc.Reachable (frail network) (fun _ _ => True) ⟨stores, [], []⟩ state) :
    shows network stores host ⟨.inl operation, (act drawn (.inl operation) store).1⟩ state := by
  cases operation with
  | call call =>
      cases call with
      | replaceGroupMembers groupId members =>
          intro stored
          have done : attempt drawn.input.now drawn.codes store
            (.replaceGroupMembers groupId members) = _ := attempt_replaced stored
          -- The moment is now: nobody else has acted since.
          refine ⟨state, reached, .start, ?_⟩
          rw [← left]
          change listed (attempt drawn.input.now drawn.codes store
            (.replaceGroupMembers groupId members)).2 groupId = _
          rw [done]
          exact listed_stored drawn.input.now ((congrArg Prod.fst done).symm.trans stored)
      | _ => trivial
  | _ => trivial

theorem testifies (closed : ∀ request, network.foreign request = false)
    (step : Rpc.Step (frail network) label before after) (watched : Watched network stores before) :
    Rpc.Testifies (shows network stores) (granted network stores) step where
  keepEvent host event shown := shows_step step host event shown
  keepAnswer request answer said := granted_step step request answer said
  act index drawn thread operation next answer store labelled current here taken := by
    subst labelled
    have left := Rpc.acted_store step current here
    have answered : (act drawn (.inl operation) (before.stores thread.node)).1 = answer :=
      congrArg Prod.fst taken
    have shown : shows network stores thread.node _ after :=
      shows_act left.symm (watched.reached.step trivial step)
    rwa [answered] at shown
  receive host request answer said := granted_step step request answer said
  giveUp _ _ := trivial
  reply thread member job request answer serves done := by
    intro code endpoint
    have origin : thread.origin.map (·.2) = some request := by rw [serves]; rfl
    obtain ⟨groupId, members, named, read, stored⟩ :=
      watched.orderly.finished member done request origin endpoint code
    exact ⟨thread.node, groupId, members.map entry,
      watched.routed.origin thread member job request serves, named, read,
      watched.testified.event thread member _ stored rfl⟩
  foreign request answer outside := by
    cases (closed request).symm.trans outside

end Runs

section Execution
open GroupMembership (admission founded)
open Honesty (failing)

def told (answer : Response) : Option Bool :=
  match answer.content with
  | .json value =>
      match value.get? "delivered" with
      | some (.bool flag) => some flag
      | _ => none
  | _ => none

end Execution

end NoMiddle.Reports
