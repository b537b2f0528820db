import NoMiddle.Statements
import NoMiddle.WholeEdit

/-! Edits of one member list handled at the same time, statement by statement. An edit is a read,
a change in memory and a replacement; another edit that reads in between replaces what the
first one made. -/
namespace NoMiddle.SerialEdits
open Library Text Crypto DbManager DbViews Node MessageDelivery Handlers GroupHandlers Footprint
open Faults PartialEdit WholeEdit Threads Statements

abbrev Pool (Index : Type) := Threads.Pool statementSig Index Store Response

/-- A request's handler, statement by statement. -/
def handler (sodium : Sodium) (keys : KeyPair) (group : PathId) (route : Route) :
    Program statementSig Response :=
  (route.program sodium keys group).translate statements

/-- `getGroupMembers`. -/
def reads : statementSig.Op → Bool
  | .inl (.inl (.call (.getGroupMembers _))) => true
  | _ => false

/-- Not a statement on `group_members`. -/
def memberless : statementSig.Op → Bool
  | .inl operation => memberFree operation
  | .inr _ => false

/-- A step that reads the list is taken only when every other handler that has read it is done
with the table. -/
abbrev Alone {Index : Type} [DecidableEq Index] (pool : Pool Index) (index : Index) : Prop :=
  Exclusive reads memberless pool index

/-- The requests are handled one at a time, in this order, and no SQLite call fails. -/
inductive Serially (sodium : Sodium) (keys : KeyPair) (group : PathId) (first : Store) :
    List Route → Store → Prop where
  | nil : Serially sodium keys group first [] first
  | snoc {order middle} (before : Serially sodium keys group first order middle) (route : Route)
      (drawn : Nat → Drawn) (works : ∀ index, (drawn index).codes = .none) :
      Serially sodium keys group first (order ++ [route])
        (play (route.program sodium keys group) drawn middle).2

/-! The sections of the handlers. -/

def performed : statementSig.Op → Bool
  | .inl (.inl (.call (.replaceGroupMembers ..))) | .inl (.inl (.call (.deleteGroup _))) => false
  | .inl operation => editsMembers operation
  | .inr _ => true

/-- What a handler does before it reads the list. -/
def preliminary : nodeSig.Op → Bool
  | .inl (.call (.getClient _)) | .inl .time => true
  | _ => false

def settled : statementSig.Op → Bool
  | .inl operation => preliminary operation
  | .inr _ => false

theorem enact_local (drawn : Input × Option Response) (operation : LocalOp) (store : Store) :
    enact drawn (.inl (.inl operation)) store = handle drawn.1 operation store := by
  cases operation with
  | call call => exact attempt_none drawn.1.now store call
  | _ => rfl

abbrev groupTables (store : Store) : Groups × GroupMembers := (store.groups, store.groupMembers)

theorem sections : Sections enact groupTables Store.clients performed settled memberless := by
  constructor
  case base_kept =>
    intro drawn operation store permitted
    cases operation with
    | inr statement => cases statement <;> rfl
    | inl operation =>
        cases operation with
        | inr request => rfl
        | inl operation =>
            rw [enact_local]
            cases operation with
            | call call => cases call <;> first | rfl | cases permitted
            | _ => rfl
  -- The statements of a member list read and write these tables and no others.
  case view_same =>
    intro drawn operation store other permitted same based
    obtain ⟨groups, members⟩ := Prod.mk.inj same
    cases operation with
    | inr statement =>
        cases statement <;> simp only [enact, groups, members] <;> exact ⟨rfl, trivial⟩
    | inl operation =>
        cases operation with
        | inr request => exact ⟨rfl, same⟩
        | inl operation =>
            rw [enact_local, enact_local]
            cases operation with
            | call call =>
                cases call with
                | getClient clientId => exact ⟨congrArg (·.find (cstr clientId)) based, same⟩
                | getGroupMembers groupId => exact ⟨congrArg (groupMembersOf groupId) members, same⟩
                | getGroup groupId => exact ⟨congrArg (·.find (cstr groupId)) groups, same⟩
                | upsertGroupUpdate | markGroupUpdateAccepted => exact ⟨rfl, same⟩
                | _ => cases permitted
            | _ => exact ⟨rfl, same⟩
  case stable_same =>
    intro drawn operation store other steady based
    cases operation with
    | inr statement => cases steady
    | inl operation =>
        cases operation with
        | inr request => cases steady
        | inl operation =>
            cases operation with
            | call call =>
                cases call with
                | getClient clientId =>
                    rw [enact_local, enact_local]
                    exact congrArg (·.find (cstr clientId)) based
                | _ => cases steady
            | _ => rfl
  case stable_kept =>
    intro drawn operation store steady
    cases operation with
    | inr statement => cases steady
    | inl operation =>
        cases operation with
        | inr request => rfl
        | inl operation =>
            rw [enact_local]
            cases operation with
            | call call => cases call <;> first | rfl | cases steady
            | _ => rfl
  case quiet_kept =>
    intro drawn operation store permitted silent
    cases operation with
    | inr statement => cases silent
    | inl operation =>
        cases operation with
        | inr request => rfl
        | inl operation =>
            rw [enact_local]
            cases operation with
            | call call => cases call <;> first | rfl | cases permitted
            | _ => rfl

/-! Every handler reads before it writes. -/

theorem opens_perform {Value : Type} {operation : LocalOp} {rest : operation.Res → Proc Value}
    (early : preliminary (.inl operation) = true)
    (later : ∀ answer, Opens settled reads ((rest answer).translate statements)) :
    Opens settled reads ((perform operation >>= rest).translate statements) := by
  cases operation with
  | call call =>
      cases call with
      | getClient clientId => exact .inr ⟨rfl, later⟩
      | _ => cases early
  | time => exact .inr ⟨rfl, later⟩
  | _ => cases early

theorem opens_authed (sodium : Sodium) (req : HttpRequest) (refused : Response)
    {rest : Proc Response} (later : Opens settled reads (rest.translate statements)) :
    Opens settled reads ((do if !(← isAuthed sodium req) then return refused
                             rest).translate statements) := by
  unfold isAuthed authenticate
  split
  · trivial
  · rw [Program.bind_assoc]
    apply opens_perform rfl
    intro found
    cases found with
    | none => trivial
    | some info =>
        simp only [Program.pure_eq, Program.ret_bind]
        split
        · trivial
        · exact later

theorem handler_opens (sodium : Sodium) (keys : KeyPair) (group : PathId) (route : Route) :
    Opens settled reads (handler sodium keys group route) := by
  unfold handler
  cases route with
  | addMember req =>
      apply opens_authed
      split
      · split
        · split
          · trivial
          · split
            · split
              · exact .inl rfl
              · trivial
            · trivial
        · trivial
      · trivial
  | removeMember req =>
      apply opens_authed
      split
      · split
        · split
          · trivial
          · split
            · exact .inl rfl
            · trivial
        · trivial
      · trivial

theorem program_edits (sodium : Sodium) (keys : KeyPair) (group : PathId) (route : Route) :
    (route.program sodium keys group).Only editsMembers := by
  cases route with
  | addMember req => exact addMember_edits sodium keys req group
  | removeMember req => exact removeMember_edits sodium keys req group

theorem handler_performed (sodium : Sodium) (keys : KeyPair) (group : PathId) (route : Route) :
    (handler sodium keys group route).Only performed := by
  apply Program.only_translate (program_edits sodium keys group route)
  intro operation permitted
  cases operation with
  | inr request => exact ⟨permitted, fun _ => trivial⟩
  | inl operation =>
      cases operation with
      | call call =>
          cases call with
          | replaceGroupMembers groupId members =>
              refine ⟨rfl, fun (deleted : Bool) => ?_⟩
              cases deleted with
              | false => trivial
              | true =>
                  apply Program.only_foldlM
                  intro allOk m
                  exact ⟨rfl, fun _ => trivial⟩
          | deleteGroup groupId => exact ⟨rfl, fun _ => ⟨rfl, fun _ => trivial⟩⟩
          | _ => exact ⟨permitted, fun _ => trivial⟩
      | _ => exact ⟨permitted, fun _ => trivial⟩

section Serial
variable {sodium : Sodium} {keys : KeyPair} {group : PathId} {Index : Type}
  {routes : Index → Route} {store after : Store}

/-- A series of handlers, statement by statement, is one of whole calls. -/
theorem serially_of_serial {order : List Index}
    (serial : Serial (Program.Answers enact) (fun index => handler sodium keys group (routes index))
      store order after) :
    Serially sodium keys group store (order.map routes) after := by
  induction serial with
  | nil => exact .nil
  | @snoc order middle index value after before run ih =>
      obtain ⟨drawn, ran⟩ := Program.runs_play (statementwise.mp run)
      have same : ∀ (program : Proc Response) (drawn : Nat → Input × Option Response) store,
          program.play callAct drawn store =
            play program (fun index => ⟨(drawn index).1, .none, (drawn index).2⟩) store := by
        intro program
        induction program with
        | ret value => exact fun _ _ => rfl
        | op operation next ih => exact fun drawn store => ih _ _ _
      rw [same] at ran
      have last := ih.snoc (routes index)
        (fun index => ⟨(drawn index).1, .none, (drawn index).2⟩) fun _ => rfl
      rw [ran] at last
      rw [List.map_append]
      exact last

theorem act_clients (drawn : Drawn) (operation : nodeSig.Op)
    (permitted : editsMembers operation = true) :
    (act drawn operation store).2.clients = store.clients := by
  cases operation with
  | inr request => rfl
  | inl operation =>
      cases operation with
      | call call =>
          cases call with
          | getClient | getGroup | upsertGroupUpdate | markGroupUpdateAccepted =>
              unfold act attempt
              dsimp only
              split <;> rfl
          | replaceGroupMembers =>
              unfold act attempt
              dsimp only
              split <;> rfl
          | getGroupMembers | deleteGroup => rfl
          | _ => cases permitted
      | _ => rfl

theorem play_clients (route : Route) (drawn : Nat → Drawn) :
    (play (route.program sodium keys group) drawn store).2.clients = store.clients := by
  have edits := program_edits sodium keys group route
  revert edits
  generalize route.program sodium keys group = program
  intro edits
  induction program generalizing drawn store with
  | ret value => rfl
  | op operation next ih =>
      exact (ih _ _ (edits.2 _)).trans (act_clients (drawn 0) operation edits.1)

/-! What an edit leaves while no SQLite call fails. -/

theorem survivors_none (statement : Nat) (members : List GroupMember) :
    survivors .none statement members = members :=
  (survivors_all ..).mpr fun _ _ => rfl

theorem isSome_view {id : Str} :
    (view group store id).isSome = true ↔ ∃ m ∈ listed group store, m.memberId = id := by
  constructor
  · intro there
    obtain ⟨row, found⟩ := Option.isSome_iff_exists.mp there
    exact ⟨row, view_listed found⟩
  · rintro ⟨m, member, rfl⟩
    rw [((mem_listed m).mp member).2]
    rfl

theorem isSome_entryFor {id : Str} {members : List GroupMember} :
    (entryFor group.text id members).isSome = true ↔ ∃ m ∈ members, cstr m.memberId = id := by
  constructor
  · intro there
    obtain ⟨row, found⟩ := Option.isSome_iff_exists.mp there
    obtain ⟨m, first, _⟩ := Option.map_eq_some_iff.mp found
    exact ⟨m, List.mem_of_find?_eq_some first, by simpa using List.find?_some first⟩
  · rintro ⟨m, member, rfl⟩
    obtain ⟨row, found⟩ : ∃ row, entryFor group.text (cstr m.memberId) members = some row :=
      entryFor_mem member
    rw [found]
    rfl

/-- Members of the list that is written back. -/
theorem extended_members {selfId memberId serverAddress id : Str} {selfAddress : Option Str}
    {addedAt : Int} :
    (∃ m ∈ extended group.text selfId memberId serverAddress selfAddress addedAt
        (listed group store), cstr m.memberId = id) ↔
      id = cstr memberId ∨ (view group store id).isSome = true := by
  -- Only the ids matter here, and a change of address keeps them.
  have ids : ∀ members : List GroupMember,
      members.map (·.memberId) = (listed group store).map (·.memberId) →
      ((∃ m ∈ members, cstr m.memberId = id) ↔ (view group store id).isSome = true) := by
    intro members same
    rw [isSome_view]
    constructor
    · rintro ⟨m, member, rfl⟩
      have there := List.mem_map_of_mem (f := (·.memberId)) member
      rw [same] at there
      obtain ⟨row, present, named⟩ := List.mem_map.mp there
      refine ⟨row, present, ?_⟩
      rw [← named, cstr_of_clean (listed_clean present).1]
    · rintro ⟨row, present, rfl⟩
      have there := List.mem_map_of_mem (f := (·.memberId)) present
      rw [← same] at there
      obtain ⟨m, member, named⟩ := List.mem_map.mp there
      refine ⟨m, member, ?_⟩
      rw [named, cstr_of_clean (listed_clean present).1]
  cases known : (listed group store).any (·.memberId = memberId) with
  | true =>
      obtain ⟨m, member, named⟩ := List.any_eq_true.mp known
      obtain rfl : m.memberId = memberId := of_decide_eq_true named
      rw [extended_known known,
        ids _ ((GroupMembership.setAddress_ids _).trans (withSelfAddress_ids ..))]
      constructor
      · exact Or.inr
      · rintro (rfl | there)
        · exact isSome_view.mpr ⟨m, member, (cstr_of_clean (listed_clean member).1).symm⟩
        · exact there
  | false =>
      rw [extended_new known]
      simp only [List.mem_append, List.mem_singleton, or_and_right, exists_or, exists_eq_left,
        ids _ (withSelfAddress_ids ..)]
      rw [or_comm]
      exact or_congr_left eq_comm

variable {drawn : Nat → Drawn} {route : Route}

/-- Whether a member is there after an edit. -/
def Present (id : Str) (before : Prop) : Edit → Prop
  | .add memberId _ _ => id = cstr memberId ∨ before
  | .remove memberId => id ≠ memberId ∧ before

variable (keys group) in
theorem present_after (works : ∀ index, (drawn index).codes = .none)
    (admits : Admits sodium .none store route.req) {edit : Edit} (asked : route.edit = some edit)
    (id : Str) :
    (view group (play (route.program sodium keys group) drawn store).2 id).isSome = true ↔
      Present id ((view group store id).isSome = true) edit := by
  have read : ∀ members : List GroupMember, Codes.none.read members = members := readRows_none
  cases route with
  | addMember req =>
      obtain ⟨memberId, serverAddress, selfAddress, rfl⟩ := add_route asked
      rw [add_after works asked admits, if_neg nofun, rewritten, survivors_none, isSome_entryFor,
        read]
      exact extended_members
  | removeMember req =>
      obtain ⟨memberId, rfl⟩ := remove_route asked
      rw [remove_after works asked admits, read]
      split
      · rw [if_neg nofun, survivors_none, entryFor_filter fun m member => (listed_clean member).1,
          entryFor_listed]
        by_cases same : id = memberId <;> simp [Present, same]
      · next unknown =>
        constructor
        · intro there
          refine ⟨?_, there⟩
          rintro rfl
          obtain ⟨m, member, named⟩ := isSome_view.mp there
          exact unknown (List.any_eq_true.mpr ⟨m, member, by simp [named]⟩)
        · exact And.right

/-- Unless another request undoes it, an edit shows. -/
def Lasts (among : Route → Prop) (after : View) : Edit → Prop
  | .add memberId _ _ =>
      (∀ other gone, among other → other.edit = some (.remove gone) → gone ≠ cstr memberId) →
        (after (cstr memberId)).isSome = true
  | .remove memberId =>
      (∀ other added address own, among other → other.edit = some (.add added address own) →
        cstr added ≠ memberId) → ¬(after memberId).isSome = true

/-- The last request's edit shows, and what was there stays. -/
theorem lasts_after (works : ∀ index, (drawn index).codes = .none)
    (admits : Admits sodium .none store route.req) {edit : Edit} (asked : route.edit = some edit)
    (among : Route → Prop) :
    Lasts among (view group (play (route.program sodium keys group) drawn store).2) edit := by
  have present := present_after keys group works admits asked
  cases edit with
  | add memberId serverAddress selfAddress => exact fun _ => (present _).mpr (.inl rfl)
  | remove memberId => exact fun _ there => ((present _).mp there).1 rfl

theorem lasts_kept (works : ∀ index, (drawn index).codes = .none) {edit : Edit}
    {among wider : Route → Prop} (wide : ∀ other, among other → wider other) (last : wider route)
    (lasts : Lasts among (view group store) edit) :
    Lasts wider (view group (play (route.program sodium keys group) drawn store).2) edit := by
  by_cases idle : route.edit = none ∨ ¬Admits sodium (drawn 0).codes store route.req
  · rw [idle_play idle]
    cases edit with
    | add memberId serverAddress selfAddress =>
        exact fun undone => lasts fun other gone member => undone other gone (wide other member)
    | remove memberId =>
        exact fun undone => lasts fun other added address own member =>
          undone other added address own (wide other member)
  · obtain ⟨describes, admits⟩ := not_or.mp idle
    obtain ⟨own, asked⟩ := Option.ne_none_iff_exists'.mp describes
    have admits := not_not.mp admits
    rw [works] at admits
    -- What this route's own edit does to the member decides what lasts.
    have present := present_after keys group works admits asked
    cases edit with
    | add memberId serverAddress selfAddress =>
        intro undone
        have there := lasts fun other gone member => undone other gone (wide other member)
        apply (present _).mpr
        cases own with
        | add => exact .inr there
        | remove gone => exact ⟨(undone route gone last asked).symm, there⟩
    | remove memberId =>
        intro undone there
        apply lasts fun other added address own member =>
          undone other added address own (wide other member)
        have before := (present _).mp there
        cases own with
        | add added address self =>
            exact before.resolve_left fun same => undone route added address self last asked same.symm
        | remove => exact before.2

theorem serially_lasts {order : List Route}
    (serially : Serially sodium keys group store order after) :
    after.clients = store.clients ∧
      ∀ route ∈ order, Admits sodium .none store route.req → ∀ edit, route.edit = some edit →
        Lasts (· ∈ order) (view group after) edit := by
  induction serially with
  | nil => exact ⟨rfl, nofun⟩
  | snoc before last drawn works ih =>
      obtain ⟨same, shown⟩ := ih
      refine ⟨(play_clients last drawn).trans same, ?_⟩
      intro route member admits edit asked
      rcases List.mem_append.mp member with earlier | final
      · exact lasts_kept works (fun other => List.mem_append_left _) (by simp)
          (shown route earlier admits edit asked)
      · obtain rfl := List.mem_singleton.mp final
        apply lasts_after works _ asked
        unfold Admits at admits ⊢
        rw [same]
        exact admits

/-- Edits that read the list only while no other edit has it in hand are handled as if one
after the other, and none is lost or undone. -/
theorem edits_serialise [Fintype Index] [DecidableEq Index] (sodium : Sodium) (keys : KeyPair)
    (group : PathId) (routes : Index → Route) (store : Store) (pool : Pool Index)
    (run : Reachable enact Alone
      (begin (fun index => handler sodium keys group (routes index)) store) pool)
    (finished : pool.Finished) :
    ∃ order : List Index, order.Nodup ∧ (∀ index, index ∈ order) ∧
      (∃ after, Serially sodium keys group store (order.map routes) after ∧
        after.groupMembers = pool.state.groupMembers) ∧
      ∀ index, Admits sodium .none store (routes index).req →
        ∀ edit, (routes index).edit = some edit →
          Lasts (· ∈ Set.range routes) (view group pool.state) edit := by
  obtain ⟨order, after, distinct, complete, serial, same⟩ := serialises sections
    (fun index => handler_performed sodium keys group (routes index))
    (fun index => handler_opens sodium keys group (routes index)) run finished
  have serially := serially_of_serial serial
  have tables : after.groupMembers = pool.state.groupMembers := congrArg Prod.snd same
  refine ⟨order, distinct, complete, ⟨after, serially, tables⟩, ?_⟩
  intro index admits edit asked
  have shown := (serially_lasts serially).2 (routes index)
    (List.mem_map_of_mem (complete index)) admits edit asked
  have range : (· ∈ order.map routes) = (· ∈ Set.range routes) := by
    funext route
    simp [complete]
  have views : view group after = view group pool.state := by
    unfold view
    rw [tables]
  rwa [range, views] at shown

end Serial

/-! Two additions to one group. -/

def addition (memberId : String) : Route :=
  .addMember ⟨str "c", str "x", some (.obj [("member_id", .str (str memberId)),
    ("server_address", .str (str memberId))])⟩

def additions (index : Fin 2) : Route := if index = 0 then addition "d" else addition "e"

def opening : Pool (Fin 2) :=
  begin (fun index => handler .transparent (.filled 1) staff (additions index)) staffed

/-- Each takes as many steps as given. -/
def turns (steps : List (Fin 2 × Nat)) : List (Fin 2 × (Input × Option Response)) :=
  steps.flatMap fun (index, count) => List.replicate count (index, (Network.clockAt 5, none))

def reading : Program statementSig Response → Bool
  | .op operation _ => reads operation
  | .ret _ => false

/-- Who reads the list next finds that nobody else has read it without having finished. -/
def alone (pool : Pool (Fin 2)) (index : Fin 2) : Bool :=
  !reading (pool.threads index).program || (List.finRange 2).all fun other =>
    decide (other = index) || (pool.threads other).program.finished ||
      !(pool.threads other).history.any (reads ·.1)

theorem alone_exclusive (pool : Pool (Fin 2)) (index : Fin 2) (allowed : alone pool index = true) :
    Alone pool index := by
  intro operation next here opens other different entered
  have turns : reading (pool.threads index).program = true := by rwa [here]
  rw [alone, turns, Bool.not_true, Bool.false_or] at allowed
  have checked := List.all_eq_true.mp allowed other (List.mem_finRange other)
  simp only [Bool.or_eq_true, decide_eq_true_eq, Bool.not_eq_eq_eq_not, Bool.not_true] at checked
  rcases checked with (same | finished) | unread
  · exact absurd same different
  · cases ended : (pool.threads other).program with
    | op => simp [ended, Program.finished] at finished
    | ret value => trivial
  · have read := List.any_eq_true.mpr entered
    rw [unread] at read
    cases read

/-- A pool whose threads are done, as a decision. -/
def bothDone (pool : Pool (Fin 2)) : Bool :=
  (List.finRange 2).all fun index => (pool.threads index).program.finished

theorem bothDone_finished {pool : Pool (Fin 2)} (done : bothDone pool = true) : pool.Finished :=
  fun index => List.all_eq_true.mp done index (List.mem_finRange index)

/-- The second request is checked while the first one has the list in hand. -/
theorem additions_serialise : ∃ pool, bothDone pool = true ∧
    ∃ order : List (Fin 2), order.Nodup ∧ (∀ index, index ∈ order) ∧
      (∃ after, Serially .transparent (.filled 1) staff staffed (order.map additions) after ∧
        after.groupMembers = pool.state.groupMembers) ∧
      ∀ index, Admits .transparent .none staffed (additions index).req →
        ∀ edit, (additions index).edit = some edit →
          Lasts (· ∈ Set.range additions) (view staff pool.state) edit := by
  have runs : ((run enact alone (turns [(0, 4), (1, 1), (0, 11), (1, 17)]) opening).any bothDone) = true := by
    decide +kernel
  obtain ⟨pool, scheduled, done⟩ := (Option.any_eq_true _ _).mp runs
  exact ⟨pool, done, edits_serialise .transparent (.filled 1) staff additions staffed pool
    (run_reachable (fun pool index _ => alone_exclusive pool index) _ .start scheduled) (bothDone_finished done)⟩

/-- Both have read the list before either writes it, and the second one writes it without the
member the first one added. -/
theorem addition_lost : ∃ pool : Pool (Fin 2),
    Reachable enact (fun _ _ => True) opening pool ∧ pool.Finished ∧
      ¬∃ order : List (Fin 2), order.Nodup ∧ (∀ index, index ∈ order) ∧
        ∃ after, Serially .transparent (.filled 1) staff staffed (order.map additions) after ∧
          after.groupMembers = pool.state.groupMembers := by
  have runs : ((run enact (fun _ _ => true) (turns [(0, 2), (1, 2), (0, 13), (1, 13)])
      opening).any fun pool => bothDone pool && (view staff pool.state (str "d")).isNone) = true := by
    decide +kernel
  obtain ⟨pool, scheduled, done⟩ := (Option.any_eq_true _ _).mp runs
  simp only [Bool.and_eq_true, Option.isNone_iff_eq_none] at done
  refine ⟨pool, run_reachable (fun _ _ _ _ => trivial) _ .start scheduled, bothDone_finished done.1, ?_⟩
  rintro ⟨order, _, complete, after, serially, same⟩
  have shown := (serially_lasts serially).2 (additions 0) (List.mem_map_of_mem (complete 0))
    (by refine ⟨?_, rfl, ?_⟩ <;> decide +kernel) _ rfl
  have there := shown (by
    rintro other gone member asked
    obtain ⟨index, _, rfl⟩ := List.mem_map.mp member
    obtain ⟨added, address, own, same⟩ : ∃ added address own,
        (additions index).edit = some (.add added address own) := by
      fin_cases index <;> exact ⟨_, _, _, rfl⟩
    rw [asked] at same
    cases same)
  have views : view staff after = view staff pool.state := by
    unfold view
    rw [same]
  rw [views, show cstr (str "d") = str "d" by decide, done.2] at there
  cases there

end NoMiddle.SerialEdits
