import NoMiddle.DeviceViews

/-! Whether a node that has a device ever loses its last one, and whether it then lets anybody
in. A device may not remove itself, so the one that asks for a removal remains, unless it was
removed after its credentials were checked; and who registers is turned away, unless the node was
empty when he was looked at. -/
namespace NoMiddle.Locking
open Library Text Crypto DbManager Node Handlers GroupHandlers AuthHandlers Conduct
open Devices DeviceViews

variable (sodium : Sodium)

def Locked (state : World) : Prop := ∃ id, (state.stores ()).clients.has id = true

/-- The routes that give credentials to whoever asks. -/
def handsOut : Route → Bool
  | .register | .request _ => true
  | _ => false

/-- A thread of such a route has created the client. -/
def HandedOut (state : World) (index : Nat) (c : Client) : Prop :=
  ∃ thread route, state.threads[index]? = some thread ∧ handsOut route = true ∧
    Rpc.Thread.Continues (route.program sodium) thread ∧
    Called thread.history (.createClient c) true

/-- The thread found the node empty, and somebody was quicker. -/
def Overtaken (state : World) (thread : Thread) : Prop :=
  Called thread.history .hasClients false ∧ Locked state

/-- No removal is asked for by a device that is gone, or whose id has a NUL, and nobody who
registers is overtaken. -/
structure Meets (state : World) (label : Action) : Prop where
  present : ∀ index input thread clientId next caller, label = .act index input →
    state.threads[index]? = some thread →
    thread.program = .op (.inl (.call (.deleteClient clientId))) next →
    Authed sodium thread.history caller →
    Clean caller ∧ (state.stores ()).clients.has caller = true
  first : ∀ index input thread c next, label = .act index input →
    state.threads[index]? = some thread →
    thread.program = .op (.inl (.call (.createClient c))) next → ¬Overtaken state thread

variable {sodium} {before after : World} {label : Action}

theorem not_locked_of_empty {state : World}
    (empty : (state.stores ()).clients.rows.isEmpty = true) : ¬Locked state := by
  rintro ⟨id, there⟩
  obtain ⟨row, found⟩ := ((state.stores ()).clients.has_iff id).mp there
  have member := (((state.stores ()).clients.find_eq_some id row).mp found).1
  rw [List.isEmpty_iff.mp empty] at member
  cases member

theorem locked_step (orderly : Orderly sodium before) (meets : Meets sodium before label)
    (step : Rpc.Step (system sodium) label before after) (locked : Locked before) :
    Locked after := by
  obtain ⟨id, there⟩ := locked
  rcases call_step step with
    ⟨same, _⟩ | ⟨index, input, thread, call, next, acts, current, here, changed, _⟩
  · exact ⟨id, by rw [Table.has, same]; exact there⟩
  cases call with
  | deleteClient clientId =>
      obtain ⟨_, clean, caller, authed, other⟩ := orderly.allowed current here
      obtain ⟨callerClean, stays⟩ :=
        meets.present index input thread clientId next caller acts current here authed
      refine ⟨caller, ?_⟩
      have missed : cstr clientId ≠ caller := by
        rw [cstr_of_clean clean]
        exact other.symm
      rw [Table.has, changed]
      simp only [onClient, missed, ↓reduceIte]
      exact stays
  | createClient c =>
      obtain ⟨row, found⟩ := ((before.stores ()).clients.has_iff id).mp there
      exact ⟨id, by rw [Table.has, changed, found]; rfl⟩
  | _ => exact ⟨id, by rw [Table.has, changed]; exact there⟩

/-! Which route a thread runs shows in what it did first. -/

def opens : nodeSig.Op → Bool
  | .inl (.call .hasClients) | .inl .time => true
  | _ => false

theorem guarded_oldest {req : HttpRequest} {refused : Response} {rest left : Proc Response}
    {history : Trace}
    (past : (do if !(← isAuthed sodium req) then return refused
                rest : Proc Response).Past history left) (started : history ≠ []) :
    ∃ later event, history = later ++ [event] ∧ opens event.1 = false := by
  unfold isAuthed authenticate at past
  split at past
  · exact absurd past.finished started
  · obtain ⟨later, answer, same⟩ := Program.Past.oldest past started
    exact ⟨later, _, same, rfl⟩

theorem route_oldest {route : Route} {left : Proc Response} {history : Trace}
    (past : (route.program sodium).Past history left) (started : history ≠ []) :
    ∃ later event, history = later ++ [event] ∧ opens event.1 = handsOut route := by
  cases route with
  | register =>
      obtain ⟨later, answer, same⟩ := Program.Past.oldest past started
      exact ⟨later, _, same, rfl⟩
  | request req =>
      change (authRequest sodium req).Past history left at past
      unfold authRequest at past
      split at past
      · obtain ⟨later, answer, same⟩ := Program.Past.oldest past started
        exact ⟨later, _, same, rfl⟩
      · exact absurd past.finished started
  | poll requestId =>
      cases requestId with
      | none => exact absurd (Program.Past.finished past) started
      | some requestId =>
          obtain ⟨later, answer, same⟩ := Program.Past.oldest past started
          exact ⟨later, _, same, rfl⟩
  | approve req | clients req | delete req clientId => exact guarded_oldest past started

theorem same_kind {route other : Route} {left rest : Proc Response} {history : Trace}
    (past : (route.program sodium).Past history left)
    (also : (other.program sodium).Past history rest) (started : history ≠ []) :
    handsOut route = handsOut other := by
  obtain ⟨later, event, same, kind⟩ := route_oldest past started
  obtain ⟨_, _, again, another⟩ := route_oldest also started
  rw [same] at again
  obtain ⟨_, last⟩ := List.append_inj' again rfl
  cases last
  exact kind.symm.trans another

/-- A client is created only after the node was found empty. -/
def checking : Discipline nodeSig where
  possible := Devices.Possible
  allowed history operation :=
    match operation with
    | .inl (.call (.createClient _)) => Called history .hasClients false
    | _ => True

theorem newClient_checking {deviceName : Str} {now : Int} {history : Trace}
    (unlocked : Called history .hasClients false) {rest : Str × Str × Bool → Proc Response}
    (later : ∀ answer after, (rest answer).wp checking.contract (fun _ _ => True) after) :
    (newClient sodium deviceName now >>= rest).wp checking.contract (fun _ _ => True) history := by
  refine wp_perform trivial fun _ _ => wp_perform trivial fun _ _ => wp_perform trivial fun _ _ => ?_
  refine wp_perform ?_ fun created _ => later _ _
  exact List.mem_cons_of_mem _ (List.mem_cons_of_mem _ (List.mem_cons_of_mem _ unlocked))

theorem handsOut_checking {route : Route} (hands : handsOut route = true) :
    (route.program sodium).wp checking.contract (fun _ _ => True) [] := by
  cases route with
  | register =>
      refine wp_perform trivial fun (locked : Bool) _ => ?_
      cases locked with
      | true => trivial
      | false =>
          refine wp_perform trivial fun now _ => newClient_checking ?_ fun answer _ => ?_
          · exact List.mem_cons_of_mem _ List.mem_cons_self
          · obtain ⟨clientId, secret, created⟩ := answer
            cases created <;> trivial
  | request req =>
      change (authRequest sodium req).wp _ _ _
      unfold authRequest
      split
      · refine wp_perform trivial fun now _ => wp_perform trivial fun (locked : Bool) _ => ?_
        cases locked with
        | true =>
            refine wp_perform trivial fun _ _ => wp_perform trivial fun (added : Bool) _ => ?_
            cases added with
            | false => trivial
            | true => exact ⟨trivial, fun _ _ => trivial⟩
        | false =>
            refine newClient_checking List.mem_cons_self fun answer _ => ?_
            obtain ⟨clientId, secret, created⟩ := answer
            cases created <;> trivial
      · trivial
  | _ => cases hands

def Coursed (sodium : Sodium) (state : World) : Prop :=
  ∀ thread ∈ state.threads, ∃ route : Route, Rpc.Thread.Continues (route.program sodium) thread

theorem coursed_run {condition : World → Action → Prop} {stores : Unit → Store} {state : World}
    (run : Rpc.Reachable (system sodium) condition ⟨stores, [], []⟩ state) :
    Coursed sodium state := by
  have reached := run.invariant
    (fun state => Rpc.Linked state ∧ Rpc.Reached (system sodium) state)
    ⟨⟨fun _ none => absurd none List.not_mem_nil, fun _ none => absurd none List.not_mem_nil⟩,
      ⟨fun _ none => absurd none List.not_mem_nil, fun _ _ _ none => by simp at none,
        fun _ none => absurd none List.not_mem_nil⟩⟩
    fun _ _ _ held _ step =>
      ⟨Rpc.linked_step step held.1, Rpc.reached_step (fun _ => rfl) step held.1 held.2⟩
  intro thread member
  -- No request leads to this node, so every thread was started.
  have own : thread.origin = none := by
    cases serves : thread.origin with
    | none => rfl
    | some origin => cases reached.2.origin thread member origin.1 origin.2 serves
  obtain ⟨route, _, continues⟩ :=
    Rpc.course_run (fun _ _ => True) (fun _ _ _ _ => trivial) run member own
  exact ⟨route, continues⟩

/-- A locked node hands out nothing more. -/
theorem handedOut_step (orderly : Orderly sodium before) (coursed : Coursed sodium before)
    (meets : Meets sodium before label) (step : Rpc.Step (system sodium) label before after)
    (locked : Locked before) {index : Nat} {c : Client} (given : HandedOut sodium after index c) :
    HandedOut sodium before index c := by
  obtain ⟨thread, route, present, hands, continues, created⟩ := given
  -- What a thread did before this step it did as a thread of the same kind of route.
  have earlier : ∀ {old : Thread} {operation : nodeSig.Op}
      {next : nodeSig.Res operation → Proc Response} {answer : nodeSig.Res operation},
      before.threads[index]? = some old → old.program = .op operation next →
      thread = old.resume operation next answer →
      ∃ own, handsOut own = true ∧ Rpc.Thread.Continues (own.program sodium) old := by
    intro old operation next answer current here resumed
    subst resumed
    obtain ⟨own, going⟩ := coursed old (List.mem_of_getElem? current)
    have kind := same_kind continues (Rpc.continues_resume going here answer) (List.cons_ne_nil _ _)
    exact ⟨own, kind.symm.trans hands, going⟩
  cases Rpc.thread_step step present with
  | @still old current _ _ program history _ =>
      refine ⟨old, route, current, hands, ?_, history ▸ created⟩
      unfold Rpc.Thread.Continues at continues ⊢
      rwa [program, history]
  | @acted old operation next input acts current here resumed =>
      obtain ⟨own, handsOwn, going⟩ := earlier current here resumed
      subst resumed
      rcases List.mem_cons.mp created with now | past
      · generalize ((system sodium).handle old.node input operation
          (before.stores old.node)).1 = answer at now
        cases now
        -- The route looked for clients before and found none, so it has been overtaken.
        have followed := going.followed (handsOut_checking handsOwn) fun event past =>
          (orderly.followed old (List.mem_of_getElem? current)).possible past
        rw [here] at followed
        exact absurd ⟨followed.2.1, locked⟩ (meets.first index input old c next acts current here)
      · exact ⟨old, own, current, handsOwn, going, past⟩
  | @answered old request next answer _ current here resumed =>
      obtain ⟨own, handsOwn, going⟩ := earlier current here resumed
      subst resumed
      rcases List.mem_cons.mp created with now | past
      · cases now
      · exact ⟨old, own, current, handsOwn, going, past⟩
  | started _ _ _ fresh | served _ _ _ _ _ _ fresh =>
      subst fresh
      cases created

/-- In a run in which every route's check still holds when it acts, a node with a device keeps
one, and no registration and no request for access gets credentials from it any more. -/
theorem stays_locked (stores : Unit → Store) {state later : World}
    (run : Rpc.Reachable (system sodium) (Meets sodium) ⟨stores, [], []⟩ state)
    (locked : Locked state)
    (rest : Rpc.Reachable (system sodium) (Meets sodium) state later) :
    Locked later ∧ ∀ index c, HandedOut sodium later index c → HandedOut sodium state index c := by
  have known : ∀ {world : World},
      Rpc.Reachable (system sodium) (Meets sodium) ⟨stores, [], []⟩ world →
      Orderly sodium world ∧ Coursed sodium world := fun run =>
    ⟨run.invariant (Orderly sodium) (orderly_idle stores)
      fun _ _ _ orderly _ step => orderly_step step orderly, coursed_run run⟩
  induction rest with
  | start => exact ⟨locked, fun _ _ given => given⟩
  | step before meets step ih =>
      obtain ⟨orderly, coursed⟩ := known (run.trans before)
      constructor
      · exact locked_step orderly meets step ih.1
      · intro index c given
        exact ih.2 index c (handedOut_step orderly coursed meets step ih.1 given)

section Runs

def pathOf (byte : UInt8) : PathId where
  text := idOf byte
  nonempty := b64urlEncode_ne_nil (by simp)
  clean := b64urlEncode_clean _

/-- The client a history created that began as a route does which hands out. -/
def given (history : Trace) : Option Client :=
  if (history.getLast?.map fun event => opens event.1) = some true then
    history.findSome? fun event =>
      match event with
      | ⟨.inl (.call (.createClient c)), created⟩ => if created then some c else none
      | _ => none
  else none

theorem handedOut_of_given {state : World} (coursed : Coursed sodium state) {index : Nat}
    {thread : Thread} (present : state.threads[index]? = some thread) {c : Client}
    (made : given thread.history = some c) : HandedOut sodium state index c := by
  obtain ⟨route, continues⟩ := coursed thread (List.mem_of_getElem? present)
  unfold given at made
  split at made
  · next opening =>
    obtain ⟨creating, member, same⟩ := List.exists_of_findSome?_eq_some made
    obtain ⟨later, event, past, kind⟩ := route_oldest continues (List.ne_nil_of_mem member)
    refine ⟨thread, route, present, ?_, continues, ?_⟩
    · rw [← kind]
      simpa [past] using opening
    · split at same
      · next other created =>
        cases created with
        | true =>
            cases same
            exact member
        | false => cases same
      · cases same
  · cases made

/-- A check that implies the condition. -/
def checked (state : World) : Action → Bool
  | .act index _ =>
      match state.threads[index]? with
      | some thread =>
          match thread.program with
          | .op (.inl (.call (.deleteClient _))) _ =>
              thread.history.all fun event =>
                match event with
                | ⟨.inl (.call (.getClient caller)), _⟩ =>
                    decide (Clean caller) && (state.stores ()).clients.has caller
                | _ => true
          | .op (.inl (.call (.createClient _))) _ =>
              (state.stores ()).clients.rows.isEmpty || thread.history.all fun event =>
                match event with
                | ⟨.inl (.call .hasClients), locked⟩ => (locked : Bool)
                | _ => true
          | _ => true
      | none => true
  | _ => true

theorem meets_of_checked (state : World) (label : Action) (passes : checked state label = true) :
    Meets sodium state label := by
  constructor
  case present =>
    intro index input thread clientId next caller acts current here authed
    subst acts
    obtain ⟨_, _, read, _⟩ := authed.shown
    simp only [checked, current, here] at passes
    simpa using List.all_eq_true.mp passes _ read
  case first =>
    rintro index input thread c next acts current here ⟨unlocked, locked⟩
    subst acts
    simp only [checked, current, here, Bool.or_eq_true] at passes
    rcases passes with empty | turned
    · exact not_locked_of_empty empty locked
    · cases List.all_eq_true.mp turned _ unlocked

/-- Then the first device removes the other, and somebody registers meanwhile. -/
def removal : List Action :=
  [.start () (.delete (fromDevice 1 none) (pathOf 2)), .start () .register] ++
  acts 3 1 (drawing 6 0) ++ acts 4 1 (drawing 6 3) ++ acts 3 1 (drawing 7 0)

theorem removal_locked : ∃ (state later : World) (c : Client), HandedOut .transparent state 0 c ∧
    (state.stores ()).clients.has (idOf 2) = true ∧
    (later.stores ()).clients.has (idOf 2) = false ∧ later.threads.length = 5 ∧
    Locked later ∧ ∀ c, ¬HandedOut .transparent later 4 c := by
  have ran : (Rpc.run (system .transparent) checked admission
      ⟨fun _ => Store.initial, [], []⟩).bind (fun state =>
        (Rpc.run (system .transparent) checked removal state).bind fun later =>
          (state.threads[0]?).bind fun thread => (given thread.history).map fun _ =>
            ((state.stores ()).clients.has (idOf 2), (later.stores ()).clients.has (idOf 2),
              state.threads.length, later.threads.length)) = some (true, false, 3, 5) := by
    decide +kernel
  obtain ⟨state, scheduled, rest⟩ := Option.bind_eq_some_iff.mp ran
  obtain ⟨later, continued, rest⟩ := Option.bind_eq_some_iff.mp rest
  obtain ⟨thread, present, rest⟩ := Option.bind_eq_some_iff.mp rest
  obtain ⟨c, made, facts⟩ := Option.map_eq_some_iff.mp rest
  simp only [Prod.mk.injEq] at facts
  obtain ⟨there, gone, three, five⟩ := facts
  have run : Rpc.Reachable (system .transparent) (Meets .transparent)
      ⟨fun _ => Store.initial, [], []⟩ state := Rpc.run_reachable meets_of_checked admission scheduled
  obtain ⟨stays, before⟩ := stays_locked (fun _ => Store.initial) run ⟨idOf 2, there⟩
    (Rpc.run_reachable meets_of_checked removal continued)
  refine ⟨state, later, c, handedOut_of_given (coursed_run run) present made, there, gone, five,
    stays, fun c given => ?_⟩
  obtain ⟨_, _, early, _⟩ := before 4 c given
  have inside := (List.getElem?_eq_some_iff.mp early).1
  rw [three] at inside
  exact absurd inside (by decide)

def paired : Store :=
  { Store.initial with
    clients := createClient ⟨idOf 2, [], [], hashSecret .transparent (secretOf 2) [], 0⟩
      (createClient ⟨idOf 1, [], [], hashSecret .transparent (secretOf 1) [], 0⟩ .empty) }

/-- Each device removes the other, both before either is gone. -/
def duel : List Action :=
  [.start () (.delete (fromDevice 1 none) (pathOf 2)),
    .start () (.delete (fromDevice 2 none) (pathOf 1))] ++
  acts 0 1 (drawing 5 0) ++ acts 1 2 (drawing 5 0) ++ acts 0 1 (drawing 5 0)

def registration : List Action := [.start () .register] ++ acts 2 6 (drawing 6 3)

/-- Nobody is left, and the next to ask is let in. -/
theorem duel_unlocks : ∃ (state later : World) (c : Client),
    Locked ⟨fun _ => paired, [], []⟩ ∧
    Rpc.Reachable (system .transparent) (fun _ _ => True) ⟨fun _ => paired, [], []⟩ state ∧
    ¬Locked state ∧
    Rpc.Reachable (system .transparent) (fun _ _ => True) state later ∧
    HandedOut .transparent later 2 c ∧ ¬HandedOut .transparent state 2 c := by
  have ran : (Rpc.run (system .transparent) (fun _ _ => true) duel
      ⟨fun _ => paired, [], []⟩).bind (fun state =>
        (Rpc.run (system .transparent) (fun _ _ => true) registration state).bind fun later =>
          (later.threads[2]?).bind fun thread => (given thread.history).map fun c =>
            (c.clientId, (state.stores ()).clients.rows.isEmpty, state.threads.length)) =
      some (idOf 3, true, 2) := by
    decide +kernel
  obtain ⟨state, scheduled, rest⟩ := Option.bind_eq_some_iff.mp ran
  obtain ⟨later, continued, rest⟩ := Option.bind_eq_some_iff.mp rest
  obtain ⟨thread, present, rest⟩ := Option.bind_eq_some_iff.mp rest
  obtain ⟨c, made, facts⟩ := Option.map_eq_some_iff.mp rest
  simp only [Prod.mk.injEq] at facts
  obtain ⟨_, empty, two⟩ := facts
  have first : Rpc.Reachable (system .transparent) (fun _ _ => True) ⟨fun _ => paired, [], []⟩
      state := Rpc.run_reachable (fun _ _ _ => trivial) duel scheduled
  have second : Rpc.Reachable (system .transparent) (fun _ _ => True) state later :=
    Rpc.run_reachable (fun _ _ _ => trivial) registration continued
  have coursed := coursed_run (first.trans second)
  refine ⟨state, later, c, ⟨idOf 1, by decide +kernel⟩, first, not_locked_of_empty empty,
    second, handedOut_of_given coursed present made, ?_⟩
  · rintro ⟨_, _, early, _⟩
    have inside := (List.getElem?_eq_some_iff.mp early).1
    rw [two] at inside
    exact absurd inside (lt_irrefl 2)

end Runs
end NoMiddle.Locking
