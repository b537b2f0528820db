import NoMiddle.DeviceViews

/-! Who let a device in. The routes check and then act, so two of them may pass one
check. Where no route acts on a check that no longer holds, every device but one
was approved by another, and each for a request of its own. -/
namespace NoMiddle.Approval
open Library Text Crypto DbManager Node GroupHandlers Conduct Devices DeviceViews

variable (sodium : Sodium)

abbrev creation (c : Client) : Event nodeSig := ⟨.inl (.call (.createClient c)), true⟩

/-- The thread has created the client, after this much of its history. -/
def CreatedAfter (state : World) (index : Nat) (c : Client) (later earlier : Trace) : Prop :=
  ∃ thread, state.threads[index]? = some thread ∧ thread.history = later ++ creation c :: earlier

def Created (state : World) (index : Nat) (id : Str) : Prop :=
  ∃ c later earlier, CreatedAfter state index c later earlier ∧ cstr c.clientId = id

/-- The thread created a client because it had found none. -/
def Unasked (state : World) (index : Nat) : Prop :=
  ∃ c later earlier, CreatedAfter state index c later earlier ∧ Called earlier .hasClients false

/-- The thread created the client for a request which an authenticated caller had
found pending and not expired. -/
def CreatedFor (state : World) (index : Nat) (id requestId : Str) : Prop :=
  ∃ c later earlier named request, CreatedAfter state index c later earlier ∧
    cstr c.clientId = id ∧ Granting sodium earlier named request ∧ cstr named = requestId

/-- A request with this id was stored once. -/
def Used (state : World) (requestId : Str) : Prop :=
  ∃ thread ∈ state.threads, ∃ named deviceName createdAt expiresAt,
    Called thread.history (.addAuthRequest named deviceName createdAt expiresAt) true ∧
    cstr named = requestId

/-- No client is deleted, no two requests draw one id, and what a route checked
still holds when it creates its client. -/
structure Meets (state : World) (label : Action) : Prop where
  permanent : ∀ index input thread clientId next, label = .act index input →
    state.threads[index]? = some thread →
    thread.program ≠ .op (.inl (.call (.deleteClient clientId))) next
  first : ∀ index input thread c next, label = .act index input →
    state.threads[index]? = some thread →
    thread.program = .op (.inl (.call (.createClient c))) next →
    Called thread.history .hasClients false → ∀ id, (state.stores ()).clients.find id = none
  standing : ∀ index input thread c next named request, label = .act index input →
    state.threads[index]? = some thread →
    thread.program = .op (.inl (.call (.createClient c))) next →
    Granting sodium thread.history named request →
    (∃ now, (state.stores ()).authRequests.find (cstr named) = some now ∧
      now.approvedClientId = []) ∧
    ∀ other ∈ state.threads, ∀ another, Entering sodium other.history another →
      cstr another ≠ cstr named
  fresh : ∀ index input thread named deviceName createdAt expiresAt next,
    label = .act index input → state.threads[index]? = some thread →
    thread.program =
      .op (.inl (.call (.addAuthRequest named deviceName createdAt expiresAt))) next →
    ¬Used state (cstr named)

/-- Every device but the first was approved, each for another request. -/
structure Individually (state : World) : Prop where
  approved : (∀ id, (state.stores ()).clients.find id = none) ∨
    ∃ first, (state.stores ()).clients.has first = true ∧
      ∀ id, (state.stores ()).clients.has id = true → id ≠ first →
        ∃ index requestId, CreatedFor sodium state index id requestId
  distinct : ∀ left right requestId, (state.stores ()).clients.has left = true →
    (state.stores ()).clients.has right = true →
    (∃ index, CreatedFor sodium state index left requestId) →
    (∃ index, CreatedFor sodium state index right requestId) → left = right

/-- A client made for a request is still to be entered there, or the request is gone
or has been entered. -/
def Concluded (state : World) (requestId : Str) (later : Trace) : Prop :=
  later = [] ∨ ∀ row, (state.stores ()).authRequests.find requestId = some row →
    row.approvedClientId ≠ []

/-- The invariant of every run that meets the condition. -/
structure Sound (state : World) : Prop where
  orderly : Orderly sodium state
  known : ∀ id, (state.stores ()).clients.has id = true → ∃ index, Created state index id
  kept : ∀ index id, Created state index id → (state.stores ()).clients.has id = true
  single : ∀ left right, Unasked state left → Unasked state right → left = right
  used : ∀ id, (state.stores ()).authRequests.has id = true → Used state id
  looked : ∀ thread ∈ state.threads, ∀ named row,
    Called thread.history (.getAuthRequest named) (some row) → Used state (cstr named)
  concluded : ∀ index c later earlier named request,
    CreatedAfter state index c later earlier → Granting sodium earlier named request →
    Concluded state (cstr named) later
  unique : ∀ left right idLeft idRight requestId, CreatedFor sodium state left idLeft requestId →
    CreatedFor sodium state right idRight requestId → left = right

variable {sodium} {before after : World} {label : Action}

theorem createdAfter_step (step : Rpc.Step (system sodium) label before after) {index : Nat}
    {c : Client} {later earlier : Trace} (created : CreatedAfter after index c later earlier) :
    (∃ rest, CreatedAfter before index c rest earlier ∧
      (rest = later ∨ ∃ latest, later = latest :: rest)) ∨
    ∃ input thread next, label = .act index input ∧ before.threads[index]? = some thread ∧
      thread.program = .op (.inl (.call (.createClient c))) next ∧ thread.history = earlier ∧
      later = [] ∧ (before.stores ()).clients.has (cstr c.clientId) = false := by
  obtain ⟨thread, present, split⟩ := created
  rcases Rpc.past_step step present split with
    ⟨old, rest, current, past, shape⟩ | ⟨input, old, next, acts, current, here, past, none, made⟩
  · exact .inl ⟨rest, ⟨old, current, past⟩, shape⟩
  · refine .inr ⟨input, old, next, acts, current, here, past, none, ?_⟩
    change true = !(before.stores ()).clients.has (cstr c.clientId) at made
    simpa using made.symm

theorem createdAfter_kept (step : Rpc.Step (system sodium) label before after) {index : Nat}
    {c : Client} {later earlier : Trace} (created : CreatedAfter before index c later earlier) :
    ∃ news, CreatedAfter after index c (news ++ later) earlier := by
  obtain ⟨thread, present, split⟩ := created
  obtain ⟨now, news, kept, _, history⟩ := Rpc.history_kept step present
  exact ⟨news, now, kept, by rw [history, split, List.append_assoc]⟩

theorem created_kept (step : Rpc.Step (system sodium) label before after) {index : Nat} {id : Str}
    (created : Created before index id) : Created after index id := by
  obtain ⟨c, later, earlier, made, key⟩ := created
  obtain ⟨news, kept⟩ := createdAfter_kept step made
  exact ⟨c, _, earlier, kept, key⟩

theorem used_kept (step : Rpc.Step (system sodium) label before after) {requestId : Str}
    (used : Used before requestId) : Used after requestId := by
  obtain ⟨thread, member, named, deviceName, createdAt, expiresAt, past, key⟩ := used
  obtain ⟨index, present⟩ := List.getElem?_of_mem member
  obtain ⟨now, kept, _, _, history⟩ := Rpc.thread_kept step present
  exact ⟨now, List.mem_of_getElem? kept, named, deviceName, createdAt, expiresAt, history _ past,
    key⟩

theorem acted_event (step : Rpc.Step (system sodium) label before after) {index : Nat}
    {input : Input} (acts : label = .act index input) {thread : Thread}
    (current : before.threads[index]? = some thread) {db : Call} {next : db.Res → Proc Response}
    (here : thread.program = .op (.inl (.call db)) next) :
    ∃ now, after.threads[index]? = some now ∧ now.history =
      ⟨.inl (.call db), (db.exec input.now (before.stores ())).1⟩ :: thread.history := by
  subst acts
  exact ⟨_, Rpc.acted_thread step current here, rfl⟩

theorem known_step (sound : Sound sodium before)
    (step : Rpc.Step (system sodium) label before after) {id : Str}
    (there : (after.stores ()).clients.has id = true) : ∃ index, Created after index id := by
  by_cases old : (before.stores ()).clients.has id = true
  · obtain ⟨index, made⟩ := sound.known id old
    exact ⟨index, created_kept step made⟩
  have absent : (before.stores ()).clients.find id = none := by
    simpa [Table.has] using old
  obtain ⟨row, found⟩ := ((after.stores ()).clients.has_iff id).mp there
  rcases call_step step with
    ⟨same, _⟩ | ⟨index, input, thread, call, next, acts, current, here, changed, _⟩
  · cases absent.symm.trans ((same id).symm.trans found)
  have now := (changed id).symm.trans found
  rw [absent] at now
  cases call with
  | createClient c =>
      by_cases key : cstr c.clientId = id
      · obtain ⟨later, present, history⟩ := acted_event step acts current here
        refine ⟨index, c, [], thread.history, ⟨later, present, ?_⟩, key⟩
        rw [history]
        simp [Call.exec, Table.has, key, absent]
      · simp [onClient, key] at now
  | deleteClient clientId =>
      simp only [onClient, ite_self] at now
      cases now
  | _ => cases now

theorem has_kept (meets : Meets sodium before label)
    (step : Rpc.Step (system sodium) label before after) {id : Str}
    (there : (before.stores ()).clients.has id = true) :
    (after.stores ()).clients.has id = true := by
  obtain ⟨row, found⟩ := ((before.stores ()).clients.has_iff id).mp there
  rcases call_step step with
    ⟨same, _⟩ | ⟨index, input, thread, call, next, acts, current, here, changed, _⟩
  · rw [Table.has, same]
    exact there
  rw [Table.has, changed, found]
  cases call with
  | deleteClient clientId => exact absurd here (meets.permanent index input thread _ _ acts current)
  | _ => rfl

theorem kept_step (sound : Sound sodium before) (meets : Meets sodium before label)
    (step : Rpc.Step (system sodium) label before after) {index : Nat} {id : Str}
    (created : Created after index id) : (after.stores ()).clients.has id = true := by
  obtain ⟨c, later, earlier, made, rfl⟩ := created
  rcases createdAfter_step step made with
    ⟨rest, old, _⟩ | ⟨input, thread, next, acts, current, here, rfl, rfl, absent⟩
  · exact has_kept meets step (sound.kept index _ ⟨c, rest, earlier, old, rfl⟩)
  · have store := congrArg Store.clients
      (Rpc.acted_store (acts ▸ step) current here)
    rw [store]
    exact Table.has_insert (before.stores ()).clients (row c) (allClean_map c.texts)

/-- Where one client has been created, no other is created unasked. -/
theorem single_step (sound : Sound sodium before) (meets : Meets sodium before label)
    (step : Rpc.Step (system sodium) label before after) {left right : Nat}
    (first : Unasked after left) (second : Unasked after right) : left = right := by
  have origin : ∀ {index : Nat}, Unasked after index → Unasked before index ∨
      (∃ input, label = .act index input) ∧ ∀ id, (before.stores ()).clients.find id = none := by
    rintro index ⟨c, later, earlier, made, unlocked⟩
    rcases createdAfter_step step made with
      ⟨rest, old, _⟩ | ⟨input, thread, next, acts, current, here, rfl, _, _⟩
    · exact .inl ⟨c, rest, earlier, old, unlocked⟩
    · exact .inr ⟨⟨input, acts⟩, meets.first index input thread c next acts current here unlocked⟩
  have nobody : (∀ id, (before.stores ()).clients.find id = none) → ∀ index,
      ¬Unasked before index := by
    rintro empty index ⟨c, later, earlier, made, _⟩
    have there := sound.kept index _ ⟨c, later, earlier, made, rfl⟩
    rw [Table.has, empty] at there
    cases there
  rcases origin first with old | ⟨⟨input, acts⟩, empty⟩
  · rcases origin second with older | ⟨_, empty⟩
    · exact sound.single left right old older
    · exact absurd old (nobody empty left)
  · rcases origin second with older | ⟨⟨_, also⟩, _⟩
    · exact absurd older (nobody empty right)
    · cases acts.symm.trans also
      rfl

theorem used_step (sound : Sound sodium before)
    (step : Rpc.Step (system sodium) label before after) {id : Str}
    (there : (after.stores ()).authRequests.has id = true) : Used after id := by
  by_cases old : (before.stores ()).authRequests.has id = true
  · exact used_kept step (sound.used id old)
  have absent : (before.stores ()).authRequests.find id = none := by
    simpa [Table.has] using old
  obtain ⟨row, found⟩ := ((after.stores ()).authRequests.has_iff id).mp there
  rcases call_step step with
    ⟨_, same⟩ | ⟨index, input, thread, call, next, acts, current, here, _, changed⟩
  · cases absent.symm.trans ((same id).symm.trans found)
  have now := (changed id).symm.trans found
  rw [absent] at now
  cases call with
  | addAuthRequest named deviceName createdAt expiresAt =>
      by_cases key : cstr named = id
      · obtain ⟨later, present, history⟩ := acted_event step acts current here
        refine ⟨later, List.mem_of_getElem? present, named, deviceName, createdAt, expiresAt, ?_,
          key⟩
        rw [history]
        simp [Called, Call.exec, Table.has, key, absent]
      · simp [onRequest, key] at now
  | deleteAuthRequest named | approveAuthRequest named _ _ =>
      simp only [onRequest, Option.map_none, ite_self] at now
      cases now
  | _ => cases now

theorem looked_step (sound : Sound sodium before)
    (step : Rpc.Step (system sodium) label before after) {thread : Thread}
    (member : thread ∈ after.threads) {named : Str} {row : AuthRequest}
    (past : Called thread.history (.getAuthRequest named) (some row)) :
    Used after (cstr named) := by
  obtain ⟨index, present⟩ := List.getElem?_of_mem member
  rcases Rpc.event_step step present past with
    ⟨old, current, _, _, earlier⟩ | ⟨input, old, operation, next, acts, current, _, _, here, new⟩ |
    ⟨request, answer, new⟩
  · exact used_kept step (sound.looked old (List.mem_of_getElem? current) named row earlier)
  · generalize found : ((system sodium).handle old.node input operation
      (before.stores old.node)).1 = answer at new
    cases new
    have there : (before.stores ()).authRequests.has (cstr named) = true :=
      ((before.stores ()).authRequests.has_iff _).mpr ⟨row, found⟩
    exact used_kept step (sound.used _ there)
  · cases new

theorem minted_id {history : Trace} {c : Client} {secret : Str}
    (minted : Minted sodium history c secret) : cstr c.clientId ≠ [] := by
  obtain ⟨id, _, _, _, _, size, _, _, clientId, _, _⟩ := minted.drawn
  rw [clientId, cstr_of_clean (b64urlEncode_clean id)]
  apply b64urlEncode_ne_nil
  rintro rfl
  cases size

/-- After creating a client for a request a route does nothing but enter it there. -/
theorem entering_enters (orderly : Orderly sodium before) {index : Nat} {thread : Thread}
    (current : before.threads[index]? = some thread) {c : Client} {earlier : Trace}
    (history : thread.history = creation c :: earlier) {named : Str} {request : AuthRequest}
    (granting : Granting sodium earlier named request) {operation : nodeSig.Op}
    {next : nodeSig.Res operation → Proc Response} (here : thread.program = .op operation next) :
    ∃ clientId secret, operation = .inl (.call (.approveAuthRequest named clientId secret)) := by
  have member := List.mem_of_getElem? current
  have allowed : (conduct sodium).allowed thread.history operation :=
    Rpc.complies_allowed (orderly.complies thread member) here
  have followed := orderly.followed thread member
  rw [history] at allowed followed
  have entering : Entering sodium (creation c :: earlier) named := ⟨c, earlier, request, rfl, granting⟩
  have fertile : ¬Barren (creation c :: earlier) := fun barren =>
    barren c true List.mem_cons_self
  -- Between its client and its request the thread may do nothing but enter.
  cases operation with
  | inr other => exact absurd entering (allowed named)
  | inl operation =>
      cases operation with
      | call call =>
          cases call with
          | approveAuthRequest other clientId secret =>
              obtain ⟨_, _, row, same, _, _, also⟩ := allowed
              cases same
              rw [read_once followed.2.2 also.read granting.read]
              exact ⟨clientId, secret, rfl⟩
          | createClient | deleteClient => exact absurd allowed.1 fertile
          | getAuthRequest => exact absurd entering (allowed.1 named)
          | _ => exact absurd entering (allowed named)
      | _ => exact absurd entering (allowed named)

theorem settled_kept (sound : Sound sodium before) (meets : Meets sodium before label)
    (step : Rpc.Step (system sodium) label before after) {id : Str} (used : Used before id)
    (settled : ∀ row, (before.stores ()).authRequests.find id = some row →
      row.approvedClientId ≠ []) :
    ∀ row, (after.stores ()).authRequests.find id = some row → row.approvedClientId ≠ [] := by
  intro request found
  rcases call_step step with
    ⟨_, same⟩ | ⟨index, input, thread, call, next, acts, current, here, _, changed⟩
  · exact settled request ((same id).symm.trans found)
  have now := (changed id).symm.trans found
  cases call with
  | addAuthRequest named deviceName createdAt expiresAt =>
      -- An id that was used is not given to another request.
      have unused := meets.fresh index input thread named _ _ _ next acts current here
      have other : cstr named ≠ id := by
        rintro rfl
        exact unused used
      simp only [onRequest, other, ↓reduceIte, Option.or_none] at now
      exact settled request now
  | deleteAuthRequest named =>
      by_cases key : cstr named = id
      · simp [onRequest, key] at now
      · simp only [onRequest, key, ↓reduceIte] at now
        exact settled request now
  | approveAuthRequest named clientId secret =>
      by_cases key : cstr named = id
      · simp only [onRequest, key, ↓reduceIte, Option.map_eq_some_iff] at now
        obtain ⟨old, _, rfl⟩ := now
        obtain ⟨c, earlier, row, _, rfl, minted, _⟩ := sound.orderly.allowed current here
        exact minted_id minted
      · simp only [onRequest, key, ↓reduceIte] at now
        exact settled request now
  | _ => exact settled request now

theorem concluded_step (sound : Sound sodium before) (meets : Meets sodium before label)
    (step : Rpc.Step (system sodium) label before after) {index : Nat} {c : Client}
    {later earlier : Trace} {named : Str} {request : AuthRequest}
    (created : CreatedAfter after index c later earlier)
    (granting : Granting sodium earlier named request) : Concluded after (cstr named) later := by
  rcases createdAfter_step step created with
    ⟨rest, ⟨old, current, past⟩, shape⟩ | ⟨_, _, _, _, _, _, _, none, _⟩
  swap
  · exact .inl none
  have read : Called old.history (.getAuthRequest named) (some request) := by
    unfold Called
    rw [past]
    exact List.mem_append_right _ (List.mem_cons_of_mem _ granting.read)
  have used := sound.looked old (List.mem_of_getElem? current) named request read
  rcases sound.concluded index c rest earlier named request ⟨old, current, past⟩ granting with
    rfl | settled
  swap
  · exact .inr (settled_kept sound meets step used settled)
  rcases shape with rfl | ⟨latest, rfl⟩
  · exact .inl rfl
  -- The thread has just gone on after its creation, so it has entered its client.
  obtain ⟨thread, present, split⟩ := created
  rw [List.nil_append] at past
  have grown : old.history ≠ thread.history := by
    rw [past, split]
    exact fun same => absurd (congrArg List.length same) (by simp)
  cases Rpc.thread_step step present with
  | still there _ _ _ history _ =>
      cases current.symm.trans there
      exact absurd history grown
  | @acted _ operation next input acts there here resumed =>
      cases current.symm.trans there
      obtain ⟨clientId, secret, same⟩ := entering_enters sound.orderly current past granting here
      cases same
      right
      intro row found
      have store := congrArg (·.authRequests.find (cstr named))
        (Rpc.acted_store (acts ▸ step) current here)
      have now := store.symm.trans found
      change ((Call.approveAuthRequest named clientId secret).exec input.now
        (before.stores ())).2.authRequests.find (cstr named) = some row at now
      rw [requests_exec] at now
      simp only [onRequest, ↓reduceIte, Option.map_eq_some_iff] at now
      obtain ⟨_, _, rfl⟩ := now
      obtain ⟨_, _, _, _, rfl, minted, _⟩ := sound.orderly.allowed current here
      exact minted_id minted
  | answered _ there here _ =>
      cases current.symm.trans there
      obtain ⟨_, _, same⟩ := entering_enters sound.orderly current past granting here
      cases same
  | started _ _ _ fresh =>
      subst fresh
      cases split
  | served _ _ _ _ _ _ fresh =>
      subst fresh
      cases split

theorem unmade (sound : Sound sodium before) (meets : Meets sodium before label) {index : Nat}
    {input : Input} {thread : Thread} {c : Client} {next : Bool → Proc Response} {named : Str}
    {request : AuthRequest} (acts : label = .act index input)
    (current : before.threads[index]? = some thread)
    (here : thread.program = .op (.inl (.call (.createClient c))) next)
    (granting : Granting sodium thread.history named request) (other : Nat) (id : Str) :
    ¬CreatedFor sodium before other id (cstr named) := by
  rintro ⟨made, later, earlier, another, row, created, _, also, key⟩
  obtain ⟨⟨now, found, pending⟩, nobody⟩ :=
    meets.standing index input thread c next named request acts current here granting
  rcases sound.concluded other made later earlier another row created also with rfl | settled
  · obtain ⟨busy, present, history⟩ := created
    exact nobody busy (List.mem_of_getElem? present) another
      ⟨made, earlier, row, history, also⟩ key
  · rw [key] at settled
    exact settled now found pending

theorem unique_step (sound : Sound sodium before) (meets : Meets sodium before label)
    (step : Rpc.Step (system sodium) label before after) {left right : Nat}
    {idLeft idRight requestId : Str} (first : CreatedFor sodium after left idLeft requestId)
    (second : CreatedFor sodium after right idRight requestId) : left = right := by
  have origin : ∀ {index : Nat} {id : Str}, CreatedFor sodium after index id requestId →
      CreatedFor sodium before index id requestId ∨ (∃ input, label = .act index input) ∧
        ∀ other id, ¬CreatedFor sodium before other id requestId := by
    rintro index id ⟨c, later, earlier, named, request, created, key, granting, rfl⟩
    rcases createdAfter_step step created with
      ⟨rest, old, _⟩ | ⟨input, thread, next, acts, current, here, rfl, _, _⟩
    · exact .inl ⟨c, rest, earlier, named, request, old, key, granting, rfl⟩
    · exact .inr ⟨⟨input, acts⟩, unmade sound meets acts current here granting⟩
  rcases origin first with old | ⟨⟨input, acts⟩, nobody⟩
  · rcases origin second with older | ⟨_, nobody⟩
    · exact sound.unique left right idLeft idRight requestId old older
    · exact absurd old (nobody left idLeft)
  · rcases origin second with older | ⟨⟨_, also⟩, _⟩
    · exact absurd older (nobody right idRight)
    · cases acts.symm.trans also
      rfl

theorem sound_step (meets : Meets sodium before label)
    (step : Rpc.Step (system sodium) label before after) (sound : Sound sodium before) :
    Sound sodium after where
  orderly := orderly_step step sound.orderly
  known _ there := known_step sound step there
  kept _ _ created := kept_step sound meets step created
  single _ _ first second := single_step sound meets step first second
  used _ there := used_step sound step there
  looked _ member _ _ past := looked_step sound step member past
  concluded _ _ _ _ _ _ created granting := concluded_step sound meets step created granting
  unique _ _ _ _ _ first second := unique_step sound meets step first second

theorem sound_idle (stores : Unit → Store)
    (noClients : ∀ id, (stores ()).clients.find id = none)
    (noRequests : ∀ id, (stores ()).authRequests.find id = none) :
    Sound sodium ⟨stores, [], []⟩ := by
  have nothing : ∀ {index c later earlier},
      ¬CreatedAfter (⟨stores, [], []⟩ : World) index c later earlier := by
    rintro _ _ _ _ ⟨_, present, _⟩
    cases present
  constructor
  case orderly => exact orderly_idle stores
  case known => simp [Table.has, noClients]
  case kept =>
    rintro _ _ ⟨_, _, _, created, _⟩
    exact absurd created nothing
  case single =>
    rintro _ _ ⟨_, _, _, created, _⟩
    exact absurd created nothing
  case used => simp [Table.has, noRequests]
  case looked => exact fun _ member => absurd member List.not_mem_nil
  case concluded =>
    intro _ _ _ _ _ _ created
    exact absurd created nothing
  case unique =>
    rintro _ _ _ _ _ ⟨_, _, _, _, _, created, _⟩
    exact absurd created nothing

theorem asked_or_unasked (sound : Sound sodium before) {index : Nat} {id : Str}
    (created : Created before index id) :
    Unasked before index ∨ ∃ requestId, CreatedFor sodium before index id requestId := by
  obtain ⟨c, later, earlier, ⟨thread, present, split⟩, key⟩ := created
  have followed := sound.orderly.followed thread (List.mem_of_getElem? present)
  rw [split] at followed
  rcases followed.past.1.2.2 with unlocked | ⟨named, request, granting⟩
  · exact .inl ⟨c, later, earlier, ⟨thread, present, split⟩, unlocked⟩
  · exact .inr ⟨cstr named, c, later, earlier, named, request, ⟨thread, present, split⟩, key,
      granting, rfl⟩

theorem created_same (sound : Sound sodium before) {index : Nat} {left right : Str}
    (first : Created before index left) (second : Created before index right) : left = right := by
  obtain ⟨c, later, earlier, ⟨thread, present, split⟩, rfl⟩ := first
  obtain ⟨other, _, _, ⟨_, also, parts⟩, rfl⟩ := second
  cases present.symm.trans also
  have followed := sound.orderly.followed thread (List.mem_of_getElem? present)
  have made : Called thread.history (.createClient c) true := by simp [Called, split]
  have twin : Called thread.history (.createClient other) true := by simp [Called, parts]
  rw [created_once followed made twin]

theorem individually (sound : Sound sodium before) : Individually sodium before where
  approved := by
    by_cases empty : ∀ id, (before.stores ()).clients.find id = none
    · exact .inl empty
    right
    simp only [not_forall, ← ne_eq, Option.ne_none_iff_exists'] at empty
    obtain ⟨some, row, found⟩ := empty
    have there := ((before.stores ()).clients.has_iff some).mpr ⟨row, found⟩
    -- One client may have come without a request, and that is the first.
    by_cases nobody : ∃ index, Unasked before index
    · obtain ⟨index, c, later, earlier, created, unlocked⟩ := nobody
      have first : Created before index (cstr c.clientId) := ⟨c, later, earlier, created, rfl⟩
      refine ⟨cstr c.clientId, sound.kept index _ first, fun id there other => ?_⟩
      obtain ⟨maker, made⟩ := sound.known id there
      rcases asked_or_unasked sound made with unasked | ⟨requestId, asked⟩
      · have same := sound.single maker index unasked ⟨c, later, earlier, created, unlocked⟩
        subst same
        exact absurd (created_same sound made first) other
      · exact ⟨maker, requestId, asked⟩
    · refine ⟨some, there, fun id there _ => ?_⟩
      obtain ⟨maker, made⟩ := sound.known id there
      rcases asked_or_unasked sound made with unasked | ⟨requestId, asked⟩
      · exact absurd ⟨maker, unasked⟩ nobody
      · exact ⟨maker, requestId, asked⟩
  distinct := by
    rintro left right requestId _ _ ⟨maker, forLeft⟩ ⟨other, forRight⟩
    have same := sound.unique maker other left right requestId forLeft forRight
    subst same
    obtain ⟨c, later, earlier, _, _, made, key, _⟩ := forLeft
    obtain ⟨d, after, before, _, _, also, lock, _⟩ := forRight
    exact created_same sound ⟨c, later, earlier, made, key⟩ ⟨d, after, before, also, lock⟩

/-- In a run in which no route acts on a check that no longer holds, every device but
one was approved, and no two for one request. -/
theorem devices_approved (stores : Unit → Store)
    (noClients : ∀ id, (stores ()).clients.find id = none)
    (noRequests : ∀ id, (stores ()).authRequests.find id = none) {state : World}
    (run : Rpc.Reachable (system sodium) (Meets sodium) ⟨stores, [], []⟩ state) :
    Individually sodium state := by
  apply individually
  apply run.invariant (Sound sodium) (sound_idle stores noClients noRequests)
  intro _ _ _ sound meets step
  exact sound_step meets step sound

section Runs

/-- Whether the history reads a request, enters a client there next, or found no client. -/
def reads (history : Trace) : Bool :=
  history.any fun event =>
    match event with
    | ⟨.inl (.call (.getAuthRequest _)), _⟩ => true
    | _ => false

def enters : Trace → Bool
  | ⟨.inl (.call (.createClient _)), _⟩ :: earlier => reads earlier
  | _ => false

def unlocked (history : Trace) : Bool :=
  history.any fun event =>
    match event with
    | ⟨.inl (.call .hasClients), locked⟩ => !locked
    | _ => false

/-- A check that implies the condition. -/
def checked (state : World) : Action → Bool
  | .act index _ =>
      match state.threads[index]? with
      | some thread =>
          match thread.program with
          | .op (.inl (.call (.createClient _))) _ =>
              (!unlocked thread.history || (state.stores ()).clients.rows.isEmpty) &&
              (state.threads.all fun other => !enters other.history) &&
              thread.history.all fun event =>
                match event with
                | ⟨.inl (.call (.getAuthRequest named)), _⟩ =>
                    ((state.stores ()).authRequests.find (cstr named)).any (·.approvedClientId = [])
                | _ => true
          | .op (.inl (.call (.addAuthRequest ..))) _ =>
              state.threads.all fun other => other.history.all fun event =>
                match event with
                | ⟨.inl (.call (.addAuthRequest ..)), _⟩ => false
                | _ => true
          | .op (.inl (.call (.deleteClient _))) _ => false
          | _ => true
      | none => true
  | _ => true

theorem reads_of_granting {history : Trace} {named : Str} {request : AuthRequest}
    (granting : Granting sodium history named request) : reads history = true :=
  List.any_eq_true.mpr ⟨_, granting.read, rfl⟩

theorem meets_of_checked (state : World) (label : Action) (passes : checked state label = true) :
    Meets sodium state label := by
  constructor
  case permanent =>
    intro index input thread clientId next acts current here
    subst acts
    simp [checked, current, here] at passes
  case first =>
    intro index input thread c next acts current here free id
    subst acts
    simp only [checked, current, here, Bool.and_eq_true, Bool.or_eq_true, Bool.not_eq_true'] at passes
    rcases passes.1.1 with locked | empty
    · have open' : unlocked thread.history = true := List.any_eq_true.mpr ⟨_, free, rfl⟩
      cases locked.symm.trans open'
    · rw [Table.find_eq_none, List.isEmpty_iff.mp empty]
      exact fun row member => absurd member List.not_mem_nil
  case standing =>
    intro index input thread c next named request acts current here granting
    subst acts
    simp only [checked, current, here, Bool.and_eq_true] at passes
    obtain ⟨⟨_, nobody⟩, stands⟩ := passes
    constructor
    · -- The request is still there and nobody else has entered it.
      have pending := List.all_eq_true.mp stands _ granting.read
      obtain ⟨now, found, empty⟩ := (Option.any_eq_true _ _).mp pending
      exact ⟨now, found, of_decide_eq_true empty⟩
    · rintro other member another ⟨d, earlier, row, history, granting⟩
      have idle := List.all_eq_true.mp nobody other member
      rw [history] at idle
      simp [enters, reads_of_granting granting] at idle
  case fresh =>
    rintro index input thread named deviceName createdAt expiresAt next acts current here
      ⟨other, member, _, _, _, _, past, _⟩
    subst acts
    simp only [checked, current, here] at passes
    have none := List.all_eq_true.mp (List.all_eq_true.mp passes other member) _ past
    cases none

theorem admission_approved : ∃ state : World,
    (state.stores ()).clients.has (idOf 1) = true ∧
    (state.stores ()).clients.has (idOf 2) = true ∧ Individually .transparent state := by
  have ran : (Rpc.run (system .transparent) checked admission
      ⟨fun _ => Store.initial, [], []⟩).map (fun state =>
        ((state.stores ()).clients.has (idOf 1), (state.stores ()).clients.has (idOf 2))) =
      some (true, true) := by
    decide +kernel
  obtain ⟨state, scheduled, there⟩ := Option.map_eq_some_iff.mp ran
  simp only [Prod.mk.injEq] at there
  exact ⟨state, there.1, there.2, devices_approved (fun _ => Store.initial) (fun _ => rfl)
    (fun _ => rfl) (Rpc.run_reachable meets_of_checked admission scheduled)⟩

def rush : List Action :=
  [.start () .register, .start () .register] ++ acts 0 1 (drawing 5 1) ++
  acts 1 6 (drawing 5 2) ++ acts 0 5 (drawing 5 1)

/-- Both are let in, and nobody approved either. -/
theorem rush_unapproved : ∃ state : World,
    Rpc.Reachable (system .transparent) (fun _ _ => True) ⟨fun _ => Store.initial, [], []⟩ state ∧
    ¬Individually .transparent state := by
  have ran : (Rpc.run (system .transparent) (fun _ _ => true) rush
      ⟨fun _ => Store.initial, [], []⟩).map (fun state =>
        ((state.stores ()).clients.has (idOf 1), (state.stores ()).clients.has (idOf 2),
          state.threads.all fun thread => !reads thread.history)) = some (true, true, true) := by
    decide +kernel
  obtain ⟨state, scheduled, facts⟩ := Option.map_eq_some_iff.mp ran
  simp only [Prod.mk.injEq] at facts
  obtain ⟨one, two, quiet⟩ := facts
  refine ⟨state, Rpc.run_reachable (fun _ _ _ => trivial) rush scheduled, fun approved => ?_⟩
  -- No thread of the run has read a request, so no client answers to one.
  have nobody : ∀ index id requestId, ¬CreatedFor .transparent state index id requestId := by
    rintro index id requestId ⟨c, later, earlier, named, request, ⟨thread, present, split⟩, _,
      granting, _⟩
    have silent := List.all_eq_true.mp quiet thread (List.mem_of_getElem? present)
    have read : (⟨.inl (.call (.getAuthRequest named)), some request⟩ : Event nodeSig) ∈
        thread.history := by
      rw [split]
      exact List.mem_append_right _ (List.mem_cons_of_mem _ granting.read)
    rw [show reads thread.history = true from List.any_eq_true.mpr ⟨_, read, rfl⟩] at silent
    cases silent
  rcases approved.approved with empty | ⟨first, _, others⟩
  · rw [Table.has, empty] at one
    cases one
  · have different : idOf 1 ≠ idOf 2 := by decide +kernel
    by_cases same : idOf 1 = first
    · obtain ⟨index, requestId, asked⟩ :=
        others (idOf 2) two fun also => different (same.trans also.symm)
      exact nobody index _ requestId asked
    · obtain ⟨index, requestId, asked⟩ := others (idOf 1) one same
      exact nobody index _ requestId asked

end Runs
end NoMiddle.Approval
