import NoMiddle.Effects

/-! What strangers can do to a locked node. Whoever shows credentials no device has is turned
away before his request is read; the routes that ask for none, which are open to anybody, reach
neither the list of devices nor the address book, and only the worker ever sends anything. -/
namespace NoMiddle.Strangers
open Library Text Crypto DbManager Node Handlers GroupHandlers AuthHandlers RetryWorker
open Network Footprint Effects
open TaskConduct (World Action)

/-- The request whose headers a route checks first. -/
def asks : Task → Option HttpRequest
  | .upsertContact req | .sendMessage req | .editMessage req | .deleteMessage req
  | .contacts req | .messages req _ | .groupsCreate req | .addMember req _ | .removeMember req _
  | .groups req | .groupMembers req _ | .groupSend req _ | .groupMessages req _
  | .groupEdit req _ | .groupDelete req _ | .remotePublicKey req _ | .authApprove req
  | .clients req | .deleteClient req _ => some req
  | .publicKey | .authRegister | .authRequest _ | .authPoll _ | .incoming .. | .retryPass => none

/-- No device of the list has these credentials. -/
def Unknown (sodium : Sodium) (devices : Clients) (req : HttpRequest) : Prop :=
  req.clientId ≠ [] → req.clientSecret ≠ [] → ∀ row, devices.find (cstr req.clientId) = some row →
    hashSecret sodium req.clientSecret row.salt ≠ row.secretHash

instance (sodium : Sodium) (devices : Clients) (req : HttpRequest) :
    Decidable (Unknown sodium devices req) :=
  inferInstanceAs (Decidable (_ → _ → ∀ row ∈ devices.find (cstr req.clientId), _ ≠ _))

/-- What the open routes reach, and what the worker does. -/
def reached (background : Bool) : List Resource :=
  if background then [.messages, .rows, .groupUpdates, .peers, .verdicts, .deliveries]
  else [.messages, .rows, .groups, .groupMembers, .authRequests, .devices, .deliveries]

/-- What the store of a locked node tells: the devices are these, and there are some. -/
def Told (devices : Clients) : (operation : nodeSig.Op) → nodeSig.Res operation → Prop
  | .inl (.call (.getClient clientId)), found => found = devices.find (cstr clientId)
  | .inl (.call .hasClients), locked => locked = true
  | _, _ => True

def shut (devices : Clients) (background : Bool) : Discipline nodeSig where
  possible := Told devices
  allowed _ operation := within (reached background) operation = true

variable {devices : Clients} {background : Bool} {history : List (Event nodeSig)} {Value : Type}

theorem wp_within {program : Proc Value} {used : List Resource}
    (only : program.Only (within used)) (inside : used ⊆ reached background) :
    program.wp (shut devices background).contract (fun _ _ => True) history :=
  Program.wp_of_only (fun _ _ here => within_iff.mpr (List.Subset.trans (within_iff.mp here) inside))
    program only history

theorem served_reached (endpoint : Endpoint) : served endpoint ⊆ reached false := by
  cases endpoint <;> decide

/-- Nothing of the route is executed but the look at the device's row. -/
theorem turned_away {discipline : Discipline nodeSig} {sodium : Sodium} {req : HttpRequest}
    (tells : ∀ found, discipline.possible (.inl (.call (.getClient req.clientId))) found →
      found = devices.find (cstr req.clientId))
    (allows : ∀ history, discipline.allowed history (.inl (.call (.getClient req.clientId))))
    (unknown : Unknown sodium devices req) (refused : Response) (rest : Proc Response) :
    (do if !(← isAuthed sodium req) then return refused
        rest).wp discipline.contract (fun response _ => response = refused) history := by
  have checked : (isAuthed sodium req).wp discipline.contract (fun authed _ => authed = false)
      history := by
    unfold isAuthed authenticate
    split
    · rfl
    · next shown =>
      obtain ⟨named, secret⟩ : req.clientId ≠ [] ∧ req.clientSecret ≠ [] := by
        simpa [not_or] using shown
      refine ⟨allows history, fun found told => ?_⟩
      cases found with
      | none => rfl
      | some row => exact decide_eq_false (unknown named secret row (tells _ told).symm)
  refine Program.wp_seq discipline.contract_monotone _ _ history checked ?_
  rintro _ after rfl
  rfl

theorem authRegister_shut (sodium : Sodium) :
    (authRegister sodium).wp (shut devices background).contract (fun _ _ => True) history :=
  ⟨rfl, fun locked told => by cases told; trivial⟩

theorem authRequest_shut (sodium : Sodium) (req : HttpRequest) :
    (authRequest sodium req).wp (shut devices false).contract (fun _ _ => True) history := by
  unfold authRequest
  split
  · refine ⟨rfl, fun now _ => ⟨rfl, fun locked told => ?_⟩⟩
    cases told
    refine ⟨rfl, fun _ _ => ⟨rfl, fun (added : Bool) _ => ?_⟩⟩
    cases added with
    | false => trivial
    | true => exact ⟨rfl, fun _ _ => trivial⟩
  · trivial

variable {Host : Type} (network : Deployment Host) (host : Host)

theorem program_asks {task : Task} {req : HttpRequest} (asked : asks task = some req) :
    ∃ rest, network.program host task =
      (do if !(← isAuthed network.sodium req) then return error 401 "Unauthorized"
          rest) := by
  cases task <;> cases asked <;> exact ⟨_, rfl⟩

theorem program_shut (task : Task)
    (strange : ∀ req, asks task = some req → Unknown network.sodium devices req) :
    (network.program host task).wp (shut devices (Deployment.background task)).contract
      (fun _ _ => True) [] := by
  cases asked : asks task with
  | some req =>
      obtain ⟨rest, same⟩ := program_asks network host asked
      rw [same]
      exact Program.wp_mono (shut devices _).contract_monotone _ (fun _ _ _ => trivial) []
        (turned_away (fun _ told => told) (fun _ => rfl) (strange req asked) _ rest)
  | none =>
      have inside := program_within network host task
      cases task with
      | publicKey => trivial
      | authRegister => exact authRegister_shut network.sodium
      | authRequest req => exact authRequest_shut network.sodium req
      | authPoll requestId =>
          exact wp_within inside (by decide : [Resource.authRequests] ⊆ reached false)
      | incoming endpoint body => exact wp_within inside (served_reached endpoint)
      | retryPass => exact wp_within inside fun _ used => used
      | _ => cases asked

theorem serve_shut (request : Request) :
    (network.serve host request).wp (shut devices false).contract (fun _ _ => True) [] :=
  wp_within (serve_within network host request) (served_reached request.endpoint)

/-- The two tables strangers have no way to. -/
structure Shut (before after : Store) : Prop where
  clients : after.clients = before.clients
  contacts : after.contacts = before.contacts

theorem Shut.told {before store : Store} (locked : before.clients.rows ≠ [])
    (same : Shut before store) (input : Input) (operation : LocalOp) :
    Told before.clients (.inl operation) (handle input operation store).1 := by
  cases operation with
  | call call =>
      cases call with
      | getClient clientId => exact congrArg (·.find (cstr clientId)) same.clients
      | hasClients =>
          change (!store.clients.rows.isEmpty) = true
          rw [same.clients]
          simpa using locked
      | _ => trivial
  | _ => trivial

theorem Shut.kept {before store : Store} (same : Shut before store) (input : Input)
    (operation : LocalOp) (inside : within (reached background) (.inl operation) = true) :
    Shut before (handle input operation store).2 := by
  have spared : ∀ resource ∉ reached background, resource ∉ touches (.inl operation) :=
    fun resource outside => spared_of_within inside outside
  have clients := handle_unchanged input operation store
    (spared .clients (by cases background <;> decide))
  have contacts := handle_unchanged input operation store
    (spared .contacts (by cases background <;> decide))
  exact ⟨clients.trans same.clients, contacts.trans same.contacts⟩

/-- It looked for the device at most, and if it has an answer the answer is 401. -/
structure Refused (req : HttpRequest) (thread : TaskConduct.Thread Host) : Prop where
  looked : ∀ event ∈ thread.history, event.1 = .inl (.call (.getClient req.clientId))
  answer : ∀ response, thread.program = .ret response → response = error 401 "Unauthorized"

def looking (devices : Clients) (req : HttpRequest) : Discipline nodeSig where
  possible := Told devices
  allowed _ operation := operation = .inl (.call (.getClient req.clientId))

theorem refused_of_continues {host : Host} {thread : TaskConduct.Thread Host} {task : Task}
    {req : HttpRequest} (asked : asks task = some req)
    (unknown : Unknown network.sodium devices req)
    (told : ∀ event ∈ thread.history, Told devices event.1 event.2)
    (continues : Rpc.Thread.Continues (network.program host task) thread) :
    Refused req thread := by
  obtain ⟨rest, same⟩ := program_asks network host asked
  rw [same] at continues
  have turned : Program.wp (looking devices req).contract
      (do if !(← isAuthed network.sodium req) then return error 401 "Unauthorized"
          rest) (fun response _ => response = error 401 "Unauthorized") [] :=
    turned_away (fun _ told => told) (fun _ => rfl) unknown _ rest
  obtain ⟨followed, remains⟩ := continues.followed turned told
  constructor
  · intro event happened
    obtain ⟨later, earlier, split⟩ := List.append_of_mem happened
    rw [split] at followed
    exact followed.past.1
  · intro response finished
    rw [finished] at remains
    exact remains

variable [DecidableEq Host]

/-- Other nodes may do anything. -/
def elsewhere : Discipline nodeSig := ⟨fun _ _ => True, fun _ _ => True⟩

theorem shut_guaranteed {before : Store} (locked : before.clients.rows ≠ []) :
    Rpc.Guaranteed network.system
      (fun node _ background => if node = host then shut before.clients background else elsewhere)
      (fun _ _ _ _ _ => True) (fun node store => node = host → Shut before store) (fun _ => True)
      (fun node task => node = host → ∀ req, asks task = some req →
        Unknown network.sodium before.clients req) (fun _ _ => True) where
  possible node _ _ input operation store same := by
    dsimp only
    split
    · next here => exact (same here).told locked input operation
    · trivial
  answers node _ _ request answer := by
    dsimp only
    split <;> trivial
  keeps node _ _ _ input operation store allowed same here := by
    rw [if_pos here] at allowed
    exact (same here).kept input operation allowed
  posts _ _ _ _ _ _ := trivial
  program node task strange := by
    split
    · next here => exact here ▸ program_shut network node task (strange here)
    · exact Program.wp_free (fun _ _ => trivial) _ []
  serve node request _ _ _ := by
    split
    · exact serve_shut network node request
    · exact Program.wp_free (fun _ _ => trivial) _ []

/-- While everybody who shows credentials to a locked node shows wrong ones, its devices and
contacts stay as they are, and only the worker sends anything. The routes that ask for credentials
look for the device and answer 401; the others write to the tables of the open routes. -/
theorem strangers_shut_out {host : Host} {stores : Host → Store}
    (locked : (stores host).clients.rows ≠ []) {world : World Host}
    (run : Rpc.Reachable network.system (fun _ label => ∀ task req, label = .start host task →
      asks task = some req → Unknown network.sodium (stores host).clients req)
      ⟨stores, [], []⟩ world) :
    Shut (stores host) (world.stores host) ∧
    ∀ thread ∈ world.threads, thread.node = host →
      (∀ event ∈ thread.history, touches event.1 ⊆ reached thread.background) ∧
      (thread.background = false → thread.waiting = none) ∧
      ∀ task req, Rpc.Thread.Continues (network.program host task) thread →
        asks task = some req → Unknown network.sodium (stores host).clients req →
        Refused req thread := by
  have inOrder := Rpc.inOrder_run (shut_guaranteed network host locked)
    (fun _ _ strange => ⟨fun node task starts here req asked => strange task req (here ▸ starts)
      asked, fun _ _ _ _ _ => trivial⟩) (fun node here => here ▸ ⟨rfl, rfl⟩) run
  have linked : Rpc.Linked world := run.invariant Rpc.Linked
    ⟨fun _ none => absurd none List.not_mem_nil, fun _ none => absurd none List.not_mem_nil⟩
    fun before label after linked _ step => Rpc.linked_step step linked
  have followed : ∀ thread ∈ world.threads, thread.node = host →
      (shut (stores host).clients thread.background).Followed thread.history := by
    intro thread member here
    have ruled := inOrder.followed thread member
    dsimp only [Rpc.rules] at ruled
    rwa [if_pos here] at ruled
  refine ⟨inOrder.stores host rfl, fun thread member here => ⟨?_, ?_, ?_⟩⟩
  · intro event happened
    obtain ⟨later, earlier, split⟩ := List.append_of_mem happened
    have past := followed thread member here
    rw [split] at past
    exact within_iff.mp past.past.1
  · intro foreground
    by_contra waits
    obtain ⟨job, waiting⟩ := Option.ne_none_iff_exists'.mp waits
    obtain ⟨request, next, _, sends, _⟩ := linked.waiting thread member job waiting
    have allowed := (inOrder.next member sends).1
    dsimp only [Rpc.rules] at allowed
    rw [if_pos here, foreground] at allowed
    exact absurd (within_iff.mp allowed List.mem_cons_self) (by decide)
  · intro task req continues asked unknown
    exact refused_of_continues network asked unknown
      (fun event happened => (followed thread member here).possible happened) continues

def intruder : HttpRequest := ⟨str "c", str "wrong", some (.obj
  [("recipient_id", .str (pair.id false)), ("text", .str (str "hi"))])⟩

/-- A stranger tries to have a message sent, and another asks for access. -/
def knocks : List (Action Bool) :=
  [.start true (.sendMessage intruder),
    .start true (.authRequest ⟨[], [], none⟩), .act 0 (clockAt 7), .act 1 (clockAt 7),
    .act 1 (clockAt 7), .act 1 (clockAt 7), .act 1 (clockAt 7)]

/-- The credentials are checked against the devices of the first node. -/
def wrongOnly : Action Bool → Bool
  | .start true (.sendMessage req) => decide (Unknown pair.sodium (acquainted true).clients req)
  | .start true (.authRequest _) => true
  | .start .. => false
  | _ => true

/-- What the strangers start. -/
def Knocks (task : Task) : Prop :=
  (∃ req, task = .sendMessage req ∧ Unknown pair.sodium (acquainted true).clients req) ∨
    ∃ req, task = .authRequest req

theorem knocks_of_wrong {label : Action Bool} (wrong : wrongOnly label = true) {node : Bool}
    {task : Task} (starts : label = .start node task) : node = true ∧ Knocks task := by
  subst starts
  unfold wrongOnly at wrong
  split at wrong
  · next req same =>
    cases same
    exact ⟨rfl, .inl ⟨req, rfl, of_decide_eq_true wrong⟩⟩
  · next req same =>
    cases same
    exact ⟨rfl, .inr ⟨req, rfl⟩⟩
  · cases wrong
  · next other => exact absurd rfl (other node task)

def looks (event : Event nodeSig) : Bool :=
  match event with
  | ⟨.inl (.call (.getClient _)), _⟩ => true
  | _ => false

theorem knocks_shut_out : ∃ (world : World Bool) (thread : TaskConduct.Thread Bool),
    Shut (acquainted true) (world.stores true) ∧
    (world.stores true).authRequests.rows ≠ [] ∧ world.threads[0]? = some thread ∧
    thread.history ≠ [] ∧ thread.program = .ret (error 401 "Unauthorized") := by
  have ran : (Rpc.run pair.system (fun _ => wrongOnly) knocks ⟨acquainted, [], []⟩).bind
      (fun world => (world.threads[0]?).map fun thread =>
        ((world.stores true).authRequests.rows.isEmpty, thread.node, thread.finished,
          thread.origin.isSome, thread.history.map looks)) =
      some (false, true, true, false, [true]) := by
    decide +kernel
  obtain ⟨world, scheduled, rest⟩ := Option.bind_eq_some_iff.mp ran
  obtain ⟨thread, present, facts⟩ := Option.map_eq_some_iff.mp rest
  simp only [Prod.mk.injEq] at facts
  obtain ⟨asked, here, finished, own, looked⟩ := facts
  have member := List.mem_of_getElem? present
  have started : thread.history ≠ [] := fun none => by simp [none] at looked
  have strange : ∀ (_ : World Bool) (label : Action Bool), wrongOnly label = true →
      ∀ task req, label = .start true task → asks task = some req →
        Unknown pair.sodium (acquainted true).clients req := by
    intro _ label wrong task req starts asked
    obtain ⟨_, ⟨_, rfl, unknown⟩ | ⟨_, rfl⟩⟩ := knocks_of_wrong wrong starts
    · cases asked
      exact unknown
    · cases asked
  obtain ⟨same, others⟩ :=
    strangers_shut_out pair (by decide) (Rpc.run_reachable strange knocks scheduled)
  obtain ⟨_, _, refused⟩ := others thread member here
  have knocked : Rpc.Reachable pair.system (fun _ label => ∀ node task, label = .start node task →
      Knocks task) ⟨acquainted, [], []⟩ world :=
    Rpc.run_reachable (fun _ _ wrong _ _ starts => (knocks_of_wrong wrong starts).2) knocks scheduled
  -- Only the one whose credentials are wrong looks for a device.
  obtain ⟨task, knocking, continues⟩ := Rpc.course_run (fun _ task => Knocks task)
    (fun _ node task only => only node task rfl) knocked member (by simpa using own)
  rcases knocking with ⟨req, rfl, unknown⟩ | ⟨req, rfl⟩
  · have turned := refused (.sendMessage req) req (here ▸ continues) rfl unknown
    refine ⟨world, thread, same, fun none => by simp [none] at asked, present, started, ?_⟩
    cases program : thread.program with
    | ret response => rw [turned.answer response program]
    | op => simp [Rpc.Thread.finished, Program.finished, program] at finished
  · change (authRequest pair.sodium req).Past _ _ at continues
    unfold authRequest at continues
    split at continues
    · obtain ⟨later, answer, split⟩ := Program.Past.oldest continues started
      have last := congrArg List.getLast? looked
      rw [split, List.map_append, List.map_singleton, List.getLast?_concat] at last
      cases last
    · exact absurd continues.finished started

end NoMiddle.Strangers
