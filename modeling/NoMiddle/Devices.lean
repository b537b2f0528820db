import NoMiddle.Conduct
import NoMiddle.Network
import NoMiddle.Library.RpcTrace

/-! The device routes of one node, interleaved call by call, and what each of them
may do to the two tables they share. The table of web sockets is not part of it. -/
namespace NoMiddle.Devices
open Library Text Crypto DbManager Node Handlers GroupHandlers AuthHandlers Conduct

inductive Route where
  | register
  | request (req : HttpRequest)
  | approve (req : HttpRequest)
  | poll (requestId : Option Str)
  | clients (req : HttpRequest)
  | delete (req : HttpRequest) (clientId : PathId)

def Route.program (sodium : Sodium) : Route → Proc Response
  | register => authRegister sodium
  | request req => authRequest sodium req
  | approve req => authApprove sodium req
  | poll requestId => authPoll requestId
  | clients req => AuthHandlers.clients sodium req
  | delete req clientId => deleteClient sodium req clientId.text

/-- One node that serves its devices and sends nothing. -/
def system (sodium : Sodium) :
    Rpc.System localSig Unit Store Route Request Response Input where
  handle _ := handle
  program _ := Route.program sodium
  background _ := false
  serve _ _ := return thrown
  routes _ _ := false
  foreign _ := false

abbrev Thread := Rpc.Thread nodeSig Unit Request Response
abbrev World := Rpc.Configuration localSig Unit Store Request Response
abbrev Action := Rpc.Label Unit Route Input Response

/-! What a history shows. -/
def Called (history : Trace) (db : Call) (answer : db.Res) : Prop :=
  (⟨.inl (.call db), answer⟩ : Event nodeSig) ∈ history

def draw (size : Nat) (bytes : Str) : Event nodeSig := ⟨.inl (.randombytes size), bytes⟩

variable (sodium : Sodium)

/-- The last three draws are the client's id, its secret and its salt. -/
structure Minted (history : Trace) (c : Client) (secret : Str) : Prop where
  drawn : ∃ id key salt earlier,
    history = draw 16 salt :: draw 32 key :: draw 16 id :: earlier ∧
    id.length = 16 ∧ key.length = 32 ∧ salt.length = 16 ∧
    c.clientId = b64urlEncode id ∧ secret = b64urlEncode key ∧ c.salt = b64urlEncode salt
  hashed : c.secretHash = hashSecret sodium secret c.salt

/-- The caller has shown the secret of a registered client. -/
structure Authed (history : Trace) (clientId : Str) : Prop where
  shown : ∃ secret info, Called history (.getClient clientId) (some info) ∧
    clientId ≠ [] ∧ secret ≠ [] ∧ hashSecret sodium secret info.salt = info.secretHash

/-- An authenticated caller looks at a request that is pending and not expired. -/
structure Granting (history : Trace) (requestId : Str) (row : AuthRequest) : Prop where
  read : Called history (.getAuthRequest requestId) (some row)
  pending : row.approvedClientId = []
  inTime : ∃ now, (⟨.inl .time, now⟩ : Event nodeSig) ∈ history ∧ now ≤ row.expiresAt
  authed : ∃ clientId, Authed sodium history clientId

/-- A client was created for the request and is still to be entered there. -/
def Entering (history : Trace) (requestId : Str) : Prop :=
  ∃ c earlier row, history = ⟨.inl (.call (.createClient c)), true⟩ :: earlier ∧
    Granting sodium earlier requestId row

def Barren (history : Trace) : Prop := ∀ c done, ¬Called history (.createClient c) done

def Possible : (operation : nodeSig.Op) → nodeSig.Res operation → Prop
  | .inl (.randombytes size), bytes => bytes.length = size
  | .inl (.call (.approveAuthRequest ..)), approved => approved = true
  | _, _ => True

/-- What a device route may do after what. -/
def conduct : Discipline nodeSig where
  possible := Possible
  allowed history operation :=
    match operation with
    | .inl (.call (.createClient c)) => Barren history ∧ (∃ secret, Minted sodium history c secret) ∧
        (Called history .hasClients false ∨ ∃ requestId row, Granting sodium history requestId row)
    | .inl (.call (.approveAuthRequest requestId clientId secret)) => ∃ c earlier row,
        history = ⟨.inl (.call (.createClient c)), true⟩ :: earlier ∧ c.clientId = clientId ∧
        Minted sodium earlier c secret ∧ Granting sodium earlier requestId row
    | .inl (.call (.deleteClient clientId)) => Barren history ∧ Clean clientId ∧
        ∃ caller, Authed sodium history caller ∧ caller ≠ clientId
    | .inl (.call (.getAuthRequest _)) => (∀ requestId, ¬Entering sodium history requestId) ∧
        ∀ other found, ¬Called history (.getAuthRequest other) found
    | _ => ∀ requestId, ¬Entering sodium history requestId

variable {sodium} {history : Trace} {Value : Type}

/-- Nothing but its own entry follows a client made for a request. -/
def Settled (sodium : Sodium) (history : Trace) : Prop :=
  ∀ requestId, ¬Entering sodium history requestId

theorem settled_nil : Settled sodium [] := by
  rintro _ ⟨_, _, _, ⟨⟩, _⟩

theorem settled_cons {event : Event nodeSig} (history : Trace)
    (other : ∀ c, event ≠ ⟨.inl (.call (.createClient c)), true⟩) :
    Settled sodium (event :: history) := by
  rintro _ ⟨c, _, _, same, _⟩
  exact other c (List.cons.inj same).1

theorem barren_nil : Barren [] := fun _ _ => List.not_mem_nil

theorem barren_cons {event : Event nodeSig} (barren : Barren history)
    (other : ∀ c done, event ≠ ⟨.inl (.call (.createClient c)), done⟩) :
    Barren (event :: history) := by
  intro c done past
  rcases List.mem_cons.mp past with latest | earlier
  · exact other c done latest.symm
  · exact barren c done earlier

theorem Authed.cons {clientId : Str} (event : Event nodeSig)
    (authed : Authed sodium history clientId) : Authed sodium (event :: history) clientId := by
  obtain ⟨secret, info, read, rest⟩ := authed.shown
  exact ⟨secret, info, List.mem_cons_of_mem event read, rest⟩

theorem Granting.cons {requestId : Str} {row : AuthRequest} (event : Event nodeSig)
    (granting : Granting sodium history requestId row) :
    Granting sodium (event :: history) requestId row where
  read := List.mem_cons_of_mem event granting.read
  pending := granting.pending
  inTime := by
    obtain ⟨now, read, early⟩ := granting.inTime
    exact ⟨now, List.mem_cons_of_mem event read, early⟩
  authed := by
    obtain ⟨clientId, authed⟩ := granting.authed
    exact ⟨clientId, authed.cons event⟩

/-- What a route keeps to from some point on. -/
abbrev Conducts (sodium : Sodium) (program : Proc Response) (history : Trace) : Prop :=
  program.wp (conduct sodium).contract (fun _ _ => True) history

/-- The only event before an authenticated route goes on. -/
def lookup (clientId : Str) (info : Client) : Event nodeSig :=
  ⟨.inl (.call (.getClient clientId)), some info⟩

theorem wp_authed {req : HttpRequest} {refused : Response} {rest : Proc Response}
    (later : ∀ info, Authed sodium [lookup req.clientId info] req.clientId →
      Conducts sodium rest [lookup req.clientId info]) :
    Conducts sodium (do if !(← isAuthed sodium req) then return refused
                        rest) [] := by
  unfold isAuthed authenticate
  split
  · trivial
  next given =>
  simp only [Bool.or_eq_true, List.isEmpty_iff, not_or] at given
  refine ⟨settled_nil, fun found _ => ?_⟩
  cases found with
  | none => trivial
  | some info =>
      change Conducts sodium
        (if !decide (hashSecret sodium req.clientSecret info.salt = info.secretHash)
          then .ret refused else rest) [lookup req.clientId info]
      split
      · trivial
      · next shown =>
        simp only [Bool.not_eq_true', decide_eq_false_iff_not, not_not] at shown
        exact later info ⟨req.clientSecret, info, List.mem_singleton_self _, given.1, given.2, shown⟩

/-- What `newClient` returns: the id and secret of the client it tried to create. -/
theorem wp_newClient {deviceName : Str} {now : Int} {rest : Str × Str × Bool → Proc Response}
    (barren : Barren history) (settled : Settled sodium history)
    (source : Called history .hasClients false ∨
      ∃ requestId row, Granting sodium history requestId row)
    (later : ∀ c secret created earlier, Minted sodium earlier c secret →
      (∀ requestId row, Granting sodium history requestId row →
        Granting sodium earlier requestId row) →
      Conducts sodium (rest (c.clientId, secret, created))
        (⟨.inl (.call (.createClient c)), created⟩ :: earlier)) :
    Conducts sodium (newClient sodium deviceName now >>= rest) history := by
  refine ⟨settled, fun id idSize => ⟨settled_cons history (by simp), fun key keySize =>
    ⟨settled_cons _ (by simp), fun salt saltSize => ?_⟩⟩⟩
  let earlier := draw 16 salt :: draw 32 key :: draw 16 id :: history
  have widen : ∀ requestId row, Granting sodium history requestId row →
      Granting sodium earlier requestId row :=
    fun _ _ granting => ((granting.cons _).cons _).cons _
  have minted : Minted sodium earlier ⟨b64urlEncode id, deviceName, b64urlEncode salt,
      hashSecret sodium (b64urlEncode key) (b64urlEncode salt), now⟩ (b64urlEncode key) :=
    ⟨⟨id, key, salt, history, rfl, idSize, keySize, saltSize, rfl, rfl, rfl⟩, rfl⟩
  refine ⟨⟨?_, ⟨_, minted⟩, ?_⟩, fun created _ => later _ _ created _ minted widen⟩
  · exact barren_cons (barren_cons (barren_cons barren (by simp)) (by simp)) (by simp)
  · rcases source with unlocked | ⟨requestId, row, granting⟩
    · exact .inl (List.mem_cons_of_mem _ (List.mem_cons_of_mem _ (List.mem_cons_of_mem _ unlocked)))
    · exact .inr ⟨requestId, row, widen _ _ granting⟩

theorem authRegister_conduct : Conducts sodium (authRegister sodium) [] := by
  refine ⟨settled_nil, fun locked _ => ?_⟩
  cases locked with
  | true => trivial
  | false =>
      refine ⟨settled_cons _ (by simp), fun now _ => ?_⟩
      have barren : Barren [⟨.inl .time, now⟩, ⟨.inl (.call .hasClients), false⟩] :=
        barren_cons (barren_cons barren_nil (by simp)) (by simp)
      apply wp_newClient barren (settled_cons _ (by simp))
      · exact .inl (List.mem_cons_of_mem _ List.mem_cons_self)
      · intro c secret created _ _ _
        cases created <;> trivial

theorem authRequest_conduct (req : HttpRequest) : Conducts sodium (authRequest sodium req) [] := by
  unfold authRequest
  split
  · refine ⟨settled_nil, fun now _ => ⟨settled_cons _ (by simp), fun locked _ => ?_⟩⟩
    cases locked with
    | true =>
        refine ⟨settled_cons _ (by simp), fun requestId _ =>
          ⟨settled_cons _ (by simp), fun added _ => ?_⟩⟩
        cases added with
        | false => trivial
        | true => exact ⟨settled_cons _ (by simp), fun _ _ => trivial⟩
    | false =>
        have barren : Barren [⟨.inl (.call .hasClients), false⟩, ⟨.inl .time, now⟩] :=
          barren_cons (barren_cons barren_nil (by simp)) (by simp)
        apply wp_newClient barren (settled_cons _ (by simp))
        · exact .inl List.mem_cons_self
        · intro c secret created _ _ _
          cases created <;> trivial
  · trivial

theorem authApprove_conduct (req : HttpRequest) : Conducts sodium (authApprove sodium req) [] := by
  apply wp_authed
  intro info authed
  split
  case h_2 => trivial
  split
  case h_2 => trivial
  split
  · trivial
  split
  case h_2 => trivial
  split
  · trivial
  next requestId _ _ =>
  apply wp_perform
  · exact ⟨settled_cons _ (by simp [lookup]), fun other found => by simp [Called, lookup]⟩
  intro found _
  cases found with
  | none => trivial
  | some row =>
      apply wp_perform (settled_cons _ (by simp))
      intro now _
      split
      · exact ⟨settled_cons _ (by simp), fun _ _ => trivial⟩
      next early =>
      split
      · trivial
      next pending =>
      split
      · exact ⟨settled_cons _ (by simp), fun _ _ => trivial⟩
      have granting : Granting sodium [⟨.inl .time, now⟩,
          ⟨.inl (.call (.getAuthRequest requestId)), some row⟩, lookup req.clientId info]
          requestId row :=
        { read := List.mem_cons_of_mem _ List.mem_cons_self
          pending := by simpa using pending
          inTime := ⟨now, List.mem_cons_self, not_lt.mp early⟩
          authed := ⟨req.clientId, (authed.cons _).cons _⟩ }
      have barren : Barren [⟨.inl .time, now⟩,
          ⟨.inl (.call (.getAuthRequest requestId)), some row⟩, lookup req.clientId info] :=
        barren_cons (barren_cons (barren_cons barren_nil (by simp [lookup])) (by simp)) (by simp)
      apply wp_newClient barren (settled_cons _ (by simp)) (.inr ⟨requestId, row, granting⟩)
      intro c secret created earlier minted widen
      cases created with
      | false => trivial
      | true =>
          refine ⟨⟨c, earlier, row, rfl, rfl, minted, widen _ _ granting⟩, fun approved done => ?_⟩
          cases (show approved = true from done)
          trivial

theorem authPoll_conduct (requestId : Option Str) : Conducts sodium (authPoll requestId) [] := by
  cases requestId with
  | none => trivial
  | some requestId =>
      apply wp_perform
      · exact ⟨settled_nil, fun _ _ => List.not_mem_nil⟩
      intro found _
      cases found with
      | none => trivial
      | some row =>
          apply wp_perform (settled_cons _ (by simp))
          intro now _
          split
          · exact ⟨settled_cons _ (by simp), fun _ _ => trivial⟩
          split
          · trivial
          · exact ⟨settled_cons _ (by simp), fun _ _ => trivial⟩

theorem clients_conduct (req : HttpRequest) :
    Conducts sodium (AuthHandlers.clients sodium req) [] := by
  apply wp_authed
  intro info _
  exact ⟨settled_cons _ (by simp [lookup]), fun _ _ => trivial⟩

theorem deleteClient_conduct (req : HttpRequest) (clientId : PathId) :
    Conducts sodium (deleteClient sodium req clientId.text) [] := by
  apply wp_authed
  intro info authed
  split
  · trivial
  next other =>
  refine ⟨⟨barren_cons barren_nil (by simp [lookup]), clientId.clean, req.clientId, authed, other⟩,
    fun deleted _ => ?_⟩
  cases deleted <;> trivial

/-- Every route keeps to the conduct. -/
theorem route_conduct (route : Route) : Conducts sodium (route.program sodium) [] := by
  cases route with
  | register => exact authRegister_conduct
  | request req => exact authRequest_conduct req
  | approve req => exact authApprove_conduct req
  | poll requestId => exact authPoll_conduct requestId
  | clients req => exact clients_conduct req
  | delete req clientId => exact deleteClient_conduct req clientId

theorem possible_handle (input : Input) (operation : LocalOp) (store : Store) :
    Possible (.inl operation) (handle input operation store).1 := by
  cases operation with
  | call call =>
      cases call with
      | approveAuthRequest => rfl
      | _ => trivial
  | randombytes size => exact (List.length_map ..).trans List.length_range
  | _ => trivial

theorem disciplined : Rpc.Disciplined (fun _ _ => conduct sodium) (fun _ _ _ _ => True)
    (system sodium) fun _ _ => True where
  possible _ _ input operation store := possible_handle input operation store
  answers _ _ _ _ := trivial
  program _ route _ := route_conduct route
  serve _ _ routed := by cases routed

/-- In every state each route keeps to the conduct and has kept to it. -/
structure Orderly (sodium : Sodium) (state : World) : Prop where
  complies : ∀ thread ∈ state.threads,
    thread.Complies (fun _ _ => conduct sodium) (fun _ _ _ _ => True)
  followed : ∀ thread ∈ state.threads, (conduct sodium).Followed thread.history

theorem orderly_step {before after : World} {label : Action}
    (step : Rpc.Step (system sodium) label before after) (orderly : Orderly sodium before) :
    Orderly sodium after :=
  ⟨Rpc.complies_step disciplined (fun _ _ _ => trivial) step orderly.complies,
    Rpc.followed_step disciplined step orderly.complies orderly.followed⟩

theorem orderly_idle (stores : Unit → Store) : Orderly sodium ⟨stores, [], []⟩ where
  complies _ member := absurd member List.not_mem_nil
  followed _ member := absurd member List.not_mem_nil

theorem Orderly.allowed {state : World} (orderly : Orderly sodium state) {index : Nat}
    {thread : Thread} (current : state.threads[index]? = some thread) {db : Call}
    {next : db.Res → Proc Response} (here : thread.program = .op (.inl (.call db)) next) :
    (conduct sodium).allowed thread.history (.inl (.call db)) :=
  Rpc.complies_allowed (orderly.complies thread (List.mem_of_getElem? current)) here

/-- A route creates at most one client. -/
theorem created_once (followed : (conduct sodium).Followed history) {left right : Client}
    {done other : Bool} (first : Called history (.createClient left) done)
    (second : Called history (.createClient right) other) : left = right := by
  induction history with
  | nil => cases first
  | cons latest earlier ih =>
      obtain ⟨allowed, _, before⟩ := followed
      rcases List.mem_cons.mp first with rfl | old
      · rcases List.mem_cons.mp second with same | old
        · cases same
          rfl
        · exact absurd old (allowed.1 right other)
      · rcases List.mem_cons.mp second with rfl | recent
        · exact absurd old (allowed.1 left done)
        · exact ih before old recent

/-- And reads at most one request. -/
theorem read_once (followed : (conduct sodium).Followed history) {left right : Str}
    {found other : Option AuthRequest} (first : Called history (.getAuthRequest left) found)
    (second : Called history (.getAuthRequest right) other) : left = right := by
  induction history with
  | nil => cases first
  | cons latest earlier ih =>
      obtain ⟨allowed, _, before⟩ := followed
      rcases List.mem_cons.mp first with rfl | old
      · rcases List.mem_cons.mp second with same | old
        · cases same
          rfl
        · exact absurd old (allowed.2 right other)
      · rcases List.mem_cons.mp second with rfl | recent
        · exact absurd old (allowed.2 left found)
        · exact ih before old recent

/-! Values for runs that can be evaluated: a clock and one byte all draws repeat. -/
def drawing (now : Int) (byte : UInt8) : Input := { Network.clockAt now with bytes := fun _ => byte }

/-- What 16 and 32 such bytes are written as. -/
def idOf (byte : UInt8) : Str := b64urlEncode (List.replicate 16 byte)
def secretOf (byte : UInt8) : Str := b64urlEncode (List.replicate 32 byte)

/-- A request of the device that was given these draws. -/
def fromDevice (byte : UInt8) (body : Option Json) : HttpRequest :=
  ⟨idOf byte, secretOf byte, body⟩

def anonymous : HttpRequest := ⟨[], [], none⟩

def allowing (requestId : Str) : Json :=
  .obj [("request_id", .str requestId), ("allow", .bool true)]

/-- As many operations of one thread. -/
def acts (index count : Nat) (input : Input) : List Action := List.replicate count (.act index input)

/-- One device registers, another asks, and the first lets it in. -/
def admission : List Action :=
  [.start () .register] ++ acts 0 6 (drawing 5 1) ++
  [.start () (.request anonymous)] ++ acts 1 5 (drawing 5 3) ++
  [.start () (.approve (fromDevice 1 (some (allowing (idOf 3)))))] ++ acts 2 8 (drawing 5 2)

end NoMiddle.Devices
