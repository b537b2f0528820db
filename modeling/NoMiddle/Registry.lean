import NoMiddle.DeviceViews
import NoMiddle.Solo

/-! Requests to the device routes handled one at a time. Of each request the record
keeps what was asked, when, the response and all operations in between, and each
route does one of seven things to the two tables. -/
namespace NoMiddle.Registry
open Library Text Crypto DbManager Node Handlers GroupHandlers AuthHandlers Conduct
open Devices DeviceViews

structure Desk where
  store : Store
  history : Trace

def act (input : Input) (operation : nodeSig.Op) (desk : Desk) :
    nodeSig.Res operation × Desk :=
  match operation with
  | .inl operation =>
      let taken := handle input operation desk.store
      (taken.1, ⟨taken.2, ⟨.inl operation, taken.1⟩ :: desk.history⟩)
  | .inr request => (none, ⟨desk.store, ⟨.inr request, none⟩ :: desk.history⟩)

/-- One operation while the clock shows the given time. -/
def step (now : Int) (operation : nodeSig.Op) (desk : Desk) (answer : nodeSig.Res operation)
    (after : Desk) : Prop :=
  ∃ input, input.now = now ∧ act input operation desk = (answer, after)

abbrev contract (now : Int) : Contract nodeSig Desk := .demonic (step now)

structure Entry where
  route : Route
  now : Int
  response : Response
  history : Trace

/-- The request is handled from its first operation to its response. -/
def Handles (sodium : Sodium) (entry : Entry) (store after : Store) : Prop :=
  (entry.route.program sodium).Runs (step entry.now) ⟨store, []⟩ entry.response
    ⟨after, entry.history⟩

/-- All requests since the file was made, the latest first, and the store they leave. -/
inductive Chronicle (sodium : Sodium) : List Entry → Store → Prop where
  | start : Chronicle sodium [] Store.initial
  | next {past store after} (entry : Entry) (run : Chronicle sodium past store)
      (handles : Handles sodium entry store after) : Chronicle sodium (entry :: past) after

/-- The same where every request meets a condition on the record and the store before it. -/
inductive Run (sodium : Sodium) (condition : List Entry → Store → Entry → Prop) :
    List Entry → Store → Prop where
  | start : Run sodium condition [] Store.initial
  | next {past store after} (entry : Entry) (run : Run sodium condition past store)
      (meets : condition past store entry) (handles : Handles sodium entry store after) :
      Run sodium condition (entry :: past) after

/-! What an entry shows. -/

/-- The request generated this client with this secret and stored it. -/
def Made (sodium : Sodium) (history : Trace) (c : Client) (secret : Str) : Prop :=
  ∃ later earlier, history = later ++ ⟨.inl (.call (.createClient c)), true⟩ :: earlier ∧
    Minted sodium earlier c secret

def Unmade (history : Trace) : Prop := ∀ c, ¬Called history (.createClient c) true

/-- And it stored no other. -/
structure Makes (sodium : Sodium) (history : Trace) (c : Client) (secret : Str) : Prop where
  made : Made sodium history c secret
  sole : ∀ later d earlier, history = later ++ ⟨.inl (.call (.createClient d)), true⟩ :: earlier →
    d = c ∧ Minted sodium earlier c secret

/-- A `DELETE` of the client that was answered with 200. -/
def Revokes (entry : Entry) (id : Str) : Prop :=
  ∃ req clientId, entry.route = .delete req clientId ∧ clientId.text = id ∧
    entry.response.code = 200

def Gives (response : Response) (clientId secret : Str) : Prop :=
  ∃ body, response.content = .json body ∧ body.s? "client_id" = some clientId ∧
    body.s? "secret" = some secret

/-- A device has no name, the one the routes have for it, or the one in its request. -/
def Named (entry : Entry) (deviceName : Str) : Prop :=
  deviceName = [] ∨ deviceName = str "New device" ∨
    ∃ req, entry.route = .request req ∧
      req.body.bind (·.optional "name") = some deviceName

/-- An id as `random_b64url(16)` makes it. -/
def Short (text : Str) : Prop := ∃ bytes : Str, bytes.length = 16 ∧ text = b64urlEncode bytes

inductive Outcome (sodium : Sodium) (entry : Entry) (store : Store) : Store → Prop where
  | unchanged (unmade : Unmade entry.history) (keeps : ∀ id, ¬Revokes entry id) :
      Outcome sodium entry store store
  | issued {c secret} (fresh : store.clients.has (cstr c.clientId) = false)
      (named : Named entry c.deviceName) (makes : Makes sodium entry.history c secret)
      (gives : Gives entry.response c.clientId secret) (keeps : ∀ id, ¬Revokes entry id) :
      Outcome sodium entry store { store with clients := createClient c store.clients }
  | asked {requestId deviceName} (drawn : Short requestId) (named : Named entry deviceName)
      (unmade : Unmade entry.history) (keeps : ∀ id, ¬Revokes entry id) :
      Outcome sodium entry store { store with
        authRequests := addAuthRequest requestId deviceName entry.now (entry.now + 600)
          store.authRequests }
  | granted {requestId request c secret}
      (found : store.authRequests.find (cstr requestId) = some request)
      (pending : request.approvedClientId = []) (inTime : entry.now ≤ request.expiresAt)
      (fresh : store.clients.has (cstr c.clientId) = false)
      (makes : Makes sodium entry.history c secret)
      (entered : Called entry.history (.approveAuthRequest requestId c.clientId secret) true)
      (keeps : ∀ id, ¬Revokes entry id) :
      Outcome sodium entry store { store with
        clients := createClient c store.clients
        authRequests := approveAuthRequest requestId c.clientId secret store.authRequests }
  | dropped {requestId request}
      (found : store.authRequests.find (cstr requestId) = some request)
      (stale : request.expiresAt < entry.now ∨ request.approvedClientId = [])
      (unmade : Unmade entry.history) (keeps : ∀ id, ¬Revokes entry id) :
      Outcome sodium entry store { store with
        authRequests := store.authRequests.delete (·.requestId = cstr requestId) }
  | collected {requestId request}
      (found : store.authRequests.find (cstr requestId) = some request)
      (approved : request.approvedClientId ≠ [])
      (gives : Gives entry.response request.approvedClientId request.approvedSecret)
      (unmade : Unmade entry.history) (keeps : ∀ id, ¬Revokes entry id) :
      Outcome sodium entry store { store with
        authRequests := store.authRequests.delete (·.requestId = cstr requestId) }
  | revoked {clientId : PathId} (revokes : ∀ id, Revokes entry id ↔ clientId.text = id)
      (unmade : Unmade entry.history) :
      Outcome sodium entry store { store with
        clients := store.clients.delete (·.clientId = cstr clientId.text) }

section Rules
variable {sodium : Sodium} {now : Int} {desk : Desk} {Value : Type} {post : Value → Desk → Prop}

theorem wp_perform {operation : LocalOp} {rest : operation.Res → Proc Value}
    (later : ∀ input, input.now = now → (rest (handle input operation desk.store).1).wp
      (contract now) post ⟨(handle input operation desk.store).2,
        ⟨.inl operation, (handle input operation desk.store).1⟩ :: desk.history⟩) :
    (perform operation >>= rest).wp (contract now) post desk := by
  rintro _ _ ⟨input, same, ⟨⟩⟩
  exact later input same

variable {store : Store} {history : Trace}

theorem wp_call {db : Call} {rest : db.Res → Proc Value}
    (later : (rest (db.exec now store).1).wp (contract now) post
      ⟨(db.exec now store).2, ⟨.inl (.call db), (db.exec now store).1⟩ :: history⟩) :
    (call db >>= rest).wp (contract now) post ⟨store, history⟩ := by
  apply wp_perform
  rintro input rfl
  exact later

theorem wp_time {rest : Int → Proc Value}
    (later : (rest now).wp (contract now) post ⟨store, ⟨.inl .time, now⟩ :: history⟩) :
    (time >>= rest).wp (contract now) post ⟨store, history⟩ := by
  apply wp_perform
  rintro input rfl
  exact later

theorem wp_getAuthRequest {requestId : Str} {rest : Option AuthRequest → Proc Value}
    (later : ∀ found, store.authRequests.find (cstr requestId) = found →
      (rest found).wp (contract now) post
        ⟨store, ⟨.inl (.call (.getAuthRequest requestId)), found⟩ :: history⟩) :
    (call (.getAuthRequest requestId) >>= rest).wp (contract now) post ⟨store, history⟩ :=
  wp_call (later _ rfl)

theorem wp_random {size : Nat} {rest : Str → Proc Value}
    (later : ∀ bytes : Str, bytes.length = size → (rest (b64urlEncode bytes)).wp (contract now) post
      ⟨store, draw size bytes :: history⟩) :
    (randomB64url size >>= rest).wp (contract now) post ⟨store, history⟩ := by
  apply wp_perform
  intro input _
  exact later _ ((List.length_map ..).trans List.length_range)

theorem wp_notify {payload : Json} {rest : Unit → Proc Value}
    (later : (rest ()).wp (contract now) post
      ⟨store, ⟨.inl (.notify payload), ()⟩ :: history⟩) :
    (notify payload >>= rest).wp (contract now) post ⟨store, history⟩ := by
  apply wp_perform
  intro input _
  exact later

theorem wp_authed {req : HttpRequest} {refused : Response} {rest : Proc Response}
    {post : Response → Desk → Prop}
    (refusal : ∀ history, Unmade history → post refused ⟨store, history⟩)
    (later : ∀ info, rest.wp (contract now) post ⟨store, [lookup req.clientId info]⟩) :
    (do if !(← isAuthed sodium req) then return refused
        rest).wp (contract now) post ⟨store, []⟩ := by
  unfold isAuthed authenticate
  split
  · exact refusal [] fun _ => List.not_mem_nil
  rintro found after ⟨input, _, same⟩
  have looked : after = ⟨store, [⟨.inl (.call (.getClient req.clientId)), found⟩]⟩ := by
    cases same
    rfl
  subst looked
  clear same
  have unmade : Unmade [⟨.inl (.call (.getClient req.clientId)), found⟩] := by
    simp [Unmade, Called]
  cases found with
  | none => exact refusal _ unmade
  | some info =>
      change Program.wp (contract now)
        (if !decide (hashSecret sodium req.clientSecret info.salt = info.secretHash)
          then .ret refused else rest) post ⟨store, [lookup req.clientId info]⟩
      split
      · exact refusal _ unmade
      · exact later info

theorem createClient_taken {c : Client} {clients : Clients}
    (taken : clients.has (cstr c.clientId) = true) : createClient c clients = clients :=
  clients.insert_taken (row c) (allClean_map c.texts) taken

theorem addAuthRequest_taken {requestId deviceName : Str} {createdAt expiresAt : Int}
    {requests : AuthRequests} (taken : requests.has (cstr requestId) = true) :
    addAuthRequest requestId deviceName createdAt expiresAt requests = requests :=
  requests.insert_taken (asked requestId deviceName createdAt expiresAt)
    (allClean_map [requestId, deviceName, [], []]) taken

theorem unmade_cons {event : Event nodeSig} {history : Trace} (unmade : Unmade history)
    (other : ∀ c, event ≠ ⟨.inl (.call (.createClient c)), true⟩) : Unmade (event :: history) := by
  intro c past
  rcases List.mem_cons.mp past with latest | earlier
  · exact other c latest.symm
  · exact unmade c earlier

theorem minted_secret {c d : Client} {left right : Str} (first : Minted sodium history c left)
    (second : Minted sodium history d right) : left = right := by
  obtain ⟨_, key, _, _, same, _, _, _, _, rfl, _⟩ := first.drawn
  obtain ⟨_, other, _, _, also, _, _, _, _, rfl, _⟩ := second.drawn
  rw [same] at also
  cases also
  rfl

theorem Makes.unique {c d : Client} {secret other : Str} (makes : Makes sodium history c secret)
    (made : Made sodium history d other) : d = c ∧ other = secret := by
  obtain ⟨later, earlier, split, minted⟩ := made
  obtain ⟨rfl, own⟩ := makes.sole later d earlier split
  exact ⟨rfl, minted_secret minted own⟩

theorem Makes.cons {c : Client} {secret : Str} {event : Event nodeSig}
    (makes : Makes sodium history c secret)
    (other : ∀ c, event ≠ ⟨.inl (.call (.createClient c)), true⟩) :
    Makes sodium (event :: history) c secret := by
  constructor
  · obtain ⟨later, earlier, rfl, minted⟩ := makes.made
    exact ⟨event :: later, earlier, rfl, minted⟩
  · intro later d earlier split
    cases later with
    | nil => exact absurd (List.cons.inj split).1 (other d)
    | cons _ later => exact makes.sole later d earlier (List.cons.inj split).2

theorem unmade_nil : Unmade [] := fun _ => List.not_mem_nil

/-- A client is generated, and stored unless its id is taken. -/
theorem wp_newClient {deviceName : Str} {time : Int} {rest : Str × Str × Bool → Proc Value}
    (unmade : Unmade history)
    (failed : ∀ id secret later, Unmade later →
      (rest (id, secret, false)).wp (contract now) post ⟨store, later⟩)
    (created : ∀ c secret later, store.clients.has (cstr c.clientId) = false →
      c.deviceName = deviceName → Makes sodium later c secret →
      (rest (c.clientId, secret, true)).wp (contract now) post
        ⟨{ store with clients := createClient c store.clients }, later⟩) :
    (newClient sodium deviceName time >>= rest).wp (contract now) post ⟨store, history⟩ := by
  simp only [newClient, Program.bind_assoc, Program.pure_eq, Program.ret_bind]
  apply wp_random
  intro id idSize
  apply wp_random
  intro key keySize
  apply wp_random
  intro salt saltSize
  let c : Client := ⟨b64urlEncode id, deviceName, b64urlEncode salt,
    hashSecret sodium (b64urlEncode key) (b64urlEncode salt), time⟩
  let earlier := draw 16 salt :: draw 32 key :: draw 16 id :: history
  -- The three draws and the clock make one client and one secret.
  have minted : Minted sodium earlier c (b64urlEncode key) :=
    ⟨⟨id, key, salt, history, rfl, idSize, keySize, saltSize, rfl, rfl, rfl⟩, rfl⟩
  have none : Unmade earlier :=
    unmade_cons (unmade_cons (unmade_cons unmade (by simp [draw])) (by simp [draw]))
      (by simp [draw])
  apply wp_call
  change Program.wp (contract now)
    (rest (c.clientId, b64urlEncode key, !store.clients.has (cstr c.clientId)))
    post ⟨{ store with clients := createClient c store.clients },
      ⟨.inl (.call (.createClient c)), !store.clients.has (cstr c.clientId)⟩ :: earlier⟩
  cases taken : store.clients.has (cstr c.clientId) with
  | true =>
      rw [createClient_taken taken]
      exact failed _ _ _ (unmade_cons none (by simp))
  | false =>
      refine created c (b64urlEncode key) _ taken rfl ⟨⟨[], earlier, rfl, minted⟩, ?_⟩
      intro later d before split
      cases later with
      | nil =>
          cases split
          exact ⟨rfl, minted⟩
      | cons latest later =>
          have past : Called earlier (.createClient d) true := by
            unfold Called
            rw [(List.cons.inj split).2]
            exact List.mem_append_right _ List.mem_cons_self
          exact absurd past (none d)

theorem wp_addAuthRequest {requestId deviceName : Str} {createdAt expiresAt : Int}
    {rest : Bool → Proc Value} (unmade : Unmade history)
    (failed : ∀ later, Unmade later → (rest false).wp (contract now) post ⟨store, later⟩)
    (added : ∀ later, Unmade later →
      (rest true).wp (contract now) post
      ⟨{ store with
        authRequests := addAuthRequest requestId deviceName createdAt expiresAt
          store.authRequests }, later⟩) :
    (call (.addAuthRequest requestId deviceName createdAt expiresAt) >>= rest).wp (contract now)
      post ⟨store, history⟩ := by
  apply wp_call
  change Program.wp (contract now) (rest (!store.authRequests.has (cstr requestId))) post
    ⟨{ store with
      authRequests := addAuthRequest requestId deviceName createdAt expiresAt store.authRequests },
      ⟨.inl (.call (.addAuthRequest requestId deviceName createdAt expiresAt)),
        !store.authRequests.has (cstr requestId)⟩ :: history⟩
  cases taken : store.authRequests.has (cstr requestId) with
  | true =>
      rw [addAuthRequest_taken taken]
      exact failed _ (unmade_cons unmade (by simp))
  | false => exact added _ (unmade_cons unmade (by simp))

/-- How a request ends that is handled alone. -/
abbrev Ends (sodium : Sodium) (route : Route) (now : Int) (store : Store) (response : Response)
    (desk : Desk) : Prop :=
  Outcome sodium ⟨route, now, response, desk.history⟩ store desk.store

theorem register_outcome (store : Store) :
    (authRegister sodium).wp (contract now) (Ends sodium .register now store) ⟨store, []⟩ := by
  have keeps : ∀ response history id, ¬Revokes ⟨.register, now, response, history⟩ id := by
    rintro response history id ⟨_, _, other, _⟩
    cases other
  apply wp_call
  generalize ((Call.hasClients).exec now store).1 = locked
  cases locked with
  | true => exact .unchanged (unmade_cons unmade_nil (by simp)) (keeps _ _)
  | false =>
      apply wp_time
      apply wp_newClient (unmade_cons (unmade_cons unmade_nil (by simp)) (by simp))
      · intro id secret history unmade
        exact .unchanged unmade (keeps _ _)
      · intro c secret history fresh unnamed made
        exact .issued fresh (.inl unnamed) made ⟨_, rfl, rfl, rfl⟩ (keeps _ _)

theorem request_outcome (req : HttpRequest) (store : Store) :
    (authRequest sodium req).wp (contract now) (Ends sodium (.request req) now store)
      ⟨store, []⟩ := by
  have keeps : ∀ response history id, ¬Revokes ⟨.request req, now, response, history⟩ id := by
    rintro response history id ⟨_, _, other, _⟩
    cases other
  unfold authRequest
  split
  case h_2 => exact .unchanged unmade_nil (keeps _ _)
  extract_lets deviceName
  have named : ∀ response history, Named ⟨.request req, now, response, history⟩ deviceName := by
    intro response history
    unfold deviceName
    split
    · next name given =>
      split
      · exact .inr (.inr ⟨req, rfl, given⟩)
      · exact .inr (.inl rfl)
    · exact .inr (.inl rfl)
  apply wp_time
  apply wp_call
  generalize ((Call.hasClients).exec now store).1 = locked
  have quiet : Unmade [⟨.inl (.call .hasClients), locked⟩, ⟨.inl .time, now⟩] :=
    unmade_cons (unmade_cons unmade_nil (by simp)) (by simp)
  -- A node without clients registers the device at once.
  cases locked with
  | true =>
      apply wp_random
      intro bytes size
      apply wp_addAuthRequest (unmade_cons quiet (by simp [draw]))
      · intro later unmade
        exact .unchanged unmade (keeps _ _)
      · intro later unmade
        apply wp_notify
        exact .asked ⟨bytes, size, rfl⟩ (named _ _) (unmade_cons unmade (by simp)) (keeps _ _)
  | false =>
      apply wp_newClient quiet
      · intro id secret history unmade
        exact .unchanged unmade (keeps _ _)
      · intro c secret history fresh same made
        exact .issued fresh (same ▸ named _ _) made ⟨_, rfl, rfl, rfl⟩ (keeps _ _)

theorem approve_outcome (req : HttpRequest) (store : Store) :
    (authApprove sodium req).wp (contract now) (Ends sodium (.approve req) now store)
      ⟨store, []⟩ := by
  have keeps : ∀ response history id, ¬Revokes ⟨.approve req, now, response, history⟩ id := by
    rintro response history id ⟨_, _, other, _⟩
    cases other
  apply wp_authed
  · intro history unmade
    exact .unchanged unmade (keeps _ _)
  intro info
  have first : Unmade [lookup req.clientId info] := unmade_cons unmade_nil (by simp [lookup])
  split
  case h_2 => exact .unchanged first (keeps _ _)
  split
  case h_2 => exact .unchanged first (keeps _ _)
  split
  · exact .unchanged first (keeps _ _)
  split
  case h_2 => exact .unchanged first (keeps _ _)
  next requestId _ =>
  split
  · exact .unchanged first (keeps _ _)
  apply wp_getAuthRequest
  intro answer found
  cases answer with
  | none => exact .unchanged (unmade_cons first (by simp)) (keeps _ _)
  | some request =>
      apply wp_time
      have quiet : Unmade [⟨.inl .time, now⟩,
          ⟨.inl (.call (.getAuthRequest requestId)), some request⟩, lookup req.clientId info] :=
        unmade_cons (unmade_cons first (by simp)) (by simp)
      split
      · next late =>
        apply wp_call
        exact .dropped found (.inl late) (unmade_cons quiet (by simp)) (keeps _ _)
      next early =>
      split
      · exact .unchanged quiet (keeps _ _)
      next open' =>
      -- The request is neither expired nor approved yet.
      have pending : request.approvedClientId = [] := by simpa using open'
      split
      · apply wp_call
        exact .dropped found (.inr pending) (unmade_cons quiet (by simp)) (keeps _ _)
      apply wp_newClient quiet
      · intro id secret later unmade
        exact .unchanged unmade (keeps _ _)
      · intro c secret later fresh _ made
        apply wp_call
        exact .granted found pending (not_lt.mp early) fresh (made.cons (by simp))
          List.mem_cons_self (keeps _ _)

theorem poll_outcome (requestId : Option Str) (store : Store) :
    (authPoll requestId).wp (contract now) (Ends sodium (.poll requestId) now store)
      ⟨store, []⟩ := by
  have keeps : ∀ response history id, ¬Revokes ⟨.poll requestId, now, response, history⟩ id := by
    rintro response history id ⟨_, _, other, _⟩
    cases other
  cases requestId with
  | none => exact .unchanged unmade_nil (keeps _ _)
  | some requestId =>
      apply wp_getAuthRequest
      intro answer found
      cases answer with
      | none => exact .unchanged (unmade_cons unmade_nil (by simp)) (keeps _ _)
      | some request =>
          apply wp_time
          -- Reading the request and the clock makes no client.
          have quiet : Unmade [⟨.inl .time, now⟩,
              ⟨.inl (.call (.getAuthRequest requestId)), some request⟩] :=
            unmade_cons (unmade_cons unmade_nil (by simp)) (by simp)
          split
          · next late =>
            apply wp_call
            exact .dropped found (.inl late) (unmade_cons quiet (by simp)) (keeps _ _)
          split
          · exact .unchanged quiet (keeps _ _)
          · next approved =>
            apply wp_call
            exact .collected found (by simpa using approved) ⟨_, rfl, rfl, rfl⟩
              (unmade_cons quiet (by simp)) (keeps _ _)

theorem clients_outcome (req : HttpRequest) (store : Store) :
    (AuthHandlers.clients sodium req).wp (contract now) (Ends sodium (.clients req) now store)
      ⟨store, []⟩ := by
  have keeps : ∀ response history id, ¬Revokes ⟨.clients req, now, response, history⟩ id := by
    rintro response history id ⟨_, _, other, _⟩
    cases other
  apply wp_authed
  · intro history unmade
    exact .unchanged unmade (keeps _ _)
  · intro info
    apply wp_call
    exact .unchanged (unmade_cons (unmade_cons unmade_nil (by simp [lookup])) (by simp)) (keeps _ _)

theorem delete_outcome (req : HttpRequest) (clientId : PathId) (store : Store) :
    (deleteClient sodium req clientId.text).wp (contract now)
      (Ends sodium (.delete req clientId) now store) ⟨store, []⟩ := by
  have refused : ∀ response history id, response.code ≠ 200 →
      ¬Revokes ⟨.delete req clientId, now, response, history⟩ id := by
    rintro response history id failed ⟨_, _, _, _, done⟩
    exact failed done
  apply wp_authed
  · intro history unmade
    exact .unchanged unmade fun id => refused _ _ id (by simp [error])
  intro info
  have first : Unmade [lookup req.clientId info] := unmade_cons unmade_nil (by simp [lookup])
  split
  · exact .unchanged first fun id => refused _ _ id (by simp [error])
  apply wp_call
  apply Outcome.revoked _ (unmade_cons first (by simp))
  intro id
  constructor
  · rintro ⟨_, _, same, rfl, _⟩
    cases same
    rfl
  · rintro rfl
    exact ⟨req, clientId, rfl, rfl, rfl⟩

theorem handles_outcome {entry : Entry} {store after : Store}
    (handles : Handles sodium entry store after) : Outcome sodium entry store after := by
  obtain ⟨route, now, response, history⟩ := entry
  have outcome : (route.program sodium).wp (contract now) (Ends sodium route now store)
      ⟨store, []⟩ := by
    cases route with
    | register => exact register_outcome store
    | request req => exact request_outcome req store
    | approve req => exact approve_outcome req store
    | poll requestId => exact poll_outcome requestId store
    | clients req => exact clients_outcome req store
    | delete req clientId => exact delete_outcome req clientId store
  exact (Program.wp_demonic_iff _ _ _ _).mp outcome _ _ handles

end Rules

/-! The executable record: each request with the time it comes at and the byte all its
draws repeat. -/
section Execution

def serve (sodium : Sodium) (route : Route) (now : Int) (byte : UInt8) (store : Store) :
    Option (Entry × Store) :=
  ((route.program sodium).exec act (List.replicate 20 (drawing now byte)) ⟨store, []⟩).map
    fun done => (⟨route, now, done.1, done.2.history⟩, done.2.store)

def record (sodium : Sodium) : List (Route × Int × UInt8) → Option (List Entry × Store)
  | [] => some ([], Store.initial)
  | (route, now, byte) :: earlier =>
      (record sodium earlier).bind fun (past, store) =>
        (serve sodium route now byte store).map fun (entry, after) => (entry :: past, after)

theorem exec_runs {Value : Type} (program : Proc Value) (now : Int) (byte : UInt8) (fuel : Nat)
    {desk after : Desk} {value : Value}
    (executed : program.exec act (List.replicate fuel (drawing now byte)) desk =
      some (value, after)) : program.Runs (step now) desk value after := by
  induction program generalizing desk fuel with
  | ret output =>
      simp only [Program.exec, Option.some.injEq, Prod.mk.injEq] at executed
      exact ⟨executed.1.symm, executed.2.symm⟩
  | op operation next ih =>
      cases fuel with
      | zero => cases executed
      | succ fuel => exact ⟨_, _, ⟨drawing now byte, rfl, rfl⟩, ih _ fuel executed⟩

theorem serve_handles {sodium : Sodium} {route : Route} {now : Int} {byte : UInt8}
    {store after : Store} {entry : Entry}
    (served : serve sodium route now byte store = some (entry, after)) :
    entry.now = now ∧ Handles sodium entry store after := by
  obtain ⟨⟨response, desk⟩, executed, same⟩ := Option.map_eq_some_iff.mp served
  cases same
  exact ⟨rfl, exec_runs _ _ _ _ executed⟩

theorem record_chronicle {sodium : Sodium} {steps : List (Route × Int × UInt8)}
    {past : List Entry} {store : Store} (recorded : record sodium steps = some (past, store)) :
    Chronicle sodium past store := by
  induction steps generalizing past store with
  | nil =>
      cases recorded
      exact .start
  | cons latest earlier ih =>
      obtain ⟨⟨before, middle⟩, first, last⟩ := Option.bind_eq_some_iff.mp recorded
      obtain ⟨⟨entry, after⟩, served, same⟩ := Option.map_eq_some_iff.mp last
      cases same
      exact .next entry (ih first) (serve_handles served).2

end Execution
end NoMiddle.Registry
