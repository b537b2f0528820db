import NoMiddle.Faults
import NoMiddle.Registry

/-! Whether a node that has devices refuses to register another one on its own, whatever
SQLite calls fail. `has_clients` answers a failed query as it answers an empty table. -/
namespace NoMiddle.FailClosed
open Library Text Crypto DbManager Node Handlers AuthHandlers Devices DeviceViews Registry Faults

/-- The two routes that need no credentials and may hand some out. -/
inductive Entrance where
  | register
  | request (req : HttpRequest)

def Entrance.program (sodium : Sodium) : Entrance → Proc Response
  | register => authRegister sodium
  | request req => authRequest sodium req

/-- No row is created and no credentials are returned. -/
def Refuses (store : Store) (done : Response × Store) : Prop :=
  done.2.clients = store.clients ∧ ∀ clientId secret, ¬Gives done.1 clientId secret

def FailsClosed (sodium : Sodium) (entrance : Entrance) (drawn : Nat → Drawn) (store : Store) :
    Prop :=
  Refuses store (play (entrance.program sodium) drawn store)

/-- The operation that asks for clients; `request` reads the clock first. -/
def Entrance.asks : Entrance → Nat
  | register => 0
  | request _ => 1

/-- The body is JSON on which `has` throws. -/
def Entrance.Throws : Entrance → Prop
  | register => False
  | request req => ∃ dataJson, req.body = some dataJson ∧ dataJson.hasAll? ["name"] = none

/-- The id made of the bytes drawn. -/
def idFrom (drawn : Drawn) : Str := b64urlEncode ((List.range 16).map drawn.input.bytes)

/-- The query for clients is answered or, when it fails, so does the insert, on its own or
for a key that is taken. -/
def Guarded (entrance : Entrance) (drawn : Nat → Drawn) (store : Store) : Prop :=
  entrance.Throws ∨ (drawn entrance.asks).codes.fails 0 = false ∨
    (drawn 5).codes.fails 0 = true ∨ store.clients.has (cstr (idFrom (drawn 2))) = true

variable {sodium : Sodium} {store : Store} {drawn : Nat → Drawn}

theorem refused (code : Nat) (message : String) : Refuses store (error code message, store) := by
  refine ⟨rfl, fun clientId secret => ?_⟩
  rintro ⟨body, json, given, _⟩
  cases json
  cases given

/-- A failed insert, like a taken key, changes nothing and answers false. -/
theorem create_attempt (now : Int) (codes : Codes) (c : Client) :
    attempt now codes store (.createClient c) =
      if codes.fails 0 = true ∨ store.clients.has (cstr c.clientId) = true then (false, store)
      else (true, { store with clients := createClient c store.clients }) := by
  change (if codes.fails 0 = true then (false, store)
    else (Call.createClient c).exec now store) = _
  cases failing : codes.fails 0 with
  | true => simp
  | false =>
      cases taken : store.clients.has (cstr c.clientId) with
      | true => simp [Call.exec, taken, createClient_taken]
      | false => simp [Call.exec, taken]

/-- A route that has taken the node for an unused one. -/
theorem enrol_iff {deviceName : Str} {now : Int} {rest : Str × Str × Bool → Proc Response}
    {message : String} {fields : Str → Str → List (String × Json)}
    (failure : ∀ id secret, rest (id, secret, false) = .ret (error 500 message))
    (success : ∀ id secret, rest (id, secret, true) = .ret (ok (fields id secret)))
    (gives : ∀ id secret, Gives (ok (fields id secret)) id secret) :
    Refuses store (play (newClient sodium deviceName now >>= rest) drawn store) ↔
      (drawn 3).codes.fails 0 = true ∨ store.clients.has (cstr (idFrom (drawn 0))) = true := by
  let text := fun index size => b64urlEncode ((List.range size).map (drawn index).input.bytes)
  let c : Client := ⟨text 0 16, deviceName, text 2 16,
    hashSecret sodium (text 1 32) (text 2 16), now⟩
  let made := attempt (drawn 3).input.now (drawn 3).codes store (.createClient c)
  have ran : play (newClient sodium deviceName now >>= rest) drawn store =
      play (rest (c.clientId, text 1 32, made.1)) (fun index => drawn (index + 4)) made.2 := rfl
  rw [ran]
  by_cases blocked : (drawn 3).codes.fails 0 = true ∨
      store.clients.has (cstr (idFrom (drawn 0))) = true
  · have unmade : made = (false, store) := (create_attempt ..).trans (if_pos blocked)
    rw [unmade, failure]
    exact iff_of_true (refused 500 message) blocked
  · have created : made = (true, { store with clients := createClient c store.clients }) :=
      (create_attempt ..).trans (if_neg blocked)
    rw [created, success]
    refine iff_of_false ?_ blocked
    rintro ⟨_, ungiven⟩
    exact ungiven _ _ (gives _ _)

theorem asks_truly (now : Int) (codes : Codes) (occupied : store.clients.rows ≠ []) :
    attempt now codes store .hasClients = (!codes.fails 0, store) := by
  change (if codes.fails 0 = true then (false, store) else (!store.clients.rows.isEmpty, store)) = _
  cases rows : store.clients.rows with
  | nil => exact absurd rows occupied
  | cons _ _ => cases codes.fails 0 <;> rfl

/-- The answer decides between the locked node's response and the rest. -/
theorem asked_play {Value : Type} (occupied : store.clients.rows ≠ [])
    (rest : Bool → Proc Value) :
    play (call .hasClients >>= rest) drawn store =
      play (rest (!(drawn 0).codes.fails 0)) (fun index => drawn (index + 1)) store := by
  have asked := asks_truly (drawn 0).input.now (drawn 0).codes occupied
  change play (rest (attempt (drawn 0).input.now (drawn 0).codes store .hasClients).1) _
    (attempt (drawn 0).input.now (drawn 0).codes store .hasClients).2 = _
  rw [asked]

theorem register_iff (occupied : store.clients.rows ≠ []) :
    Refuses store (play (authRegister sodium) drawn store) ↔
      (drawn 0).codes.fails 0 = false ∨ (drawn 5).codes.fails 0 = true ∨
        store.clients.has (cstr (idFrom (drawn 2))) = true := by
  unfold authRegister
  rw [asked_play occupied]
  cases failing : (drawn 0).codes.fails 0 with
  | false => exact iff_of_true (refused 403 _) (.inl rfl)
  | true =>
      change Refuses store (play (newClient sodium [] (drawn 1).input.now >>= _)
        (fun index => drawn (index + 2)) store) ↔ _
      rw [enrol_iff (fun _ _ => rfl) (fun _ _ => rfl) fun _ _ => ?_]
      · simp
      · exact ⟨_, rfl, rfl, rfl⟩

theorem asking_play {Value : Type} (requestId deviceName : Str) (createdAt expiresAt : Int)
    (rest : Bool → Proc Value) : ∃ added after, after.clients = store.clients ∧
      play (call (.addAuthRequest requestId deviceName createdAt expiresAt) >>= rest) drawn store =
        play (rest added) (fun index => drawn (index + 1)) after := by
  refine ⟨_, _, ?_, rfl⟩
  change (if (drawn 0).codes.fails 0 = true then ((false, store) : Bool × Store)
    else _).2.clients = _
  split <;> rfl

theorem request_iff (req : HttpRequest) (occupied : store.clients.rows ≠ []) :
    Refuses store (play (authRequest sodium req) drawn store) ↔
      (Entrance.request req).Throws ∨ (drawn 1).codes.fails 0 = false ∨
        (drawn 5).codes.fails 0 = true ∨ store.clients.has (cstr (idFrom (drawn 2))) = true := by
  unfold authRequest
  split
  · next named reads =>
    have sound : ¬(Entrance.request req).Throws := by
      rintro ⟨dataJson, body, unreadable⟩
      rw [body] at reads
      cases unreadable.symm.trans reads
    change Refuses store (play (call .hasClients >>= _) (fun index => drawn (index + 1)) store) ↔ _
    rw [asked_play occupied]
    cases failing : (drawn 1).codes.fails 0 with
    | false =>
        -- The route asks for an approval and leaves the clients alone.
        refine iff_of_true ?_ (.inr (.inl rfl))
        change Refuses store (play (call (.addAuthRequest _ _ _ _) >>= _)
          (fun index => drawn (index + 3)) store)
        obtain ⟨added, after, same, ran⟩ := asking_play _ _ _ _ _
        rw [ran]
        cases added with
        | false => exact ⟨same, (refused 500 _).2⟩
        | true =>
            refine ⟨same, ?_⟩
            rintro clientId secret ⟨_, json, given, _⟩
            cases json
            cases given
    | true =>
        change Refuses store (play (newClient sodium _ (drawn 0).input.now >>= _)
          (fun index => drawn (index + 2)) store) ↔ _
        rw [enrol_iff (fun _ _ => rfl) (fun _ _ => rfl) fun _ _ => ?_]
        · simp [sound]
        · exact ⟨_, rfl, rfl, rfl⟩
  · next throws =>
    have thrown : (Entrance.request req).Throws := by
      cases body : req.body with
      | none => exact absurd (by rw [body]) (throws false)
      | some dataJson =>
          refine ⟨dataJson, body, ?_⟩
          cases read : dataJson.hasAll? ["name"] with
          | none => rfl
          | some present => exact absurd (by rw [body]; exact read) (throws present)
    refine iff_of_true ⟨rfl, ?_⟩ (.inl thrown)
    rintro clientId secret ⟨_, json, _⟩
    cases json

/-- A node that has devices fails closed exactly if the query that asks for them does not
fail alone. -/
theorem fails_closed_iff (entrance : Entrance) (occupied : store.clients.rows ≠ []) :
    FailsClosed sodium entrance drawn store ↔ Guarded entrance drawn store := by
  cases entrance with
  | register => exact (register_iff occupied).trans (by simp [Guarded, Entrance.Throws, Entrance.asks])
  | request req => exact request_iff req occupied

/-! A node with one device, and a new one whose draws are all the byte 2 while the given
statement fails to be prepared. -/
def inUse : Store :=
  { Store.initial with
    clients := createClient ⟨idOf 1, [], idOf 1, hashSecret .transparent (secretOf 1) (idOf 1), 0⟩
      .empty }

def failing (operation : Option Nat) (index : Nat) : Drawn :=
  ⟨drawing 0 2, ⟨fun _ => decide (some index = operation), fun _ _ => false⟩, none⟩

theorem intruder_refused : FailsClosed .transparent .register (failing none) inUse :=
  (fails_closed_iff .register (by decide +kernel)).mpr (.inr (.inl rfl))

theorem intruder_admitted : inUse.clients.rows ≠ [] ∧
    ¬FailsClosed .transparent .register (failing (some 0)) inUse ∧
    ¬FailsClosed .transparent (.request anonymous) (failing (some 1)) inUse := by
  refine ⟨by decide +kernel, fun closed => ?_, fun closed => ?_⟩
  · have rows := congrArg (·.rows.length) closed.1
    revert rows
    decide +kernel
  · have rows := congrArg (·.rows.length) closed.1
    revert rows
    decide +kernel

end NoMiddle.FailClosed
