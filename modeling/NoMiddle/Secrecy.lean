import NoMiddle.Credentials

/-! Which texts the store keeps. A device gets its secret by polling, so an approval
leaves the secret in the auth request until the poll, next to the row that was to
keep a salted hash only. Where no approval is granted, no secret is ever stored. -/
namespace NoMiddle.Secrecy
open Library Text Crypto DbManager Node AuthHandlers Conduct Devices DeviceViews Registry Credentials

/-! All texts of a JSON value, keys included. -/
mutual
def jsonTexts : Json → List Str
  | .str text => [text]
  | .arr items => itemTexts items
  | .obj fields => fieldTexts fields
  | _ => []

def itemTexts : List Json → List Str
  | [] => []
  | item :: rest => jsonTexts item ++ itemTexts rest

def fieldTexts : List (String × Json) → List Str
  | [] => []
  | (key, value) :: rest => str key :: (jsonTexts value ++ fieldTexts rest)
end

/-- Every text column of every row of every table. -/
def storeTexts (store : Store) : List Str :=
  store.contacts.rows.flatMap Contact.texts ++ store.messages.rows.flatMap Message.texts ++
    store.groups.rows.flatMap Group.texts ++ store.groupMembers.rows.flatMap GroupMember.texts ++
    store.clients.rows.flatMap Client.texts ++ store.authRequests.rows.flatMap AuthRequest.texts ++
    store.groupUpdates.rows.flatMap fun u => u.texts ++ jsonTexts u.snapshotJson

/-- A secret and then a salt have been drawn. -/
def Drew (history : Trace) (key salt : Str) : Prop :=
  ∃ later earlier, history = later ++ draw 16 salt :: draw 32 key :: earlier

/-- The secret that was drawn for the client stored next, whatever its row says. -/
def SecretFor (history : Trace) (c : Client) (secret : Str) : Prop :=
  ∃ later key salt earlier, history = later ++ ⟨.inl (.call (.createClient c)), true⟩ ::
    draw 16 salt :: draw 32 key :: earlier ∧ secret = b64urlEncode key

/-- A client was stored after the secret was drawn for it, and not removed since. -/
def Owned (past : List Entry) (id secret : Str) : Prop :=
  Since (fun entry => ∃ c, SecretFor entry.history c secret ∧ c.clientId = id)
    (fun entry => Revokes entry id) past

/-- No column contains the secret that was drawn for a present client. -/
def NoSecretAtRest (past : List Entry) (store : Store) : Prop :=
  ∀ client ∈ store.clients.rows, ∀ secret, Owned past client.clientId secret →
    ∀ text ∈ storeTexts store, ¬secret <:+: text

/-- Secrets some device uses, and those just drawn. -/
def InUse (past : List Entry) (history : Trace) (secret : Str) : Prop :=
  (∃ key salt, Drew history key salt ∧ secret = b64urlEncode key) ∨ ∃ id, Owned past id secret

variable (sodium : Sodium)

/-- No approval gets as far as entering a secret. And chance does not spell one out: not in
the name a request brings, not in what is stored before it is drawn, not in a hash. -/
structure Discreet (past : List Entry) (store : Store) (entry : Entry) : Prop where
  ungranted : ∀ requestId clientId secret,
    ¬Called entry.history (.approveAuthRequest requestId clientId secret) true
  named : ∀ req name, entry.route = .request req →
    req.body.bind (·.optional "name") = some name →
    ∀ secret, InUse past entry.history secret → ¬secret <:+: cstr name
  unforeseen : ∀ key salt, Drew entry.history key salt →
    ∀ text ∈ storeTexts store, ¬b64urlEncode key <:+: text
  hashed : ∀ key salt, Drew entry.history key salt →
    ∀ secret, InUse past entry.history secret →
      ¬secret <:+: hashSecret sodium (b64urlEncode key) (b64urlEncode salt)

/-- What a run keeps to: no secret in use is contained in a stored text. -/
def Sealed (past : List Entry) (store : Store) : Prop :=
  ∀ id secret, Owned past id secret → ∀ text ∈ storeTexts store, ¬secret <:+: text

variable {sodium} {past : List Entry} {store after : Store} {entry : Entry}

theorem texts_clients {other : Clients} {text : Str}
    (member : text ∈ storeTexts { store with clients := other }) :
    text ∈ storeTexts store ∨ ∃ client ∈ other.rows, text ∈ client.texts := by
  simp only [storeTexts, List.mem_append, List.mem_flatMap] at member ⊢
  rcases member with (((((h | h) | h) | h) | there) | h) | h
  case inl.inl.inr => exact .inr there
  all_goals simp only [h, true_or, or_true]

theorem texts_requests {other : AuthRequests} {text : Str}
    (member : text ∈ storeTexts { store with authRequests := other }) :
    text ∈ storeTexts store ∨ ∃ request ∈ other.rows, text ∈ request.texts := by
  simp only [storeTexts, List.mem_append, List.mem_flatMap] at member ⊢
  rcases member with (((((h | h) | h) | h) | h) | there) | h
  case inl.inr => exact .inr there
  all_goals simp only [h, true_or, or_true]

theorem client_texts {client : Client} (member : client ∈ store.clients.rows) {text : Str}
    (there : text ∈ client.texts) : text ∈ storeTexts store := by
  simp only [storeTexts, List.mem_append, List.mem_flatMap]
  exact .inl (.inl (.inr ⟨client, member, there⟩))

theorem request_texts {request : AuthRequest} (member : request ∈ store.authRequests.rows)
    {text : Str} (there : text ∈ request.texts) : text ∈ storeTexts store := by
  simp only [storeTexts, List.mem_append, List.mem_flatMap]
  exact .inl (.inr ⟨request, member, there⟩)

theorem length_b64url (bytes : Str) : (b64urlEncode bytes).length = (bytes.length + 2) / 3 * 4 :=
  Base64.length_encode bytes

/-- 16 bytes are written in 24 characters and 32 in 44, so no id contains a secret. -/
theorem minted_lengths {history : Trace} {c : Client} {secret : Str}
    (minted : Minted sodium history c secret) :
    c.clientId.length = 24 ∧ secret.length = 44 ∧ c.salt.length = 24 := by
  obtain ⟨id, key, salt, _, _, idSize, keySize, saltSize, same, also, salted⟩ := minted.drawn
  rw [same, also, salted]
  simp only [length_b64url, idSize, keySize, saltSize]
  decide

theorem secretFor_called {history : Trace} {c : Client} {secret : Str}
    (own : SecretFor history c secret) : Called history (.createClient c) true := by
  obtain ⟨later, _, _, _, rfl, _⟩ := own
  exact List.mem_append_right later List.mem_cons_self

theorem made_secretFor {history : Trace} {c : Client} {secret : Str}
    (made : Made sodium history c secret) : SecretFor history c secret := by
  obtain ⟨later, _, rfl, minted⟩ := made
  obtain ⟨id, key, salt, earlier, rfl, _, _, _, _, same, _⟩ := minted.drawn
  exact ⟨later, key, salt, _, rfl, same⟩

theorem valid_owned {id secret : Str} (valid : Valid sodium past id secret) :
    Owned past id secret :=
  valid.mono fun _ ⟨c, made, same⟩ => ⟨c, made_secretFor made, same⟩

/-- The one client that was stored has one secret. -/
theorem makes_secretFor {history : Trace} {c d : Client} {secret other : Str}
    (makes : Makes sodium history c secret) (own : SecretFor history d other) :
    d = c ∧ other = secret := by
  obtain ⟨later, key, salt, earlier, split, rfl⟩ := own
  obtain ⟨rfl, minted⟩ := makes.sole later d _ split
  obtain ⟨_, _, _, _, same, _, _, _, _, rfl, _⟩ := minted.drawn
  cases same
  exact ⟨rfl, rfl⟩

/-- And it was drawn right before, with the salt that is in its hash. -/
theorem makes_drew {history : Trace} {c : Client} {secret : Str}
    (makes : Makes sodium history c secret) : ∃ key salt, Drew history key salt ∧
      secret = b64urlEncode key ∧
      c.secretHash = hashSecret sodium (b64urlEncode key) (b64urlEncode salt) := by
  obtain ⟨later, _, split, minted⟩ := makes.made
  obtain ⟨id, key, salt, earlier, rfl, _, _, _, _, rfl, salted⟩ := minted.drawn
  refine ⟨key, salt, ⟨later ++ [_], _, split.trans (List.append_cons ..)⟩, rfl, ?_⟩
  rw [minted.hashed, salted]

theorem not_infix {secret text : Str} (long : text.length < secret.length) :
    ¬secret <:+: text := by
  intro contained
  exact absurd contained.length_le (not_le.mpr long)

theorem cstr_length (text : Str) : (cstr text).length ≤ text.length :=
  (List.takeWhile_prefix _).length_le

theorem not_infix_cstr {secret text : Str} (apart : ¬secret <:+: text) :
    ¬secret <:+: cstr text :=
  fun contained => apart (contained.trans (List.takeWhile_prefix _).isInfix)

theorem owned_cons {id secret : Str} (owned : Owned (entry :: past) id secret) :
    (∃ c, SecretFor entry.history c secret) ∨ Owned past id secret := by
  rcases Since.cons_iff.mp owned with ⟨c, own, _⟩ | ⟨_, older⟩
  · exact .inl ⟨c, own⟩
  · exact .inr older

theorem owned_unmade (unmade : Unmade entry.history) {id secret : Str}
    (owned : Owned (entry :: past) id secret) : Owned past id secret := by
  rcases owned_cons owned with ⟨c, own⟩ | older
  · exact absurd (secretFor_called own) (unmade c)
  · exact older

/-- A device's name is too short for a secret, or was looked at when it was asked for. -/
theorem named_apart (meets : Discreet sodium past store entry) {deviceName secret : Str}
    (named : Named entry deviceName) (long : secret.length = 44)
    (used : InUse past entry.history secret) : ¬secret <:+: cstr deviceName := by
  rcases named with rfl | rfl | ⟨req, same, given⟩
  · exact not_infix (by simp [cstr, long])
  · exact not_infix (by rw [long]; decide)
  · exact meets.named req deviceName same given secret used

/-- What a run keeps to besides: the secrets are as long as they were drawn. -/
def Long (past : List Entry) : Prop := ∀ id secret, Owned past id secret → secret.length = 44

theorem long_step (kept : Long past) (outcome : Outcome sodium entry store after) :
    Long (entry :: past) := by
  intro id secret owned
  rcases owned_cons owned with ⟨d, own⟩ | older
  · have made : ∀ {c fresh}, Makes sodium entry.history c fresh → secret.length = 44 := by
      intro c fresh makes
      obtain ⟨_, minted⟩ := made_minted makes.made
      rw [(makes_secretFor makes own).2]
      exact (minted_lengths minted).2.1
    cases outcome_effect outcome with
    | keeps _ unmade _ | removes _ _ unmade _ => exact absurd (secretFor_called own) (unmade d)
    | adds _ makes _ _ => exact made makes
  · exact kept id secret older

theorem sealed_step (lengthy : Long past) (kept : Sealed past store)
    (meets : Discreet sodium past store entry) (outcome : Outcome sodium entry store after) :
    Sealed (entry :: past) after := by
  intro id secret owned text member
  have long : secret.length = 44 := long_step lengthy outcome id secret owned
  cases outcome with
  | unchanged unmade _ => exact kept id secret (owned_unmade unmade owned) text member
  | @issued c fresh _ named makes _ _ =>
      obtain ⟨key, salt, drew, rfl, hash⟩ := makes_drew makes
      obtain ⟨_, minted⟩ := made_minted makes.made
      obtain ⟨idLength, _, saltLength⟩ := minted_lengths minted
      -- A secret that is in use now is the fresh one or was in use before.
      have source : secret = b64urlEncode key ∨ Owned past id secret :=
        (owned_cons owned).imp_left fun ⟨_, own⟩ => (makes_secretFor makes own).2
      have used : InUse past entry.history secret :=
        source.imp (fun same => ⟨key, salt, drew, same⟩) fun older => ⟨id, older⟩
      have apart : ∀ text ∈ storeTexts store, ¬secret <:+: text := by
        intro text old
        rcases source with rfl | older
        · exact meets.unforeseen key salt drew text old
        · exact kept id secret older text old
      rcases texts_clients member with old | ⟨client, inserted, there⟩
      · exact apart text old
      rcases mem_createClient inserted with present | rfl
      · exact apart text (client_texts present there)
      simp only [Client.texts, row, List.mem_cons, List.not_mem_nil, or_false] at there
      rcases there with rfl | rfl | rfl | rfl
      · exact not_infix (by have := cstr_length c.clientId; omega)
      · exact named_apart meets named long used
      · exact not_infix (by have := cstr_length c.salt; omega)
      · rw [hash]
        exact not_infix_cstr (meets.hashed key salt drew secret used)
  | @asked requestId deviceName drawn named unmade _ =>
      have older := owned_unmade unmade owned
      rcases texts_requests member with old | ⟨request, inserted, there⟩
      · exact kept id secret older text old
      rcases mem_addAuthRequest inserted with present | rfl
      · exact kept id secret older text (request_texts present there)
      obtain ⟨bytes, size, rfl⟩ := drawn
      simp only [AuthRequest.texts, asked, List.mem_cons, List.not_mem_nil, or_false] at there
      rcases there with rfl | rfl | rfl | rfl
      · -- The texts a route draws itself are too short to contain a secret.
        have short : (b64urlEncode bytes).length = 24 := by rw [length_b64url, size]
        exact not_infix (by have := cstr_length (b64urlEncode bytes); omega)
      · exact named_apart meets named long (.inr ⟨id, older⟩)
      · exact not_infix (by simp [long])
      · exact not_infix (by simp [long])
  | granted _ _ _ _ _ entered _ => exact absurd entered (meets.ungranted _ _ _)
  | dropped _ _ unmade _ | collected _ _ _ unmade _ =>
      rcases texts_requests member with old | ⟨request, remains, there⟩
      · exact kept id secret (owned_unmade unmade owned) text old
      · exact kept id secret (owned_unmade unmade owned) text
          (request_texts (List.mem_of_mem_filter remains) there)
  | revoked _ unmade =>
      rcases texts_clients member with old | ⟨client, remains, there⟩
      · exact kept id secret (owned_unmade unmade owned) text old
      · exact kept id secret (owned_unmade unmade owned) text
          (client_texts (List.mem_of_mem_filter remains) there)

theorem sealed_run (run : Run sodium (Discreet sodium) past store) :
    Long past ∧ Sealed past store := by
  induction run with
  | start =>
      constructor
      · intro id secret owned
        exact absurd owned Since.not_nil
      · intro id secret owned
        exact absurd owned Since.not_nil
  | next entry _ meets handles ih =>
      have outcome := handles_outcome handles
      exact ⟨long_step ih.1 outcome, sealed_step ih.1 ih.2 meets outcome⟩

/-- As long as no approval is granted, no table holds the secret of a registered client. -/
theorem secrets_hidden (run : Run sodium (Discreet sodium) past store) :
    NoSecretAtRest past store := by
  intro client _ secret owned
  exact (sealed_run run).2 client.clientId secret owned

/-! The executable run: each request is handled if it meets the condition. -/
section Execution

def drawn (size : Nat) (history : Trace) : List Str :=
  history.filterMap fun event =>
    match event with
    | ⟨.inl (.randombytes drew), bytes⟩ => if drew = size then some bytes else none
    | _ => none

/-- The secrets of all devices there ever were. -/
def secrets (past : List Entry) : List Str :=
  past.flatMap fun entry => (drawn 32 entry.history).map b64urlEncode

def granting (event : Event nodeSig) : Bool :=
  match event with
  | ⟨.inl (.call (.approveAuthRequest ..)), approved⟩ => approved
  | _ => false

def apart (secret text : Str) : Bool := !decide (secret <:+: text)

/-- A check that implies the condition. -/
def discreet (sodium : Sodium) (past : List Entry) (store : Store) (entry : Entry) : Bool :=
  let keys := drawn 32 entry.history
  let all := secrets (entry :: past)
  !entry.history.any granting &&
    (match entry.route with
    | .request req => ((req.body.bind (·.optional "name")).toList).all fun name =>
        all.all (apart · (cstr name))
    | _ => true) &&
    (storeTexts store).all (fun text => keys.all fun key => apart (b64urlEncode key) text) &&
    keys.all fun key => (drawn 16 entry.history).all fun salt => all.all
      (apart · (hashSecret sodium (b64urlEncode key) (b64urlEncode salt)))

theorem drew_drawn {history : Trace} {key salt : Str} (drew : Drew history key salt) :
    key ∈ drawn 32 history ∧ salt ∈ drawn 16 history := by
  obtain ⟨later, earlier, rfl⟩ := drew
  simp [drawn, draw]

theorem secretFor_drew {history : Trace} {c : Client} {secret : Str}
    (own : SecretFor history c secret) :
    ∃ key salt, Drew history key salt ∧ secret = b64urlEncode key := by
  obtain ⟨later, key, salt, earlier, rfl, same⟩ := own
  exact ⟨key, salt, ⟨later ++ [_], earlier, List.append_cons ..⟩, same⟩

theorem inUse_secrets {secret : Str} (used : InUse past entry.history secret) :
    secret ∈ secrets (entry :: past) := by
  rcases used with ⟨key, salt, drew, rfl⟩ | ⟨id, _, maker, _, rfl, ⟨c, own, _⟩, _⟩
  · exact List.mem_flatMap.mpr ⟨entry, List.mem_cons_self,
      List.mem_map.mpr ⟨key, (drew_drawn drew).1, rfl⟩⟩
  · obtain ⟨key, salt, drew, rfl⟩ := secretFor_drew own
    exact List.mem_flatMap.mpr ⟨maker, by simp, List.mem_map.mpr ⟨key, (drew_drawn drew).1, rfl⟩⟩

theorem discreet_sound (passes : discreet sodium past store entry = true) :
    Discreet sodium past store entry := by
  simp only [discreet, Bool.and_eq_true, List.all_eq_true, Bool.not_eq_true',
    List.any_eq_false] at passes
  obtain ⟨⟨⟨ungranted, named⟩, unforeseen⟩, hashed⟩ := passes
  constructor
  case ungranted =>
    intro requestId clientId secret called
    exact ungranted _ called rfl
  case named =>
    intro req name same given secret used
    rw [same] at named
    simp only [given, List.all_eq_true] at named
    simpa [apart] using named name (by simp) secret (inUse_secrets used)
  case unforeseen =>
    intro key salt drew text member
    simpa [apart] using unforeseen text member key (drew_drawn drew).1
  case hashed =>
    intro key salt drew secret used
    simpa [apart] using hashed key (drew_drawn drew).1 salt (drew_drawn drew).2 secret
      (inUse_secrets used)

def discreetly (sodium : Sodium) : List (Route × Int × UInt8) → Option (List Entry × Store)
  | [] => some ([], Store.initial)
  | (route, now, byte) :: earlier =>
      (discreetly sodium earlier).bind fun (past, store) =>
        (serve sodium route now byte store).bind fun (entry, after) =>
          if discreet sodium past store entry then some (entry :: past, after) else none

theorem discreetly_run {steps : List (Route × Int × UInt8)}
    (handled : discreetly sodium steps = some (past, store)) :
    Run sodium (Discreet sodium) past store := by
  induction steps generalizing past store with
  | nil =>
      cases handled
      exact .start
  | cons latest earlier ih =>
      obtain ⟨⟨before, middle⟩, first, rest⟩ := Option.bind_eq_some_iff.mp handled
      obtain ⟨⟨entry, after⟩, served, last⟩ := Option.bind_eq_some_iff.mp rest
      dsimp only at last
      split at last
      · next passes =>
        cases last
        exact .next entry (ih first) (discreet_sound passes) (serve_handles served).2
      · cases last

end Execution

def refusing (requestId : Str) : Json :=
  .obj [("request_id", .str requestId), ("allow", .bool false)]

/-- Two devices ask to be admitted; the first is refused. -/
def rejection : List (Route × Int × UInt8) :=
  [(.approve (fromDevice 1 (some (refusing (idOf 2)))), 30, 0), (.request anonymous, 20, 3),
    (.request ⟨[], [], some (.obj [("name", .str (str "laptop"))])⟩, 10, 2), (.register, 0, 1)]

theorem rejection_hidden : ∃ past store, Run spelling (Discreet spelling) past store ∧
    store.clients.has (idOf 1) = true ∧ store.authRequests.has (idOf 3) = true ∧
    NoSecretAtRest past store := by
  have ran : (discreetly spelling rejection).any (fun done => done.2.clients.has (idOf 1) &&
      done.2.authRequests.has (idOf 3)) = true := by
    decide +kernel
  obtain ⟨⟨past, store⟩, handled, holds⟩ := (Option.any_eq_true _ _).mp ran
  obtain ⟨present, waiting⟩ := (Bool.and_eq_true _ _).mp holds
  have run := discreetly_run handled
  exact ⟨past, store, run, present, waiting, secrets_hidden run⟩

/-- The second device's request is approved and not polled for. -/
def invitation : List (Route × Int × UInt8) :=
  [(.approve (fromDevice 1 (some (allowing (idOf 2)))), 20, 3), (.request anonymous, 10, 2),
    (.register, 0, 1)]

theorem invitation_reveals : ∃ past store, Chronicle spelling past store ∧
    ¬NoSecretAtRest past store := by
  have ran : (record spelling invitation).any (fun done =>
      (done.2.clients.find (cstr (idOf 3))).any (fun info => decide (info.clientId = idOf 3) &&
        decide (hashSecret spelling (secretOf 3) info.salt = info.secretHash)) &&
      decide (secretOf 3 ∈ storeTexts done.2)) = true := by
    decide +kernel
  obtain ⟨⟨past, store⟩, recorded, holds⟩ := (Option.any_eq_true _ _).mp ran
  obtain ⟨present, stored⟩ := (Bool.and_eq_true _ _).mp holds
  obtain ⟨info, found, shown⟩ := (Option.any_eq_true _ _).mp present
  obtain ⟨named, hashed⟩ := (Bool.and_eq_true _ _).mp shown
  have run := record_chronicle recorded
  have valid : Valid spelling past (idOf 3) (secretOf 3) :=
    (valid_iff spelling_injective (recorded_run run) (b64urlEncode_clean _)).mpr
      ⟨by decide +kernel, info, found, of_decide_eq_true hashed⟩
  refine ⟨past, store, run, fun hidden => ?_⟩
  have member := ((store.clients.find_eq_some _ info).mp found).1
  rw [← of_decide_eq_true named] at valid
  exact hidden info member (secretOf 3) (valid_owned valid) (secretOf 3) (of_decide_eq_true stored)
    List.infix_rfl

end NoMiddle.Secrecy
