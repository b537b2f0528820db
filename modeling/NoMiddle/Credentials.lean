import NoMiddle.Library.Since
import NoMiddle.Registry

/-! Which credentials a node accepts. A row of `clients` is exactly what a request
generated and no `DELETE` took away since, so the salted hash in it, compared with
the hash of the secret shown, accepts the pairs that were handed out and no others. -/
namespace NoMiddle.Credentials
open Library Text Crypto DbManager Node Handlers GroupHandlers AuthHandlers Conduct
open Devices DeviceViews Registry

variable (sodium : Sodium)

/-- `authenticate` can end with this result. -/
def Answers (now : Int) (store : Store) (clientId secret : Str) (result : Bool) : Prop :=
  ∃ after, (authenticate sodium clientId secret).Runs (step now) ⟨store, []⟩ result after

/-- A request generated the pair and stored it, and no later `DELETE` of the id succeeded. -/
def Valid (past : List Entry) (clientId secret : Str) : Prop :=
  Since (fun entry => ∃ c, Made sodium entry.history c secret ∧ c.clientId = clientId)
    (fun entry => Revokes entry clientId) past

/-- The row was inserted for a generated client and is still to be there. -/
def Registered (past : List Entry) (client : Client) : Prop :=
  Since (fun entry => ∃ c secret, Made sodium entry.history c secret ∧ client = row c)
    (fun entry => Revokes entry client.clientId) past

/-- The table holds what the record says. -/
def Recorded (past : List Entry) (store : Store) : Prop :=
  ∀ id client, store.clients.find id = some client ↔
    client.clientId = id ∧ Registered sodium past client

variable {sodium} {past : List Entry} {store after : Store} {entry : Entry}

/-- What a request does to the table of clients, whatever it does to the other one. -/
inductive Effect (sodium : Sodium) (entry : Entry) (store after : Store) : Prop where
  | keeps (same : after.clients = store.clients) (unmade : Unmade entry.history)
      (kept : ∀ id, ¬Revokes entry id)
  | adds {c secret} (fresh : store.clients.has (cstr c.clientId) = false)
      (makes : Makes sodium entry.history c secret) (kept : ∀ id, ¬Revokes entry id)
      (changed : after.clients = createClient c store.clients)
  | removes {clientId : Str} (clean : Clean clientId)
      (revokes : ∀ id, Revokes entry id ↔ clientId = id) (unmade : Unmade entry.history)
      (changed : after.clients = store.clients.delete (·.clientId = cstr clientId))

theorem outcome_effect (outcome : Outcome sodium entry store after) :
    Effect sodium entry store after := by
  cases outcome with
  | unchanged unmade kept => exact .keeps rfl unmade kept
  | issued fresh _ makes _ kept => exact .adds fresh makes kept rfl
  | asked _ _ unmade kept => exact .keeps rfl unmade kept
  | granted _ _ _ fresh makes _ kept => exact .adds fresh makes kept rfl
  | dropped _ _ unmade kept => exact .keeps rfl unmade kept
  | collected _ _ _ unmade kept => exact .keeps rfl unmade kept
  | revoked revokes unmade => exact .removes (PathId.clean _) revokes unmade rfl

theorem made_called {history : Trace} {c : Client} {secret : Str}
    (made : Made sodium history c secret) : Called history (.createClient c) true := by
  obtain ⟨later, earlier, rfl, _⟩ := made
  exact List.mem_append_right later List.mem_cons_self

theorem mem_createClient {c client : Client} {clients : Clients}
    (member : client ∈ (createClient c clients).rows) : client ∈ clients.rows ∨ client = row c :=
  clients.mem_insert (allClean_map c.texts) member

theorem mem_addAuthRequest {requestId deviceName : Str} {createdAt expiresAt : Int}
    {request : AuthRequest} {requests : AuthRequests}
    (member : request ∈ (addAuthRequest requestId deviceName createdAt expiresAt requests).rows) :
    request ∈ requests.rows ∨ request = asked requestId deviceName createdAt expiresAt :=
  requests.mem_insert (allClean_map [requestId, deviceName, [], []]) member

theorem made_minted {history : Trace} {c : Client} {secret : Str}
    (made : Made sodium history c secret) : ∃ earlier, Minted sodium earlier c secret := by
  obtain ⟨_, earlier, _, minted⟩ := made
  exact ⟨earlier, minted⟩

theorem minted_row_id {history : Trace} {c : Client} {secret : Str}
    (minted : Minted sodium history c secret) : (row c).clientId = c.clientId := by
  obtain ⟨id, _, _, _, _, _, _, _, same, _⟩ := minted.drawn
  change cstr c.clientId = c.clientId
  rw [same]
  exact cstr_of_clean (b64urlEncode_clean id)

theorem minted_given {history : Trace} {c : Client} {secret : Str}
    (minted : Minted sodium history c secret) : c.clientId ≠ [] ∧ secret ≠ [] := by
  obtain ⟨id, key, _, _, _, idSize, keySize, _, same, also, _⟩ := minted.drawn
  rw [same, also]
  constructor
  · apply b64urlEncode_ne_nil
    rintro rfl
    cases idSize
  · apply b64urlEncode_ne_nil
    rintro rfl
    cases keySize

theorem minted_row_hash {history : Trace} {c : Client} {secret : Str}
    (minted : Minted sodium history c secret) :
    hashSecret sodium secret (row c).salt = (row c).secretHash := by
  obtain ⟨_, _, salt, _, _, _, _, _, _, _, salted⟩ := minted.drawn
  change hashSecret sodium secret (cstr c.salt) = cstr c.secretHash
  have saltClean : Clean c.salt := by
    rw [salted]
    exact b64urlEncode_clean salt
  have hashClean : Clean c.secretHash := by
    rw [minted.hashed]
    exact b64urlEncode_clean _
  rw [cstr_of_clean saltClean, cstr_of_clean hashClean, minted.hashed]

theorem registered_unmade {client : Client} (unmade : Unmade entry.history) :
    Registered sodium (entry :: past) client ↔
      ¬Revokes entry client.clientId ∧ Registered sodium past client := by
  unfold Registered
  rw [Since.cons_iff]
  constructor
  · rintro (⟨c, secret, made, _⟩ | older)
    · exact absurd (made_called made) (unmade c)
    · exact older
  · exact .inr

theorem recorded_step (recorded : Recorded sodium past store)
    (effect : Effect sodium entry store after) : Recorded sodium (entry :: past) after := by
  intro id client
  cases effect with
  | keeps same unmade kept =>
      rw [same, recorded id client, registered_unmade unmade]
      simp only [kept client.clientId, not_false_eq_true, true_and]
  | @adds c secret fresh makes kept changed =>
      have table : after.clients.find id = (store.clients.find id).or
          (if cstr c.clientId = id then some (row c) else none) := by
        rw [changed]
        exact store.clients.find_insert (row c) (allClean_map c.texts) id
      unfold Registered
      rw [table, Since.cons_iff]
      constructor
      · intro found
        cases old : store.clients.find id with
        | some other =>
            rw [old] at found
            cases found
            obtain ⟨key, registered⟩ := (recorded id client).mp old
            exact ⟨key, .inr ⟨kept _, registered⟩⟩
        | none =>
            rw [old, Option.none_or] at found
            split at found
            · next key =>
              cases found
              exact ⟨key, .inl ⟨c, secret, makes.made, rfl⟩⟩
            · cases found
      · rintro ⟨rfl, ⟨d, other, made, rfl⟩ | ⟨_, registered⟩⟩
        · obtain ⟨rfl, rfl⟩ := makes.unique made
          -- Its key was free, so the row is the new one.
          have free : store.clients.find (row d).clientId = none := by
            simpa [Table.has, row] using fresh
          rw [free]
          exact if_pos rfl
        · rw [(recorded client.clientId client).mpr ⟨rfl, registered⟩]
          rfl
  | @removes clientId clean revokes unmade changed =>
      rw [changed, Table.find_delete, registered_unmade unmade, revokes, cstr_of_clean clean,
        Option.filter_eq_some_iff, recorded id client]
      simp only [Bool.not_eq_true', decide_eq_false_iff_not]
      tauto

theorem recorded_run (run : Chronicle sodium past store) : Recorded sodium past store := by
  induction run with
  | start =>
      intro id client
      constructor
      · intro found
        cases found
      · rintro ⟨_, registered⟩
        exact absurd registered Since.not_nil
  | next entry _ handles ih => exact recorded_step ih (outcome_effect (handles_outcome handles))

theorem looked {now : Int} {clientId : Str} {answer : Option Client}
    (found : store.clients.find (cstr clientId) = answer) :
    step now (.inl (.call (.getClient clientId))) ⟨store, []⟩ answer
      ⟨store, [⟨.inl (.call (.getClient clientId)), answer⟩]⟩ := by
  subst found
  exact ⟨drawing now 0, rfl, rfl⟩

/-- What a comparison of hashes says about the row found. -/
theorem answers_iff (now : Int) (clientId secret : Str) (result : Bool) :
    Answers sodium now store clientId secret result ↔
      (result = true ↔ (clientId ≠ [] ∧ secret ≠ []) ∧
        ∃ info, store.clients.find (cstr clientId) = some info ∧
          hashSecret sodium secret info.salt = info.secretHash) := by
  unfold Answers authenticate
  split
  · next missing =>
    simp only [Bool.or_eq_true, List.isEmpty_iff] at missing
    have refused : ¬(clientId ≠ [] ∧ secret ≠ []) := by tauto
    simp only [refused, false_and, iff_false, Bool.not_eq_true]
    constructor
    · rintro ⟨after, rfl, _⟩
      rfl
    · rintro rfl
      exact ⟨_, rfl, rfl⟩
  · next given =>
    simp only [Bool.or_eq_true, List.isEmpty_iff, not_or] at given
    constructor
    · rintro ⟨after, answer, middle, ⟨input, _, acted⟩, rest⟩
      have looked : store.clients.find (cstr clientId) = answer := congrArg Prod.fst acted
      rw [looked]
      cases answer with
      | none =>
          obtain ⟨rfl, _⟩ := rest
          simp
      | some info =>
          obtain ⟨rfl, _⟩ := rest
          simp [given]
    · intro agrees
      cases found : store.clients.find (cstr clientId) with
      | none => exact ⟨_, none, _, looked found, by simpa [found] using agrees, rfl⟩
      | some info =>
          refine ⟨_, some info, _, looked found, Bool.eq_iff_iff.mpr ?_, rfl⟩
          simpa [found, given] using agrees

theorem valid_iff (injective : ∀ secret salt other salt',
      hashSecret sodium secret salt = hashSecret sodium other salt' → secret = other ∧ salt = salt')
    (recorded : Recorded sodium past store) {clientId secret : Str} (cleanId : Clean clientId) :
    Valid sodium past clientId secret ↔ (clientId ≠ [] ∧ secret ≠ []) ∧
      ∃ info, store.clients.find (cstr clientId) = some info ∧
        hashSecret sodium secret info.salt = info.secretHash := by
  rw [cstr_of_clean cleanId]
  constructor
  · rintro ⟨newer, entry, older, split, ⟨c, made, rfl⟩, kept⟩
    obtain ⟨_, minted⟩ := made_minted made
    have key := minted_row_id minted
    refine ⟨minted_given minted, row c, ?_, minted_row_hash minted⟩
    exact (recorded c.clientId (row c)).mpr ⟨key,
      newer, entry, older, split, ⟨c, secret, made, rfl⟩, by rwa [key]⟩
  · rintro ⟨_, info, found, shown⟩
    obtain ⟨rfl, newer, entry, older, split, ⟨c, issued, made, rfl⟩, kept⟩ :=
      (recorded clientId info).mp found
    obtain ⟨_, minted⟩ := made_minted made
    obtain ⟨rfl, _⟩ := injective _ _ _ _ (shown.trans (minted_row_hash minted).symm)
    rw [minted_row_id minted] at kept ⊢
    exact ⟨newer, entry, older, split, ⟨c, made, rfl⟩, kept⟩

/-- Shown a pair of header values, a node that handles its requests one at a time accepts
it exactly if it was issued and not revoked since. -/
theorem accepts_issued (injective : ∀ secret salt other salt',
      hashSecret sodium secret salt = hashSecret sodium other salt' → secret = other ∧ salt = salt')
    (run : Chronicle sodium past store) {clientId secret : Str} (cleanId : Clean clientId)
    (now : Int) (result : Bool) :
    Answers sodium now store clientId secret result ↔
      (result = true ↔ Valid sodium past clientId secret) := by
  rw [valid_iff injective (recorded_run run) cleanId]
  exact answers_iff now clientId secret result

/-- A hash that spells out the secret, each byte marked, and then the salt. -/
def spelling : Sodium :=
  { Sodium.transparent with
    cryptoGenerichash := fun message key => message.flatMap (fun byte => [1, byte]) ++ 0 :: key }

theorem spelling_injective (secret salt other salt' : Str)
    (same : hashSecret spelling secret salt = hashSecret spelling other salt') :
    secret = other ∧ salt = salt' := by
  have spelled := b64urlEncode_injective same
  clear same
  change secret.flatMap _ ++ _ = other.flatMap _ ++ _ at spelled
  induction secret generalizing other with
  | nil =>
      cases other with
      | nil => simpa using spelled
      | cons byte rest => simp at spelled
  | cons byte rest ih =>
      cases other with
      | nil => simp at spelled
      | cons byte' rest' =>
          simp only [List.flatMap_cons, List.cons_append, List.nil_append, List.cons.injEq,
            true_and] at spelled
          obtain ⟨rfl, salts⟩ := ih rest' spelled.2
          exact ⟨by rw [spelled.1], salts⟩

/-- The first device admits a second one and removes it again. -/
def visit : List (Route × Int × UInt8) :=
  [(.delete (fromDevice 1 none) ⟨idOf 3, by decide +kernel, by decide +kernel⟩, 40, 0),
    (.poll (some (idOf 2)), 30, 0),
    (.approve (fromDevice 1 (some (allowing (idOf 2)))), 20, 3),
    (.request anonymous, 10, 2), (.register, 0, 1)]

theorem visit_accepts : ∃ past store, Chronicle spelling past store ∧
    (Answers spelling 50 store (idOf 1) (secretOf 1) true ∧
      Valid spelling past (idOf 1) (secretOf 1)) ∧
    Answers spelling 50 store (idOf 3) (secretOf 3) false ∧
      ¬Valid spelling past (idOf 3) (secretOf 3) := by
  have ran : (record spelling visit).any (fun done =>
      (done.2.clients.find (cstr (idOf 1))).any (fun info =>
        decide (hashSecret spelling (secretOf 1) info.salt = info.secretHash)) &&
      (done.2.clients.find (cstr (idOf 3))).isNone) = true := by
    decide +kernel
  obtain ⟨⟨past, store⟩, recorded, holds⟩ := (Option.any_eq_true _ _).mp ran
  obtain ⟨present, absent⟩ := (Bool.and_eq_true _ _).mp holds
  obtain ⟨info, found, shown⟩ := (Option.any_eq_true _ _).mp present
  have run := record_chronicle recorded
  have accepted : Answers spelling 50 store (idOf 1) (secretOf 1) true :=
    (answers_iff ..).mpr ⟨fun _ => ⟨by decide +kernel, info, found, of_decide_eq_true shown⟩,
      fun _ => rfl⟩
  have refused : Answers spelling 50 store (idOf 3) (secretOf 3) false := by
    refine (answers_iff ..).mpr ⟨fun denied => (Bool.false_ne_true denied).elim, ?_⟩
    rintro ⟨_, info, found, _⟩
    rw [found] at absent
    cases absent
  have first := (accepts_issued spelling_injective run (b64urlEncode_clean _) 50 true).mp accepted
  have second := (accepts_issued spelling_injective run (b64urlEncode_clean _) 50 false).mp refused
  exact ⟨past, store, run, ⟨accepted, first.mp rfl⟩, refused,
    fun valid => Bool.false_ne_true (second.mpr valid)⟩

end NoMiddle.Credentials
