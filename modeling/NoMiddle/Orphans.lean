import NoMiddle.Credentials

/-! Whether every registered device can still learn its credentials. They are given in
the response that creates the client or, after an approval, in the next poll; a poll
that comes after the request's deadline removes the request and leaves the client. -/
namespace NoMiddle.Orphans
open Library Text Crypto DbManager Node Conduct Devices DeviceViews Registry Credentials

/-- What may pass while nothing is handled: the time to which the clock moves on. -/
abbrev Patience := Store → Int → Prop

/-- Requests handled one at a time under a clock that only moves forward, each at the
time shown; every wait meets a condition on the store and the time waited for. -/
inductive Watch (sodium : Sodium) (patience : Patience) : Int → List Entry → Store → Prop where
  | start (now : Int) : Watch sodium patience now [] Store.initial
  | wait {now past store} (later : Int) (run : Watch sodium patience now past store)
      (forward : now ≤ later) (meets : patience store later) :
      Watch sodium patience later past store
  | next {now past store after} (entry : Entry) (run : Watch sodium patience now past store)
      (timely : entry.now = now) (handles : Handles sodium entry store after) :
      Watch sodium patience now (entry :: past) after

variable (sodium : Sodium)

/-- The request can still be polled for these credentials. -/
def Obtainable (now : Int) (store : Store) (clientId secret : Str) : Prop :=
  ∃ request ∈ store.authRequests.rows, request.approvedClientId = clientId ∧
    request.approvedSecret = secret ∧ now ≤ request.expiresAt

/-- Every registered device was given its credentials or can still obtain them. -/
def NoOrphans (now : Int) (past : List Entry) (store : Store) : Prop :=
  ∀ client ∈ store.clients.rows, ∃ secret, Valid sodium past client.clientId secret ∧
    ((∃ entry ∈ past, Gives entry.response client.clientId secret) ∨
      Obtainable now store client.clientId secret)

/-- No approved request is left waiting beyond its deadline, its client being there. -/
def Polled : Patience := fun store later =>
  ∀ request ∈ store.authRequests.rows, request.approvedClientId ≠ [] →
    store.clients.has request.approvedClientId = true → later ≤ request.expiresAt

variable {sodium} {past : List Entry} {store after : Store} {entry : Entry} {now : Int}

/-- The request with a given id is the one found under it. -/
theorem found_same {requestId : Str} {request other : AuthRequest}
    (found : store.authRequests.find (cstr requestId) = some request)
    (member : other ∈ store.authRequests.rows) (same : other.requestId = cstr requestId) :
    other = request := by
  have looked := (store.authRequests.mem_rows_iff other).mp member
  rw [same, found] at looked
  exact (Option.some.inj looked).symm

/-- A client whose credentials are accounted for stays so when its request stays. -/
theorem accounted_kept {client : Client} {secret : Str}
    (valid : Valid sodium past client.clientId secret) (kept : ¬Revokes entry client.clientId)
    (accounted : (∃ entry ∈ past, Gives entry.response client.clientId secret) ∨
      Obtainable now store client.clientId secret)
    (stays : ∀ request ∈ store.authRequests.rows, request.approvedClientId = client.clientId →
      request.approvedSecret = secret → now ≤ request.expiresAt →
      Gives entry.response client.clientId secret ∨ request ∈ after.authRequests.rows) :
    ∃ secret, Valid sodium (entry :: past) client.clientId secret ∧
      ((∃ given ∈ entry :: past, Gives given.response client.clientId secret) ∨
        Obtainable now after client.clientId secret) := by
  refine ⟨secret, Since.cons_iff.mpr (.inr ⟨kept, valid⟩), ?_⟩
  rcases accounted with ⟨given, member, gives⟩ | ⟨request, member, named, kept, inTime⟩
  · exact .inl ⟨given, List.mem_cons_of_mem entry member, gives⟩
  rcases stays request member named kept inTime with gives | remains
  · exact .inl ⟨entry, List.mem_cons_self, gives⟩
  · exact .inr ⟨request, remains, named, kept, inTime⟩

theorem valid_named {clientId secret : Str} (valid : Valid sodium past clientId secret) :
    clientId ≠ [] := by
  obtain ⟨_, _, _, _, ⟨c, made, rfl⟩, _⟩ := valid
  obtain ⟨_, minted⟩ := made_minted made
  exact (minted_given minted).1

theorem minted_secret_clean {history : Trace} {c : Client} {secret : Str}
    (minted : Minted sodium history c secret) : Clean secret := by
  obtain ⟨_, key, _, _, _, _, _, _, _, rfl, _⟩ := minted.drawn
  exact b64urlEncode_clean key

theorem accounted_step (kept : NoOrphans sodium entry.now past store)
    (outcome : Outcome sodium entry store after) :
    NoOrphans sodium entry.now (entry :: past) after := by
  intro client member
  cases outcome with
  | unchanged _ keeps =>
      obtain ⟨secret, valid, accounted⟩ := kept client member
      exact accounted_kept valid (keeps _) accounted fun request there _ _ _ => .inr there
  | @issued c secret _ _ makes gives keeps =>
      rcases mem_createClient member with old | rfl
      · obtain ⟨secret, valid, accounted⟩ := kept client old
        exact accounted_kept valid (keeps _) accounted fun request there _ _ _ => .inr there
      · obtain ⟨_, minted⟩ := made_minted makes.made
        have key := minted_row_id minted
        refine ⟨secret, Since.now ⟨c, makes.made, key.symm⟩, .inl ⟨entry, List.mem_cons_self, ?_⟩⟩
        rwa [key]
  | @asked requestId deviceName _ _ _ keeps =>
      have fits : AllClean (asked requestId deviceName entry.now (entry.now + 600)).texts :=
        allClean_map [requestId, deviceName, [], []]
      obtain ⟨secret, valid, accounted⟩ := kept client member
      exact accounted_kept valid (keeps _) accounted fun request there _ _ _ =>
        .inr (store.authRequests.insert_kept fits there)
  | @granted requestId request c secret found pending inTime _ makes _ keeps =>
      rcases mem_createClient member with old | rfl
      · obtain ⟨known, valid, accounted⟩ := kept client old
        apply accounted_kept valid (keeps _) accounted
        intro other there named _ _
        -- The request entered was still pending, so it is not the one of an older client.
        have different : other.requestId ≠ cstr requestId := by
          intro same
          rw [found_same found there same, pending] at named
          exact valid_named valid named.symm
        exact .inr (List.mem_map.mpr ⟨other, there, by simp [different]⟩)
      · obtain ⟨_, minted⟩ := made_minted makes.made
        have key := minted_row_id minted
        have present := ((store.authRequests.find_eq_some _ _).mp found).1
        have named := store.authRequests.find_key found
        refine ⟨secret, Since.now ⟨c, makes.made, key.symm⟩, .inr
          ⟨entered c.clientId secret request, List.mem_map.mpr ⟨request, present, ?_⟩, rfl,
            cstr_of_clean (minted_secret_clean minted), inTime⟩⟩
        simp [named, entered]
  | @dropped requestId request found stale _ keeps =>
      obtain ⟨secret, valid, accounted⟩ := kept client member
      apply accounted_kept valid (keeps _) accounted
      intro other there named _ early
      have different : other.requestId ≠ cstr requestId := by
        intro same
        rw [found_same found there same] at named early
        rcases stale with late | pending
        · exact absurd early (not_le.mpr late)
        · exact valid_named valid (named.symm.trans pending)
      exact .inr (List.mem_filter.mpr ⟨there, by simp [different]⟩)
  | @collected requestId request found _ gives _ keeps =>
      obtain ⟨secret, valid, accounted⟩ := kept client member
      apply accounted_kept valid (keeps _) accounted
      intro other there named known _
      by_cases same : other.requestId = cstr requestId
      · rw [found_same found there same] at named known
        rw [named, known] at gives
        exact .inl gives
      · exact .inr (List.mem_filter.mpr ⟨there, by simp [same]⟩)
  | @revoked clientId revokes _ =>
      obtain ⟨remains, other⟩ := List.mem_filter.mp member
      obtain ⟨secret, valid, accounted⟩ := kept client remains
      have different : ¬Revokes entry client.clientId := by
        rw [revokes]
        intro same
        simp [← same, cstr_of_clean clientId.clean] at other
      exact accounted_kept valid different accounted fun request there _ _ _ => .inr there

theorem accounted_wait {later : Int} (kept : NoOrphans sodium now past store)
    (polled : Polled store later) : NoOrphans sodium later past store := by
  intro client member
  obtain ⟨secret, valid, accounted⟩ := kept client member
  refine ⟨secret, valid, accounted.imp_right ?_⟩
  rintro ⟨request, there, named, known, _⟩
  refine ⟨request, there, named, known, polled request there ?_ ?_⟩
  · rw [named]
    exact valid_named valid
  · rw [named]
    exact (store.clients.has_iff _).mpr ⟨client, (store.clients.mem_rows_iff client).mp member⟩

/-- While no approved request is left beyond its deadline, every device has its credentials
or can obtain them. -/
theorem no_orphans (run : Watch sodium Polled now past store) :
    NoOrphans sodium now past store := by
  induction run with
  | start now =>
      intro client member
      cases member
  | wait later _ _ meets ih => exact accounted_wait ih meets
  | next entry _ timely handles ih =>
      subst timely
      exact accounted_step ih (handles_outcome handles)

/-! The executable watch: a time to wait for, or a request with the byte its draws
repeat; the latest stands first. -/
section Execution

instance (store : Store) (later : Int) : Decidable (Polled store later) :=
  inferInstanceAs (Decidable (∀ request ∈ store.authRequests.rows, _ → _ → _))

def follow (sodium : Sodium) (patient : Store → Int → Bool) :
    List (Int ⊕ Route × UInt8) → Option (Int × List Entry × Store)
  | [] => some (0, [], Store.initial)
  | .inl later :: earlier =>
      (follow sodium patient earlier).bind fun (now, past, store) =>
        if now ≤ later ∧ patient store later = true then some (later, past, store) else none
  | .inr (route, byte) :: earlier =>
      (follow sodium patient earlier).bind fun (now, past, store) =>
        (serve sodium route now byte store).map fun (entry, after) => (now, entry :: past, after)

theorem follow_watch {patience : Patience} {patient : Store → Int → Bool}
    (sufficient : ∀ store later, patient store later = true → patience store later)
    {steps : List (Int ⊕ Route × UInt8)}
    (followed : follow sodium patient steps = some (now, past, store)) :
    Watch sodium patience now past store := by
  induction steps generalizing now past store with
  | nil =>
      cases followed
      exact .start 0
  | cons latest earlier ih =>
      cases latest with
      | inl later =>
          obtain ⟨⟨time, before, middle⟩, first, last⟩ := Option.bind_eq_some_iff.mp followed
          dsimp only at last
          split at last
          · next meets =>
            cases last
            exact .wait now (ih first) meets.1 (sufficient _ _ meets.2)
          · cases last
      | inr step =>
          obtain ⟨⟨time, before, middle⟩, first, last⟩ := Option.bind_eq_some_iff.mp followed
          obtain ⟨⟨entry, after⟩, served, same⟩ := Option.map_eq_some_iff.mp last
          obtain ⟨timely, handles⟩ := serve_handles served
          cases same
          exact .next entry (ih first) timely handles

end Execution

/-- The second device is approved at once and polls at the given time. -/
def errand (polls : Int) : List (Int ⊕ Route × UInt8) :=
  [.inr (.poll (some (idOf 2)), 0), .inl polls,
    .inr (.approve (fromDevice 1 (some (allowing (idOf 2)))), 3), .inr (.request anonymous, 2),
    .inr (.register, 1)]

theorem errand_obtains : ∃ past store, Watch spelling Polled 600 past store ∧
    store.clients.has (idOf 3) = true ∧ NoOrphans spelling 600 past store := by
  have ran : (follow spelling (fun store later => decide (Polled store later))
      (errand 600)).any (fun done => decide (done.1 = 600) && done.2.2.clients.has (idOf 3)) =
      true := by
    decide +kernel
  obtain ⟨⟨now, past, store⟩, followed, holds⟩ := (Option.any_eq_true _ _).mp ran
  obtain ⟨time, present⟩ := (Bool.and_eq_true _ _).mp holds
  have watched : Watch spelling Polled now past store :=
    follow_watch (fun _ _ patient => of_decide_eq_true patient) followed
  rw [show now = 600 from of_decide_eq_true time] at watched
  exact ⟨past, store, watched, present, no_orphans watched⟩

theorem errand_orphans : ∃ past store, Watch spelling (fun _ _ => True) 601 past store ∧
    ¬NoOrphans spelling 601 past store := by
  have ran : (follow spelling (fun _ _ => true) (errand 601)).any (fun done =>
      decide (done.1 = 601) && (done.2.2.clients.find (idOf 3)).any (fun info =>
        decide (info.clientId = idOf 3)) &&
      (done.2.1.all (fun entry => match entry.response.content with
        | .json body => decide (body.s? "client_id" ≠ some (idOf 3))
        | _ => true) && done.2.2.authRequests.rows.isEmpty)) = true := by
    decide +kernel
  obtain ⟨⟨now, past, store⟩, followed, holds⟩ := (Option.any_eq_true _ _).mp ran
  simp only [Bool.and_eq_true, decide_eq_true_eq, Option.any_eq_true, List.all_eq_true,
    List.isEmpty_iff] at holds
  obtain ⟨⟨rfl, info, found, named⟩, ungiven, unasked⟩ := holds
  refine ⟨past, store, follow_watch (fun _ _ _ => trivial) followed, fun kept => ?_⟩
  obtain ⟨secret, _, ⟨entry, member, body, json, gives, _⟩ | ⟨request, member, _⟩⟩ :=
    kept info ((store.clients.find_eq_some _ _).mp found).1
  · have other := ungiven entry member
    rw [json] at other
    rw [named] at gives
    exact of_decide_eq_true other gives
  · rw [unasked] at member
    cases member

end NoMiddle.Orphans
