import NoMiddle.Library.Since
import NoMiddle.Library.RpcTally
import NoMiddle.Effects

/-! What the devices of a node are told about messages. A change of a message is owed to them
until it is pushed: an arrival, an edit or a delete is never left owed by a thread that has
finished, and nothing is pushed that was not stored, changed or read by the thread that pushes
it. Over all threads a message is announced as new at most once, however often peers repeat
themselves. -/
namespace NoMiddle.Announcements
open Library Text Crypto DbManager Node MessageDelivery RetryWorker Handlers GroupHandlers
open AuthHandlers Network Footprint Conduct Effects
open TaskConduct (World Action)

/-- A message that arrived was also stored. -/
inductive Change where
  | stored
  | received
  | edited
  | deleted
deriving DecidableEq

def Change.type : Change → Str
  | stored | received => str "new_message"
  | edited => str "edit_message"
  | deleted => str "delete_message"

/-- Whether the event is the change, the id being as the column holds it. What a group send
stores is marked with an arbitrary number but never addressed to the node itself. -/
def changes (self id : Str) (change : Change) : Event nodeSig → Bool
  | ⟨.inl (.call (.addMessage msg)), added⟩ =>
      added = true && cstr msg.messageId = id &&
        match change with
        | .stored => true
        | .received => msg.recipientId = self && msg.accepted = 1
        | .edited | .deleted => false
  | ⟨.inl (.call (.updateMessages messageId _ (.edit ..))), _⟩ =>
      change = .edited && cstr messageId = id
  | ⟨.inl (.call (.updateMessages messageId _ .deleted)), _⟩ =>
      change = .deleted && cstr messageId = id
  | _ => false

def announces (id : Str) (change : Change) : Event nodeSig → Bool
  | ⟨.inl (.notify payload), _⟩ =>
      payload.optional "type" = some change.type &&
        (payload.optional "message_id").map cstr = some id
  | _ => false

/-- Changed and not announced since. -/
def Owed (self id : Str) (change : Change) (history : Trace) : Prop :=
  Since (changes self id change · = true) (announces id change · = true) history

/-- At most this is left to announce. -/
def Owes (self : Str) (news : Option (Change × Str)) (history : Trace) : Prop :=
  ∀ change id, change ≠ .stored → Owed self id change history → news = some (change, id)

/-- What a push names was stored or read before it, with the group id it names. -/
inductive Grounded (history : Trace) (messageId groupId : Str) : Change → Prop
  | stored {msg : Message}
      (added : (⟨.inl (.call (.addMessage msg)), true⟩ : Event nodeSig) ∈ history)
      (id : msg.messageId = messageId) (group : msg.groupId = groupId) :
      Grounded history messageId groupId .stored
  | edited {row : Message} (read : Read history messageId row) (group : row.groupId = groupId) :
      Grounded history messageId groupId .edited
  | deleted {row : Message} (read : Read history messageId row) (group : row.groupId = groupId) :
      Grounded history messageId groupId .deleted

/-- An edit of a group message is announced even when it reached no row. -/
structure Announces (own : Str) (history : Trace) (payload : Json) (messageId : Str)
    (change : Change) (groupId : Str) : Prop where
  type : payload.optional "type" = some change.type
  group : payload.optional "group_id" = some groupId
  grounded : Grounded history messageId groupId change
  owed : Owed own (cstr messageId) change history ∨ change = .edited ∧ groupId ≠ []

def telling (self : Str) : Discipline nodeSig where
  possible := Possible
  allowed history
    | .inl (.notify payload) => ∀ messageId, payload.optional "message_id" = some messageId →
        ∃ change groupId, Announces self history payload messageId change groupId
    | _ => True

/-- Neither changes a message nor announces one. -/
def plain : nodeSig.Op → Bool
  | .inl (.call (.addMessage _)) | .inl (.call (.updateMessages _ _ (.edit ..)))
  | .inl (.call (.updateMessages _ _ .deleted)) => false
  | .inl (.notify payload) => payload.optional "message_id" = none
  | _ => true

theorem plain_idle {event : Event nodeSig} (still : plain event.1 = true) (self id : Str)
    (change : Change) : changes self id change event = false ∧ announces id change event = false := by
  obtain ⟨operation, answer⟩ := event
  cases operation using operation_cases with
  | call db =>
      cases db with
      | addMessage msg => cases still
      | updateMessages messageId only mark => cases mark <;> first | exact ⟨rfl, rfl⟩ | cases still
      | _ => exact ⟨rfl, rfl⟩
  | notify payload =>
      have unnamed : payload.optional "message_id" = none := of_decide_eq_true still
      simp [changes, announces, unnamed]
  | _ => exact ⟨rfl, rfl⟩

theorem plain_of_within {used : List Resource} {operation : nodeSig.Op}
    (inside : within used operation = true) (messages : Resource.messages ∉ used)
    (devices : Resource.devices ∉ used) : plain operation = true := by
  cases operation using operation_cases with
  | call db =>
      cases db with
      | addMessage msg => simp [within, touches, reaches, messages] at inside
      | updateMessages messageId only mark =>
          exact absurd (messages_mem_marks mark) fun reached =>
            messages (within_iff.mp inside reached)
      | _ => rfl
  | notify payload => simp [within, touches, devices] at inside
  | _ => rfl

/-- Nothing happened since but plain operations. -/
abbrev Beyond : Trace → Trace → Prop := Grown plain

section Histories
variable {self id : Str} {change : Change} {news : Option (Change × Str)} {history after : Trace}

theorem Beyond.owed (beyond : Beyond history after) :
    Owed self id change after ↔ Owed self id change history := by
  obtain ⟨newer, rfl, plains⟩ := beyond
  refine Since.append_idle fun event member => ?_
  obtain ⟨unchanged, silent⟩ := plain_idle (plains event member) self id change
  simp [unchanged, silent]

theorem Beyond.owes (beyond : Beyond history after) (owes : Owes self news history) :
    Owes self news after :=
  fun change id kind owed => owes change id kind (beyond.owed.mp owed)

theorem Owes.nil : Owes self news [] := fun _ _ _ owed => absurd owed Since.not_nil

theorem Owes.more (owes : Owes self none history) : Owes self news history := by
  intro change id kind owed
  cases owes change id kind owed

/-- After a change only the change may be owed in addition. -/
theorem Owes.changed (owes : Owes self news history) {event : Event nodeSig}
    (only : ∀ change id, change ≠ .stored → changes self id change event = true →
      news = some (change, id)) : Owes self news (event :: history) := by
  intro change id kind owed
  rcases Since.cons_iff.mp owed with now | ⟨_, older⟩
  · exact only change id kind now
  · exact owes change id kind older

/-- The push settles what was owed. -/
theorem Owes.announced {payload : Json} {messageId : Str} {told : Change}
    (owes : Owes self (some (change, cstr messageId)) history)
    (type : payload.optional "type" = some told.type)
    (named : payload.optional "message_id" = some messageId) (same : change.type = told.type) :
    Owes self none (⟨.inl (.notify payload), ()⟩ :: history) := by
  intro other id kind owed
  rcases Since.cons_iff.mp owed with now | ⟨unannounced, older⟩
  · cases now
  · cases owes other id kind older
    exact absurd (by simp [announces, type, named, same]) unannounced

end Histories

section Rules
variable {self : Str} {Value Output : Type} {history : Trace} {post : Value → Trace → Prop}

theorem plain_allowed (history : Trace) {operation : nodeSig.Op}
    (still : plain operation = true) : (telling self).allowed history operation := by
  cases operation using operation_cases with
  | notify payload =>
      intro messageId named
      have unnamed : payload.optional "message_id" = none := of_decide_eq_true still
      rw [unnamed] at named
      cases named
  | _ => trivial

theorem wp_beyond {program : Proc Output} (only : program.Only plain) (history : Trace) :
    program.wp (telling self).contract (fun _ after => Beyond history after) history :=
  Program.wp_of_kept (fun _ _ still beyond => ⟨plain_allowed _ still, fun _ => beyond.cons still⟩)
    program only history (.refl history)

theorem wp_plain {program : Proc Output} {rest : Output → Proc Value}
    (only : program.Only plain)
    (later : ∀ value after, Beyond history after →
      (rest value).wp (telling self).contract post after) :
    (program >>= rest).wp (telling self).contract post history :=
  Program.wp_seq (telling self).contract_monotone program rest history (wp_beyond only history)
    later

theorem plain_told {program : Proc Output} {news : Option (Change × Str)}
    (only : program.Only plain) (owes : Owes self news history) :
    program.wp (telling self).contract (fun _ => Owes self news) history :=
  Program.wp_mono (telling self).contract_monotone program
    (fun _ _ beyond => beyond.owes owes) history (wp_beyond only history)

/-- A route that checks credentials owes nothing when it goes on. -/
theorem wp_gate (sodium : Sodium) (req : HttpRequest) (refused : Response) {rest : Proc Response}
    (later : ∀ after, Owes self none after →
      rest.wp (telling self).contract (fun _ => Owes self none) after) :
    (do if !(← isAuthed sodium req) then return refused
        rest).wp (telling self).contract (fun _ => Owes self none) [] := by
  refine wp_plain (isAuthed_only sodium (fun _ => rfl) req) fun authed after beyond => ?_
  have fresh : Owes self none after := beyond.owes .nil
  cases authed with
  | true => exact later after fresh
  | false => exact fresh

/-- The push of a change that is owed, at the end of a route. -/
theorem wp_told {change told : Change} {type : String} {messageId other groupId : Str}
    {response : Response} (types : told.type = str type) (same : change.type = told.type)
    (owes : Owes self (some (change, cstr messageId)) history)
    (grounded : Grounded history messageId groupId told)
    (owed : Owed self (cstr messageId) told history ∨ told = .edited ∧ groupId ≠ []) :
    (do notifyMessage type messageId other groupId
        return response : Proc Response).wp (telling self).contract (fun _ => Owes self none)
      history := by
  have typed : (Json.obj [("type", .str (str type)), ("message_id", .str messageId),
      ("contact_id", .str other), ("group_id", .str groupId)]).optional "type" =
        some told.type := by
    rw [types]
    rfl
  refine wp_perform ?_ fun _ _ => owes.announced typed rfl same
  intro named announced
  cases announced
  exact ⟨told, groupId, typed, rfl, grounded, owed⟩

end Rules

section Routes
variable (sodium : Sodium) (keys : KeyPair) {history : Trace}

/-- The message is stored and owed to the devices. -/
def Stored (self messageId groupId : Str) (history : Trace) : Prop :=
  Grounded history messageId groupId .stored ∧ Owed self (cstr messageId) .stored history

theorem Stored.beyond {self messageId groupId : Str} {after : Trace}
    (stored : Stored self messageId groupId history) (beyond : Beyond history after) :
    Stored self messageId groupId after := by
  obtain ⟨⟨added, id, group⟩, owed⟩ := stored
  exact ⟨.stored (beyond.mem added) id group, beyond.owed.mpr owed⟩

theorem stored_now (self : Str) (msg : Message) (history : Trace) :
    Stored self msg.messageId msg.groupId
      (⟨.inl (.call (.addMessage msg)), true⟩ :: history) :=
  ⟨.stored List.mem_cons_self rfl rfl, Since.now (by simp [changes])⟩

/-- Storing what did not arrive leaves nothing new to announce. -/
theorem owes_stored {self : Str} {msg : Message} (added : Bool)
    (sent : msg.recipientId = self → msg.accepted ≠ 1) (owes : Owes self none history) :
    Owes self none (⟨.inl (.call (.addMessage msg)), added⟩ :: history) := by
  refine owes.changed fun change id kind changed => ?_
  cases change with
  | stored => cases kind rfl
  | received =>
      simp only [changes, Bool.and_eq_true, decide_eq_true_eq] at changed
      exact absurd changed.2.2 (sent changed.2.1)
  | edited | deleted => simp [changes] at changed

theorem deliverMessage_told {recipientId ciphertext plaintext : Str} (timestamp : Int)
    (owes : Owes keys.publicKeyB64 none history) :
    (deliverMessage keys.publicKeyB64 recipientId ciphertext plaintext timestamp).wp
      (telling keys.publicKeyB64).contract (fun sent after => Owes keys.publicKeyB64 none after ∧
        ∀ messageId, sent = some messageId → Stored keys.publicKeyB64 messageId [] after)
      history := by
  refine wp_perform trivial fun dice _ => wp_perform trivial fun (added : Bool) _ => ?_
  have drawn : Owes keys.publicKeyB64 none (⟨.inl .dice, dice⟩ :: history) :=
    Beyond.owes (.cons (.refl _) rfl) owes
  let msg : Message := ⟨uuidOf dice, keys.publicKeyB64, recipientId, [], plaintext, ciphertext, 0,
    timestamp, 0, 0, 1, 0⟩
  have unowed : Owes keys.publicKeyB64 none
      (⟨.inl (.call (.addMessage msg)), added⟩ :: ⟨.inl .dice, dice⟩ :: history) :=
    owes_stored added (fun _ accepted => by cases accepted) drawn
  cases added with
  | false => exact ⟨unowed, fun _ none => by cases none⟩
  | true =>
      refine wp_perform trivial fun address _ => wp_send trivial fun answer => ?_
      split
      · refine wp_mark trivial fun done _ =>
          ⟨Beyond.owes (.cons (.cons (.cons (.refl _) rfl) rfl) rfl) unowed, ?_⟩
        rintro messageId ⟨⟩
        exact (stored_now _ _ _).beyond (.cons (.cons (.cons (.refl _) rfl) rfl) rfl)
      · exact ⟨Beyond.owes (.cons (.cons (.refl _) rfl) rfl) unowed,
          fun _ none => by cases none⟩

theorem sendDirect_told (req : HttpRequest) : (sendDirect sodium keys req).wp
    (telling keys.publicKeyB64).contract (fun _ => Owes keys.publicKeyB64 none) [] := by
  refine wp_gate sodium req _ fun history owes => ?_
  repeat' split
  all_goals first
    | exact owes
    | refine wp_perform trivial fun timestamp _ => wp_perform trivial fun nonce _ => ?_
  have later : Owes keys.publicKeyB64 none (⟨.inl (.randombytes nonceBytes), nonce⟩ ::
      ⟨.inl .time, timestamp⟩ :: history) :=
    Beyond.owes (.cons (.cons (.refl _) rfl) rfl) owes
  dsimp only
  split
  · next ciphertext _ =>
    refine Program.wp_seq (telling _).contract_monotone _ _ _
      (deliverMessage_told keys timestamp later) fun sent after told => ?_
    cases sent with
    | none => exact told.1
    | some messageId =>
        obtain ⟨grounded, owed⟩ := told.2 messageId rfl
        exact wp_told (rfl : Change.type .stored = _) (rfl : Change.type .received = _)
          told.1.more grounded (.inl owed)
  · exact later

/-- After the edit, it alone is owed. -/
theorem owes_edited {self : Str} (messageId plaintext ciphertext : Str) (editedAt : Int)
    {recipientId : Option Str} (done : Bool)
    (owes : Owes self (some (.edited, cstr messageId)) history) :
    Owes self (some (.edited, cstr messageId))
      (⟨.inl (.call (.updateMessages messageId recipientId (.edit plaintext ciphertext editedAt))),
        done⟩ :: history) := by
  refine owes.changed fun change id _ changed => ?_
  simp only [changes, Bool.and_eq_true, decide_eq_true_eq] at changed
  rw [changed.1, changed.2]

theorem owes_deleted {self : Str} (messageId : Str) {recipientId : Option Str} (done : Bool)
    (owes : Owes self (some (.deleted, cstr messageId)) history) :
    Owes self (some (.deleted, cstr messageId))
      (⟨.inl (.call (.updateMessages messageId recipientId .deleted)), done⟩ :: history) := by
  refine owes.changed fun change id _ changed => ?_
  simp only [changes, Bool.and_eq_true, decide_eq_true_eq] at changed
  rw [changed.1, changed.2]

theorem owed_deleted (self : Str) (messageId : Str) (recipientId : Option Str) (done : Bool)
    (history : Trace) : Owed self (cstr messageId) .deleted
      (⟨.inl (.call (.updateMessages messageId recipientId .deleted)), done⟩ :: history) :=
  Since.now (by simp [changes])

theorem editDirect_told (req : HttpRequest) : (editDirect sodium keys req).wp
    (telling keys.publicKeyB64).contract (fun _ => Owes keys.publicKeyB64 none) [] := by
  refine wp_gate sodium req _ fun history owes => ?_
  repeat' split
  all_goals first
    | exact owes
    | refine wp_perform trivial fun found _ => ?_
  cases found with
  | none => exact Beyond.owes (.cons (.refl _) rfl) owes
  | some msg =>
      dsimp only
      split
      · exact Beyond.owes (.cons (.refl _) rfl) owes
      · refine wp_perform trivial fun nonce _ => ?_
        dsimp only
        split
        · refine wp_perform trivial fun editedAt _ => ?_
          refine wp_perform trivial fun (updated : Bool) possible => ?_
          cases possible
          refine wp_plain (toContact_only rfl (fun _ => rfl) ⟨rfl, fun _ => trivial⟩) fun _ after beyond => ?_
          refine wp_told (rfl : Change.type .edited = _) rfl (beyond.owes ?_)
            (.edited (beyond.mem (by simp)) rfl) (.inl (beyond.owed.mpr (Since.now ?_)))
          · refine owes_edited _ _ _ _ _ (Owes.more ?_)
            exact Beyond.owes (.cons (.cons (.cons (.refl _) rfl) rfl) rfl) owes
          · simp [changes]
        · exact Beyond.owes (.cons (.cons (.refl _) rfl) rfl) owes

theorem deleteDirect_told (req : HttpRequest) : (deleteDirect sodium keys req).wp
    (telling keys.publicKeyB64).contract (fun _ => Owes keys.publicKeyB64 none) [] := by
  refine wp_gate sodium req _ fun history owes => ?_
  repeat' split
  all_goals first
    | exact owes
    | refine wp_perform trivial fun found _ => ?_
  cases found with
  | none => exact Beyond.owes (.cons (.refl _) rfl) owes
  | some msg =>
      dsimp only
      split
      · exact Beyond.owes (.cons (.refl _) rfl) owes
      · refine wp_mark trivial fun done _ => wp_mark trivial fun pending _ => ?_
        refine wp_plain (toContact_only rfl (fun _ => rfl) ⟨rfl, fun _ => trivial⟩) fun _ after beyond => ?_
        refine wp_told (rfl : Change.type .deleted = _) rfl (beyond.owes ?_)
          (.deleted (beyond.mem (by simp)) rfl) (.inl (beyond.owed.mpr ?_))
        · refine Beyond.owes (.cons (.refl _) rfl) (owes_deleted _ done (Owes.more ?_))
          exact Beyond.owes (.cons (.refl _) rfl) owes
        · exact (Beyond.owed (.cons (.refl _) rfl)).mpr (owed_deleted _ _ none done _)

theorem acceptMessage_told (body : Option Json) : (acceptMessage sodium keys body).wp
    (telling keys.publicKeyB64).contract (fun _ => Owes keys.publicKeyB64 none) [] := by
  unfold acceptMessage
  repeat' split
  all_goals first
    | exact Owes.nil
    | refine wp_perform trivial fun (added : Bool) _ => ?_
  cases added with
  | false => exact Owes.nil.changed fun change id _ changed => by simp [changes] at changed
  | true =>
      refine wp_told (rfl : Change.type .stored = _) (rfl : Change.type .received = _) ?_
        (.stored List.mem_cons_self rfl rfl) (.inl (Since.now (by simp [changes])))
      refine Owes.nil.changed fun change id kind changed => ?_
      cases change <;> simp [changes] at changed kind ⊢
      exact changed.1

theorem acceptEdit_told (body : Option Json) : (acceptEdit sodium keys body).wp
    (telling keys.publicKeyB64).contract (fun _ => Owes keys.publicKeyB64 none) [] := by
  unfold acceptEdit
  repeat' split
  all_goals first
    | exact Owes.nil
    | refine wp_perform trivial fun found _ => ?_
  all_goals
    cases found with
    | none => exact Beyond.owes (.cons (.refl _) rfl) .nil
    | some msg => ?_
  · refine wp_perform trivial fun (updated : Bool) possible => ?_
    cases possible
    refine wp_mark trivial fun done _ => ?_
    refine wp_told (rfl : Change.type .edited = _) rfl (Beyond.owes (.cons (.refl _) rfl) ?_)
      (.edited (by simp [Read]) rfl) (.inl ((Beyond.owed (.cons (.refl _) rfl)).mpr (Since.now ?_)))
    · exact owes_edited _ _ _ _ _ (Beyond.owes (.cons (.refl _) rfl) .nil)
    · simp [changes]
  · exact Beyond.owes (.cons (.refl _) rfl) .nil

theorem acceptDelete_told (body : Option Json) : (acceptDelete keys body).wp
    (telling keys.publicKeyB64).contract (fun _ => Owes keys.publicKeyB64 none) [] := by
  unfold acceptDelete
  repeat' split
  all_goals first
    | exact Owes.nil
    | refine wp_perform trivial fun found _ => ?_
  cases found with
  | none => exact Beyond.owes (.cons (.refl _) rfl) .nil
  | some msg =>
      dsimp only
      split
      · exact Beyond.owes (.cons (.refl _) rfl) .nil
      · refine wp_mark trivial fun done _ => ?_
        refine wp_told (rfl : Change.type .deleted = _) rfl ?_ (.deleted (by simp [Read]) rfl)
          (.inl (owed_deleted _ _ none done _))
        exact owes_deleted _ done (Beyond.owes (.cons (.refl _) rfl) .nil)

theorem memberAddress_plain (m : GroupMember) : (memberAddress m).Only plain := by
  unfold memberAddress
  dsimp only
  split
  · exact ⟨rfl, fun _ => trivial⟩
  · trivial

theorem sendToMember_told {messageId groupId text : Str} {timestamp : Int} {allOnline : Bool}
    {m : GroupMember} (owes : Owes keys.publicKeyB64 none history) :
    (sendToMember sodium keys messageId groupId text timestamp allOnline m).wp
      (telling keys.publicKeyB64).contract (fun _ => Owes keys.publicKeyB64 none) history := by
  unfold sendToMember
  split
  · exact owes
  · next other =>
    refine wp_plain (memberAddress_plain m) fun address after beyond => ?_
    refine wp_perform trivial fun nonce _ => ?_
    dsimp only
    split
    · refine wp_perform trivial fun (accepted : Int) _ => ?_
      refine wp_perform trivial fun (added : Bool) _ => ?_
      refine plain_told ?_ (owes_stored added (fun mine => absurd mine other)
        (Beyond.owes (.cons (.cons beyond rfl) rfl) owes))
      cases added with
      | false => trivial
      | true =>
          simp only [Bool.not_true, Bool.false_eq_true, ↓reduceIte]
          split
          · trivial
          · refine only_send rfl fun result => ?_
            split
            · exact ⟨rfl, fun _ => trivial⟩
            · trivial
    · exact Beyond.owes (beyond.cons rfl) owes

theorem groupSend_told (req : HttpRequest) (group : PathId) : (groupSend sodium keys req group).wp
    (telling keys.publicKeyB64).contract (fun _ => Owes keys.publicKeyB64 none) [] := by
  refine wp_gate sodium req _ fun history owes => ?_
  repeat' split
  all_goals first
    | exact owes
    | refine wp_perform trivial fun timestamp _ => wp_perform trivial fun dice _ => ?_
  refine wp_perform trivial fun members _ => ?_
  have later : Owes keys.publicKeyB64 none
      (⟨.inl (.call (.getGroupMembers group.text)), members⟩ :: ⟨.inl .dice, dice⟩ ::
        ⟨.inl .time, timestamp⟩ :: history) :=
    Beyond.owes (.cons (.cons (.cons (.refl _) rfl) rfl) rfl) owes
  split
  · exact later
  · refine Program.wp_seq (telling keys.publicKeyB64).contract_monotone _ _ _
      (Program.wp_foldlM (telling keys.publicKeyB64).contract_monotone _
        (fun _ _ => Owes keys.publicKeyB64 none)
        (fun _ _ _ _ owes => sendToMember_told sodium keys owes) _ _ _ later) fun _ _ told => told

/-- The edit of a row that was read, under way at the members of its group. -/
structure UnderWay (own messageId : Str) (row : Message) (history : Trace) : Prop where
  owes : Owes own (some (.edited, cstr messageId)) history
  read : Read history messageId row

theorem UnderWay.beyond {self messageId : Str} {row : Message} {after : Trace}
    (under : UnderWay self messageId row history) (beyond : Beyond history after) :
    UnderWay self messageId row after :=
  ⟨beyond.owes under.owes, beyond.mem under.read⟩

theorem editAtMember_told {messageId groupId plaintext : Str} {editedAt : Int} {m : GroupMember}
    {row : Message} (under : UnderWay keys.publicKeyB64 messageId row history) :
    (editAtMember sodium keys messageId groupId plaintext editedAt m).wp
      (telling keys.publicKeyB64).contract
      (fun _ => UnderWay keys.publicKeyB64 messageId row) history := by
  unfold editAtMember
  split
  · exact under
  · refine wp_perform trivial fun nonce _ => ?_
    have drawn : UnderWay keys.publicKeyB64 messageId row
        (⟨.inl (.randombytes nonceBytes), nonce⟩ :: history) :=
      under.beyond (.cons (.refl _) rfl)
    dsimp only
    split
    · next ciphertext _ =>
      refine wp_perform trivial fun done _ => ?_
      refine Program.wp_mono (telling _).contract_monotone _ (fun _ _ beyond =>
        UnderWay.beyond ⟨owes_edited messageId plaintext ciphertext editedAt done drawn.owes,
          List.mem_cons_of_mem _ drawn.read⟩ beyond) _ (wp_beyond ?_ _)
      refine Program.only_bind (memberAddress_plain m) fun address => ?_
      split
      · trivial
      · refine only_send rfl fun result => ?_
        split
        · exact ⟨rfl, fun _ => trivial⟩
        · trivial
    · exact drawn

theorem groupEdit_told (req : HttpRequest) (group : PathId) : (groupEdit sodium keys req group).wp
    (telling keys.publicKeyB64).contract (fun _ => Owes keys.publicKeyB64 none) [] := by
  refine wp_gate sodium req _ fun history owes => ?_
  repeat' split
  all_goals first
    | exact owes
    | refine wp_perform trivial fun found _ => ?_
  next messageId _ _ _ _ _ =>
  cases found with
  | none => exact Beyond.owes (.cons (.refl _) rfl) owes
  | some msg =>
      dsimp only
      split
      · exact Beyond.owes (.cons (.refl _) rfl) owes
      · next inGroup =>
        split
        · exact Beyond.owes (.cons (.refl _) rfl) owes
        · refine wp_perform trivial fun members _ => ?_
          split
          · exact Beyond.owes (.cons (.cons (.refl _) rfl) rfl) owes
          · refine wp_perform trivial fun editedAt _ => ?_
            have under : UnderWay keys.publicKeyB64 messageId msg
                (⟨.inl .time, editedAt⟩ :: ⟨.inl (.call (.getGroupMembers group.text)), members⟩ ::
                  ⟨.inl (.call (.getMessage messageId)), some msg⟩ :: history) :=
              ⟨Beyond.owes (.cons (.cons (.cons (.refl _) rfl) rfl) rfl) owes.more, by simp [Read]⟩
            refine Program.wp_seq (telling keys.publicKeyB64).contract_monotone _ _ _
              (Program.wp_forM_mem (telling keys.publicKeyB64).contract_monotone _
                (UnderWay keys.publicKeyB64 messageId msg) _
                (fun _ _ _ held => editAtMember_told sodium keys held) _ under) fun _ after held => ?_
            exact wp_told (rfl : Change.type .edited = _) rfl held.owes
              (.edited held.read (not_not.mp inGroup)) (.inr ⟨rfl, group.nonempty⟩)

theorem deleteAtMember_plain (messageId groupId : Str) (m : GroupMember) :
    (deleteAtMember keys messageId groupId m).Only plain := by
  unfold deleteAtMember
  split
  · trivial
  · refine Program.only_bind (memberAddress_plain m) fun address => ?_
    split
    · trivial
    · refine only_send rfl fun result => ?_
      split
      · exact ⟨rfl, fun _ => trivial⟩
      · trivial

theorem groupDelete_told (req : HttpRequest) (group : PathId) :
    (groupDelete sodium keys req group).wp
      (telling keys.publicKeyB64).contract (fun _ => Owes keys.publicKeyB64 none) [] := by
  refine wp_gate sodium req _ fun history owes => ?_
  repeat' split
  all_goals first
    | exact owes
    | refine wp_perform trivial fun found _ => ?_
  cases found with
  | none => exact Beyond.owes (.cons (.refl _) rfl) owes
  | some msg =>
      dsimp only
      split
      · exact Beyond.owes (.cons (.refl _) rfl) owes
      · next inGroup =>
        split
        · exact Beyond.owes (.cons (.refl _) rfl) owes
        · refine wp_mark trivial fun done _ => wp_mark trivial fun pending _ => ?_
          refine wp_perform trivial fun members _ => ?_
          refine wp_plain (Program.only_forM (deleteAtMember_plain keys _ _) _)
            fun _ after beyond => ?_
          refine wp_told (rfl : Change.type .deleted = _) rfl (beyond.owes ?_)
            (.deleted (beyond.mem (by simp)) (not_not.mp inGroup)) (.inl (beyond.owed.mpr ?_))
          · refine Beyond.owes (.cons (.cons (.refl _) rfl) rfl)
              (owes_deleted _ done (Owes.more ?_))
            exact Beyond.owes (.cons (.refl _) rfl) owes
          · exact (Beyond.owed (.cons (.cons (.refl _) rfl) rfl)).mpr (owed_deleted _ _ none done _)

theorem authRequest_plain (req : HttpRequest) : (authRequest sodium req).Only plain := by
  have created : ∀ deviceName now, (newClient sodium deviceName now).Only plain := fun _ _ =>
    ⟨rfl, fun _ => ⟨rfl, fun _ => ⟨rfl, fun _ => ⟨rfl, fun _ => trivial⟩⟩⟩⟩
  unfold authRequest
  split
  · refine only_perform rfl fun now => only_perform rfl fun (clients : Bool) => ?_
    cases clients with
    | true =>
        refine ⟨rfl, fun _ => only_perform rfl fun (added : Bool) => ?_⟩
        cases added
        · trivial
        · exact ⟨rfl, fun _ => trivial⟩
    | false =>
        refine Program.only_bind (created _ now) ?_
        rintro ⟨clientId, secret, made⟩
        cases made <;> trivial
  · trivial

theorem works_plain {operation : nodeSig.Op} (working : works operation = true) :
    plain operation = true := by
  cases operation using operation_cases with
  | call db =>
      cases db with
      | updateMessages messageId only mark => cases mark <;> first | rfl | cases working
      | addMessage msg => cases working
      | _ => rfl
  | notify payload => cases working
  | _ => rfl

end Routes

section Runs
variable {Host : Type} (network : Deployment Host)

theorem receive_told (host : Host) (endpoint : Endpoint) (body : Option Json) :
    (network.receive host endpoint body).wp (telling (network.id host)).contract
      (fun _ => Owes (network.id host) none) [] := by
  cases endpoint with
  | acceptMessage => exact acceptMessage_told _ _ body
  | acceptEdit => exact acceptEdit_told _ _ body
  | acceptDelete => exact acceptDelete_told _ body
  | acceptGroupUpdate =>
      exact plain_told (Program.only_mono (fun _ inside => plain_of_within inside (by decide)
        (by decide)) _ (acceptGroupUpdate_within body)) .nil
  | publicKey => exact Owes.nil

theorem program_told (host : Host) (task : Task) :
    (network.program host task).wp (telling (network.id host)).contract
      (fun _ => Owes (network.id host) none) [] := by
  have apart : Resource.messages ∉ uses task → Resource.devices ∉ uses task →
      (network.program host task).wp (telling (network.id host)).contract
        (fun _ => Owes (network.id host) none) [] := fun messages devices =>
    plain_told (Program.only_mono (fun _ inside => plain_of_within inside messages devices) _
      (program_within network host task)) .nil
  cases task with
  | sendMessage req => exact sendDirect_told _ _ req
  | editMessage req => exact editDirect_told _ _ req
  | deleteMessage req => exact deleteDirect_told _ _ req
  | groupSend req group => exact groupSend_told _ _ req group
  | groupEdit req group => exact groupEdit_told _ _ req group
  | groupDelete req group => exact groupDelete_told _ _ req group
  | authRequest req => exact plain_told (authRequest_plain _ req) .nil
  | incoming endpoint body => exact receive_told network host endpoint body
  | retryPass =>
      exact plain_told (Program.only_bind (Program.only_mono (fun _ => works_plain) _
        retryPass_works) fun _ => trivial) .nil
  | _ => exact apart (by simp [uses]) (by simp [uses])

theorem serve_told (host : Host) (request : Request) :
    (network.serve host request).wp (telling (network.id host)).contract
      (fun _ => Owes (network.id host) none) [] := by
  obtain ⟨serverAddress, endpoint, body⟩ := request
  cases endpoint with
  | acceptMessage => exact receive_told network host .acceptMessage (some body)
  | acceptEdit => exact receive_told network host .acceptEdit (some body)
  | acceptDelete => exact receive_told network host .acceptDelete (some body)
  | acceptGroupUpdate => exact receive_told network host .acceptGroupUpdate (some body)
  | publicKey => exact receive_told network host .publicKey (some body)

theorem telling_guaranteed : Rpc.Guaranteed network.system
    (fun host _ _ => telling (network.id host))
    (fun host _ _ _ history => Owes (network.id host) none history) (fun _ _ => True)
    (fun _ => True) (fun _ _ => True) (fun _ _ => True) where
  possible _ _ _ input operation store _ := possible_handle input operation store
  answers _ _ _ _ _ := trivial
  keeps _ _ _ _ _ _ _ _ _ := trivial
  posts _ _ _ _ _ _ := trivial
  program host task _ := program_told network host task
  serve host request _ _ _ := serve_told network host request

variable [DecidableEq Host] {network} {stores : Host → Store} {world : World Host}

/-- A thread that has finished has announced what it changed. -/
theorem announced_since
    (run : Rpc.Reachable network.system (fun _ _ => True) ⟨stores, [], []⟩ world)
    {thread : TaskConduct.Thread Host} (member : thread ∈ world.threads)
    (finished : thread.finished = true) (change : Change) (id : Str) {later earlier : Trace}
    {event : Event nodeSig} (kind : change ≠ .stored)
    (split : thread.history = later ++ event :: earlier)
    (changed : changes (network.id thread.node) id change event = true) :
    ∃ push ∈ later, announces id change push = true := by
  have inOrder := Rpc.inOrder_run (telling_guaranteed network)
    (fun _ _ _ => ⟨fun _ _ _ => trivial, fun _ _ _ _ _ => trivial⟩) (fun _ => trivial) run
  cases done : thread.program with
  | op operation next => simp [Rpc.Thread.finished, done, Program.finished] at finished
  | ret answer =>
      have gone : ¬Owed (network.id thread.node) id change thread.history := by
        intro owed
        cases inOrder.finished member done change id kind owed
      exact Since.lost_later gone split changed

/-- However the threads are interleaved, each push a thread makes announces a change its history
shows, with the group id of the row, and a thread that has finished announced every message it
received and every edit and delete after making it. -/
theorem pushes_match
    (run : Rpc.Reachable network.system (fun _ _ => True) ⟨stores, [], []⟩ world)
    {thread : TaskConduct.Thread Host} (member : thread ∈ world.threads) :
    (∀ later payload earlier messageId,
      thread.history = later ++ ⟨.inl (.notify payload), ()⟩ :: earlier →
      payload.optional "message_id" = some messageId →
      ∃ change groupId,
        Announces (network.id thread.node) earlier payload messageId change groupId) ∧
    (thread.finished = true → ∀ change id later event earlier, change ≠ .stored →
      thread.history = later ++ event :: earlier →
      changes (network.id thread.node) id change event = true →
      ∃ push ∈ later, announces id change push = true) := by
  have inOrder := Rpc.inOrder_run (telling_guaranteed network)
    (fun _ _ _ => ⟨fun _ _ _ => trivial, fun _ _ _ _ _ => trivial⟩) (fun _ => trivial) run
  constructor
  · intro later payload earlier messageId split named
    have followed := inOrder.followed thread member
    rw [split] at followed
    exact followed.past.1 messageId named
  · intro finished change id later event earlier kind split changed
    exact announced_since run member finished change id kind split changed

/-! Each message is stored once, and announced as new once. -/

/-- Whether the id is taken, as a number of messages. -/
def taken (id : Str) (store : Store) : Nat := if store.messages.has id then 1 else 0

omit [DecidableEq Host] in
theorem taken_stays (id : Str) (input : Input) (operation : LocalOp) (store : Store) :
    taken id store ≤ taken id (handle input operation store).2 := by
  cases operation with
  | call call =>
      cases found : store.messages.find id with
      | none => simp [taken, Table.has, found]
      | some row =>
          have later : ((call.exec input.now store).2.messages.find id).isSome = true := by
            rw [DbViews.messages_exec, found]
            cases call <;> rfl
          simp [taken, Table.has, found, handle, later]
  | _ => exact Nat.le_refl _

omit [DecidableEq Host] in
theorem stored_paid (self id : Str) (input : Input) (operation : LocalOp) (store : Store)
    (counts : changes self id .stored ⟨.inl operation, (handle input operation store).1⟩ = true) :
    taken id store < taken id (handle input operation store).2 := by
  cases operation with
  | call call =>
      cases call with
      | addMessage msg =>
          simp only [changes, handle, Call.exec, Bool.and_true, Bool.and_eq_true,
            decide_eq_true_eq, Bool.not_eq_true'] at counts
          obtain ⟨free, rfl⟩ := counts
          have there : (addMessage msg store.messages).has (cstr msg.messageId) = true := by
            simp [Table.has, addMessage, Table.find_insert, Message.stored]
          simp [taken, handle, Call.exec, free, there]
      | updateMessages messageId only mark => cases mark <;> simp [changes] at counts
      | _ => cases counts
  | _ => cases counts

theorem stored_once (host : Host) (id : Str)
    (run : Rpc.Reachable network.system (fun _ _ => True) ⟨stores, [], []⟩ world) :
    Rpc.tally host (changes (network.id host) id .stored) world ≤ 1 := by
  refine (Rpc.tally_afforded (taken id) (fun _ _ => rfl) (taken_stays id)
    (stored_paid (network.id host) id) (Nat.zero_le _) run).trans ?_
  unfold taken
  split <;> decide

omit [DecidableEq Host] in
/-- What a thread announced as new it had stored and not announced since. -/
theorem announced_owed {self id : Str} {later earlier : Trace} {event : Event nodeSig}
    {history : Trace} (followed : (telling self).Followed history)
    (split : history = later ++ event :: earlier) (announced : announces id .stored event = true) :
    Owed self id .stored earlier := by
  obtain ⟨operation, answer⟩ := event
  match operation with
  | .inl (.notify payload) =>
      simp only [announces, Bool.and_eq_true, decide_eq_true_eq, Option.map_eq_some_iff] at announced
      obtain ⟨type, messageId, named, rfl⟩ := announced
      rw [split] at followed
      obtain ⟨change, groupId, told⟩ := followed.past.1 messageId named
      have same := Option.some.inj (type.symm.trans told.type)
      cases told.grounded with
      | stored => exact told.owed.resolve_right (fun other => by cases other.1)
      | edited | deleted => exact absurd same (by decide)

omit [DecidableEq Host] in
theorem announced_le_stored {self : Str} (id : Str) {history : Trace}
    (followed : (telling self).Followed history) :
    history.countP (announces id .stored) ≤ history.countP (changes self id .stored) := by
  have matched := Since.countP_lost (changes self id .stored · = true)
    (announces id .stored · = true)
    (fun later event earlier split announced => announced_owed followed split announced)
    (fun event announced => ?_)
  · simpa using matched.1
  · obtain ⟨operation, answer⟩ := event
    match operation with
    | .inl (.notify payload) => simp [changes]

theorem pushed_at_most_once (host : Host) (id : Str)
    (run : Rpc.Reachable network.system (fun _ _ => True) ⟨stores, [], []⟩ world) :
    Rpc.tally host (announces id .stored) world ≤ 1 := by
  have inOrder := Rpc.inOrder_run (telling_guaranteed network)
    (fun _ _ _ => ⟨fun _ _ _ => trivial, fun _ _ _ _ _ => trivial⟩) (fun _ => trivial) run
  refine (Rpc.tally_mono fun thread member here => ?_).trans (stored_once host id run)
  subst here
  exact announced_le_stored id (inOrder.followed thread member)

/-- A delivery that is answered with 200 is announced by its own thread. -/
theorem pushed_of_received
    (run : Rpc.Reachable network.system (fun _ _ => True) ⟨stores, [], []⟩ world)
    {thread : TaskConduct.Thread Host} (member : thread ∈ world.threads) {id : Str} {data : Json}
    (named : names id data = true) (finished : thread.finished = true) {msg : Message}
    (received : Received network.sodium (network.keys thread.node) data msg)
    (added : (⟨.inl (.call (.addMessage msg)), true⟩ : Event nodeSig) ∈ thread.history) :
    Rpc.tally thread.node (announces id .stored) world = 1 := by
  obtain ⟨later, earlier, split⟩ := List.append_of_mem added
  have same := (TaskConduct.names_iff received.messageId).mp named
  obtain ⟨push, pushed, announced⟩ := announced_since run member finished
    .received id (by decide) split
    (by simp [changes, same, received.own, received.accepted, Deployment.id])
  have counted : 0 < thread.history.countP (announces id .stored) := by
    refine List.countP_pos_iff.mpr ⟨push, ?_, announced⟩
    rw [split]
    exact List.mem_append_left _ pushed
  have shared := Rpc.share_le_tally thread.node (announces id .stored) member
  rw [Rpc.share, if_pos rfl] at shared
  have once := pushed_at_most_once thread.node id run
  omega

/-- However often a message is sent again, repeated or replayed, a node's devices hear of it as
new at most once, and exactly once when a delivery of it, posted by a node or come from outside,
has been answered with 200. -/
theorem pushed_once (host : Host) (id : Str)
    (run : Rpc.Reachable network.system (fun _ _ => True) ⟨stores, [], []⟩ world) :
    Rpc.tally host (announces id .stored) world ≤ 1 ∧
    (∀ thread ∈ world.threads, ∀ job request answer, thread.node = host →
      thread.origin = some (job, request) → request.endpoint = .acceptMessage →
      names id request.body = true → thread.program = .ret answer → answer.code = 200 →
      Rpc.tally host (announces id .stored) world = 1) ∧
    ∀ thread ∈ world.threads, ∀ data answer, thread.node = host →
      Rpc.Thread.Continues (network.program host (.incoming .acceptMessage (some data))) thread →
      names id data = true → thread.program = .ret answer → answer.code = 200 →
      Rpc.tally host (announces id .stored) world = 1 := by
  refine ⟨pushed_at_most_once host id run, ?_, ?_⟩
  · rintro thread member job request answer rfl serves endpoint named done ok
    have orderly := run.invariant (TaskConduct.Orderly network) (TaskConduct.orderly_idle stores)
      fun before label after orderly _ step => TaskConduct.orderly_step step orderly
    have ensured := Rpc.complies_ensures (orderly.complies thread member) serves done ok
    simp only [endpoint] at ensured
    obtain ⟨msg, received, added⟩ := ensured
    exact pushed_of_received run member named
      (by simp [Rpc.Thread.finished, done, Program.finished]) received added
  · rintro thread member data answer rfl continues named done ok
    have inOrder := Rpc.inOrder_run (telling_guaranteed network)
      (fun _ _ _ => ⟨fun _ _ _ => trivial, fun _ _ _ _ _ => trivial⟩) (fun _ => trivial) run
    obtain ⟨_, ensured⟩ := continues.followed
      (ServedConduct.acceptMessage_served network.sodium (network.keys thread.node)
        ⟨[], .acceptMessage, data⟩ rfl)
      fun event past => (inOrder.followed thread member).possible past
    rw [done] at ensured
    obtain ⟨msg, received, added⟩ := ensured ok
    exact pushed_of_received run member named
      (by simp [Rpc.Thread.finished, done, Program.finished]) received added

/-- The thread that received the message has pushed it. -/
theorem greeting_announced : ∃ (world : World Bool) (thread : TaskConduct.Thread Bool),
    thread ∈ world.threads ∧ thread.node = false ∧
    ∃ push ∈ thread.history, announces firstId .received push = true := by
  have ran : (Rpc.run pair.system (fun _ _ => true) Delivery.greeting
      ⟨acquainted, [], []⟩).bind (fun world => world.threads[1]?.map fun thread =>
        (thread.node, thread.finished,
          thread.history.any (changes (pair.id false) firstId .received))) =
      some (false, true, true) := by
    decide +kernel
  obtain ⟨world, scheduled, rest⟩ := Option.bind_eq_some_iff.mp ran
  obtain ⟨thread, found, facts⟩ := Option.map_eq_some_iff.mp rest
  simp only [Prod.mk.injEq, List.any_eq_true] at facts
  obtain ⟨node, finished, event, happened, changed⟩ := facts
  have member := List.mem_of_getElem? found
  obtain ⟨later, earlier, split⟩ := List.append_of_mem happened
  obtain ⟨push, pushed, announced⟩ := (pushes_match
    (Rpc.run_reachable (fun _ _ _ => trivial) Delivery.greeting scheduled) member).2 finished
    .received firstId later event earlier (by decide) split (by rw [node]; exact changed)
  exact ⟨world, thread, member, node, push, split ▸ List.mem_append_left _ pushed, announced⟩

/-- What the first message was sent as. -/
def sealedGreeting : Str :=
  (encryptMessage pair.sodium (List.replicate nonceBytes 0) (str "hi") (pair.id false)
    (pair.keys true).privateKeyB64).getD []

/-- After the message has arrived somebody replays the request. -/
def replayed : List (Action Bool) :=
  Delivery.greeting ++ [.start false (.incoming .acceptMessage (some (.obj
    [("message_id", .str firstId), ("sender_id", .str (pair.id true)),
      ("recipient_id", .str (pair.id false)), ("ciphertext", .str sealedGreeting),
      ("timestamp", .num 7)]))), .act 2 (clockAt 8)]

theorem replayed_once : ∃ (world : World Bool) (last : TaskConduct.Thread Bool) (answer : Response),
    world.threads[2]? = some last ∧ last.program = .ret answer ∧ answer.code = 500 ∧
    Rpc.tally false (announces firstId .stored) world = 1 := by
  have ran : (Rpc.run pair.system (fun _ _ => true) replayed ⟨acquainted, [], []⟩).bind
      (fun world => world.threads[1]?.bind fun first => world.threads[2]?.bind fun last =>
        first.origin.bind fun origin => first.program.result.bind fun answer =>
          last.program.result.map fun refusal => (first.node, origin.2.endpoint,
            names firstId origin.2.body, answer.code, refusal.code)) =
      some (false, .acceptMessage, true, 200, 500) := by
    decide +kernel
  obtain ⟨world, scheduled, ran⟩ := Option.bind_eq_some_iff.mp ran
  obtain ⟨first, found, ran⟩ := Option.bind_eq_some_iff.mp ran
  obtain ⟨last, present, ran⟩ := Option.bind_eq_some_iff.mp ran
  obtain ⟨origin, serves, ran⟩ := Option.bind_eq_some_iff.mp ran
  obtain ⟨answer, done, ran⟩ := Option.bind_eq_some_iff.mp ran
  obtain ⟨refusal, refused, facts⟩ := Option.map_eq_some_iff.mp ran
  simp only [Prod.mk.injEq] at facts
  obtain ⟨node, endpoint, named, ok, failed⟩ := facts
  exact ⟨world, last, refusal, present, Program.result_eq_some.mp refused, failed,
    (pushed_once false firstId (Rpc.run_reachable (fun _ _ _ => trivial) replayed scheduled)).2.1
      first (List.mem_of_getElem? found) origin.1 origin.2 answer node serves endpoint named
      (Program.result_eq_some.mp done) ok⟩

end Runs

end NoMiddle.Announcements
