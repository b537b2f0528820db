import NoMiddle.Frailty
import NoMiddle.Effects
import NoMiddle.Authorship

/-! Which good news may be believed when SQLite calls fail. A row that counts as delivered and an
answer that says a message was delivered are right, whichever calls fail on whichever node; it is
bad news that may be wrong. -/
namespace NoMiddle.Honesty
open Library Text Crypto DbManager DbViews Node MessageDelivery RetryWorker Handlers GroupHandlers
open Network Conduct Effects Footprint Faults Frailty
open Recall (Core core Stored core_set stored_found stored_listed stored_insert)
open Delivery (Delivered granted shows)
open Authorship (Does)
open TaskConduct (World Thread)

/-- The body brings the message. -/
structure Tells (body : Json) (message : Core) : Prop where
  messageId : body.s? "message_id" = some message.messageId
  senderId : body.s? "sender_id" = some message.senderId
  recipientId : body.s? "recipient_id" = some message.recipientId
  groupId : (body.optional "group_id").getD [] = message.groupId
  timestamp : body.i? "timestamp" = some message.timestamp

/-- Some node answered that it has stored the message. -/
def confirms (message : Core) : Event nodeSig → Prop
  | ⟨.inr request, some response⟩ =>
      response.code = 200 ∧ request.endpoint = .acceptMessage ∧ Tells request.body message
  | _ => False

def Confirmed (message : Core) (history : Trace) : Prop :=
  ∃ event ∈ history, confirms message event

theorem confirmed_cons {message : Core} {event : Event nodeSig} {history : Trace} :
    Confirmed message (event :: history) ↔ confirms message event ∨ Confirmed message history := by
  simp [Confirmed]

theorem Confirmed.cons {message : Core} {history : Trace} (confirmed : Confirmed message history)
    (event : Event nodeSig) : Confirmed message (event :: history) :=
  confirmed_cons.mpr (.inr confirmed)

theorem confirmed_refused {message : Core} {request : Request} {answer : Option Response}
    (refused : ¬delivered (answer.map (·.code)) = true) (history : Trace) :
    Confirmed message (⟨.inr request, answer⟩ :: history) ↔ Confirmed message history := by
  refine confirmed_cons.trans (or_iff_right ?_)
  cases answer with
  | none => exact id
  | some response => exact fun said => refused ((delivered_iff _).mpr ⟨response, rfl, said.1⟩)

theorem confirmed_now {message : Core} {body : Json} {response : Response}
    (code : response.code = 200) (tells : Tells body message) (serverAddress : Str)
    (history : Trace) : Confirmed message
      (⟨.inr ⟨serverAddress, .acceptMessage, body⟩, some response⟩ :: history) :=
  ⟨_, List.mem_cons_self, code, rfl, tells⟩

/-- Whoever sends nothing is told nothing. -/
theorem confirmed_grown {message : Core} {used : List Resource} {history after : Trace}
    (silent : Resource.peers ∉ used) (grown : Grown (within used) history after) :
    Confirmed message after ↔ Confirmed message history := by
  refine ⟨fun ⟨event, past, said⟩ => ⟨event, ?_, said⟩,
    fun ⟨event, past, said⟩ => ⟨event, grown.mem past, said⟩⟩
  obtain ⟨operation, answer⟩ := event
  cases operation with
  | inl operation => exact said.elim
  | inr request => exact grown.mem_before past (by simpa [within, touches] using silent)

/-- A row the thread inserted or was shown. -/
inductive Held (history : Trace) : Message → Prop where
  | stored {msg : Message}
      (added : (⟨.inl (.call (.addMessage msg)), true⟩ : Event nodeSig) ∈ history) :
      Held history msg.stored
  | listed {query : Query} {row : Message} (among : Listed history query row) : Held history row

/-- A row is marked as accepted only when somebody has confirmed it, and inserted so only when
it is for the node itself. -/
def candid (own : Str) : Discipline nodeSig where
  possible := Credible
  allowed history
    | .inl (.call (.addMessage msg)) =>
        cstr msg.groupId = [] → msg.accepted = 1 → msg.recipientId = own
    | .inl (.call (.updateMessages messageId _ .accepted)) => ∃ copy, Held history copy ∧
        copy.messageId = messageId ∧ Confirmed (core copy) history
    | _ => True

theorem calm {operation : nodeSig.Op} (spared : Resource.deliveries ∉ touches operation)
    (own : Str) (history : Trace) : (candid own).allowed history operation := by
  cases operation using operation_cases with
  | call db =>
      cases db with
      | addMessage msg => exact absurd (by simp [touches, reaches]) spared
      | updateMessages messageId only mark =>
          cases mark with
          | accepted => exact absurd (by simp [touches, reaches, marks]) spared
          | _ => trivial
      | _ => trivial
  | _ => trivial

section Routes
variable {own : Str} {Value : Type} {post : Value → Trace → Prop} {history : Trace}

theorem wp_still {Output : Type} {used : List Resource} {program : Proc Output}
    {rest : Output → Proc Value} (only : program.Only (within used))
    (spared : Resource.deliveries ∉ used)
    (later : ∀ value after, Grown (within used) history after →
      (rest value).wp (candid own).contract post after) :
    (program >>= rest).wp (candid own).contract post history :=
  Program.wp_seq (candid own).contract_monotone program rest history
    (Program.wp_grown program only (.refl history) (Program.wp_of_only
      (fun past _ inside => calm (spared_of_within inside spared) own past) program only history))
    fun value after still => later value after still.2

theorem wp_authed (sodium : Sodium) (req : HttpRequest) (refused : Response) {rest : Proc Response}
    {post : Response → Trace → Prop} (refusal : ∀ after, post refused after)
    (later : ∀ after, Grown (within []) history after →
      rest.wp (candid own).contract post after) :
    (do if !(← isAuthed sodium req) then return refused
        rest).wp (candid own).contract post history := by
  refine wp_still (isAuthed_only sodium (fun _ => rfl) req) List.not_mem_nil
    fun authed after still => ?_
  cases authed with
  | true => exact later after still
  | false => exact refusal after

theorem deliverMessage_candid {recipientId ciphertext plaintext : Str} (timestamp : Int)
    (clean : Clean own) (cleanRecipient : Clean recipientId) (history : Trace) :
    (deliverMessage own recipientId ciphertext plaintext timestamp).wp (candid own).contract
      (fun sent after => ∀ messageId, sent = some messageId → Clean messageId ∧
        Confirmed ⟨messageId, own, recipientId, [], timestamp⟩ after) history := by
  refine wp_perform trivial fun dice _ => ?_
  refine wp_perform (fun _ accepted => by cases accepted) fun (added : Bool) _ => ?_
  cases added with
  | false => exact fun _ none => by cases none
  | true =>
      have tells : Tells (.obj [("message_id", .str (uuidOf dice)), ("sender_id", .str own),
          ("recipient_id", .str recipientId), ("ciphertext", .str ciphertext),
          ("timestamp", .num timestamp)]) ⟨uuidOf dice, own, recipientId, [], timestamp⟩ :=
        ⟨rfl, rfl, rfl, rfl, rfl⟩
      refine wp_perform trivial fun address _ => wp_send trivial fun answer => ?_
      split
      · next ok =>
        obtain ⟨response, rfl, code⟩ := (delivered_iff answer).mp ok
        refine wp_mark ⟨_, .stored (List.mem_cons_of_mem _ (List.mem_cons_of_mem _
          List.mem_cons_self)), cstr_of_clean (uuid_clean dice), ?_⟩ fun _ _ => ?_
        · simpa [core, Message.stored, cstr_of_clean, uuid_clean, clean, cleanRecipient]
            using confirmed_now code tells _ _
        · rintro messageId ⟨⟩
          exact ⟨uuid_clean dice, (confirmed_now code tells _ _).cons _⟩
      · exact fun _ none => by cases none

variable (sodium : Sodium) (keys : KeyPair)

/-- A 200 names a message to the recipient asked for, and somebody has confirmed it. -/
def Sent (req : HttpRequest) (answer : Response) (history : Trace) : Prop :=
  answer.code = 200 → ∃ dataJson messageId recipientId timestamp, req.body = some dataJson ∧
    dataJson.s? "recipient_id" = some recipientId ∧
    answer = ok [("message_id", .str messageId)] ∧ Clean messageId ∧
    Confirmed ⟨messageId, keys.publicKeyB64, recipientId, [], timestamp⟩ history

theorem sendDirect_candid (req : HttpRequest) :
    (sendDirect sodium keys req).wp (candid keys.publicKeyB64).contract (Sent keys req) [] := by
  refine wp_authed sodium req _ (fun _ code => by cases code) fun history _ => ?_
  cases body : req.body with
  | none => exact fun code => by cases code
  | some dataJson =>
  dsimp only
  rcases dataJson.hasAll? ["recipient_id", "text"] with _ | _ | _
  · exact fun code => by cases code
  · exact fun code => by cases code
  rcases recipient : dataJson.s? "recipient_id" with _ | recipientId
  · exact fun code => by cases code
  rcases dataJson.s? "text" with _ | plaintext
  · exact fun code => by cases code
  refine wp_perform trivial fun (timestamp : Int) _ => wp_perform trivial fun nonce _ => ?_
  cases encrypted : encryptMessage sodium nonce plaintext recipientId keys.privateKeyB64 with
  | none => exact fun code => by cases code
  | some ciphertext =>
      refine Program.wp_seq (candid _).contract_monotone _ _ _ (deliverMessage_candid timestamp
        (publicKeyB64_clean keys) (encryptMessage_clean encrypted).2 _) fun sent after told => ?_
      cases sent with
      | none => exact fun code => by cases code
      | some messageId =>
          obtain ⟨clean, confirmed⟩ := told messageId rfl
          exact ⟨trivial, fun _ _ _ => ⟨dataJson, messageId, recipientId, timestamp, body,
            recipient, rfl, clean, confirmed.cons _⟩⟩

/-! A message to a group, one member after the other. -/
section Loop
variable {messageId groupId : Str} {timestamp : Int}

/-- The message as the member gets it. -/
def letter (messageId groupId : Str) (timestamp : Int) (memberId : Str) : Core :=
  ⟨messageId, keys.publicKeyB64, memberId, groupId, timestamp⟩

/-- A turn of the loop: the flag stays only if the member confirms, and nobody else does. -/
structure Turned (letter : Str → Core) (sender memberId : Str) (online : Bool) (history : Trace)
    (later : Bool) (after : Trace) : Prop where
  flagged : later = true ↔ online = true ∧ (memberId = sender ∨ Confirmed (letter memberId) after)
  others : ∀ other, other ≠ memberId →
    (Confirmed (letter other) after ↔ Confirmed (letter other) history)

theorem Turned.unsent {letter : Str → Core} {sender memberId : Str} {online : Bool}
    {used : List Resource} {after : Trace} (apart : memberId ≠ sender)
    (unmet : ¬Confirmed (letter memberId) history) (silent : Resource.peers ∉ used)
    (grown : Grown (within used) history after) :
    Turned letter sender memberId online history false after where
  flagged := by simp [apart, confirmed_grown silent grown, unmet]
  others other _ := confirmed_grown silent grown

theorem Turned.refused {letter : Str → Core} {sender memberId : Str} {online : Bool}
    {request : Request} {answer : Option Response} {after : Trace}
    (turned : Turned letter sender memberId online history false after)
    (refused : ¬delivered (answer.map (·.code)) = true) :
    Turned letter sender memberId online history false (⟨.inr request, answer⟩ :: after) where
  flagged := turned.flagged.trans (by rw [confirmed_refused refused])
  others other different := (confirmed_refused refused _).trans (turned.others other different)

theorem memberAddress_within (m : GroupMember) : (memberAddress m).Only (within []) := by
  unfold memberAddress
  dsimp only
  split
  · exact ⟨rfl, fun _ => trivial⟩
  · trivial

theorem sendToMember_turned {text : Str} {online : Bool} {m : GroupMember}
    (cleanId : Clean messageId) (cleanGroup : Clean groupId) (inGroup : groupId ≠ [])
    (unmet : ¬Confirmed (letter keys messageId groupId timestamp m.memberId) history) :
    (sendToMember sodium keys messageId groupId text timestamp online m).wp
      (candid keys.publicKeyB64).contract
      (Turned (letter keys messageId groupId timestamp) keys.publicKeyB64 m.memberId online history)
      history := by
  unfold sendToMember
  split
  · next same => exact ⟨by simp [same], fun _ _ => Iff.rfl⟩
  · next apart =>
    have unsent : ∀ after, Grown (within [.messages, .deliveries]) history after →
        Turned (letter keys messageId groupId timestamp) keys.publicKeyB64 m.memberId online
          history false after := fun _ grown => .unsent apart unmet (by decide) grown
    refine wp_still (memberAddress_within m) List.not_mem_nil fun address asked quiet => ?_
    have still : Grown (within [.messages, .deliveries]) history asked :=
      quiet.mono fun _ inside => within_iff.mpr (List.Subset.trans (within_iff.mp inside)
        (List.nil_subset _))
    refine wp_perform trivial fun nonce _ => ?_
    cases encrypted : encryptMessage sodium nonce text m.memberId keys.privateKeyB64 with
    | none => exact unsent _ (still.cons rfl)
    | some ciphertext =>
        refine wp_perform trivial fun (accepted : Int) _ => wp_perform (fun group _ => absurd
          ((cstr_of_clean cleanGroup).symm.trans group) inGroup) fun (added : Bool) _ => ?_
        have unposted : Grown (within [.messages, .deliveries]) history
            (⟨.inl (.call (.addMessage ⟨messageId, keys.publicKeyB64, m.memberId, groupId, text,
              ciphertext, accepted, timestamp, 0, 0, 1, 0⟩)), added⟩ ::
            ⟨.inl .uninitialised, accepted⟩ :: ⟨.inl (.randombytes nonceBytes), nonce⟩ :: asked) :=
          ((still.cons rfl).cons rfl).cons rfl
        cases added with
        | false => exact unsent _ unposted
        | true =>
            simp only [Bool.not_true, Bool.false_eq_true, ↓reduceIte]
            split
            · exact unsent _ unposted
            have tells : Tells (.obj [("message_id", .str messageId),
                ("sender_id", .str keys.publicKeyB64), ("recipient_id", .str m.memberId),
                ("group_id", .str groupId), ("ciphertext", .str ciphertext),
                ("timestamp", .num timestamp)])
                (letter keys messageId groupId timestamp m.memberId) := ⟨rfl, rfl, rfl, rfl, rfl⟩
            refine wp_send trivial fun answer => ?_
            dsimp only
            split
            · next ok =>
              obtain ⟨response, rfl, code⟩ := (delivered_iff answer).mp ok
              have confirmed := confirmed_now code tells address
              refine wp_mark ⟨_, .stored (List.mem_cons_of_mem _ List.mem_cons_self),
                cstr_of_clean cleanId, ?_⟩ fun _ _ => ⟨by simp [(confirmed _).cons _],
                  fun other different => ?_⟩
              · simpa [letter, core, Message.stored, cstr_of_clean, cleanId, cleanGroup,
                  publicKeyB64_clean, (encryptMessage_clean encrypted).2] using confirmed _
              · rw [confirmed_cons, confirmed_cons, confirmed_grown (by decide) unposted]
                refine (or_iff_right id).trans (or_iff_right fun said => ?_)
                exact different (Option.some.inj (said.2.2.recipientId.symm.trans tells.recipientId))
            · next refused => exact (unsent _ unposted).refused refused

/-- A 200 says of which message it speaks and whether all the members it found have it. -/
def SentToGroup (groupId : Str) (answer : Response) (history : Trace) : Prop :=
  answer.code = 200 → ∃ messageId timestamp members flag,
    answer = ok [("message_id", .str messageId), ("delivered", .bool flag)] ∧ Clean messageId ∧
    (⟨.inl (.call (.getGroupMembers groupId)), members⟩ : Event nodeSig) ∈ history ∧
    (flag = true ↔ ∀ m ∈ (members : List GroupMember), m.memberId = keys.publicKeyB64 ∨
      Confirmed (letter keys messageId groupId timestamp m.memberId) history)

theorem groupSend_candid (req : HttpRequest) (group : PathId) :
    (groupSend sodium keys req group).wp (candid keys.publicKeyB64).contract
      (SentToGroup keys group.text) [] := by
  have monotone := (candid keys.publicKeyB64).contract_monotone
  refine wp_authed sodium req _ (fun _ code => by cases code) fun history still => ?_
  cases req.body with
  | none => exact fun code => by cases code
  | some dataJson =>
  dsimp only
  rcases dataJson.hasAll? ["text"] with _ | _ | _
  · exact fun code => by cases code
  · exact fun code => by cases code
  rcases dataJson.s? "text" with _ | text
  · exact fun code => by cases code
  refine wp_perform trivial fun (timestamp : Int) _ => wp_perform trivial fun dice _ =>
    wp_perform trivial fun (members : List GroupMember) known => ?_
  dsimp only
  split
  · exact fun code => by cases code
  generalize begun : (⟨.inl (.call (.getGroupMembers group.text)), members⟩ ::
    ⟨.inl .dice, dice⟩ :: ⟨.inl .time, timestamp⟩ :: history : Trace) = start
  have quiet : Grown (within []) [] start := begun ▸ ((still.cons rfl).cons rfl).cons rfl
  have fresh : ∀ message, ¬Confirmed message start := by
    intro message confirmed
    obtain ⟨event, past, _⟩ := (confirmed_grown List.not_mem_nil quiet).mp confirmed
    exact absurd past List.not_mem_nil
  have apart := List.inj_on_of_nodup_map known.1
  have sends : (members.foldlM (sendToMember sodium keys (uuidOf dice) group.text text timestamp)
      true).wp (candid keys.publicKeyB64).contract (fun flag after => flag = true ↔
        ∀ m ∈ members, m.memberId = keys.publicKeyB64 ∨
          Confirmed (letter keys (uuidOf dice) group.text timestamp m.memberId) after) start := by
    refine Program.wp_foldlM_flag monotone known.1.of_map (fun m member flag after unmet => ?_)
      start fun m _ => fresh _
    refine Program.wp_mono monotone _ (fun _ _ turned => ⟨turned.flagged, ?_⟩) after
      (sendToMember_turned sodium keys (uuid_clean dice) group.clean group.nonempty unmet)
    exact fun other inside different =>
      turned.others other.memberId fun same => different (apart inside member same)
  refine Program.wp_seq monotone _ _ _ (Program.wp_grown _ (Program.only_foldlM
    (sendToMember_within sodium keys _ _ _ _) members true) (.refl start) sends)
    fun flag after done => ?_
  exact fun _ => ⟨uuidOf dice, timestamp, members, flag, rfl, uuid_clean dice,
    done.2.mem (begun ▸ List.mem_cons_self), done.1⟩

end Loop

/-! The worker and the routes for peers. -/

theorem Held.kept {after : Trace} {copy : Message} (held : Held history copy)
    (kept : ∀ event ∈ history, event ∈ after) : Held after copy := by
  cases held with
  | stored added => exact .stored (kept _ added)
  | listed among =>
      obtain ⟨rows, read, member⟩ := among
      exact .listed ⟨rows, kept _ read, member⟩

theorem retryDeliverMessage_candid {msg : Message} (held : Held history msg) :
    (retryDeliverMessage msg).wp (candid own).contract (fun _ _ => True) history := by
  have tells : Tells (.obj [("message_id", .str msg.messageId), ("sender_id", .str msg.senderId),
      ("recipient_id", .str msg.recipientId), ("group_id", .str msg.groupId),
      ("ciphertext", .str msg.ciphertext), ("timestamp", .num msg.timestamp)]) (core msg) :=
    ⟨rfl, rfl, rfl, rfl, rfl⟩
  refine wp_perform trivial fun (address : Str) _ => ?_
  split
  · trivial
  · refine wp_send trivial fun answer => ?_
    dsimp only
    split
    · next ok =>
      obtain ⟨response, rfl, code⟩ := (delivered_iff answer).mp ok
      exact wp_mark ⟨msg, held.kept fun event past => List.mem_cons_of_mem _
        (List.mem_cons_of_mem _ past), rfl, confirmed_now code tells _ _⟩ fun _ _ => trivial
    · trivial

theorem retryPendingMessage_candid {msg : Message} (currentTime : Int) (held : Held history msg) :
    (retryPendingMessage currentTime msg).wp (candid own).contract (fun _ => Grown works history)
      history := by
  have only : (retryPendingMessage currentTime msg).Only works :=
    late_only (toContact_only rfl (fun _ => rfl) ⟨rfl, fun _ => trivial⟩) ⟨rfl, fun _ => trivial⟩
  have complies : (retryPendingMessage currentTime msg).wp (candid own).contract
      (fun _ _ => True) history := by
    refine Program.wp_seq (candid own).contract_monotone _ _ history
      (retryDeliverMessage_candid held) fun done after _ => ?_
    cases done with
    | true => trivial
    | false =>
        simp only [Bool.not_false, if_true]
        split
        · exact ⟨trivial, fun _ _ => trivial⟩
        · trivial
  exact Program.wp_mono (candid own).contract_monotone _ (fun _ _ both => both.2) history
    (Program.wp_grown _ only (.refl history) complies)

theorem retryPass_candid : retryPass.wp (candid own).contract (fun _ _ => True) [] := by
  have monotone := (candid own).contract_monotone
  refine wp_perform trivial fun (messages : List Message) _ => ?_
  refine wp_perform trivial fun (edits : List Message) _ => ?_
  refine wp_perform trivial fun (updates : List GroupUpdate) _ => ?_
  have pushed : (updates.forM retryPendingGroupUpdate).Only (within [.groupUpdates, .peers]) := by
    refine Program.only_forM (fun u => ?_) updates
    exact Program.only_bind (toContact_only rfl (fun _ => rfl) ⟨rfl, fun _ => trivial⟩)
      fun _ => trivial
  refine wp_still pushed (by decide) fun _ history grown => ?_
  refine wp_perform trivial fun (deletes : List Message) _ => ?_
  refine wp_perform trivial fun (currentTime : Int) _ => ?_
  have listed : ∀ msg ∈ messages, Held (⟨.inl .time, currentTime⟩ ::
      ⟨.inl (.call (.getMessages .pendingDeletes)), deletes⟩ :: history) msg := by
    intro msg member
    have read := grown.mem (List.mem_cons_of_mem _ (List.mem_cons_of_mem _ List.mem_cons_self))
    exact .listed ⟨messages, List.mem_cons_of_mem _ (List.mem_cons_of_mem _ read), member⟩
  refine Program.wp_seq monotone _ _ _ (Program.wp_forM_mem monotone _
    (fun after => ∀ msg ∈ messages, Held after msg) messages (fun msg member after held =>
      Program.wp_mono monotone _ (fun _ _ turned other inside =>
        (held other inside).kept fun _ past => turned.mem past) after
        (retryPendingMessage_candid currentTime (held msg member))) _ listed) fun _ swept _ => ?_
  have rest : (do
      edits.forM (retryPendingEdit currentTime)
      deletes.forM (retryPendingDelete currentTime) : Proc Unit).Only
        (within [.messages, .peers, .verdicts]) := by
    refine Program.only_bind (Program.only_forM (fun msg => ?_) edits) fun _ =>
      Program.only_forM (fun msg => ?_) deletes
    all_goals
      exact late_only (toContact_only rfl (fun _ => rfl) ⟨rfl, fun _ => trivial⟩)
        ⟨rfl, fun _ => trivial⟩
  exact Program.wp_of_only (fun past _ inside => calm (spared_of_within inside (by decide)) own past)
    _ rest swept

theorem acceptMessage_unmarked (body : Option Json) :
    (acceptMessage sodium keys body).Only unmarked := by
  unfold acceptMessage
  repeat' split
  all_goals first
    | trivial
    | refine only_perform rfl fun (added : Bool) => ?_
  cases added with
  | false => trivial
  | true => exact ⟨rfl, fun _ => trivial⟩

theorem acceptMessage_candid (request : Request) (endpoint : request.endpoint = .acceptMessage) :
    (acceptMessage sodium keys (some request.body)).wp (candid keys.publicKeyB64).contract
      (ensures sodium keys request) [] := by
  refine Program.wp_weaken_only (fun _ _ => credible_possible) (fun history operation allowed => ?_) _
    (acceptMessage_unmarked sodium keys _) []
    (ServedConduct.acceptMessage_served sodium keys request endpoint)
  cases operation using operation_cases with
  | call db =>
      cases db with
      | addMessage msg => exact fun _ _ => allowed.2.own
      | updateMessages messageId only mark =>
          cases mark with
          | accepted => exact allowed.2.elim
          | _ => trivial
      | _ => trivial
  | _ => trivial

end Routes

section Runs
variable {Host : Type} (network : Deployment Host)

theorem spared_candid {Value : Type} {used : List Resource} {program : Proc Value}
    (only : program.Only (within used)) (spared : Resource.deliveries ∉ used) (own : Str) :
    program.wp (candid own).contract (fun _ _ => True) [] :=
  Program.wp_of_only (fun past _ inside => calm (spared_of_within inside spared) own past)
    program only []

theorem receive_candid (host : Host) (endpoint : Endpoint) (body : Option Json) :
    (network.receive host endpoint body).wp (candid (network.id host)).contract
      (fun _ _ => True) [] := by
  cases endpoint with
  | acceptMessage =>
      cases body with
      | none => trivial
      | some body =>
          exact Program.wp_mono (candid _).contract_monotone _ (fun _ _ _ => trivial) []
            (acceptMessage_candid network.sodium (network.keys host) ⟨[], .acceptMessage, body⟩ rfl)
  | acceptEdit => exact spared_candid (acceptEdit_within _ _ body) (by decide) _
  | acceptDelete => exact spared_candid (acceptDelete_within _ body) (by decide) _
  | acceptGroupUpdate => exact spared_candid (acceptGroupUpdate_within body) (by decide) _
  | publicKey => trivial

theorem program_candid (host : Host) (task : Task) :
    (network.program host task).wp (candid (network.id host)).contract (fun _ _ => True) [] := by
  have monotone := (candid (network.id host)).contract_monotone
  by_cases spared : Resource.deliveries ∉ uses task
  · exact spared_candid (program_within network host task) spared _
  · cases task with
    | sendMessage req =>
        exact Program.wp_mono monotone _ (fun _ _ _ => trivial) [] (sendDirect_candid _ _ req)
    | groupSend req group =>
        exact Program.wp_mono monotone _ (fun _ _ _ => trivial) [] (groupSend_candid _ _ req group)
    | retryPass =>
        exact Program.wp_seq monotone _ _ [] retryPass_candid fun _ _ _ => trivial
    | incoming endpoint body => exact receive_candid network host endpoint body
    | _ => exact absurd (by simp [uses]) spared

/-- A 200 to a delivered message says that it was stored. -/
def vouches (host : Host) (origin : Option Request) (answer : Response) (history : Trace) : Prop :=
  ∀ request, origin = some request → request.endpoint = .acceptMessage →
    ensures network.sodium (network.keys host) request answer history

theorem serve_candid (host : Host) (request : Request) :
    (network.serve host request).wp (candid (network.id host)).contract
      (vouches network host (some request)) [] := by
  have monotone := (candid (network.id host)).contract_monotone
  by_cases asked : request.endpoint = .acceptMessage
  · have same : network.serve host request =
        acceptMessage network.sodium (network.keys host) (some request.body) := by
      simp [Deployment.serve, Handlers.serve, asked]
    rw [same]
    refine Program.wp_mono monotone _ ?_ [] (acceptMessage_candid _ _ request asked)
    rintro answer history ensured _ ⟨⟩ _
    exact ensured
  · have spared : Resource.deliveries ∉ served request.endpoint := by
      cases endpoint : request.endpoint <;> first | exact absurd endpoint asked | decide
    refine Program.wp_mono monotone _ ?_ [] (spared_candid (serve_within network host request)
      spared _)
    rintro answer history _ _ ⟨⟩ message
    exact absurd message asked

theorem candid_guaranteed : Rpc.Guaranteed (frail network)
    (fun host _ _ => candid (network.id host)) (fun host origin _ => vouches network host origin)
    (fun _ _ => True) (fun _ => True) (fun _ _ => True) (fun _ _ => True) where
  possible _ _ _ drawn operation store _ := credible_act drawn operation store
  answers _ _ _ _ _ := trivial
  keeps _ _ _ _ _ _ _ _ _ := trivial
  posts _ _ _ _ _ _ := trivial
  program host task _ := by
    refine Program.wp_mono (candid _).contract_monotone _ ?_ [] (program_candid network host task)
    rintro _ _ _ _ ⟨⟩
  serve host request _ _ _ := serve_candid network host request

/-- Every thread is candid, in every state of a run with faults. -/
abbrev Candid (state : World Host) : Prop :=
  Rpc.InOrder (fun host _ _ => candid (network.id host))
    (fun host origin _ => vouches network host origin) (fun _ _ => True) (fun _ => True) state

variable [DecidableEq Host] {network} {before after : World Host} {label : FrailAction Host}

theorem stored_step (step : Rpc.Step (frail network) label before after) (host : Host)
    (message : Core) (stored : Stored (before.stores host) message) :
    Stored (after.stores host) message :=
  Rpc.store_step (Stored · message) host
    (fun drawn operation store => stored_act drawn operation store message) step stored

/-- Delivered messages stay with their recipients, whatever fails. -/
theorem delivered_step (step : Rpc.Step (frail network) label before after) {message : Core}
    (delivered : Delivered network before message) : Delivered network after message := by
  obtain ⟨host, recipient, stored⟩ := delivered
  exact ⟨host, recipient, stored_step step host message stored⟩

theorem granted_step (step : Rpc.Step (frail network) label before after) (request : Request)
    (answer : Response) (known : granted network request answer before) :
    granted network request answer after := by
  intro code endpoint
  obtain ⟨host, msg, received, stored⟩ := known code endpoint
  exact ⟨host, msg, received, stored_step step host _ stored⟩

theorem shows_step (step : Rpc.Step (frail network) label before after) (host : Host)
    (event : Event nodeSig) (shown : shows network host event before) :
    shows network host event after := by
  obtain ⟨operation, answer⟩ := event
  cases operation using operation_cases with
  | call db =>
      cases db with
      | addMessage msg => exact fun added => stored_step step host _ (shown added)
      | getMessages query => exact fun row member => stored_step step host _ (shown row member)
      | _ => trivial
  | sent request =>
      cases answer with
      | none => trivial
      | some answer => exact granted_step step request answer shown
  | _ => trivial

omit [DecidableEq Host] in
/-- What an operation answers is true of the store it leaves, also when calls fail. -/
theorem shows_act (state : World Host) (host : Host) {drawn : Drawn} {operation : LocalOp}
    {store : Store} (left : (act drawn (.inl operation) store).2 = state.stores host) :
    shows network host ⟨.inl operation, (act drawn (.inl operation) store).1⟩ state := by
  cases operation with
  | call call =>
      cases call with
      | addMessage msg =>
          intro added
          have done : attempt drawn.input.now drawn.codes store (.addMessage msg) = _ :=
            attempt_added added
          rw [← left]
          change Stored (attempt drawn.input.now drawn.codes store (.addMessage msg)).2 _
          rw [done]
          exact stored_insert drawn.input.now store msg
            ((congrArg Prod.fst done).symm.trans added)
      | getMessages query =>
          intro row member
          rw [← left]
          exact stored_listed store query row
            ((read_front drawn.codes (query.rows store.messages)).mem member)
      | _ => trivial
  | _ => trivial

theorem testifies (step : Rpc.Step (frail network) label before after)
    (candid : Candid network before)
    (testified : Rpc.Testified (shows network) (granted network) before)
    (closed : ∀ request, network.foreign request = false) :
    Rpc.Testifies (shows network) (granted network) step where
  keepEvent host event shown := shows_step step host event shown
  keepAnswer request answer said := granted_step step request answer said
  act index drawn thread operation next answer store labelled current here taken := by
    subst labelled
    have left := Rpc.acted_store step current here
    have answered : (act drawn (.inl operation) (before.stores thread.node)).1 = answer :=
      congrArg Prod.fst taken
    have shown : shows network thread.node _ after := shows_act after thread.node left.symm
    rwa [answered] at shown
  receive host request answer said := granted_step step request answer said
  giveUp _ _ := trivial
  reply thread member job request answer serves done := by
    intro code endpoint
    have origin : thread.origin.map (·.2) = some request := by rw [serves]; rfl
    have ensured := candid.finished member done request origin endpoint code
    simp only [endpoint] at ensured
    obtain ⟨msg, received, added⟩ := ensured
    exact ⟨thread.node, msg, received, testified.event thread member _ added rfl⟩
  foreign request answer outside := by
    cases (closed request).symm.trans outside

omit [DecidableEq Host] in
/-- Whatever somebody has confirmed to a thread, its recipient has. -/
theorem confirmed_delivered {state : World Host} {thread : Thread Host} {message : Core}
    (testified : Rpc.Testified (shows network) (granted network) state)
    (member : thread ∈ state.threads) (confirmed : Confirmed message thread.history)
    (clean : AllClean [message.messageId, message.senderId, message.groupId]) :
    Delivered network state message := by
  obtain ⟨event, past, said⟩ := confirmed
  have shown := testified.event thread member event past
  obtain ⟨operation, answer⟩ := event
  match operation with
  | .inl _ => exact said.elim
  | .inr request =>
  cases answer with
  | none => exact said.elim
  | some answer =>
  obtain ⟨code, endpoint, tells⟩ := said
  obtain ⟨host, msg, received, stored⟩ := shown code endpoint
  have ids := received.messageId.symm.trans tells.messageId
  have senders := received.senderId.symm.trans tells.senderId
  have recipients := received.recipientId.symm.trans tells.recipientId
  have groups := received.groupId.symm.trans tells.groupId
  have times := received.timestamp.symm.trans tells.timestamp
  simp only [Option.some.injEq] at ids senders recipients times
  simp only [AllClean, List.forall_mem_cons] at clean
  have own : msg.recipientId = network.id host := received.own
  have whole : core msg.stored = message := by
    simp only [core, Message.stored, ids, senders, groups, times, cstr_of_clean, clean]
    rw [own, show cstr (network.id host) = network.id host from
      cstr_of_clean (publicKeyB64_clean _), ← own, recipients]
  exact ⟨host, own.symm.trans recipients, whole ▸ stored⟩

omit [DecidableEq Host] in
theorem stored_held {state : World Host} {thread : Thread Host} {copy : Message}
    (testified : Rpc.Testified (shows network) (granted network) state)
    (member : thread ∈ state.threads) (held : Held thread.history copy) :
    Stored (state.stores thread.node) (core copy) := by
  cases held with
  | stored added => exact testified.event thread member _ added rfl
  | listed among =>
      obtain ⟨rows, read, inside⟩ := among
      exact testified.event thread member _ read copy inside

/-- A message row is as it was, or as a call without faults leaves it. -/
theorem message_step (step : Rpc.Step (frail network) label before after) (host : Host) (id : Str) :
    (after.stores host).messages.find id = (before.stores host).messages.find id ∨
    ∃ thread ∈ before.threads, ∃ now call next, thread.node = host ∧
      thread.program = .op (.inl (.call call)) next ∧
      (after.stores host).messages.find id =
        onMessage now id call ((before.stores host).messages.find id) := by
  rcases Rpc.stores_step step with
    same | ⟨index, drawn, thread, operation, next, _, current, here, changed⟩
  · exact .inl (by rw [same])
  · rw [changed]
    by_cases own : host = thread.node
    · subst own
      rw [Function.update_self]
      rcases find_act drawn operation (before.stores thread.node) id with same | ⟨call, rfl, row⟩
      · exact .inl same
      · exact .inr ⟨thread, List.mem_of_getElem? current, drawn.input.now, call, next, rfl, here,
          row⟩
    · rw [Function.update_of_ne own]
      exact .inl rfl

/-- One step: a row is inserted as accepted only by its recipient, and marked so only when its
recipient has confirmed it. -/
theorem neverEarly_step (step : Rpc.Step (frail network) label before after)
    (candid : Candid network before)
    (testified : Rpc.Testified (shows network) (granted network) before)
    (neverEarly : Delivery.NeverEarly network before) : Delivery.NeverEarly network after := by
  intro host id row found sender direct accepted
  rcases message_step step host id with same | ⟨thread, member, now, call, next, rfl, here, changed⟩
  · rw [same] at found
    exact delivered_step step (neverEarly host id row found sender direct accepted)
  have allowed := (candid.next member here).1
  have origin := changed.symm.trans found
  rcases onMessage_cases origin with kept | ⟨msg, rfl, _, key, rfl⟩ |
    ⟨old, messageId, recipientId, mark, rfl, there, hit, rfl⟩
  · exact delivered_step step (neverEarly thread.node id row kept sender direct accepted)
  · have own : msg.recipientId = network.id thread.node := allowed direct accepted
    refine ⟨thread.node, ?_, msg.stored, ?_, rfl⟩
    · change network.id thread.node = cstr msg.recipientId
      rw [own]
      exact (cstr_of_clean (publicKeyB64_clean _)).symm
    · rw [show (core msg.stored).messageId = id from key]
      exact found
  · rw [core_set]
    have same := core_set now old mark
    have sameSender : old.senderId = network.id thread.node :=
      (congrArg Core.senderId same).symm.trans sender
    have sameGroup : old.groupId = [] := (congrArg Core.groupId same).symm.trans direct
    by_cases already : old.accepted = 1
    · exact delivered_step step
        (neverEarly thread.node id old there sameSender sameGroup already)
    have marked : mark = .accepted := by
      cases mark with
      | accepted => rfl
      | failed | deleted => cases accepted
      | _ => exact absurd accepted already
    subst marked
    obtain ⟨copy, held, rfl, confirmed⟩ := allowed
    obtain ⟨other, stored, sameCore⟩ := stored_held testified member held
    have clean : AllClean other.texts := (before.stores thread.node).messages.find_valid stored
    -- The copy is of this very row, as the id of a stored row ends at no NUL.
    have whole : other = old := by
      have keys := (before.stores thread.node).messages.find_key stored
      simp only [addressed, Bool.and_eq_true, decide_eq_true_eq] at hit
      have untouched : cstr copy.messageId = copy.messageId := by
        rw [← show (core copy).messageId = copy.messageId from rfl, ← keys]
        exact cstr_of_clean (clean other.messageId (by simp [Message.texts]))
      have row := (before.stores thread.node).messages.find_key there
      rw [show (core copy).messageId = id from untouched.symm.trans (hit.1.symm.trans row), there]
        at stored
      exact (Option.some.inj stored).symm
    subst whole
    rw [sameCore]
    refine delivered_step step (confirmed_delivered testified member confirmed ?_)
    rw [← sameCore]
    simp only [AllClean, Message.texts, List.forall_mem_cons] at clean
    simp only [AllClean, List.forall_mem_cons]
    exact ⟨clean.1, clean.2.1, clean.2.2.2.1, fun _ none => absurd none List.not_mem_nil⟩

/-- The invariant of every run with faults. -/
structure Sound (network : Deployment Host) (state : World Host) : Prop where
  linked : Rpc.Linked state
  candid : Candid network state
  testified : Rpc.Testified (shows network) (granted network) state

theorem sound_step (closed : ∀ request, network.foreign request = false)
    (step : Rpc.Step (frail network) label before after) (sound : Sound network before) :
    Sound network after where
  linked := Rpc.linked_step step sound.linked
  candid := Rpc.inOrder_step (candid_guaranteed network)
    ⟨fun _ _ _ => trivial, fun _ _ _ _ _ => trivial⟩ step sound.candid
  testified := Rpc.testified_step step sound.linked
    (testifies step sound.candid sound.testified closed) sound.testified

omit [DecidableEq Host] in
theorem sound_idle (stores : Host → Store) : Sound network ⟨stores, [], []⟩ := by
  have nobody : ∀ {Item : Type} {property : Item → Prop}, ∀ item ∈ ([] : List Item),
      property item := fun _ none => absurd none List.not_mem_nil
  exact ⟨⟨nobody, nobody⟩, ⟨fun _ => trivial, nobody, nobody, nobody⟩, ⟨nobody, by simp⟩⟩

variable {stores : Host → Store} {world later : World Host}

end Runs

section Execution

/-- Every SQLite call of the operation fails. -/
def failing : Drawn := ⟨clockAt 7, ⟨fun _ => true, fun _ _ => true⟩, none⟩

def named (answer : Response) : Option Str :=
  match answer.content with
  | .json value => value.s? "message_id"
  | _ => none

end Execution

end NoMiddle.Honesty
