import NoMiddle.Solo
import NoMiddle.Conduct

/-! What a request in a peer's name may do to the messages of others. Accepting a
message only inserts one of the sender's, accepting a delete checks the sender;
accepting an edit checks neither the row nor the table for it. -/
namespace NoMiddle.PeerFrame
open Library Text Crypto DbManager DbViews Node Handlers Conduct Footprint Solo

/-- The rows that are not the peer's are the same before and after. -/
def OthersUntouched (peer : Str) (before after : Messages) : Prop :=
  ∀ id row, row.senderId ≠ peer → (before.find id = some row ↔ after.find id = some row)

theorem othersUntouched_refl (peer : Str) (messages : Messages) :
    OthersUntouched peer messages messages := fun _ _ _ => Iff.rfl

variable (sodium : Sodium) (keys : KeyPair)

/-- What accepting an edit makes of a row. -/
def edited (plaintext ciphertext : Str) (editedAt : Int) (row : Message) : Message :=
  { row with
    plaintext := cstr plaintext
    ciphertext := cstr ciphertext
    editedAt := editedAt
    editAccepted := 1 }

/-- The request is an edit this node accepts, and it changes a message of somebody else. -/
def EditsForeign (request : Request) (peer : Str) (messages : Messages) : Prop :=
  request.endpoint = .acceptEdit ∧ ∃ messageId plaintext ciphertext editedAt row,
    ReceivedEdit sodium keys request.body messageId plaintext ciphertext editedAt ∧
    messages.find (cstr messageId) = some row ∧ row.senderId ≠ peer ∧
    edited plaintext ciphertext editedAt row ≠ row

/-- The outcome of a request, as one condition on the store it leaves. -/
def Exact (request : Request) (peer : Str) (desk : Desk) (_ : Response) (after : Desk) : Prop :=
  OthersUntouched peer desk.store.messages after.store.messages ↔
    ¬EditsForeign sodium keys request peer desk.store.messages

variable {sodium keys} {request : Request} {peer : Str} {desk : Desk}

theorem exact_unchanged {response : Response} {after : Desk}
    (same : after.store.messages = desk.store.messages)
    (harmless : ¬EditsForeign sodium keys request peer desk.store.messages) :
    Exact sodium keys request peer desk response after := by
  unfold Exact
  rw [same]
  exact ⟨fun _ => harmless, fun _ => othersUntouched_refl _ _⟩

theorem not_editsForeign (endpoint : request.endpoint ≠ .acceptEdit) :
    ¬EditsForeign sodium keys request peer desk.store.messages :=
  fun foreign => endpoint foreign.1

theorem insert_untouched (msg : Message) (messages : Messages) (own : cstr msg.senderId = peer) :
    OthersUntouched peer messages (addMessage msg messages) := by
  intro id row foreign
  have inserted : (addMessage msg messages).find id =
      (messages.find id).or (if cstr msg.messageId = id then some msg.stored else none) :=
    messages.find_insert msg.stored msg.stored_clean id
  rw [inserted]
  cases found : messages.find id with
  | some old => simp
  | none =>
      have other : msg.stored ≠ row := fun same => foreign (same ▸ own)
      by_cases key : cstr msg.messageId = id <;> simp [key, other]

theorem mark_untouched (now : Int) (messageId : Str) (mark : Mark) (messages : Messages)
    (own : ∀ row, messages.find (cstr messageId) = some row → row.senderId = peer)
    (keeps : ∀ row, (mark.set now row).senderId = row.senderId) :
    OthersUntouched peer messages (updateMessages now messageId none mark messages) := by
  intro id row foreign
  have updated : (updateMessages now messageId none mark messages).find id =
      (messages.find id).map fun old =>
        if addressed messageId none old then mark.set now old else old :=
    messages.find_update _ _ _ _ id
  rw [updated]
  cases found : messages.find id with
  | none => simp
  | some old =>
      have key := messages.find_key found
      by_cases hit : addressed messageId none old = true
      · have same : id = cstr messageId := by
          simp only [addressed, Bool.and_true, decide_eq_true_eq] at hit
          rw [← key, hit]
        have sender := own old (same ▸ found)
        constructor
        · rintro ⟨⟩
          exact absurd sender foreign
        · intro after
          simp only [Option.map_some, hit, ↓reduceIte, Option.some.injEq] at after
          exact absurd (by rw [← after, keeps, sender]) foreign
      · simp [hit]

theorem exact_untouched {response : Response} {after : Desk}
    (endpoint : request.endpoint ≠ .acceptEdit)
    (untouched : OthersUntouched peer desk.store.messages after.store.messages) :
    Exact sodium keys request peer desk response after :=
  ⟨fun _ => not_editsForeign endpoint, fun _ => untouched⟩

theorem acceptMessage_exact (endpoint : request.endpoint ≠ .acceptEdit)
    (sender : request.body.s? "sender_id" = some peer) :
    (acceptMessage sodium keys (some request.body)).wp contract
      (Exact sodium keys request peer desk) desk := by
  have refuse : ∀ response, (pure response : Proc Response).wp contract
      (Exact sodium keys request peer desk) desk :=
    fun _ => exact_unchanged rfl (not_editsForeign endpoint)
  unfold acceptMessage
  dsimp only
  rw [sender]
  rcases request.body.hasAll? ["sender_id", "recipient_id", "ciphertext", "timestamp"]
    with _ | _ | _
  · exact refuse _
  · exact refuse _
  rcases request.body.s? "recipient_id" with _ | recipientId
  · exact refuse _
  rcases request.body.s? "ciphertext" with _ | ciphertext
  · exact refuse _
  rcases request.body.i? "timestamp" with _ | timestamp
  · exact refuse _
  simp only [Bool.not_true, Bool.false_eq_true, ↓reduceIte]
  split
  · exact refuse _
  rcases opened : decryptMessage sodium ciphertext peer keys.privateKeyB64 with _ | plaintext
  · exact refuse _
  rcases request.body.s? "message_id" with _ | messageId
  · exact refuse _
  refine wp_perform fun input => ?_
  have untouched : OthersUntouched peer desk.store.messages (addMessage ⟨messageId, peer,
      recipientId, (request.body.optional "group_id").getD [], plaintext, ciphertext, 1, timestamp,
      0, 0, 1, 0⟩ desk.store.messages) :=
    insert_untouched _ _ (cstr_of_clean (decryptMessage_clean opened).2)
  split
  · exact exact_untouched endpoint untouched
  · exact wp_perform fun _ => exact_untouched endpoint untouched

theorem acceptDelete_exact (endpoint : request.endpoint ≠ .acceptEdit)
    (sender : request.body.s? "sender_id" = some peer) :
    (acceptDelete keys (some request.body)).wp contract
      (Exact sodium keys request peer desk) desk := by
  have refuse : ∀ response, (pure response : Proc Response).wp contract
      (Exact sodium keys request peer desk) desk :=
    fun _ => exact_unchanged rfl (not_editsForeign endpoint)
  unfold acceptDelete
  dsimp only
  rw [sender]
  rcases request.body.hasAll? ["message_id", "sender_id", "recipient_id"] with _ | _ | _
  · exact refuse _
  · exact refuse _
  rcases request.body.s? "message_id" with _ | messageId
  · exact refuse _
  rcases request.body.s? "recipient_id" with _ | recipientId
  · exact refuse _
  simp only [Bool.not_true, Bool.false_eq_true, ↓reduceIte]
  split
  · exact refuse _
  refine wp_perform fun input => ?_
  rcases found : (handle input (.call (.getMessage messageId)) desk.store).1 with _ | msg
  · exact refuse _
  by_cases own : msg.senderId = peer
  · simp only [own, ne_eq, not_true_eq_false, ↓reduceIte]
    refine wp_mark fun now => wp_perform fun _ => exact_untouched endpoint ?_
    refine mark_untouched now messageId .deleted _ (fun row there => ?_) fun _ => rfl
    have same : some row = some msg := there.symm.trans found
    cases same
    exact own
  · simp only [own, ne_eq, not_false_eq_true, ↓reduceIte]
    exact refuse _

/-- The two updates that accept an edit, seen from one row. -/
theorem find_edited (first second : Int) (messageId plaintext ciphertext : Str) (editedAt : Int)
    (messages : Messages) (id : Str) :
    (updateMessages second messageId none .editAccepted (updateMessages first messageId none
        (.edit plaintext ciphertext editedAt) messages)).find id =
      (messages.find id).map fun row =>
        if id = cstr messageId then edited plaintext ciphertext editedAt row else row := by
  have inner : (updateMessages first messageId none (.edit plaintext ciphertext editedAt)
      messages).find id = (messages.find id).map fun row => if addressed messageId none row
        then Mark.set first row (.edit plaintext ciphertext editedAt) else row :=
    messages.find_update _ _ _ _ id
  refine (Table.find_update _ _ _ _ _ id).trans ?_
  rw [inner]
  cases found : messages.find id with
  | none => rfl
  | some row =>
      have key := messages.find_key found
      subst key
      by_cases hit : row.messageId = cstr messageId
      · simp [addressed, hit, Mark.set, edited]
      · simp [addressed, hit]

theorem receivedEdit_present {messageId plaintext ciphertext : Str} {editedAt : Int}
    (received : ReceivedEdit sodium keys request.body messageId plaintext ciphertext editedAt) :
    request.body.hasAll? ["message_id", "sender_id", "recipient_id", "ciphertext", "edited_at"] =
      some true := by
  obtain ⟨senderId, sender, _⟩ := received.opened
  apply Json.hasAll?_of_get? (by simp)
  simp only [List.forall_mem_cons, List.not_mem_nil, IsEmpty.forall_iff, implies_true, and_true]
  exact ⟨Json.get?_of_s? received.messageId, Json.get?_of_s? sender, Json.get?_of_s? received.recipientId,
    Json.get?_of_s? received.sealedText, Json.get?_of_i? received.time⟩

/-- An accepted edit touches no message of others exactly if its target is the peer's
own or already has the edit. -/
theorem edited_exact {messageId plaintext ciphertext : Str} {editedAt : Int} {msg : Message}
    {response : Response} {after : Desk} (endpoint : request.endpoint = .acceptEdit)
    (received : ReceivedEdit sodium keys request.body messageId plaintext ciphertext editedAt)
    (sender : request.body.s? "sender_id" = some peer)
    (found : desk.store.messages.find (cstr messageId) = some msg)
    (changed : ∀ id, after.store.messages.find id = (desk.store.messages.find id).map fun row =>
      if id = cstr messageId then edited plaintext ciphertext editedAt row else row) :
    Exact sodium keys request peer desk response after := by
  constructor
  · rintro untouched ⟨_, otherId, otherText, otherCipher, otherTime, row, other, there, foreign,
      differs⟩
    have sameId := Option.some.inj (received.messageId.symm.trans other.messageId)
    have sameCipher := Option.some.inj (received.sealedText.symm.trans other.sealedText)
    have sameTime := Option.some.inj (received.time.symm.trans other.time)
    have sameText : plaintext = otherText := by
      obtain ⟨senderId, readSender, opened⟩ := received.opened
      obtain ⟨otherSender, readOther, openedOther⟩ := other.opened
      cases readSender.symm.trans readOther
      rw [sameCipher, openedOther] at opened
      exact (Option.some.inj opened).symm
    subst sameId sameCipher sameTime sameText
    have still := (untouched _ row foreign).mp there
    rw [changed, there] at still
    exact differs (by simpa using still)
  · intro harmless id row foreign
    rw [changed]
    by_cases hit : id = cstr messageId
    · subst hit
      have unchanged : msg.senderId ≠ peer → edited plaintext ciphertext editedAt msg = msg :=
        fun others => not_not.mp fun differs => harmless
          ⟨endpoint, messageId, plaintext, ciphertext, editedAt, msg, received, found, others,
            differs⟩
      simp only [found, Option.map_some, ↓reduceIte, Option.some.injEq]
      constructor
      · rintro rfl
        exact unchanged foreign
      · intro after
        have others : msg.senderId ≠ peer := by
          rintro rfl
          exact foreign (after ▸ rfl)
        exact (unchanged others).symm.trans after
    · simp [hit]

theorem acceptEdit_exact (endpoint : request.endpoint = .acceptEdit)
    (sender : request.body.s? "sender_id" = some peer) :
    (acceptEdit sodium keys (some request.body)).wp contract
      (Exact sodium keys request peer desk) desk := by
  have refuse : ∀ response, (∀ messageId plaintext ciphertext editedAt row,
        ReceivedEdit sodium keys request.body messageId plaintext ciphertext editedAt →
        desk.store.messages.find (cstr messageId) = some row → False) →
      (pure response : Proc Response).wp contract (Exact sodium keys request peer desk) desk := by
    intro response never
    refine exact_unchanged rfl ?_
    rintro ⟨_, messageId, plaintext, ciphertext, editedAt, row, received, found, _⟩
    exact never messageId plaintext ciphertext editedAt row received found
  unfold acceptEdit
  dsimp only
  rw [sender]
  rcases present : request.body.hasAll? ["message_id", "sender_id", "recipient_id",
      "ciphertext", "edited_at"] with _ | _ | _
  · exact refuse _ fun _ _ _ _ _ received _ => by simp [receivedEdit_present received] at present
  · exact refuse _ fun _ _ _ _ _ received _ => by simp [receivedEdit_present received] at present
  rcases named : request.body.s? "message_id" with _ | messageId
  · exact refuse _ fun _ _ _ _ _ received _ => by simp [received.messageId] at named
  rcases recipient : request.body.s? "recipient_id" with _ | recipientId
  · exact refuse _ fun _ _ _ _ _ received _ => by simp [received.recipientId] at recipient
  rcases sealedText : request.body.s? "ciphertext" with _ | ciphertext
  · exact refuse _ fun _ _ _ _ _ received _ => by simp [received.sealedText] at sealedText
  rcases time : request.body.i? "edited_at" with _ | editedAt
  · exact refuse _ fun _ _ _ _ _ received _ => by simp [received.time] at time
  simp only [Bool.not_true, Bool.false_eq_true, ↓reduceIte]
  split
  · next other =>
    refine refuse _ fun _ _ _ _ _ received _ => other ?_
    exact Option.some.inj (recipient.symm.trans received.recipientId)
  next self =>
  refine wp_perform fun input => ?_
  rcases found : (handle input (.call (.getMessage messageId)) desk.store).1 with _ | msg
  · refine refuse _ fun _ _ _ _ _ received there => ?_
    cases named.symm.trans received.messageId
    cases there.symm.trans found
  rcases opened : decryptMessage sodium ciphertext peer keys.privateKeyB64 with _ | plaintext
  · refine refuse _ fun _ _ _ _ _ received _ => ?_
    obtain ⟨senderId, read, decrypted⟩ := received.opened
    cases sender.symm.trans read
    cases sealedText.symm.trans received.sealedText
    cases opened.symm.trans decrypted
  have received : ReceivedEdit sodium keys request.body messageId plaintext ciphertext editedAt :=
    ⟨named, not_not.mp self ▸ recipient, sealedText, time, peer, sender, opened⟩
  refine wp_perform fun first => wp_mark fun now => wp_perform fun _ => ?_
  exact edited_exact endpoint received sender found
    fun id => find_edited first.now now messageId plaintext ciphertext editedAt _ id

/-- A request in a peer's name leaves the messages of everybody else as they were,
and adds none, exactly if it is not an edit that changes one of them. -/
theorem peers_touch_own_iff (sodium : Sodium) (keys : KeyPair) (request : Request) (peer : Str)
    (desk after : Desk) (response : Response)
    (sender : request.body.s? "sender_id" = some peer)
    (run : Runs (serve sodium keys request) desk response after) :
    OthersUntouched peer desk.store.messages after.store.messages ↔
      ¬EditsForeign sodium keys request peer desk.store.messages := by
  suffices (serve sodium keys request).wp contract (Exact sodium keys request peer desk) desk from
    (Program.wp_demonic_iff Solo.step _ _ desk).mp this response after run
  unfold serve
  cases endpoint : request.endpoint with
  | acceptMessage => exact acceptMessage_exact (by simp [endpoint]) sender
  | acceptEdit => exact acceptEdit_exact endpoint sender
  | acceptDelete => exact acceptDelete_exact (by simp [endpoint]) sender
  | acceptGroupUpdate =>
      exact Program.wp_mono monotone _
        (fun _ _ same => exact_unchanged same (not_editsForeign (by simp [endpoint]))) desk
        (messages_of_only (acceptGroupUpdate_silent _) desk)
  | publicKey => exact exact_unchanged rfl (not_editsForeign (by simp [endpoint]))

section Runs

def node : KeyPair := .filled 1
def friend : Str := (KeyPair.filled 2).publicKeyB64
def stranger : Str := (KeyPair.filled 3).publicKeyB64

/-- The stranger rewrites the message called `m`. -/
def rewrite : Request :=
  ⟨[], .acceptEdit, .obj [("message_id", .str (str "m")), ("sender_id", .str stranger),
    ("recipient_id", .str node.publicKeyB64),
    ("ciphertext", .str (binToBase64 (List.replicate 40 0 ++ str "forged"))),
    ("edited_at", .num 5)]⟩

/-- A node that has accepted one message, from the given sender. -/
def holding (senderId : Str) : Desk :=
  ⟨{ Store.initial with
      messages := addMessage ⟨str "m", senderId, node.publicKeyB64, [], str "hello",
        binToBase64 (List.replicate 40 0 ++ str "hello"), 1, 3, 0, 0, 1, 0⟩ .empty }, []⟩

theorem own_rewritten : ∃ response after,
    Runs (serve .transparent node rewrite) (holding stranger) response after ∧
    OthersUntouched stranger (holding stranger).store.messages after.store.messages := by
  have ran : ((serve .transparent node rewrite).exec act (List.replicate 4 (⟨5, fun _ => 0,
      fun _ => 0, 0⟩, none)) (holding stranger)).isSome = true := by decide +kernel
  obtain ⟨⟨response, after⟩, executed⟩ := Option.isSome_iff_exists.mp ran
  have run := Program.exec_runs act _ _ _ _ _ executed
  refine ⟨response, after, run, (peers_touch_own_iff .transparent node rewrite stranger
    (holding stranger) after response (by decide) run).mpr ?_⟩
  rintro ⟨_, messageId, _, _, _, row, received, found, foreign, _⟩
  have named : rewrite.body.s? "message_id" = some (str "m") := by decide
  cases named.symm.trans received.messageId
  have sender : ((holding stranger).store.messages.find (cstr (str "m"))).map (·.senderId) =
      some stranger := by decide +kernel
  rw [found] at sender
  exact foreign (Option.some.inj sender)

/-- The friend's message, with the text and the time of the stranger's request. -/
theorem foreign_rewritten : ∃ response after,
    Runs (serve .transparent node rewrite) (holding friend) response after ∧
    response.code = 200 ∧ rewrite.body.s? "sender_id" = some stranger ∧
    ((holding friend).store.messages.find (str "m")).map
      (fun row => (row.senderId, row.plaintext)) = some (friend, str "hello") ∧
    (after.store.messages.find (str "m")).map (fun row => (row.senderId, row.plaintext)) =
      some (friend, str "forged") ∧
    ¬OthersUntouched stranger (holding friend).store.messages after.store.messages := by
  have ran : ((serve .transparent node rewrite).exec act (List.replicate 4 (⟨5, fun _ => 0,
      fun _ => 0, 0⟩, none)) (holding friend)).map (fun done => (done.1.code,
        (done.2.store.messages.find (str "m")).map fun row => (row.senderId, row.plaintext))) =
      some (200, some (friend, str "forged")) := by decide +kernel
  obtain ⟨⟨response, after⟩, executed, facts⟩ := Option.map_eq_some_iff.mp ran
  have run := Program.exec_runs act _ _ _ _ _ executed
  have before : ((holding friend).store.messages.find (str "m")).map
      (fun row => (row.senderId, row.plaintext)) = some (friend, str "hello") := by
    decide +kernel
  obtain ⟨code, changed⟩ := Prod.mk.inj facts
  refine ⟨response, after, run, code, by decide, before, changed, fun untouched => ?_⟩
  obtain ⟨row, found, same⟩ := Option.map_eq_some_iff.mp before
  have foreign : row.senderId ≠ stranger := by
    rw [(Prod.mk.inj same).1]
    decide +kernel
  have kept := (untouched (str "m") row foreign).mp found
  rw [kept] at changed
  have texts := (Prod.mk.inj same).2.symm.trans (Prod.mk.inj (Option.some.inj changed)).2
  exact absurd texts (by decide)

end Runs
end NoMiddle.PeerFrame
