import NoMiddle.Sequential
import NoMiddle.PeerRoutes

/-! The text of a message at both its ends. Sealing keeps every byte of it; storing it
keeps the bytes up to the first NUL, at the sender as at the recipient. -/
namespace NoMiddle.Verbatim
open Library Text Crypto DbManager DbViews Node MessageDelivery Handlers Network
open Conduct (Received)
open NoMiddle.Sequential (Stores)

/-- The conversation with the other party shows the message with this text. -/
def Shown (selfId otherId : Str) (store : Store) (messageId plaintext : Str) : Prop :=
  ∃ row ∈ (Query.between selfId otherId).rows store.messages,
    row.messageId = messageId ∧ row.plaintext = plaintext

theorem shown_found {selfId otherId id : Str} {store : Store} {row : Message}
    (found : store.messages.find id = some row)
    (selected : (Query.between selfId otherId).selects row = true) :
    Shown selfId otherId store id row.plaintext := by
  have key := store.messages.find_key found
  subst key
  exact ⟨row, (mem_rows _ _ row).mpr ⟨found, selected⟩, rfl, rfl⟩

theorem shown_unique {selfId otherId messageId left right : Str} {store : Store}
    (one : Shown selfId otherId store messageId left)
    (two : Shown selfId otherId store messageId right) : left = right := by
  obtain ⟨first, member, rfl, rfl⟩ := one
  obtain ⟨second, among, same, rfl⟩ := two
  have found := ((mem_rows _ _ first).mp member).1
  have there := ((mem_rows _ _ second).mp among).1
  rw [same, found] at there
  rw [Option.some.inj there]

/-- A direct message with the columns both ends give it. -/
structure Filed (senderId recipientId text : Str) (row : Message) : Prop where
  senderId : row.senderId = senderId
  recipientId : row.recipientId = recipientId
  groupId : row.groupId = []
  plaintext : row.plaintext = cstr text
  accepted : row.accepted = messageDelivered

variable {senderId recipientId text : Str} {row : Message}

theorem Filed.shown_sender (filed : Filed senderId recipientId text row)
    (sender : Clean senderId) (recipient : Clean recipientId) :
    (Query.between senderId recipientId).selects row = true := by
  simp [Query.selects, filed.senderId, filed.recipientId, filed.groupId, filed.accepted,
    cstr_of_clean sender, cstr_of_clean recipient, messageDelivered]

theorem Filed.shown_recipient (filed : Filed senderId recipientId text row)
    (sender : Clean senderId) (recipient : Clean recipientId) :
    (Query.between recipientId senderId).selects row = true := by
  simp [Query.selects, filed.senderId, filed.recipientId, filed.groupId, filed.accepted,
    cstr_of_clean sender, cstr_of_clean recipient, messageDelivered]

variable {Host : Type} [DecidableEq Host] {network : Deployment Host} {lossy : Bool}
  {host : Host} {stores after : Stores Host}

/-- A message taken in by a peer is filed there, and not on the node it came from, which
has a message of that id itself. -/
theorem exchange_filed {serverAddress messageId ciphertext : Str} {body : Json}
    {response : Response}
    (exchanged : Sequential.Exchange network lossy ⟨serverAddress, .acceptMessage, body⟩ stores
      (some response) after) (code : response.code = 200)
    (named : body.s? "message_id" = some messageId)
    (sender : body.s? "sender_id" = some (network.id host))
    (recipient : body.s? "recipient_id" = some recipientId)
    (sealedText : body.s? "ciphertext" = some ciphertext)
    (direct : body.optional "group_id" = none) (clean : Clean messageId)
    (here : (stores host).messages.has messageId = true) :
    after host = stores host ∧ ∃ peer plaintext row, peer ≠ host ∧ network.id peer = recipientId ∧
      decryptMessage network.sodium ciphertext (network.id host)
        (network.keys peer).privateKeyB64 = some plaintext ∧
      (after peer).messages.find messageId = some row ∧
      Filed (network.id host) recipientId plaintext row := by
  cases exchanged with
  | served peer routed ran =>
    rcases (Program.wp_demonic_iff Solo.step _ _ _).mp PeerRoutes.acceptMessage_outcome _ _ ran with
      ⟨_, msg, received, fresh, stored⟩ | ⟨other, _⟩
    · cases named.symm.trans received.messageId
      have from_ : msg.senderId = network.id host :=
        Option.some.inj (received.senderId.symm.trans sender)
      cases recipient.symm.trans received.recipientId
      cases sealedText.symm.trans received.ciphertext
      rw [cstr_of_clean clean] at fresh
      -- The sender has the id already, so whoever stored the row is another node.
      have elsewhere : host ≠ peer := by
        rintro rfl
        cases fresh.symm.trans here
      have absent : (stores peer).messages.find msg.messageId = none := by
        simpa [Table.has] using fresh
      refine ⟨Function.update_of_ne elsewhere _ _, peer, msg.plaintext, msg.stored,
        elsewhere.symm, received.own.symm, from_ ▸ received.opened, ?_, ?_⟩
      · rw [Function.update_self, stored]
        exact (Table.find_insert (stores peer).messages msg.stored msg.stored_clean _).trans
          (by simp [absent, Message.stored, cstr_of_clean clean])
      · have group : msg.groupId = [] := by
          rw [← received.groupId, direct]
          rfl
        exact {
          senderId := (congrArg cstr from_).trans (cstr_of_clean (publicKeyB64_clean _))
          recipientId := by
            change cstr msg.recipientId = msg.recipientId
            rw [received.own]
            exact cstr_of_clean (publicKeyB64_clean _)
          groupId := by simp [Message.stored, group]
          plaintext := rfl
          accepted := received.accepted }
    · exact absurd code other

/-- What an answered send leaves: the text, as far as it is stored, at both ends. -/
def Delivered (network : Deployment Host) (host : Host) (recipientId text : Str)
    (messageId : Str) (after : Stores Host) : Prop :=
  Shown (network.id host) recipientId (after host) messageId (cstr text) ∧
    ∀ peer, network.id peer = recipientId → network.sodium.Correct (network.keys host)
      (network.keys peer) →
      Shown recipientId (network.id host) (after peer) messageId (cstr text)

theorem deliverMessage_filed {recipientId ciphertext text nonce : Str} {timestamp : Int}
    (size : nonce.length = nonceBytes)
    (encrypted : encryptMessage network.sodium nonce text recipientId
      (network.keys host).privateKeyB64 = some ciphertext) :
    (deliverMessage (network.id host) recipientId ciphertext text timestamp).wp
      (Sequential.contract network lossy host)
      (fun delivered after => ∀ messageId, delivered = some messageId →
        Delivered network host recipientId text messageId after) stores := by
  have recipient := (encryptMessage_clean encrypted).2
  have sender : Clean (network.id host) := publicKeyB64_clean _
  unfold deliverMessage
  apply Sequential.wp_generateUuid
  intro dice
  have clean := uuid_clean dice
  let msg : Message := ⟨uuidOf dice, network.id host, recipientId, [], text, ciphertext, 0,
    timestamp, 0, 0, 1, 0⟩
  apply Sequential.wp_call
  intro now
  -- A taken id fails the insert and nothing is sent.
  cases taken : (stores host).messages.has (uuidOf dice) with
  | true =>
      have refused : ((Call.addMessage msg).exec now (stores host)).1 = false := by
        simp [Call.exec, msg, cstr_of_clean clean, taken]
      simp only [msg] at refused
      simp only [refused]
      intro messageId none
      cases none
  | false =>
      have added : ((Call.addMessage msg).exec now (stores host)).1 = true := by
        simp [Call.exec, msg, cstr_of_clean clean, taken]
      have absent : (stores host).messages.find (uuidOf dice) = none := by
        simpa [Table.has] using taken
      have filed : ((Call.addMessage msg).exec now (stores host)).2.messages.find (uuidOf dice) =
          some msg.stored := by
        rw [messages_exec]
        simp [onMessage, absent, msg, cstr_of_clean clean]
      simp only [msg] at added filed
      simp only [added]
      apply Sequential.wp_call
      intro _
      apply Sequential.wp_send
      intro answer later exchanged
      cases answer with
      | none =>
          intro messageId none
          cases none
      | some response =>
          by_cases code : response.code = 200
          · obtain ⟨own, peer, plaintext, row, elsewhere, owner, opened, there, copy⟩ :=
              exchange_filed exchanged code rfl rfl rfl rfl rfl clean (by
                simp [Call.exec, Table.has] at filed ⊢
                simp [filed])
            rw [if_pos (by simp [delivered, code])]
            apply Sequential.wp_mark
            rintro marks messageId ⟨⟩
            have kept : (later host).messages.find (uuidOf dice) = some msg.stored := by
              rw [own, Function.update_self, Function.update_self]
              exact filed
            constructor
            · have marked : ((Call.updateMessages (uuidOf dice) (some recipientId) .accepted).exec
                  marks (later host)).2.messages.find (uuidOf dice) =
                  some { msg.stored with accepted := 1 } := by
                rw [messages_exec, kept]
                simp [onMessage, addressed, msg, Message.stored, Mark.set]
              have mine : Filed (network.id host) recipientId text
                  { msg.stored with accepted := 1 } :=
                ⟨cstr_of_clean sender, cstr_of_clean recipient, rfl, rfl, rfl⟩
              rw [Function.update_self]
              exact shown_found marked (mine.shown_sender sender recipient)
            -- Whoever has the recipient's id opens the box, and opens it to the text.
            · intro other same correct
              cases network.distinct other peer (publicKeyB64_injective (same.trans owner.symm))
              have decrypted := decrypt_encrypt correct size (owner ▸ encrypted)
              cases decrypted.symm.trans opened
              rw [Function.update_of_ne elsewhere, ← copy.plaintext]
              exact shown_found there (copy.shown_recipient sender recipient)
          · rw [if_neg (by simp [delivered, code])]
            intro messageId none
            cases none

/-- A send that is answered with 200 has a new message, which both ends show. -/
def Sent (network : Deployment Host) (host : Host) (req : HttpRequest) (response : Response)
    (after : Stores Host) : Prop :=
  response.code ≠ 200 ∨ ∃ body recipientId text messageId, req.body = some body ∧
    body.s? "recipient_id" = some recipientId ∧ body.s? "text" = some text ∧
    response = ok [("message_id", .str messageId)] ∧
    Delivered network host recipientId text messageId after

theorem sendDirect_sent (req : HttpRequest) :
    (sendDirect network.sodium (network.keys host) req).wp
      (Sequential.contract network lossy host) (Sent network host req) stores := by
  have refuse : ∀ (response : Response) (stores : Stores Host), response.code ≠ 200 →
      Sent network host req response stores :=
    fun _ _ other => .inl other
  unfold sendDirect
  apply Sequential.wp_authed _ _ _ (refuse _ _ (by decide))
  rcases parsed : req.body with _ | data
  · exact refuse _ _ (by decide)
  dsimp only
  rcases data.hasAll? ["recipient_id", "text"] with _ | _ | _
  · exact refuse _ _ (by decide)
  · exact refuse _ _ (by decide)
  rcases named : data.s? "recipient_id" with _ | recipientId
  · exact refuse _ _ (by decide)
  rcases written : data.s? "text" with _ | text
  · exact refuse _ _ (by decide)
  simp only [Bool.not_true, Bool.false_eq_true, ↓reduceIte]
  apply Sequential.wp_time
  intro now
  apply Sequential.wp_encrypt
  intro nonce size
  rcases encrypted : encryptMessage network.sodium nonce text recipientId
    (network.keys host).privateKeyB64 with _ | ciphertext
  · exact refuse _ _ (by decide)
  -- What comes before the delivery either refuses or only draws.
  apply Program.wp_seq Sequential.monotone _ _ _ (deliverMessage_filed size encrypted)
  intro delivered after filed
  cases delivered with
  | none => exact refuse _ _ (by decide)
  | some messageId =>
      apply Sequential.wp_perform
      intro _
      rw [show (handle _ (.notify _) (after host)).2 = after host from rfl,
        Function.update_eq_self]
      exact .inr ⟨data, recipientId, text, messageId, parsed, named, written, rfl,
        filed messageId rfl⟩

/-- The text of a message whose sending was answered with 200 is what both ends show,
exactly if it has no NUL. -/
theorem text_survives {sender recipient : Host} {before : Stores Host} {req : HttpRequest}
    {response : Response} {body : Json}
    (correct : network.sodium.Correct (network.keys sender) (network.keys recipient))
    (ran : Sequential.Runs network lossy sender
      (sendDirect network.sodium (network.keys sender) req) before response after)
    (answered : response.code = 200) (given : req.body = some body)
    (toward : body.s? "recipient_id" = some (network.id recipient))
    (written : body.s? "text" = some text) :
    ∃ messageId, response = ok [("message_id", .str messageId)] ∧
      (Shown (network.id sender) (network.id recipient) (after sender) messageId text ∧
        Shown (network.id recipient) (network.id sender) (after recipient) messageId text ↔
          Clean text) := by
  rcases (Program.wp_demonic_iff _ _ _ _).mp (sendDirect_sent req) _ _ ran with
    other | ⟨data, recipientId, plaintext, messageId, parsed, named, read, same, mine, theirs⟩
  · exact absurd answered other
  cases given.symm.trans parsed
  cases toward.symm.trans named
  cases written.symm.trans read
  refine ⟨messageId, same, fun shown => ?_, fun clean => ?_⟩
  · rw [shown_unique shown.1 mine]
    exact cstr_clean text
  · rw [← cstr_of_clean clean]
    exact ⟨mine, theirs recipient rfl correct⟩

section Runs

def writing (text : Str) : HttpRequest :=
  userRequest [("recipient_id", .str (pair.id false)), ("text", .str text)]

/-- The user of the first node writes to the second, which is reached. -/
def written (text : Str) : Option (Response × Stores Bool) :=
  Sequential.exec pair false true (sendDirect .transparent (pair.keys true) (writing text))
    (List.replicate 20 (clockAt 7, .served false)) acquainted

theorem written_runs {text : Str} {response : Response} {after : Stores Bool}
    (done : written text = some (response, after)) :
    Sequential.Runs pair false true
      (sendDirect .transparent (pair.keys true) (writing text)) acquainted response after :=
  Sequential.exec_runs _ _ done

theorem greeting_survives : ∃ (response : Response) (after : Stores Bool) (messageId : Str),
    response = ok [("message_id", .str messageId)] ∧
    Shown (pair.id true) (pair.id false) (after true) messageId (str "hi") ∧
    Shown (pair.id false) (pair.id true) (after false) messageId (str "hi") := by
  have ran : (written (str "hi")).map (·.1.code) = some 200 := by decide +kernel
  obtain ⟨⟨response, after⟩, done, code⟩ := Option.map_eq_some_iff.mp ran
  obtain ⟨messageId, same, shown⟩ := text_survives (transparent_correct _ _) (written_runs done)
    code rfl rfl rfl
  exact ⟨response, after, messageId, same, shown.mpr (by decide)⟩

/-- What follows a NUL is sent and received, but neither end stores it. -/
theorem text_cut : ∃ (text : Str) (response : Response) (after : Stores Bool),
    Sequential.Runs pair false true
      (sendDirect .transparent (pair.keys true) (writing text)) acquainted response after ∧
    response.code = 200 ∧
    ¬∃ messageId, response = ok [("message_id", .str messageId)] ∧
      Shown (pair.id true) (pair.id false) (after true) messageId text ∧
      Shown (pair.id false) (pair.id true) (after false) messageId text := by
  have ran : (written [104, 0, 105]).map (fun done => (done.1.code,
      (done.2 true).messages.rows.map (·.plaintext))) = some (200, [[104]]) := by
    decide +kernel
  obtain ⟨⟨response, after⟩, done, facts⟩ := Option.map_eq_some_iff.mp ran
  simp only [Prod.mk.injEq] at facts
  refine ⟨[104, 0, 105], response, after, written_runs done, facts.1, ?_⟩
  rintro ⟨messageId, _, ⟨row, member, _, shown⟩, _⟩
  have found := ((mem_rows _ _ row).mp member).1
  have stored := List.mem_map_of_mem (f := (·.plaintext))
    (((after true).messages.mem_rows_iff row).mpr found)
  rw [facts.2, shown] at stored
  simp at stored

end Runs
end NoMiddle.Verbatim
