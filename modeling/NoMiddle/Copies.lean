import NoMiddle.PassEffect
import NoMiddle.PeerFrame
import NoMiddle.PeerRoutes

/-! A message on the node that sent it and its copy on the node it was sent to. What a
request makes of the copy depends on the request and the copy alone, and whether the answer
arrives decides which flag the sender sets. -/
namespace NoMiddle.Copies
open Library Text Crypto DbManager DbViews Node Handlers Network
open PassEffect (Kind Flagged)
open Conduct (Received ReceivedEdit ReceivedDelete)

/-- What the recipient stores of a message that is new to it. -/
def received (row : Message) : Message :=
  { row with accepted := 1, editedAt := 0, editAccepted := 0, deleteAccepted := 1, deletedAt := 0 }

/-- What a request about the row makes of the recipient's copy. -/
def served (row : Message) : Kind → Option Message → Option Message
  | .message, copy => copy.or (some (received row))
  | .edit, copy => copy.map (PeerFrame.edited row.plaintext row.ciphertext row.editedAt)
  | .delete, copy => copy.map ({ · with accepted := 3 })

/-- Whether it is answered with 200. -/
def granted : Kind → Option Message → Bool
  | .message, copy => copy.isNone
  | .edit, copy => copy.isSome
  | .delete, _ => true

section Served
variable {Host : Type} (network : Deployment Host) (sender recipient : Host)

/-- A direct message from the one to the other, which the recipient can open. -/
structure Direct (row : Message) : Prop where
  senderId : row.senderId = network.id sender
  recipientId : row.recipientId = network.id recipient
  groupId : row.groupId = []
  opens : ∃ text, decryptMessage network.sodium row.ciphertext (network.id sender)
    (network.keys recipient).privateKeyB64 = some text ∧ cstr text = row.plaintext

/-- The request has what the recipient reads of it from this row. -/
structure Tells (kind : Kind) (row : Message) (request : Request) : Prop where
  endpoint : request.endpoint = kind.endpoint
  messageId : ∃ messageId, request.body.s? "message_id" = some messageId ∧
    cstr messageId = row.messageId
  senderId : request.body.s? "sender_id" = some (network.id sender)
  recipientId : request.body.s? "recipient_id" = some (network.id recipient)
  sealedText : kind ≠ .delete → request.body.s? "ciphertext" = some row.ciphertext
  timestamp : kind = .message → request.body.i? "timestamp" = some row.timestamp
  groupId : kind = .message → (request.body.optional "group_id").getD [] = []
  editedAt : kind = .edit → request.body.i? "edited_at" = some row.editedAt

variable {network sender recipient} {row : Message} {request : Request} {desk : Solo.Desk}

theorem stored_direct {msg : Message} (senderId : msg.senderId = network.id sender)
    (recipientId : msg.recipientId = network.id recipient) (groupId : msg.groupId = [])
    (opens : decryptMessage network.sodium msg.ciphertext (network.id sender)
      (network.keys recipient).privateKeyB64 = some msg.plaintext) :
    Direct network sender recipient msg.stored where
  senderId := (congrArg cstr senderId).trans (cstr_of_clean (publicKeyB64_clean _))
  recipientId := (congrArg cstr recipientId).trans (cstr_of_clean (publicKeyB64_clean _))
  groupId := congrArg cstr groupId
  opens := by
    have box : msg.stored.ciphertext = msg.ciphertext := cstr_of_clean (decryptMessage_clean opens).1
    rw [box]
    exact ⟨msg.plaintext, opens, rfl⟩

/-- The request is answered with 200 or not, and the copy alone is changed. -/
def Takes (kind : Kind) (row : Message) (before : Store) (response : Response)
    (after : Store) : Prop :=
  (response.code = 200 ↔ granted kind (before.messages.find row.messageId) = true) ∧
  ∀ id, after.messages.find id = if id = row.messageId
    then served row kind (before.messages.find id) else before.messages.find id

theorem stored_received {msg : Message} (direct : Direct network sender recipient row)
    (tells : Tells network sender recipient .message row request)
    (read : Received network.sodium (network.keys recipient) request.body msg) :
    msg.stored = received row := by
  obtain ⟨messageId, named, key⟩ := tells.messageId
  obtain ⟨text, opens, plaintext⟩ := direct.opens
  have id := Option.some.inj (read.messageId.symm.trans named)
  have sender := Option.some.inj (read.senderId.symm.trans tells.senderId)
  have recipient := Option.some.inj (read.recipientId.symm.trans tells.recipientId)
  have box := Option.some.inj (read.ciphertext.symm.trans (tells.sealedText (by decide)))
  have time := Option.some.inj (read.timestamp.symm.trans (tells.timestamp rfl))
  have group := read.groupId.symm.trans (tells.groupId rfl)
  have opened := read.opened
  rw [box, sender, opens] at opened
  have clean := (decryptMessage_clean opens).1
  simp only [Message.stored, received, id, sender, recipient, box, time, group, read.accepted,
    ← Option.some.inj opened, key, plaintext, direct.senderId, direct.recipientId, direct.groupId,
    Deployment.id, cstr_of_clean (publicKeyB64_clean _), cstr_of_clean clean, cstr_nil]

theorem message_takes (direct : Direct network sender recipient row)
    (tells : Tells network sender recipient .message row request) :
    (acceptMessage network.sodium (network.keys recipient) (some request.body)).wp Solo.contract
      (fun response after => Takes .message row desk.store response after.store) desk := by
  obtain ⟨messageId, named, key⟩ := tells.messageId
  refine Program.wp_mono Solo.monotone _ ?_ _ PeerRoutes.acceptMessage_outcome
  rintro response after (⟨code, msg, read, fresh, stored⟩ | ⟨code, kept, taken⟩)
  · have copy := stored_received direct tells read
    have same : cstr msg.messageId = row.messageId := congrArg (·.messageId) copy
    have absent : desk.store.messages.find row.messageId = none := by
      rw [same] at fresh
      simpa [Table.has] using fresh
    refine ⟨iff_of_true code (by rw [absent]; rfl), fun id => ?_⟩
    have inserted := desk.store.messages.find_insert msg.stored msg.stored_clean id
    rw [stored]
    refine inserted.trans ?_
    rw [copy, show (received row).messageId = row.messageId from rfl]
    by_cases here : id = row.messageId
    · rw [if_pos here, if_pos here.symm]
      rfl
    · rw [if_neg here, if_neg (Ne.symm here), Option.or_none]
  · obtain ⟨text, opens, _⟩ := direct.opens
    have there := taken ⟨messageId, network.id sender, network.id recipient, [], text,
      row.ciphertext, 1, row.timestamp, 0, 0, 1, 0⟩ ⟨named, tells.senderId, tells.recipientId,
        tells.groupId rfl, tells.sealedText (by decide), tells.timestamp rfl, rfl, rfl, opens⟩
    rw [key] at there
    obtain ⟨old, found⟩ := (Table.has_iff _ _).mp there
    refine ⟨iff_of_false code (by simp [granted, found]), fun id => ?_⟩
    rw [kept]
    split
    · next here =>
      rw [here, found]
      rfl
    · rfl

theorem edit_takes (direct : Direct network sender recipient row)
    (tells : Tells network sender recipient .edit row request) :
    (acceptEdit network.sodium (network.keys recipient) (some request.body)).wp Solo.contract
      (fun response after => Takes .edit row desk.store response after.store) desk := by
  obtain ⟨messageId, named, key⟩ := tells.messageId
  obtain ⟨text, opens, plaintext⟩ := direct.opens
  have box := tells.sealedText (by decide)
  have clean := (decryptMessage_clean opens).1
  have read : ReceivedEdit network.sodium (network.keys recipient) request.body messageId text
      row.ciphertext row.editedAt :=
    ⟨named, tells.recipientId, box, tells.editedAt rfl, _, tells.senderId, opens⟩
  unfold acceptEdit
  dsimp only
  rw [PeerFrame.receivedEdit_present read, named, tells.senderId, tells.recipientId, box,
    tells.editedAt rfl]
  simp only [Bool.not_true, Bool.false_eq_true, ↓reduceIte, Deployment.id, ne_eq, not_true_eq_false]
  refine Solo.wp_perform fun input => ?_
  have finds : (handle input (.call (.getMessage messageId)) desk.store).1 =
      desk.store.messages.find row.messageId := congrArg desk.store.messages.find key
  rcases found : (handle input (.call (.getMessage messageId)) desk.store).1 with _ | old
  · rw [finds] at found
    refine ⟨iff_of_false (by decide) (by simp [granted, found]), fun id => ?_⟩
    split
    · next here =>
      rw [here]
      exact found.trans (by rw [found]; rfl)
    · rfl
  · rw [finds] at found
    rw [show decryptMessage network.sodium row.ciphertext (network.keys sender).publicKeyB64
      (network.keys recipient).privateKeyB64 = some text from opens]
    refine Solo.wp_perform fun first => Solo.wp_mark fun now => Solo.wp_perform fun _ => ?_
    refine ⟨iff_of_true rfl (by rw [found]; rfl), fun id => ?_⟩
    refine (PeerFrame.find_edited first.now now messageId text row.ciphertext row.editedAt _ id).trans ?_
    rw [key]
    by_cases here : id = row.messageId
    · have same : PeerFrame.edited text row.ciphertext row.editedAt =
          PeerFrame.edited row.plaintext row.ciphertext row.editedAt := by
        funext old
        simp only [PeerFrame.edited, ← plaintext, cstr_cstr]
      simp only [if_pos here, served, same]
      rfl
    · simp only [if_neg here, Option.map_id']
      rfl

theorem delete_takes (tells : Tells network sender recipient .delete row request)
    (own : ∀ copy, desk.store.messages.find row.messageId = some copy →
      copy.senderId = network.id sender) :
    (acceptDelete (network.keys recipient) (some request.body)).wp Solo.contract
      (fun response after => Takes .delete row desk.store response after.store) desk := by
  obtain ⟨messageId, named, key⟩ := tells.messageId
  have present : request.body.hasAll? ["message_id", "sender_id", "recipient_id"] = some true := by
    apply Json.hasAll?_of_get? (by simp)
    simp only [List.forall_mem_cons, List.not_mem_nil, IsEmpty.forall_iff, implies_true, and_true]
    exact ⟨Json.get?_of_s? named, Json.get?_of_s? tells.senderId, Json.get?_of_s? tells.recipientId⟩
  unfold acceptDelete
  dsimp only
  rw [present, named, tells.senderId, tells.recipientId]
  simp only [Bool.not_true, Bool.false_eq_true, ↓reduceIte, Deployment.id, ne_eq, not_true_eq_false]
  refine Solo.wp_perform fun input => ?_
  have finds : (handle input (.call (.getMessage messageId)) desk.store).1 =
      desk.store.messages.find row.messageId := congrArg desk.store.messages.find key
  rcases found : (handle input (.call (.getMessage messageId)) desk.store).1 with _ | old
  · rw [finds] at found
    refine ⟨iff_of_true rfl rfl, fun id => ?_⟩
    split
    · next here =>
      rw [here]
      exact found.trans (by rw [found]; rfl)
    · rfl
  · rw [finds] at found
    have author : old.senderId = (network.keys sender).publicKeyB64 := own old found
    simp only [author, not_true_eq_false, ↓reduceIte]
    refine Solo.wp_mark fun now => Solo.wp_perform fun _ => ?_
    refine ⟨iff_of_true rfl rfl, fun id => ?_⟩
    refine (messages_exec now desk.store (.updateMessages messageId none .deleted) id).trans ?_
    cases there : desk.store.messages.find id with
    | none => simp [onMessage, served]
    | some other =>
        have same := desk.store.messages.find_key there
        subst same
        by_cases here : other.messageId = row.messageId
        · simp [onMessage, addressed, key, here, served, Mark.set]
        · simp [onMessage, addressed, key, here]

/-- The recipient serves a request about a direct message. -/
theorem serve_takes {kind : Kind} (direct : Direct network sender recipient row)
    (tells : Tells network sender recipient kind row request)
    (own : ∀ copy, desk.store.messages.find row.messageId = some copy →
      copy.senderId = network.id sender) :
    (network.serve recipient request).wp Solo.contract
      (fun response after => Takes kind row desk.store response after.store) desk := by
  unfold Deployment.serve Handlers.serve
  rw [tells.endpoint]
  cases kind with
  | message => exact message_takes direct tells
  | edit => exact edit_takes direct tells
  | delete => exact delete_takes tells own

/-- The body of a retry, made of the listed row. -/
def again (m : Message) : Kind → Json
  | .message => .obj [("message_id", .str m.messageId), ("sender_id", .str m.senderId),
      ("recipient_id", .str m.recipientId), ("group_id", .str m.groupId),
      ("ciphertext", .str m.ciphertext), ("timestamp", .num m.timestamp)]
  | .edit => .obj [("message_id", .str m.messageId), ("sender_id", .str m.senderId),
      ("recipient_id", .str m.recipientId), ("ciphertext", .str m.ciphertext),
      ("edited_at", .num m.editedAt)]
  | .delete => .obj [("message_id", .str m.messageId), ("sender_id", .str m.senderId),
      ("recipient_id", .str m.recipientId)]

theorem tells_again {serverAddress : Str} {m : Message} (kind : Kind)
    (direct : Direct network sender recipient m) (key : cstr m.messageId = m.messageId) :
    Tells network sender recipient kind m ⟨serverAddress, kind.endpoint, again m kind⟩ where
  endpoint := rfl
  messageId := by cases kind <;> exact ⟨m.messageId, rfl, key⟩
  senderId := by cases kind <;> exact congrArg some direct.senderId
  recipientId := by cases kind <;> exact congrArg some direct.recipientId
  sealedText other := by
    cases kind with
    | message | edit => rfl
    | delete => exact absurd rfl other
  timestamp message := by
    subst message
    rfl
  groupId message := by
    subst message
    exact direct.groupId
  editedAt edit := by
    subst edit
    rfl

theorem Tells.flagged {kind : Kind} {listed current : Message} {request : Request}
    (tells : Tells network sender recipient kind listed request) (flagged : Flagged listed current) :
    Tells network sender recipient kind current request := by
  rw [flagged]
  exact { tells with }

end Served

/-! One attempt of the sender, as far as the row and its copy are concerned. -/
section Attempts
variable {lossy : Bool} {kind : Kind} {row : Message} {copy after : Option Message}
  {success : Bool}

/-- Whether the attempt succeeded, and the copy it leaves. On a lossy network the request may
be lost, or the answer; that of a message which was taken in is not. -/
inductive Attempt (lossy : Bool) (kind : Kind) (row : Message) (copy : Option Message) :
    Bool → Option Message → Prop where
  | answered : Attempt lossy kind row copy (granted kind copy) (served row kind copy)
  | answerLost (loses : lossy = true) (other : kind ≠ .message) :
      Attempt lossy kind row copy false (served row kind copy)
  | lost (loses : lossy = true) : Attempt lossy kind row copy false copy

/-- What the sender makes of its row. -/
def marked (t : Int) (kind : Kind) (success : Bool) (row : Message) : Message :=
  if success then kind.done.set t row else row

end Attempts

/-! What is always so of a row and its copy. -/
section Linked
variable {Host : Type} (network : Deployment Host) (sender recipient : Host)

/-- The copy as the row's flags tell it: what is marked as accepted is there. -/
structure Linked (row : Message) (copy : Option Message) : Prop where
  direct : Direct network sender recipient row
  status : row.accepted = 0 ∨ row.accepted = 1 ∨ row.accepted = 2 ∨ row.accepted = 3
  editStatus : row.editAccepted = 0 ∨ row.editAccepted = 1 ∨ row.editAccepted = 2
  deleteStatus : row.deleteAccepted = 0 ∨ row.deleteAccepted = 1 ∨ row.deleteAccepted = 2
  undelivered : copy = none → row.accepted ≠ 1 ∧ row.editAccepted ≠ 1
  delivered : ∀ there, copy = some there → row.accepted = 1 ∨ row.accepted = 3
  author : ∀ there, copy = some there → there.senderId = network.id sender
  shown : ∀ there, copy = some there → row.accepted ≠ 3 → there.accepted = 1
  current : ∀ there, copy = some there → row.editAccepted = 1 ∨ row.editedAt = 0 →
    there.plaintext = row.plaintext ∧ there.editedAt = row.editedAt
  hidden : row.accepted = 3 → row.deleteAccepted = 1 → ∀ there, copy = some there →
    there.accepted = 3

variable {network sender recipient} {lossy : Bool} {row : Message} {copy after : Option Message}
  {success : Bool} {t : Int}

theorem Direct.same {other : Message} (direct : Direct network sender recipient row)
    (senderId : other.senderId = row.senderId) (recipientId : other.recipientId = row.recipientId)
    (groupId : other.groupId = row.groupId) (ciphertext : other.ciphertext = row.ciphertext)
    (plaintext : other.plaintext = row.plaintext) : Direct network sender recipient other where
  senderId := senderId.trans direct.senderId
  recipientId := recipientId.trans direct.recipientId
  groupId := groupId.trans direct.groupId
  opens := by
    rw [ciphertext, plaintext]
    exact direct.opens

theorem linked_new (direct : Direct network sender recipient row) (status : row.accepted = 0)
    (editStatus : row.editAccepted = 0) (deleteStatus : row.deleteAccepted = 1) :
    Linked network sender recipient row none where
  direct := direct
  status := .inl status
  editStatus := .inl editStatus
  deleteStatus := .inr (.inl deleteStatus)
  undelivered _ := by omega
  delivered := nofun
  author := nofun
  shown := nofun
  current := nofun
  hidden _ _ := nofun

theorem Linked.undelivered_of_pending (linked : Linked network sender recipient row copy)
    (pending : row.accepted = 0) : copy = none := by
  cases copy with
  | none => rfl
  | some there =>
      have status := linked.delivered there rfl
      omega

theorem Linked.message (linked : Linked network sender recipient row copy)
    (pending : row.accepted = 0) (attempt : Attempt lossy .message row copy success after) :
    Linked network sender recipient (marked t .message success row) after := by
  have absent := linked.undelivered_of_pending pending
  subst absent
  cases attempt with
  | answerLost loses other => exact absurd rfl other
  | lost loses => exact linked
  | answered =>
      have unedited := (linked.undelivered rfl).2
      exact {
        direct := linked.direct.same rfl rfl rfl rfl rfl
        status := .inr (.inl rfl)
        editStatus := linked.editStatus
        deleteStatus := linked.deleteStatus
        undelivered := nofun
        delivered _ _ := .inl rfl
        author := by
          rintro _ ⟨⟩
          exact linked.direct.senderId
        shown := by
          rintro _ ⟨⟩ _
          rfl
        current := by
          rintro _ ⟨⟩ (accepted | unedited')
          · exact absurd accepted unedited
          · exact ⟨rfl, unedited'.symm⟩
        hidden := nofun }

theorem Linked.messageFailed (linked : Linked network sender recipient row none) :
    Linked network sender recipient { row with accepted := 2 } none where
  direct := linked.direct.same rfl rfl rfl rfl rfl
  status := .inr (.inr (.inl rfl))
  editStatus := linked.editStatus
  deleteStatus := linked.deleteStatus
  undelivered absent := ⟨nofun, (linked.undelivered absent).2⟩
  delivered := nofun
  author := nofun
  shown := nofun
  current := nofun
  hidden _ _ := nofun

theorem Linked.edited {other : Message} (linked : Linked network sender recipient row copy)
    (direct : Direct network sender recipient other) (accepted : other.accepted = row.accepted)
    (editAccepted : other.editAccepted = 0) (dated : other.editedAt ≠ 0)
    (deleteAccepted : other.deleteAccepted = row.deleteAccepted) :
    Linked network sender recipient other copy where
  direct := direct
  status := by
    rw [accepted]
    exact linked.status
  editStatus := .inl editAccepted
  deleteStatus := by
    rw [deleteAccepted]
    exact linked.deleteStatus
  undelivered absent := by
    have before := linked.undelivered absent
    omega
  delivered there found := by
    rw [accepted]
    exact linked.delivered there found
  author := linked.author
  shown there found visible := linked.shown there found (accepted ▸ visible)
  current there found := by
    rintro (already | undated)
    · omega
    · exact absurd undated dated
  hidden deleted confirmed := linked.hidden (accepted ▸ deleted) (deleteAccepted ▸ confirmed)

theorem Direct.plaintext_clean (direct : Direct network sender recipient row) :
    cstr row.plaintext = row.plaintext := by
  obtain ⟨text, _, plaintext⟩ := direct.opens
  rw [← plaintext, cstr_cstr]

/-- The recipient changes its copy, which no flag tells yet. -/
theorem Linked.changed {old there : Message}
    (linked : Linked network sender recipient row (some old))
    (author : there.senderId = old.senderId)
    (shown : row.accepted ≠ 3 → there.accepted = old.accepted)
    (current : row.editAccepted = 1 ∨ row.editedAt = 0 →
      there.plaintext = row.plaintext ∧ there.editedAt = row.editedAt)
    (hidden : row.accepted = 3 → there.accepted = old.accepted ∨ there.accepted = 3) :
    Linked network sender recipient row (some there) where
  direct := linked.direct
  status := linked.status
  editStatus := linked.editStatus
  deleteStatus := linked.deleteStatus
  undelivered := nofun
  delivered _ _ := linked.delivered old rfl
  author := by
    rintro _ ⟨⟩
    exact author.trans (linked.author old rfl)
  shown := by
    rintro _ ⟨⟩ visible
    exact (shown visible).trans (linked.shown old rfl visible)
  current := by
    rintro _ ⟨⟩
    exact current
  hidden := by
    rintro deleted confirmed _ ⟨⟩
    have before := linked.hidden deleted confirmed old rfl
    have after := hidden deleted
    omega

theorem Linked.served_edit (linked : Linked network sender recipient row copy) :
    Linked network sender recipient row (served row .edit copy) := by
  cases copy with
  | none => exact linked
  | some old =>
      have taken := linked.direct.plaintext_clean
      exact linked.changed rfl (fun _ => rfl) (fun _ => ⟨taken, rfl⟩) fun _ => .inl rfl

theorem Linked.edit (linked : Linked network sender recipient row copy)
    (attempt : Attempt lossy .edit row copy success after) :
    Linked network sender recipient (marked t .edit success row) after := by
  cases attempt with
  | lost loses => exact linked
  | answerLost loses other => exact linked.served_edit
  | answered =>
      cases copy with
      | none => exact linked
      | some old =>
          have taken := linked.served_edit
          exact { taken with
            direct := linked.direct.same rfl rfl rfl rfl rfl
            editStatus := .inr (.inl rfl)
            undelivered := nofun
            current := by
              rintro _ ⟨⟩ _
              exact ⟨linked.direct.plaintext_clean, rfl⟩ }

theorem Linked.editFailed (linked : Linked network sender recipient row copy) :
    Linked network sender recipient { row with editAccepted := 2 } copy where
  direct := linked.direct.same rfl rfl rfl rfl rfl
  status := linked.status
  editStatus := .inr (.inr rfl)
  deleteStatus := linked.deleteStatus
  undelivered absent := ⟨(linked.undelivered absent).1, nofun⟩
  delivered := linked.delivered
  author := linked.author
  shown := linked.shown
  current there found := by
    rintro (confirmed | undated)
    · cases confirmed
    · exact linked.current there found (.inr undated)
  hidden := linked.hidden

/-- The sender deletes the message, and the recipient has yet to be told. -/
theorem Linked.deleted (linked : Linked network sender recipient row copy) (t : Int) :
    Linked network sender recipient
      { row with accepted := 3, deleteAccepted := 0, deletedAt := t } copy where
  direct := linked.direct.same rfl rfl rfl rfl rfl
  status := .inr (.inr (.inr rfl))
  editStatus := linked.editStatus
  deleteStatus := .inl rfl
  undelivered absent := ⟨nofun, (linked.undelivered absent).2⟩
  delivered _ _ := .inr rfl
  author := linked.author
  shown _ _ visible := absurd rfl visible
  current := linked.current
  hidden _ := nofun

theorem Linked.served_delete (linked : Linked network sender recipient row copy)
    (deleted : row.accepted = 3) :
    Linked network sender recipient row (served row .delete copy) := by
  cases copy with
  | none => exact linked
  | some old =>
      exact linked.changed rfl (fun visible => absurd deleted visible) (linked.current old rfl)
        fun _ => .inr rfl

theorem Linked.delete (linked : Linked network sender recipient row copy)
    (deleted : row.accepted = 3) (attempt : Attempt lossy .delete row copy success after) :
    Linked network sender recipient (marked t .delete success row) after := by
  cases attempt with
  | lost loses => exact linked
  | answerLost loses other => exact linked.served_delete deleted
  | answered =>
      have taken := linked.served_delete deleted
      exact { taken with
        direct := linked.direct.same rfl rfl rfl rfl rfl
        deleteStatus := .inr (.inl rfl)
        hidden := by
          rintro _ _ there found
          obtain ⟨old, _, rfl⟩ := Option.map_eq_some_iff.mp found
          rfl }

theorem Linked.deleteFailed (linked : Linked network sender recipient row copy) :
    Linked network sender recipient { row with deleteAccepted := 2 } copy where
  direct := linked.direct.same rfl rfl rfl rfl rfl
  status := linked.status
  editStatus := linked.editStatus
  deleteStatus := .inr (.inr rfl)
  undelivered := linked.undelivered
  delivered := linked.delivered
  author := linked.author
  shown := linked.shown
  current := linked.current
  hidden _ := nofun

/-- What the worker knows of a row whose turn it is. -/
def Due : Kind → Message → Prop
  | .message, row => row.accepted = 0
  | .edit, _ => True
  | .delete, row => row.accepted = 3

theorem Linked.settled {kind : Kind} (linked : Linked network sender recipient row copy)
    (due : Due kind row) (attempt : Attempt lossy kind row copy success after) :
    Linked network sender recipient (kind.settle t success row) after := by
  have attempted : Linked network sender recipient (marked t kind success row) after := by
    cases kind with
    | message => exact linked.message due attempt
    | edit => exact linked.edit attempt
    | delete => exact linked.delete due attempt
  cases success with
  | true => exact attempted
  | false =>
      unfold Kind.settle
      rw [if_neg (by decide)]
      split
      · cases kind with
        | edit => exact attempted.editFailed
        | delete => exact attempted.deleteFailed
        | message =>
            have absent := attempted.undelivered_of_pending due
            subst absent
            exact attempted.messageFailed
      · exact attempted

theorem Attempt.granted {kind : Kind} (attempt : Attempt false kind row copy success after) :
    success = granted kind copy := by
  cases attempt with
  | answered => rfl
  | answerLost loses => cases loses
  | lost loses => cases loses

/-- Whose turns do not disturb each other: what is known of a row outlasts the others' turns. -/
theorem Due.settle {kind other : Kind} (due : Due kind row) (later : Due other row)
    (apart : other ≠ kind) : Due other (kind.settle t success row) := by
  cases other with
  | edit => trivial
  | message =>
      cases kind with
      | message => exact absurd rfl apart
      | edit =>
          rw [PassEffect.settle_edit]
          exact later
      | delete =>
          simp only [Due] at due later
          omega
  | delete =>
      cases kind with
      | delete => exact absurd rfl apart
      | edit =>
          rw [PassEffect.settle_edit]
          exact later
      | message =>
          simp only [Due] at due later
          omega

/-- What a pass has to do for the row. -/
def Owes : Kind → Message → Prop
  | .message, row => row.accepted = 0
  | .edit, row => row.accepted ≠ 3 ∧ row.editAccepted = 0 ∧ row.editedAt ≠ 0
  | .delete, row => row.accepted = 3 ∧ row.deleteAccepted = 0

/-- Nothing that matters was given up. -/
structure Spared (row : Message) : Prop where
  accepted : row.accepted ≠ 2
  editAccepted : row.accepted ≠ 3 → row.editAccepted ≠ 2
  deleteAccepted : row.deleteAccepted ≠ 2

/-- Without losses a turn does what the row owes, and nothing new is owed. -/
theorem Linked.paid {kind : Kind} (linked : Linked network sender recipient row copy)
    (due : Due kind row) (spared : Spared row) (sent : kind = .edit → row.accepted ≠ 0)
    (attempt : Attempt false kind row copy success after) :
    ¬Owes kind (kind.settle t success row) ∧
    (∀ other, Owes other (kind.settle t success row) → Owes other row) ∧
    Spared (kind.settle t success row) := by
  have fine := attempt.granted
  cases kind with
  | message =>
      have absent := linked.undelivered_of_pending due
      have success : success = true := by
        rw [fine, absent]
        rfl
      simp only [Due] at due
      rw [PassEffect.settle_message, if_pos success]
      refine ⟨nofun, ?_, ⟨nofun, fun _ => spared.editAccepted (by omega), spared.deleteAccepted⟩⟩
      rintro (_ | _ | _) owed
      · exact due
      · exact ⟨by omega, owed.2⟩
      · exact absurd owed.1 nofun
  | delete =>
      have success : success = true := fine
      simp only [Due] at due
      rw [PassEffect.settle_delete, if_pos success]
      refine ⟨fun owed => absurd owed.2 nofun, ?_,
        ⟨spared.accepted, spared.editAccepted, nofun⟩⟩
      rintro (_ | _ | _) owed
      · exact owed
      · exact owed
      · exact absurd owed.2 nofun
  | edit =>
      rw [PassEffect.settle_edit]
      have done : row.accepted ≠ 3 → success = true := by
        intro visible
        cases copy with
        | some there => exact fine
        | none =>
            have undelivered := (linked.undelivered rfl).1
            have status := linked.status
            have accepted := spared.accepted
            have sent := sent rfl
            omega
      refine ⟨?_, ?_, ⟨spared.accepted, fun visible => ?_, spared.deleteAccepted⟩⟩
      · rintro ⟨visible, pending, _⟩
        rw [if_pos (done visible)] at pending
        cases pending
      · rintro (_ | _ | _) owed
        · exact owed
        · obtain ⟨visible, pending, _⟩ := owed
          rw [if_pos (done visible)] at pending
          cases pending
        · exact owed
      · rw [if_pos (done visible)]
        nofun

end Linked

end NoMiddle.Copies
