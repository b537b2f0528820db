import NoMiddle.Library.Beside
import NoMiddle.Solo
import NoMiddle.Conduct

/-! The first request for an item and the one the worker makes of the item's row. Their bodies
are put together in different places and differ in their fields, but no node that gets them
does anything different. Meanwhile anything may happen to the rest of the sender's store. -/
namespace NoMiddle.Retries
open Library Text Crypto DbManager DbViews Node MessageDelivery Handlers GroupHandlers Solo Network
open Conduct (CarriesMessage CarriesEdit CarriesDelete)

/-- The routes that first send a message, an edit or a delete. -/
inductive Route where
  | message (req : HttpRequest)
  | edit (req : HttpRequest)
  | delete (req : HttpRequest)
  | groupMessage (req : HttpRequest) (group : PathId)
  | groupEdit (req : HttpRequest) (group : PathId)
  | groupDelete (req : HttpRequest) (group : PathId)

def program (sodium : Sodium) (keys : KeyPair) : Route → Proc Response
  | .message req => sendDirect sodium keys req
  | .edit req => editDirect sodium keys req
  | .delete req => deleteDirect sodium keys req
  | .groupMessage req group => groupSend sodium keys req group
  | .groupEdit req group => groupEdit sodium keys req group
  | .groupDelete req group => groupDelete sodium keys req group

abbrev Sent := List (Request × Option Response)

/-- What the others leave alone: what is looked at in the store, and what was sent. -/
def view {Look : Type} (look : Store → Look) (desk : Desk) : Look × Sent :=
  (look desk.store, desk.sent)

/-- A run beside others that leave alone what is looked at. -/
def RunsBeside {Look Value : Type} (look : Store → Look) (program : Proc Value) (desk : Desk)
    (value : Value) (after : Desk) : Prop :=
  program.Runs (Beside.step (view look) Solo.step) desk value after

/-- What the worker does for a message again, after a request of this kind. -/
def retry (row : Message) : Endpoint → Proc Bool
  | .acceptMessage => retryDeliverMessage row
  | .acceptEdit => retryMessageEdit row
  | .acceptDelete => retryMessageDelete row
  | .acceptGroupUpdate | .publicKey => return false

/-- A node that gets the one or the other, and draws the same, does the same. -/
def Alike (first again : Request) : Prop :=
  again.endpoint = first.endpoint ∧ ∀ sodium keys drawn desk,
    (serve sodium keys again).exec act drawn desk = (serve sodium keys first).exec act drawn desk

/-- Wherever the program is run, what it sends is like the first request. -/
def Repeats (program : Proc Bool) (first : Request) : Prop :=
  ∀ store done after, RunsBeside (fun _ => ()) program ⟨store, []⟩ done after →
    ∀ exchange ∈ after.sent, Alike first exchange.1

/-! What a body says is all a node reads of it. -/
section Receiver

/-- The request says of the message what its row tells. -/
def Carries (request : Request) (row : Message) : Prop :=
  match request.endpoint with
  | .acceptMessage => CarriesMessage request.body row
  | .acceptEdit => CarriesEdit request.body row.messageId row.senderId row.recipientId
      (row.ciphertext, row.editedAt)
  | .acceptDelete => CarriesDelete request.body row.messageId row.recipientId ∧
      request.body.s? "sender_id" = some row.senderId
  | .acceptGroupUpdate | .publicKey => False

variable {body other : Json} {row : Message} (sodium : Sodium) (keys : KeyPair)

theorem acceptMessage_alike (tells : CarriesMessage body row) (also : CarriesMessage other row) :
    acceptMessage sodium keys (some other) = acceptMessage sodium keys (some body) := by
  have present : ∀ {any : Json}, CarriesMessage any row →
      any.hasAll? ["sender_id", "recipient_id", "ciphertext", "timestamp"] = some true := by
    intro any carries
    apply Json.hasAll?_of_get? (List.cons_ne_nil _ _)
    simp only [List.forall_mem_cons, Json.get?_of_s? carries.senderId,
      Json.get?_of_s? carries.recipientId, Json.get?_of_s? carries.ciphertext,
      Json.get?_of_i? carries.timestamp]
    simp
  -- A body without a group names the empty one.
  have group := also.groupId.trans tells.groupId.symm
  unfold acceptMessage
  simp only [present tells, present also, tells.senderId, also.senderId, tells.recipientId,
    also.recipientId, tells.ciphertext, also.ciphertext, tells.timestamp, also.timestamp,
    tells.messageId, also.messageId]
  generalize (other.optional "group_id").getD [] = named at group ⊢
  rw [group]

theorem acceptEdit_alike {messageId senderId recipientId : Str} {edit : Str × Int}
    (tells : CarriesEdit body messageId senderId recipientId edit)
    (also : CarriesEdit other messageId senderId recipientId edit) :
    acceptEdit sodium keys (some other) = acceptEdit sodium keys (some body) := by
  have present : ∀ {any : Json}, CarriesEdit any messageId senderId recipientId edit →
      any.hasAll? ["message_id", "sender_id", "recipient_id", "ciphertext", "edited_at"] =
        some true := by
    intro any carries
    apply Json.hasAll?_of_get? (List.cons_ne_nil _ _)
    simp only [List.forall_mem_cons, Json.get?_of_s? carries.messageId,
      Json.get?_of_s? carries.senderId, Json.get?_of_s? carries.recipientId,
      Json.get?_of_s? carries.ciphertext, Json.get?_of_i? carries.editedAt]
    simp
  unfold acceptEdit
  simp only [present tells, present also, tells.messageId, also.messageId, tells.senderId,
    also.senderId, tells.recipientId, also.recipientId, tells.ciphertext, also.ciphertext,
    tells.editedAt, also.editedAt]

theorem acceptDelete_alike {messageId senderId recipientId : Str}
    (tells : CarriesDelete body messageId recipientId) (sender : body.s? "sender_id" = some senderId)
    (also : CarriesDelete other messageId recipientId)
    (alsoSender : other.s? "sender_id" = some senderId) :
    acceptDelete keys (some other) = acceptDelete keys (some body) := by
  have present : ∀ {any : Json}, CarriesDelete any messageId recipientId →
      any.s? "sender_id" = some senderId →
      any.hasAll? ["message_id", "sender_id", "recipient_id"] = some true := by
    intro any carries sent
    apply Json.hasAll?_of_get? (List.cons_ne_nil _ _)
    simp only [List.forall_mem_cons, Json.get?_of_s? carries.messageId, Json.get?_of_s? sent,
      Json.get?_of_s? carries.recipientId]
    simp
  unfold acceptDelete
  simp only [present tells sender, present also alsoSender, tells.messageId, also.messageId, sender,
    alsoSender, tells.recipientId, also.recipientId]

/-- Two requests that say the same of one message are alike. -/
theorem alike_of_carries {first again : Request} (same : again.endpoint = first.endpoint)
    (tells : Carries first row) (also : Carries again row) : Alike first again := by
  refine ⟨same, fun sodium keys drawn desk => ?_⟩
  suffices serve sodium keys again = serve sodium keys first by rw [this]
  unfold serve
  unfold Carries at tells also
  rw [same] at also ⊢
  cases kind : first.endpoint with
  | acceptMessage =>
      rw [kind] at tells also
      exact acceptMessage_alike sodium keys tells also
  | acceptEdit =>
      rw [kind] at tells also
      exact acceptEdit_alike sodium keys tells also
  | acceptDelete =>
      rw [kind] at tells also
      exact acceptDelete_alike keys tells.1 tells.2 also.1 also.2
  | acceptGroupUpdate =>
      rw [kind] at tells
      cases tells
  | publicKey => rfl

end Receiver

/-! How the operations of the programs look. -/
section Rules
variable {Look Value : Type} {look : Store → Look} {seen : Look} {sent : Sent}
  {post : Value → Look × Sent → Prop}

/-- The program, begun where this is seen, ends as the condition tells. -/
abbrev Ends (look : Store → Look) (program : Proc Value) (seen : Look) (sent : Sent)
    (post : Value → Look × Sent → Prop) : Prop :=
  Beside.Shows (view look) Solo.step program (seen, sent) post

theorem ends_call {db : Call} {rest : db.Res → Proc Value}
    (later : ∀ now store, look store = seen →
      Ends look (rest (db.exec now store).1) (look (db.exec now store).2) sent post) :
    Ends look (call db >>= rest) seen sent post := by
  refine Beside.shows_op fun desk _ _ same taken => ?_
  obtain ⟨drawn, ⟨⟩⟩ := taken
  obtain ⟨rfl, rfl⟩ := Prod.mk.inj same
  exact later drawn.1.now desk.store rfl

/-- A call that only reads. -/
theorem ends_read {db : Call} {rest : db.Res → Proc Value}
    (reads : ∀ now store, (db.exec now store).2 = store)
    (later : ∀ now store, look store = seen → Ends look (rest (db.exec now store).1) seen sent post) :
    Ends look (call db >>= rest) seen sent post := by
  apply ends_call
  intro now store same
  rw [reads, same]
  exact later now store same

/-- Everything else is drawn. -/
theorem ends_draw {operation : LocalOp} {rest : operation.Res → Proc Value}
    (draws : ∀ input store, (handle input operation store).2 = store)
    (later : ∀ input store, look store = seen →
      Ends look (rest (handle input operation store).1) seen sent post) :
    Ends look (perform operation >>= rest) seen sent post := by
  refine Beside.shows_op fun desk _ _ same taken => ?_
  obtain ⟨drawn, ⟨⟩⟩ := taken
  obtain ⟨rfl, rfl⟩ := Prod.mk.inj same
  rw [draws]
  exact later drawn.1 desk.store rfl

theorem ends_send {serverAddress : Str} {endpoint : Endpoint} {body : Json}
    {rest : Option Nat → Proc Value}
    (later : ∀ answer : Option Response, Ends look (rest (answer.map (·.code))) seen
      (sent ++ [(⟨serverAddress, endpoint, body⟩, answer)]) post) :
    Ends look (sendMessage serverAddress endpoint body >>= rest) seen sent post := by
  refine Beside.shows_op fun desk _ _ same taken => ?_
  obtain ⟨drawn, ⟨⟩⟩ := taken
  obtain ⟨rfl, rfl⟩ := Prod.mk.inj same
  exact later drawn.2

end Rules

section Worker
variable {row : Message}

/-- The worker's attempt sends its one request or none. -/
theorem exchange_ends {recipientId : Str} {endpoint : Endpoint} {body : Json} {mark : Proc Unit}
    (silent : ∀ sent, Ends (fun _ => ()) mark () sent fun _ after => after.2 = sent)
    (claim : Request → Prop) (sends : ∀ serverAddress, claim ⟨serverAddress, endpoint, body⟩) :
    Ends (fun _ => ()) (do
      let serverAddress ← call (.getContactAddress recipientId)
      if serverAddress.isEmpty then return false
      let result ← sendMessage (cutServerAddress serverAddress) endpoint body
      if delivered result then mark
      return delivered result) () [] fun _ after => ∀ exchange ∈ after.2, claim exchange.1 := by
  apply ends_read fun _ _ => rfl
  intro now store _
  split
  · exact Beside.shows_ret fun _ member => absurd member List.not_mem_nil
  apply ends_send
  intro answer
  have claimed : ∀ serverAddress, ∀ exchange ∈ [] ++ [(⟨serverAddress, endpoint, body⟩, answer)],
      claim exchange.1 := by
    intro serverAddress exchange member
    rw [List.mem_singleton.mp member]
    exact sends serverAddress
  dsimp only
  split
  · refine Beside.shows_seq (silent _) fun _ after same => Beside.shows_ret ?_
    rw [same]
    exact claimed _
  · exact Beside.shows_ret (claimed _)

theorem mark_silent (db : Call) (sent : Sent) :
    Ends (fun _ => ()) (do let _ ← call db) () sent fun _ after => after.2 = sent :=
  ends_call fun _ _ _ => Beside.shows_ret rfl

/-- What the worker sends for a row tells what the row tells. -/
theorem retry_carries (endpoint : Endpoint) :
    Ends (fun _ => ()) (retry row endpoint) () [] fun _ after => ∀ exchange ∈ after.2,
      exchange.1.endpoint = endpoint ∧ Carries exchange.1 row := by
  cases endpoint with
  | acceptMessage =>
      exact exchange_ends (mark_silent _) (fun request => request.endpoint = .acceptMessage ∧
        Carries request row) fun _ => ⟨rfl, rfl, rfl, rfl, rfl, rfl, rfl⟩
  | acceptEdit =>
      exact exchange_ends (mark_silent _) (fun request => request.endpoint = .acceptEdit ∧
        Carries request row) fun _ => ⟨rfl, rfl, rfl, rfl, rfl, rfl⟩
  | acceptDelete =>
      exact exchange_ends (mark_silent _) (fun request => request.endpoint = .acceptDelete ∧
        Carries request row) fun _ => ⟨rfl, ⟨rfl, rfl⟩, rfl⟩
  | acceptGroupUpdate | publicKey =>
      exact Beside.shows_ret fun _ member => absurd member List.not_mem_nil

/-- What was sent first for a message is repeated if it tells what the row tells. -/
theorem repeats_of_carries {first : Request} (carries : Carries first row) :
    Repeats (retry row first.endpoint) first := by
  intro store done after ran exchange member
  obtain ⟨same, also⟩ := Beside.runs_show (retry_carries first.endpoint) ran exchange member
  exact alike_of_carries same carries also

end Worker

/-! The first requests. -/
section Sender
variable {id : Str} {found : Option Message} {sent : Sent}

/-- The row of the message. -/
abbrev messageAt (id : Str) (store : Store) : Option Message := store.messages.find id

/-- What was sent for the message to the recipient of its row tells what the row tells. -/
def Carried (id : Str) (after : Option Message × Sent) : Prop :=
  ∀ exchange ∈ after.2, exchange.1.body.s? "message_id" = some id → ∀ row, after.1 = some row →
    exchange.1.body.s? "recipient_id" = some row.recipientId → Carries exchange.1 row

theorem carried_nil : Carried id (found, []) := fun _ member => absurd member List.not_mem_nil

/-- A mark that is no edit changes nothing of what requests carry. -/
theorem carries_set {request : Request} {row : Message} (now : Int) {mark : Mark}
    (other : ∀ plaintext ciphertext editedAt, mark ≠ .edit plaintext ciphertext editedAt) :
    Carries request (mark.set now row) ↔ Carries request row := by
  have same : ∀ marked : Message, marked.messageId = row.messageId →
      marked.senderId = row.senderId → marked.recipientId = row.recipientId →
      marked.groupId = row.groupId → marked.ciphertext = row.ciphertext →
      marked.timestamp = row.timestamp → marked.editedAt = row.editedAt →
      (Carries request marked ↔ Carries request row) := by
    intro marked id sender recipient group cipher time edited
    have message : ∀ body, CarriesMessage body marked ↔ CarriesMessage body row := by
      intro body
      constructor
      · rintro ⟨named, author, party, place, sealedText, stamp⟩
        exact ⟨id ▸ named, sender ▸ author, recipient ▸ party, group ▸ place,
          cipher ▸ sealedText, time ▸ stamp⟩
      · rintro ⟨named, author, party, place, sealedText, stamp⟩
        exact ⟨id ▸ named, sender ▸ author, recipient ▸ party, group ▸ place,
          cipher ▸ sealedText, time ▸ stamp⟩
    simp only [Carries, message, id, sender, recipient, cipher, edited]
  cases mark with
  | edit plaintext ciphertext editedAt => exact absurd rfl (other _ _ _)
  | _ => exact same _ rfl rfl rfl rfl rfl rfl rfl

theorem set_recipient (now : Int) (row : Message) (mark : Mark) :
    (mark.set now row).recipientId = row.recipientId := by
  cases mark <;> rfl

/-- The row after a statement that marks the message of this id. -/
abbrev marked (now : Int) (messageId : Str) (only : Option Str) (mark : Mark)
    (found : Option Message) : Option Message :=
  found.map fun old => if addressed messageId only old then mark.set now old else old

variable {messageId : Str} {only : Option Str} {mark : Mark}

theorem ends_update {Value : Type} {rest : Bool → Proc Value}
    {post : Value → Option Message × Sent → Prop}
    (later : ∀ now done, Ends (messageAt id) (rest done) (marked now messageId only mark found)
      sent post) :
    Ends (messageAt id) (call (.updateMessages messageId only mark) >>= rest) found sent post := by
  apply ends_call
  rintro now store rfl
  rw [messageAt, messages_exec]
  exact later now _

theorem ends_mark {Value : Type} {rest : Unit → Proc Value}
    {post : Value → Option Message × Sent → Prop}
    (later : ∀ now, Ends (messageAt id) (rest ()) (marked now messageId only mark found) sent post) :
    Ends (messageAt id) ((do let _ ← call (.updateMessages messageId only mark)) >>= rest) found sent
      post :=
  ends_update fun now _ => later now

theorem carried_mark (now : Int)
    (other : ∀ plaintext ciphertext editedAt, mark ≠ .edit plaintext ciphertext editedAt)
    (carried : Carried id (found, sent)) :
    Carried id (marked now messageId only mark found, sent) := by
  intro exchange member named row there party
  obtain ⟨old, known, rfl⟩ := Option.map_eq_some_iff.mp there
  split at party
  · rw [set_recipient] at party
    rw [if_pos ‹_›]
    exact (carries_set now other).mpr (carried exchange member named old known party)
  · rw [if_neg ‹_›]
    exact carried exchange member named old known party

/-- Besides, nothing was sent for a message that is not there. -/
def Sound (id : Str) (after : Option Message × Sent) : Prop :=
  Carried id after ∧
    (after.1 = none → ∀ exchange ∈ after.2, exchange.1.body.s? "message_id" ≠ some id)

theorem sound_nil : Sound id (found, []) :=
  ⟨carried_nil, fun _ _ member => absurd member List.not_mem_nil⟩

theorem sound_mark (now : Int)
    (other : ∀ plaintext ciphertext editedAt, mark ≠ .edit plaintext ciphertext editedAt)
    (sound : Sound id (found, sent)) : Sound id (marked now messageId only mark found, sent) :=
  ⟨carried_mark now other sound.1, fun none => sound.2 (Option.map_eq_none_iff.mp none)⟩

/-- A message is added of which nothing was sent before. -/
theorem sound_put {msg : Message} (sound : Sound id (found, sent))
    (free : msg.messageId = id → found = none) :
    Sound id (if msg.messageId = id then some msg.stored else found, sent) := by
  by_cases same : msg.messageId = id
  · rw [if_pos same]
    have silent := sound.2 (free same)
    exact ⟨fun exchange member about => absurd about (silent exchange member),
      fun absent => nomatch absent⟩
  · rw [if_neg same]
    exact sound

theorem sound_sent {request : Request} {answer : Option Response} (sound : Sound id (found, sent))
    (carries : request.body.s? "message_id" = some id → ∃ row, found = some row ∧
      (request.body.s? "recipient_id" = some row.recipientId → Carries request row)) :
    Sound id (found, sent ++ [(request, answer)]) := by
  constructor
  · intro exchange member about row there party
    rcases List.mem_append.mp member with earlier | new
    · exact sound.1 exchange earlier about row there party
    · rw [List.mem_singleton.mp new] at about party ⊢
      obtain ⟨stored, known, tells⟩ := carries about
      cases known.symm.trans there
      exact tells party
  · intro absent exchange member about
    rcases List.mem_append.mp member with earlier | new
    · exact sound.2 absent exchange earlier about
    · rw [List.mem_singleton.mp new] at about
      obtain ⟨stored, known, _⟩ := carries about
      cases known.symm.trans absent

/-- The message is sent as it was added. -/
theorem sound_added {msg : Message} {request : Request} {answer : Option Response}
    (sound : Sound id (if msg.messageId = id then some msg.stored else found, sent))
    (named : request.body.s? "message_id" = some msg.messageId)
    (carries : Carries request msg.stored) :
    Sound id (if msg.messageId = id then some msg.stored else found,
      sent ++ [(request, answer)]) := by
  refine sound_sent sound fun about => ?_
  have same : msg.messageId = id := Option.some.inj (named.symm.trans about)
  exact ⟨msg.stored, if_pos same, fun _ => carries⟩

theorem ends_encrypt {Value : Type} {sodium : Sodium} {plaintext recipient sender : Str}
    {rest : Option Str → Proc Value} {post : Value → Option Message × Sent → Prop}
    (none : Ends (messageAt id) (rest none) found sent post)
    (some : ∀ ciphertext, Clean ciphertext ∧ Clean recipient →
      Ends (messageAt id) (rest (some ciphertext)) found sent post) :
    Ends (messageAt id) (encrypt sodium plaintext recipient sender >>= rest) found sent post := by
  refine ends_draw (fun _ _ => rfl) fun drawn store _ => ?_
  cases sealedText : encryptMessage sodium _ plaintext recipient sender with
  | none => exact none
  | some ciphertext => exact some ciphertext (encryptMessage_clean sealedText)

theorem ends_memberAddress {Value : Type} {m : GroupMember} {rest : Str → Proc Value}
    {post : Value → Option Message × Sent → Prop}
    (later : ∀ address, Ends (messageAt id) (rest address) found sent post) :
    Ends (messageAt id) (memberAddress m >>= rest) found sent post := by
  unfold memberAddress
  dsimp only
  split
  · exact ends_read (fun _ _ => rfl) fun _ _ _ => later _
  · exact later _

theorem ends_uuid {Value : Type} {rest : Str → Proc Value} {post : Value → Option Message × Sent → Prop}
    (later : ∀ dice, Ends (messageAt id) (rest (uuidOf dice)) found sent post) :
    Ends (messageAt id) (generateUuid >>= rest) found sent post :=
  ends_draw (fun _ _ => rfl) fun drawn _ _ => later drawn.dice

/-- A message is stored under an id that is free, or refused. -/
theorem ends_add {Value : Type} {msg : Message} {rest : Bool → Proc Value}
    {post : Value → Option Message × Sent → Prop} (clean : Clean msg.messageId)
    (refused : Ends (messageAt id) (rest false) found sent post)
    (added : (msg.messageId = id → found = none) → Ends (messageAt id) (rest true)
      (if msg.messageId = id then some msg.stored else found) sent post) :
    Ends (messageAt id) (call (.addMessage msg) >>= rest) found sent post := by
  apply ends_call
  rintro now store rfl
  rw [messageAt, messages_exec, onMessage, cstr_of_clean clean]
  simp only [Call.exec, Table.has, cstr_of_clean clean]
  cases there : store.messages.find msg.messageId with
  | some row =>
      have kept : (store.messages.find id).or (if msg.messageId = id then some msg.stored else none) =
          store.messages.find id := by
        split
        · next same =>
          rw [← same, there]
          rfl
        · exact Option.or_none
      rw [kept]
      exact refused
  | none =>
      have put : (store.messages.find id).or (if msg.messageId = id then some msg.stored else none) =
          if msg.messageId = id then some msg.stored else messageAt id store := by
        split
        · next same =>
          rw [← same, there]
          rfl
        · exact Option.or_none
      rw [put]
      refine added ?_
      rintro rfl
      exact there

/-- Nothing is cut off the texts of the row. -/
theorem carries_stored {body : Json} {msg : Message} (carries : CarriesMessage body msg)
    (clean : Clean msg.messageId ∧ Clean msg.senderId ∧ Clean msg.recipientId ∧
      Clean msg.groupId ∧ Clean msg.ciphertext) : CarriesMessage body msg.stored where
  messageId := carries.messageId.trans (congrArg some (cstr_of_clean clean.1).symm)
  senderId := carries.senderId.trans (congrArg some (cstr_of_clean clean.2.1).symm)
  recipientId := carries.recipientId.trans (congrArg some (cstr_of_clean clean.2.2.1).symm)
  groupId := carries.groupId.trans (cstr_of_clean clean.2.2.2.1).symm
  ciphertext := carries.ciphertext.trans (congrArg some (cstr_of_clean clean.2.2.2.2).symm)
  timestamp := carries.timestamp

theorem deliverMessage_sound {keys : KeyPair} {recipientId ciphertext : Str} (plaintext : Str)
    (timestamp : Int) (clean : Clean ciphertext ∧ Clean recipientId) :
    Ends (messageAt id)
      (deliverMessage keys.publicKeyB64 recipientId ciphertext plaintext timestamp) found []
      fun _ => Sound id := by
  unfold deliverMessage
  apply ends_uuid
  intro dice
  apply ends_add (uuid_clean dice)
  · exact Beside.shows_ret sound_nil
  intro free
  apply ends_read fun _ _ => rfl
  intro now store _
  apply ends_send
  intro answer
  have carries : CarriesMessage (.obj [("message_id", .str (uuidOf dice)),
      ("sender_id", .str keys.publicKeyB64), ("recipient_id", .str recipientId),
      ("ciphertext", .str ciphertext), ("timestamp", .num timestamp)])
      (Message.stored ⟨uuidOf dice, keys.publicKeyB64, recipientId, [], plaintext, ciphertext, 0,
        timestamp, 0, 0, 1, 0⟩) :=
    carries_stored ⟨rfl, rfl, rfl, rfl, rfl, rfl⟩
      ⟨uuid_clean dice, publicKeyB64_clean keys, clean.2, by simp [Clean], clean.1⟩
  have sound : Sound id (_, [] ++ [(⟨cutServerAddress
      ((Call.getContactAddress recipientId).exec now store).1, .acceptMessage, _⟩, answer)]) :=
    sound_added (sound_put sound_nil free) rfl carries
  dsimp only
  split
  · exact ends_mark fun now => Beside.shows_ret (sound_mark now (by simp) sound)
  · exact Beside.shows_ret sound

theorem sendToMember_sound {sodium : Sodium} {keys : KeyPair} {messageId groupId text : Str}
    {timestamp : Int} {online : Bool} {m : GroupMember} (named : Clean messageId)
    (grouped : Clean groupId) (sound : Sound id (found, sent)) :
    Ends (messageAt id) (sendToMember sodium keys messageId groupId text timestamp online m)
      found sent fun _ => Sound id := by
  unfold sendToMember
  split
  · exact Beside.shows_ret sound
  apply ends_memberAddress
  intro address
  apply ends_encrypt
  · exact Beside.shows_ret sound
  intro ciphertext clean
  refine ends_draw (fun _ _ => rfl) fun drawn _ _ => ?_
  apply ends_add named
  · exact Beside.shows_ret sound
  intro free
  have put := sound_put sound free
  rw [Bool.not_true, if_neg Bool.false_ne_true]
  split
  · exact Beside.shows_ret put
  apply ends_send
  intro answer
  have carries : CarriesMessage (.obj [("message_id", .str messageId),
      ("sender_id", .str keys.publicKeyB64), ("recipient_id", .str m.memberId),
      ("group_id", .str groupId), ("ciphertext", .str ciphertext), ("timestamp", .num timestamp)])
      (Message.stored ⟨messageId, keys.publicKeyB64, m.memberId, groupId, text, ciphertext,
        drawn.memory, timestamp, 0, 0, 1, 0⟩) :=
    carries_stored ⟨rfl, rfl, rfl, rfl, rfl, rfl⟩
      ⟨named, publicKeyB64_clean keys, clean.2, grouped, clean.1⟩
  have sound : Sound id (_, sent ++ [(⟨address, .acceptMessage, _⟩, answer)]) :=
    sound_added put rfl carries
  dsimp only
  split
  · exact ends_mark fun now => Beside.shows_ret (sound_mark now (by simp) sound)
  · exact Beside.shows_ret sound

theorem ends_authed {sodium : Sodium} {req : HttpRequest} {refused : Response} {rest : Proc Response}
    {post : Response → Option Message × Sent → Prop} (refusal : post refused (found, sent))
    (later : Ends (messageAt id) rest found sent post) :
    Ends (messageAt id) (do if !(← isAuthed sodium req) then return refused
                            rest) found sent post := by
  have checked : Ends (messageAt id) (isAuthed sodium req) found sent
      fun _ after => after = (found, sent) := by
    unfold isAuthed authenticate
    split
    · exact Beside.shows_ret rfl
    · refine ends_read (fun _ _ => rfl) fun _ _ _ => ?_
      split
      · exact Beside.shows_ret rfl
      · exact Beside.shows_ret rfl
  refine Beside.shows_seq checked ?_
  rintro authed _ rfl
  cases authed with
  | true => exact later
  | false => exact Beside.shows_ret refusal

/-- The clients are told, and the route answers. -/
theorem ends_notified {payload : Json} {response : Response}
    {post : Response → Option Message × Sent → Prop} (holds : post response (found, sent)) :
    Ends (messageAt id) (notify payload >>= fun _ => return response) found sent post :=
  ends_draw (fun _ _ => rfl) fun _ _ _ => Beside.shows_ret holds

variable {sodium : Sodium} {keys : KeyPair}

theorem sendDirect_sound (req : HttpRequest) :
    Ends (messageAt id) (sendDirect sodium keys req) found [] fun _ => Sound id := by
  unfold sendDirect
  apply ends_authed sound_nil
  repeat' split
  all_goals try exact Beside.shows_ret sound_nil
  refine ends_draw (fun _ _ => rfl) fun drawn _ _ => ?_
  apply ends_encrypt
  · exact Beside.shows_ret sound_nil
  intro ciphertext clean
  refine Beside.shows_seq (deliverMessage_sound _ _ clean) fun delivered after sound => ?_
  cases delivered with
  | none => exact Beside.shows_ret sound
  | some messageId => exact ends_notified sound

theorem groupSend_sound (req : HttpRequest) (group : PathId) :
    Ends (messageAt id) (groupSend sodium keys req group) found [] fun _ => Sound id := by
  unfold groupSend
  apply ends_authed sound_nil
  repeat' split
  all_goals try exact Beside.shows_ret sound_nil
  refine ends_draw (fun _ _ => rfl) fun drawn _ _ => ?_
  apply ends_uuid
  intro dice
  refine ends_read (fun _ _ => rfl) fun _ _ _ => ?_
  split
  · exact Beside.shows_ret sound_nil
  refine Beside.shows_seq (Beside.shows_foldlM (fun _ _ => Sound id)
    (fun m _ online seen sound => sendToMember_sound (uuid_clean dice) group.clean sound) sound_nil)
    fun online after sound => Beside.shows_ret sound

theorem set_sender (now : Int) (row : Message) (mark : Mark) :
    (mark.set now row).senderId = row.senderId := by
  cases mark <;> rfl

/-- The message that is found is the row, and has its id. -/
theorem ends_getMessage {Value : Type} {messageId : Str} {rest : Option Message → Proc Value}
    {post : Value → Option Message × Sent → Prop}
    (later : ∀ answer, (cstr messageId = id → answer = found) →
      Ends (messageAt id) (rest answer) found sent post) :
    Ends (messageAt id) (call (.getMessage messageId) >>= rest) found sent post := by
  refine ends_read (fun _ _ => rfl) fun now store look => later _ ?_
  rintro rfl
  exact look

/-- A row is known by its id, which has no NUL. -/
def Keyed (id : Str) (found : Option Message) : Prop :=
  ∀ row, found = some row → row.messageId = id ∧ Clean id

theorem ends_keyed {Value : Type} {program : Proc Value}
    {post : Value → Option Message × Sent → Prop}
    (later : Keyed id found → Ends (messageAt id) program found sent post) :
    Ends (messageAt id) program found sent post := by
  refine Beside.shows_known fun desk same => later fun row there => ?_
  obtain ⟨look, _⟩ := Prod.mk.inj same
  rw [there] at look
  have named := desk.store.messages.find_key look
  have clean := desk.store.messages.find_valid look row.messageId List.mem_cons_self
  exact ⟨named, named ▸ clean⟩

/-- What goes on while a message of this node is edited or deleted. -/
structure Own (keys : KeyPair) (messageId id : Str) (after : Option Message × Sent) : Prop where
  carried : Carried id after
  sender : cstr messageId = id → ∀ row, after.1 = some row → row.senderId = keys.publicKeyB64

/-- The message was read and is this node's. -/
theorem own_read {msg : Message} (read : cstr messageId = id → some msg = found)
    (mine : msg.senderId = keys.publicKeyB64) : Own keys messageId id (found, []) := by
  refine ⟨carried_nil, fun named row there => ?_⟩
  cases (read named).trans there
  exact mine

theorem Own.stays {other : Str} (now : Int)
    (unedited : ∀ plaintext ciphertext editedAt, mark ≠ .edit plaintext ciphertext editedAt)
    (own : Own keys messageId id (found, sent)) :
    Own keys messageId id (marked now other only mark found, sent) := by
  refine ⟨carried_mark now unedited own.carried, fun same row there => ?_⟩
  obtain ⟨old, known, rfl⟩ := Option.map_eq_some_iff.mp there
  split
  · rw [set_sender]
    exact own.sender same old known
  · exact own.sender same old known

/-- One more request for the message. -/
theorem Own.send {request : Request} {answer : Option Response}
    (own : Own keys messageId id (found, sent))
    (carries : request.body.s? "message_id" = some id → ∀ row, found = some row →
      request.body.s? "recipient_id" = some row.recipientId → Carries request row) :
    Own keys messageId id (found, sent ++ [(request, answer)]) := by
  refine ⟨fun exchange member => ?_, own.sender⟩
  rcases List.mem_append.mp member with earlier | new
  · exact own.carried exchange earlier
  · rw [List.mem_singleton.mp new]
    exact carries

/-- A request that names the message names it as its row does. -/
theorem Own.named {row : Message} (own : Own keys messageId id (found, sent))
    (keyed : Keyed id found) (same : messageId = id) (there : found = some row) :
    messageId = row.messageId ∧ cstr messageId = messageId ∧
      row.senderId = keys.publicKeyB64 := by
  obtain ⟨key, clean⟩ := keyed row there
  rw [← same] at clean
  have whole := cstr_of_clean clean
  exact ⟨same.trans key.symm, whole, own.sender (whole.trans same) row there⟩

theorem Own.delete {serverAddress : Str} {body : Json} {answer : Option Response}
    (own : Own keys messageId id (found, sent)) (keyed : Keyed id found)
    (named : body.s? "message_id" = some messageId)
    (sender : body.s? "sender_id" = some keys.publicKeyB64) :
    Own keys messageId id (found, sent ++ [(⟨serverAddress, .acceptDelete, body⟩, answer)]) := by
  apply own.send
  intro about row there party
  obtain ⟨key, _, author⟩ := own.named keyed (Option.some.inj (named.symm.trans about)) there
  exact ⟨⟨named.trans (congrArg some key), party⟩, sender.trans (congrArg some author.symm)⟩

theorem deliverMessageDelete_own {recipientId : Str} (own : Own keys messageId id (found, sent)) :
    Ends (messageAt id) (deliverMessageDelete messageId keys.publicKeyB64 recipientId) found sent
      fun _ => Own keys messageId id := by
  unfold deliverMessageDelete
  apply ends_read fun _ _ => rfl
  intro now store _
  split
  · exact Beside.shows_ret own
  apply ends_keyed
  intro keyed
  apply ends_send
  intro answer
  have deleted : Own keys messageId id (found, sent ++ [(⟨cutServerAddress
      ((Call.getContactAddress recipientId).exec now store).1, .acceptDelete,
        .obj [("message_id", .str messageId), ("sender_id", .str keys.publicKeyB64),
          ("recipient_id", .str recipientId)]⟩, answer)]) :=
    own.delete keyed rfl rfl
  dsimp only
  split
  · exact ends_mark fun now => Beside.shows_ret (deleted.stays now (by simp))
  · exact Beside.shows_ret deleted

theorem deleteAtMember_own {groupId : Str} {m : GroupMember}
    (own : Own keys messageId id (found, sent)) :
    Ends (messageAt id) (deleteAtMember keys messageId groupId m) found sent
      fun _ => Own keys messageId id := by
  unfold deleteAtMember
  split
  · exact Beside.shows_ret own
  apply ends_memberAddress
  intro address
  split
  · exact Beside.shows_ret own
  apply ends_keyed
  intro keyed
  apply ends_send
  intro answer
  have deleted : Own keys messageId id (found, sent ++ [(⟨address, .acceptDelete,
      .obj [("message_id", .str messageId), ("sender_id", .str keys.publicKeyB64),
        ("recipient_id", .str m.memberId), ("group_id", .str groupId)]⟩, answer)]) :=
    own.delete keyed rfl rfl
  split
  · exact ends_update fun now _ => Beside.shows_ret (deleted.stays now (by simp))
  · exact Beside.shows_ret deleted

theorem deleteDirect_carried (req : HttpRequest) :
    Ends (messageAt id) (deleteDirect sodium keys req) found [] fun _ => Carried id := by
  unfold deleteDirect
  apply ends_authed carried_nil
  repeat' split
  all_goals try exact Beside.shows_ret carried_nil
  next messageId _ =>
  apply ends_getMessage
  intro answer same
  cases answer with
  | none => exact Beside.shows_ret carried_nil
  | some msg =>
      dsimp only
      split
      · exact Beside.shows_ret carried_nil
      next mine =>
      have own := own_read same (not_not.mp mine)
      refine ends_mark fun now => ends_mark fun later => ?_
      refine Beside.shows_seq (deliverMessageDelete_own ((own.stays now (by simp)).stays later
        (by simp))) fun _ after own => ends_notified own.carried

theorem groupDelete_carried (req : HttpRequest) (group : PathId) :
    Ends (messageAt id) (groupDelete sodium keys req group) found [] fun _ => Carried id := by
  unfold groupDelete
  apply ends_authed carried_nil
  repeat' split
  all_goals try exact Beside.shows_ret carried_nil
  next messageId _ =>
  apply ends_getMessage
  intro answer same
  cases answer with
  | none => exact Beside.shows_ret carried_nil
  | some msg =>
      dsimp only
      split
      · exact Beside.shows_ret carried_nil
      split
      · exact Beside.shows_ret carried_nil
      next mine =>
      have own := own_read same (not_not.mp mine)
      refine ends_mark fun now => ends_mark fun later => ?_
      refine ends_read (fun _ _ => rfl) fun _ _ _ => ?_
      refine Beside.shows_seq (Beside.shows_forM (fun _ => Own keys messageId id)
        (fun m _ seen own => deleteAtMember_own own) ((own.stays now (by simp)).stays later
        (by simp))) fun _ after own => ends_notified own.carried

/-- An edit that is in the row is carried. -/
theorem Own.edit {serverAddress ciphertext : Str} {editedAt : Int} {body : Json}
    {answer : Option Response} (own : Own keys messageId id (found, sent)) (keyed : Keyed id found)
    (named : body.s? "message_id" = some messageId)
    (sender : body.s? "sender_id" = some keys.publicKeyB64)
    (sealedText : body.s? "ciphertext" = some ciphertext)
    (time : body.i? "edited_at" = some editedAt)
    (written : ∀ row, found = some row → row.messageId = cstr messageId →
      body.s? "recipient_id" = some row.recipientId →
      row.ciphertext = ciphertext ∧ row.editedAt = editedAt) :
    Own keys messageId id (found, sent ++ [(⟨serverAddress, .acceptEdit, body⟩, answer)]) := by
  apply own.send
  intro about row there party
  obtain ⟨key, whole, author⟩ := own.named keyed (Option.some.inj (named.symm.trans about)) there
  obtain ⟨cipher, edited⟩ := written row there (key.symm.trans whole.symm) party
  exact ⟨named.trans (congrArg some key), sender.trans (congrArg some author.symm), party,
    sealedText.trans (congrArg some cipher.symm), time.trans (congrArg some edited.symm)⟩

/-- Nothing was sent before the row is edited that the edit makes untrue. -/
theorem Own.rewritten {plaintext ciphertext : Str} {editedAt : Int} (now : Int)
    (own : Own keys messageId id (found, sent))
    (unsent : ∀ row, found = some row → addressed messageId only row = true →
      ∀ exchange ∈ sent, exchange.1.body.s? "recipient_id" ≠ some row.recipientId) :
    Own keys messageId id (marked now messageId only (.edit plaintext ciphertext editedAt) found,
      sent) := by
  constructor
  · intro exchange member named row there party
    obtain ⟨old, known, rfl⟩ := Option.map_eq_some_iff.mp there
    split at party
    · next hit =>
      rw [set_recipient] at party
      exact absurd party (unsent old known hit exchange member)
    · rw [if_neg ‹_›]
      exact own.carried exchange member named old known party
  · intro same row there
    obtain ⟨old, known, rfl⟩ := Option.map_eq_some_iff.mp there
    split
    · rw [set_sender]
      exact own.sender same old known
    · exact own.sender same old known

theorem marked_edit {row : Message} {plaintext ciphertext : Str} {editedAt now : Int}
    (clean : Clean ciphertext)
    (there : marked now messageId only (.edit plaintext ciphertext editedAt) found = some row)
    (hit : addressed messageId only row = true) :
    row.ciphertext = ciphertext ∧ row.editedAt = editedAt := by
  obtain ⟨old, known, rfl⟩ := Option.map_eq_some_iff.mp there
  split at hit
  · rw [if_pos ‹_›]
    exact ⟨cstr_of_clean clean, rfl⟩
  · exact absurd hit ‹_›

theorem deliverMessageEdit_own {recipientId ciphertext : Str} {editedAt : Int}
    (own : Own keys messageId id (found, sent))
    (written : ∀ row, found = some row → row.messageId = cstr messageId →
      row.ciphertext = ciphertext ∧ row.editedAt = editedAt) :
    Ends (messageAt id)
      (deliverMessageEdit messageId keys.publicKeyB64 recipientId ciphertext editedAt) found sent
      fun _ => Own keys messageId id := by
  unfold deliverMessageEdit
  apply ends_read fun _ _ => rfl
  intro now store _
  split
  · exact Beside.shows_ret own
  apply ends_keyed
  intro keyed
  apply ends_send
  intro answer
  have edited : Own keys messageId id (found, sent ++ [(⟨cutServerAddress
      ((Call.getContactAddress recipientId).exec now store).1, .acceptEdit,
        .obj [("message_id", .str messageId), ("sender_id", .str keys.publicKeyB64),
          ("recipient_id", .str recipientId), ("ciphertext", .str ciphertext),
          ("edited_at", .num editedAt)]⟩, answer)]) :=
    own.edit keyed rfl rfl rfl rfl fun row there key _ => written row there key
  dsimp only
  split
  · exact ends_mark fun now => Beside.shows_ret (edited.stays now (by simp))
  · exact Beside.shows_ret edited

theorem editDirect_carried (req : HttpRequest) :
    Ends (messageAt id) (editDirect sodium keys req) found [] fun _ => Carried id := by
  unfold editDirect
  apply ends_authed carried_nil
  repeat' split
  all_goals try exact Beside.shows_ret carried_nil
  next messageId _ _ plaintext _ =>
  apply ends_getMessage
  intro answer same
  cases answer with
  | none => exact Beside.shows_ret carried_nil
  | some msg =>
      dsimp only
      split
      · exact Beside.shows_ret carried_nil
      next mine =>
      have own := own_read same (not_not.mp mine)
      apply ends_encrypt
      · exact Beside.shows_ret carried_nil
      intro ciphertext clean
      refine ends_draw (fun _ _ => rfl) fun drawn _ _ => ?_
      apply ends_update
      intro now done
      split
      · exact Beside.shows_ret carried_nil
      have unsent : ∀ row, found = some row → addressed messageId none row = true →
          ∀ exchange ∈ ([] : Sent), exchange.1.body.s? "recipient_id" ≠ some row.recipientId :=
        fun _ _ _ _ member => absurd member List.not_mem_nil
      refine Beside.shows_seq (deliverMessageEdit_own (own.rewritten now unsent)
        fun row there key => ?_) fun _ after own => ends_notified own.carried
      exact marked_edit clean.1 there (by simp [addressed, key])

/-- Nothing was sent yet to those whose turn is to come. -/
structure Ahead (keys : KeyPair) (messageId id : Str) (rest : List GroupMember)
    (after : Option Message × Sent) : Prop where
  own : Own keys messageId id after
  unsent : ∀ exchange ∈ after.2, ∀ m ∈ rest,
    exchange.1.body.s? "recipient_id" ≠ some m.memberId

theorem editAtMember_ahead {groupId plaintext : Str} {editedAt : Int} {m : GroupMember}
    {rest : List GroupMember} (distinct : ∀ other ∈ rest, other.memberId ≠ m.memberId)
    (ahead : Ahead keys messageId id (m :: rest) (found, sent)) :
    Ends (messageAt id) (editAtMember sodium keys messageId groupId plaintext editedAt m) found sent
      fun _ => Ahead keys messageId id rest := by
  have waiting : ∀ exchange ∈ sent, ∀ other ∈ rest,
      exchange.1.body.s? "recipient_id" ≠ some other.memberId := fun exchange member other among =>
    ahead.unsent exchange member other (List.mem_cons_of_mem m among)
  unfold editAtMember
  split
  · exact Beside.shows_ret ⟨ahead.own, waiting⟩
  apply ends_encrypt
  · exact Beside.shows_ret ⟨ahead.own, waiting⟩
  intro ciphertext clean
  have whole := cstr_of_clean clean.2
  apply ends_update
  intro now done
  have unsent : ∀ row, found = some row → addressed messageId (some m.memberId) row = true →
      ∀ exchange ∈ sent, exchange.1.body.s? "recipient_id" ≠ some row.recipientId := by
    intro row there hit exchange member
    simp only [addressed, whole, Bool.and_eq_true, decide_eq_true_eq] at hit
    rw [hit.2]
    exact ahead.unsent exchange member m List.mem_cons_self
  apply ends_memberAddress
  intro address
  split
  · exact Beside.shows_ret ⟨ahead.own.rewritten now unsent, waiting⟩
  apply ends_keyed
  intro keyed
  apply ends_send
  intro answer
  have edited : Own keys messageId id (marked now messageId (some m.memberId)
      (.edit plaintext ciphertext editedAt) found, sent ++ [(⟨address, .acceptEdit,
        .obj [("message_id", .str messageId), ("sender_id", .str keys.publicKeyB64),
          ("recipient_id", .str m.memberId), ("group_id", .str groupId),
          ("ciphertext", .str ciphertext), ("edited_at", .num editedAt)]⟩, answer)]) := by
    refine (ahead.own.rewritten now unsent).edit keyed rfl rfl rfl rfl fun row there key party => ?_
    have same : row.recipientId = m.memberId := (Option.some.inj party).symm
    exact marked_edit clean.1 there (by simp [addressed, key, whole, same])
  have later : ∀ exchange ∈ sent ++ [(⟨address, .acceptEdit,
      .obj [("message_id", .str messageId), ("sender_id", .str keys.publicKeyB64),
        ("recipient_id", .str m.memberId), ("group_id", .str groupId),
        ("ciphertext", .str ciphertext), ("edited_at", .num editedAt)]⟩, answer)],
      ∀ other ∈ rest, exchange.1.body.s? "recipient_id" ≠ some other.memberId := by
    intro exchange member other among
    rcases List.mem_append.mp member with earlier | new
    · exact waiting exchange earlier other among
    · rw [List.mem_singleton.mp new]
      exact fun same => distinct other among (Option.some.inj same).symm
  split
  · exact ends_update fun now _ => Beside.shows_ret ⟨edited.stays now (by simp), later⟩
  · exact Beside.shows_ret ⟨edited, later⟩

theorem groupEdit_carried (req : HttpRequest) (group : PathId) :
    Ends (messageAt id) (groupEdit sodium keys req group) found [] fun _ => Carried id := by
  unfold groupEdit
  apply ends_authed carried_nil
  repeat' split
  all_goals try exact Beside.shows_ret carried_nil
  next messageId _ _ plaintext _ =>
  apply ends_getMessage
  intro answer same
  cases answer with
  | none => exact Beside.shows_ret carried_nil
  | some msg =>
      dsimp only
      split
      · exact Beside.shows_ret carried_nil
      split
      · exact Beside.shows_ret carried_nil
      next mine =>
      have own := own_read same (not_not.mp mine)
      refine ends_read (fun _ _ => rfl) fun now store _ => ?_
      split
      · exact Beside.shows_ret carried_nil
      refine ends_draw (fun _ _ => rfl) fun drawn _ _ => ?_
      have distinct := groupMembersOf_nodup group.text store.groupMembers
      refine Beside.shows_seq (Beside.shows_forM (fun rest after =>
        (rest.map (·.memberId)).Nodup ∧ Ahead keys messageId id rest after) ?_
        ⟨distinct, own, fun _ member => absurd member List.not_mem_nil⟩)
        fun _ after ⟨_, ahead⟩ => ends_notified ahead.own.carried
      rintro m rest ⟨found, sent⟩ ⟨apart, ahead⟩
      rw [List.map_cons, List.nodup_cons] at apart
      refine Beside.shows_mono (editAtMember_ahead (fun other among same => ?_) ahead)
        fun _ _ ahead => ⟨apart.2, ahead⟩
      exact apart.1 (same ▸ List.mem_map_of_mem among)

/-- Whatever is sent first for a message tells what its row tells in the end. -/
theorem program_carried (route : Route) :
    Ends (messageAt id) (program sodium keys route) found [] fun _ => Carried id := by
  cases route with
  | message req => exact Beside.shows_mono (sendDirect_sound req) fun _ _ sound => sound.1
  | edit req => exact editDirect_carried req
  | delete req => exact deleteDirect_carried req
  | groupMessage req group =>
      exact Beside.shows_mono (groupSend_sound req group) fun _ _ sound => sound.1
  | groupEdit req group => exact groupEdit_carried req group
  | groupDelete req group => exact groupDelete_carried req group

end Sender

/-! Group updates. -/
section Updates
variable {place : Str × Str} {found : Option GroupUpdate} {sent : Sent}

/-- The update that is stored for a member of a group. -/
abbrev updateAt (place : Str × Str) (store : Store) : Option GroupUpdate :=
  store.groupUpdates.find place

theorem retryGroupUpdate_sends (u : GroupUpdate) :
    Ends (fun _ => ()) (retryGroupUpdate u) () [] fun _ after => ∀ exchange ∈ after.2,
      exchange.1.endpoint = .acceptGroupUpdate ∧ exchange.1.body = u.snapshotJson := by
  refine exchange_ends (fun sent => ?_) (fun request => request.endpoint = .acceptGroupUpdate ∧
    request.body = u.snapshotJson) fun _ => ⟨rfl, rfl⟩
  change Ends _ (call (.markGroupUpdateAccepted u.groupId u.memberId) >>= Program.ret) () sent _
  exact ends_call fun _ _ _ => Beside.shows_ret rfl

theorem repeats_of_snapshot {first : Request} {u : GroupUpdate}
    (kind : first.endpoint = .acceptGroupUpdate) (body : u.snapshotJson = first.body) :
    Repeats (retryGroupUpdate u) first := by
  intro store done after ran exchange member
  obtain ⟨same, again⟩ := Beside.runs_show (retryGroupUpdate_sends u) ran exchange member
  refine ⟨same.trans kind.symm, fun sodium keys drawn desk => ?_⟩
  rw [serve, serve, same, kind, again, body]

/-- All members are sent the same snapshot, and once it is stored for one it stays. -/
structure Told (snapshotJson : Json) (stored : Prop) (after : Option GroupUpdate × Sent) :
    Prop where
  requests : ∀ exchange ∈ after.2,
    exchange.1.endpoint = .acceptGroupUpdate ∧ exchange.1.body = snapshotJson
  row : stored → ∀ u, after.1 = some u → u.snapshotJson = snapshotJson

theorem marked_update (now : Int) {groupId memberId : Str} {u : GroupUpdate}
    (there : onGroupUpdate now place (.markGroupUpdateAccepted groupId memberId) found = some u) :
    ∃ old, found = some old ∧ u.snapshotJson = old.snapshotJson := by
  dsimp only [onGroupUpdate] at there
  split at there
  · obtain ⟨old, known, rfl⟩ := Option.map_eq_some_iff.mp there
    exact ⟨old, known, rfl⟩
  · exact ⟨u, there, rfl⟩

theorem Told.mono {snapshotJson : Json} {weak strong : Prop} {after : Option GroupUpdate × Sent}
    (told : Told snapshotJson weak after) (implies : strong → weak) :
    Told snapshotJson strong after :=
  ⟨told.requests, fun holds => told.row (implies holds)⟩

theorem pushGroupUpdate_told {groupId senderId : Str} {version : Int} {snapshotJson : Json}
    {online : Bool} {m : GroupMember} {stored : Prop}
    (told : Told snapshotJson stored (found, sent)) :
    Ends (updateAt place) (pushGroupUpdate groupId senderId version snapshotJson online m) found sent
      fun _ => Told snapshotJson
        (stored ∨ m.memberId ≠ senderId ∧ (cstr groupId, cstr m.memberId) = place) := by
  unfold pushGroupUpdate
  split
  · next self =>
    refine Beside.shows_ret ⟨told.requests, ?_⟩
    rintro (earlier | ⟨other, _⟩)
    · exact told.row earlier
    · exact absurd self other
  apply ends_call
  rintro now store rfl
  rw [updateAt, groupUpdates_exec]
  have put : Told snapshotJson
      (stored ∨ m.memberId ≠ senderId ∧ (cstr groupId, cstr m.memberId) = place)
      (onGroupUpdate now place (.upsertGroupUpdate ⟨groupId, m.memberId, snapshotJson, version, 0, 0⟩)
        (updateAt place store), sent) := by
    refine ⟨told.requests, fun there u found => ?_⟩
    dsimp only [onGroupUpdate] at found
    by_cases here : (cstr groupId, cstr m.memberId) = place
    · rw [if_pos here] at found
      cases old : updateAt place store with
      | none =>
          rw [old] at found
          cases found
          rfl
      | some row =>
          rw [old] at found
          cases found
          rfl
    · rw [if_neg here] at found
      rcases there with earlier | ⟨_, same⟩
      · exact told.row earlier u found
      · exact absurd same here
  dsimp only
  split
  · exact Beside.shows_ret put
  apply ends_send
  intro answer
  have told : ∀ exchange ∈ sent ++ [(⟨cutServerAddress m.serverAddress, .acceptGroupUpdate,
      snapshotJson⟩, answer)],
      exchange.1.endpoint = .acceptGroupUpdate ∧ exchange.1.body = snapshotJson := by
    intro exchange member
    rcases List.mem_append.mp member with earlier | new
    · exact told.requests exchange earlier
    · rw [List.mem_singleton.mp new]
      exact ⟨rfl, rfl⟩
  split
  · apply ends_call
    intro later again look
    rw [updateAt, groupUpdates_exec, ← updateAt, look]
    refine Beside.shows_ret ⟨told, fun there u found => ?_⟩
    obtain ⟨old, known, same⟩ := marked_update later found
    exact same.trans (put.row there old known)
  · exact Beside.shows_ret ⟨told, put.row⟩

theorem deliverGroupUpdate_told {groupId senderId : Str} {members : List GroupMember}
    {version : Int} :
    Ends (updateAt place) (deliverGroupUpdate groupId senderId members version) found []
      fun _ after => ∃ snapshotJson, Told snapshotJson (∃ m ∈ members, m.memberId ≠ senderId ∧
        (cstr groupId, cstr m.memberId) = place) after := by
  unfold deliverGroupUpdate
  refine ends_read (fun _ _ => rfl) fun now store _ => ?_
  -- Told to the members whose turn has been.
  refine Beside.shows_mono (Beside.shows_foldlM (fun rest _ => Told
    (snapshot groupId senderId version ((Call.getGroup groupId).exec now store).1 members)
    (∃ m ∈ members, m ∉ rest ∧ m.memberId ≠ senderId ∧ (cstr groupId, cstr m.memberId) = place))
    ?_ ⟨fun _ member => absurd member List.not_mem_nil, ?_⟩) fun _ after told => ⟨_, told.mono ?_⟩
  · rintro m rest online ⟨found, sent⟩ told
    refine Beside.shows_mono (pushGroupUpdate_told told) fun _ after pushed => pushed.mono ?_
    rintro ⟨other, member, gone, concerned⟩
    by_cases same : other = m
    · rw [← same]
      exact .inr concerned
    · exact .inl ⟨other, member, fun here => (List.mem_cons.mp here).elim same gone,
        concerned⟩
  · rintro ⟨m, member, gone, _⟩
    exact absurd member gone
  · rintro ⟨m, member, concerned⟩
    exact ⟨m, member, List.not_mem_nil, concerned⟩

end Updates

/-- For every item, what the worker sends when it finds the row as the first attempt left it is
like the first request: a node that gets it answers the same and is left with the same tables. -/
theorem retry_like_first (sodium : Sodium) (keys : KeyPair) :
    (∀ (route : Route) (id : Str) before response after,
      RunsBeside (messageAt id) (program sodium keys route) ⟨before, []⟩ response after →
      ∀ exchange ∈ after.sent, exchange.1.body.s? "message_id" = some id →
      ∀ row, messageAt id after.store = some row →
        exchange.1.body.s? "recipient_id" = some row.recipientId →
        Repeats (retry row exchange.1.endpoint) exchange.1) ∧
    ∀ (groupId senderId : Str) (members : List GroupMember) (version : Int), ∀ m ∈ members,
      m.memberId ≠ senderId → ∀ before online after,
      RunsBeside (updateAt (cstr groupId, cstr m.memberId))
        (deliverGroupUpdate groupId senderId members version) ⟨before, []⟩ online after →
      ∀ exchange ∈ after.sent, ∀ u,
        updateAt (cstr groupId, cstr m.memberId) after.store = some u →
        Repeats (retryGroupUpdate u) exchange.1 := by
  constructor
  · intro route id before response after ran exchange member named row there party
    have carried := Beside.runs_show (program_carried route) ran
    exact repeats_of_carries (carried exchange member named row there party)
  · intro groupId senderId members version m among other before online after ran exchange member u there
    obtain ⟨snapshotJson, told⟩ := Beside.runs_show deliverGroupUpdate_told ran
    obtain ⟨kind, body⟩ := told.requests exchange member
    have stored := told.row ⟨m, among, other, rfl⟩ u there
    exact repeats_of_snapshot kind (stored.trans body.symm)

section Runs

def letter : Route :=
  .message (userRequest [("recipient_id", .str (pair.id false)), ("text", .str (str "hi"))])

/-- Nobody answers. -/
def offline : List (Input × Option Response) := List.replicate 20 (clockAt 0, none)

/-- A letter is sent in vain and will be sent again. -/
theorem letter_repeated : ∃ (row : Message) (first : Request), first.endpoint = .acceptMessage ∧
    first.body.s? "message_id" = some firstId ∧ Repeats (retry row first.endpoint) first := by
  have ran : ((program .transparent (pair.keys true) letter).exec act offline
      ⟨acquainted true, []⟩).any (fun done =>
        (messageAt firstId done.2.store).map (·.recipientId) = some (pair.id false) &&
        done.2.sent.map (fun exchange => (exchange.1.endpoint,
          exchange.1.body.s? "message_id", exchange.1.body.s? "recipient_id")) =
            [(.acceptMessage, some firstId, some (pair.id false))]) = true := by
    decide +kernel
  obtain ⟨⟨response, after⟩, executed, facts⟩ := (Option.any_eq_true _ _).mp ran
  simp only [Bool.and_eq_true, decide_eq_true_eq] at facts
  obtain ⟨stored, requests⟩ := facts
  obtain ⟨row, there, recipient⟩ := Option.map_eq_some_iff.mp stored
  obtain ⟨exchange, alone, told⟩ := List.map_eq_singleton_iff.mp requests
  simp only [Prod.mk.injEq] at told
  have member : exchange ∈ after.sent := by simp [alone]
  refine ⟨row, exchange.1, told.1, told.2.1, ?_⟩
  refine (retry_like_first .transparent (pair.keys true)).1 letter firstId _ response after
    (Beside.runs_alone (Program.exec_runs act _ _ _ _ _ executed)) exchange member told.2.1 row there ?_
  rw [told.2.2, recipient]

end Runs

end NoMiddle.Retries
