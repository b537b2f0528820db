import NoMiddle.Footprint
import NoMiddle.Conduct

/-! The routes that send, edit and delete messages keep to their node's conduct.
Each function is checked once, from any history that holds what its caller
promises. -/
namespace NoMiddle.MessageConduct
open Library Text Crypto DbManager Node MessageDelivery Handlers GroupHandlers Conduct Footprint

variable (sodium : Sodium) (keys : KeyPair)

theorem own_harmless (history : Trace) (operation : nodeSig.Op)
    (free : messageFree operation = true) : (own sodium keys).allowed history operation := by
  cases operation using operation_cases with
  | call db => cases db <;> trivial
  | sent request =>
      change ownRequest history request
      unfold ownRequest
      cases endpoint : request.endpoint <;> simp [messageFree, endpoint] at free ⊢
  | _ => trivial

/-- Any program may follow the credential check. -/
theorem wp_authed (req : HttpRequest) (response : Response) {rest : Proc Response}
    {post : Response → Trace → Prop} (refusal : ∀ history, post response history)
    (later : ∀ history, rest.wp (own sodium keys).contract post history) (history : Trace) :
    (do if !(← isAuthed sodium req) then return response
        rest).wp (own sodium keys).contract post history := by
  have checked : (isAuthed sodium req).Only messageFree := by
    unfold isAuthed authenticate
    split
    · trivial
    · exact ⟨rfl, fun found => by cases found <;> trivial⟩
  refine wp_seq_only (own_harmless sodium keys) checked fun authed after => ?_
  cases authed with
  | true => exact later after
  | false => exact refusal after

theorem wp_encrypt (plaintext recipientId : Str) {Value : Type} {rest : Option Str → Proc Value}
    {post : Value → Trace → Prop} {history : Trace}
    (later : ∀ ciphertext, (∀ text, ciphertext = some text →
        Sealed sodium keys plaintext recipientId text) →
      ∀ nonce : Str, (rest ciphertext).wp (own sodium keys).contract post
        (⟨.inl (.randombytes nonceBytes), nonce⟩ :: history)) :
    (encrypt sodium plaintext recipientId keys.privateKeyB64 >>= rest).wp
      (own sodium keys).contract post history :=
  ⟨trivial, fun nonce size => later _ (fun _ sealed => ⟨nonce, size, sealed⟩) nonce⟩

theorem Sealed.clean {plaintext recipientId ciphertext : Str}
    (sealed : Sealed sodium keys plaintext recipientId ciphertext) :
    Clean ciphertext ∧ Clean recipientId := by
  obtain ⟨nonce, _, encrypted⟩ := sealed
  exact encryptMessage_clean encrypted

theorem deliverMessage_own {recipientId ciphertext plaintext : Str} (timestamp : Int)
    (sealed : Sealed sodium keys plaintext recipientId ciphertext) (history : Trace) :
    (deliverMessage keys.publicKeyB64 recipientId ciphertext plaintext timestamp).wp
      (own sodium keys).contract (fun _ _ => True) history := by
  obtain ⟨cleanText, cleanRecipient⟩ := Sealed.clean sodium keys sealed
  refine wp_perform trivial fun dice _ => ?_
  refine wp_perform ⟨⟨dice, List.mem_cons_self, rfl⟩, rfl, fun _ => rfl, by simp [Clean], sealed⟩
    fun (added : Bool) _ => ?_
  cases added with
  | false => trivial
  | true =>
      refine wp_perform trivial fun address _ => ?_
      let copy : Message := ⟨uuidOf dice, keys.publicKeyB64, recipientId, [], cstr plaintext,
        ciphertext, 0, timestamp, 0, 0, 1, 0⟩
      have clean := cstr_of_clean (uuid_clean dice)
      have held : ∀ later, messageCustody.held copy.messageId
          (⟨.inl (.call (.getContactAddress recipientId)), address⟩ ::
            ⟨.inl (.call (.addMessage ⟨uuidOf dice, keys.publicKeyB64, recipientId, [], plaintext,
              ciphertext, 0, timestamp, 0, 0, 1, 0⟩)), true⟩ :: later) = some copy := by
        intro later
        simp [Custody.held, messageCustody, takesMessage, givesMessage, Message.stored, copy, clean,
          cstr_of_clean, cleanText, cleanRecipient]
      have carries : CarriesMessage (.obj [("message_id", .str (uuidOf dice)),
          ("sender_id", .str keys.publicKeyB64), ("recipient_id", .str recipientId),
          ("ciphertext", .str ciphertext), ("timestamp", .num timestamp)]) copy :=
        ⟨rfl, rfl, rfl, rfl, rfl, rfl⟩
      refine wp_send ⟨copy, held _, uuid_clean dice, carries⟩ fun answer => ?_
      split
      · next ok =>
        obtain ⟨response, rfl, code⟩ := (delivered_iff answer).mp ok
        refine ⟨⟨copy, ?_, rfl, uuid_clean dice, rfl, _, response, _, rfl, code, rfl, carries⟩,
          fun _ _ => trivial⟩
        exact (Custody.held_kept _ rfl rfl).trans (held _)
      · trivial

theorem sendDirect_own (req : HttpRequest) :
    (sendDirect sodium keys req).wp (own sodium keys).contract (fun _ _ => True) [] := by
  refine wp_authed sodium keys req _ (fun _ => trivial) (fun history => ?_) []
  repeat' split
  all_goals first
    | trivial
    | refine wp_perform trivial fun timestamp _ => wp_encrypt sodium keys _ _ ?_
  intro ciphertext sealed nonce
  cases ciphertext with
  | none => trivial
  | some ciphertext =>
      refine Program.wp_seq (own sodium keys).contract_monotone _ _ _
        (deliverMessage_own sodium keys timestamp (sealed _ rfl) _) fun messageId after _ => ?_
      cases messageId with
      | none => trivial
      | some messageId => exact ⟨trivial, fun _ _ => trivial⟩

theorem Seen.cons {history : Trace} {query : Query} {messageId senderId recipientId : Str}
    (seen : Seen history query messageId senderId recipientId) (event : Event nodeSig) :
    Seen (event :: history) query messageId senderId recipientId := by
  obtain ⟨row, same, sender, source, recipient⟩ := seen
  refine ⟨row, same, sender, ?_, recipient⟩
  rcases source with read | ⟨rows, listed, member⟩
  · exact .inl (List.mem_cons_of_mem event read)
  · exact .inr ⟨rows, List.mem_cons_of_mem event listed, member⟩

theorem deliverMessageEdit_own {messageId recipientId ciphertext : Str} {editedAt : Int}
    {history : Trace}
    (held : editCustody.held (cstr messageId) history = some (ciphertext, editedAt))
    (seen : Seen history .pendingEdits messageId keys.publicKeyB64 recipientId) :
    (deliverMessageEdit messageId keys.publicKeyB64 recipientId ciphertext editedAt).wp
      (own sodium keys).contract (fun _ _ => True) history := by
  refine wp_perform trivial fun address _ => ?_
  split
  · trivial
  · have carries : CarriesEdit (.obj [("message_id", .str messageId),
        ("sender_id", .str keys.publicKeyB64), ("recipient_id", .str recipientId),
        ("ciphertext", .str ciphertext), ("edited_at", .num editedAt)]) messageId
        keys.publicKeyB64 recipientId (ciphertext, editedAt) := ⟨rfl, rfl, rfl, rfl, rfl⟩
    refine wp_send ⟨messageId, _, recipientId, _, Seen.cons seen _, held, carries⟩ fun answer => ?_
    dsimp only
    split
    · next ok =>
      obtain ⟨response, rfl, code⟩ := (delivered_iff answer).mp ok
      exact ⟨⟨_, _, recipientId, held, _, response, _, rfl, code, rfl, carries⟩,
        fun _ _ => trivial⟩
    · trivial

theorem editDirect_own (req : HttpRequest) :
    (editDirect sodium keys req).wp (own sodium keys).contract (fun _ _ => True) [] := by
  refine wp_authed sodium keys req _ (fun _ => trivial) (fun history => ?_) []
  repeat' split
  all_goals first
    | trivial
    | refine wp_perform trivial fun found possible => ?_
  next messageId _ _ plaintext _ =>
  cases found with
  | none => trivial
  | some msg =>
      dsimp only
      split
      · trivial
      · next mine =>
        have same := (possible msg rfl).1
        refine wp_encrypt sodium keys _ _ fun ciphertext sealed nonce => ?_
        cases ciphertext with
        | none => trivial
        | some ciphertext =>
            have sealedText := sealed _ rfl
            have clean := (Sealed.clean sodium keys sealedText).1
            refine wp_perform trivial fun editedAt _ => ?_
            refine wp_perform ⟨msg.recipientId, ⟨msg, by simp [Read], not_not.mp mine,
              .inl ⟨rfl, rfl⟩⟩, sealedText⟩ fun (updated : Bool) _ => ?_
            cases updated with
            | false => trivial
            | true =>
                refine Program.wp_seq (own sodium keys).contract_monotone _ _ _
                  (deliverMessageEdit_own sodium keys ?_ ?_) fun _ after _ => ?_
                · simp [Custody.held, editCustody, takesEdit, cstr_of_clean clean]
                · exact ⟨msg, same, not_not.mp mine, .inl (by simp [Read]), .inl rfl⟩
                · exact ⟨trivial, fun _ _ => trivial⟩

theorem deliverMessageDelete_own {messageId recipientId : Str} {history : Trace} {done : Bool}
    (deleted : (⟨.inl (.call (.updateMessages messageId none .deleted)), done⟩ : Event nodeSig) ∈
      history)
    (seen : Seen history .pendingDeletes messageId keys.publicKeyB64 recipientId) :
    (deliverMessageDelete messageId keys.publicKeyB64 recipientId).wp
      (own sodium keys).contract (fun _ _ => True) history := by
  refine wp_perform trivial fun address _ => ?_
  split
  · trivial
  · have carries : CarriesDelete (.obj [("message_id", .str messageId),
        ("sender_id", .str keys.publicKeyB64), ("recipient_id", .str recipientId)]) messageId
        recipientId := ⟨rfl, rfl⟩
    refine wp_send ⟨messageId, recipientId, carries, .inl ⟨done, List.mem_cons_of_mem _ deleted⟩⟩
      fun answer => ?_
    dsimp only
    split
    · next ok =>
      obtain ⟨response, rfl, code⟩ := (delivered_iff answer).mp ok
      refine ⟨⟨_, recipientId, Seen.cons (Seen.cons seen _) _, ⟨_, response, _, rfl, code, rfl,
        carries⟩, .inr rfl⟩, fun _ _ => trivial⟩
    · trivial

theorem deleteDirect_own (req : HttpRequest) :
    (deleteDirect sodium keys req).wp (own sodium keys).contract (fun _ _ => True) [] := by
  refine wp_authed sodium keys req _ (fun _ => trivial) (fun history => ?_) []
  repeat' split
  all_goals first
    | trivial
    | refine wp_perform trivial fun found possible => ?_
  next messageId _ =>
  cases found with
  | none => trivial
  | some msg =>
      dsimp only
      split
      · trivial
      · next mine =>
        have same := (possible msg rfl).1
        refine wp_mark ⟨rfl, msg, by simp [Read], not_not.mp mine⟩ fun done _ => ?_
        refine wp_mark ⟨rfl, done, _, rfl⟩ fun pending _ => ?_
        have deleted : (⟨.inl (.call (.updateMessages messageId none .deleted)), done⟩ :
            Event nodeSig) ∈ (⟨.inl (.call (.updateMessages messageId none .deletePending)),
              pending⟩ :: ⟨.inl (.call (.updateMessages messageId none .deleted)), done⟩ ::
              ⟨.inl (.call (.getMessage messageId)), some msg⟩ :: history : Trace) := by simp
        refine Program.wp_seq (own sodium keys).contract_monotone _ _ _
          (deliverMessageDelete_own sodium keys deleted ?_) fun _ after _ => ?_
        · exact ⟨msg, same, not_not.mp mine, .inl (by simp [Read]), .inl rfl⟩
        · exact ⟨trivial, fun _ _ => trivial⟩

/-- What part of a program leaves of the history before it: nothing is forgotten,
edits stay in hand, and messages do unless they are touched. -/
structure Keeps (touched : Str → Prop) (history after : Trace) : Prop where
  events : ∀ event ∈ history, event ∈ after
  message : ∀ id, ¬touched id →
    messageCustody.held id after = messageCustody.held id history
  edit : ∀ id, editCustody.held id after = editCustody.held id history

theorem Keeps.refl (touched : Str → Prop) (history : Trace) : Keeps touched history history :=
  ⟨fun _ member => member, fun _ _ => rfl, fun _ => rfl⟩

theorem Keeps.trans {touched : Str → Prop} {history middle after : Trace}
    (first : Keeps touched history middle) (second : Keeps touched middle after) :
    Keeps touched history after :=
  ⟨fun event member => second.events event (first.events event member),
    fun id clear => (second.message id clear).trans (first.message id clear),
    fun id => (second.edit id).trans (first.edit id)⟩

theorem Keeps.mono {touched wider : Str → Prop} {history after : Trace}
    (implies : ∀ id, touched id → wider id) (keeps : Keeps touched history after) :
    Keeps wider history after :=
  ⟨keeps.events, fun id clear => keeps.message id fun hit => clear (implies id hit), keeps.edit⟩

theorem Keeps.cons {touched : Str → Prop} {history after : Trace}
    (keeps : Keeps touched history after) {event : Event nodeSig}
    (untaken : ∀ id, takesMessage id event = none)
    (given : ∀ id, givesMessage id event = true → touched id)
    (unedited : ∀ id, takesEdit id event = none) : Keeps touched history (event :: after) where
  events other member := List.mem_cons_of_mem event (keeps.events other member)
  message id clear := by
    have kept : givesMessage id event = false :=
      Bool.eq_false_iff.mpr fun gives => clear (given id gives)
    exact (Custody.held_kept after (untaken id) kept).trans (keeps.message id clear)
  edit id := (Custody.held_kept after (unedited id) rfl).trans (keeps.edit id)

theorem Keeps.read {touched : Str → Prop} {history after : Trace}
    (keeps : Keeps touched history after) (contactId address : Str) :
    Keeps touched history (⟨.inl (.call (.getContactAddress contactId)), address⟩ :: after) :=
  keeps.cons (fun _ => rfl) (fun _ gives => by cases gives) (fun _ => rfl)

theorem Keeps.sent {touched : Str → Prop} {history after : Trace}
    (keeps : Keeps touched history after) (request : Request) (answer : Option Response) :
    Keeps touched history (⟨.inr request, answer⟩ :: after) :=
  keeps.cons (fun _ => rfl) (fun _ gives => by cases gives) (fun _ => rfl)

theorem wp_memberAddress {m : GroupMember} {Value : Type} {rest : Str → Proc Value}
    {post : Value → Trace → Prop} {history : Trace}
    (later : ∀ address after, Keeps (fun _ => False) history after →
      (rest address).wp (own sodium keys).contract post after) :
    (memberAddress m >>= rest).wp (own sodium keys).contract post history := by
  unfold memberAddress
  dsimp only
  split
  · exact wp_perform trivial fun address _ =>
      later _ _ ((Keeps.refl _ history).read m.memberId address)
  · exact later _ _ (.refl _ history)

/-- The id of a group message was drawn by this program. -/
def Drawn (messageId : Str) (history : Trace) : Prop :=
  ∃ dice, (⟨.inl .dice, dice⟩ : Event nodeSig) ∈ history ∧ messageId = uuidOf dice

theorem Drawn.keeps {messageId : Str} {touched : Str → Prop} {history after : Trace}
    (drawn : Drawn messageId history) (keeps : Keeps touched history after) :
    Drawn messageId after := by
  obtain ⟨dice, member, same⟩ := drawn
  exact ⟨dice, keeps.events _ member, same⟩

theorem Drawn.cons {messageId : Str} {history : Trace} (drawn : Drawn messageId history)
    (event : Event nodeSig) : Drawn messageId (event :: history) := by
  obtain ⟨dice, member, same⟩ := drawn
  exact ⟨dice, List.mem_cons_of_mem event member, same⟩

theorem sendToMember_own {messageId groupId text : Str} {timestamp : Int} {allOnline : Bool}
    {m : GroupMember} {history : Trace} (clean : Clean groupId) (nonempty : groupId ≠ [])
    (drawn : Drawn messageId history) :
    (sendToMember sodium keys messageId groupId text timestamp allOnline m).wp
      (own sodium keys).contract (fun _ after => Drawn messageId after) history := by
  unfold sendToMember
  split
  · exact drawn
  refine wp_memberAddress sodium keys fun address after keeps => ?_
  replace drawn := drawn.keeps keeps
  refine wp_encrypt sodium keys _ _ fun ciphertext sealed nonce => ?_
  cases ciphertext with
  | none => exact drawn.cons _
  | some ciphertext =>
      have sealedText := sealed _ rfl
      obtain ⟨cleanText, cleanRecipient⟩ := Sealed.clean sodium keys sealedText
      have cleanId : Clean messageId := by
        obtain ⟨dice, _, rfl⟩ := drawn
        exact uuid_clean dice
      refine wp_perform trivial fun (accepted : Int) _ => ?_
      refine wp_perform ⟨(drawn.cons _).cons _, rfl, fun direct => absurd direct nonempty, clean,
        sealedText⟩ fun (added : Bool) _ => ?_
      have drawnLater := ((drawn.cons ⟨.inl (.randombytes nonceBytes), nonce⟩).cons
        ⟨.inl .uninitialised, accepted⟩).cons
      cases added with
      | false => exact drawnLater _
      | true =>
          simp only [Bool.not_true, Bool.false_eq_true, ↓reduceIte]
          split
          · exact drawnLater _
          let copy : Message := ⟨messageId, keys.publicKeyB64, m.memberId, groupId, cstr text,
            ciphertext, accepted, timestamp, 0, 0, 1, 0⟩
          have held : ∀ earlier, messageCustody.held messageId
              (⟨.inl (.call (.addMessage ⟨messageId, keys.publicKeyB64, m.memberId, groupId, text,
                ciphertext, accepted, timestamp, 0, 0, 1, 0⟩)), true⟩ :: earlier) =
              some copy := by
            intro earlier
            simp [Custody.held, messageCustody, takesMessage, Message.stored, copy,
              cstr_of_clean, cleanText, cleanRecipient, clean, cleanId]
          have carries : CarriesMessage (.obj [("message_id", .str messageId),
              ("sender_id", .str keys.publicKeyB64), ("recipient_id", .str m.memberId),
              ("group_id", .str groupId), ("ciphertext", .str ciphertext),
              ("timestamp", .num timestamp)]) copy := ⟨rfl, rfl, rfl, rfl, rfl, rfl⟩
          refine wp_send ⟨copy, held _, cleanId, carries⟩ fun answer => ?_
          dsimp only
          split
          · next ok =>
            obtain ⟨response, rfl, code⟩ := (delivered_iff answer).mp ok
            refine wp_mark ⟨copy, ?_, rfl, cleanId, rfl, _, response, _, rfl, code, rfl, carries⟩
              fun _ _ => ((drawnLater _).cons _).cons _
            exact (Custody.held_kept _ rfl rfl).trans (held _)
          · exact (drawnLater _).cons _

theorem groupSend_own (req : HttpRequest) (group : PathId) :
    (groupSend sodium keys req group).wp (own sodium keys).contract (fun _ _ => True) [] := by
  refine wp_authed sodium keys req _ (fun _ => trivial) (fun history => ?_) []
  repeat' split
  all_goals first
    | trivial
    | refine wp_perform trivial fun timestamp _ => wp_perform trivial fun dice _ =>
        wp_perform trivial fun members _ => ?_
  dsimp only
  split
  · trivial
  · refine Program.wp_seq (own sodium keys).contract_monotone _ _ _
      (Program.wp_foldlM (own sodium keys).contract_monotone _
        (fun _ _ after => Drawn (uuidOf dice) after)
        (fun m _ allOnline after drawn =>
          sendToMember_own sodium keys group.clean group.nonempty drawn) members true _ ?_)
      fun _ _ _ => trivial
    exact ⟨dice, by simp, rfl⟩

/-- The program has read the message and found it to be a group message of its own node. -/
def OwnInGroup (messageId : Str) (history : Trace) : Prop :=
  ∃ row, Read history messageId row ∧ row.messageId = cstr messageId ∧
    row.senderId = keys.publicKeyB64 ∧ row.groupId ≠ []

variable {keys}

theorem OwnInGroup.keeps {messageId : Str} {touched : Str → Prop} {history after : Trace}
    (own : OwnInGroup keys messageId history) (keeps : Keeps touched history after) :
    OwnInGroup keys messageId after := by
  obtain ⟨row, read, rest⟩ := own
  exact ⟨row, keeps.events _ read, rest⟩

theorem OwnInGroup.cons {messageId : Str} {history : Trace}
    (own : OwnInGroup keys messageId history) (event : Event nodeSig) :
    OwnInGroup keys messageId (event :: history) := by
  obtain ⟨row, read, rest⟩ := own
  exact ⟨row, List.mem_cons_of_mem event read, rest⟩

theorem OwnInGroup.seen {messageId : Str} {history : Trace}
    (own : OwnInGroup keys messageId history) (query : Query) (recipientId : Str) :
    Seen history query messageId keys.publicKeyB64 recipientId := by
  obtain ⟨row, read, same, sender, group⟩ := own
  exact ⟨row, same, sender, .inl read, .inr group⟩

variable (keys)

theorem editAtMember_own {messageId groupId plaintext : Str} {editedAt : Int} {m : GroupMember}
    {history : Trace} (mine : OwnInGroup keys messageId history) :
    (editAtMember sodium keys messageId groupId plaintext editedAt m).wp
      (own sodium keys).contract (fun _ after => OwnInGroup keys messageId after) history := by
  unfold editAtMember
  split
  · exact mine
  refine wp_encrypt sodium keys _ _ fun ciphertext sealed nonce => ?_
  replace mine := mine.cons ⟨.inl (.randombytes nonceBytes), nonce⟩
  cases ciphertext with
  | none => exact mine
  | some ciphertext =>
      have sealedText := sealed _ rfl
      have clean := (Sealed.clean sodium keys sealedText).1
      have mayEdit : MayEdit keys (⟨.inl (.randombytes nonceBytes), nonce⟩ :: history) messageId
          (some m.memberId) m.memberId := by
        obtain ⟨row, read, _, sender, group⟩ := mine
        exact ⟨row, read, sender, .inr group⟩
      refine wp_perform ⟨m.memberId, mayEdit, sealedText⟩ fun updated _ => ?_
      have editing := mine.cons ⟨.inl (.call (.updateMessages messageId (some m.memberId)
        (.edit plaintext ciphertext editedAt))), updated⟩
      refine wp_memberAddress sodium keys fun address after keeps => ?_
      have held : editCustody.held (cstr messageId) after = some (ciphertext, editedAt) := by
        rw [keeps.edit]
        simp [Custody.held, editCustody, takesEdit, cstr_of_clean clean]
      split
      · exact editing.keeps keeps
      have carries : CarriesEdit (.obj [("message_id", .str messageId),
          ("sender_id", .str keys.publicKeyB64), ("recipient_id", .str m.memberId),
          ("group_id", .str groupId), ("ciphertext", .str ciphertext),
          ("edited_at", .num editedAt)]) messageId keys.publicKeyB64 m.memberId
          (ciphertext, editedAt) := ⟨rfl, rfl, rfl, rfl, rfl⟩
      refine wp_send ⟨messageId, _, m.memberId, _, (editing.keeps keeps).seen _ _, held, carries⟩
        fun answer => ?_
      dsimp only
      split
      · next ok =>
        obtain ⟨response, rfl, code⟩ := (delivered_iff answer).mp ok
        exact ⟨⟨_, _, m.memberId, held, _, response, _, rfl, code, rfl, carries⟩,
          fun _ _ => ((editing.keeps keeps).cons _).cons _⟩
      · exact (editing.keeps keeps).cons _

theorem groupEdit_own (req : HttpRequest) (group : PathId) :
    (groupEdit sodium keys req group).wp (own sodium keys).contract (fun _ _ => True) [] := by
  refine wp_authed sodium keys req _ (fun _ => trivial) (fun history => ?_) []
  repeat' split
  all_goals first
    | trivial
    | refine wp_perform trivial fun found possible => ?_
  next messageId _ _ plaintext _ =>
  cases found with
  | none => trivial
  | some msg =>
      dsimp only
      split
      · trivial
      next inGroup =>
      split
      · trivial
      next sender =>
      have mine : OwnInGroup keys messageId
          (⟨.inl (.call (.getMessage messageId)), some msg⟩ :: history) :=
        ⟨msg, by simp [Read], (possible msg rfl).1, not_not.mp sender,
          not_not.mp inGroup ▸ group.nonempty⟩
      refine wp_perform trivial fun members _ => ?_
      dsimp only
      split
      · trivial
      refine wp_perform trivial fun editedAt _ => ?_
      refine Program.wp_seq (own sodium keys).contract_monotone _ _ _
        (Program.wp_forM (own sodium keys).contract_monotone _
          (fun _ after => OwnInGroup keys messageId after)
          (fun m _ after mine => editAtMember_own sodium keys mine) members _
          ((mine.cons _).cons _)) fun _ _ _ => ⟨trivial, fun _ _ => trivial⟩

/-- The program has marked the message deleted, and it is a group message of its node. -/
def DeletedInGroup (messageId : Str) (history : Trace) : Prop :=
  OwnInGroup keys messageId history ∧ ∃ done,
    (⟨.inl (.call (.updateMessages messageId none .deleted)), done⟩ : Event nodeSig) ∈ history

variable {keys}

theorem DeletedInGroup.cons {messageId : Str} {history : Trace}
    (deleted : DeletedInGroup keys messageId history) (event : Event nodeSig) :
    DeletedInGroup keys messageId (event :: history) := by
  obtain ⟨mine, done, member⟩ := deleted
  exact ⟨mine.cons event, done, List.mem_cons_of_mem event member⟩

theorem DeletedInGroup.keeps {messageId : Str} {touched : Str → Prop} {history after : Trace}
    (deleted : DeletedInGroup keys messageId history) (keeps : Keeps touched history after) :
    DeletedInGroup keys messageId after := by
  obtain ⟨mine, done, member⟩ := deleted
  exact ⟨mine.keeps keeps, done, keeps.events _ member⟩

variable (keys)

theorem deleteAtMember_own {messageId groupId : Str} {m : GroupMember} {history : Trace}
    (deleted : DeletedInGroup keys messageId history) :
    (deleteAtMember keys messageId groupId m).wp (own sodium keys).contract
      (fun _ after => DeletedInGroup keys messageId after) history := by
  unfold deleteAtMember
  split
  · exact deleted
  refine wp_memberAddress sodium keys fun address after keeps => ?_
  replace deleted := deleted.keeps keeps
  split
  · exact deleted
  have carries : CarriesDelete (.obj [("message_id", .str messageId),
      ("sender_id", .str keys.publicKeyB64), ("recipient_id", .str m.memberId),
      ("group_id", .str groupId)]) messageId m.memberId := ⟨rfl, rfl⟩
  refine wp_send ⟨messageId, m.memberId, carries, .inl deleted.2⟩ fun answer => ?_
  dsimp only
  split
  · next ok =>
    obtain ⟨response, rfl, code⟩ := (delivered_iff answer).mp ok
    exact ⟨⟨_, m.memberId, (deleted.cons _).1.seen _ _, ⟨_, response, _, rfl, code, rfl, carries⟩,
      .inl rfl⟩, fun _ _ => (deleted.cons _).cons _⟩
  · exact deleted.cons _

theorem groupDelete_own (req : HttpRequest) (group : PathId) :
    (groupDelete sodium keys req group).wp (own sodium keys).contract (fun _ _ => True) [] := by
  refine wp_authed sodium keys req _ (fun _ => trivial) (fun history => ?_) []
  repeat' split
  all_goals first
    | trivial
    | refine wp_perform trivial fun found possible => ?_
  next messageId _ =>
  cases found with
  | none => trivial
  | some msg =>
      dsimp only
      split
      · trivial
      next inGroup =>
      split
      · trivial
      next sender =>
      have mine : OwnInGroup keys messageId
          (⟨.inl (.call (.getMessage messageId)), some msg⟩ :: history) :=
        ⟨msg, by simp [Read], (possible msg rfl).1, not_not.mp sender,
          not_not.mp inGroup ▸ group.nonempty⟩
      refine wp_mark ⟨rfl, msg, by simp [Read], not_not.mp sender⟩ fun done _ => ?_
      have deleted : DeletedInGroup keys messageId _ := ⟨mine.cons _, done, List.mem_cons_self⟩
      refine wp_mark ⟨rfl, done, _, rfl⟩ fun pending _ => ?_
      refine wp_perform trivial fun members _ => ?_
      refine Program.wp_seq (own sodium keys).contract_monotone _ _ _
        (Program.wp_forM (own sodium keys).contract_monotone _
          (fun _ after => DeletedInGroup keys messageId after)
          (fun m _ after deleted => deleteAtMember_own sodium keys deleted) members _
          ((deleted.cons _).cons _)) fun _ _ _ => ⟨trivial, fun _ _ => trivial⟩

end NoMiddle.MessageConduct
