import NoMiddle.MessageConduct

/-! The worker's pass keeps to its node's conduct. Its lists are filled before any
item of them is worked on, so each loop carries what is still to be used. -/
namespace NoMiddle.RetryConduct
open Library Text Crypto DbManager Node MessageDelivery RetryWorker Conduct Footprint
open Network MessageConduct

variable (sodium : Sodium) (keys : KeyPair)

theorem retryDeliverMessage_own {msg : Message} {history : Trace} (clean : Clean msg.messageId)
    (held : messageCustody.held msg.messageId history = some msg) :
    (retryDeliverMessage msg).wp (own sodium keys).contract
      (fun done after => Keeps (fun id => done = true ∧ id = msg.messageId) history after)
      history := by
  refine wp_perform trivial fun address _ => ?_
  have asked : ∀ touched, Keeps touched history
      (⟨.inl (.call (.getContactAddress msg.recipientId)), address⟩ :: history) :=
    fun touched => (Keeps.refl touched history).read _ _
  split
  · exact asked _
  have carries : CarriesMessage (.obj [("message_id", .str msg.messageId),
      ("sender_id", .str msg.senderId), ("recipient_id", .str msg.recipientId),
      ("group_id", .str msg.groupId), ("ciphertext", .str msg.ciphertext),
      ("timestamp", .num msg.timestamp)]) msg := ⟨rfl, rfl, rfl, rfl, rfl, rfl⟩
  refine wp_send ⟨msg, held, clean, carries⟩ fun answer => ?_
  dsimp only
  split
  · next ok =>
    obtain ⟨response, rfl, code⟩ := (delivered_iff answer).mp ok
    refine wp_mark ⟨msg, held, rfl, clean, rfl, _, response, _, rfl, code, rfl, carries⟩
      fun _ _ => ?_
    refine ((asked _).sent _ _).cons (fun _ => rfl) (fun id gives => ?_) (fun _ => rfl)
    simp [givesMessage, cstr_of_clean clean] at gives
    exact ⟨ok, gives.symm⟩
  · exact (asked _).sent _ _

theorem retryPendingMessage_own {currentTime : Int} {msg : Message} {history : Trace}
    (clean : Clean msg.messageId) (pending : msg.accepted = messagePending)
    (held : messageCustody.held msg.messageId history = some msg) :
    (retryPendingMessage currentTime msg).wp (own sodium keys).contract
      (fun _ after => Keeps (· = msg.messageId) history after) history := by
  refine Program.wp_seq (own sodium keys).contract_monotone _ _ _
    (retryDeliverMessage_own sodium keys clean held) fun delivered after keeps => ?_
  cases delivered with
  | true => exact keeps.mono fun id touched => touched.2
  | false =>
      have still : messageCustody.held (cstr msg.messageId) after = some msg := by
        rw [cstr_of_clean clean, keeps.message _ (by simp), held]
      have later : Keeps (· = msg.messageId) history after :=
        keeps.mono fun id touched => touched.2
      simp only [Bool.not_false, ↓reduceIte]
      split
      · refine ⟨⟨msg, still, pending⟩, fun _ _ => later.cons (fun _ => rfl) (fun id gives => ?_)
          fun _ => rfl⟩
        simp [givesMessage, cstr_of_clean clean] at gives
        exact gives.symm
      · exact later

theorem retryMessageEdit_own {msg : Message} {history : Trace} (clean : Clean msg.messageId)
    (held : editCustody.held msg.messageId history = some (msg.ciphertext, msg.editedAt))
    (listed : Listed history .pendingEdits msg) :
    (retryMessageEdit msg).wp (own sodium keys).contract
      (fun _ after => Keeps (fun _ => False) history after) history := by
  refine wp_perform trivial fun address _ => ?_
  have asked : Keeps (fun _ => False) history
      (⟨.inl (.call (.getContactAddress msg.recipientId)), address⟩ :: history) :=
    (Keeps.refl _ history).read _ _
  have seen : Seen history .pendingEdits msg.messageId msg.senderId msg.recipientId :=
    ⟨msg, (cstr_of_clean clean).symm, rfl, .inr listed, .inl rfl⟩
  have holding : ∀ after, Keeps (fun _ => False) history after →
      editCustody.held (cstr msg.messageId) after = some (msg.ciphertext, msg.editedAt) :=
    fun after keeps => by rw [cstr_of_clean clean, keeps.edit, held]
  split
  · exact asked
  have carries : CarriesEdit (.obj [("message_id", .str msg.messageId),
      ("sender_id", .str msg.senderId), ("recipient_id", .str msg.recipientId),
      ("ciphertext", .str msg.ciphertext), ("edited_at", .num msg.editedAt)]) msg.messageId
      msg.senderId msg.recipientId (msg.ciphertext, msg.editedAt) := ⟨rfl, rfl, rfl, rfl, rfl⟩
  refine wp_send ⟨msg.messageId, _, msg.recipientId, _, Seen.cons seen _, holding _ asked, carries⟩
    fun answer => ?_
  dsimp only
  split
  · next ok =>
    obtain ⟨response, rfl, code⟩ := (delivered_iff answer).mp ok
    refine wp_mark ⟨_, _, msg.recipientId, holding _ (asked.sent _ _), _, response, _, rfl, code, rfl,
      carries⟩ fun _ _ => ?_
    exact (asked.sent _ _).cons (fun _ => rfl) (fun _ gives => by simp [givesMessage] at gives)
      fun _ => rfl
  · exact asked.sent _ _

theorem retryPendingEdit_own {currentTime : Int} {msg : Message} {history : Trace}
    (clean : Clean msg.messageId)
    (held : editCustody.held msg.messageId history = some (msg.ciphertext, msg.editedAt))
    (listed : Listed history .pendingEdits msg) :
    (retryPendingEdit currentTime msg).wp (own sodium keys).contract
      (fun _ after => Keeps (fun _ => False) history after) history := by
  refine Program.wp_seq (own sodium keys).contract_monotone _ _ _
    (retryMessageEdit_own sodium keys clean held listed) fun delivered after keeps => ?_
  cases delivered with
  | true => exact keeps
  | false =>
      simp only [Bool.not_false, ↓reduceIte]
      split
      · exact ⟨trivial, fun _ _ => keeps.cons (fun _ => rfl)
          (fun _ gives => by simp [givesMessage] at gives) fun _ => rfl⟩
      · exact keeps

theorem retryMessageDelete_own {msg : Message} {history : Trace} (clean : Clean msg.messageId)
    (listed : Listed history .pendingDeletes msg) :
    (retryMessageDelete msg).wp (own sodium keys).contract
      (fun _ after => Keeps (fun _ => False) history after) history := by
  refine wp_perform trivial fun address _ => ?_
  have asked : Keeps (fun _ => False) history
      (⟨.inl (.call (.getContactAddress msg.recipientId)), address⟩ :: history) :=
    (Keeps.refl _ history).read _ _
  obtain ⟨rows, event, member⟩ := listed
  have listedLater : ∀ after, Keeps (fun _ => False) history after →
      Listed after .pendingDeletes msg :=
    fun after keeps => ⟨rows, keeps.events _ event, member⟩
  split
  · exact asked
  have carries : CarriesDelete (.obj [("message_id", .str msg.messageId),
      ("sender_id", .str msg.senderId), ("recipient_id", .str msg.recipientId)]) msg.messageId
      msg.recipientId := ⟨rfl, rfl⟩
  refine wp_send ⟨msg.messageId, msg.recipientId, carries, .inr ⟨msg, listedLater _ asked, rfl⟩⟩
    fun answer => ?_
  dsimp only
  split
  · next ok =>
    obtain ⟨response, rfl, code⟩ := (delivered_iff answer).mp ok
    refine wp_mark ⟨msg.senderId, msg.recipientId, ?_, ⟨_, response, _, rfl, code, rfl, carries⟩, .inl rfl⟩
      fun _ _ => ?_
    · exact ⟨msg, (cstr_of_clean clean).symm, rfl, .inr (listedLater _ (asked.sent _ _)), .inl rfl⟩
    · exact (asked.sent _ _).cons (fun _ => rfl) (fun _ gives => by simp [givesMessage] at gives)
        fun _ => rfl
  · exact asked.sent _ _

theorem retryPendingDelete_own {currentTime : Int} {msg : Message} {history : Trace}
    (clean : Clean msg.messageId) (listed : Listed history .pendingDeletes msg) :
    (retryPendingDelete currentTime msg).wp (own sodium keys).contract
      (fun _ after => Keeps (fun _ => False) history after) history := by
  refine Program.wp_seq (own sodium keys).contract_monotone _ _ _
    (retryMessageDelete_own sodium keys clean listed) fun delivered after keeps => ?_
  cases delivered with
  | true => exact keeps
  | false =>
      simp only [Bool.not_false, ↓reduceIte]
      split
      · exact ⟨trivial, fun _ _ => keeps.cons (fun _ => rfl)
          (fun _ gives => by simp [givesMessage] at gives) fun _ => rfl⟩
      · exact keeps

theorem retryGroupUpdate_own (u : GroupUpdate) (history : Trace) :
    (retryGroupUpdate u).wp (own sodium keys).contract
      (fun _ after => Keeps (fun _ => False) history after) history := by
  refine wp_perform trivial fun address _ => ?_
  have asked : Keeps (fun _ => False) history
      (⟨.inl (.call (.getContactAddress u.memberId)), address⟩ :: history) :=
    (Keeps.refl _ history).read _ _
  split
  · exact asked
  refine wp_send trivial fun answer => ?_
  dsimp only
  split
  · exact ⟨trivial, fun _ _ => (asked.sent _ _).cons (fun _ => rfl) (fun _ gives => by cases gives)
      fun _ => rfl⟩
  · exact asked.sent _ _

theorem retryPendingGroupUpdate_own (u : GroupUpdate) (history : Trace) :
    (retryPendingGroupUpdate u).wp (own sodium keys).contract
      (fun _ after => Keeps (fun _ => False) history after) history :=
  Program.wp_seq (own sodium keys).contract_monotone _ _ _
    (retryGroupUpdate_own sodium keys u history) fun _ _ keeps => keeps

theorem held_listed {messageId : Str} {rows : List Message} {row : Message}
    (distinct : (rows.map (·.messageId)).Nodup) (member : row ∈ rows)
    (same : row.messageId = messageId) :
    rows.find? (fun other => other.messageId = messageId) = some row := by
  subst same
  induction rows with
  | nil => cases member
  | cons head rest ih =>
      obtain ⟨fresh, distinct⟩ := List.nodup_cons.mp distinct
      rcases List.mem_cons.mp member with rfl | later
      · simp
      · have other : head.messageId ≠ row.messageId :=
          fun same => fresh (List.mem_map.mpr ⟨row, later, same.symm⟩)
        simpa [other] using ih distinct later

/-- The worker's turns over its messages: those to come are in hand, whatever was
done to the ones before. -/
structure ToCome (begun : Trace) (rest : List Message) (after : Trace) : Prop where
  distinct : (rest.map (·.messageId)).Nodup
  clean : ∀ msg ∈ rest, Clean msg.messageId
  pending : ∀ msg ∈ rest, msg.accepted = messagePending
  held : ∀ msg ∈ rest, messageCustody.held msg.messageId after = some msg
  keeps : Keeps (fun _ => True) begun after

theorem ToCome.turn {begun after later : Trace} {msg : Message} {rest : List Message}
    (toCome : ToCome begun (msg :: rest) after) (turn : Keeps (· = msg.messageId) after later) :
    ToCome begun rest later := by
  obtain ⟨fresh, distinct⟩ := List.nodup_cons.mp toCome.distinct
  refine ⟨distinct, fun other member => toCome.clean other (List.mem_cons_of_mem msg member),
    fun other member => toCome.pending other (List.mem_cons_of_mem msg member), ?_,
    toCome.keeps.trans (turn.mono fun _ _ => trivial)⟩
  intro other member
  rw [turn.message other.messageId fun same => fresh (List.mem_map.mpr ⟨other, member, same⟩)]
  exact toCome.held other (List.mem_cons_of_mem msg member)

theorem retryPass_own (history : Trace) :
    retryPass.wp (own sodium keys).contract (fun _ _ => True) history := by
  have monotone := (own sodium keys).contract_monotone
  refine wp_perform trivial fun (messages : List Message) messagesPossible => ?_
  refine wp_perform trivial fun (edits : List Message) editsPossible => ?_
  refine wp_perform trivial fun (updates : List GroupUpdate) _ => ?_
  obtain ⟨distinctMessages, cleanMessages⟩ := messagesPossible
  obtain ⟨distinctEdits, cleanEdits⟩ := editsPossible
  generalize start : (⟨.inl (.call .getPendingGroupUpdates), updates⟩ ::
    ⟨.inl (.call (.getMessages .pendingEdits)), edits⟩ ::
    ⟨.inl (.call (.getMessages .pendingMessages)), messages⟩ :: history : Trace) = listed
  have heldMessage : ∀ row ∈ messages, messageCustody.held row.messageId listed = some row := by
    intro row member
    rw [← start]
    refine (Custody.held_kept _ rfl rfl).trans ((Custody.held_kept _ rfl rfl).trans ?_)
    exact Custody.held_taken history (held_listed distinctMessages member rfl)
  have heldEdit : ∀ row ∈ edits,
      editCustody.held row.messageId listed = some (row.ciphertext, row.editedAt) := by
    intro row member
    rw [← start]
    refine (Custody.held_kept _ rfl rfl).trans (Custody.held_taken _ ?_)
    exact congrArg (Option.map _) (held_listed distinctEdits member rfl)
  have cleanEdit : ∀ row ∈ edits, Clean row.messageId :=
    fun row member => (cleanEdits row member).1 _ (by simp [Message.texts])
  refine Program.wp_seq monotone _ _ _ (Program.wp_forM monotone _
    (fun _ after => Keeps (fun _ => False) listed after)
    (fun u _ after keeps => Program.wp_mono monotone _ (fun _ _ later => keeps.trans later) after
      (retryPendingGroupUpdate_own sodium keys u after)) updates _ (.refl _ _)) fun _ after keeps => ?_
  refine wp_perform trivial fun (deletes : List Message) deletesPossible => ?_
  refine wp_perform trivial fun (currentTime : Int) _ => ?_
  generalize ready : (⟨.inl .time, currentTime⟩ ::
    ⟨.inl (.call (.getMessages .pendingDeletes)), deletes⟩ :: after : Trace) = begun
  have keepsBegun : Keeps (fun _ => False) listed begun := by
    rw [← ready]
    exact (keeps.cons (fun _ => rfl) (fun _ gives => by cases gives) (fun _ => rfl)).cons
      (fun _ => rfl) (fun _ gives => by cases gives) (fun _ => rfl)
  have cleanDelete : ∀ row ∈ deletes, Clean row.messageId :=
    fun row member => (deletesPossible.2 row member).1 _ (by simp [Message.texts])
  have toCome : ToCome begun messages begun :=
    ⟨distinctMessages,
      fun msg member => (cleanMessages msg member).1 _ (by simp [Message.texts]),
      fun msg member => of_decide_eq_true (cleanMessages msg member).2,
      fun msg member => by
        rw [keepsBegun.message _ (fun touched => touched), heldMessage msg member],
      .refl _ _⟩
  refine Program.wp_seq monotone _ _ _ (Program.wp_forM monotone _ (ToCome begun)
    (fun msg rest after toCome => Program.wp_mono monotone _ (fun _ _ => toCome.turn) after
      (retryPendingMessage_own sodium keys (toCome.clean msg List.mem_cons_self)
        (toCome.pending msg List.mem_cons_self)
        (toCome.held msg List.mem_cons_self))) messages _ toCome) fun _ after turned => ?_
  refine Program.wp_seq monotone _ _ _ (Program.wp_forM_mem monotone _ (Keeps (fun _ => True) begun)
    edits (fun msg member after keeps => Program.wp_mono monotone _ (fun _ _ later =>
      keeps.trans (later.mono fun _ no => no.elim)) after
      (retryPendingEdit_own sodium keys (cleanEdit msg member) ?_ ?_)) _ turned.keeps)
    fun _ after keeps => ?_
  · rw [keeps.edit, keepsBegun.edit, heldEdit msg member]
  · exact ⟨edits, keeps.events _ (keepsBegun.events _ (by simp [← start])), member⟩
  refine Program.wp_mono monotone _ (fun _ _ _ => trivial) _ (Program.wp_forM_mem monotone _
    (Keeps (fun _ => True) begun) deletes (fun msg member after keeps =>
      Program.wp_mono monotone _ (fun _ _ later =>
        keeps.trans (later.mono fun _ no => no.elim)) after
      (retryPendingDelete_own sodium keys (cleanDelete msg member) ?_)) _ keeps)
  exact ⟨deletes, keeps.events _ (by simp [← ready]), member⟩

end NoMiddle.RetryConduct
