import NoMiddle.FanOut
import NoMiddle.GroupMembership

/-! What an edited group message looks like on the node that edited it. The edit is
stored only in the loop over the members, once for each of them, and each time only if
that member is the recipient of the row. -/
namespace NoMiddle.GroupEdits
open Library Text Crypto DbManager DbViews Node MessageDelivery Handlers GroupHandlers Network Solo
open FanOut (ValidKey addressOf others)

/-- The row shows the text, and that it was edited at this time. -/
def Reads (plaintext : Str) (editedAt : Int) (row : Message) : Prop :=
  row.plaintext = plaintext ∧ row.editedAt = editedAt

variable {sodium : Sodium} {keys : KeyPair}

/-- The edit for this member changes the row. -/
def Hits (keys : KeyPair) (row : Message) (m : GroupMember) : Prop :=
  m.memberId ≠ keys.publicKeyB64 ∧ row.recipientId = cstr m.memberId

variable {messageId groupId plaintext : Str} {editedAt : Int} {row : Message} {desk : Desk}

/-- What became of a row: it has the edit exactly if some member was its recipient. -/
def Turned (keys : KeyPair) (messageId plaintext : Str) (editedAt : Int)
    (members : List GroupMember) (before : Message) (after : Store) : Prop :=
  ∃ row, after.messages.find (cstr messageId) = some row ∧
    row.recipientId = before.recipientId ∧
    ((∃ m ∈ members, Hits keys before m) → Reads (cstr plaintext) editedAt row) ∧
    ((¬∃ m ∈ members, Hits keys before m) → Reads before.plaintext before.editedAt row)

theorem editAtMember_turned {m : GroupMember}
    (found : desk.store.messages.find (cstr messageId) = some row)
    (valid : m.memberId ≠ keys.publicKeyB64 → ValidKey sodium keys m.memberId) :
    (editAtMember sodium keys messageId groupId plaintext editedAt m).wp contract
      (fun _ after => Turned keys messageId plaintext editedAt [m] row after.store) desk := by
  have key := desk.store.messages.find_key found
  unfold editAtMember
  split
  · next self =>
    refine ⟨row, found, rfl, ?_, fun _ => ⟨rfl, rfl⟩⟩
    rintro ⟨other, member, hits⟩
    cases List.mem_singleton.mp member
    exact absurd self hits.1
  next other =>
  apply wp_encrypt
  intro nonce
  have sealed := valid other nonce plaintext
  rcases sealedText : encryptMessage sodium nonce plaintext m.memberId keys.privateKeyB64
    with _ | ciphertext
  · simp [sealedText] at sealed
  dsimp only
  let edit : Mark := .edit plaintext ciphertext editedAt
  apply wp_call
  intro now
  -- The row after the statement, whatever happens to the request.
  let turned : Message := if row.recipientId = cstr m.memberId then edit.set now row else row
  have stored : ((Call.updateMessages messageId (some m.memberId) edit).exec now
      desk.store).2.messages.find (cstr messageId) = some turned := by
    rw [messages_exec, found]
    simp [onMessage, addressed, key, turned]
  have outcome : ∀ (store : Store) (last : Message),
      store.messages.find (cstr messageId) = some last → last.recipientId = turned.recipientId →
      last.plaintext = turned.plaintext → last.editedAt = turned.editedAt →
      Turned keys messageId plaintext editedAt [m] row store := by
    intro store last there recipient text time
    by_cases hit : row.recipientId = cstr m.memberId
    · simp only [turned, hit, ↓reduceIte] at recipient text time
      refine ⟨last, there, recipient, fun _ => ⟨text, time⟩, fun none => ?_⟩
      exact absurd ⟨m, List.mem_singleton.mpr rfl, other, hit⟩ none
    · simp only [turned, hit, ↓reduceIte] at recipient text time
      refine ⟨last, there, recipient, ?_, fun _ => ⟨text, time⟩⟩
      rintro ⟨_, member, hits⟩
      cases List.mem_singleton.mp member
      exact absurd hits.2 hit
  apply FanOut.wp_memberAddress
  split
  · exact outcome _ turned stored rfl rfl rfl
  apply wp_send
  intro answer
  dsimp only
  split
  · intro _ _ marked
    obtain ⟨drawn, ⟨⟩⟩ := marked
    have last := messages_exec drawn.1.now
      ((Call.updateMessages messageId (some m.memberId) edit).exec now desk.store).2
      (.updateMessages messageId (some m.memberId) .editAccepted) (cstr messageId)
    rw [stored] at last
    refine outcome _ _ last ?_ ?_ ?_
    all_goals
      dsimp only
      split <;> rfl
  · exact outcome _ turned stored rfl rfl rfl

theorem Hits.of_recipient {before after : Message} {m : GroupMember}
    (same : after.recipientId = before.recipientId) : Hits keys after m ↔ Hits keys before m := by
  rw [Hits, Hits, same]

theorem Turned.cons {m : GroupMember} {rest : List GroupMember} {middle after : Store}
    (first : Turned keys messageId plaintext editedAt [m] row middle)
    (others : ∀ row, middle.messages.find (cstr messageId) = some row →
      Turned keys messageId plaintext editedAt rest row after) :
    Turned keys messageId plaintext editedAt (m :: rest) row after := by
  obtain ⟨later, there, recipient, hit, missed⟩ := first
  obtain ⟨last, found, same, hits, missing⟩ := others later there
  simp only [Hits.of_recipient recipient] at hits missing
  refine ⟨last, found, same.trans recipient, ?_, ?_⟩
  · rintro ⟨other, member, hitting⟩
    by_cases among : ∃ m ∈ rest, Hits keys row m
    · exact hits among
    · rcases List.mem_cons.mp member with rfl | elsewhere
      · obtain ⟨text, time⟩ := hit ⟨other, List.mem_singleton.mpr rfl, hitting⟩
        obtain ⟨kept, still⟩ := missing among
        exact ⟨kept.trans text, still.trans time⟩
      · exact absurd ⟨other, elsewhere, hitting⟩ among
  · intro none
    obtain ⟨text, time⟩ := missed fun ⟨other, member, hitting⟩ =>
      none ⟨other, List.mem_cons.mpr (.inl (List.mem_singleton.mp member)), hitting⟩
    obtain ⟨kept, still⟩ := missing fun ⟨other, member, hitting⟩ =>
      none ⟨other, List.mem_cons_of_mem _ member, hitting⟩
    exact ⟨kept.trans text, still.trans time⟩

theorem editLoop_turned {members : List GroupMember}
    (found : desk.store.messages.find (cstr messageId) = some row)
    (valid : ∀ m ∈ members, m.memberId ≠ keys.publicKeyB64 → ValidKey sodium keys m.memberId) :
    (members.forM (editAtMember sodium keys messageId groupId plaintext editedAt)).wp contract
      (fun _ after => Turned keys messageId plaintext editedAt members row after.store) desk := by
  induction members generalizing desk row with
  | nil =>
      refine ⟨row, found, rfl, ?_, fun _ => ⟨rfl, rfl⟩⟩
      rintro ⟨_, member, _⟩
      cases member
  | cons m rest ih =>
      have validRest := fun other member => valid other (List.mem_cons_of_mem m member)
      refine Program.wp_seq Solo.monotone _ _ desk
        (editAtMember_turned found (valid m List.mem_cons_self)) fun _ middle first => ?_
      obtain ⟨later, there, _⟩ := id first
      refine Program.wp_mono Solo.monotone _ (fun _ after turned => first.cons ?_) middle
        (ih there validRest)
      intro other same
      cases there.symm.trans same
      exact turned

/-- An answer of 200, with what the loop left. -/
def Answered (keys : KeyPair) (groupId : Str) (before : Store) (response : Response)
    (after : Desk) : Prop :=
  response.code ≠ 200 ∨ ∃ messageId plaintext editedAt row,
    response = ok [("message_id", .str messageId), ("plaintext", .str plaintext),
      ("edited_at", .num editedAt)] ∧
    before.messages.find (cstr messageId) = some row ∧
    Turned keys messageId plaintext editedAt (groupMembersOf groupId before.groupMembers) row
      after.store

theorem groupEdit_answered {req : HttpRequest} {group : PathId} {store : Store}
    (valid : ∀ m ∈ others keys store group.text, ValidKey sodium keys m.memberId) :
    (groupEdit sodium keys req group).wp contract (Answered keys group.text store)
      ⟨store, []⟩ := by
  have refuse : ∀ (response : Response) (after : Desk), response.code ≠ 200 →
      Answered keys group.text store response after :=
    fun _ _ other => .inl other
  unfold groupEdit
  apply wp_authed _ _ _ (refuse _ _ (by decide))
  rcases req.body with _ | data
  · exact refuse _ _ (by decide)
  dsimp only
  rcases data.hasAll? ["message_id", "text"] with _ | _ | _
  · exact refuse _ _ (by decide)
  · exact refuse _ _ (by decide)
  rcases data.s? "message_id" with _ | messageId
  · exact refuse _ _ (by decide)
  rcases data.s? "text" with _ | plaintext
  · exact refuse _ _ (by decide)
  simp only [Bool.not_true, Bool.false_eq_true, ↓reduceIte]
  apply wp_call
  intro now
  cases found : store.messages.find (cstr messageId) with
  | none =>
      rw [show ((Call.getMessage messageId).exec now store).1 = none from found]
      exact refuse _ _ (by decide)
  | some row =>
      rw [show ((Call.getMessage messageId).exec now store).1 = some row from found]
      dsimp only
      split
      · exact refuse _ _ (by decide)
      split
      · exact refuse _ _ (by decide)
      apply wp_call
      intro _
      split
      · exact refuse _ _ (by decide)
      apply wp_time
      intro editedAt
      -- The answer names the row, and the loop says what became of it.
      refine Program.wp_seq Solo.monotone _ _ _ (editLoop_turned found fun m member other => ?_)
        fun _ after turned => wp_perform fun _ => .inr ⟨messageId, plaintext, editedAt, row, rfl,
          found, turned⟩
      exact valid m (List.mem_filter.mpr ⟨member, decide_eq_true other⟩)

/-- The rows of the message, and so what its group shows of it, read like this. -/
structure Visible (groupId messageId plaintext : Str) (editedAt : Int) (messages : Messages) :
    Prop where
  rows : ∀ row ∈ messages.rows, row.messageId = cstr messageId → Reads plaintext editedAt row
  shown : ∀ row ∈ (Query.forGroup groupId).rows messages, row.messageId = cstr messageId →
    Reads plaintext editedAt row

theorem visible_iff {messages : Messages}
    (found : messages.find (cstr messageId) = some row) :
    Visible groupId messageId plaintext editedAt messages ↔ Reads plaintext editedAt row := by
  have key := messages.find_key found
  constructor
  · intro visible
    exact visible.rows row ((messages.mem_rows_iff row).mpr (key ▸ found)) key
  · intro reads
    have all : ∀ other, messages.find other.messageId = some other →
        other.messageId = cstr messageId → Reads plaintext editedAt other := by
      intro other there same
      rw [same, found] at there
      exact Option.some.inj there ▸ reads
    constructor
    · exact fun other member => all other ((messages.mem_rows_iff other).mp member)
    · exact fun other member => all other ((mem_rows _ _ other).mp member).1

theorem hits_iff {store : Store} :
    (∃ m ∈ groupMembersOf groupId store.groupMembers, Hits keys row m) ↔
      ∃ m ∈ others keys store groupId, m.memberId = row.recipientId := by
  have clean : ∀ m ∈ groupMembersOf groupId store.groupMembers, cstr m.memberId = m.memberId := by
    intro m member
    have texts : AllClean m.texts :=
      store.groupMembers.find_valid ((mem_groupMembersOf groupId _ m).mp member).2
    simp only [AllClean, GroupMember.texts, List.forall_mem_cons] at texts
    exact cstr_of_clean texts.2.1
  constructor
  · rintro ⟨m, member, other, same⟩
    exact ⟨m, List.mem_filter.mpr ⟨member, decide_eq_true other⟩, (clean m member ▸ same).symm⟩
  · rintro ⟨m, among, same⟩
    obtain ⟨member, other⟩ := List.mem_filter.mp among
    exact ⟨m, member, of_decide_eq_true other, (clean m member).symm ▸ same.symm⟩

/-- A group edit answered with 200 is to be seen on its own node exactly if its text has
no NUL and the recipient of the message's row is still in the group, unless the row read
like that before. -/
theorem group_edit_visible_iff {req : HttpRequest} {group : PathId} {store : Store} {after : Desk}
    {response : Response}
    (ran : Runs (groupEdit sodium keys req group) ⟨store, []⟩ response after)
    (answered : response.code = 200)
    (valid : ∀ m ∈ others keys store group.text, ValidKey sodium keys m.memberId) :
    ∃ messageId plaintext editedAt row,
      response = ok [("message_id", .str messageId), ("plaintext", .str plaintext),
        ("edited_at", .num editedAt)] ∧
      store.messages.find (cstr messageId) = some row ∧
      (Visible group.text messageId plaintext editedAt after.store.messages ↔
        Clean plaintext ∧ ((∃ m ∈ others keys store group.text, m.memberId = row.recipientId) ∨
          Reads plaintext editedAt row)) := by
  rcases (Program.wp_demonic_iff step _ _ _).mp (groupEdit_answered valid) _ _ ran with
    other | ⟨messageId, plaintext, editedAt, row, form, found, last, there, _, hit, missed⟩
  · exact absurd answered other
  refine ⟨messageId, plaintext, editedAt, row, form, found, ?_⟩
  rw [visible_iff there]
  rw [hits_iff] at hit missed
  have text : AllClean last.texts := after.store.messages.find_valid there
  simp only [AllClean, Message.texts, List.forall_mem_cons] at text
  constructor
  · intro reads
    refine ⟨reads.1 ▸ text.2.2.2.2.1, ?_⟩
    -- Unless a member's turn hits the row, the loop leaves it as it was.
    by_cases member : ∃ m ∈ others keys store group.text, m.memberId = row.recipientId
    · exact .inl member
    · obtain ⟨kept, still⟩ := missed member
      exact .inr ⟨kept.symm.trans reads.1, still.symm.trans reads.2⟩
  · rintro ⟨clean, member | already⟩
    · exact cstr_of_clean clean ▸ hit member
    · by_cases member : ∃ m ∈ others keys store group.text, m.memberId = row.recipientId
      · exact cstr_of_clean clean ▸ hit member
      · obtain ⟨kept, still⟩ := missed member
        exact ⟨kept.trans already.1, still.trans already.2⟩

section Runs
open GroupMembership (founded foundation admission)

def drawn : List (Input × Option Response) := List.replicate 20 (clockAt 7, some ⟨200, .empty⟩)

/-- A group of two is made and one of them writes to it. -/
def meeting : List (Task × List (Input × Option Response)) :=
  [(.groupsCreate foundation, drawn), (.addMember admission founded, drawn),
    (.groupSend (userRequest [("text", .str (str "hi"))]) founded, drawn)]

def parting : List (Task × List (Input × Option Response)) :=
  meeting ++ [(.removeMember (userRequest [("member_id", .str (pair.id false))]) founded, drawn)]

def rewording : HttpRequest :=
  userRequest [("message_id", .str firstId), ("text", .str (str "ho"))]

/-- The message is edited after these routes. -/
def reworded (routes : List (Task × List (Input × Option Response))) :
    Option (Store × Response × Desk) :=
  (visit (pair.program true) routes (acquainted true)).bind fun store =>
    ((groupEdit .transparent (pair.keys true) rewording founded).exec act drawn ⟨store, []⟩).map
      fun done => (store, done)

theorem reworded_runs {routes : List (Task × List (Input × Option Response))} {store : Store}
    {response : Response} {after : Desk} (done : reworded routes = some (store, response, after)) :
    Visits (pair.program true) (fun _ _ => True) (acquainted true) store ∧
    Runs (groupEdit .transparent (pair.keys true) rewording founded) ⟨store, []⟩ response after := by
  obtain ⟨before, visited, rest⟩ := Option.bind_eq_some_iff.mp done
  obtain ⟨_, executed, same⟩ := Option.map_eq_some_iff.mp rest
  cases same
  exact ⟨visit_visits routes (fun _ _ _ => trivial) .start visited,
    Program.exec_runs act _ _ _ _ _ executed⟩

def rewordedAnswer : Response :=
  ok [("message_id", .str firstId), ("plaintext", .str (str "ho")), ("edited_at", .num 7)]

theorem rewordedAnswer_inj {messageId plaintext : Str} {editedAt : Int}
    (same : rewordedAnswer = ok [("message_id", .str messageId), ("plaintext", .str plaintext),
      ("edited_at", .num editedAt)]) :
    messageId = firstId ∧ plaintext = str "ho" ∧ editedAt = 7 := by
  simp only [rewordedAnswer, ok, Response.mk.injEq, Content.json.injEq, Json.obj.injEq,
    List.cons.injEq, Prod.mk.injEq, Json.str.injEq, Json.num.injEq, true_and, and_true] at same
  exact ⟨same.1.symm, same.2.1.symm, same.2.2.symm⟩

theorem validKey_member {store : Store} (ids : List KeyPair)
    (members : (others (pair.keys true) store founded.text).map (·.memberId) =
      ids.map (·.publicKeyB64)) :
    ∀ m ∈ others (pair.keys true) store founded.text,
      ValidKey .transparent (pair.keys true) m.memberId := by
  intro m member
  have among := List.mem_map_of_mem (f := (·.memberId)) member
  rw [members] at among
  obtain ⟨keys, _, same⟩ := List.mem_map.mp among
  exact same ▸ FanOut.validKey_transparent keys

theorem edit_visible : ∃ (store : Store) (after : Desk),
    Visits (pair.program true) (fun _ _ => True) (acquainted true) store ∧
    Runs (groupEdit .transparent (pair.keys true) rewording founded) ⟨store, []⟩ rewordedAnswer
      after ∧
    Visible founded.text firstId (str "ho") 7 after.store.messages := by
  have ran : (reworded meeting).map (fun done =>
      ((others (pair.keys true) done.1 founded.text).map (·.memberId),
        (done.1.messages.find firstId).map (·.recipientId))) =
      some ([pair.id false], some (pair.id false)) := by
    decide +kernel
  have response : (reworded meeting).map (·.2.1) = some rewordedAnswer := rfl
  obtain ⟨⟨store, answer, after⟩, done, facts⟩ := Option.map_eq_some_iff.mp ran
  rw [done] at response
  cases Option.some.inj response
  obtain ⟨members, recipient⟩ := Prod.mk.inj facts
  obtain ⟨visits, edits⟩ := reworded_runs done
  obtain ⟨messageId, plaintext, editedAt, row, form, found, visible⟩ :=
    group_edit_visible_iff edits rfl (validKey_member [pair.keys false] members)
  obtain ⟨rfl, rfl, rfl⟩ := rewordedAnswer_inj form
  have clean : cstr firstId = firstId := cstr_of_clean (uuid_clean _)
  rw [clean] at found
  simp only [found, Option.map_some, Option.some.injEq] at recipient
  obtain ⟨m, member, same⟩ : ∃ m ∈ others (pair.keys true) store founded.text,
      m.memberId = pair.id false := by
    have among : pair.id false ∈
        (others (pair.keys true) store founded.text).map (·.memberId) := by
      rw [members]
      exact List.mem_singleton.mpr rfl
    exact List.mem_map.mp among
  exact ⟨store, after, visits, edits,
    visible.mpr ⟨by decide, .inl ⟨m, member, same.trans recipient.symm⟩⟩⟩

/-- The recipient has left: the edit is answered with 200 and the row keeps its text. -/
theorem edit_unseen : ∃ (store : Store) (after : Desk),
    Visits (pair.program true) (fun _ _ => True) (acquainted true) store ∧
    (∀ m ∈ others (pair.keys true) store founded.text,
      ValidKey .transparent (pair.keys true) m.memberId) ∧
    Runs (groupEdit .transparent (pair.keys true) rewording founded) ⟨store, []⟩ rewordedAnswer
      after ∧
    ¬Visible founded.text firstId (str "ho") 7 after.store.messages := by
  have ran : (reworded parting).map (fun done =>
      ((others (pair.keys true) done.1 founded.text).map (·.memberId),
        (done.2.2.store.messages.find firstId).map (·.plaintext))) =
      some ([], some (str "hi")) := by
    decide +kernel
  have response : (reworded parting).map (·.2.1) = some rewordedAnswer := rfl
  obtain ⟨⟨store, answer, after⟩, done, facts⟩ := Option.map_eq_some_iff.mp ran
  rw [done] at response
  cases Option.some.inj response
  obtain ⟨members, text⟩ := Prod.mk.inj facts
  obtain ⟨visits, edits⟩ := reworded_runs done
  refine ⟨store, after, visits, validKey_member [] members, edits, ?_⟩
  have clean : cstr firstId = firstId := cstr_of_clean (uuid_clean _)
  obtain ⟨row, found, plaintext⟩ := Option.map_eq_some_iff.mp text
  rw [visible_iff (clean.symm ▸ found)]
  intro reads
  exact absurd (plaintext.symm.trans reads.1) (by decide)

end Runs
end NoMiddle.GroupEdits
