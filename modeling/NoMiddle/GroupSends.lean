import NoMiddle.FanOut
import NoMiddle.PeerRoutes
import NoMiddle.GroupMembership

/-! How the row of a group message starts. The handler leaves its status unset, and only
an answer of 200 from the row's member sets it. -/
namespace NoMiddle.GroupSends
open Library Text Crypto DbManager DbViews Node MessageDelivery Handlers GroupHandlers Network Solo

/-- What the unset field held, for each row that was inserted. -/
def unset : List (Event nodeSig) → List Int
  | ⟨.inl (.call (.addMessage _)), added⟩ :: ⟨.inl .uninitialised, memory⟩ :: rest =>
      if added = true then memory :: unset rest else unset rest
  | _ :: rest => unset rest
  | [] => []

/-- The member the row is for answered 200. -/
def Answered (row : Message) (sent : List (Request × Option Response)) : Prop :=
  ∃ request answer, (request, some answer) ∈ sent ∧ answer.code = 200 ∧
    request.endpoint = .acceptMessage ∧
    request.body.s? "message_id" = some row.messageId ∧
    request.body.s? "recipient_id" = some row.recipientId

/-- The row is delivered or pending, as it should be, and to be seen in its group. -/
structure Proper (groupId : Str) (row : Message) (after : Desk) : Prop where
  delivered : Answered row after.sent → row.accepted = messageDelivered
  pending : ¬Answered row after.sent → row.accepted = messagePending ∧
    row ∈ Query.pendingMessages.rows after.store.messages
  shown : row ∈ (Query.forGroup groupId).rows after.store.messages

/-- The one row a send inserts, after the turn that inserted it. -/
structure Born (store : Store) (groupId messageId : Str) (row : Message) (memory : Int)
    (note : Note) : Prop where
  fresh : store.messages.find messageId = none
  found : note.1.store.messages.find messageId = some row
  left : unset note.2 = [memory]
  groupId : row.groupId = groupId
  delivered : Answered row note.1.sent → row.accepted = messageDelivered
  unanswered : ¬Answered row note.1.sent → row.accepted = memory

/-- Between two turns of the loop: nothing was inserted yet, or one row. -/
structure Progress (store : Store) (groupId messageId : Str) (note : Note) : Prop where
  elsewhere : ∀ id, id ≠ messageId → note.1.store.messages.find id = store.messages.find id
  here : note.1.store.messages.find messageId = store.messages.find messageId ∧
      unset note.2 = [] ∧ note.1.sent = [] ∨
    ∃ row memory, Born store groupId messageId row memory note

variable {store : Store} {groupId messageId : Str} {note later : Note}

theorem Progress.quiet (progress : Progress store groupId messageId note)
    (messages : later.1.store.messages = note.1.store.messages)
    (sent : later.1.sent = note.1.sent) (left : unset later.2 = unset note.2) :
    Progress store groupId messageId later := by
  constructor
  · rw [messages]
    exact progress.elsewhere
  rcases progress.here with ⟨same, none, unsent⟩ | ⟨row, memory, born⟩
  · exact .inl ⟨messages ▸ same, left.trans none, sent.trans unsent⟩
  · exact .inr ⟨row, memory, {
      fresh := born.fresh
      found := messages ▸ born.found
      left := left.trans born.left
      groupId := born.groupId
      delivered := sent ▸ born.delivered
      unanswered := sent ▸ born.unanswered }⟩

theorem not_answered_nil (row : Message) : ¬Answered row [] := by
  rintro ⟨_, _, member, _⟩
  cases member

/-- After the insertion: the row is there as it was given, and nobody was asked. -/
structure Inserted (store : Store) (messageId : Str) (msg : Message) (note : Note) : Prop where
  fresh : store.messages.find messageId = none
  elsewhere : ∀ id, id ≠ messageId → note.1.store.messages.find id = store.messages.find id
  found : note.1.store.messages.find messageId = some msg.stored
  left : unset note.2 = [msg.accepted]
  unsent : note.1.sent = []

theorem Progress.insert {msg : Message} (progress : Progress store groupId messageId note)
    (free : note.1.store.messages.has messageId = false) (named : cstr msg.messageId = messageId)
    (stored : later.1.store.messages = addMessage msg note.1.store.messages)
    (sent : later.1.sent = note.1.sent) (left : unset later.2 = msg.accepted :: unset note.2) :
    Inserted store messageId msg later := by
  have absent : note.1.store.messages.find messageId = none := by
    simpa [Table.has] using free
  obtain ⟨same, none, unsent⟩ := progress.here.resolve_right (by
    rintro ⟨row, memory, born⟩
    cases absent.symm.trans born.found)
  have inserted : ∀ id, later.1.store.messages.find id = (note.1.store.messages.find id).or
      (if cstr msg.messageId = id then some msg.stored else .none) := by
    intro id
    rw [stored]
    exact note.1.store.messages.find_insert msg.stored msg.stored_clean id
  constructor
  · exact same.symm.trans absent
  · intro id other
    rw [inserted, progress.elsewhere id other, named, if_neg (Ne.symm other), Option.or_none]
  · rw [inserted, absent, named, if_pos rfl, Option.none_or]
  · rw [left, none]
  · exact sent.trans unsent

theorem Inserted.unanswered {msg : Message} (inserted : Inserted store messageId msg note)
    (group : cstr msg.groupId = groupId) (same : later.1.store = note.1.store)
    (left : unset later.2 = unset note.2) (refused : ¬Answered msg.stored later.1.sent) :
    Progress store groupId messageId later where
  elsewhere := same ▸ inserted.elsewhere
  here := .inr ⟨msg.stored, msg.accepted, {
    fresh := inserted.fresh
    found := same ▸ inserted.found
    left := left.trans inserted.left
    groupId := group
    delivered := fun answered => absurd answered refused
    unanswered := fun _ => rfl }⟩

theorem Inserted.delivered {msg : Message} (inserted : Inserted store messageId msg note)
    (named : cstr msg.messageId = messageId) (group : cstr msg.groupId = groupId) {now : Int}
    (marked : later.1.store.messages = updateMessages now msg.messageId (some msg.recipientId)
      .accepted note.1.store.messages)
    (left : unset later.2 = unset note.2) (answered : Answered msg.stored later.1.sent) :
    Progress store groupId messageId later := by
  -- The mark reaches the row under this id and no other.
  have updated : ∀ id, later.1.store.messages.find id = (note.1.store.messages.find id).map
      fun row => if addressed msg.messageId (some msg.recipientId) row then
        Mark.set now row .accepted else row := by
    intro id
    rw [marked]
    exact note.1.store.messages.find_update _ _ _ _ id
  constructor
  · intro id other
    rw [updated, ← inserted.elsewhere id other]
    cases found : note.1.store.messages.find id with
    | none => rfl
    | some row =>
        have key := note.1.store.messages.find_key found
        have missed : addressed msg.messageId (some msg.recipientId) row = false := by
          simp [addressed, key, named, other]
        rw [Option.map_some, missed]
        rfl
  · refine .inr ⟨{ msg.stored with accepted := 1 }, msg.accepted, {
      fresh := inserted.fresh
      found := ?_
      left := left.trans inserted.left
      groupId := group
      delivered := fun _ => rfl
      unanswered := fun refused => absurd answered refused }⟩
    rw [updated, inserted.found]
    simp [addressed, Message.stored, Mark.set]

theorem noted_memberAddress {m : GroupMember} {Value : Type} {rest : Str → Proc Value}
    {post : Value → Note → Prop}
    (goesOn : ∀ later : Note, later.1 = note.1 → unset later.2 = unset note.2 →
      (rest (FanOut.addressOf note.1.store m)).wp noted post later) :
    (memberAddress m >>= rest).wp noted post note := by
  unfold memberAddress
  unfold FanOut.addressOf at goesOn
  dsimp only at goesOn ⊢
  split
  · next empty =>
    rw [if_pos empty] at goesOn
    exact noted_perform fun input => goesOn _ rfl rfl
  · next known =>
    rw [if_neg known] at goesOn
    exact goesOn note rfl rfl

theorem noted_encrypt {sodium : Sodium} {plaintext recipient sender : Str} {Value : Type}
    {rest : Option Str → Proc Value} {post : Value → Note → Prop}
    (goesOn : ∀ nonce, ∀ later : Note, later.1 = note.1 → unset later.2 = unset note.2 →
      (rest (encryptMessage sodium nonce plaintext recipient sender)).wp noted post later) :
    (encrypt sodium plaintext recipient sender >>= rest).wp noted post note :=
  noted_perform fun _ => goesOn _ _ rfl rfl

variable {sodium : Sodium} {keys : KeyPair}

theorem sendToMember_progress {text : Str} {timestamp : Int} {online : Bool} {m : GroupMember}
    (named : Clean messageId) (group : Clean groupId)
    (progress : Progress store groupId messageId note) :
    (sendToMember sodium keys messageId groupId text timestamp online m).wp noted
      (fun _ after => Progress store groupId messageId after) note := by
  unfold sendToMember
  split
  · exact progress
  apply noted_memberAddress
  intro addressed same left
  apply noted_encrypt
  intro nonce sealing same' left'
  -- Nothing is written before the insert, so the progress so far stands.
  replace progress := progress.quiet (congrArg (·.store.messages) (same'.trans same))
    (congrArg Desk.sent (same'.trans same)) (left'.trans left)
  rcases sealedText : encryptMessage sodium nonce text m.memberId keys.privateKeyB64
    with _ | ciphertext
  · exact progress
  dsimp only
  apply noted_perform
  intro garbage
  apply noted_perform
  intro clock
  cases taken : sealing.1.store.messages.has (cstr messageId) with
  | true =>
      simp only [handle, Call.exec, taken, Bool.not_true, Bool.not_false, ↓reduceIte]
      exact progress.quiet (PeerRoutes.addMessage_taken _ _ taken) rfl rfl
  | false =>
      simp only [handle, Call.exec, taken, Bool.not_false, Bool.not_true, Bool.false_eq_true,
        ↓reduceIte]
      have free : sealing.1.store.messages.has messageId = false := cstr_of_clean named ▸ taken
      let msg : Message := ⟨messageId, keys.publicKeyB64, m.memberId, groupId, text, ciphertext,
        garbage.memory, timestamp, 0, 0, 1, 0⟩
      let stored : Note := (⟨{ sealing.1.store with
          messages := addMessage msg sealing.1.store.messages }, sealing.1.sent⟩,
        ⟨.inl (.call (.addMessage msg)), true⟩ :: ⟨.inl .uninitialised, garbage.memory⟩ ::
          sealing.2)
      have inserted : Inserted store messageId msg stored :=
        progress.insert free (cstr_of_clean named) rfl rfl rfl
      have group := cstr_of_clean group
      change Program.wp noted _ _ stored
      split
      · exact inserted.unanswered group rfl rfl (inserted.unsent ▸ not_answered_nil _)
      apply noted_send
      intro answer
      dsimp only
      rw [inserted.unsent, List.nil_append]
      split
      · next ok =>
        obtain ⟨response, rfl, code⟩ := (Conduct.delivered_iff answer).mp ok
        rintro _ _ ⟨drawn, ⟨⟩⟩
        refine inserted.delivered (cstr_of_clean named) group rfl rfl ?_
        refine ⟨_, response, List.mem_singleton.mpr rfl, code, rfl, ?_, ?_⟩
        · exact congrArg some (cstr_of_clean named).symm
        · exact congrArg some (cstr_of_clean (encryptMessage_clean sealedText).2).symm
      · next refused =>
        refine inserted.unanswered group rfl rfl ?_
        rintro ⟨request, response, member, code, _⟩
        cases List.mem_singleton.mp member
        exact refused (by simp [delivered, code])

theorem progress_idle (store : Store) (groupId messageId : Str) {note : Note}
    (same : note.1 = ⟨store, []⟩) (left : unset note.2 = []) :
    Progress store groupId messageId note where
  elsewhere _ _ := by rw [same]
  here := .inl ⟨by rw [same], left, by rw [same]⟩

theorem noted_authed (sodium : Sodium) (req : HttpRequest) (refused : Response)
    {rest : Proc Response} {post : Response → Note → Prop}
    (refusal : ∀ later : Note, later.1 = note.1 → unset later.2 = unset note.2 → post refused later)
    (goesOn : ∀ later : Note, later.1 = note.1 → unset later.2 = unset note.2 →
      rest.wp noted post later) :
    (do if !(← isAuthed sodium req) then return refused
        rest).wp noted post note := by
  have checked : (isAuthed sodium req).wp noted
      (fun _ later => later.1 = note.1 ∧ unset later.2 = unset note.2) note := by
    unfold isAuthed authenticate
    split
    · exact ⟨rfl, rfl⟩
    · refine noted_perform fun input => ?_
      split <;> exact ⟨rfl, rfl⟩
  refine Program.wp_seq noted_monotone _ _ note checked ?_
  rintro authed later ⟨same, left⟩
  cases authed with
  | true => exact goesOn later same left
  | false => exact refusal later same left

theorem groupSend_progress (req : HttpRequest) (group : PathId) (store : Store) :
    (groupSend sodium keys req group).wp noted
      (fun _ after => ∃ messageId, Progress store group.text messageId after)
      (⟨store, []⟩, []) := by
  unfold groupSend
  apply noted_authed
  · exact fun later same left => ⟨[], progress_idle _ _ _ same left⟩
  intro later same left
  have refuse : ∀ response : Response, (pure response : Proc Response).wp noted
      (fun _ after => ∃ messageId, Progress store group.text messageId after) later :=
    fun _ => ⟨[], progress_idle _ _ _ same left⟩
  rcases req.body with _ | data
  · exact refuse _
  dsimp only
  rcases data.hasAll? ["text"] with _ | _ | _
  · exact refuse _
  · exact refuse _
  rcases data.s? "text" with _ | text
  · exact refuse _
  simp only [Bool.not_true, Bool.false_eq_true, ↓reduceIte]
  apply noted_perform
  intro clock
  apply noted_perform
  intro dice
  apply noted_perform
  intro reading
  have started : ∀ messageId, Progress store group.text messageId
      (⟨later.1.store, later.1.sent⟩, ⟨.inl (.call (.getGroupMembers group.text)),
        (handle reading (.call (.getGroupMembers group.text)) later.1.store).1⟩ ::
        ⟨.inl .dice, dice.dice⟩ :: ⟨.inl .time, clock.now⟩ :: later.2) :=
    fun messageId => progress_idle _ _ _ same left
  split
  · exact ⟨[], started []⟩
  -- The invariant of the loop is the progress under the id drawn for the message.
  refine Program.wp_seq noted_monotone _ _ _
    (Program.wp_foldlM noted_monotone _
      (fun _ _ after => Progress store group.text (uuidOf dice.dice) after)
      (fun m rest online after progress => sendToMember_progress (uuid_clean _) group.clean progress)
      _ true _ (started _)) fun online after progress => ⟨_, progress⟩

/-- A row that a group send has inserted is as it should be exactly if its member answered
200 or the unset field happened to hold 0. -/
theorem group_row_proper_iff {req : HttpRequest} {group : PathId} {store : Store}
    {response : Response} {after : Note} {row : Message}
    (ran : NotedRuns (groupSend sodium keys req group) ⟨store, []⟩ response after)
    (fresh : store.messages.find row.messageId = none)
    (inserted : after.1.store.messages.find row.messageId = some row) :
    ∃ memory, unset after.2 = [memory] ∧
      (Proper group.text row after.1 ↔ Answered row after.1.sent ∨ memory = 0) := by
  obtain ⟨messageId, progress⟩ := (Program.wp_demonic_iff _ _ _ _).mp
    (groupSend_progress req group store) response after ran
  -- A row that was not there before is the one this call inserted.
  have here : row.messageId = messageId := by
    by_contra other
    cases (progress.elsewhere _ other).symm.trans inserted |>.symm.trans fresh
  subst here
  rcases progress.here with ⟨same, _⟩ | ⟨other, memory, born⟩
  · cases inserted.symm.trans (same.trans fresh)
  cases inserted.symm.trans born.found
  refine ⟨memory, born.left, ?_⟩
  have shows : row.accepted ≠ messageDeleted →
      row ∈ (Query.forGroup group.text).rows after.1.store.messages := fun live =>
    (mem_rows _ _ row).mpr ⟨inserted, by
      simpa [Query.selects, born.groupId, cstr_of_clean group.clean, messageDeleted] using live⟩
  constructor
  · intro proper
    by_cases answered : Answered row after.1.sent
    · exact .inl answered
    · exact .inr ((born.unanswered answered).symm.trans (proper.pending answered).1)
  · intro good
    by_cases answered : Answered row after.1.sent
    · have accepted := born.delivered answered
      refine ⟨fun _ => accepted, fun refused => absurd answered refused, shows ?_⟩
      rw [accepted]
      decide
    · have accepted : row.accepted = 0 := (born.unanswered answered).trans (good.resolve_left answered)
      refine ⟨fun yes => absurd yes answered, fun _ => ⟨accepted, ?_⟩, shows ?_⟩
      · exact (mem_rows _ _ row).mpr ⟨inserted, by simp [Query.selects, accepted]⟩
      · rw [accepted]
        decide

section Runs
open GroupMembership (founded foundation admission)

/-- Memory nobody wrote holds this, and all requests are answered like this. -/
def drawn (memory : Int) (answer : Option Response) : List (Input × Option Response) :=
  List.replicate 20 ({ clockAt 7 with memory := memory }, answer)

def gathering : List (Task × List (Input × Option Response)) :=
  [(.groupsCreate foundation, drawn 0 (some ⟨200, .empty⟩)),
    (.addMember admission founded, drawn 0 (some ⟨200, .empty⟩))]

def greet : HttpRequest := userRequest [("text", .str (str "hi"))]

def greeted (memory : Int) (answer : Option Response) : Option (Store × Response × Note) :=
  (visit (pair.program true) gathering (acquainted true)).bind fun store =>
    ((groupSend .transparent (pair.keys true) greet founded).exec (Program.traced act)
      (drawn memory answer) (⟨store, []⟩, [])).map fun done => (store, done)

theorem greeted_runs {memory : Int} {answer : Option Response} {store : Store}
    {response : Response} {after : Note} (done : greeted memory answer = some (store, response, after)) :
    Visits (pair.program true) (fun _ _ => True) (acquainted true) store ∧
    NotedRuns (groupSend .transparent (pair.keys true) greet founded) ⟨store, []⟩ response after := by
  obtain ⟨before, visited, rest⟩ := Option.bind_eq_some_iff.mp done
  obtain ⟨_, executed, same⟩ := Option.map_eq_some_iff.mp rest
  cases same
  exact ⟨visit_visits gathering (fun _ _ _ => trivial) .start visited,
    Program.exec_runs _ _ _ _ _ _ executed⟩

theorem greeting_proper : ∃ (store : Store) (response : Response) (after : Note) (row : Message),
    NotedRuns (groupSend .transparent (pair.keys true) greet founded) ⟨store, []⟩ response after ∧
    after.1.store.messages.find firstId = some row ∧ Proper founded.text row after.1 := by
  have ran : (greeted 0 none).map (fun done => (done.1.messages.has firstId,
      (done.2.2.1.store.messages.find firstId).map (·.recipientId), unset done.2.2.2)) =
      some (false, some (pair.id false), [0]) := by
    decide +kernel
  obtain ⟨⟨store, response, after⟩, done, facts⟩ := Option.map_eq_some_iff.mp ran
  simp only [Prod.mk.injEq] at facts
  obtain ⟨absent, recipient, left⟩ := facts
  obtain ⟨row, found, _⟩ := Option.map_eq_some_iff.mp recipient
  have key : row.messageId = firstId := after.1.store.messages.find_key found
  obtain ⟨memory, held, proper⟩ := group_row_proper_iff (greeted_runs done).2
    (by rw [key]; simpa [Table.has] using absent) (key.symm ▸ found)
  cases held.symm.trans left
  exact ⟨store, response, after, row, (greeted_runs done).2, found, proper.mpr (.inr rfl)⟩

/-- The unset field holds 3 and nobody answers: the row counts as deleted, so it is never
sent again and shown nowhere. -/
theorem greeting_unset : ∃ (store : Store) (response : Response) (after : Desk) (row : Message),
    Visits (pair.program true) (fun _ _ => True) (acquainted true) store ∧
    Runs (groupSend .transparent (pair.keys true) greet founded) ⟨store, []⟩ response after ∧
    response.code = 200 ∧ store.messages.find row.messageId = none ∧
    after.store.messages.find row.messageId = some row ∧ row.accepted = 3 ∧
    ¬Answered row after.sent ∧ ¬Proper founded.text row after := by
  have ran : (greeted 3 none).map (fun done => (done.2.1.code, done.1.messages.has firstId,
      (done.2.2.1.store.messages.find firstId).map (·.accepted),
      done.2.2.1.sent.all (·.2.isNone))) = some (200, false, some 3, true) := by
    decide +kernel
  obtain ⟨⟨store, response, after⟩, done, facts⟩ := Option.map_eq_some_iff.mp ran
  simp only [Prod.mk.injEq] at facts
  obtain ⟨code, absent, accepted, silence⟩ := facts
  obtain ⟨row, found, status⟩ := Option.map_eq_some_iff.mp accepted
  have key : row.messageId = firstId := after.1.store.messages.find_key found
  have unanswered : ¬Answered row after.1.sent := by
    rintro ⟨request, answer, member, _⟩
    have none := List.all_eq_true.mp silence _ member
    cases none
  obtain ⟨visits, sends⟩ := greeted_runs done
  refine ⟨store, response, after.1, row, visits, notedRuns_iff.mp ⟨after.2, sends⟩, code, ?_,
    key.symm ▸ found, status, unanswered, fun proper => ?_⟩
  · rw [key]
    simpa [Table.has] using absent
  · cases status.symm.trans (proper.pending unanswered).1

end Runs
end NoMiddle.GroupSends
