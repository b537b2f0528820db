import NoMiddle.Library.RpcTwins
import NoMiddle.Effects
import NoMiddle.DbViews

/-! Deleted texts. A deleted message keeps its row, and its text with it; but no route and no
pass of the worker makes anything of that text, so what a network does cannot depend on it. -/
namespace NoMiddle.Forgetting
open Library Text Crypto DbManager DbViews Node MessageDelivery RetryWorker Handlers GroupHandlers
open Network Footprint
open TaskConduct (World Action)

def wiped (row : Message) : Message := { row with plaintext := [] }

section Stores
variable (gone : Str → Bool)

/-- A row as it can be told from others, the texts of the rows that are gone left out. -/
def hide (row : Message) : Message := if gone row.messageId then wiped row else row

/-- The stores of the two sides. Every message that is gone has a row, which is deleted. -/
structure Alike (left right : Store) : Prop where
  others : right = { left with messages := right.messages }
  rows : left.messages.rows.map (hide gone) = right.messages.rows.map (hide gone)
  deleted : ∀ row ∈ left.messages.rows, gone row.messageId = true → row.accepted = 3
  there : ∀ id, gone id = true → left.messages.has id = true

/-- What the store of one side answers and that of the other. -/
def Told : (operation : nodeSig.Op) → nodeSig.Res operation → nodeSig.Res operation → Prop
  | .inl (.call (.getMessage _)), (left : Option Message), (right : Option Message) =>
      left.map wiped = right.map wiped
  | .inl (.call (.getMessages .pendingMessages)), (left : List Message), right =>
      left = right ∧ ∀ row ∈ left, gone (cstr row.messageId) = false
  | .inl (.call (.getMessages .pendingEdits)), (left : List Message), (right : List Message)
  | .inl (.call (.getMessages .pendingDeletes)), (left : List Message), (right : List Message) =>
      left.map wiped = right.map wiped
  | .inl (.call (.addMessage msg)), left, right =>
      left = right ∧ (left = true → gone (cstr msg.messageId) = false)
  | _, left, right => left = right

/-- Leaves deleted what is gone. -/
def Spares : nodeSig.Op → Prop
  | .inl (.call (.updateMessages messageId _ .accepted))
  | .inl (.call (.updateMessages messageId _ .failed)) => gone (cstr messageId) = false
  | _ => True

def forgetful : Twin nodeSig := ⟨Told gone, Spares gone⟩

variable {gone} {left right : Store}

theorem wiped_hide (row : Message) : wiped (hide gone row) = wiped row := by
  unfold hide
  split <;> rfl

theorem hide_messageId (row : Message) : (hide gone row).messageId = row.messageId := by
  unfold hide
  split <;> rfl

theorem hide_accepted (row : Message) : (hide gone row).accepted = row.accepted := by
  unfold hide
  split <;> rfl

theorem Alike.wipedRows (alike : Alike gone left right) :
    left.messages.rows.map wiped = right.messages.rows.map wiped := by
  have same := congrArg (List.map wiped) alike.rows
  simpa only [List.map_map, Function.comp_def, wiped_hide] using same

theorem Alike.deletedRight (alike : Alike gone left right) (row : Message)
    (member : row ∈ right.messages.rows) (isGone : gone row.messageId = true) :
    row.accepted = 3 := by
  have among : hide gone row ∈ left.messages.rows.map (hide gone) :=
    alike.rows ▸ List.mem_map_of_mem member
  obtain ⟨other, there, same⟩ := List.mem_map.mp among
  have id := congrArg (·.messageId) same
  have accepted := congrArg (·.accepted) same
  simp only [hide_messageId, hide_accepted] at id accepted
  rw [← accepted]
  exact alike.deleted other there (id ▸ isGone)

/-- A query that leaves out what is gone finds the same rows. -/
theorem Alike.selected (alike : Alike gone left right) {selects : Message → Bool}
    (unread : ∀ row, selects (wiped row) = selects row)
    (shown : ∀ row, selects row = true → row.accepted ≠ 3) :
    left.messages.rows.filter selects = right.messages.rows.filter selects := by
  have unseen : ∀ row, selects (hide gone row) = selects row := by
    intro row
    unfold hide
    split
    · exact unread row
    · rfl
  have stays : ∀ rows : List Message,
      (∀ row ∈ rows, gone row.messageId = true → row.accepted = 3) →
      (rows.map (hide gone)).filter selects = rows.filter selects := by
    intro rows deleted
    rw [List.filter_map]
    have same : selects ∘ hide gone = selects := funext unseen
    rw [same]
    refine (List.map_congr_left fun row member => ?_).trans (List.map_id _)
    obtain ⟨there, selected⟩ := List.mem_filter.mp member
    exact if_neg fun isGone => shown row selected (deleted row there isGone)
  rw [← stays _ alike.deleted, ← stays _ alike.deletedRight, alike.rows]

theorem Alike.find (alike : Alike gone left right) (id : Str) :
    (left.messages.find id).map wiped = (right.messages.find id).map wiped := by
  have found : ∀ messages : Messages, (messages.find id).map wiped =
      (messages.rows.map wiped).find? fun row => decide (row.messageId = id) := by
    intro messages
    rw [List.find?_map]
    rfl
  rw [found, found, alike.wipedRows]

theorem Alike.has (alike : Alike gone left right) (id : Str) :
    left.messages.has id = right.messages.has id := by
  have same := congrArg Option.isSome (alike.find id)
  rwa [Option.isSome_map, Option.isSome_map] at same

theorem Alike.pending (alike : Alike gone left right) {selects : Message → Bool}
    (unread : ∀ row, selects (wiped row) = selects row) :
    (left.messages.rows.filter selects).map wiped =
      (right.messages.rows.filter selects).map wiped := by
  have same : selects ∘ wiped = selects := funext unread
  have found : ∀ rows : List Message, (rows.filter selects).map wiped =
      (rows.map wiped).filter selects := by
    intro rows
    rw [List.filter_map, same]
  rw [found, found, alike.wipedRows]

theorem Alike.view (alike : Alike gone left right) (query : Query)
    (shown : ∀ row, query.selects row = true → row.accepted ≠ 3) :
    left.messages.rows.filter query.selects = right.messages.rows.filter query.selects :=
  alike.selected (fun row => by cases query <;> rfl) shown

theorem between_shown (selfId otherId : Str) (row : Message)
    (selected : (Query.between selfId otherId).selects row = true) : row.accepted ≠ 3 := by
  simp only [Query.selects, Bool.and_eq_true, decide_eq_true_eq] at selected
  exact selected.2

theorem forGroup_shown (groupId : Str) (row : Message)
    (selected : (Query.forGroup groupId).selects row = true) : row.accepted ≠ 3 := by
  simp only [Query.selects, Bool.and_eq_true, decide_eq_true_eq] at selected
  exact selected.2

theorem Alike.latest (alike : Alike gone left right) (query : Query)
    (shown : ∀ row, query.selects row = true → row.accepted ≠ 3) :
    query.latest left.messages = query.latest right.messages := by
  unfold Query.latest
  rw [alike.view query shown]

/-- The queries that keep the order of the rows. -/
theorem rows_unsorted {query : Query} (plain : query.sorted = false) (messages : Messages) :
    query.rows messages = messages.rows.filter query.selects := by
  simp [Query.rows, plain]

theorem Alike.told (alike : Alike gone left right) (input : Input) (operation : LocalOp) :
    Told gone (.inl operation) (handle input operation left).1
      (handle input operation right).1 := by
  cases operation with
  | call call =>
      cases call with
      | getMessage messageId => exact alike.find _
      | getMessages query =>
          cases query with
          | pendingMessages =>
              have shown : ∀ row, Query.pendingMessages.selects row = true → row.accepted ≠ 3 := by
                intro row selected
                simp only [Query.selects, decide_eq_true_eq] at selected
                simp [selected]
              have same : Query.pendingMessages.rows left.messages =
                  Query.pendingMessages.rows right.messages := by
                rw [rows_unsorted rfl, rows_unsorted rfl, alike.view _ shown]
              have kept : ∀ row ∈ Query.pendingMessages.rows left.messages,
                  gone (cstr row.messageId) = false := by
                intro row member
                obtain ⟨found, selected⟩ := (mem_rows _ left.messages row).mp member
                have clean := left.messages.find_valid found row.messageId List.mem_cons_self
                rw [cstr_of_clean clean]
                refine Bool.eq_false_iff.mpr fun isGone => shown row selected ?_
                exact alike.deleted row ((left.messages.find_eq_some _ _).mp found).1 isGone
              exact ⟨same, kept⟩
          | pendingEdits =>
              change (Query.pendingEdits.rows left.messages).map wiped =
                (Query.pendingEdits.rows right.messages).map wiped
              rw [rows_unsorted rfl, rows_unsorted rfl]
              exact alike.pending fun _ => rfl
          | pendingDeletes =>
              change (Query.pendingDeletes.rows left.messages).map wiped =
                (Query.pendingDeletes.rows right.messages).map wiped
              rw [rows_unsorted rfl, rows_unsorted rfl]
              exact alike.pending fun _ => rfl
          | between selfId otherId =>
              change (Query.between selfId otherId).rows left.messages =
                (Query.between selfId otherId).rows right.messages
              unfold Query.rows
              rw [alike.view _ (between_shown selfId otherId)]
          | forGroup groupId =>
              change (Query.forGroup groupId).rows left.messages =
                (Query.forGroup groupId).rows right.messages
              unfold Query.rows
              rw [alike.view _ (forGroup_shown groupId)]
      | getLastMessageForGroup groupId => exact alike.latest _ (forGroup_shown groupId)
      | getContactsWithLatestMessage selfId =>
          change contactsWithLatestMessage selfId left = contactsWithLatestMessage selfId right
          have contacts : right.contacts = left.contacts := by rw [alike.others]
          unfold contactsWithLatestMessage
          rw [contacts]
          refine List.map_congr_left fun contact _ => ?_
          rw [alike.latest _ (between_shown selfId contact.contactId)]
      | addMessage msg =>
          refine ⟨congrArg (! ·) (alike.has _), fun added => Bool.eq_false_iff.mpr fun isGone => ?_⟩
          change (!left.messages.has (cstr msg.messageId)) = true at added
          rw [alike.there _ isGone] at added
          cases added
      | _ =>
          rw [alike.others]
          rfl
  | _ => rfl

/-- What a statement makes of a row that is gone is as hidden as the row was. -/
theorem hide_set (now : Int) (messageId : Str) (recipientId : Option Str) (mark : Mark)
    (row : Message) :
    hide gone (if addressed messageId recipientId (hide gone row) then mark.set now (hide gone row)
      else hide gone row) =
    hide gone (if addressed messageId recipientId row then mark.set now row else row) := by
  have sameAddress : addressed messageId recipientId (hide gone row) =
      addressed messageId recipientId row := by
    unfold hide
    split <;> rfl
  rw [sameAddress]
  split
  · unfold hide
    cases isGone : gone row.messageId with
    | true => cases mark <;> simp [isGone, wiped, Mark.set]
    | false => simp [Mark.set_messageId, isGone]
  · unfold hide
    cases isGone : gone row.messageId with
    | true => simp [isGone, wiped]
    | false => simp [isGone]

theorem Alike.updated (alike : Alike gone left right) (now : Int) (messageId : Str)
    (recipientId : Option Str) (mark : Mark)
    (spares : Spares gone (.inl (.call (.updateMessages messageId recipientId mark)))) :
    Alike gone
      { left with messages := updateMessages now messageId recipientId mark left.messages }
      { right with messages := updateMessages now messageId recipientId mark right.messages } where
  others := congrArg (fun store : Store => { store with
    messages := updateMessages now messageId recipientId mark right.messages }) alike.others
  rows := by
    change (List.map _ left.messages.rows).map (hide gone) =
      (List.map _ right.messages.rows).map (hide gone)
    have through : ∀ rows : List Message,
        (rows.map fun row => if addressed messageId recipientId row then mark.set now row
          else row).map (hide gone) =
        (rows.map (hide gone)).map fun row => hide gone
          (if addressed messageId recipientId row then mark.set now row else row) := by
      intro rows
      rw [List.map_map, List.map_map]
      exact List.map_congr_left fun row _ => (hide_set now messageId recipientId mark row).symm
    rw [through, through, alike.rows]
  deleted row member isGone := by
    obtain ⟨old, there, rfl⟩ := List.mem_map.mp member
    by_cases here : addressed messageId recipientId old = true
    · simp only [here, if_true] at isGone ⊢
      rw [Mark.set_messageId] at isGone
      have wasDeleted := alike.deleted old there isGone
      have same : old.messageId = cstr messageId := by
        simp only [addressed, Bool.and_eq_true, decide_eq_true_eq] at here
        exact here.1
      -- The two statements that could bring the row back are for other rows.
      cases mark with
      | accepted | failed =>
          change gone (cstr messageId) = false at spares
          rw [same, spares] at isGone
          cases isGone
      | deleted => rfl
      | _ => exact wasDeleted
    · rw [if_neg here] at isGone ⊢
      exact alike.deleted old there isGone
  there id isGone := by
    have kept : (updateMessages now messageId recipientId mark left.messages).has id =
        left.messages.has id :=
      Table.has_update left.messages _ _ (fun row => mark.set_messageId now row)
        (fun row => mark.set_clean now row) id
    exact kept.trans (alike.there id isGone)

theorem Alike.added (alike : Alike gone left right) (msg : Message) :
    Alike gone { left with messages := addMessage msg left.messages }
      { right with messages := addMessage msg right.messages } where
  others := congrArg (fun store : Store => { store with
    messages := addMessage msg right.messages }) alike.others
  rows := by
    have inserted : ∀ messages : Messages, (addMessage msg messages).rows =
        if messages.has msg.stored.messageId then messages.rows else messages.rows ++ [msg.stored] :=
      fun messages => Table.rows_insert messages msg.stored msg.stored_clean
    rw [inserted, inserted, alike.has]
    split
    · exact alike.rows
    · rw [List.map_append, List.map_append, alike.rows]
  deleted row member isGone := by
    rcases Table.mem_insert left.messages msg.stored_clean member with old | rfl
    · exact alike.deleted row old isGone
    · -- A row that is gone is still there, so nothing was inserted in its place.
      have taken := alike.there _ isGone
      have same : addMessage msg left.messages = left.messages :=
        Table.insert_taken left.messages _ msg.stored_clean taken
      exact alike.deleted _ (same ▸ member) isGone
  there id isGone := by
    obtain ⟨row, found⟩ := (Table.has_iff _ _).mp (alike.there id isGone)
    refine (Table.has_iff _ _).mpr ⟨row, (Table.find_eq_some _ _ _).mpr ?_⟩
    obtain ⟨member, key⟩ := (Table.find_eq_some _ _ _).mp found
    exact ⟨Table.insert_kept left.messages msg.stored_clean member, key⟩

theorem Alike.kept (alike : Alike gone left right) (input : Input) (operation : LocalOp)
    (spares : Spares gone (.inl operation)) :
    Alike gone (handle input operation left).2 (handle input operation right).2 := by
  have elsewhere : ∀ changed : Store → Store,
      (∀ store messages, changed { store with messages := messages } =
        { changed store with messages := messages }) →
      (changed left).messages = left.messages → Alike gone (changed left) (changed right) := by
    intro changed apart same
    have moved : changed right = { changed left with messages := right.messages } := by
      rw [← apart, ← alike.others]
    refine ⟨?_, ?_, ?_, ?_⟩
    · rw [moved]
    · rw [moved, same]
      exact alike.rows
    · rw [same]
      exact alike.deleted
    · rw [same]
      exact alike.there
  cases operation with
  | call call =>
      cases call with
      | addMessage msg => exact alike.added msg
      | updateMessages messageId recipientId mark =>
          exact alike.updated input.now messageId recipientId mark spares
      | _ => exact elsewhere (fun store => (handle input (.call _) store).2) (fun _ _ => rfl) rfl
  | _ => exact alike

end Stores

/-! The programs. What they are told of a row that is gone they use without its text, and the
statements that could bring such a row back are for rows just stored or listed as pending. -/
section Programs
variable {gone : Str → Bool} {Value Output : Type}

theorem wiped_cases {left right : Message} (same : wiped left = wiped right) :
    right = { left with plaintext := right.plaintext } := by
  cases left
  cases right
  simp only [wiped, Message.mk.injEq] at same
  simp [same]

theorem forM_wiped {body : Message → Proc Unit}
    (unread : ∀ row text, body { row with plaintext := text } = body row) {left right : List Message}
    (same : left.map wiped = right.map wiped) : left.forM body = right.forM body := by
  have bare : ∀ rows : List Message, (rows.map wiped).forM body = rows.forM body := by
    intro rows
    induction rows with
    | nil => rfl
    | cons row rest ih =>
        change (body (wiped row) >>= fun _ => (rest.map wiped).forM body) =
          (body row >>= fun _ => rest.forM body)
        rw [ih, wiped, unread]
  rw [← bare left, same, bare]

theorem blind_free {program : Proc Value} {used : List Effects.Resource}
    (only : program.Only (Effects.within used))
    (apart : (used.contains .messages || used.contains .rows) = false) :
    program.Blind (forgetful gone) := by
  refine Program.blind_of_only (fun operation inside => ?_) only
  have spared : ∀ resource, used.contains resource = false →
      resource ∉ Effects.touches operation := fun resource outside =>
    Effects.spared_of_within inside (by simpa using outside)
  obtain ⟨noMessages, noRows⟩ := Bool.or_eq_false_iff.mp apart
  have unwritten := spared _ noMessages
  have unlisted := spared _ noRows
  cases operation using operation_cases with
  | call db =>
      cases db with
      | addMessage => exact absurd List.mem_cons_self unwritten
      | updateMessages messageId only mark =>
          exact absurd (Effects.messages_mem_marks mark) unwritten
      | getMessage => exact absurd List.mem_cons_self unlisted
      | getMessages query =>
          cases query with
          | pendingMessages | pendingEdits | pendingDeletes =>
              exact absurd List.mem_cons_self unlisted
          | _ => exact ⟨trivial, fun _ _ same => same⟩
      | _ => exact ⟨trivial, fun _ _ same => same⟩
  | _ => exact ⟨trivial, fun _ _ same => same⟩

theorem blind_perform {operation : LocalOp} {rest : operation.Res → Proc Value}
    (allowed : Spares gone (.inl operation))
    (told : ∀ left right, Told gone (.inl operation) left right → left = right)
    (later : ∀ answer, (rest answer).Blind (forgetful gone)) :
    (perform operation >>= rest).Blind (forgetful gone) :=
  ⟨allowed, fun left right possible =>
    ⟨congrArg rest (told left right possible), later left⟩⟩

theorem blind_added {msg : Message} {rest : Bool → Proc Value}
    (refused : (rest false).Blind (forgetful gone))
    (added : gone (cstr msg.messageId) = false → (rest true).Blind (forgetful gone)) :
    (call (.addMessage msg) >>= rest).Blind (forgetful gone) := by
  refine ⟨trivial, fun left right told => ?_⟩
  obtain ⟨rfl, fresh⟩ := told
  cases left with
  | false => exact ⟨rfl, refused⟩
  | true => exact ⟨rfl, added (fresh rfl)⟩

theorem blind_found {messageId : Str} {rest : Option Message → Proc Value}
    (unread : ∀ (row : Message) text, rest (some { row with plaintext := text }) = rest (some row))
    (later : ∀ found, (rest found).Blind (forgetful gone)) :
    (call (.getMessage messageId) >>= rest).Blind (forgetful gone) := by
  refine ⟨trivial, fun (left : Option Message) (right : Option Message) told => ⟨?_, later left⟩⟩
  change left.map wiped = right.map wiped at told
  cases left with
  | none =>
      cases right with
      | none => rfl
      | some _ => cases told
  | some left =>
      cases right with
      | none => cases told
      | some right =>
          rw [wiped_cases (Option.some.inj told)]
          exact (unread left right.plaintext).symm

theorem blind_send {serverAddress : Str} {endpoint : Endpoint} {body : Json}
    {rest : Option Nat → Proc Value} (later : ∀ result, (rest result).Blind (forgetful gone)) :
    (sendMessage serverAddress endpoint body >>= rest).Blind (forgetful gone) := by
  refine ⟨trivial, fun left right (same : left = right) => ?_⟩
  subst same
  exact ⟨rfl, later _⟩

theorem blind_encrypt (sodium : Sodium) (plaintext recipient sender : Str)
    {rest : Option Str → Proc Value}
    (later : ∀ ciphertext, (rest ciphertext).Blind (forgetful gone)) :
    (encrypt sodium plaintext recipient sender >>= rest).Blind (forgetful gone) := by
  refine ⟨trivial, fun left right (same : left = right) => ?_⟩
  subst same
  exact ⟨rfl, later _⟩

theorem blind_authed (sodium : Sodium) (req : HttpRequest) (refused : Response)
    {rest : Proc Response} (later : rest.Blind (forgetful gone)) :
    (do if !(← isAuthed sodium req) then return refused
        rest).Blind (forgetful gone) := by
  have checked : (isAuthed sodium req).Blind (forgetful gone) := by
    unfold isAuthed authenticate
    split
    · trivial
    · refine blind_perform trivial (fun _ _ same => same) fun found => ?_
      cases found <;> trivial
  refine Program.blind_bind checked fun authed => ?_
  cases authed with
  | true => exact later
  | false => trivial

theorem blind_toContact {endpoint : Endpoint} {body : Json} {mark : Proc Unit}
    (marks : mark.Blind (forgetful gone)) (recipientId : Str) :
    (do
      let serverAddress ← call (.getContactAddress recipientId)
      if serverAddress.isEmpty then return false
      let result ← sendMessage (cutServerAddress serverAddress) endpoint body
      if delivered result then mark
      return delivered result : Proc Bool).Blind (forgetful gone) := by
  refine blind_perform trivial (fun _ _ same => same) fun (address : Str) => ?_
  split
  · trivial
  · refine blind_send fun result => ?_
    dsimp only
    split
    · exact Program.blind_bind marks fun _ => trivial
    · trivial

variable (sodium : Sodium) (keys : KeyPair)

theorem deliverMessage_blind (senderId recipientId ciphertext plaintext : Str) (timestamp : Int) :
    (deliverMessage senderId recipientId ciphertext plaintext timestamp).Blind
      (forgetful gone) := by
  refine blind_perform trivial (fun _ _ same => same) fun dice => blind_added trivial fun fresh => ?_
  refine blind_perform trivial (fun _ _ same => same) fun address => blind_send fun result => ?_
  split
  · exact ⟨fresh, fun _ _ _ => ⟨rfl, trivial⟩⟩
  · trivial

theorem sendDirect_blind (req : HttpRequest) :
    (sendDirect sodium keys req).Blind (forgetful gone) := by
  refine blind_authed sodium req _ ?_
  repeat' split
  all_goals first
    | trivial
    | refine blind_perform trivial (fun _ _ same => same) fun _ => ?_
  refine blind_encrypt sodium _ _ _ fun ciphertext => ?_
  cases ciphertext with
  | none => trivial
  | some ciphertext =>
      refine Program.blind_bind (deliverMessage_blind _ _ _ _ _) fun messageId => ?_
      cases messageId with
      | none => trivial
      | some messageId => exact ⟨trivial, fun _ _ _ => ⟨rfl, trivial⟩⟩

/-- The statements about rows that are gone as well. -/
theorem blind_mark {messageId : Str} {recipientId : Option Str} {mark : Mark}
    {rest : Bool → Proc Value}
    (spares : Spares gone (.inl (.call (.updateMessages messageId recipientId mark))))
    (later : ∀ done, (rest done).Blind (forgetful gone)) :
    (call (.updateMessages messageId recipientId mark) >>= rest).Blind (forgetful gone) :=
  blind_perform spares (fun _ _ same => same) later

theorem editDirect_blind (req : HttpRequest) :
    (editDirect sodium keys req).Blind (forgetful gone) := by
  refine blind_authed sodium req _ ?_
  repeat' split
  all_goals first
    | trivial
    | refine blind_found (fun _ _ => rfl) fun found => ?_
  cases found with
  | none => trivial
  | some msg =>
      dsimp only
      split
      · trivial
      · refine blind_encrypt sodium _ _ _ fun ciphertext => ?_
        cases ciphertext with
        | none => trivial
        | some ciphertext =>
            refine blind_perform trivial (fun _ _ same => same) fun editedAt => ?_
            refine blind_mark trivial fun updated => ?_
            cases updated with
            | false => trivial
            | true =>
                refine Program.blind_bind (blind_toContact ?_ _) fun _ => ?_
                · exact blind_mark trivial fun _ => trivial
                · exact blind_perform trivial (fun _ _ same => same) fun _ => trivial

theorem deleteDirect_blind (req : HttpRequest) :
    (deleteDirect sodium keys req).Blind (forgetful gone) := by
  refine blind_authed sodium req _ ?_
  repeat' split
  all_goals first
    | trivial
    | refine blind_found (fun _ _ => rfl) fun found => ?_
  cases found with
  | none => trivial
  | some msg =>
      dsimp only
      split
      · trivial
      · refine Program.blind_bind (blind_mark trivial fun _ => trivial) fun _ => ?_
        refine Program.blind_bind (blind_mark trivial fun _ => trivial) fun _ => ?_
        refine Program.blind_bind (blind_toContact ?_ _) fun _ => ?_
        · exact blind_mark trivial fun _ => trivial
        · exact blind_perform trivial (fun _ _ same => same) fun _ => trivial

theorem memberAddress_free (m : GroupMember) : (memberAddress m).Only (Effects.within []) := by
  unfold memberAddress
  dsimp only
  split
  · exact ⟨rfl, fun _ => trivial⟩
  · trivial

theorem sendToMember_blind (messageId groupId text : Str) (timestamp : Int) (allOnline : Bool)
    (m : GroupMember) :
    (sendToMember sodium keys messageId groupId text timestamp allOnline m).Blind
      (forgetful gone) := by
  unfold sendToMember
  split
  · trivial
  · refine Program.blind_bind (blind_free (memberAddress_free m) rfl) fun address => ?_
    refine blind_encrypt sodium _ _ _ fun ciphertext => ?_
    cases ciphertext with
    | none => trivial
    | some ciphertext =>
        refine blind_perform trivial (fun _ _ same => same) fun accepted => ?_
        refine blind_added trivial fun fresh => ?_
        simp only [Bool.not_true, Bool.false_eq_true, ↓reduceIte]
        split
        · trivial
        · refine blind_send fun result => ?_
          split
          · exact blind_mark fresh fun _ => trivial
          · trivial

theorem groupSend_blind (req : HttpRequest) (group : PathId) :
    (groupSend sodium keys req group).Blind (forgetful gone) := by
  refine blind_authed sodium req _ ?_
  repeat' split
  all_goals first
    | trivial
    | refine blind_perform trivial (fun _ _ same => same) fun _ => ?_
  refine blind_perform trivial (fun _ _ same => same) fun _ => ?_
  refine blind_perform trivial (fun _ _ same => same) fun members => ?_
  split
  · trivial
  · refine Program.blind_bind (Program.blind_foldlM (fun m _ allOnline => ?_) true) fun _ => trivial
    exact sendToMember_blind sodium keys _ _ _ _ allOnline m

theorem editAtMember_blind (messageId groupId plaintext : Str) (editedAt : Int) (m : GroupMember) :
    (editAtMember sodium keys messageId groupId plaintext editedAt m).Blind (forgetful gone) := by
  unfold editAtMember
  split
  · trivial
  · refine blind_encrypt sodium _ _ _ fun ciphertext => ?_
    cases ciphertext with
    | none => trivial
    | some ciphertext =>
        refine blind_mark trivial fun _ => ?_
        refine Program.blind_bind (blind_free (memberAddress_free m) rfl) fun address => ?_
        split
        · trivial
        · refine blind_send fun result => ?_
          split
          · exact blind_mark trivial fun _ => trivial
          · trivial

theorem groupEdit_blind (req : HttpRequest) (group : PathId) :
    (groupEdit sodium keys req group).Blind (forgetful gone) := by
  refine blind_authed sodium req _ ?_
  repeat' split
  all_goals first
    | trivial
    | refine blind_found (fun _ _ => rfl) fun found => ?_
  cases found with
  | none => trivial
  | some msg =>
      dsimp only
      split
      · trivial
      · split
        · trivial
        · refine blind_perform trivial (fun _ _ same => same) fun members => ?_
          split
          · trivial
          · refine blind_perform trivial (fun _ _ same => same) fun editedAt => ?_
            refine Program.blind_bind (Program.blind_forM fun m _ => ?_) fun _ => ?_
            · exact editAtMember_blind sodium keys _ _ _ _ m
            · exact blind_perform trivial (fun _ _ same => same) fun _ => trivial

theorem deleteAtMember_blind (messageId groupId : Str) (m : GroupMember) :
    (deleteAtMember keys messageId groupId m).Blind (forgetful gone) := by
  unfold deleteAtMember
  split
  · trivial
  · refine Program.blind_bind (blind_free (memberAddress_free m) rfl) fun address => ?_
    split
    · trivial
    · refine blind_send fun result => ?_
      split
      · exact blind_mark trivial fun _ => trivial
      · trivial

theorem groupDelete_blind (req : HttpRequest) (group : PathId) :
    (groupDelete sodium keys req group).Blind (forgetful gone) := by
  refine blind_authed sodium req _ ?_
  repeat' split
  all_goals first
    | trivial
    | refine blind_found (fun _ _ => rfl) fun found => ?_
  cases found with
  | none => trivial
  | some msg =>
      dsimp only
      split
      · trivial
      · split
        · trivial
        · refine Program.blind_bind (blind_mark trivial fun _ => trivial) fun _ => ?_
          refine Program.blind_bind (blind_mark trivial fun _ => trivial) fun _ => ?_
          refine blind_perform trivial (fun _ _ same => same) fun members => ?_
          refine Program.blind_bind (Program.blind_forM fun m _ => ?_) fun _ => ?_
          · exact deleteAtMember_blind keys _ _ m
          · exact blind_perform trivial (fun _ _ same => same) fun _ => trivial

theorem acceptMessage_blind (body : Option Json) :
    (acceptMessage sodium keys body).Blind (forgetful gone) := by
  unfold acceptMessage
  repeat' split
  all_goals first
    | trivial
    | refine blind_added trivial fun _ => ?_
  exact blind_perform trivial (fun _ _ same => same) fun _ => trivial

theorem acceptEdit_blind (body : Option Json) :
    (acceptEdit sodium keys body).Blind (forgetful gone) := by
  unfold acceptEdit
  repeat' split
  all_goals first
    | trivial
    | refine blind_found (fun _ _ => rfl) fun found => ?_
  all_goals
    cases found with
    | none => trivial
    | some msg =>
        first
          | trivial
          | refine blind_mark trivial fun updated => ?_
            cases updated with
            | false => trivial
            | true =>
                refine Program.blind_bind (blind_mark trivial fun _ => trivial) fun _ => ?_
                exact blind_perform trivial (fun _ _ same => same) fun _ => trivial

theorem acceptDelete_blind (body : Option Json) :
    (acceptDelete keys body).Blind (forgetful gone) := by
  unfold acceptDelete
  repeat' split
  all_goals first
    | trivial
    | refine blind_found (fun _ _ => rfl) fun found => ?_
  cases found with
  | none => trivial
  | some msg =>
      dsimp only
      split
      · trivial
      · refine Program.blind_bind (blind_mark trivial fun _ => trivial) fun _ => ?_
        exact blind_perform trivial (fun _ _ same => same) fun _ => trivial

theorem retried_blind {retry : Proc Bool} {condition : Prop} [Decidable condition]
    {mark : Proc Unit} (retries : retry.Blind (forgetful gone))
    (marks : mark.Blind (forgetful gone)) :
    (do if !(← retry) then if condition then mark).Blind (forgetful gone) := by
  refine Program.blind_bind retries fun done => ?_
  cases done with
  | true => trivial
  | false =>
      simp only [Bool.not_false, if_true]
      split
      · exact marks
      · trivial

theorem retryPendingMessage_blind (currentTime : Int) {msg : Message}
    (stays : gone (cstr msg.messageId) = false) :
    (retryPendingMessage currentTime msg).Blind (forgetful gone) := by
  refine retried_blind (blind_toContact ?_ _) ?_
  · exact blind_mark stays fun _ => trivial
  · exact blind_mark stays fun _ => trivial

theorem retryPendingEdit_blind (currentTime : Int) (msg : Message) :
    (retryPendingEdit currentTime msg).Blind (forgetful gone) := by
  refine retried_blind (blind_toContact ?_ _) ?_
  · exact blind_mark trivial fun _ => trivial
  · exact blind_mark trivial fun _ => trivial

theorem retryPendingDelete_blind (currentTime : Int) (msg : Message) :
    (retryPendingDelete currentTime msg).Blind (forgetful gone) := by
  refine retried_blind (blind_toContact ?_ _) ?_
  · exact blind_mark trivial fun _ => trivial
  · exact blind_mark trivial fun _ => trivial

/-- Edits and deletes are also pending of messages that are gone. -/
theorem blind_edits {rest : List Message → Proc Value}
    (unread : ∀ left right, left.map wiped = right.map wiped → rest left = rest right)
    (later : ∀ rows, (rest rows).Blind (forgetful gone)) :
    (getPendingEdits >>= rest).Blind (forgetful gone) :=
  ⟨trivial, fun left right told => ⟨unread left right told, later left⟩⟩

theorem blind_deletes {rest : List Message → Proc Value}
    (unread : ∀ left right, left.map wiped = right.map wiped → rest left = rest right)
    (later : ∀ rows, (rest rows).Blind (forgetful gone)) :
    (getPendingDeletes >>= rest).Blind (forgetful gone) :=
  ⟨trivial, fun left right told => ⟨unread left right told, later left⟩⟩

theorem retryPass_blind : retryPass.Blind (forgetful gone) := by
  refine ⟨trivial, fun (pendingMessages : List Message) others told => ?_⟩
  obtain ⟨rfl, stay⟩ := told
  refine ⟨rfl, blind_edits (fun left right told => ?_) fun pendingEdits => ?_⟩
  · have same : ∀ currentTime, left.forM (retryPendingEdit currentTime) =
        right.forM (retryPendingEdit currentTime) :=
      fun currentTime => forM_wiped (fun _ _ => rfl) told
    simp only [same]
  refine blind_perform trivial (fun _ _ same => same) fun updates => ?_
  refine Program.blind_bind (Program.blind_forM fun u _ => ?_) fun _ => ?_
  · refine Program.blind_bind (blind_toContact ?_ _) fun _ => trivial
    exact blind_perform trivial (fun _ _ same => same) fun _ => trivial
  refine blind_deletes (fun left right told => ?_) fun pendingDeletes => ?_
  · have same : ∀ currentTime, left.forM (retryPendingDelete currentTime) =
        right.forM (retryPendingDelete currentTime) :=
      fun currentTime => forM_wiped (fun _ _ => rfl) told
    simp only [same]
  refine blind_perform trivial (fun _ _ same => same) fun currentTime => ?_
  refine Program.blind_bind (Program.blind_forM fun msg member => ?_) fun _ =>
    Program.blind_bind (Program.blind_forM fun msg _ => ?_) fun _ =>
      Program.blind_forM fun msg _ => ?_
  · exact retryPendingMessage_blind currentTime (stay msg member)
  · exact retryPendingEdit_blind currentTime msg
  · exact retryPendingDelete_blind currentTime msg

end Programs

/-! Whole networks. -/
section Runs
variable {Host : Type} (network : Deployment Host) {gone : Str → Bool}

theorem serve_blind (host : Host) (request : Request) :
    (network.serve host request).Blind (forgetful gone) := by
  have inside := Effects.serve_within network host request
  obtain ⟨serverAddress, endpoint, body⟩ := request
  cases endpoint with
  | acceptMessage => exact acceptMessage_blind _ _ (some body)
  | acceptEdit => exact acceptEdit_blind _ _ (some body)
  | acceptDelete => exact acceptDelete_blind _ (some body)
  | _ => exact blind_free inside rfl

theorem program_blind (host : Host) (task : Task) :
    (network.program host task).Blind (forgetful gone) := by
  have inside := Effects.program_within network host task
  cases task with
  | sendMessage req => exact sendDirect_blind _ _ req
  | editMessage req => exact editDirect_blind _ _ req
  | deleteMessage req => exact deleteDirect_blind _ _ req
  | groupSend req group => exact groupSend_blind _ _ req group
  | groupEdit req group => exact groupEdit_blind _ _ req group
  | groupDelete req group => exact groupDelete_blind _ _ req group
  | retryPass => exact Program.blind_bind retryPass_blind fun _ => trivial
  | incoming endpoint body =>
      cases endpoint with
      | acceptMessage => exact acceptMessage_blind _ _ body
      | acceptEdit => exact acceptEdit_blind _ _ body
      | acceptDelete => exact acceptDelete_blind _ body
      | _ => exact blind_free inside rfl
  | _ => exact blind_free inside rfl

theorem forgetful_twinned (gone : Host → Str → Bool) :
    Rpc.Twinned network.system (fun host => forgetful (gone host))
      fun host => Alike (gone host) where
  tells _ input operation _ _ alike := alike.told input operation
  keeps _ input operation _ _ spares alike := alike.kept input operation spares
  answers _ _ _ := rfl
  program host task := program_blind network host task
  serve host request := serve_blind network host request

/-- A row but for the text it keeps when it is deleted. -/
def shown (row : Message) : Message := if row.accepted = 3 then wiped row else row

/-- Two stores that differ at most in the texts of deleted messages. -/
structure SameShown (left right : Store) : Prop where
  others : right = { left with messages := right.messages }
  rows : left.messages.rows.map shown = right.messages.rows.map shown

/-- The messages deleted in a store. -/
def deletedIn (store : Store) (id : Str) : Bool :=
  store.messages.rows.any fun row => row.messageId = id && row.accepted = 3

theorem shown_messageId (row : Message) : (shown row).messageId = row.messageId := by
  unfold shown
  split <;> rfl

theorem shown_accepted (row : Message) : (shown row).accepted = row.accepted := by
  unfold shown
  split <;> rfl

theorem deletedIn_row {store : Store} {row : Message} (member : row ∈ store.messages.rows) :
    deletedIn store row.messageId = true ↔ row.accepted = 3 := by
  simp only [deletedIn, List.any_eq_true, Bool.and_eq_true, decide_eq_true_eq]
  constructor
  · rintro ⟨other, there, same, deleted⟩
    have equal : some other = some row :=
      ((store.messages.find_eq_some _ _).mpr ⟨there, same⟩).symm.trans
        ((store.messages.find_eq_some _ _).mpr ⟨member, rfl⟩)
    cases equal
    exact deleted
  · exact fun deleted => ⟨row, member, rfl, deleted⟩

theorem map_hide_deletedIn (store : Store) :
    store.messages.rows.map (hide (deletedIn store)) = store.messages.rows.map shown := by
  refine List.map_congr_left fun row member => ?_
  unfold hide shown
  simp only [deletedIn_row member]

variable {left right : Store}

theorem SameShown.deletedIn (same : SameShown left right) : deletedIn left = deletedIn right := by
  funext id
  have seen : ∀ store : Store, Forgetting.deletedIn store id =
      (store.messages.rows.map shown).any fun row => row.messageId = id && row.accepted = 3 := by
    intro store
    rw [List.any_map]
    simp only [Function.comp_def, shown_messageId, shown_accepted]
    rfl
  rw [seen, seen, same.rows]

theorem SameShown.alike (same : SameShown left right) :
    Alike (Forgetting.deletedIn left) left right where
  others := same.others
  rows := by
    rw [map_hide_deletedIn, same.deletedIn, map_hide_deletedIn, same.rows]
  deleted row member isGone := (deletedIn_row member).mp isGone
  there id isGone := by
    simp only [Forgetting.deletedIn, List.any_eq_true, Bool.and_eq_true, decide_eq_true_eq] at isGone
    obtain ⟨row, member, key, _⟩ := isGone
    exact (Table.has_iff _ _).mpr ⟨row, (Table.find_eq_some _ _ _).mpr ⟨member, key⟩⟩

theorem Alike.sameShown {gone : Str → Bool} (alike : Alike gone left right) :
    SameShown left right where
  others := alike.others
  rows := by
    have through : ∀ rows : List Message,
        (∀ row ∈ rows, gone row.messageId = true → row.accepted = 3) →
        rows.map shown = (rows.map (hide gone)).map shown := by
      intro rows deleted
      rw [List.map_map]
      refine List.map_congr_left fun row member => ?_
      rw [Function.comp_apply, hide]
      split
      · next isGone => simp [shown, wiped, deleted row member isGone]
      · rfl
    rw [through _ alike.deleted, through _ alike.deletedRight, alike.rows]

variable [DecidableEq Host]

/-- Where two networks differ in nothing but the texts of deleted messages, each run of the one
is step by step a run of the other: the same requests, pushes and answers, and stores that
again differ in nothing else. -/
theorem deleted_text_forgotten {stores others : Host → Store}
    (same : ∀ host, SameShown (stores host) (others host)) {labels : List (Action Host)}
    {world : World Host} (trail : Rpc.Trail network.system ⟨stores, [], []⟩ labels world) :
    ∃ other, Rpc.Trail network.system ⟨others, [], []⟩ labels other ∧ other.jobs = world.jobs ∧
      other.threads.map Rpc.Thread.face = world.threads.map Rpc.Thread.face ∧
      ∀ host, SameShown (world.stores host) (other.stores host) := by
  obtain ⟨other, taken, indistinct⟩ := Rpc.indistinct_run
    (forgetful_twinned network fun host => deletedIn (stores host))
    (fun host => (same host).alike) trail
  exact ⟨other, taken, indistinct.jobs.symm, indistinct.faces.symm,
    fun host => (indistinct.stores host).sameShown⟩

/-- The first node once sent a message with this text and deleted it. -/
def withDeleted (text : Str) (host : Bool) : Store :=
  if host then
    { acquainted host with
      messages := DbManager.addMessage ⟨str "old", pair.id true, pair.id false, [], text, [], 3, 1, 0,
        0, 1, 0⟩ .empty }
  else acquainted host

theorem withDeleted_same (host : Bool) :
    SameShown (withDeleted (str "x") host) (withDeleted (str "y") host) := by
  cases host with
  | false => exact ⟨rfl, rfl⟩
  | true => exact ⟨rfl, by decide⟩

theorem greeting_forgotten : ∃ world other : World Bool, world.jobs ≠ [] ∧
    other.jobs = world.jobs ∧ ∀ host, SameShown (world.stores host) (other.stores host) := by
  have ran : ((Rpc.run pair.system (fun _ _ => true) Delivery.greeting
      ⟨withDeleted (str "x"), [], []⟩).map fun world => world.jobs.isEmpty) = some false := by
    decide +kernel
  obtain ⟨world, scheduled, posted⟩ := Option.map_eq_some_iff.mp ran
  obtain ⟨other, _, jobs, _, stores⟩ := deleted_text_forgotten pair withDeleted_same
    (Rpc.run_trail .start Delivery.greeting scheduled)
  exact ⟨world, other, fun none => by simp [none] at posted, jobs, stores⟩

end Runs
end NoMiddle.Forgetting
