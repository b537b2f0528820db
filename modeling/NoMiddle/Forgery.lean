import NoMiddle.PeerFrame
import NoMiddle.PeerRoutes
import NoMiddle.Rejection
import NoMiddle.Network

/-! What somebody without keys can do to a node through the routes for peers. A message
and an edit must open under the id they give; a delete and a snapshot need not, and an
edit may open under one id and change the message of another. -/
namespace NoMiddle.Forgery
open Library Text Crypto DbManager DbViews Node Handlers Network Solo
open Conduct (Received ReceivedEdit ReceivedDelete)
open PeerFrame (edited find_edited)
open Rejection (header memberEntries RecordsNothing accept_cases recordGroup_iff recorded_iff
  storeMembers_iff)

/-- A request to one of the routes for peers. -/
structure Incoming where
  endpoint : Endpoint
  body : Option Json

/-- The messages of honest senders, the groups and their members are as they were. -/
structure Unchanged (honest : Str → Prop) (before after : Store) : Prop where
  messages : ∀ id row, honest row.senderId →
    (before.messages.find id = some row ↔ after.messages.find id = some row)
  groups : after.groups = before.groups
  groupMembers : after.groupMembers = before.groupMembers

theorem Unchanged.refl (honest : Str → Prop) (store : Store) : Unchanged honest store store :=
  ⟨fun _ _ _ => Iff.rfl, rfl, rfl⟩

theorem Unchanged.trans {honest : Str → Prop} {before middle after : Store}
    (first : Unchanged honest before middle) (second : Unchanged honest middle after) :
    Unchanged honest before after where
  messages id row trusted := (first.messages id row trusted).trans (second.messages id row trusted)
  groups := second.groups.trans first.groups
  groupMembers := second.groupMembers.trans first.groupMembers

variable {Host : Type} (network : Deployment Host) (host : Host) (honest : Str → Prop)

/-- Whoever made the request could seal nothing in an honest party's name. -/
def Keyless (incoming : Incoming) : Prop :=
  ∀ body senderId ciphertext, incoming.body = some body → body.s? "sender_id" = some senderId →
    body.s? "ciphertext" = some ciphertext → honest senderId →
    decryptMessage network.sodium ciphertext senderId (network.keys host).privateKeyB64 = none

/-- The request is no accepted edit and no delete that changes an honest party's message,
and no snapshot that is written anywhere. -/
structure Barred (store : Store) (incoming : Incoming) : Prop where
  edit : incoming.endpoint = .acceptEdit → ∀ body messageId plaintext ciphertext editedAt row,
    incoming.body = some body →
    ReceivedEdit network.sodium (network.keys host) body messageId plaintext ciphertext editedAt →
    store.messages.find (cstr messageId) = some row → honest row.senderId →
    edited plaintext ciphertext editedAt row = row
  delete : incoming.endpoint = .acceptDelete → ∀ body messageId row, incoming.body = some body →
    ReceivedDelete (network.keys host) body messageId row.senderId →
    store.messages.find (cstr messageId) = some row → honest row.senderId →
    row.accepted = messageDeleted
  update : incoming.endpoint = .acceptGroupUpdate → ∀ read, header incoming.body = some read →
    RecordsNothing store read ∧ memberEntries read.dataJson = none

variable {network host honest} {sodium : Sodium} {keys : KeyPair} {body : Json} {desk : Desk}

/-- One row is changed, and not if its sender is honest. -/
theorem unchanged_of_change {before after : Store} (key : Str) (change : Message → Message)
    (sender : ∀ row, (change row).senderId = row.senderId)
    (found : ∀ id, after.messages.find id = (before.messages.find id).map fun row =>
      if id = key then change row else row)
    (harmless : ∀ row, before.messages.find key = some row → honest row.senderId →
      change row = row)
    (groups : after.groups = before.groups) (members : after.groupMembers = before.groupMembers) :
    Unchanged honest before after where
  messages id row trusted := by
    rw [found]
    by_cases here : id = key
    · subst here
      cases there : before.messages.find id with
      | none => simp
      | some old =>
          simp only [Option.map_some, ↓reduceIte, Option.some.injEq]
          constructor
          · rintro rfl
            exact harmless old there trusted
          · rintro rfl
            exact (harmless old there (sender old ▸ trusted)).symm
    · simp [here]
  groups := groups
  groupMembers := members

theorem unchanged_insert {before : Store} {msg : Message} (stranger : ¬honest (cstr msg.senderId)) :
    Unchanged honest before { before with messages := addMessage msg before.messages } where
  messages id row trusted := by
    have inserted : (addMessage msg before.messages).find id = (before.messages.find id).or
        (if cstr msg.messageId = id then some msg.stored else none) :=
      before.messages.find_insert msg.stored msg.stored_clean id
    dsimp only
    rw [inserted]
    cases found : before.messages.find id with
    | some old => simp
    | none =>
        have other : msg.stored ≠ row := by
          rintro rfl
          exact stranger trusted
        by_cases key : cstr msg.messageId = id <;> simp [key, other]
  groups := rfl
  groupMembers := rfl

theorem acceptMessage_unchanged
    (sealedBy : ∀ msg, Received sodium keys body msg → ¬honest msg.senderId) :
    (acceptMessage sodium keys (some body)).wp contract
      (fun _ after => Unchanged honest desk.store after.store) desk := by
  refine Program.wp_mono monotone _ (fun response after outcome => ?_) desk
    PeerRoutes.acceptMessage_outcome
  rcases outcome with ⟨_, msg, received, _, stored⟩ | ⟨_, same, _⟩
  · rw [stored]
    apply unchanged_insert
    rw [cstr_of_clean (decryptMessage_clean received.opened).2]
    exact sealedBy msg received
  · rw [same]
    exact .refl honest desk.store

theorem acceptEdit_unchanged
    (barred : ∀ messageId plaintext ciphertext editedAt row,
      ReceivedEdit sodium keys body messageId plaintext ciphertext editedAt →
      desk.store.messages.find (cstr messageId) = some row → honest row.senderId →
      edited plaintext ciphertext editedAt row = row) :
    (acceptEdit sodium keys (some body)).wp contract
      (fun _ after => Unchanged honest desk.store after.store) desk := by
  have refuse : Unchanged honest desk.store desk.store := .refl honest desk.store
  unfold acceptEdit
  dsimp only
  rcases body.hasAll? ["message_id", "sender_id", "recipient_id", "ciphertext", "edited_at"]
    with _ | _ | _
  · exact refuse
  · exact refuse
  rcases named : body.s? "message_id" with _ | messageId
  · exact refuse
  rcases sender : body.s? "sender_id" with _ | senderId
  · exact refuse
  rcases recipient : body.s? "recipient_id" with _ | recipientId
  · exact refuse
  rcases sealedText : body.s? "ciphertext" with _ | ciphertext
  · exact refuse
  rcases time : body.i? "edited_at" with _ | editedAt
  · exact refuse
  simp only [Bool.not_true, Bool.false_eq_true, ↓reduceIte]
  split
  · exact refuse
  next self =>
  apply wp_perform
  intro reading
  rcases (handle reading (.call (.getMessage messageId)) desk.store).1 with _ | msg
  · exact refuse
  rcases opened : decryptMessage sodium ciphertext senderId keys.privateKeyB64 with _ | plaintext
  · exact refuse
  have received : ReceivedEdit sodium keys body messageId plaintext ciphertext editedAt :=
    ⟨named, not_not.mp self ▸ recipient, sealedText, time, senderId, sender, opened⟩
  apply wp_perform
  intro first
  apply wp_mark
  intro second
  apply wp_perform
  intro _
  exact unchanged_of_change (cstr messageId) (edited plaintext ciphertext editedAt) (fun _ => rfl)
    (find_edited first.now second messageId plaintext ciphertext editedAt desk.store.messages)
    (fun row => barred messageId plaintext ciphertext editedAt row received) rfl rfl

theorem acceptDelete_unchanged
    (barred : ∀ messageId row, ReceivedDelete keys body messageId row.senderId →
      desk.store.messages.find (cstr messageId) = some row → honest row.senderId →
      row.accepted = messageDeleted) :
    (acceptDelete keys (some body)).wp contract
      (fun _ after => Unchanged honest desk.store after.store) desk := by
  have refuse : Unchanged honest desk.store desk.store := .refl honest desk.store
  unfold acceptDelete
  dsimp only
  rcases body.hasAll? ["message_id", "sender_id", "recipient_id"] with _ | _ | _
  · exact refuse
  · exact refuse
  rcases named : body.s? "message_id" with _ | messageId
  · exact refuse
  rcases sender : body.s? "sender_id" with _ | senderId
  · exact refuse
  rcases recipient : body.s? "recipient_id" with _ | recipientId
  · exact refuse
  simp only [Bool.not_true, Bool.false_eq_true, ↓reduceIte]
  split
  · exact refuse
  next self =>
  apply wp_perform
  intro reading
  rcases found : (handle reading (.call (.getMessage messageId)) desk.store).1 with _ | msg
  · exact refuse
  dsimp only
  split
  · exact refuse
  next own =>
  apply wp_mark
  intro now
  apply wp_perform
  intro _
  refine unchanged_of_change (cstr messageId) (Mark.set now · .deleted) (fun _ => rfl) (fun id => ?_)
    (fun row there trusted => ?_) rfl rfl
  · refine (messages_exec now desk.store (.updateMessages messageId none .deleted) id).trans ?_
    cases there : desk.store.messages.find id with
    | none => rfl
    | some row =>
        have key := desk.store.messages.find_key there
        simp [onMessage, addressed, key]
  · have same : some row = some msg := there.symm.trans found
    cases same
    have deleted := barred messageId msg
      ⟨named, not_not.mp own ▸ sender, not_not.mp self ▸ recipient⟩ there trusted
    simp only [Mark.set]
    rw [show (3 : Int) = messageDeleted from rfl, ← deleted]

theorem acceptGroupUpdate_unchanged {body : Option Json}
    (barred : ∀ read, header body = some read →
      RecordsNothing desk.store read ∧ memberEntries read.dataJson = none) :
    (acceptGroupUpdate body).wp contract
      (fun _ after => Unchanged honest desk.store after.store) desk := by
  rcases accept_cases body with ⟨_, response, _, same⟩ | ⟨read, headed, same⟩
  · rw [same]
    exact Unchanged.refl honest desk.store
  · obtain ⟨nothing, unreadable⟩ := barred read headed
    rw [same, recordGroup_iff]
    intro createdAt
    rw [storeMembers_iff, unreadable, (recorded_iff read).mpr nothing createdAt]
    exact Unchanged.refl honest desk.store

theorem incoming_unchanged {incoming : Incoming} (keyless : Keyless network host honest incoming)
    (barred : Barred network host honest desk.store incoming) :
    (network.receive host incoming.endpoint incoming.body).wp contract
      (fun _ after => Unchanged honest desk.store after.store) desk := by
  have refuse : Unchanged honest desk.store desk.store := .refl honest desk.store
  obtain ⟨endpoint, body⟩ := incoming
  cases endpoint with
  | acceptMessage =>
      cases body with
      | none => exact refuse
      | some body =>
          refine acceptMessage_unchanged fun msg received trusted => ?_
          cases (keyless body _ _ rfl received.senderId received.ciphertext trusted).symm.trans
            received.opened
  | acceptEdit =>
      cases body with
      | none => exact refuse
      | some body =>
          exact acceptEdit_unchanged fun messageId plaintext ciphertext editedAt row =>
            barred.edit rfl body messageId plaintext ciphertext editedAt row rfl
  | acceptDelete =>
      cases body with
      | none => exact refuse
      | some body =>
          exact acceptDelete_unchanged fun messageId row => barred.delete rfl body messageId row rfl
  | acceptGroupUpdate => exact acceptGroupUpdate_unchanged (barred.update rfl)
  | publicKey => exact refuse

/-- However many requests somebody without keys makes: if each is barred where it comes,
the honest parties' messages, the groups and their members stay as they are. -/
theorem keyless_changes_nothing (network : Deployment Host) (host : Host) (honest : Str → Prop)
    {initial store : Store}
    (visits : Visits (fun incoming : Incoming => network.receive host incoming.endpoint incoming.body)
      (fun store incoming => Keyless network host honest incoming ∧
        Barred network host honest store incoming) initial store) :
    Unchanged honest initial store := by
  refine visits.invariant (Unchanged honest initial) (.refl honest initial) ?_
  intro before incoming response after unchanged meets ran
  exact unchanged.trans ((Program.wp_demonic_iff step _ _ _).mp
    (incoming_unchanged meets.1 meets.2) response after ran)

section Runs

def stranger : KeyPair := .filled 3

/-- The node and its one contact. -/
def Known (id : Str) : Prop := id = pair.id true ∨ id = pair.id false

abbrev route (incoming : Incoming) : Proc Response :=
  pair.receive true incoming.endpoint incoming.body

/-- A message to the node, sealed by its sender. -/
def delivery (messageId senderId : Str) : Incoming :=
  ⟨.acceptMessage, some (.obj [("message_id", .str messageId), ("sender_id", .str senderId),
    ("recipient_id", .str (pair.id true)),
    ("ciphertext", .str (binToBase64 (List.replicate 40 0 ++ str "hello"))),
    ("timestamp", .num 3)])⟩

def draws : List (Input × Option Response) := List.replicate 10 (clockAt 5, none)

instance (id : Str) : Decidable (Known id) := inferInstanceAs (Decidable (_ ∨ _))

def field (incoming : Incoming) (key : String) : Option Str := incoming.body.bind (·.s? key)

/-- What is sealed does not open under the id given. -/
def unopened (incoming : Incoming) : Bool :=
  ((field incoming "sender_id").bind fun senderId => (field incoming "ciphertext").bind
    fun ciphertext =>
      decryptMessage pair.sodium ciphertext senderId (pair.keys true).privateKeyB64).isNone

def named (store : Store) (incoming : Incoming) : Option Message :=
  (field incoming "message_id").bind fun messageId => store.messages.find (cstr messageId)

/-- A check that implies the two conditions. -/
def harmless (store : Store) (incoming : Incoming) : Bool :=
  (unopened incoming || (field incoming "sender_id").all fun id => decide (¬Known id)) &&
    match incoming.endpoint with
    | .acceptEdit => unopened incoming ||
        (named store incoming).all fun row => decide (¬Known row.senderId)
    | .acceptDelete => (named store incoming).all fun row =>
        decide (field incoming "sender_id" ≠ some row.senderId) || decide (¬Known row.senderId)
    | .acceptGroupUpdate => (header incoming.body).all fun read =>
        (memberEntries read.dataJson).isNone && (store.groups.find (cstr read.groupId)).any fun g =>
          decide (read.groupName = [] ∨ cstr read.groupName = g.name)
    | _ => true

theorem harmless_keyless {store : Store} {incoming : Incoming}
    (passes : harmless store incoming = true) : Keyless pair true Known incoming := by
  rintro body senderId ciphertext given sender sealedText trusted
  obtain ⟨sealing, _⟩ := (Bool.and_eq_true _ _).mp passes
  simpa [unopened, field, given, sender, sealedText, trusted] using sealing

theorem harmless_barred {store : Store} {incoming : Incoming}
    (passes : harmless store incoming = true) : Barred pair true Known store incoming := by
  obtain ⟨_, kept⟩ := (Bool.and_eq_true _ _).mp passes
  constructor
  · intro edits body messageId plaintext ciphertext editedAt row given received found trusted
    obtain ⟨senderId, sender, opened⟩ := received.opened
    simp [edits, unopened, named, field, given, sender, received.sealedText, received.messageId,
      opened, found, trusted] at kept
  · intro deletes body messageId row given received found trusted
    simp [deletes, named, field, given, received.senderId, received.messageId, found,
      trusted] at kept
  · intro updates read headed
    simp only [updates, headed, Option.all_some, Bool.and_eq_true, Option.isNone_iff_eq_none,
      Option.any_eq_true, decide_eq_true_eq] at kept
    obtain ⟨unreadable, g, found, same⟩ := kept
    exact ⟨⟨g, found, same⟩, unreadable⟩

/-- The contact's message is there, and a group. -/
def befriended : Store :=
  { acquainted true with
    messages := DbManager.addMessage ⟨str "h", pair.id false, pair.id true, [], str "hi", str "x",
      1, 2, 0, 0, 1, 0⟩ .empty
    groups := DbManager.createGroup ⟨str "g", str "friends", pair.id true, 1⟩ .empty }

/-- A change of a message, sealed as before. -/
def rewriting (messageId : String) (senderId ciphertext : Str) : Incoming :=
  ⟨.acceptEdit, some (.obj [("message_id", .str (str messageId)), ("sender_id", .str senderId),
    ("recipient_id", .str (pair.id true)), ("ciphertext", .str ciphertext),
    ("edited_at", .num 4)])⟩

/-- A message of the stranger's own, which he changes; then an edit, a delete and a snapshot that
are refused. -/
def attempts : List Incoming :=
  [delivery (str "m") stranger.publicKeyB64,
    rewriting "m" stranger.publicKeyB64 (binToBase64 (List.replicate 40 0 ++ str "bye")),
    rewriting "h" (pair.id false) (str "AAAA"),
    ⟨.acceptDelete, some (.obj [("message_id", .str (str "h")),
      ("sender_id", .str stranger.publicKeyB64), ("recipient_id", .str (pair.id true))])⟩,
    ⟨.acceptGroupUpdate, some (.obj [("group_id", .str (str "g")), ("name", .str (str "friends")),
      ("members", .arr [.obj [("member_id", .str stranger.publicKeyB64)]])])⟩]

theorem stranger_sends : ∃ store, Unchanged Known befriended store ∧
    ((store.messages.find (str "m")).map fun row => (row.senderId, row.editedAt)) =
      some (stranger.publicKeyB64, 4) ∧
    (∃ row, store.messages.find (str "h") = some row ∧ row.senderId = pair.id false) := by
  have ran : (visitIf route harmless (attempts.map fun incoming => (incoming, draws))
      befriended).map (fun store =>
        (store.messages.find (str "m")).map fun row => (row.senderId, row.editedAt)) =
      some (some (stranger.publicKeyB64, 4)) := by
    decide +kernel
  obtain ⟨store, visited, edited⟩ := Option.map_eq_some_iff.mp ran
  have unchanged := keyless_changes_nothing pair true Known
    (visitIf_visits (fun _ _ passes => ⟨harmless_keyless passes, harmless_barred passes⟩) _ .start
      visited)
  have before : (befriended.messages.find (str "h")).map (·.senderId) = some (pair.id false) := by
    decide +kernel
  obtain ⟨row, found, sender⟩ := Option.map_eq_some_iff.mp before
  exact ⟨store, unchanged, edited, row,
    (unchanged.messages _ row (.inr sender)).mp found, sender⟩

/-- A delete in the contact's name, and a snapshot of a new group. -/
def forgeries : List Incoming :=
  [⟨.acceptDelete, some (.obj [("message_id", .str (str "m")), ("sender_id", .str (pair.id false)),
      ("recipient_id", .str (pair.id true))])⟩,
    ⟨.acceptGroupUpdate, some (.obj [("group_id", .str (str "g")), ("members", .arr
      [.obj [("member_id", .str stranger.publicKeyB64), ("server_address", .str (str "c")),
        ("role", .str (str "admin"))]])])⟩]

/-- The contact's message arrives; the two requests follow. -/
def forged : Option (Store × Store) :=
  (visit (pair.program true) [(.incoming .acceptMessage (delivery (str "m") (pair.id false)).body,
      draws)] (acquainted true)).bind fun initial =>
    (visit route (forgeries.map fun incoming => (incoming, draws)) initial).map fun store =>
      (initial, store)

theorem keyless_changes : ∃ (initial store : Store),
    Visits (pair.program true) (fun _ _ => True) (acquainted true) initial ∧
    Visits route (fun _ incoming => Keyless pair true Known incoming) initial store ∧
    (∃ row, Known row.senderId ∧ initial.messages.find (str "m") = some row ∧
      store.messages.find (str "m") ≠ some row) ∧
    store.groups ≠ initial.groups ∧ store.groupMembers ≠ initial.groupMembers := by
  have ran : forged.map (fun (initial, store) =>
      ((initial.messages.find (str "m")).map (fun row => (row.senderId, row.accepted)),
        (store.messages.find (str "m")).map (·.accepted),
        initial.groups.rows.length, store.groups.rows.length,
        initial.groupMembers.rows.length, store.groupMembers.rows.length)) =
      some (some (pair.id false, 1), some 3, 0, 1, 0, 1) := by
    decide +kernel
  obtain ⟨⟨initial, store⟩, done, facts⟩ := Option.map_eq_some_iff.mp ran
  simp only [Prod.mk.injEq] at facts
  obtain ⟨first, last, noGroup, oneGroup, noMember, oneMember⟩ := facts
  obtain ⟨_, begun, rest⟩ := Option.bind_eq_some_iff.mp done
  obtain ⟨_, ended, same⟩ := Option.map_eq_some_iff.mp rest
  cases same
  obtain ⟨row, found, columns⟩ := Option.map_eq_some_iff.mp first
  simp only [Prod.mk.injEq] at columns
  refine ⟨initial, store, visit_visits _ (fun _ _ _ => trivial) .start begun,
    visit_visits _ (fun _ visited member => ?_) .start ended,
    ⟨row, .inr columns.1, found, fun kept => ?_⟩, fun kept => ?_, fun kept => ?_⟩
  · obtain ⟨incoming, among, rfl⟩ := List.mem_map.mp member
    rintro body senderId ciphertext given _ sealedText _
    simp only [forgeries, List.mem_cons, List.not_mem_nil, or_false] at among
    rcases among with rfl | rfl
    · cases given
      cases sealedText
    · cases given
      cases sealedText
  · rw [kept, Option.map_some, columns.2] at last
    cases last
  · rw [kept, noGroup] at oneGroup
    cases oneGroup
  · rw [kept, noMember] at oneMember
    cases oneMember

end Runs
end NoMiddle.Forgery
