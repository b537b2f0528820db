import NoMiddle.Library.Sweep
import NoMiddle.Targets

/-! What one pass of the worker makes of the tables. Its four loops work through lists that are
as old as their queries, and mark rows by their ids; in the end every row is what its own
attempts make of it. -/
namespace NoMiddle.PassEffect
open Library Text DbManager DbViews Node MessageDelivery RetryWorker Solo
open Library.Sweep (swept)
open Targets (contactAddress)

/-- What the pass may attempt: for a message its id and recipient, for a group update the
group and the member. -/
structure Item where
  endpoint : Endpoint
  id : Str
  party : Str
deriving DecidableEq

def ofMessage (endpoint : Endpoint) (row : Message) : Item :=
  ⟨endpoint, row.messageId, row.recipientId⟩

def ofUpdate (u : GroupUpdate) : Item := ⟨.acceptGroupUpdate, u.groupId, u.memberId⟩

/-- What was attempted, in order, and how it was answered. -/
abbrev Log := Sweep.Log Item (Option Response)

/-- The delivery succeeded. -/
abbrev succeeded (log : Log) (item : Item) : Bool :=
  Sweep.succeeded (fun answer => delivered (answer.map (·.code))) log item

/-- Whoever has no address is not attempted. -/
def attempt (store : Store) (item : Item) : List Item :=
  if (contactAddress store item.party).isEmpty then [] else [item]

theorem mem_attempt {store : Store} {item tried : Item} (member : tried ∈ attempt store item) :
    tried = item := by
  unfold attempt at member
  split at member
  · cases member
  · exact List.mem_singleton.mp member

def attempts (store : Store) : List Item :=
  (pendingGroupUpdates store.groupUpdates).flatMap (fun u => attempt store (ofUpdate u)) ++
  (Query.pendingMessages.rows store.messages).flatMap
    (fun row => attempt store (ofMessage .acceptMessage row)) ++
  (Query.pendingEdits.rows store.messages).flatMap
    (fun row => attempt store (ofMessage .acceptEdit row)) ++
  (Query.pendingDeletes.rows store.messages).flatMap
    (fun row => attempt store (ofMessage .acceptDelete row))

/-- A request by its URL, with its answer. -/
def posted (exchange : Request × Option Response) : Str × Endpoint × Option Response :=
  (exchange.1.serverAddress, exchange.1.endpoint, exchange.2)

/-- The request that is made for an item. -/
def expected (store : Store) (entry : Item × Option Response) : Str × Endpoint × Option Response :=
  (cutServerAddress (contactAddress store entry.1.party), entry.1.endpoint, entry.2)

/-- What a pass at time `t` makes of a message. -/
def settled (t : Int) (log : Log) (row : Message) : Message :=
  { row with
    accepted :=
      if row.accepted = 0 then
        if succeeded log (ofMessage .acceptMessage row) then 1
        else if t - row.timestamp > 86400 then 2
        else 0
      else row.accepted
    editAccepted :=
      if row.editAccepted = 0 ∧ row.editedAt ≠ 0 then
        if succeeded log (ofMessage .acceptEdit row) then 1
        else if t - row.editedAt > 86400 then 2
        else 0
      else row.editAccepted
    deleteAccepted :=
      if row.accepted = 3 ∧ row.deleteAccepted = 0 then
        if succeeded log (ofMessage .acceptDelete row) then 1
        else if row.deletedAt ≠ 0 ∧ t - row.deletedAt > 86400 then 2
        else 0
      else row.deleteAccepted }

/-- What it makes of a group update. -/
def confirmed (log : Log) (u : GroupUpdate) : GroupUpdate :=
  { u with accepted := if u.accepted = 0 ∧ succeeded log (ofUpdate u) then 1 else u.accepted }

/-- The attempts are answered as the log says, and the tables are what they were but for this. -/
structure Exact (before : Store) (t : Int) (log : Log) (after : Desk) : Prop where
  attempted : log.map (·.1) = attempts before
  requests : after.sent.map posted = log.map (expected before)
  messages : after.store.messages.rows = before.messages.rows.map (settled t log)
  updates : after.store.groupUpdates.rows = before.groupUpdates.rows.map (confirmed log)
  others : after.store = { before with
    messages := after.store.messages, groupUpdates := after.store.groupUpdates }

/-! A node running by itself whose clock shows a given time. -/
section Clocked
variable {t : Int} {desk : Desk} {Value : Type} {post : Value → Desk → Prop}

def clocked (t : Int) (drawn : Input × Option Response) (operation : nodeSig.Op) (desk : Desk) :
    nodeSig.Res operation × Desk :=
  act ({ drawn.1 with now := t }, drawn.2) operation desk

abbrev clock (t : Int) : Contract nodeSig Desk := .demonic (Program.Answers (clocked t))

theorem monotone : (clock t).Monotone := Contract.demonic_monotone _

theorem wp_call {db : Call} {rest : db.Res → Proc Value}
    (later : (rest (db.exec t desk.store).1).wp (clock t) post
      ⟨(db.exec t desk.store).2, desk.sent⟩) :
    (call db >>= rest).wp (clock t) post desk := by
  rintro _ _ ⟨drawn, ⟨⟩⟩
  exact later

theorem wp_time {rest : Int → Proc Value} (later : (rest t).wp (clock t) post desk) :
    (time >>= rest).wp (clock t) post desk := by
  rintro _ _ ⟨drawn, ⟨⟩⟩
  exact later

theorem wp_send {serverAddress : Str} {endpoint : Endpoint} {body : Json}
    {rest : Option Nat → Proc Value}
    (later : ∀ answer : Option Response, (rest (answer.map (·.code))).wp (clock t) post
      ⟨desk.store, desk.sent ++ [(⟨serverAddress, endpoint, body⟩, answer)]⟩) :
    (sendMessage serverAddress endpoint body >>= rest).wp (clock t) post desk := by
  rintro _ _ ⟨drawn, ⟨⟩⟩
  exact later drawn.2

end Clocked

/-! One turn of a loop over messages. -/
section Turns
variable {t : Int} {before : Store} {log : Log}

/-- The three loops over messages. -/
inductive Kind where
  | message
  | edit
  | delete
deriving DecidableEq

namespace Kind

def endpoint : Kind → Endpoint
  | message => .acceptMessage
  | edit => .acceptEdit
  | delete => .acceptDelete

/-- No loop over messages posts group updates. -/
theorem endpoint_ne (kind : Kind) : kind.endpoint ≠ .acceptGroupUpdate := by
  cases kind <;> decide

def query : Kind → Query
  | message => .pendingMessages
  | edit => .pendingEdits
  | delete => .pendingDeletes

def turn (t : Int) (row : Message) : Kind → Proc Unit
  | message => retryPendingMessage t row
  | edit => retryPendingEdit t row
  | delete => retryPendingDelete t row

def done : Kind → Mark
  | message => .accepted
  | edit => .editAccepted
  | delete => .deleteAccepted

def failed : Kind → Mark
  | message => .failed
  | edit => .editFailed
  | delete => .deleteFailed

def late (t : Int) (row : Message) : Kind → Prop
  | message => t - row.timestamp > dayLimit
  | edit => row.editedAt ≠ 0 ∧ t - row.editedAt > dayLimit
  | delete => row.deletedAt ≠ 0 ∧ t - row.deletedAt > dayLimit

instance (t : Int) (row : Message) : (kind : Kind) → Decidable (kind.late t row)
  | message => inferInstanceAs (Decidable (_ > _))
  | edit | delete => inferInstanceAs (Decidable (_ ∧ _))

/-- What the turn makes of its row. -/
def settle (t : Int) (kind : Kind) (success : Bool) (row : Message) : Message :=
  if success then kind.done.set t row
  else if kind.late t row then kind.failed.set t row
  else row

end Kind

/-- The two rows agree in all but the flags. -/
def Flagged (row other : Message) : Prop :=
  other = { row with
    accepted := other.accepted
    editAccepted := other.editAccepted
    deleteAccepted := other.deleteAccepted }

theorem Flagged.trans {first second third : Message} (earlier : Flagged first second)
    (later : Flagged second third) : Flagged first third :=
  Eq.trans later (congrArg (fun row : Message => { row with
    accepted := third.accepted
    editAccepted := third.editAccepted
    deleteAccepted := third.deleteAccepted }) earlier)

/-- So far the log, the requests and the tables go together. -/
structure Swept (before : Store) (log : Log) (f : Message → Message)
    (g : GroupUpdate → GroupUpdate) (desk : Desk) : Prop where
  requests : desk.sent.map posted = log.map (expected before)
  messages : desk.store.messages.rows = before.messages.rows.map f
  updates : desk.store.groupUpdates.rows = before.groupUpdates.rows.map g
  others : desk.store = { before with
    messages := desk.store.messages, groupUpdates := desk.store.groupUpdates }
  kept : ∀ row, Flagged row (f row)
  named : ∀ u, (g u).groupId = u.groupId ∧ (g u).memberId = u.memberId

variable {f : Message → Message} {g : GroupUpdate → GroupUpdate} {desk : Desk}

theorem Swept.address (swept : Swept before log f g desk) (contactId : Str) :
    contactAddress desk.store contactId = contactAddress before contactId := by
  rw [swept.others]
  rfl

/-- A request is sent for an item. -/
theorem Swept.sent (item : Item) (body : Json) (answer : Option Response)
    (swept : Swept before log f g desk) :
    List.map posted (desk.sent ++
        [(⟨cutServerAddress (contactAddress before item.party), item.endpoint, body⟩, answer)]) =
      List.map (expected before) (log ++ [(item, answer)]) := by
  rw [List.map_append, List.map_append, swept.requests]
  rfl

/-- An attempt, and what is marked after it. -/
theorem wp_attempt {recipientId : Str} {endpoint : Endpoint} {body : Json}
    {done failed : Call} {old : Prop} [Decidable old] {post : Unit → Desk → Prop}
    (unattempted : (contactAddress desk.store recipientId).isEmpty = true →
      post () ⟨if old then (failed.exec t desk.store).2 else desk.store, desk.sent⟩)
    (attempted : (contactAddress desk.store recipientId).isEmpty = false → ∀ answer : Option Response,
      post () ⟨if delivered (answer.map (·.code)) then (done.exec t desk.store).2
        else if old then (failed.exec t desk.store).2 else desk.store, desk.sent ++
          [(⟨cutServerAddress (contactAddress desk.store recipientId), endpoint, body⟩, answer)]⟩) :
    (do if !(← (do
          let serverAddress ← call (.getContactAddress recipientId)
          if serverAddress.isEmpty then return false
          let result ← sendMessage (cutServerAddress serverAddress) endpoint body
          if delivered result then (do let _ ← call done)
          return delivered result)) then
          if old then (do let _ ← call failed) : Proc Unit).wp (clock t) post desk := by
  have givesUp : ∀ sent, post () ⟨if old then (failed.exec t desk.store).2 else desk.store, sent⟩ →
      (if old then (do let _ ← call failed) else return () : Proc Unit).wp (clock t) post
        ⟨desk.store, sent⟩ := by
    intro sent holds
    by_cases late : old
    · rw [if_pos late] at holds ⊢
      exact wp_call holds
    · rw [if_neg late] at holds ⊢
      exact holds
  rw [Program.wp_bind]
  apply wp_call
  dsimp only
  split
  · next empty => exact givesUp _ (unattempted empty)
  next known =>
  apply wp_send
  intro answer
  have holds := attempted (Bool.eq_false_of_not_eq_true known) answer
  dsimp only
  by_cases fine : delivered (answer.map (·.code)) = true
  · rw [if_pos fine] at holds ⊢
    apply wp_call
    rw [fine]
    exact holds
  · rw [if_neg fine] at holds ⊢
    rw [Bool.eq_false_of_not_eq_true fine]
    exact givesUp _ holds

/-- The store after a turn that marks the row like this. -/
abbrev markedBy (t : Int) (row : Message) (only : Option Str) (mark : Mark) (store : Store) : Store :=
  ((Call.updateMessages row.messageId only mark).exec t store).2

theorem wp_turn {row : Message} (kind : Kind) {post : Unit → Desk → Prop}
    (unattempted : (contactAddress desk.store row.recipientId).isEmpty = true →
      post () ⟨if kind.late t row then markedBy t row none kind.failed desk.store else desk.store,
        desk.sent⟩)
    (attempted : (contactAddress desk.store row.recipientId).isEmpty = false →
      ∀ (answer : Option Response) body,
      post () ⟨if delivered (answer.map (·.code)) then
          markedBy t row (some row.recipientId) kind.done desk.store
        else if kind.late t row then markedBy t row none kind.failed desk.store else desk.store,
        desk.sent ++ [(⟨cutServerAddress (contactAddress desk.store row.recipientId),
          kind.endpoint, body⟩, answer)]⟩) :
    (kind.turn t row).wp (clock t) post desk := by
  cases kind with
  | message => exact wp_attempt unattempted fun known answer => attempted known answer _
  | edit => exact wp_attempt unattempted fun known answer => attempted known answer _
  | delete => exact wp_attempt unattempted fun known answer => attempted known answer _

theorem Flagged.late {kind : Kind} {row other : Message} (flagged : Flagged row other) :
    kind.late t other ↔ kind.late t row := by
  rw [flagged]
  cases kind <;> rfl

theorem settle_flagged (kind : Kind) (success : Bool) (row : Message) :
    Flagged row (kind.settle t success row) := by
  unfold Kind.settle Flagged
  split
  · cases kind <;> rfl
  · split
    · cases kind <;> rfl
    · rfl

/-- A statement that names the row marks it and no other. -/
theorem marked_rows {row : Message} {only : Option Str} (mark : Mark)
    (swept : Swept before log f g desk) (member : row ∈ before.messages.rows)
    (party : only = none ∨ only = some row.recipientId) :
    (markedBy t row only mark desk.store).messages.rows = before.messages.rows.map fun other =>
      if other.messageId = row.messageId then mark.set t (f other) else f other := by
  have rows : (markedBy t row only mark desk.store).messages.rows =
      desk.store.messages.rows.map fun other =>
        if addressed row.messageId only other then mark.set t other else other := rfl
  rw [rows, swept.messages, List.map_map]
  refine List.map_congr_left fun other among => ?_
  have clean := before.messages.clean row member
  simp only [AllClean, Message.texts, List.forall_mem_cons] at clean
  rw [Function.comp_apply]
  have same : (f other).messageId = other.messageId ∧ (f other).recipientId = other.recipientId := by
    rw [swept.kept other]
    exact ⟨rfl, rfl⟩
  by_cases named : other.messageId = row.messageId
  · have recipient : other.recipientId = row.recipientId :=
      congrArg (·.recipientId) (List.inj_on_of_nodup_map before.messages.unique among member named)
    have hit : addressed row.messageId only (f other) = true := by
      rcases party with rfl | rfl
      · simp [addressed, same, named, cstr_of_clean clean.1]
      · simp [addressed, same, named, recipient, cstr_of_clean clean.1, cstr_of_clean clean.2.2.1]
    rw [if_pos hit, if_pos named]
  · have miss : addressed row.messageId only (f other) = false := by
      simp [addressed, same, named, cstr_of_clean clean.1]
    rw [if_neg (Bool.eq_false_iff.mp miss), if_neg named]

theorem Swept.others_marked {row : Message} (only : Option Str) (mark : Mark)
    (swept : Swept before log f g desk) :
    markedBy t row only mark desk.store = { before with
      messages := (markedBy t row only mark desk.store).messages
      groupUpdates := (markedBy t row only mark desk.store).groupUpdates } :=
  congrArg (fun store : Store => { store with
    messages := (markedBy t row only mark desk.store).messages }) swept.others

/-- The item of the row is settled by one turn. -/
abbrev after (t : Int) (kind : Kind) (rows : List Message) (entries : Log)
    (f : Message → Message) : Message → Message :=
  swept (fun answer : Option Response => delivered (answer.map (·.code))) (·.messageId)
    (ofMessage kind.endpoint) (kind.settle t) rows entries f

theorem after_row {row other : Message} {kind : Kind} {entries : Log}
    (member : row ∈ before.messages.rows) (among : other ∈ before.messages.rows) :
    after t kind [row] entries f other = if other.messageId = row.messageId then
      kind.settle t (succeeded entries (ofMessage kind.endpoint row)) (f other) else f other := by
  unfold after Sweep.swept
  by_cases named : other.messageId = row.messageId
  · have equal := List.inj_on_of_nodup_map before.messages.unique among member named
    rw [equal]
    simp
  · simp [named]

/-- Whether the attempt is late can be read off the copy in the list. -/
theorem Swept.late_iff {row other : Message} (kind : Kind) (swept : Swept before log f g desk)
    (member : row ∈ before.messages.rows) (among : other ∈ before.messages.rows)
    (named : other.messageId = row.messageId) : kind.late t (f other) ↔ kind.late t row := by
  rw [List.inj_on_of_nodup_map before.messages.unique among member named]
  exact (swept.kept row).late

/-- What the statements of a turn make of the rows. -/
theorem Swept.settled_rows {row : Message} (kind : Kind) (success : Bool)
    (swept : Swept before log f g desk) (member : row ∈ before.messages.rows) :
    (if success then markedBy t row (some row.recipientId) kind.done desk.store
      else if kind.late t row then markedBy t row none kind.failed desk.store
      else desk.store).messages.rows = before.messages.rows.map fun other =>
        if other.messageId = row.messageId then kind.settle t success (f other) else f other := by
  split
  · next fine =>
    rw [marked_rows kind.done swept member (.inr rfl), fine]
    rfl
  next failed =>
  rw [Bool.eq_false_of_not_eq_true failed]
  split
  · next old =>
    rw [marked_rows kind.failed swept member (.inl rfl)]
    refine List.map_congr_left fun other among => ?_
    by_cases named : other.messageId = row.messageId
    · simp [named, Kind.settle, (swept.late_iff kind member among named).mpr old]
    · simp [named]
  · next young =>
    rw [swept.messages]
    refine List.map_congr_left fun other among => ?_
    by_cases named : other.messageId = row.messageId
    · simp [named, Kind.settle, mt (swept.late_iff kind member among named).mp young]
    · simp [named]

/-- The store a turn leaves is the one where its row is settled. -/
theorem Swept.settled {row : Message} {kind : Kind} {entries : Log} {store : Store}
    {sent : List (Request × Option Response)}
    (swept : Swept before log f g desk) (member : row ∈ before.messages.rows)
    (requests : sent.map posted = (log ++ entries).map (expected before))
    (result : store = if succeeded entries (ofMessage kind.endpoint row) then
        markedBy t row (some row.recipientId) kind.done desk.store
      else if kind.late t row then markedBy t row none kind.failed desk.store else desk.store) :
    Swept before (log ++ entries) (after t kind [row] entries f) g ⟨store, sent⟩ where
  requests := requests
  messages := by
    rw [result, swept.settled_rows kind _ member]
    exact List.map_congr_left fun other among => (after_row member among).symm
  updates := by
    rw [result]
    split
    · exact swept.updates
    · split
      · exact swept.updates
      · exact swept.updates
  others := by
    rw [result]
    split
    · exact swept.others_marked _ _
    · split
      · exact swept.others_marked _ _
      · exact swept.others
  kept other := by
    unfold after Sweep.swept
    split
    · exact (swept.kept other).trans (settle_flagged kind _ _)
    · exact swept.kept other
  named := swept.named

theorem turn_swept {row : Message} (kind : Kind) (swept : Swept before log f g desk)
    (member : row ∈ before.messages.rows) :
    (kind.turn t row).wp (clock t) (fun _ final => ∃ entries,
      entries.map (·.1) = attempt before (ofMessage kind.endpoint row) ∧
        Swept before (log ++ entries) (after t kind [row] entries f) g final) desk := by
  apply wp_turn
  · intro empty
    rw [swept.address] at empty
    refine ⟨[], (if_pos empty).symm, swept.settled member ?_ rfl⟩
    rw [List.append_nil]
    exact swept.requests
  · intro known answer body
    rw [swept.address] at known ⊢
    have one : (attempt before (ofMessage kind.endpoint row)) = [ofMessage kind.endpoint row] :=
      if_neg (Bool.eq_false_iff.mp known)
    refine ⟨[(ofMessage kind.endpoint row, answer)], one.symm, swept.settled member ?_ ?_⟩
    · exact swept.sent (ofMessage kind.endpoint row) body answer
    · simp [Sweep.succeeded]

/-- A whole loop over messages. The list holds rows of the table at the start. -/
theorem loop_swept (kind : Kind) (swept : Swept before log f g desk) :
    ((kind.query.rows before.messages).forM fun row => kind.turn t row).wp (clock t)
      (fun _ final => ∃ entries, entries.map (·.1) = (kind.query.rows before.messages).flatMap
          (fun row => attempt before (ofMessage kind.endpoint row)) ∧
        Swept before (log ++ entries)
          (after t kind (kind.query.rows before.messages) entries f) g final) desk := by
  have rows : kind.query.rows before.messages = before.messages.rows.filter kind.query.selects := by
    cases kind <;> rfl
  have listed : ∀ row ∈ kind.query.rows before.messages, row ∈ before.messages.rows := by
    rw [rows]
    exact fun row member => List.mem_of_mem_filter member
  refine Sweep.wp_sweep _ (·.messageId) (ofMessage kind.endpoint) (kind.settle t) _ monotone
    (fun log change => Swept before log change g) ?_ ?_ ?_ ?_ swept
  · exact fun row tried member => mem_attempt member
  · intro left right same
    exact congrArg (·.id) same
  · rw [rows]
    exact before.messages.unique.sublist (List.filter_sublist.map _)
  · intro row member log change state holds
    exact turn_swept kind holds (listed row member)

end Turns

/-! The loop over group updates. -/
section Updates
variable {t : Int} {before : Store} {log : Log} {f : Message → Message}
  {g : GroupUpdate → GroupUpdate} {desk : Desk}

def confirm (success : Bool) (u : GroupUpdate) : GroupUpdate :=
  if success then { u with accepted := 1 } else u

abbrev afterUpdates (rows : List GroupUpdate) (entries : Log) (g : GroupUpdate → GroupUpdate) :
    GroupUpdate → GroupUpdate :=
  swept (fun answer : Option Response => delivered (answer.map (·.code)))
    (fun u => (u.groupId, u.memberId)) ofUpdate confirm rows entries g

theorem afterUpdates_row (u other : GroupUpdate) (entries : Log) :
    afterUpdates [u] entries g other =
      if (other.groupId, other.memberId) = (u.groupId, u.memberId) then
        confirm (succeeded entries (ofUpdate u)) (g other) else g other := by
  unfold afterUpdates Sweep.swept
  by_cases same : (other.groupId, other.memberId) = (u.groupId, u.memberId)
  · obtain ⟨group, party⟩ := Prod.mk.inj same
    have item : ofUpdate other = ofUpdate u := by rw [ofUpdate, group, party, ofUpdate]
    simp [group, party, item]
  · simp [same]

theorem confirm_named (success : Bool) (u : GroupUpdate) :
    (confirm success u).groupId = u.groupId ∧ (confirm success u).memberId = u.memberId := by
  cases success
  · exact ⟨rfl, rfl⟩
  · exact ⟨rfl, rfl⟩

/-- The statement that confirms an update changes no other. -/
theorem confirmed_rows {u : GroupUpdate} (swept : Swept before log f g desk)
    (member : u ∈ before.groupUpdates.rows) :
    ((Call.markGroupUpdateAccepted u.groupId u.memberId).exec t desk.store).2.groupUpdates.rows =
      before.groupUpdates.rows.map fun other =>
        if (other.groupId, other.memberId) = (u.groupId, u.memberId) then confirm true (g other)
        else g other := by
  have rows : ((Call.markGroupUpdateAccepted u.groupId u.memberId).exec t
      desk.store).2.groupUpdates.rows = desk.store.groupUpdates.rows.map fun other =>
        if other.groupId = cstr u.groupId && other.memberId = cstr u.memberId then
          { other with accepted := 1 } else other := rfl
  rw [rows, swept.updates, List.map_map]
  refine List.map_congr_left fun other _ => ?_
  have clean := before.groupUpdates.clean u member
  simp only [AllClean, GroupUpdate.texts, List.forall_mem_cons] at clean
  obtain ⟨group, party⟩ := swept.named other
  have here : ((g other).groupId = cstr u.groupId && (g other).memberId = cstr u.memberId) =
      decide ((other.groupId, other.memberId) = (u.groupId, u.memberId)) := by
    simp only [group, party, cstr_of_clean clean.1, cstr_of_clean clean.2.1, Prod.mk.injEq,
      Bool.decide_and]
  rw [Function.comp_apply, here]
  by_cases same : (other.groupId, other.memberId) = (u.groupId, u.memberId)
  · rw [if_pos same, if_pos (decide_eq_true same), confirm, if_pos rfl]
  · rw [if_neg same, if_neg (by simpa using same)]

theorem Swept.confirmed (t : Int) {u : GroupUpdate} {entries : Log} {store : Store}
    {sent : List (Request × Option Response)}
    (swept : Swept before log f g desk) (member : u ∈ before.groupUpdates.rows)
    (requests : sent.map posted = (log ++ entries).map (expected before))
    (result : store = if succeeded entries (ofUpdate u) then
        ((Call.markGroupUpdateAccepted u.groupId u.memberId).exec t desk.store).2
      else desk.store) :
    Swept before (log ++ entries) f (afterUpdates [u] entries g) ⟨store, sent⟩ where
  requests := requests
  messages := by
    rw [result]
    split
    · exact swept.messages
    · exact swept.messages
  updates := by
    have rows : store.groupUpdates.rows = before.groupUpdates.rows.map fun other =>
        if (other.groupId, other.memberId) = (u.groupId, u.memberId) then
          confirm (succeeded entries (ofUpdate u)) (g other) else g other := by
      rw [result]
      split
      · next fine =>
        rw [confirmed_rows swept member, fine]
      · next failed =>
        rw [Bool.eq_false_of_not_eq_true failed, swept.updates]
        exact List.map_congr_left fun other _ => (ite_self (g other)).symm
    rw [rows]
    exact List.map_congr_left fun other _ => (afterUpdates_row u other entries).symm
  others := by
    rw [result]
    split
    · exact congrArg (fun store : Store => { store with
        groupUpdates := ((Call.markGroupUpdateAccepted u.groupId u.memberId).exec t
          desk.store).2.groupUpdates }) swept.others
    · exact swept.others
  kept := swept.kept
  named other := by
    unfold afterUpdates Sweep.swept
    obtain ⟨group, party⟩ := swept.named other
    split
    · obtain ⟨sameGroup, sameParty⟩ := confirm_named
        (succeeded entries (ofUpdate other)) (g other)
      exact ⟨sameGroup.trans group, sameParty.trans party⟩
    · exact ⟨group, party⟩

theorem updateTurn_swept {u : GroupUpdate} (swept : Swept before log f g desk)
    (member : u ∈ before.groupUpdates.rows) :
    (retryPendingGroupUpdate u).wp (clock t) (fun _ final => ∃ entries,
      entries.map (·.1) = attempt before (ofUpdate u) ∧
        Swept before (log ++ entries) f (afterUpdates [u] entries g) final) desk := by
  have address := swept.address u.memberId
  unfold retryPendingGroupUpdate retryGroupUpdate
  rw [Program.wp_bind]
  apply wp_call
  dsimp only
  split
  · next empty =>
    have unattempted : (contactAddress before u.memberId).isEmpty = true := by
      rw [← address]
      exact empty
    refine ⟨[], (if_pos unattempted).symm, swept.confirmed t member ?_ rfl⟩
    rw [List.append_nil]
    exact swept.requests
  next known =>
  have attempted : attempt before (ofUpdate u) = [ofUpdate u] := by
    refine if_neg ?_
    rw [ofUpdate, ← address]
    exact known
  apply wp_send
  intro answer
  have requests := swept.sent (ofUpdate u) u.snapshotJson answer
  have result : ∀ {store : Store}, store = (if delivered (answer.map (·.code)) then
        ((Call.markGroupUpdateAccepted u.groupId u.memberId).exec t desk.store).2
      else desk.store) → ∃ entries, entries.map (·.1) = attempt before (ofUpdate u) ∧
        Swept before (log ++ entries) f (afterUpdates [u] entries g) ⟨store, desk.sent ++
          [(⟨cutServerAddress (contactAddress desk.store u.memberId), .acceptGroupUpdate,
            u.snapshotJson⟩, answer)]⟩ := by
    intro store same
    rw [address]
    refine ⟨[(ofUpdate u, answer)], attempted.symm, swept.confirmed t member requests ?_⟩
    simpa [Sweep.succeeded] using same
  dsimp only
  by_cases fine : delivered (answer.map (·.code)) = true
  · rw [if_pos fine]
    apply wp_call
    exact result (if_pos fine).symm
  · rw [if_neg fine]
    exact result (if_neg fine).symm

theorem updates_swept (swept : Swept before log f g desk) :
    ((pendingGroupUpdates before.groupUpdates).forM retryPendingGroupUpdate).wp (clock t)
      (fun _ final => ∃ entries, entries.map (·.1) =
          (pendingGroupUpdates before.groupUpdates).flatMap (fun u => attempt before (ofUpdate u)) ∧
        Swept before (log ++ entries) f
          (afterUpdates (pendingGroupUpdates before.groupUpdates) entries g) final) desk := by
  have rows := List.perm_insertionSort (fun u v : GroupUpdate => u.createdAt ≤ v.createdAt)
    (before.groupUpdates.rows.filter (·.accepted = 0))
  refine Sweep.wp_sweep _ (fun u => (u.groupId, u.memberId)) ofUpdate confirm _ monotone
    (fun log change => Swept before log f change) ?_ ?_ ?_ ?_ swept
  · exact fun u tried member => mem_attempt member
  · intro left right same
    exact Prod.ext (congrArg (·.id) same) (congrArg (·.party) same)
  · have distinct : ((before.groupUpdates.rows.filter (·.accepted = 0)).map
        fun u : GroupUpdate => (u.groupId, u.memberId)).Nodup :=
      before.groupUpdates.unique.sublist (List.filter_sublist.map _)
    exact (rows.map _).nodup_iff.mpr distinct
  · intro u member log change state holds
    exact updateTurn_swept holds (List.mem_of_mem_filter (rows.mem_iff.mp member))

end Updates

/-! All four loops. -/
section Pass
variable {t : Int} {before : Store}

/-! Each turn sets one flag. -/
theorem settle_message (success : Bool) (row : Message) :
    Kind.message.settle t success row = { row with
      accepted := if success then 1 else if t - row.timestamp > 86400 then 2 else row.accepted } := by
  cases success with
  | true => rfl
  | false =>
      by_cases late : Kind.message.late t row
      · exact (if_pos late).trans (congrArg (fun flag => { row with accepted := flag })
          (if_pos late).symm)
      · exact (if_neg late).trans (congrArg (fun flag => { row with accepted := flag })
          (if_neg late).symm)

theorem settle_edit (success : Bool) (row : Message) :
    Kind.edit.settle t success row = { row with
      editAccepted := if success then 1
        else if row.editedAt ≠ 0 ∧ t - row.editedAt > 86400 then 2 else row.editAccepted } := by
  cases success with
  | true => rfl
  | false =>
      by_cases late : Kind.edit.late t row
      · exact (if_pos late).trans (congrArg (fun flag => { row with editAccepted := flag })
          (if_pos late).symm)
      · exact (if_neg late).trans (congrArg (fun flag => { row with editAccepted := flag })
          (if_neg late).symm)

theorem settle_delete (success : Bool) (row : Message) :
    Kind.delete.settle t success row = { row with
      deleteAccepted := if success then 1
        else if row.deletedAt ≠ 0 ∧ t - row.deletedAt > 86400 then 2 else row.deleteAccepted } := by
  cases success with
  | true => rfl
  | false =>
      by_cases late : Kind.delete.late t row
      · exact (if_pos late).trans (congrArg (fun flag => { row with deleteAccepted := flag })
          (if_pos late).symm)
      · exact (if_neg late).trans (congrArg (fun flag => { row with deleteAccepted := flag })
          (if_neg late).symm)

/-- The three turns of a row together. -/
theorem settled_thrice {log : Log} (row : Message) :
    (fun edited => if Query.pendingDeletes.selects row then
        Kind.delete.settle t (succeeded log (ofMessage .acceptDelete row)) edited else edited)
      ((fun sent => if Query.pendingEdits.selects row then
          Kind.edit.settle t (succeeded log (ofMessage .acceptEdit row)) sent else sent)
        (if Query.pendingMessages.selects row then
          Kind.message.settle t (succeeded log (ofMessage .acceptMessage row)) row else row)) =
      settled t log row := by
  simp only [settle_message, settle_edit, settle_delete, Query.selects, settled]
  by_cases pending : row.accepted = 0
  · by_cases edited : row.editAccepted = 0 ∧ row.editedAt ≠ 0
    · simp [pending, edited]
    · simp [pending, edited]
  · by_cases deleted : row.accepted = 3 ∧ row.deleteAccepted = 0
    · by_cases edited : row.editAccepted = 0 ∧ row.editedAt ≠ 0
      · simp [deleted, edited]
      · simp [deleted, edited]
    · have kept : ¬(row.deleteAccepted = 0 ∧ row.accepted = 3) := fun both =>
        deleted ⟨both.2, both.1⟩
      by_cases edited : row.editAccepted = 0 ∧ row.editedAt ≠ 0
      · simp [pending, deleted, kept, edited]
      · simp [pending, deleted, kept, edited]

/-- Attempts of another kind say nothing about the item. -/
theorem succeeded_elsewhere {entries : Log} {item : Item} {Row : Type} {rows : List Row}
    {of : Row → Item} (tried : entries.map (·.1) = rows.flatMap fun row => attempt before (of row))
    (other : ∀ row, (of row).endpoint ≠ item.endpoint) : succeeded entries item = false := by
  apply Sweep.succeeded_unattempted
  rw [tried]
  intro member
  obtain ⟨row, _, among⟩ := List.mem_flatMap.mp member
  exact other row (congrArg (·.endpoint) (mem_attempt among)).symm

theorem mem_listed (query : Query) (unsorted : query.sorted = false) {row : Message}
    (member : row ∈ before.messages.rows) :
    row.messageId ∈ (query.rows before.messages).map (·.messageId) ↔ query.selects row = true := by
  have rows : query.rows before.messages = before.messages.rows.filter query.selects := by
    simp [Query.rows, unsorted]
  rw [rows, List.mem_map]
  constructor
  · rintro ⟨other, among, same⟩
    obtain ⟨there, selected⟩ := List.mem_filter.mp among
    rw [← List.inj_on_of_nodup_map before.messages.unique there member same]
    exact selected
  · exact fun selected => ⟨row, List.mem_filter.mpr ⟨member, selected⟩, rfl⟩

theorem mem_pending {u : GroupUpdate} (member : u ∈ before.groupUpdates.rows) :
    (u.groupId, u.memberId) ∈ (pendingGroupUpdates before.groupUpdates).map
      (fun u => (u.groupId, u.memberId)) ↔ u.accepted = 0 := by
  rw [List.mem_map]
  constructor
  · rintro ⟨other, among, same⟩
    obtain ⟨there, pending⟩ := List.mem_filter.mp ((List.mem_insertionSort _).mp among)
    rw [← List.inj_on_of_nodup_map before.groupUpdates.unique there member same]
    exact of_decide_eq_true pending
  · intro pending
    exact ⟨u, (List.mem_insertionSort _).mpr (List.mem_filter.mpr ⟨member, decide_eq_true pending⟩),
      rfl⟩

/-- Whether a message was delivered is told by the loop over messages alone, and so on. -/
theorem succeeded_own {updates : Log} {loops : Kind → Log}
    (triedUpdates : updates.map (·.1) =
      (pendingGroupUpdates before.groupUpdates).flatMap fun u => attempt before (ofUpdate u))
    (tried : ∀ kind : Kind, (loops kind).map (·.1) = (kind.query.rows before.messages).flatMap
      fun row => attempt before (ofMessage kind.endpoint row)) (kind : Kind) (row : Message) :
    succeeded (updates ++ loops .message ++ loops .edit ++ loops .delete)
      (ofMessage kind.endpoint row) = succeeded (loops kind) (ofMessage kind.endpoint row) := by
  have others : ∀ other : Kind, other.endpoint ≠ kind.endpoint →
      succeeded (loops other) (ofMessage kind.endpoint row) = false := fun other apart =>
    succeeded_elsewhere (tried other) fun _ => apart
  have none : succeeded updates (ofMessage kind.endpoint row) = false :=
    succeeded_elsewhere triedUpdates fun _ => kind.endpoint_ne.symm
  simp only [Sweep.succeeded_append, none, Bool.false_or]
  cases kind with
  | message => simp [others .edit (by decide), others .delete (by decide)]
  | edit => simp [others .message (by decide), others .delete (by decide)]
  | delete => simp [others .message (by decide), others .edit (by decide)]

/-- The four loops together are what the tables are compared with. -/
theorem exact_of_swept {updates : Log} {loops : Kind → Log} {final : Desk}
    (triedUpdates : updates.map (·.1) =
      (pendingGroupUpdates before.groupUpdates).flatMap fun u => attempt before (ofUpdate u))
    (tried : ∀ kind : Kind, (loops kind).map (·.1) = (kind.query.rows before.messages).flatMap
      fun row => attempt before (ofMessage kind.endpoint row))
    (swept : Swept before (updates ++ loops .message ++ loops .edit ++ loops .delete)
      (after t .delete (Query.pendingDeletes.rows before.messages) (loops .delete)
        (after t .edit (Query.pendingEdits.rows before.messages) (loops .edit)
          (after t .message (Query.pendingMessages.rows before.messages) (loops .message) id)))
      (afterUpdates (pendingGroupUpdates before.groupUpdates) updates id) final) :
    Exact before t (updates ++ loops .message ++ loops .edit ++ loops .delete) final where
  attempted := by
    rw [List.map_append, List.map_append, List.map_append, triedUpdates, tried, tried, tried]
    rfl
  requests := swept.requests
  messages := by
    rw [swept.messages]
    refine List.map_congr_left fun row member => ?_
    have message := succeeded_own triedUpdates tried .message row
    have edit := succeeded_own triedUpdates tried .edit row
    have delete := succeeded_own triedUpdates tried .delete row
    dsimp only [Kind.endpoint] at message edit delete
    rw [← settled_thrice]
    unfold after Sweep.swept
    simp only [mem_listed .pendingMessages rfl member, mem_listed .pendingEdits rfl member,
      mem_listed .pendingDeletes rfl member, message, edit, delete]
    rfl
  updates := by
    rw [swept.updates]
    refine List.map_congr_left fun u member => ?_
    have own : succeeded (updates ++ loops .message ++ loops .edit ++ loops .delete) (ofUpdate u) =
        succeeded updates (ofUpdate u) := by
      have others : ∀ kind, succeeded (loops kind) (ofUpdate u) = false := fun kind =>
        succeeded_elsewhere (tried kind) fun _ => kind.endpoint_ne
      simp [Sweep.succeeded_append, others]
    unfold afterUpdates Sweep.swept confirmed confirm
    rw [own]
    simp only [mem_pending member, id]
    by_cases pending : u.accepted = 0
    · by_cases fine : succeeded updates (ofUpdate u) = true
      · rw [if_pos pending, if_pos fine, if_pos ⟨pending, fine⟩]
      · rw [if_pos pending, if_neg fine, if_neg fun both => fine both.2]
    · rw [if_neg pending, if_neg fun both => pending both.1]
  others := swept.others

/-- The pass does to every row what its own attempts ask for. -/
theorem retryPass_exact (before : Store) (t : Int) (after : Desk)
    (ran : retryPass.Runs (Program.Answers (clocked t)) ⟨before, []⟩ () after) :
    ∃ log, Exact before t log after := by
  suffices retryPass.wp (clock t) (fun _ final => ∃ log, Exact before t log final) ⟨before, []⟩ from
    (Program.wp_demonic_iff _ _ _ _).mp this () after ran
  have start : Swept before [] id id ⟨before, []⟩ :=
    ⟨rfl, (List.map_id _).symm, (List.map_id _).symm, rfl, fun _ => rfl, fun _ => ⟨rfl, rfl⟩⟩
  unfold retryPass
  apply wp_call
  apply wp_call
  apply wp_call
  refine Program.wp_seq monotone _ _ _
    (@updates_swept t before [] id id ⟨before, []⟩ start) ?_
  rintro _ told ⟨updates, triedUpdates, swept⟩
  apply wp_call
  -- The updates have not changed which deletes are pending.
  have pending : Query.pendingDeletes.rows told.store.messages =
      Query.pendingDeletes.rows before.messages := by
    simp [Query.rows, swept.messages]
  apply wp_time
  refine Program.wp_seq monotone _ _ _ (loop_swept .message swept) ?_
  rintro _ _ ⟨sent, triedSent, swept⟩
  refine Program.wp_seq monotone _ _ _ (loop_swept .edit swept) ?_
  rintro _ _ ⟨edited, triedEdited, swept⟩
  dsimp only [Call.exec]
  rw [pending]
  refine Program.wp_mono monotone _ ?_ _ (loop_swept .delete swept)
  rintro _ final ⟨deleted, triedDeleted, swept⟩
  let loops : Kind → Log
    | .message => sent
    | .edit => edited
    | .delete => deleted
  have tried : ∀ kind : Kind, (loops kind).map (·.1) = (kind.query.rows before.messages).flatMap
      fun row => attempt before (ofMessage kind.endpoint row)
    | .message => triedSent
    | .edit => triedEdited
    | .delete => triedDeleted
  exact ⟨_, @exact_of_swept _ _ _ loops _ triedUpdates tried swept⟩

end Pass

/-! A pass over a bit of everything. -/
section Runs
open Network Handlers

def letter (id : String) (accepted timestamp : Int) : Message :=
  ⟨str id, pair.id true, pair.id false, [], str "hi", str "x", accepted, timestamp, 0, 0, 1, 0⟩

/-- An old letter and a new one wait, an edit and an old delete, and a group update. -/
def calls : List Call :=
  [.addMessage (letter "old" 0 5), .addMessage (letter "new" 0 89990),
    .addMessage (letter "mended" 1 5),
    .updateMessages (str "mended") none (.edit (str "ho") (str "y") 89990),
    .addMessage (letter "gone" 1 5), .updateMessages (str "gone") none .deleted,
    .updateMessages (str "gone") none .deletePending,
    .upsertGroupUpdate ⟨str "g", pair.id false, .obj [], 1, 0, 0⟩]

def backlog : Store := calls.foldl (fun store call => (call.exec 6 store).2) (acquainted true)

/-- The peer is there for the update and for the edit only. -/
def patchy : List (Input × Option Response) :=
  List.replicate 8 (clockAt 0, some (ok [])) ++ List.replicate 6 (clockAt 0, none) ++
    List.replicate 3 (clockAt 0, some (ok [])) ++ List.replicate 3 (clockAt 0, none)

/-- These arrive, the old letter and the delete are given up, and the new letter is kept. -/
theorem backlog_exact : ∃ (after : Desk) (log : Log),
    after.sent.map (·.1.endpoint) =
      [.acceptGroupUpdate, .acceptMessage, .acceptMessage, .acceptEdit, .acceptDelete] ∧
    after.store.messages.rows.map (fun row => (row.accepted, row.editAccepted, row.deleteAccepted)) =
      [(2, 0, 1), (0, 0, 1), (1, 1, 1), (3, 0, 2)] ∧
    after.store.groupUpdates.rows.map (·.accepted) = [1] ∧ Exact backlog 90000 log after := by
  have ran : (retryPass.exec (clocked 90000) patchy ⟨backlog, []⟩).map (fun done =>
      (done.2.sent.map (·.1.endpoint), done.2.store.messages.rows.map (fun row =>
        (row.accepted, row.editAccepted, row.deleteAccepted)),
        done.2.store.groupUpdates.rows.map (·.accepted))) =
      some ([.acceptGroupUpdate, .acceptMessage, .acceptMessage, .acceptEdit, .acceptDelete],
        [(2, 0, 1), (0, 0, 1), (1, 1, 1), (3, 0, 2)], [1]) := by
    decide +kernel
  obtain ⟨⟨_, after⟩, executed, facts⟩ := Option.map_eq_some_iff.mp ran
  simp only [Prod.mk.injEq] at facts
  obtain ⟨log, exact⟩ := retryPass_exact backlog 90000 after (Program.exec_runs _ _ _ _ _ _ executed)
  exact ⟨after, log, facts.1, facts.2.1, facts.2.2, exact⟩

/-! A letter that was deleted while the clock stood at zero. -/

/-- Nobody answers. -/
def silence : List (Input × Option Response) := List.replicate 20 (clockAt 0, none)

/-- A letter is sent and deleted, both in vain. -/
def erased : Option Store :=
  ((sendDirect .transparent (pair.keys true) (userRequest
      [("recipient_id", .str (pair.id false)), ("text", .str (str "hi"))])).exec act silence
    ⟨acquainted true, []⟩).bind fun sent =>
      ((deleteDirect .transparent (pair.keys true)
        (userRequest [("message_id", .str firstId)])).exec act silence
        ⟨sent.2.store, []⟩).map fun deleted => deleted.2.store

/-- The worker's pass over it. The peer is there again. -/
def passed : Option (Store × Desk) :=
  erased.bind fun before =>
    (retryPass.exec (clocked 0) (List.replicate 20 (clockAt 0, some (ok [])))
      ⟨before, []⟩).map fun done => (before, done.2)

theorem passed_runs {before : Store} {after : Desk} (done : passed = some (before, after)) :
    erased = some before ∧ retryPass.Runs (Program.Answers (clocked 0)) ⟨before, []⟩ () after := by
  obtain ⟨store, deleted, rest⟩ := Option.bind_eq_some_iff.mp done
  obtain ⟨⟨_, desk⟩, executed, same⟩ := Option.map_eq_some_iff.mp rest
  cases same
  exact ⟨deleted, Program.exec_runs _ _ _ _ _ _ executed⟩

/-- What a pass would make of a message if it left deletions without a date alone. -/
def settledIfDated (t : Int) (log : Log) (row : Message) : Message :=
  { settled t log row with
    deleteAccepted :=
      if row.deletedAt ≠ 0 then (settled t log row).deleteAccepted else row.deleteAccepted }

/-- The deletion has no date, and is confirmed nevertheless. -/
theorem undated_settled : ∃ (before : Store) (after : Desk), erased = some before ∧
    retryPass.Runs (Program.Answers (clocked 0)) ⟨before, []⟩ () after ∧
    ∀ log, after.store.messages.rows ≠ before.messages.rows.map (settledIfDated 0 log) := by
  have ran : passed.any (fun done =>
      decide (done.1.messages.rows.map (fun row => (row.deletedAt, row.deleteAccepted)) = [(0, 0)]) &&
      decide (done.2.store.messages.rows.map (·.deleteAccepted) = [1])) = true := by
    decide +kernel
  obtain ⟨⟨before, after⟩, done, facts⟩ := (Option.any_eq_true _ _).mp ran
  simp only [Bool.and_eq_true, decide_eq_true_eq] at facts
  obtain ⟨pending, confirmed⟩ := facts
  obtain ⟨deleted, runs⟩ := passed_runs done
  refine ⟨before, after, deleted, runs, fun log same => ?_⟩
  obtain ⟨row, rows, flags⟩ := List.map_eq_singleton_iff.mp pending
  obtain ⟨undated, waits⟩ := Prod.mk.inj flags
  rw [same, rows] at confirmed
  simp [settledIfDated, undated, waits] at confirmed

end Runs

end NoMiddle.PassEffect
