import NoMiddle.GroupTables
import NoMiddle.WholeEdit
import NoMiddle.Registry

/-! What a request leaves behind that is not answered with 200. Most routes only write
where nothing can be refused any more. A direct message is stored before its delivery
decides on the answer, and a member list is replaced before its insert does. -/
namespace NoMiddle.FailedCalls
open Library Text Crypto DbManager DbViews Node MessageDelivery Handlers GroupHandlers AuthHandlers
open Network Solo
open GroupMembership (remaining)
open GroupTables (Asks wp_addMember wp_removeMember)
open PartialEdit (view readdressed extended withSelfAddress_ids)
open WholeEdit (listed mem_listed listed_clean view_listed entryFor_append entryFor_listed
  entryFor_withSelfAddress)

/-- Something the worker will send. -/
inductive Duty where
  | message (row : Message)
  | edit (row : Message)
  | delete (row : Message)
  | groupUpdate (u : GroupUpdate)

def Owes (store : Store) : Duty → Prop
  | .message row => row ∈ Query.pendingMessages.rows store.messages
  | .edit row => row ∈ Query.pendingEdits.rows store.messages
  | .delete row => row ∈ Query.pendingDeletes.rows store.messages
  | .groupUpdate u => u ∈ pendingGroupUpdates store.groupUpdates

/-- The tables have the same rows and the worker has the same to do. -/
structure Untouched (before after : Store) : Prop where
  contacts : ∀ row, row ∈ after.contacts.rows ↔ row ∈ before.contacts.rows
  messages : ∀ row, row ∈ after.messages.rows ↔ row ∈ before.messages.rows
  groups : ∀ row, row ∈ after.groups.rows ↔ row ∈ before.groups.rows
  groupMembers : ∀ row, row ∈ after.groupMembers.rows ↔ row ∈ before.groupMembers.rows
  groupUpdates : ∀ row, row ∈ after.groupUpdates.rows ↔ row ∈ before.groupUpdates.rows
  clients : ∀ row, row ∈ after.clients.rows ↔ row ∈ before.clients.rows
  duties : ∀ duty, Owes after duty ↔ Owes before duty

/-- A failed call leaves no trace. -/
def Traceless (before : Store) (response : Response) (after : Store) : Prop :=
  response.code ≠ 200 → Untouched before after

/-- The routes by which a user's device changes something. -/
def mutating : Task → Bool
  | .upsertContact _ | .sendMessage _ | .editMessage _ | .deleteMessage _ | .groupsCreate _
  | .addMember .. | .removeMember .. | .groupSend .. | .groupEdit .. | .groupDelete ..
  | .authApprove _ => true
  | _ => false

/-- The member is new to the list and has the id of a stored one once it is cut. -/
def Collides (group : PathId) (store : Store) (memberId : Str) : Prop :=
  (∀ m ∈ listed group store, m.memberId ≠ memberId) ∧
    ∃ m ∈ listed group store, m.memberId = cstr memberId

section Condition
variable {Host : Type} (network : Deployment Host) (host : Host)

/-- The delivery of a direct message, if there was one, was answered with 200; a member
whose insert fails came without a new address of this node's own. -/
def Meets (store : Store) (sent : List (Request × Option Response)) : Task → Prop
  | .sendMessage _ => ∀ exchange ∈ sent, delivered (exchange.2.map (·.code)) = true
  | .addMember req group => ∀ memberId serverAddress selfAddress,
      Asks network.sodium req store [("member_id", memberId), ("server_address", serverAddress),
        ("self_server_address", selfAddress)] → Collides group store memberId →
      ∀ m ∈ listed group store, m.memberId = network.id host → m.serverAddress = cstr selfAddress
  | _ => True

end Condition

section Routes
variable {sodium : Sodium} {keys : KeyPair} {req : HttpRequest} {group : PathId} {desk : Desk}
  {store : Store}

/-- Every run of the route is traceless. -/
abbrev Spotless (store : Store) (program : Proc Response) : Prop :=
  program.wp contract (fun response after => Traceless store response after.store) ⟨store, []⟩

theorem untouched_of_members {after : Store} (contacts : after.contacts = store.contacts)
    (messages : after.messages = store.messages) (groups : after.groups = store.groups)
    (updates : after.groupUpdates = store.groupUpdates) (clients : after.clients = store.clients)
    (members : ∀ row, row ∈ after.groupMembers.rows ↔ row ∈ store.groupMembers.rows) :
    Untouched store after where
  contacts row := by rw [contacts]
  messages row := by rw [messages]
  groups row := by rw [groups]
  groupMembers := members
  groupUpdates row := by rw [updates]
  clients row := by rw [clients]
  duties duty := by cases duty <;> simp only [Owes, messages, updates]

theorem Untouched.refl (store : Store) : Untouched store store :=
  untouched_of_members rfl rfl rfl rfl rfl fun _ => Iff.rfl

theorem unwritten (response : Response) : Traceless store response store :=
  fun _ => Untouched.refl store

theorem succeeded (fields : List (String × Json)) (after : Store) :
    Traceless store (ok fields) after := fun failed => absurd rfl failed

theorem upsertContact_spotless : Spotless store (Handlers.upsertContact sodium req) := by
  unfold Handlers.upsertContact
  apply wp_authed _ _ _ (unwritten _)
  split
  case h_2 => exact unwritten _
  split
  case h_2 => exact unwritten _
  split
  · exact unwritten _
  split
  case h_2 => exact unwritten _
  split
  case h_2 => exact unwritten _
  split
  case h_2 => exact unwritten _
  apply wp_call
  intro now failed
  exact absurd rfl failed

theorem editDirect_spotless : Spotless store (editDirect sodium keys req) := by
  unfold editDirect
  apply wp_authed _ _ _ (unwritten _)
  split
  case h_2 => exact unwritten _
  split
  case h_2 => exact unwritten _
  split
  · exact unwritten _
  split
  case h_2 => exact unwritten _
  split
  case h_2 => exact unwritten _
  apply wp_call
  intro now
  split
  case h_2 => exact unwritten _
  split
  · exact unwritten _
  apply wp_encrypt
  intro nonce
  split
  case h_2 => exact unwritten _
  -- From here on the call succeeds, whatever the peer answers.
  apply wp_time
  intro editedAt
  apply wp_call
  intro later
  apply wp_after
  intro answered _
  apply wp_after
  intro _ after
  exact succeeded _ after.store

theorem deleteDirect_spotless : Spotless store (deleteDirect sodium keys req) := by
  unfold deleteDirect
  apply wp_authed _ _ _ (unwritten _)
  split
  case h_2 => exact unwritten _
  split
  case h_2 => exact unwritten _
  split
  · exact unwritten _
  split
  case h_2 => exact unwritten _
  apply wp_call
  intro now
  split
  case h_2 => exact unwritten _
  split
  · exact unwritten _
  apply wp_after
  intro _ _
  apply wp_after
  intro _ _
  apply wp_after
  intro _ _
  apply wp_after
  intro _ after
  exact succeeded _ after.store

theorem groupsCreate_spotless : Spotless store (groupsCreate sodium keys req) := by
  unfold groupsCreate
  apply wp_authed _ _ _ (unwritten _)
  split
  case h_2 => exact unwritten _
  split
  case h_2 => exact unwritten _
  split
  · exact unwritten _
  apply wp_generateUuid
  intro dice
  split
  case h_2 => exact unwritten _
  next name _ =>
  apply wp_time
  intro createdAt
  apply wp_call
  intro now
  let g : DbManager.Group := ⟨uuidOf dice, name, keys.publicKeyB64, createdAt⟩
  cases taken : store.groups.has (cstr (uuidOf dice)) with
  | true =>
      simp only [Call.exec, taken, Bool.not_true, Bool.not_false, ↓reduceIte]
      have same := GroupTables.createGroup_taken now g taken
      intro failed
      exact (congrArg (Untouched store) same).mpr (Untouched.refl store)
  | false =>
      simp only [Call.exec, taken, Bool.not_false, Bool.not_true, Bool.false_eq_true, ↓reduceIte]
      apply wp_time
      intro addedAt
      apply wp_call
      intro later
      -- One member meets no conflict.
      have stored : ∀ me table, (replaceGroupMembers (uuidOf dice) [me] table).1 = true := by
        intro me table
        rw [Rejection.replaced_iff]
        exact List.nodup_singleton _
      simp only [Call.exec, stored, Bool.not_true, Bool.false_eq_true, ↓reduceIte]
      exact succeeded _ _

theorem removeMember_spotless : Spotless store (removeMember sodium keys req group) := by
  refine wp_removeMember (fun _ response => unwritten response) (fun _ _ _ => unwritten _)
    fun memberId _ _ => ?_
  apply wp_call
  intro later
  -- What is left of a stored list can be stored again.
  have stored : (replaceGroupMembers group.text (remaining group.text memberId store)
      store.groupMembers).1 = true :=
    GroupMembership.replace_ok (GroupMembership.sound_filter _
      (GroupMembership.sound_stored group.text store.groupMembers)) _
  split
  · next failed => simp [Call.exec, stored] at failed
  apply wp_time
  intro version
  apply wp_after
  intro delivered after
  split
  · apply wp_after
    intro _ after
    exact succeeded _ after.store
  · exact succeeded _ after.store

theorem groupSend_spotless : Spotless store (groupSend sodium keys req group) := by
  unfold groupSend
  apply wp_authed _ _ _ (unwritten _)
  split
  case h_2 => exact unwritten _
  split
  case h_2 => exact unwritten _
  split
  · exact unwritten _
  split
  case h_2 => exact unwritten _
  apply wp_time
  intro timestamp
  apply wp_generateUuid
  intro dice
  apply wp_call
  intro now
  split
  · exact unwritten _
  apply wp_after
  intro allOnline after
  exact succeeded _ after.store

theorem groupEdit_spotless : Spotless store (groupEdit sodium keys req group) := by
  unfold groupEdit
  apply wp_authed _ _ _ (unwritten _)
  split
  case h_2 => exact unwritten _
  split
  case h_2 => exact unwritten _
  split
  · exact unwritten _
  split
  case h_2 => exact unwritten _
  split
  case h_2 => exact unwritten _
  apply wp_call
  intro now
  split
  case h_2 => exact unwritten _
  split
  · exact unwritten _
  split
  · exact unwritten _
  apply wp_call
  intro later
  split
  · exact unwritten _
  apply wp_time
  intro editedAt
  -- From here on the answer can only be 200.
  apply wp_after
  intro _ _
  apply wp_after
  intro _ after
  exact succeeded _ after.store

theorem groupDelete_spotless : Spotless store (groupDelete sodium keys req group) := by
  unfold groupDelete
  apply wp_authed _ _ _ (unwritten _)
  split
  case h_2 => exact unwritten _
  split
  case h_2 => exact unwritten _
  split
  · exact unwritten _
  split
  case h_2 => exact unwritten _
  apply wp_call
  intro now
  split
  case h_2 => exact unwritten _
  split
  · exact unwritten _
  split
  · exact unwritten _
  -- From here on the answer can only be 200.
  apply wp_after
  intro _ _
  apply wp_after
  intro _ _
  apply wp_after
  intro members _
  apply wp_after
  intro _ _
  apply wp_after
  intro _ after
  exact succeeded _ after.store

theorem newClient_kept (deviceName : Str) (now : Int) :
    (newClient sodium deviceName now).wp contract
      (fun made after => made.2.2 = false → after = desk) desk := by
  unfold newClient
  apply wp_perform
  intro id
  apply wp_perform
  intro secret
  apply wp_perform
  intro salt
  apply wp_call
  intro later failed
  have taken : desk.store.clients.has (cstr (b64urlEncode ((List.range 16).map id.bytes))) = true := by
    change (!desk.store.clients.has (cstr (b64urlEncode ((List.range 16).map id.bytes)))) = false
      at failed
    simpa using failed
  exact congrArg (fun clients => Desk.mk { desk.store with clients := clients } desk.sent)
    (Registry.createClient_taken taken)

theorem authApprove_spotless : Spotless store (authApprove sodium req) := by
  unfold authApprove
  apply wp_authed _ _ _ (unwritten _)
  split
  case h_2 => exact unwritten _
  split
  case h_2 => exact unwritten _
  split
  · exact unwritten _
  split
  case h_2 => exact unwritten _
  split
  · exact unwritten _
  apply wp_call
  intro now
  split
  case h_2 => exact unwritten _
  apply wp_time
  intro asked
  split
  · -- An expired request is deleted; it is in none of the tables.
    apply wp_call
    intro _ _
    exact untouched_of_members rfl rfl rfl rfl rfl fun _ => Iff.rfl
  split
  · exact unwritten _
  split
  · apply wp_after
    intro _ after
    exact succeeded _ after.store
  apply Program.wp_seq monotone _ _ _ (newClient_kept _ _)
  rintro ⟨clientId, secret, created⟩ after kept
  cases created with
  | false =>
      rw [kept rfl]
      exact unwritten _
  | true =>
      apply wp_call
      intro later
      exact succeeded _ _

/-- The delivery of a new message: the id is taken, the peer has answered 200, or a row is
left over that was not there. -/
theorem deliverMessage_leaves (senderId recipientId ciphertext plaintext : Str) (timestamp : Int) :
    (deliverMessage senderId recipientId ciphertext plaintext timestamp).wp contract
      (fun made after => (made = none ∧ after = ⟨store, []⟩) ∨
        ∃ exchange, after.sent = [exchange] ∧
          if delivered (exchange.2.map (·.code)) = true then made ≠ none
          else made = none ∧ ∃ row ∈ after.store.messages.rows, row ∉ store.messages.rows)
      ⟨store, []⟩ := by
  unfold deliverMessage
  apply wp_generateUuid
  intro dice
  apply wp_call
  intro now
  cases taken : store.messages.has (cstr (uuidOf dice)) with
  | true =>
      simp only [Call.exec, taken, Bool.not_true, Bool.not_false, ↓reduceIte]
      refine .inl ⟨rfl, congrArg (fun messages => Desk.mk { store with messages := messages } []) ?_⟩
      exact Table.insert_taken _ (Message.stored _) (Message.stored_clean _) taken
  | false =>
      simp only [Call.exec, taken, Bool.not_false, Bool.not_true, Bool.false_eq_true, ↓reduceIte]
      apply wp_call
      intro later
      apply wp_send
      intro answer
      dsimp only
      split
      · next arrived =>
        apply wp_mark
        intro _
        exact .inr ⟨_, rfl, by rw [if_pos arrived]; exact Option.some_ne_none _⟩
      · next failed =>
        refine .inr ⟨_, rfl, ?_⟩
        rw [if_neg failed]
        let msg : Message := ⟨uuidOf dice, senderId, recipientId, [], plaintext, ciphertext, 0,
          timestamp, 0, 0, 1, 0⟩
        have absent : store.messages.find (cstr (uuidOf dice)) = none := by
          simpa [Table.has] using taken
        have found : (addMessage msg store.messages).find (cstr (uuidOf dice)) =
            some msg.stored := by
          unfold addMessage
          rw [Table.find_insert, absent]
          exact if_pos rfl
        -- The row was not there, because its id was free.
        refine ⟨rfl, msg.stored, ((Table.find_eq_some _ _ _).mp found).1, fun old => ?_⟩
        cases absent.symm.trans ((Table.find_eq_some _ _ _).mpr ⟨old, rfl⟩)

theorem sendDirect_traceless_iff :
    (sendDirect sodium keys req).wp contract
      (fun response after => Traceless store response after.store ↔
        ∀ exchange ∈ after.sent, delivered (exchange.2.map (·.code)) = true) ⟨store, []⟩ := by
  have unsent : ∀ response : Response, Traceless store response store ↔
      ∀ exchange ∈ (⟨store, []⟩ : Desk).sent, delivered (exchange.2.map (·.code)) = true :=
    fun response => iff_of_true (unwritten response) fun _ none => absurd none List.not_mem_nil
  unfold sendDirect
  apply wp_authed _ _ _ (unsent _)
  split
  case h_2 => exact unsent _
  split
  case h_2 => exact unsent _
  split
  · exact unsent _
  split
  case h_2 => exact unsent _
  split
  case h_2 => exact unsent _
  apply wp_time
  intro timestamp
  apply wp_encrypt
  intro nonce
  split
  case h_2 => exact unsent _
  -- Until the delivery nothing is written and nothing sent.
  apply Program.wp_seq monotone _ _ _ (deliverMessage_leaves _ _ _ _ _)
  rintro made after (⟨rfl, rfl⟩ | ⟨exchange, sent, outcome⟩)
  · exact unsent _
  split at outcome
  · next arrived =>
    obtain ⟨messageId, rfl⟩ := Option.ne_none_iff_exists'.mp outcome
    apply wp_perform
    intro _
    refine iff_of_true (succeeded _ _) ?_
    rw [sent, List.forall_mem_singleton]
    exact arrived
  · next failed =>
    obtain ⟨rfl, row, there, new⟩ := outcome
    refine iff_of_false (fun traceless => ?_) (fun arrived => failed ?_)
    · exact new (((traceless (by decide)).messages row).mp there)
    · exact arrived exchange (by rw [sent]; exact List.mem_singleton_self _)

/-! A member whose insert fails: the list that is written back has the old members. -/

/-- Writing the list back gives every row the new address where it is this node's. -/
theorem replaced_find {selfId memberId : Str} {selfAddress : Option Str} {new : GroupMember}
    (named : new.memberId = memberId) (taken : ∃ m ∈ listed group store, m.memberId = cstr memberId)
    (key : Str × Str) :
    (replaceGroupMembers group.text (withSelfAddress selfId selfAddress (listed group store) ++ [new])
        store.groupMembers).2.find key =
      if group.text = key.1 then (store.groupMembers.find key).map (readdressed selfId selfAddress)
      else store.groupMembers.find key := by
  obtain ⟨groupId, id⟩ := key
  rw [find_replaceGroupMembers, cstr_of_clean group.clean]
  split
  · next same =>
    cases same
    rw [entryFor_append, entryFor_withSelfAddress fun m member => (listed_clean member).1,
      entryFor_listed]
    change ((view group store id).map _).or _ = (view group store id).map _
    cases found : view group store id with
    | some row => rfl
    | none =>
        have other : cstr new.memberId ≠ id := by
          rintro rfl
          obtain ⟨m, member, key⟩ := taken
          have there := ((mem_listed m).mp member).2
          rw [key, ← named, found] at there
          cases there
        simp [entryFor, other]
  · rfl

theorem replaced_same_iff {selfId memberId : Str} {selfAddress : Option Str} {new : GroupMember}
    (named : new.memberId = memberId)
    (taken : ∃ m ∈ listed group store, m.memberId = cstr memberId) :
    (∀ row, row ∈ (replaceGroupMembers group.text (withSelfAddress selfId selfAddress
        (listed group store) ++ [new]) store.groupMembers).2.rows ↔ row ∈ store.groupMembers.rows) ↔
      ∀ address, selfAddress = some address →
        ∀ m ∈ listed group store, m.memberId = selfId → m.serverAddress = cstr address := by
  simp only [Table.mem_rows_iff, replaced_find named taken]
  constructor
  · rintro same address rfl m member rfl
    obtain ⟨inGroup, found⟩ := (mem_listed m).mp member
    rw [view, ← inGroup] at found
    -- The stored row of this node, moved, is among the new rows, so it is the old one.
    let moved : GroupMember := { m with serverAddress := cstr address }
    have stored : (if group.text = moved.groupId then
        (store.groupMembers.find (moved.groupId, moved.memberId)).map
          (readdressed m.memberId (some address))
        else store.groupMembers.find (moved.groupId, moved.memberId)) = some moved := by
      rw [if_pos inGroup.symm, found]
      exact congrArg some (if_pos rfl)
    have kept := (same moved).mp stored
    rw [found] at kept
    exact congrArg GroupMember.serverAddress (Option.some.inj kept)
  · intro same row
    split
    · next inGroup =>
      cases found : store.groupMembers.find (row.groupId, row.memberId) with
      | none => rfl
      | some old =>
          rw [← inGroup] at found
          have member := (view_listed found).1
          -- A row that is this node's own already has the address it is moved to.
          have fixed : readdressed selfId selfAddress old = old := by
            cases selfAddress with
            | none => rfl
            | some address =>
                unfold readdressed
                dsimp only
                split
                · next own => rw [← same address rfl old member own]
                · rfl
          rw [Option.map_some, fixed]
    · rfl

theorem cut_ids {members : List GroupMember}
    (same : members.map (·.memberId) = (listed group store).map (·.memberId)) :
    (members.map fun m => cstr m.memberId) = (listed group store).map (·.memberId) := by
  have cut := congrArg (List.map cstr) same
  rw [List.map_map, List.map_map] at cut
  exact cut.trans (List.map_congr_left fun m member => cstr_of_clean (listed_clean member).1)

theorem replaced_stored {members : List GroupMember}
    (same : members.map (·.memberId) = (listed group store).map (·.memberId)) :
    (replaceGroupMembers group.text members store.groupMembers).1 = true := by
  rw [Rejection.replaced_iff, cut_ids same]
  exact groupMembersOf_nodup group.text store.groupMembers

theorem replaced_new_iff {members : List GroupMember} {new : GroupMember}
    (same : members.map (·.memberId) = (listed group store).map (·.memberId)) :
    (replaceGroupMembers group.text (members ++ [new]) store.groupMembers).1 = true ↔
      ∀ m ∈ listed group store, m.memberId ≠ cstr new.memberId := by
  rw [Rejection.replaced_iff, List.map_append, cut_ids same, List.nodup_append]
  constructor
  · rintro ⟨_, _, apart⟩ m member
    exact apart m.memberId (List.mem_map_of_mem member) _ (List.mem_singleton_self _)
  · intro apart
    refine ⟨groupMembersOf_nodup group.text store.groupMembers, List.nodup_singleton _, ?_⟩
    intro id there other single
    obtain ⟨m, member, rfl⟩ := List.mem_map.mp there
    rw [List.mem_singleton.mp single]
    exact apart m member

theorem listed_known {selfId memberId : Str} {selfAddress : Option Str} :
    (withSelfAddress selfId selfAddress (listed group store)).any (·.memberId = memberId) = true ↔
      ∃ m ∈ listed group store, m.memberId = memberId := by
  have ids := congrArg (List.any · (· = memberId))
    (withSelfAddress_ids selfId selfAddress (listed group store))
  simp only [List.any_map] at ids
  exact (Bool.eq_iff_iff.mp ids).trans (by simp)

theorem asked_same {dataJson : Json} {memberId serverAddress other address selfAddress : Str}
    (brought : req.body = some dataJson)
    (asks : Asks sodium req store [("member_id", memberId), ("server_address", serverAddress)])
    (also : Asks sodium req store [("member_id", other), ("server_address", address),
      ("self_server_address", selfAddress)]) :
    other = memberId ∧ dataJson.optional "self_server_address" = some selfAddress := by
  obtain ⟨known, body, same, strings⟩ := also
  cases brought.symm.trans same
  simp only [List.forall_mem_cons] at strings
  obtain ⟨_, _, named, fields⟩ := asks
  cases brought.symm.trans named
  have first := fields ("member_id", memberId) List.mem_cons_self
  exact ⟨Option.some.inj (strings.1.symm.trans first), strings.2.2.1⟩

/-- A member whose insert fails takes the place of a stored one whose id it has once it is
cut, and what the delete and the inserts leave may differ in this node's own address. -/
theorem appended_untouched_iff {dataJson : Json} {memberId serverAddress : Str}
    (brought : req.body = some dataJson)
    (asks : Asks sodium req store [("member_id", memberId), ("server_address", serverAddress)])
    (absent : ¬(withSelfAddress keys.publicKeyB64 (dataJson.optional "self_server_address")
      (listed group store)).any (·.memberId = memberId) = true) {new : GroupMember}
    (named : new.memberId = memberId)
    (taken : ∃ m ∈ listed group store, m.memberId = cstr memberId) {after : Store}
    (left : after = { store with groupMembers := (replaceGroupMembers group.text
      (withSelfAddress keys.publicKeyB64 (dataJson.optional "self_server_address")
        (listed group store) ++ [new]) store.groupMembers).2 }) (text : String) :
    Traceless store (error 500 text) after ↔
      ∀ memberId serverAddress selfAddress, Asks sodium req store [("member_id", memberId),
        ("server_address", serverAddress), ("self_server_address", selfAddress)] →
      Collides group store memberId → ∀ m ∈ listed group store,
        m.memberId = keys.publicKeyB64 → m.serverAddress = cstr selfAddress := by
  have rows : (∀ row, row ∈ after.groupMembers.rows ↔ row ∈ store.groupMembers.rows) ↔
      ∀ address, dataJson.optional "self_server_address" = some address →
        ∀ m ∈ listed group store, m.memberId = keys.publicKeyB64 →
          m.serverAddress = cstr address := by
    rw [left]
    exact replaced_same_iff rfl (named ▸ taken)
  constructor
  · intro traceless other address selfAddress also collides
    obtain ⟨_, given⟩ := asked_same brought asks also
    have failed : (error 500 text).code ≠ 200 := show (500 : Nat) ≠ 200 by decide
    exact rows.mp (traceless failed).groupMembers selfAddress given
  · intro meets _
    subst left
    refine untouched_of_members rfl rfl rfl rfl rfl (rows.mpr ?_)
    intro selfAddress given
    refine meets memberId serverAddress selfAddress ⟨asks.1, dataJson, brought, ?_⟩ ⟨?_, taken⟩
    · obtain ⟨_, _, also, fields⟩ := asks
      cases brought.symm.trans also
      simp only [List.forall_mem_cons] at fields ⊢
      exact ⟨fields.1, fields.2.1, given, fun _ none => absurd none List.not_mem_nil⟩
    · intro m member same
      exact absent (listed_known.mpr ⟨m, member, same⟩)

theorem addMember_traceless_iff :
    (addMember sodium keys req group).wp contract
      (fun response after => Traceless store response after.store ↔
        ∀ memberId serverAddress selfAddress, Asks sodium req store [("member_id", memberId),
          ("server_address", serverAddress), ("self_server_address", selfAddress)] →
        Collides group store memberId → ∀ m ∈ listed group store,
          m.memberId = keys.publicKeyB64 → m.serverAddress = cstr selfAddress) ⟨store, []⟩ := by
  apply wp_addMember
  · intro idles response
    refine iff_of_true (unwritten response) ?_
    rintro memberId serverAddress _ ⟨known, body, brought, strings⟩
    refine absurd ⟨known, body, brought, ?_⟩ (idles memberId serverAddress)
    intro field member
    exact strings field (List.mem_of_mem_take (i := 2) member)
  intro dataJson memberId serverAddress brought asks
  have ids := withSelfAddress_ids keys.publicKeyB64 (dataJson.optional "self_server_address")
    (listed group store)
  unfold withMember
  split
  · next known =>
    -- A member that is moved keeps the ids as they were, so nothing can fail.
    apply wp_call
    intro now
    have stored : ((Call.replaceGroupMembers group.text (setAddress memberId serverAddress
        (withSelfAddress keys.publicKeyB64 (dataJson.optional "self_server_address")
          (listed group store)))).exec now store).1 = true :=
      replaced_stored ((GroupMembership.setAddress_ids _).trans ids)
    split
    · next failed =>
      rw [stored] at failed
      cases failed
    apply wp_time
    intro version
    apply wp_after
    intro delivered after
    refine iff_of_true (succeeded _ _) ?_
    intro other address selfAddress also collides
    obtain ⟨rfl, _⟩ := asked_same brought asks also
    obtain ⟨m, member, same⟩ := listed_known.mp known
    exact absurd same (collides.1 m member)
  · next absent =>
    apply wp_time
    intro addedAt
    apply wp_call
    intro now
    let new : GroupMember := ⟨group.text, memberId, serverAddress, str "member", addedAt⟩
    split
    · next failed =>
      have taken : ∃ m ∈ listed group store, m.memberId = cstr memberId := by
        by_contra free
        simp only [not_exists, not_and] at free
        have stored : ((Call.replaceGroupMembers group.text (withSelfAddress keys.publicKeyB64
            (dataJson.optional "self_server_address") (listed group store) ++ [new])).exec now
            store).1 = true := (replaced_new_iff ids).mpr free
        rw [stored] at failed
        cases failed
      exact appended_untouched_iff brought asks absent rfl taken rfl _
    · next stored =>
      apply wp_time
      intro version
      apply wp_after
      intro delivered after
      refine iff_of_true (succeeded _ _) ?_
      intro other address selfAddress also collides
      obtain ⟨rfl, _⟩ := asked_same brought asks also
      obtain ⟨m, member, same⟩ := collides.2
      rw [Bool.not_eq_true, Bool.not_eq_false'] at stored
      have free : ∀ m ∈ listed group store, m.memberId ≠ cstr new.memberId :=
        (replaced_new_iff ids).mp stored
      exact absurd same (free m member)

end Routes

section Calls
variable {Host : Type} {network : Deployment Host} {host : Host} {task : Task} {store : Store}
  {response : Response} {after : Desk}

/-- A call leaves no trace where it fails, exactly if it meets the condition. -/
theorem failed_traceless_iff (changing : mutating task = true)
    (ran : Runs (network.program host task) ⟨store, []⟩ response after) :
    Traceless store response after.store ↔ Meets network host store after.sent task := by
  have always : ∀ {program : Proc Response}, Runs program ⟨store, []⟩ response after →
      Spotless store program → (Traceless store response after.store ↔ True) := fun ran spotless =>
    iff_true_intro ((Program.wp_demonic_iff Solo.step _ _ _).mp spotless _ _ ran)
  cases task with
  | upsertContact req => exact always ran upsertContact_spotless
  | sendMessage req =>
      exact (Program.wp_demonic_iff Solo.step _ _ _).mp sendDirect_traceless_iff _ _ ran
  | editMessage req => exact always ran editDirect_spotless
  | deleteMessage req => exact always ran deleteDirect_spotless
  | groupsCreate req => exact always ran groupsCreate_spotless
  | addMember req group =>
      exact (Program.wp_demonic_iff Solo.step _ _ _).mp addMember_traceless_iff _ _ ran
  | removeMember req group => exact always ran removeMember_spotless
  | groupSend req group => exact always ran groupSend_spotless
  | groupEdit req group => exact always ran groupEdit_spotless
  | groupDelete req group => exact always ran groupDelete_spotless
  | authApprove req => exact always ran authApprove_spotless
  | _ => cases changing

end Calls
section Runs

/-- A request of the device that a new node registers when all draws are zero. -/
def deviceRequest (fields : List (String × Json)) : HttpRequest :=
  ⟨b64urlEncode (List.replicate 16 0), b64urlEncode (List.replicate 32 0), some (.obj fields)⟩

def settling : List Task :=
  [.authRegister, .upsertContact (deviceRequest [("contact_id", .str (pair.id false)),
    ("name", .str (str "other")), ("server_address", .str (str "b"))])]

def greeting : Task :=
  .sendMessage (deviceRequest [("recipient_id", .str (pair.id false)), ("text", .str (str "hello"))])

/-- A group with a member whom a second request adds under an id with a NUL byte. -/
def gathering : List Task :=
  [.authRegister, .groupsCreate (deviceRequest [("name", .str (str "friends"))]),
    .addMember (deviceRequest [("member_id", .str (str "m")), ("server_address", .str (str "b"))])
      GroupMembership.founded]

def readmission : Task :=
  .addMember (deviceRequest [("member_id", .str (str "m" ++ [0])), ("server_address", .str (str "c")),
    ("self_server_address", .str (str "a"))]) GroupMembership.founded

def silence : List (Input × Option Response) := List.replicate 20 (clockAt 0, none)

def handled (tasks : List Task) (last : Task) : Option (Store × Response × Desk) :=
  (visit (pair.program true) (tasks.map (·, silence)) Store.initial).bind fun store =>
    ((pair.program true last).exec act silence ⟨store, []⟩).map fun done => (store, done)

theorem handled_runs {tasks : List Task} {last : Task} {store : Store} {response : Response}
    {after : Desk} (done : handled tasks last = some (store, response, after)) :
    Visits (pair.program true) (fun _ _ => True) Store.initial store ∧
      Runs (pair.program true last) ⟨store, []⟩ response after := by
  obtain ⟨before, visited, rest⟩ := Option.bind_eq_some_iff.mp done
  obtain ⟨_, executed, same⟩ := Option.map_eq_some_iff.mp rest
  cases same
  exact ⟨visit_visits _ (fun _ _ _ => trivial) .start visited,
    Program.exec_runs _ _ _ _ _ _ executed⟩

def correction : Task :=
  .editMessage (deviceRequest [("message_id", .str (str "m")), ("text", .str (str "hello"))])

theorem correction_traceless : ∃ (store : Store) (response : Response) (after : Desk),
    Runs (pair.program true correction) ⟨store, []⟩ response after ∧ response.code = 404 ∧
    Untouched store after.store := by
  have ran : (handled settling correction).map (fun done => done.2.1.code) = some 404 := by
    decide +kernel
  obtain ⟨⟨store, response, after⟩, done, code⟩ := Option.map_eq_some_iff.mp ran
  obtain ⟨_, runs⟩ := handled_runs done
  refine ⟨store, response, after, runs, code, (failed_traceless_iff rfl runs).mpr trivial ?_⟩
  dsimp only at code
  omega

/-- The message that could not be delivered is stored and waits for the worker; the member
that could not be added has changed this node's own address. -/
theorem failed_leaves_trace :
    (∃ (store : Store) (response : Response) (after : Desk),
      Visits (pair.program true) (fun _ _ => True) Store.initial store ∧
      Runs (pair.program true greeting) ⟨store, []⟩ response after ∧ response.code = 400 ∧
      ∃ row ∈ after.store.messages.rows, row ∉ store.messages.rows ∧
        Owes after.store (.message row)) ∧
    ∃ (store : Store) (response : Response) (after : Desk),
      Visits (pair.program true) (fun _ _ => True) Store.initial store ∧
      Runs (pair.program true readmission) ⟨store, []⟩ response after ∧ response.code = 500 ∧
      ¬Untouched store after.store := by
  constructor
  · have ran : (handled settling greeting).map (fun done => (done.2.1.code,
        done.1.messages.rows.length,
        (Query.pendingMessages.rows done.2.2.store.messages).length)) = some (400, 0, 1) := by
      decide +kernel
    obtain ⟨⟨store, response, after⟩, done, facts⟩ := Option.map_eq_some_iff.mp ran
    simp only [Prod.mk.injEq] at facts
    obtain ⟨code, none, one⟩ := facts
    obtain ⟨row, pending⟩ := List.length_eq_one_iff.mp one
    have waits : row ∈ Query.pendingMessages.rows after.store.messages := by
      rw [pending]
      exact List.mem_singleton_self row
    obtain ⟨visits, runs⟩ := handled_runs done
    refine ⟨store, response, after, visits, runs, code, row, ?_, ?_, waits⟩
    · exact (Table.mem_rows_iff _ row).mpr ((mem_rows _ _ row).mp waits).1
    · rw [List.length_eq_zero_iff.mp none]
      exact List.not_mem_nil
  · have ran : (handled gathering readmission).map (fun done => (done.2.1.code,
        done.1.groupMembers.rows.map (·.serverAddress),
        done.2.2.store.groupMembers.rows.map (·.serverAddress))) =
        some (500, [[], str "b"], [str "a", str "b"]) := by
      decide +kernel
    obtain ⟨⟨store, response, after⟩, done, facts⟩ := Option.map_eq_some_iff.mp ran
    simp only [Prod.mk.injEq] at facts
    obtain ⟨code, before, now⟩ := facts
    obtain ⟨visits, runs⟩ := handled_runs done
    refine ⟨store, response, after, visits, runs, code, fun untouched => ?_⟩
    have moved : str "a" ∈ after.store.groupMembers.rows.map (·.serverAddress) := by
      rw [now]
      exact List.mem_cons_self
    obtain ⟨row, member, address⟩ := List.mem_map.mp moved
    have old := List.mem_map_of_mem (f := (·.serverAddress)) ((untouched.groupMembers row).mp member)
    rw [before, address] at old
    exact absurd old (by decide)

end Runs
end NoMiddle.FailedCalls
