import NoMiddle.Delivery

/-! What a node never forgets. Statuses and texts of messages change, and groups, devices and
requests for access go away again, but the row of a message, of a contact and of a pending
member list stays where it was inserted. -/
namespace NoMiddle.Retention
open Library Text DbManager Node Network
open TaskConduct (World Action)

/-- What a message row was inserted with and no statement sets. -/
structure Envelope where
  messageId : Str
  senderId : Str
  recipientId : Str
  groupId : Str
  timestamp : Int
deriving DecidableEq

def envelope (row : Message) : Envelope :=
  ⟨row.messageId, row.senderId, row.recipientId, row.groupId, row.timestamp⟩

structure Kept (before after : Store) : Prop where
  messages : before.messages.rows.map envelope <+: after.messages.rows.map envelope
  contacts : before.contacts.rows.map (·.contactId) <+: after.contacts.rows.map (·.contactId)
  groupUpdates : before.groupUpdates.rows.map (fun u => (u.groupId, u.memberId, u.createdAt)) <+:
    after.groupUpdates.rows.map fun u => (u.groupId, u.memberId, u.createdAt)

theorem Kept.refl (store : Store) : Kept store store :=
  ⟨List.prefix_refl _, List.prefix_refl _, List.prefix_refl _⟩

theorem Kept.trans {before middle after : Store} (first : Kept before middle)
    (second : Kept middle after) : Kept before after :=
  ⟨first.messages.trans second.messages, first.contacts.trans second.contacts,
    first.groupUpdates.trans second.groupUpdates⟩

theorem handle_kept (input : Input) (operation : LocalOp) (store : Store) :
    Kept store (handle input operation store).2 := by
  cases operation with
  | call call =>
      cases call with
      | addMessage msg =>
          exact { Kept.refl store with messages := Table.insert_extends envelope _ _ msg.stored_clean }
      | updateMessages messageId recipientId mark =>
          have unseen : ∀ row, envelope (mark.set input.now row) = envelope row := by
            intro row
            cases mark <;> rfl
          refine { Kept.refl store with messages := ?_ }
          change _ <+: (DbManager.updateMessages _ _ _ _ _).rows.map _
          exact Table.update_extends envelope store.messages unseen
      | upsertContact contactId name serverAddress =>
          refine { Kept.refl store with contacts := ?_ }
          change _ <+: (DbManager.upsertContact _ _ _ _).rows.map _
          unfold DbManager.upsertContact
          split
          · exact Table.update_extends _ _ fun _ => rfl
          · exact Table.insert_extends _ _ _ _
      | upsertGroupUpdate u =>
          refine { Kept.refl store with groupUpdates := ?_ }
          change _ <+: (DbManager.upsertGroupUpdate _ _ _).rows.map _
          unfold DbManager.upsertGroupUpdate
          split
          · exact Table.update_extends _ _ fun _ => rfl
          · exact Table.insert_extends _ _ _ _
      | markGroupUpdateAccepted groupId memberId =>
          refine { Kept.refl store with groupUpdates := ?_ }
          change _ <+: (DbManager.markGroupUpdateAccepted _ _ _).rows.map _
          exact Table.update_extends _ _ fun _ => rfl
      | _ => exact ⟨List.prefix_refl _, List.prefix_refl _, List.prefix_refl _⟩
  | _ => exact Kept.refl store

variable {Host : Type} [DecidableEq Host] {network : Deployment Host} {earlier later : World Host}

/-- In every later state the rows are still there, in their order. -/
theorem nothing_forgotten (run : Rpc.Reachable network.system (fun _ _ => True) earlier later)
    (host : Host) : Kept (earlier.stores host) (later.stores host) := by
  refine run.invariant (fun state => Kept (earlier.stores host) (state.stores host)) (Kept.refl _) ?_
  intro before label after kept _ step
  exact Rpc.store_step (Kept (earlier.stores host)) host
    (fun input operation store sofar => sofar.trans (handle_kept input operation store)) step kept

/-- A contact is known and a message sent, and both rows are there in the end. -/
theorem greeting_kept : ∃ later : World Bool,
    (∃ row ∈ (later.stores true).messages.rows, row.accepted = 1) ∧
    ∀ host, Kept (acquainted host) (later.stores host) := by
  have ran : ((Rpc.run pair.system (fun _ _ => true) Delivery.greeting
      ⟨acquainted, [], []⟩).map fun world =>
        (world.stores true).messages.rows.any (·.accepted = 1)) = some true := by
    decide +kernel
  obtain ⟨later, scheduled, accepted⟩ := Option.map_eq_some_iff.mp ran
  refine ⟨later, by simpa using accepted, ?_⟩
  exact nothing_forgotten (Rpc.run_reachable (fun _ _ _ => trivial) Delivery.greeting scheduled)

end NoMiddle.Retention
