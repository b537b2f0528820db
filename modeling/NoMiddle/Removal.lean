import NoMiddle.GroupMembership
import NoMiddle.PeerRoutes

/-! What a removal reaches. The new list goes to the members that stay, so the removed
node keeps the old one; and whether a message is let in does not depend on any list. -/
namespace NoMiddle.Removal
open Library Text Crypto DbManager DbViews Node Handlers GroupHandlers Network GroupMembership
open Conduct (Received)
open NoMiddle.Sequential (Stores)

/-- What a node asks of a message before it stores it. -/
def Admitted (sodium : Sodium) (keys : KeyPair) (message : Json) (store : Store) : Prop :=
  ∃ msg, Received sodium keys message msg ∧ store.messages.has (cstr msg.messageId) = false

/-- The message is let in exactly if it is admitted, and then stands in its group. -/
theorem message_admitted {sodium : Sodium} {keys : KeyPair} {message : Json} {desk later : Solo.Desk}
    {answer : Response} {group : PathId} {memberId : Str}
    (ran : Solo.Runs (acceptMessage sodium keys (some message)) desk answer later)
    (inGroup : message.s? "group_id" = some group.text)
    (sender : message.s? "sender_id" = some memberId) :
    (answer.code = 200 ↔ Admitted sodium keys message desk.store) ∧
    (answer.code = 200 → ∃ id row, later.store.messages.find id = some row ∧
      row.senderId = memberId ∧ row.groupId = group.text) ∧
    (answer.code ≠ 200 → later.store = desk.store) := by
  have outcome := (Program.wp_demonic_iff Solo.step _ _ desk).mp
    PeerRoutes.acceptMessage_outcome answer later ran
  rcases outcome with ⟨code, msg, received, fresh, stored⟩ | ⟨code, same, taken⟩
  · refine ⟨⟨fun _ => ⟨msg, received, fresh⟩, fun _ => code⟩, fun _ => ?_, fun other => ?_⟩
    · refine ⟨cstr msg.messageId, msg.stored, ?_, ?_, ?_⟩
      · have absent : desk.store.messages.find (cstr msg.messageId) = none := by
          simpa [Table.has] using fresh
        rw [stored]
        exact (Table.find_insert desk.store.messages msg.stored msg.stored_clean _).trans
          (by simp [absent, Message.stored])
      · cases sender.symm.trans received.senderId
        exact cstr_of_clean (decryptMessage_clean received.opened).2
      · have named := received.groupId
        rw [Json.optional, inGroup] at named
        have same : msg.groupId = group.text := named.symm
        rw [show msg.stored.groupId = cstr msg.groupId from rfl, same]
        exact cstr_of_clean group.clean
    · exact absurd code other
  · refine ⟨⟨fun ok => absurd ok code, ?_⟩, fun ok => absurd ok code, fun _ => same⟩
    rintro ⟨msg, received, fresh⟩
    exact absurd (taken msg received) (by simp [fresh])

/-- After a removal the members that stay hold the remover's list, without the removed
member. The removed node's tables are as they were, and its messages to the group are
still let in under the same conditions as anybody's. -/
theorem removal_reaches {Host : Type} [DecidableEq Host] {network : Deployment Host}
    {editor : Host} {group : PathId} {req : HttpRequest} {before after : Stores Host}
    {response : Response} {body : Json} {memberId : Str}
    (ran : Sequential.Runs network false editor
      (removeMember network.sodium (network.keys editor) req group) before response after)
    (answered : response.code = 200) (given : req.body = some body)
    (named : body.s? "member_id" = some memberId) (other : memberId ≠ network.id editor)
    (routed : Routed network editor (listed (after editor) group.text)) :
    (∀ e ∈ listed (after editor) group.text, e.1 ≠ memberId) ∧
    (∀ peer, network.id peer = memberId → after peer = before peer) ∧
    (∀ e ∈ listed (after editor) group.text, e.1 ≠ network.id editor →
      ∀ peer, network.id peer = e.1 →
        listed (after peer) group.text = listed (after editor) group.text) ∧
    ∀ peer message desk answer later, message.s? "group_id" = some group.text →
      message.s? "sender_id" = some memberId →
      Solo.Runs (acceptMessage network.sodium (network.keys peer) (some message)) desk answer
        later →
      (answer.code = 200 ↔ Admitted network.sodium (network.keys peer) message desk.store) ∧
      (answer.code = 200 → ∃ id row, later.store.messages.find id = some row ∧
        row.senderId = memberId ∧ row.groupId = group.text) ∧
      (answer.code ≠ 200 → later.store = desk.store) := by
  rcases (Program.wp_demonic_iff _ _ _ _).mp removeMember_pushed _ _ ran with
    ⟨_, code⟩ | ⟨data, removed, parsed, found, pushed⟩
  · exact absurd answered code
  cases given.symm.trans parsed
  cases named.symm.trans found
  have gone : ∀ m ∈ remaining group.text memberId (before editor), m.memberId ≠ memberId :=
    fun m member => of_decide_eq_true (List.mem_filter.mp member).2
  refine ⟨?_, ?_, ?_, fun peer message desk answer later inGroup sender taken =>
    message_admitted taken inGroup sender⟩
  · intro e member
    rw [pushed.own] at member
    obtain ⟨m, stays, rfl⟩ := List.mem_map.mp member
    exact gone m stays
  · intro peer owner
    have elsewhere : peer ≠ editor := by
      rintro rfl
      exact other owner.symm
    apply pushed.untouched peer elsewhere
    intro m stays foreign
    rw [pushed.own] at routed
    obtain ⟨_, _, leads⟩ := routed (entry m) (List.mem_map_of_mem stays) foreign
    rw [Bool.eq_false_iff]
    -- An address that leads to the removed node would be that of a remaining member.
    intro reaches
    exact gone m stays ((leads peer reaches).symm.trans owner)
  · intro e member foreign peer owner
    exact (agreed_pushed pushed routed e member foreign peer owner).same

section Runs

def expulsion : HttpRequest := userRequest [("member_id", .str (pair.id false))]

/-- A message the removed node sends to the group. -/
def intrusion : Json :=
  .obj [("message_id", .str (str "m")), ("sender_id", .str (pair.id false)),
    ("recipient_id", .str (pair.id true)), ("group_id", .str founded.text),
    ("ciphertext", .str (binToBase64 (List.replicate 40 0 ++ str "still here"))),
    ("timestamp", .num 8)]

/-- The node that was taken in is removed again, and then writes to the group. -/
def expelled : Option (Stores Bool × Response × Solo.Desk) :=
  joined.bind fun joined =>
    (Sequential.exec pair false true (removeMember .transparent (pair.keys true) expulsion founded)
      online joined).bind fun removed =>
        ((acceptMessage .transparent (pair.keys true) (some intrusion)).exec Solo.act
          (List.replicate 5 (clockAt 8, none)) ⟨removed.2 true, []⟩).map fun done =>
            (removed.2, done)

theorem expelled_runs {after : Stores Bool} {accepted : Response} {later : Solo.Desk}
    (done : expelled = some (after, accepted, later)) :
    ∃ before, joined = some before ∧
      Sequential.Runs pair false true (removeMember .transparent (pair.keys true) expulsion founded)
        before (ok [("delivered", .bool true)]) after ∧
      Solo.Runs (acceptMessage .transparent (pair.keys true) (some intrusion))
        ⟨after true, []⟩ accepted later := by
  obtain ⟨before, start, rest⟩ := Option.bind_eq_some_iff.mp done
  obtain ⟨⟨response, removed⟩, first, last⟩ := Option.bind_eq_some_iff.mp rest
  obtain ⟨⟨answer, desk⟩, second, same⟩ := Option.map_eq_some_iff.mp last
  cases same
  have answered : (joined.bind fun joined => (Sequential.exec pair false true
      (removeMember .transparent (pair.keys true) expulsion founded) online joined).map (·.1)) =
      some (ok [("delivered", .bool true)]) := rfl
  rw [start, Option.bind_some, first] at answered
  cases answered
  exact ⟨before, start, Sequential.exec_runs _ _ first,
    Program.exec_runs Solo.act _ _ _ _ _ second⟩

theorem listed_id (store : Store) (groupId memberId : Str) :
    (∃ e ∈ listed store groupId, e.1 = memberId) ↔
      memberId ∈ (groupMembersOf groupId store.groupMembers).map (·.memberId) := by
  constructor
  · rintro ⟨e, member, rfl⟩
    obtain ⟨m, stored, rfl⟩ := List.mem_map.mp member
    exact List.mem_map_of_mem stored
  · intro member
    obtain ⟨m, stored, rfl⟩ := List.mem_map.mp member
    exact ⟨entry m, List.mem_map_of_mem stored, rfl⟩

theorem expelled_lists : expelled.map (fun (after, _) =>
    ((groupMembersOf founded.text (after false).groupMembers).map (·.memberId),
      (groupMembersOf founded.text (after true).groupMembers).map (·.memberId))) =
    some ([pair.id true, pair.id false], [pair.id true]) := by
  decide +kernel

theorem expelled_writes : expelled.map (fun (_, accepted, later) => (accepted.code,
    (later.store.messages.find (str "m")).map fun row => (row.senderId, row.groupId))) =
    some (200, some (pair.id false, founded.text)) := by
  decide +kernel

theorem expelled_reaches : ∃ (before after : Stores Bool),
    after false = before false ∧ ∀ e ∈ listed (after true) founded.text, e.1 ≠ pair.id false := by
  obtain ⟨⟨after, accepted, later⟩, done, lists⟩ := Option.map_eq_some_iff.mp expelled_lists
  obtain ⟨before, _, ran, _⟩ := expelled_runs done
  have own : (groupMembersOf founded.text (after true).groupMembers).map (·.memberId) =
      [pair.id true] := (Prod.mk.inj lists).2
  have reaches := removal_reaches ran rfl rfl rfl (by decide) (by
    intro e member foreign
    have among := (listed_id (after true) founded.text e.1).mp ⟨e, member, rfl⟩
    rw [own] at among
    exact absurd (List.mem_singleton.mp among) foreign)
  exact ⟨before, after, reaches.2.1 false rfl, reaches.1⟩

/-- The removal is answered with 200 and delivered, but the removed node still lists
itself, and the remover, who stays, lets its next message into the group. -/
theorem expelled_remains : ∃ (before after : Stores Bool) (accepted : Response)
    (later : Solo.Desk),
    Edited pair true founded before ∧
    Sequential.Runs pair false true (removeMember .transparent (pair.keys true) expulsion founded)
      before (ok [("delivered", .bool true)]) after ∧
    (∃ e ∈ listed (after false) founded.text, e.1 = pair.id false) ∧
    (∃ e ∈ listed (after true) founded.text, e.1 = pair.id true) ∧
    intrusion.s? "group_id" = some founded.text ∧
    intrusion.s? "sender_id" = some (pair.id false) ∧
    Solo.Runs (acceptMessage .transparent (pair.keys true) (some intrusion)) ⟨after true, []⟩
      accepted later ∧
    accepted.code = 200 ∧
    (later.store.messages.find (str "m")).map (fun row => (row.senderId, row.groupId)) =
      some (pair.id false, founded.text) := by
  obtain ⟨⟨after, accepted, later⟩, done, lists⟩ := Option.map_eq_some_iff.mp expelled_lists
  obtain ⟨before, start, ran, writes⟩ := expelled_runs done
  obtain ⟨others, own⟩ := Prod.mk.inj lists
  have answered := expelled_writes
  rw [done] at answered
  obtain ⟨code, stored⟩ := Prod.mk.inj (Option.some.inj answered)
  refine ⟨before, after, accepted, later, joined_edited start, ran, ?_, ?_, rfl, rfl, writes, code,
    stored⟩
  · rw [listed_id, others]
    exact List.mem_cons_of_mem _ List.mem_cons_self
  · rw [listed_id, own]
    exact List.mem_cons_self

end Runs
end NoMiddle.Removal
