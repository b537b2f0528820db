import NoMiddle.Effects
import NoMiddle.GroupMembership
import NoMiddle.MemberLists

/-! Where the requests of a node go. An address reaches a node through its user or in a list of
members; it is stored, handed on to other nodes, read again and used, and no address is ever
made up on the way. -/
namespace NoMiddle.Confinement
open Library Text Crypto DbManager DbViews Node MessageDelivery RetryWorker Handlers GroupHandlers
open Network Footprint
open TaskConduct (World Action)
open Conduct (Trace wp_perform wp_send wp_seq_only)

/-- The address a task has from outside. -/
def Names : Task → Str → Prop
  | .upsertContact req, address | .groupsCreate req, address => ∃ body, req.body = some body ∧
      body.s? "server_address" = some address
  | .addMember req _, address => ∃ body, req.body = some body ∧
      (body.s? "server_address" = some address ∨ body.s? "self_server_address" = some address)
  | .remotePublicKey _ addr, address => addr = some address
  | .incoming .acceptGroupUpdate body, address => ∃ data entries, body = some data ∧
      data.items? "members" = some entries ∧
      ∃ e ∈ entries, e.s? "server_address" = some address
  | _, _ => False

variable (given : Str → Prop)

/-- As it was given or as a column holds it. -/
def Named (address : Str) : Prop :=
  ∃ source, given source ∧ (address = source ∨ address = cstr source)

/-- Whoever has no address has the empty one. -/
def Known (address : Str) : Prop := address = [] ∨ Named given address

/-- A list of members whose addresses are known. -/
def Carries (data : Json) : Prop :=
  ∀ entries, data.items? "members" = some entries →
    ∀ e ∈ entries, ∀ address, e.s? "server_address" = some address → Known given address

structure Within (store : Store) : Prop where
  contacts : ∀ row ∈ store.contacts.rows, Known given row.serverAddress
  groupMembers : ∀ row ∈ store.groupMembers.rows, Known given row.serverAddress
  groupUpdates : ∀ row ∈ store.groupUpdates.rows, Carries given row.snapshotJson

/-- The request goes to a named address. Only a new message for a recipient without an address
is posted all the same, to no host. -/
def Targets (request : Request) : Prop :=
  (∃ address, Named given address ∧ request.serverAddress = cutServerAddress address) ∨
    (request.serverAddress = [] ∧ request.endpoint = .acceptMessage)

/-- And it names no other address. -/
structure Fair (request : Request) : Prop where
  target : Targets given request
  carries : request.endpoint = .acceptGroupUpdate → Carries given request.body

/-- What the reads of a store within these addresses may answer. -/
def Possible : (operation : nodeSig.Op) → nodeSig.Res operation → Prop
  | .inl (.call (.getContactAddress _)), (address : Str) => Known given address
  | .inl (.call (.getGroupMembers _)), (members : List GroupMember) =>
      ∀ m ∈ members, Known given m.serverAddress
  | .inl (.call .getPendingGroupUpdates), (updates : List GroupUpdate) =>
      ∀ u ∈ updates, Carries given u.snapshotJson
  | _, _ => True

def Allowed : nodeSig.Op → Prop
  | .inl (.call (.upsertContact _ _ serverAddress)) => Known given serverAddress
  | .inl (.call (.replaceGroupMembers _ members)) => ∀ m ∈ members, Known given m.serverAddress
  | .inl (.call (.upsertGroupUpdate u)) => Carries given u.snapshotJson
  | .inr request => Fair given request
  | _ => True

def confined : Discipline nodeSig := ⟨Possible given, fun _ => Allowed given⟩

/-- Neither sends nor stores an address. -/
def addressFree : nodeSig.Op → Bool
  | .inl (.call (.upsertContact ..)) | .inl (.call (.replaceGroupMembers ..))
  | .inl (.call (.upsertGroupUpdate _)) | .inr _ => false
  | _ => true

variable {given}

theorem Known.stored {address : Str} (known : Known given address) : Known given (cstr address) := by
  rcases known with rfl | ⟨source, isGiven, rfl | rfl⟩
  · exact .inl rfl
  · exact .inr ⟨address, isGiven, .inr rfl⟩
  · exact .inr ⟨source, isGiven, .inr (cstr_cstr source)⟩

theorem Known.source {address : Str} (isGiven : given address) : Known given address :=
  .inr ⟨address, isGiven, .inl rfl⟩

theorem addressFree_allowed (operation : nodeSig.Op) (free : addressFree operation = true) :
    Allowed given operation := by
  cases operation using operation_cases with
  | call db =>
      cases db with
      | upsertContact | replaceGroupMembers | upsertGroupUpdate => cases free
      | _ => trivial
  | sent request => cases free
  | _ => trivial

/-! What the calls do to a store within these addresses. -/
section Store
variable {store : Store}

theorem Within.handled (within : Within given store) (input : Input) (operation : LocalOp) :
    Possible given (.inl operation) (handle input operation store).1 := by
  cases operation with
  | call call =>
      cases call with
      | getContactAddress contactId =>
          simp only [Possible, handle, Call.exec]
          split
          · next found => exact within.contacts _ ((store.contacts.find_eq_some _ _).mp found).1
          · exact .inl rfl
      | getGroupMembers groupId =>
          intro m member
          exact within.groupMembers m (List.mem_of_mem_filter ((List.mem_insertionSort _).mp member))
      | getPendingGroupUpdates =>
          intro u member
          exact within.groupUpdates u (List.mem_of_mem_filter ((List.mem_insertionSort _).mp member))
      | _ => trivial
  | _ => trivial

theorem Within.kept (within : Within given store) (input : Input) (operation : LocalOp)
    (allowed : Allowed given (.inl operation)) :
    Within given (handle input operation store).2 := by
  cases operation with
  | call call =>
      cases call with
      | upsertContact contactId name serverAddress =>
          refine { within with contacts := fun row member => ?_ }
          change row ∈ (DbManager.upsertContact contactId name serverAddress store.contacts).rows
            at member
          unfold DbManager.upsertContact at member
          split at member
          · obtain ⟨old, there, rfl⟩ := List.mem_map.mp member
            split
            · exact allowed.stored
            · exact within.contacts old there
          · rcases store.contacts.mem_insert _ member with there | rfl
            · exact within.contacts row there
            · exact allowed.stored
      | replaceGroupMembers groupId members =>
          refine { within with groupMembers := fun row member => ?_ }
          have rows := MemberLists.rows_replaced groupId members store.groupMembers
          change row ∈ (DbManager.replaceGroupMembers groupId members store.groupMembers).2.rows
            at member
          rw [rows] at member
          rcases List.mem_append.mp member with kept | new
          · exact within.groupMembers row (List.mem_of_mem_filter kept)
          · obtain ⟨front, back, split, _⟩ := (Table.mem_firsts _ row).mp new
            have among : row ∈ members.map (·.stored groupId) := by simp [split]
            obtain ⟨m, source, rfl⟩ := List.mem_map.mp among
            exact (allowed m source).stored
      | deleteGroup groupId =>
          exact { within with
            groupMembers := fun row member =>
              within.groupMembers row (List.mem_of_mem_filter member) }
      | upsertGroupUpdate u =>
          refine { within with groupUpdates := fun row member => ?_ }
          change row ∈ (DbManager.upsertGroupUpdate input.now u store.groupUpdates).rows at member
          unfold DbManager.upsertGroupUpdate at member
          split at member
          · obtain ⟨old, there, rfl⟩ := List.mem_map.mp member
            split
            · exact allowed
            · exact within.groupUpdates old there
          · rcases store.groupUpdates.mem_insert _ member with there | rfl
            · exact within.groupUpdates row there
            · exact allowed
      | markGroupUpdateAccepted groupId memberId =>
          refine { within with groupUpdates := fun row member => ?_ }
          obtain ⟨old, there, rfl⟩ := List.mem_map.mp member
          split
          · exact within.groupUpdates old there
          · exact within.groupUpdates old there
      | _ => exact ⟨within.contacts, within.groupMembers, within.groupUpdates⟩
  | _ => exact within

end Store

/-! The programs. What one of them may do depends on what it was told, not on when. -/
section Programs
variable {Value Output : Type} {history : Trace}

theorem wp_free {program : Proc Value} (only : program.Only addressFree) :
    program.wp (confined given).contract (fun _ _ => True) history :=
  Program.wp_of_only (fun _ operation free => addressFree_allowed operation free) program only
    history

theorem wp_after {program : Proc Value} {rest : Value → Proc Output}
    {post : Output → Trace → Prop} (only : program.Only addressFree)
    (later : ∀ value history, (rest value).wp (confined given).contract post history) :
    (program >>= rest).wp (confined given).contract post history :=
  wp_seq_only (fun _ operation free => addressFree_allowed operation free) only later

theorem wp_authed (sodium : Sodium) (req : HttpRequest) (refused : Response) {rest : Proc Response}
    (later : ∀ history, rest.wp (confined given).contract (fun _ _ => True) history) :
    (do if !(← isAuthed sodium req) then return refused
        rest).wp (confined given).contract (fun _ _ => True) history := by
  refine wp_after (Effects.isAuthed_only sodium (fun _ => rfl) req) fun authed history => ?_
  cases authed with
  | true => exact later history
  | false => trivial

theorem fair_named {address : Str} (named : Named given address) {endpoint : Endpoint} {body : Json}
    (carries : endpoint = .acceptGroupUpdate → Carries given body) :
    Fair given ⟨cutServerAddress address, endpoint, body⟩ :=
  ⟨.inl ⟨address, named, rfl⟩, carries⟩

/-- The address was looked at before the request was made. -/
theorem fair_known {address : Str} (known : Known given address) {endpoint : Endpoint} {body : Json}
    (present : address.isEmpty ≠ true) (carries : endpoint = .acceptGroupUpdate → Carries given body) :
    Fair given ⟨cutServerAddress address, endpoint, body⟩ := by
  rcases known with rfl | named
  · exact absurd rfl present
  · exact fair_named named carries

theorem fair_cut {address : Str} (known : Known given address) {endpoint : Endpoint} {body : Json}
    (present : (cutServerAddress address).isEmpty ≠ true)
    (carries : endpoint = .acceptGroupUpdate → Carries given body) :
    Fair given ⟨cutServerAddress address, endpoint, body⟩ := by
  refine fair_known known (fun none => present ?_) carries
  rw [List.isEmpty_iff.mp none]
  rfl

/-- The deliveries that ask for a contact's address and the retries. -/
theorem wp_toContact {endpoint : Endpoint} {body : Json} {mark : Proc Unit}
    (carries : endpoint = .acceptGroupUpdate → Carries given body)
    (marks : mark.Only addressFree) (recipientId : Str) :
    (do
      let serverAddress ← call (.getContactAddress recipientId)
      if serverAddress.isEmpty then return false
      let result ← sendMessage (cutServerAddress serverAddress) endpoint body
      if delivered result then mark
      return delivered result : Proc Bool).wp (confined given).contract (fun _ _ => True)
        history := by
  refine wp_perform trivial fun (address : Str) known => ?_
  split
  · trivial
  · next present =>
    refine wp_send (fair_known known present carries) fun answer => ?_
    dsimp only
    split
    · exact wp_after marks fun _ _ => trivial
    · trivial

/-- The end of a turn of the loops over members: a member without an address is passed over. -/
theorem wp_toMember {address : Str} (known : Known given address) {endpoint : Endpoint} {body : Json}
    (carries : endpoint = .acceptGroupUpdate → Carries given body) {skipped : Value}
    {told untold : Proc Value}
    (tells : ∀ history, told.wp (confined given).contract (fun _ _ => True) history)
    (fails : ∀ history, untold.wp (confined given).contract (fun _ _ => True) history) :
    (do
      if (cutServerAddress address).isEmpty then return skipped
      let result ← sendMessage (cutServerAddress address) endpoint body
      if delivered result then told else untold : Proc Value).wp (confined given).contract
        (fun _ _ => True) history := by
  split
  · trivial
  · next present =>
    refine wp_send (fair_cut known present carries) fun answer => ?_
    split
    · exact tells _
    · exact fails _

theorem deliverMessage_confined (senderId recipientId ciphertext plaintext : Str)
    (timestamp : Int) :
    (deliverMessage senderId recipientId ciphertext plaintext timestamp).wp
      (confined given).contract (fun _ _ => True) history := by
  refine wp_perform trivial fun _ _ => wp_perform trivial fun (added : Bool) _ => ?_
  cases added with
  | false => trivial
  | true =>
      refine wp_perform trivial fun (address : Str) known => ?_
      -- This delivery does not look whether there is an address.
      have fair : ∀ body, Fair given ⟨cutServerAddress address, .acceptMessage, body⟩ := by
        intro body
        refine ⟨?_, fun other => by cases other⟩
        rcases known with rfl | named
        · exact .inr ⟨rfl, rfl⟩
        · exact .inl ⟨address, named, rfl⟩
      refine wp_send (fair _) fun answer => ?_
      split
      · exact ⟨trivial, fun _ _ => trivial⟩
      · trivial

/-- A delivery in the middle of a route, whose outcome decides nothing about addresses. -/
theorem wp_then {program : Proc Value} {rest : Value → Proc Output}
    (first : program.wp (confined given).contract (fun _ _ => True) history)
    (later : ∀ value history, (rest value).wp (confined given).contract (fun _ _ => True) history) :
    (program >>= rest).wp (confined given).contract (fun _ _ => True) history :=
  Program.wp_seq (confined given).contract_monotone program rest history first
    fun value after _ => later value after

theorem wp_loop {Item : Type} {body : Item → Proc Unit} {items : List Item}
    (turn : ∀ item ∈ items, ∀ history,
      (body item).wp (confined given).contract (fun _ _ => True) history) :
    (items.forM body).wp (confined given).contract (fun _ _ => True) history :=
  Program.wp_forM_mem (confined given).contract_monotone body (fun _ => True) items
    (fun item member history _ => turn item member history) history trivial

theorem wp_fold {Item : Type} {body : Value → Item → Proc Value} {items : List Item}
    (turn : ∀ item ∈ items, ∀ value history,
      (body value item).wp (confined given).contract (fun _ _ => True) history) (value : Value) :
    (items.foldlM body value).wp (confined given).contract (fun _ _ => True) history := by
  induction items generalizing value history with
  | nil => trivial
  | cons item rest ih =>
      rw [List.foldlM_cons]
      refine wp_then (turn item List.mem_cons_self value history) fun next history => ?_
      exact ih (fun other member => turn other (List.mem_cons_of_mem item member)) next

/-! The routes for contacts and direct messages. -/

variable (sodium : Sodium) (keys : KeyPair)

theorem upsertContact_confined (req : HttpRequest)
    (named : ∀ address, Names (.upsertContact req) address → given address) :
    (upsertContact sodium req).wp (confined given).contract (fun _ _ => True) history := by
  refine wp_authed sodium req _ fun history => ?_
  split
  · next data body =>
    split
    · split
      · trivial
      · split
        · split
          · split
            · next address there =>
              have known : Known given address := .source (named address ⟨data, body, there⟩)
              refine wp_perform known fun (stored : Bool) _ => ?_
              cases stored <;> trivial
            · trivial
          · trivial
        · trivial
    · trivial
  · trivial

theorem sendDirect_confined (req : HttpRequest) :
    (sendDirect sodium keys req).wp (confined given).contract (fun _ _ => True) history := by
  refine wp_authed sodium req _ fun history => ?_
  repeat' split
  all_goals first
    | trivial
    | refine wp_perform trivial fun _ _ => wp_after ⟨rfl, fun _ => trivial⟩ fun ciphertext _ => ?_
  cases ciphertext with
  | none => trivial
  | some ciphertext =>
      refine wp_then (deliverMessage_confined _ _ _ _ _) fun messageId history => ?_
      cases messageId with
      | none => trivial
      | some messageId => exact ⟨trivial, fun _ _ => trivial⟩

theorem editDirect_confined (req : HttpRequest) :
    (editDirect sodium keys req).wp (confined given).contract (fun _ _ => True) history := by
  refine wp_authed sodium req _ fun history => ?_
  repeat' split
  all_goals first
    | trivial
    | refine wp_perform trivial fun found _ => ?_
  cases found with
  | none => trivial
  | some msg =>
      dsimp only
      split
      · trivial
      · refine wp_after ⟨rfl, fun _ => trivial⟩ fun ciphertext _ => ?_
        cases ciphertext with
        | none => trivial
        | some ciphertext =>
            refine wp_perform trivial fun _ _ => wp_perform trivial fun (updated : Bool) _ => ?_
            cases updated with
            | false => trivial
            | true =>
                refine wp_then (wp_toContact ?_ ?_ _) fun _ _ => ⟨trivial, fun _ _ => trivial⟩
                · exact fun other => absurd other (by decide)
                · exact ⟨rfl, fun _ => trivial⟩

theorem deleteDirect_confined (req : HttpRequest) :
    (deleteDirect sodium keys req).wp (confined given).contract (fun _ _ => True) history := by
  refine wp_authed sodium req _ fun history => ?_
  repeat' split
  all_goals first
    | trivial
    | refine wp_perform trivial fun found _ => ?_
  cases found with
  | none => trivial
  | some msg =>
      dsimp only
      split
      · trivial
      · refine wp_after ⟨rfl, fun _ => trivial⟩ fun _ _ => ?_
        refine wp_after ⟨rfl, fun _ => trivial⟩ fun _ _ => ?_
        refine wp_then (wp_toContact ?_ ?_ _) fun _ _ => ⟨trivial, fun _ _ => trivial⟩
        · exact fun other => absurd other (by decide)
        · exact ⟨rfl, fun _ => trivial⟩

theorem remotePublicKey_confined (req : HttpRequest) (addr : Option Str)
    (named : ∀ address, Names (.remotePublicKey req addr) address → given address) :
    (remotePublicKey sodium req addr).wp (confined given).contract (fun _ _ => True)
      history := by
  refine wp_authed sodium req _ fun history => ?_
  cases addr with
  | none => trivial
  | some address =>
      dsimp only
      split
      · trivial
      · have source : Named given address := ⟨address, named address rfl, .inl rfl⟩
        have fetched : (fetchRemote (cutServerAddress address) .publicKey).wp
            (confined given).contract (fun _ _ => True) history := by
          refine ⟨fair_named source fun other => absurd other (by decide), fun answer _ => ?_⟩
          cases answer with
          | none => trivial
          | some answer =>
              change Program.wp _ (if answer.code ≠ 200 then _ else _) _ _
              split <;> trivial
        exact wp_then fetched fun body _ => by cases body <;> trivial

/-! The routes for groups. -/

theorem groupsCreate_confined (req : HttpRequest)
    (named : ∀ address, Names (.groupsCreate req) address → given address) :
    (groupsCreate sodium keys req).wp (confined given).contract (fun _ _ => True) history := by
  refine wp_authed sodium req _ fun history => ?_
  split
  · next data body =>
    have own : Known given ((data.optional "server_address").getD []) := by
      cases there : data.optional "server_address" with
      | none => exact .inl rfl
      | some address => exact .source (named address ⟨data, body, there⟩)
    split
    · split
      · trivial
      · refine wp_perform trivial fun dice _ => ?_
        split
        · refine wp_perform trivial fun _ _ => wp_perform trivial fun (created : Bool) _ => ?_
          cases created with
          | false => trivial
          | true =>
              refine wp_perform trivial fun _ _ => ?_
              refine wp_perform (List.forall_mem_singleton.mpr own) fun (replaced : Bool) _ => ?_
              cases replaced <;> trivial
        · trivial
    · trivial
  · trivial

theorem carries_snapshot {groupId senderId : Str} {version : Int} {grp : Option Group}
    {members : List GroupMember} (known : ∀ m ∈ members, Known given m.serverAddress) :
    Carries given (snapshot groupId senderId version grp members) := by
  obtain ⟨_, _, _, _, _, _, listed⟩ :=
    GroupMembership.snapshot_fields groupId senderId version grp members
  intro entries found e member address there
  rw [listed] at found
  cases found
  obtain ⟨m, among, rfl⟩ := List.mem_map.mp member
  cases there
  exact known m among

theorem deliverGroupUpdate_confined {groupId senderId : Str} {members : List GroupMember}
    {version : Int} (known : ∀ m ∈ members, Known given m.serverAddress) :
    (deliverGroupUpdate groupId senderId members version).wp (confined given).contract
      (fun _ _ => True) history := by
  refine wp_perform trivial fun grp _ => wp_fold (fun m member allOnline history => ?_) true
  have carries : Carries given (snapshot groupId senderId version grp members) :=
    carries_snapshot known
  unfold pushGroupUpdate
  split
  · trivial
  · refine wp_perform carries fun _ _ => ?_
    exact wp_toMember (known m member) (fun _ => carries) (fun _ => ⟨trivial, fun _ _ => trivial⟩)
      fun _ => trivial

theorem setAddress_known {memberId serverAddress : Str} (known : Known given serverAddress)
    {members : List GroupMember} (before : ∀ m ∈ members, Known given m.serverAddress) :
    ∀ m ∈ setAddress memberId serverAddress members, Known given m.serverAddress := by
  induction members with
  | nil => exact before
  | cons m rest ih =>
      rw [List.forall_mem_cons] at before
      unfold setAddress
      split
      · exact List.forall_mem_cons.mpr ⟨known, before.2⟩
      · exact List.forall_mem_cons.mpr ⟨before.1, ih before.2⟩

theorem wp_withMember {groupId memberId serverAddress : Str} {existing : List GroupMember}
    (known : Known given serverAddress) (before : ∀ m ∈ existing, Known given m.serverAddress)
    {rest : List GroupMember → Proc Output}
    (later : ∀ members : List GroupMember, (∀ m ∈ members, Known given m.serverAddress) →
      ∀ history, (rest members).wp (confined given).contract (fun _ _ => True) history) :
    (withMember groupId memberId serverAddress existing >>= rest).wp (confined given).contract
      (fun _ _ => True) history := by
  unfold withMember
  split
  · exact later _ (setAddress_known known before) _
  · refine ⟨trivial, fun addedAt _ => later _ (fun m member => ?_) _⟩
    rcases List.mem_append.mp member with old | new
    · exact before m old
    · rw [List.mem_singleton.mp new]
      exact known

theorem addMember_confined (req : HttpRequest) (group : PathId)
    (named : ∀ address, Names (.addMember req group) address → given address) :
    (addMember sodium keys req group).wp (confined given).contract (fun _ _ => True)
      history := by
  refine wp_authed sodium req _ fun history => ?_
  split
  · next data body =>
    split
    · split
      · trivial
      · split
        · next memberId _ =>
          split
          · next address there =>
            have known : Known given address := .source (named address ⟨data, body, .inl there⟩)
            refine wp_perform trivial fun stored listed => ?_
            have existing : ∀ m ∈ withSelfAddress keys.publicKeyB64
                (data.optional "self_server_address") stored, Known given m.serverAddress := by
              unfold withSelfAddress
              split
              · next own given =>
                exact setAddress_known (.source (named own ⟨data, body, .inr given⟩)) listed
              · exact listed
            refine wp_withMember known existing fun members knownMembers _ => ?_
            refine wp_perform knownMembers fun (replaced : Bool) _ => ?_
            cases replaced with
            | false => trivial
            | true =>
                refine wp_perform trivial fun version _ => ?_
                exact wp_then (deliverGroupUpdate_confined knownMembers) fun _ _ => trivial
          · trivial
        · trivial
    · trivial
  · trivial

theorem removeMember_confined (req : HttpRequest) (group : PathId) :
    (removeMember sodium keys req group).wp (confined given).contract (fun _ _ => True)
      history := by
  refine wp_authed sodium req _ fun history => ?_
  repeat' split
  all_goals first
    | trivial
    | refine wp_perform trivial fun existing listed => ?_
  dsimp only
  split
  · trivial
  · have remaining : ∀ (stays : GroupMember → Bool), ∀ m ∈ List.filter stays existing,
        Known given m.serverAddress :=
      fun stays m member => listed m (List.mem_of_mem_filter member)
    refine wp_perform (remaining _) fun (replaced : Bool) _ => ?_
    cases replaced with
    | false => trivial
    | true =>
        refine wp_perform trivial fun version _ => ?_
        refine wp_then (deliverGroupUpdate_confined (remaining _)) fun delivered _ => ?_
        split
        · exact ⟨trivial, fun _ _ => trivial⟩
        · trivial

/-- What is found for a member is a known address, cut. -/
theorem wp_memberAddress {m : GroupMember} (known : Known given m.serverAddress)
    {rest : Str → Proc Output}
    (later : ∀ address, Known given address → ∀ history,
      (rest (cutServerAddress address)).wp (confined given).contract (fun _ _ => True) history) :
    (memberAddress m >>= rest).wp (confined given).contract (fun _ _ => True) history := by
  unfold memberAddress
  dsimp only
  split
  · exact ⟨trivial, fun address contact => later address contact _⟩
  · exact later _ known _

theorem groupSend_confined (req : HttpRequest) (group : PathId) :
    (groupSend sodium keys req group).wp (confined given).contract (fun _ _ => True)
      history := by
  refine wp_authed sodium req _ fun history => ?_
  repeat' split
  all_goals first
    | trivial
    | refine wp_perform trivial fun _ _ => wp_perform trivial fun _ _ => ?_
  refine wp_perform trivial fun members listed => ?_
  split
  · trivial
  · refine wp_then (wp_fold (fun m member allOnline history => ?_) true) fun _ _ => trivial
    unfold sendToMember
    split
    · trivial
    · refine wp_memberAddress (listed m member) fun address known history => ?_
      refine wp_after ⟨rfl, fun _ => trivial⟩ fun ciphertext _ => ?_
      cases ciphertext with
      | none => trivial
      | some ciphertext =>
          refine wp_perform trivial fun _ _ => wp_perform trivial fun (added : Bool) _ => ?_
          cases added with
          | false => trivial
          | true =>
              simp only [Bool.not_true, Bool.false_eq_true, ↓reduceIte]
              exact wp_toMember known (fun other => absurd other (by decide))
                (fun _ => ⟨trivial, fun _ _ => trivial⟩) fun _ => trivial

theorem groupEdit_confined (req : HttpRequest) (group : PathId) :
    (groupEdit sodium keys req group).wp (confined given).contract (fun _ _ => True)
      history := by
  refine wp_authed sodium req _ fun history => ?_
  repeat' split
  all_goals first
    | trivial
    | refine wp_perform trivial fun found _ => ?_
  cases found with
  | none => trivial
  | some msg =>
      dsimp only
      split
      · trivial
      · split
        · trivial
        · refine wp_perform trivial fun members listed => ?_
          split
          · trivial
          · refine wp_perform trivial fun editedAt _ => ?_
            refine wp_then (wp_loop fun m member history => ?_) fun _ _ =>
              ⟨trivial, fun _ _ => trivial⟩
            unfold editAtMember
            split
            · trivial
            · refine wp_after ⟨rfl, fun _ => trivial⟩ fun ciphertext _ => ?_
              cases ciphertext with
              | none => trivial
              | some ciphertext =>
                  refine wp_perform trivial fun _ _ => ?_
                  refine wp_memberAddress (listed m member) fun address known history => ?_
                  exact wp_toMember known (fun other => absurd other (by decide))
                    (fun _ => ⟨trivial, fun _ _ => trivial⟩) fun _ => trivial

theorem groupDelete_confined (req : HttpRequest) (group : PathId) :
    (groupDelete sodium keys req group).wp (confined given).contract (fun _ _ => True)
      history := by
  refine wp_authed sodium req _ fun history => ?_
  repeat' split
  all_goals first
    | trivial
    | refine wp_perform trivial fun found _ => ?_
  cases found with
  | none => trivial
  | some msg =>
      dsimp only
      split
      · trivial
      · split
        · trivial
        · refine wp_after ⟨rfl, fun _ => trivial⟩ fun _ _ => ?_
          refine wp_after ⟨rfl, fun _ => trivial⟩ fun _ _ => ?_
          refine wp_perform trivial fun members listed => ?_
          refine wp_then (wp_loop fun m member history => ?_) fun _ _ =>
            ⟨trivial, fun _ _ => trivial⟩
          unfold deleteAtMember
          split
          · trivial
          · refine wp_memberAddress (listed m member) fun address known history => ?_
            exact wp_toMember known (fun other => absurd other (by decide))
              (fun _ => ⟨trivial, fun _ _ => trivial⟩) fun _ => trivial

/-! What the worker sends and what a member list from a peer brings. -/

theorem retryPass_confined : retryPass.wp (confined given).contract (fun _ _ => True) history := by
  have late : ∀ {retry : Proc Bool} {condition : Prop} [Decidable condition] {mark : Proc Unit},
      (∀ history, retry.wp (confined given).contract (fun _ _ => True) history) →
      mark.Only addressFree → ∀ history : Trace,
      (do if !(← retry) then if condition then mark).wp (confined given).contract
        (fun _ _ => True) history := by
    intro retry condition _ mark retries marks history
    refine wp_then (retries history) fun done history => ?_
    cases done with
    | true => trivial
    | false =>
        simp only [Bool.not_false, if_true]
        split
        · exact wp_free marks
        · trivial
  refine wp_perform trivial fun messages _ => wp_perform trivial fun edits _ => ?_
  refine wp_perform trivial fun updates carried => wp_then (wp_loop fun u member history => ?_) ?_
  · refine wp_then (wp_toContact (fun _ => carried u member) ?_ _) fun _ _ => trivial
    exact ⟨rfl, fun _ => trivial⟩
  · intro _ history
    refine wp_perform trivial fun deletes _ => wp_perform trivial fun currentTime _ => ?_
    refine wp_then (wp_loop ?_) fun _ _ => wp_then (wp_loop ?_) fun _ _ => wp_loop ?_
    all_goals
      intro msg _
      refine late (fun _ => wp_toContact ?_ ?_ _) ?_
    all_goals first
      | exact fun other => absurd other (by decide)
      | exact ⟨rfl, fun _ => trivial⟩

/-- The members read so far have known addresses, and so have the entries still to come. -/
theorem readMembers_confined {groupId : Str} {entries : List Json}
    (known : ∀ e ∈ entries, ∀ address, e.s? "server_address" = some address →
      Known given address) :
    (entries.foldlM (readMember groupId) (some [])).wp (confined given).contract
      (fun members _ => ∀ listed, members = some listed →
        ∀ m ∈ listed, Known given m.serverAddress) history := by
  let invariant : List Json → Option (List GroupMember) → Trace → Prop := fun rest members _ =>
    (∀ e ∈ rest, ∀ address, e.s? "server_address" = some address → Known given address) ∧
    ∀ listed, members = some listed → ∀ m ∈ listed, Known given m.serverAddress
  refine Program.wp_mono (confined given).contract_monotone _ (fun _ _ kept => kept.2) history
    (Program.wp_foldlM (confined given).contract_monotone (readMember groupId) invariant ?_ entries
      (some []) history ⟨known, fun listed same => ?_⟩)
  · intro e rest members history kept
    obtain ⟨here, later⟩ := List.forall_mem_cons.mp kept.1
    have failed : invariant rest none history := ⟨later, fun _ none => absurd none (by simp)⟩
    unfold readMember
    split
    · split
      · split
        · next address there =>
          split
          · refine ⟨trivial, fun addedAt _ => ⟨later, fun listed same => ?_⟩⟩
            cases same
            intro m member
            rcases List.mem_append.mp member with before | new
            · exact kept.2 _ rfl m before
            · rw [List.mem_singleton.mp new]
              exact here address there
          · exact failed
        · exact failed
      · exact failed
    · exact failed
  · cases same
    exact fun _ none => absurd none List.not_mem_nil

theorem acceptGroupUpdate_confined (body : Option Json)
    (carries : ∀ data, body = some data → Carries given data) :
    (acceptGroupUpdate body).wp (confined given).contract (fun _ _ => True) history := by
  have recorded : ∀ groupId senderId groupName,
      (recordGroup groupId senderId groupName).Only addressFree := by
    intro groupId senderId groupName
    refine only_perform rfl fun found => ?_
    cases found with
    | none => exact ⟨rfl, fun _ => ⟨rfl, fun _ => trivial⟩⟩
    | some g =>
        dsimp only
        split
        · exact ⟨rfl, fun _ => trivial⟩
        · trivial
  unfold acceptGroupUpdate
  split
  · next data =>
    split
    · split
      · trivial
      · split
        · split
          · split
            · refine wp_after (recorded _ _ _) fun _ history => ?_
              split
              · next entries listed =>
                refine Program.wp_seq (confined given).contract_monotone _ _ history
                  (readMembers_confined (carries data rfl entries listed)) ?_
                intro members after known
                cases members with
                | none => trivial
                | some members =>
                    refine wp_perform (known members rfl) fun (replaced : Bool) _ => ?_
                    cases replaced <;> trivial
              · trivial
            · trivial
          · trivial
        · trivial
    · trivial
  · trivial

end Programs

/-! Whole networks. -/
section Runs
variable {Host : Type} (network : Deployment Host)

/-- The tables that hold addresses, and the peers these lead to. -/
def holdsAddresses : Effects.Resource → Bool
  | .contacts | .groupMembers | .groupUpdates | .peers => true
  | _ => false

theorem free_of_within {used : List Effects.Resource} (apart : used.any holdsAddresses = false)
    {Value : Type} {program : Proc Value} (only : program.Only (Effects.within used)) :
    program.Only addressFree := by
  refine Program.only_mono (fun operation inside => ?_) program only
  have spared : ∀ resource ∈ Effects.touches operation, holdsAddresses resource = false := by
    intro resource touched
    simpa using List.any_eq_false.mp apart resource (Effects.within_iff.mp inside touched)
  cases operation using operation_cases with
  | call db =>
      cases db with
      | upsertContact | replaceGroupMembers | upsertGroupUpdate =>
          cases spared _ List.mem_cons_self
      | _ => rfl
  | sent request => cases spared _ List.mem_cons_self
  | _ => rfl

theorem program_confined (host : Host) (task : Task)
    (named : ∀ address, Names task address → given address) :
    (network.program host task).wp (confined given).contract (fun _ _ => True) [] := by
  have apart := Effects.program_within network host task
  cases task with
  | upsertContact req => exact upsertContact_confined _ req named
  | sendMessage req => exact sendDirect_confined _ _ req
  | editMessage req => exact editDirect_confined _ _ req
  | deleteMessage req => exact deleteDirect_confined _ _ req
  | groupsCreate req => exact groupsCreate_confined _ _ req named
  | addMember req group => exact addMember_confined _ _ req group named
  | removeMember req group => exact removeMember_confined _ _ req group
  | groupSend req group => exact groupSend_confined _ _ req group
  | groupEdit req group => exact groupEdit_confined _ _ req group
  | groupDelete req group => exact groupDelete_confined _ _ req group
  | remotePublicKey req addr => exact remotePublicKey_confined _ req addr named
  | retryPass => exact wp_then retryPass_confined fun _ _ => trivial
  | incoming endpoint body =>
      cases endpoint with
      | acceptGroupUpdate =>
          refine acceptGroupUpdate_confined body fun data found entries listed e member address
            there => .source (named address ⟨data, entries, found, listed, e, member, there⟩)
      | _ => exact wp_free (free_of_within rfl apart)
  | _ => exact wp_free (free_of_within rfl apart)

theorem serve_confined (host : Host) (request : Request) (fair : Fair given request) :
    (network.serve host request).wp (confined given).contract (fun _ _ => True) [] := by
  have apart := Effects.serve_within network host request
  obtain ⟨serverAddress, endpoint, body⟩ := request
  cases endpoint with
  | acceptGroupUpdate =>
      refine acceptGroupUpdate_confined (some body) fun data same => ?_
      cases same
      exact fair.carries rfl
  | _ => exact wp_free (free_of_within rfl apart)

theorem confined_guaranteed : Rpc.Guaranteed network.system (fun _ _ _ => confined given)
    (fun _ _ _ _ _ => True) (fun _ => Within given) (Fair given)
    (fun _ task => ∀ address, Names task address → given address) (fun _ _ => True) where
  possible _ _ _ input operation _ within := within.handled input operation
  answers _ _ _ _ _ := trivial
  keeps _ _ _ _ input operation _ allowed within := within.kept input operation allowed
  posts _ _ _ _ _ fair := fair
  program host task named := program_confined network host task named
  serve host request fair _ _ := serve_confined network host request fair

variable [DecidableEq Host]

/-- However the steps are interleaved and whatever is lost, every request goes to an address
that was named from outside, as it was or as a column holds it, unless it is a new message for
somebody without one, and no store has another. -/
theorem requests_confined {stores : Host → Store} (within : ∀ host, Within given (stores host))
    {world : World Host}
    (run : Rpc.Reachable network.system (fun _ label => ∀ host task, label = .start host task →
      ∀ address, Names task address → given address) ⟨stores, [], []⟩ world) :
    (∀ job ∈ world.jobs, Targets given job.request) ∧
    ∀ host, Within given (world.stores host) := by
  have inOrder := Rpc.inOrder_run (confined_guaranteed network)
    (fun _ _ named => ⟨named, fun _ _ _ _ _ => trivial⟩) within run
  exact ⟨fun job member => (inOrder.jobs job member).target, inOrder.stores⟩

/-- The addresses of the two nodes. -/
def theirs (address : Str) : Prop := address = str "a" ∨ address = str "b"

theorem acquainted_within (host : Bool) : Within theirs (acquainted host) where
  contacts row member := by
    have only := List.mem_singleton.mp member
    subst only
    refine Known.stored (.source ?_)
    cases host with
    | true => exact .inr rfl
    | false => exact .inl rfl
  groupMembers _ none := absurd none List.not_mem_nil
  groupUpdates _ none := absurd none List.not_mem_nil

/-- Nothing is started but the sending of a message, which names no address. -/
def sendsOnly : Action Bool → Bool
  | .start _ (.sendMessage _) => true
  | .start .. => false
  | _ => true

theorem greeting_confined : ∃ world : World Bool, world.jobs ≠ [] ∧
    ∀ job ∈ world.jobs, Targets theirs job.request := by
  have ran : ((Rpc.run pair.system (fun _ => sendsOnly) Delivery.greeting
      ⟨acquainted, [], []⟩).map fun world => world.jobs.isEmpty) = some false := by
    decide +kernel
  obtain ⟨world, scheduled, posted⟩ := Option.map_eq_some_iff.mp ran
  have named : ∀ (_ : World Bool) (label : Action Bool), sendsOnly label = true →
      ∀ host task, label = .start host task → ∀ address, Names task address → theirs address := by
    rintro _ _ only host task rfl address names
    cases task with
    | sendMessage => exact absurd names id
    | _ => cases only
  exact ⟨world, fun none => by simp [none] at posted,
    (requests_confined pair acquainted_within
      (Rpc.run_reachable named Delivery.greeting scheduled)).1⟩

end Runs
end NoMiddle.Confinement
