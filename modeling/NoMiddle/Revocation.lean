import NoMiddle.Sockets

/-! Whether removing a device cuts its connections. A frame is checked against the row that its
id, read as a C string, names; the connection is filed under the id itself, and later. -/
namespace NoMiddle.Revocation
open Library Text Crypto DbManager Node Handlers GroupHandlers Threads Sockets

abbrev Pool (Index : Type) := Threads.Pool socketSig Index Desk (Option Response)

def looked (clientId : Str) (found : Option Client) : Event socketSig :=
  ⟨.inl (.inl (.call (.getClient clientId))), found⟩

/-- The frame carries the secret of this row, and has been compared with it. -/
def Shows (sodium : Sodium) (data : Option Json) (history : List (Event socketSig))
    (clientId : Str) (info : Client) : Prop :=
  ∃ parsed secret, data = some parsed ∧ parsed.optional "client_id" = some clientId ∧
    parsed.optional "secret" = some secret ∧ looked clientId (some info) ∈ history ∧
    hashSecret sodium secret info.salt = info.secretHash

variable {Index : Type} [DecidableEq Index] {sodium : Sodium} {tasks : Index → Task}

/-- A frame of the connection was authenticated against this row. -/
def Authenticates (sodium : Sodium) (tasks : Index → Task) (pool : Pool Index) (conn : Conn)
    (row : Str) : Prop :=
  ∃ index data isBinary clientId info, tasks index = .message conn data isBinary ∧
    Shows sodium data (pool.threads index).history clientId info ∧ info.clientId = row

/-- A removal of this row has been through the connections filed under it. -/
def Revoked (pool : Pool Index) (row : Str) : Prop :=
  ∃ index conns, (⟨.inr (.revoke row), conns⟩ : Event socketSig) ∈ (pool.threads index).history

/-- No connection is filed for a row whose connections have been cut, and, when they are, none
is filed under another spelling of the row's id. -/
def Timely (pool : Pool Index) : socketSig.Op → Prop
  | .inr (.authorize _ clientId) => ¬Revoked pool (cstr clientId)
  | .inr (.revoke clientId) => ∀ key, key ≠ clientId → cstr key = clientId →
      pool.state.wsClientIds key = []
  | _ => True

def Meets (pool : Pool Index) (index : Index) : Prop :=
  ∀ operation next, (pool.threads index).program = .op operation next → Timely pool operation

/-! What the handlers do after what. -/

def conduct (sodium : Sodium) (task : Task) : Discipline socketSig where
  possible operation answer :=
    match operation, answer with
    | .inl (.inl (.call (.getClient clientId))), some info => info.clientId = cstr clientId
    | _, _ => True
  allowed history operation :=
    match operation with
    | .inr (.authorize conn clientId) => ∃ data isBinary info,
        task = .message conn data isBinary ∧ Shows sodium data history clientId info ∧
          info.clientId = cstr clientId
    | _ => True

/-- A removal that answers 200 has cut the connections. -/
def answers (task : Task) (answer : Option Response) (history : List (Event socketSig)) : Prop :=
  match task with
  | .delete _ clientId => ∀ response, answer = some response → response.code = 200 →
      ∃ conns, (⟨.inr (.revoke clientId.text), conns⟩ : Event socketSig) ∈ history
  | _ => True

theorem conduct_possible (task : Task) (input : Input) (operation : socketSig.Op) (desk : Desk) :
    (conduct sodium task).possible operation (enact input operation desk).1 := by
  cases operation with
  | inr operation => trivial
  | inl operation =>
      cases operation with
      | inr request => trivial
      | inl operation =>
          cases operation with
          | call call =>
              cases call with
              | getClient clientId =>
                  change (conduct sodium task).possible (.inl (.inl (.call (.getClient clientId))))
                    (desk.store.clients.find (cstr clientId))
                  cases found : desk.store.clients.find (cstr clientId) with
                  | none => trivial
                  | some info => exact desk.store.clients.find_key found
              | _ => trivial
          | _ => trivial

variable {task : Task} {post : Option Response → List (Event socketSig) → Prop}

/-- A check of credentials looks up at most one row. -/
theorem wp_authenticate {clientId secret : Str}
    {rest : Bool → Program socketSig (Option Response)}
    (later : ∀ (shown : Bool) history, (shown = true → ∃ info, info.clientId = cstr clientId ∧
        looked clientId (some info) ∈ history ∧
        hashSecret sodium secret info.salt = info.secretHash) →
      (rest shown).wp (conduct sodium task).contract post history) :
    (fromNode (authenticate sodium clientId secret) >>= rest).wp (conduct sodium task).contract
      post [] := by
  unfold authenticate
  split
  · exact later false [] nofun
  · refine ⟨trivial, ?_⟩
    intro found named
    cases found with
    | none => exact later false _ nofun
    | some info =>
        apply later
        intro shown
        exact ⟨info, named, List.mem_singleton.mpr rfl, of_decide_eq_true shown⟩

theorem message_complies (conn : Conn) (data : Option Json) (isBinary : Bool) :
    (onMessage sodium conn data isBinary).wp
      (conduct sodium (.message conn data isBinary)).contract
      (answers (.message conn data isBinary)) [] := by
  unfold onMessage
  split
  · trivial
  split
  · next parsed =>
    split
    · split
      · split
        · trivial
        · split
          · next clientId secret named keyed =>
            apply wp_authenticate
            intro shown history checked
            cases shown with
            | false => exact ⟨trivial, fun _ _ => trivial⟩
            | true =>
                obtain ⟨info, row, look, hashed⟩ := checked rfl
                refine ⟨?_, fun _ _ => ⟨trivial, fun _ _ => trivial⟩⟩
                exact ⟨_, _, info, rfl, ⟨parsed, secret, rfl, named, keyed, look, hashed⟩, row⟩
          · exact ⟨trivial, fun _ _ => trivial⟩
      · trivial
    · trivial
  · trivial

/-- Closing connections leaves a record and nothing else. -/
theorem wp_closing {conns : List Conn} {rest : Program socketSig (Option Response)}
    {history : List (Event socketSig)} {event : Event socketSig} (there : event ∈ history)
    (later : ∀ history, event ∈ history → rest.wp (conduct sodium task).contract post history) :
    ((conns.forM fun conn => socket (.close conn "revoked")) >>= fun _ => rest).wp
      (conduct sodium task).contract post history := by
  induction conns generalizing history with
  | nil => exact later history there
  | cons conn others ih => exact ⟨trivial, fun _ _ => ih (List.mem_cons_of_mem _ there)⟩

theorem delete_complies (req : HttpRequest) (clientId : PathId) :
    (deleteClient sodium req clientId.text).wp (conduct sodium (.delete req clientId)).contract
      (answers (.delete req clientId)) [] := by
  unfold deleteClient isAuthed
  apply wp_authenticate
  intro shown history _
  have refused : ∀ code text, code ≠ 200 → ∀ history,
      answers (.delete req clientId) (some (error code text)) history := by
    rintro code text other history _ ⟨⟩ same
    exact absurd same other
  cases shown with
  | false => exact refused 401 _ (by decide) _
  | true =>
      simp only [Bool.not_true, Bool.false_eq_true, ↓reduceIte]
      split
      · exact refused 400 _ (by decide) _
      · refine ⟨trivial, ?_⟩
        intro deleted _
        cases deleted with
        | false => exact refused 404 _ (by decide) _
        | true =>
            refine ⟨trivial, ?_⟩
            intro conns _
            apply wp_closing (List.mem_cons_self ..)
            intro history there response _ _
            exact ⟨conns, there⟩

theorem task_complies (task : Task) :
    (task.program sodium).wp (conduct sodium task).contract (answers task) [] := by
  cases task with
  | message conn data isBinary => exact message_complies conn data isBinary
  | delete req clientId => exact delete_complies req clientId
  | closed conn => exact ⟨trivial, fun _ _ => trivial⟩
  | notify payload => exact ⟨trivial, fun _ _ => trivial⟩

/-! What the two tables say of every connection. -/

structure Filed (sodium : Sodium) (tasks : Index → Task) (pool : Pool Index) : Prop where
  listed : ∀ conn ∈ pool.state.wsClients, ∃ key, conn ∈ pool.state.wsClientIds key
  known : ∀ key, ∀ conn ∈ pool.state.wsClientIds key,
    Authenticates sodium tasks pool conn (cstr key)
  cut : ∀ row, Revoked pool row → ∀ key, cstr key = row → pool.state.wsClientIds key = []

section Step
variable {pool : Pool Index} {index : Index} {operation : socketSig.Op}
  {answer : socketSig.Res operation} {rest : Program socketSig (Option Response)} {desk : Desk}

theorem authenticates_turn {conn : Conn} {row : Str}
    (before : Authenticates sodium tasks pool conn row) :
    Authenticates sodium tasks (pool.turn index operation answer rest desk) conn row := by
  obtain ⟨other, data, isBinary, clientId, info, is, shows, same⟩ := before
  obtain ⟨parsed, secret, parses, named, keyed, look, hashed⟩ := shows
  refine ⟨other, data, isBinary, clientId, info, is, ?_, same⟩
  exact ⟨parsed, secret, parses, named, keyed, turn_history.mpr (.inl look), hashed⟩

theorem revoked_turn {row : Str}
    (after : Revoked (pool.turn index operation answer rest desk) row) :
    Revoked pool row ∨ operation = .inr (.revoke row) := by
  obtain ⟨other, conns, member⟩ := after
  rcases turn_history.mp member with before | ⟨_, same⟩
  · exact .inl ⟨other, conns, before⟩
  · exact .inr (congrArg Sigma.fst same).symm

/-- A step that changes neither table and cuts nothing keeps what they say. -/
theorem Filed.kept (filed : Filed sodium tasks pool)
    (clients : desk.wsClients = pool.state.wsClients)
    (ids : desk.wsClientIds = pool.state.wsClientIds)
    (other : ∀ row, operation ≠ .inr (.revoke row)) :
    Filed sodium tasks (pool.turn index operation answer rest desk) := by
  constructor
  case listed =>
    intro conn member
    change conn ∈ desk.wsClients at member
    change ∃ key, conn ∈ desk.wsClientIds key
    rw [clients] at member
    rw [ids]
    exact filed.listed conn member
  case known =>
    intro key conn member
    change conn ∈ desk.wsClientIds key at member
    rw [ids] at member
    exact authenticates_turn (filed.known key conn member)
  case cut =>
    intro row revoked key same
    change desk.wsClientIds key = []
    rw [ids]
    exact filed.cut row ((revoked_turn revoked).resolve_right (other row)) key same

theorem Filed.authorized {conn : Conn} {clientId : Str} {answer : Unit}
    (filed : Filed sodium tasks pool) (unrevoked : ¬Revoked pool (cstr clientId))
    (shown : Authenticates sodium tasks pool conn (cstr clientId)) :
    Filed sodium tasks (pool.turn index (.inr (.authorize conn clientId)) answer rest
      (handleSocket (.authorize conn clientId) pool.state).2) := by
  have filedUnder : ∀ key, (handleSocket (.authorize conn clientId) pool.state).2.wsClientIds key =
      if key = clientId then pool.state.wsClientIds clientId ++ [conn]
      else pool.state.wsClientIds key := fun key => Function.update_apply ..
  constructor
  case listed =>
    intro other member
    rcases List.mem_insert_iff.mp member with rfl | before
    · refine ⟨clientId, ?_⟩
      change _ ∈ (handleSocket (.authorize other clientId) pool.state).2.wsClientIds clientId
      rw [filedUnder, if_pos rfl]
      exact List.mem_append_right _ (List.mem_singleton.mpr rfl)
    · obtain ⟨key, there⟩ := filed.listed other before
      refine ⟨key, ?_⟩
      change _ ∈ (handleSocket (.authorize conn clientId) pool.state).2.wsClientIds key
      rw [filedUnder]
      split
      · next same =>
        rw [same] at there
        exact List.mem_append_left _ there
      · exact there
  case known =>
    intro key other member
    apply authenticates_turn
    change _ ∈ (handleSocket (.authorize conn clientId) pool.state).2.wsClientIds key at member
    rw [filedUnder] at member
    split at member
    · next same =>
      subst key
      rcases List.mem_append.mp member with before | new
      · exact filed.known clientId other before
      · rw [List.mem_singleton.mp new]
        exact shown
    · exact filed.known key other member
  case cut =>
    intro row revoked key same
    -- A connection is filed under an id that is not revoked, so not under a cut one.
    have before := (revoked_turn revoked).resolve_right nofun
    change (handleSocket (.authorize conn clientId) pool.state).2.wsClientIds key = []
    rw [filedUnder, if_neg]
    · exact filed.cut row before key same
    · rintro rfl
      rw [← same] at before
      exact unrevoked before

theorem Filed.erased {conn : Conn} {answer : Unit} (filed : Filed sodium tasks pool) :
    Filed sodium tasks (pool.turn index (.inr (.erase conn)) answer rest
      (handleSocket (.erase conn) pool.state).2) := by
  constructor
  case listed =>
    intro other member
    obtain ⟨before, different⟩ := List.mem_filter.mp member
    obtain ⟨key, there⟩ := filed.listed other before
    exact ⟨key, List.mem_filter.mpr ⟨there, different⟩⟩
  case known =>
    intro key other member
    exact authenticates_turn (filed.known key other (List.mem_of_mem_filter member))
  case cut =>
    intro row revoked key same
    have before := (revoked_turn revoked).resolve_right nofun
    change (pool.state.wsClientIds key).filter _ = []
    rw [filed.cut row before key same]
    rfl

theorem Filed.revoked {clientId : Str} {answer : List Conn} (filed : Filed sodium tasks pool)
    (spelled : ∀ key, key ≠ clientId → cstr key = clientId → pool.state.wsClientIds key = []) :
    Filed sodium tasks (pool.turn index (.inr (.revoke clientId)) answer rest
      (handleSocket (.revoke clientId) pool.state).2) := by
  have filedUnder : ∀ key, (handleSocket (.revoke clientId) pool.state).2.wsClientIds key =
      if key = clientId then [] else pool.state.wsClientIds key := fun key =>
    Function.update_apply ..
  constructor
  case listed =>
    intro conn member
    obtain ⟨before, spared⟩ := List.mem_filter.mp member
    obtain ⟨key, there⟩ := filed.listed conn before
    refine ⟨key, ?_⟩
    change _ ∈ (handleSocket (.revoke clientId) pool.state).2.wsClientIds key
    rw [filedUnder, if_neg]
    · exact there
    · -- Under this id it would not have been spared.
      rintro rfl
      exact of_decide_eq_true spared there
  case known =>
    intro key conn member
    change _ ∈ (handleSocket (.revoke clientId) pool.state).2.wsClientIds key at member
    rw [filedUnder] at member
    split at member
    · cases member
    · exact authenticates_turn (filed.known key conn member)
  case cut =>
    intro row revoked key same
    change (handleSocket (.revoke clientId) pool.state).2.wsClientIds key = []
    rw [filedUnder]
    split
    · rfl
    · next different =>
      rcases revoked_turn revoked with before | own
      · exact filed.cut row before key same
      · cases own
        exact spelled key different same

end Step

theorem filed_step {pool after : Pool Index} {index : Index} (filed : Filed sodium tasks pool)
    (complies : (pool.threads index).program.wp (conduct sodium (tasks index)).contract
      (answers (tasks index)) (pool.threads index).history)
    (meets : Meets pool index) (step : Step enact index pool after) :
    Filed sodium tasks after := by
  cases step with
  | @act _ _ input operation next current =>
      rw [current] at complies
      have timely := meets operation next current
      cases operation with
      | inl operation => cases operation <;> exact filed.kept rfl rfl nofun
      | inr operation =>
          cases operation with
          | authorize conn clientId =>
              obtain ⟨data, isBinary, info, is, shows, row⟩ := complies.1
              exact filed.authorized timely ⟨index, data, isBinary, clientId, info, is, shows, row⟩
          | erase conn => exact filed.erased
          | revoke clientId => exact filed.revoked timely
          | broadcast | sendText | close => exact filed.kept rfl rfl nofun

theorem filed_run {store : Store} {pool : Pool Index}
    (run : Reachable enact Meets
      (begin (fun index => (tasks index).program sodium) (Desk.fresh store)) pool) :
    Filed sodium tasks pool := by
  induction run with
  | start =>
      constructor
      case listed => intro conn member; cases member
      case known => intro key conn member; cases member
      case cut =>
        rintro row ⟨_, _, member⟩
        cases member
  | step run meets step ih =>
      exact filed_step ih (complies (fun index => conduct sodium (tasks index))
        (fun index => answers (tasks index)) (fun index => conduct_possible (tasks index))
        (fun index => task_complies (tasks index)) run _) meets step

/-- Once a removal has answered 200, every connection that is left, and that a broadcast is
sent to, was authenticated against another row. -/
theorem revocation_cuts (sodium : Sodium) (tasks : Index → Task) (store : Store)
    (pool : Pool Index)
    (run : Reachable enact Meets
      (begin (fun index => (tasks index).program sodium) (Desk.fresh store)) pool)
    (index : Index) (req : HttpRequest) (clientId : PathId) (response : Response)
    (task : tasks index = .delete req clientId)
    (done : (pool.threads index).program = .ret (some response)) (answered : response.code = 200) :
    (∀ conn ∈ pool.state.wsClients, ∃ row, row ≠ clientId.text ∧
      Authenticates sodium tasks pool conn row) ∧
    ∀ payload, ∀ conn ∈ ((handleSocket (.broadcast payload) pool.state).1 : List Conn),
      ∃ row, row ≠ clientId.text ∧ Authenticates sodium tasks pool conn row := by
  have filed := filed_run run
  have complied := complies (fun index => conduct sodium (tasks index))
    (fun index => answers (tasks index)) (fun index => conduct_possible (tasks index))
    (fun index => task_complies (tasks index)) run index
  rw [done, task] at complied
  obtain ⟨conns, cut⟩ := complied response rfl answered
  have others : ∀ conn ∈ pool.state.wsClients, ∃ row, row ≠ clientId.text ∧
      Authenticates sodium tasks pool conn row := by
    intro conn member
    obtain ⟨key, there⟩ := filed.listed conn member
    refine ⟨cstr key, ?_, filed.known key conn there⟩
    intro same
    rw [filed.cut clientId.text ⟨index, conns, cut⟩ key same] at there
    cases there
  exact ⟨others, fun _ => others⟩

/-! A node with two devices: the connection 7 shows the secret of the first one, the
connection 8 that of the second one, which also removes the first one. -/

def devices : Store :=
  let client (name secret : String) : Client :=
    ⟨str name, [], str "salt", hashSecret .transparent (str secret) (str "salt"), 0⟩
  { Store.initial with
    clients := createClient (client "o" "y") (createClient (client "c" "x") .empty) }

def auth (clientId : Str) (secret : String) : Option Json :=
  some (.obj [("type", .str (str "auth")), ("client_id", .str clientId),
    ("secret", .str (str secret))])

def first : PathId := ⟨str "c", by decide, by decide⟩

def encounter (clientId : Str) (index : Fin 3) : Task :=
  if index = 0 then .message 7 (auth clientId "x") false
  else if index = 1 then .delete ⟨str "o", str "y", none⟩ first
  else .message 8 (auth (str "o") "y") false

def meeting (clientId : Str) : Pool (Fin 3) :=
  begin (fun index => (encounter clientId index).program .transparent) (Desk.fresh devices)

/-- Each takes as many steps as given. -/
def paces (steps : List (Fin 3 × Nat)) : List (Fin 3 × Input) :=
  steps.flatMap fun (index, count) => List.replicate count (index, default)

def answered (pool : Pool (Fin 3)) : Bool :=
  match (pool.threads 1).program with
  | .ret (some response) => response.code = 200
  | _ => false

theorem answered_response {pool : Pool (Fin 3)} (done : answered pool = true) :
    ∃ response, (pool.threads 1).program = .ret (some response) ∧ response.code = 200 := by
  unfold answered at done
  split at done
  · next response ended => exact ⟨response, ended, of_decide_eq_true done⟩
  · cases done

/-- The rows a handler has found. -/
def found (history : List (Event socketSig)) : List Str :=
  history.filterMap fun event =>
    match event with
    | ⟨.inl (.inl (.call (.getClient _))), some info⟩ => some info.clientId
    | _ => none

theorem found_looked {history : List (Event socketSig)} {clientId : Str} {info : Client}
    (member : looked clientId (some info) ∈ history) : info.clientId ∈ found history :=
  List.mem_filterMap.mpr ⟨_, member, rfl⟩

/-- What is filed under an id was filed there by a frame. -/
theorem filed_authorized {programs : Index → Program socketSig (Option Response)} {store : Store}
    {condition : Pool Index → Index → Prop} {pool : Pool Index}
    (run : Reachable enact condition (begin programs (Desk.fresh store)) pool) (key : Str)
    (conn : Conn) (member : conn ∈ pool.state.wsClientIds key) :
    ∃ index, (⟨.inr (.authorize conn key), ()⟩ : Event socketSig) ∈
      (pool.threads index).history := by
  induction run with
  | start => cases member
  | @step before index after _ _ step ih =>
      -- A connection that was filed before was authorized before.
      have kept : conn ∈ before.state.wsClientIds key → ∃ index,
          (⟨.inr (.authorize conn key), ()⟩ : Event socketSig) ∈ (after.threads index).history := by
        intro there
        obtain ⟨other, event⟩ := ih there
        cases step with
        | act _ input current => exact ⟨other, turn_history.mpr (.inl event)⟩
      cases step with
      | @act _ _ input operation next current =>
          cases operation with
          | inl operation => cases operation <;> exact kept member
          | inr operation =>
              cases operation with
              | authorize filed clientId =>
                  change conn ∈ Function.update before.state.wsClientIds clientId _ key at member
                  rw [Function.update_apply] at member
                  split at member
                  · next same =>
                    subst key
                    rcases List.mem_append.mp member with there | new
                    · exact kept there
                    · rw [List.mem_singleton.mp new]
                      exact ⟨index, turn_history.mpr (.inr ⟨rfl, rfl⟩)⟩
                  · exact kept member
              | erase => exact kept (List.mem_of_mem_filter member)
              | revoke clientId =>
                  change conn ∈ Function.update before.state.wsClientIds clientId _ key at member
                  rw [Function.update_apply] at member
                  split at member
                  · cases member
                  · exact kept member
              | broadcast | sendText | close => exact kept member

/-- Nothing has been cut yet, and what has been filed is not filed for this id in another
spelling. -/
def timely (pool : Pool (Fin 3)) (index : Fin 3) : Bool :=
  let events := (List.finRange 3).flatMap fun index => (pool.threads index).history
  match (pool.threads index).program with
  | .op (.inr (.authorize ..)) _ => events.all fun event =>
      match event with
      | ⟨.inr (.revoke _), _⟩ => false
      | _ => true
  | .op (.inr (.revoke clientId)) _ => events.all fun event =>
      match event with
      | ⟨.inr (.authorize _ key), _⟩ => decide (key = clientId) || decide (cstr key ≠ clientId)
      | _ => true
  | _ => true

theorem timely_meets {programs : Fin 3 → Program socketSig (Option Response)} {store : Store}
    {condition : Pool (Fin 3) → Fin 3 → Prop} (pool : Pool (Fin 3)) (index : Fin 3)
    (run : Reachable enact condition (begin programs (Desk.fresh store)) pool)
    (allowed : timely pool index = true) : Meets pool index := by
  intro operation next current
  have among : ∀ other event, event ∈ (pool.threads other).history →
      event ∈ (List.finRange 3).flatMap fun index => (pool.threads index).history :=
    fun other event member => List.mem_flatMap.mpr ⟨other, List.mem_finRange other, member⟩
  simp only [timely, current] at allowed
  cases operation with
  | inl operation => trivial
  | inr operation =>
      cases operation with
      | authorize conn clientId =>
          rintro ⟨other, conns, member⟩
          cases List.all_eq_true.mp allowed _ (among other _ member)
      | revoke clientId =>
          intro key different spelled
          apply List.eq_nil_iff_forall_not_mem.mpr
          intro conn member
          obtain ⟨other, filed⟩ := filed_authorized run key conn member
          have checked := List.all_eq_true.mp allowed _ (among other _ filed)
          simp [different, spelled] at checked
      | broadcast | sendText | close | erase => trivial

/-- The second device's connection is the one that is left. -/
theorem removal_cuts : ∃ pool : Pool (Fin 3), pool.state.wsClients = [8] ∧
    ∀ conn ∈ pool.state.wsClients, ∃ row, row ≠ str "c" ∧
      Authenticates .transparent (encounter (str "c")) pool conn row := by
  have runs : ((run enact timely (paces [(0, 3), (2, 3), (1, 4)]) (meeting (str "c"))).any
      fun pool => answered pool && decide (pool.state.wsClients = [8])) = true := by
    decide +kernel
  obtain ⟨pool, scheduled, done⟩ := (Option.any_eq_true _ _).mp runs
  simp only [Bool.and_eq_true, decide_eq_true_eq] at done
  obtain ⟨response, ended, succeeded⟩ := answered_response done.1
  exact ⟨pool, done.2, (revocation_cuts .transparent (encounter (str "c")) devices pool
    (run_reachable timely_meets _ .start scheduled) 1 _ first response rfl ended succeeded).1⟩

theorem connection_stays {clientId : Str} {schedule : List (Fin 3 × Input)}
    (runs : ((run enact (fun _ _ => true) schedule (meeting clientId)).any fun pool =>
      answered pool && decide (7 ∈ pool.state.wsClients) &&
        decide (found (pool.threads 0).history = [str "c"])) = true) :
    ∃ pool, Reachable enact (fun _ _ => True) (meeting clientId) pool ∧
      (∃ response, (pool.threads 1).program = .ret (some response) ∧ response.code = 200) ∧
      ∃ conn ∈ pool.state.wsClients, ∀ row,
        Authenticates .transparent (encounter clientId) pool conn row → row = str "c" := by
  obtain ⟨pool, scheduled, done⟩ := (Option.any_eq_true _ _).mp runs
  simp only [Bool.and_eq_true, decide_eq_true_eq] at done
  refine ⟨pool, run_reachable (fun _ _ _ _ => trivial) _ .start scheduled,
    answered_response done.1.1, 7, done.1.2, ?_⟩
  rintro row ⟨index, data, isBinary, shown, info, is, ⟨parsed, secret, _, _, _, look, _⟩, rfl⟩
  obtain rfl : index = 0 := by
    revert is
    fin_cases index
    · exact fun _ => rfl
    · intro is
      cases is
    · intro is
      cases is
  have member := found_looked look
  rw [done.2] at member
  exact List.mem_singleton.mp member

/-- A connection filed under the id with a NUL behind it is not found, and one that is filed
after the removal has looked is not either. -/
theorem revoked_connection_stays :
    (∃ pool, Reachable enact (fun _ _ => True) (meeting (str "c" ++ [0])) pool ∧
      (∃ response, (pool.threads 1).program = .ret (some response) ∧ response.code = 200) ∧
      ∃ conn ∈ pool.state.wsClients, ∀ row,
        Authenticates .transparent (encounter (str "c" ++ [0])) pool conn row → row = str "c") ∧
    ∃ pool, Reachable enact (fun _ _ => True) (meeting (str "c")) pool ∧
      (∃ response, (pool.threads 1).program = .ret (some response) ∧ response.code = 200) ∧
      ∃ conn ∈ pool.state.wsClients, ∀ row,
        Authenticates .transparent (encounter (str "c")) pool conn row → row = str "c" := by
  constructor
  · have runs : ((run enact (fun _ _ => true) (paces [(0, 3), (1, 3)])
        (meeting (str "c" ++ [0]))).any fun pool => answered pool &&
          decide (7 ∈ pool.state.wsClients) &&
          decide (found (pool.threads 0).history = [str "c"])) = true := by decide +kernel
    exact connection_stays runs
  · have runs : ((run enact (fun _ _ => true) (paces [(0, 1), (1, 3), (0, 2)])
        (meeting (str "c"))).any fun pool => answered pool &&
          decide (7 ∈ pool.state.wsClients) &&
          decide (found (pool.threads 0).history = [str "c"])) = true := by decide +kernel
    exact connection_stays runs

end NoMiddle.Revocation
