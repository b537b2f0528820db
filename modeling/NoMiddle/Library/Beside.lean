import NoMiddle.Library.Program

/-! A program that does not run alone. Between its operations others may do what they like to
the state, as long as it looks the same through a given view. What is proved of the view then
holds in every such run. -/
namespace Library.Beside
variable {S : Sig} {State View Value Output Item : Type}

/-- A step of the program, after whatever the others did. -/
def step (view : State → View)
    (own : (operation : S.Op) → State → S.Res operation → State → Prop) (operation : S.Op)
    (before : State) (answer : S.Res operation) (after : State) : Prop :=
  ∃ middle, view middle = view before ∧ own operation middle answer after

/-- Wherever the state looks like this, the program ends as the condition says. -/
def Shows (view : State → View)
    (own : (operation : S.Op) → State → S.Res operation → State → Prop)
    (program : Program S Value) (seen : View) (post : Value → View → Prop) : Prop :=
  ∀ state, view state = seen →
    program.wp (.demonic (step view own)) (fun value after => post value (view after)) state

variable {view : State → View} {own : (operation : S.Op) → State → S.Res operation → State → Prop}
  {program : Program S Value} {seen : View}

theorem shows_ret {value : Value} {post : Value → View → Prop} (holds : post value seen) :
    Shows view own (.ret value) seen post := by
  rintro state rfl
  exact holds

/-- The others cannot be seen, so the operation meets a state that looks the same. -/
theorem shows_op {operation : S.Op} {next : S.Res operation → Program S Value}
    {post : Value → View → Prop}
    (later : ∀ state answer after, view state = seen → own operation state answer after →
      Shows view own (next answer) (view after) post) :
    Shows view own (.op operation next) seen post := by
  rintro state same answer after ⟨middle, unseen, taken⟩
  exact later middle answer after (unseen.trans same) taken after rfl

/-- What is known of every state that looks like this may be used. -/
theorem shows_known {post : Value → View → Prop}
    (later : ∀ state, view state = seen → Shows view own program seen post) :
    Shows view own program seen post :=
  fun state same => later state same state same

theorem shows_mono {strong weak : Value → View → Prop}
    (holds : Shows view own program seen strong)
    (implies : ∀ value after, strong value after → weak value after) :
    Shows view own program seen weak :=
  fun state same => Program.wp_mono (Contract.demonic_monotone _) program
    (fun value after => implies value (view after)) state (holds state same)

theorem shows_seq {rest : Value → Program S Output} {middle : Value → View → Prop}
    {post : Output → View → Prop} (first : Shows view own program seen middle)
    (second : ∀ value after, middle value after → Shows view own (rest value) after post) :
    Shows view own (program >>= rest) seen post :=
  fun state same => Program.wp_seq (Contract.demonic_monotone _) program rest state
    (first state same) fun value after holds => second value (view after) holds after rfl

theorem shows_foldlM {body : Value → Item → Program S Value}
    (invariant : List Item → Value → View → Prop)
    (turn : ∀ item rest value seen, invariant (item :: rest) value seen →
      Shows view own (body value item) seen (invariant rest))
    {items : List Item} {value : Value} (start : invariant items value seen) :
    Shows view own (items.foldlM body value) seen (invariant []) := by
  rintro state rfl
  exact Program.wp_foldlM (Contract.demonic_monotone _) body
    (fun rest value after => invariant rest value (view after))
    (fun item rest value state holds => turn item rest value _ holds state rfl)
    items value state start

theorem shows_forM {body : Item → Program S Unit} (invariant : List Item → View → Prop)
    (turn : ∀ item rest seen, invariant (item :: rest) seen →
      Shows view own (body item) seen fun _ => invariant rest)
    {items : List Item} (start : invariant items seen) :
    Shows view own (items.forM body) seen fun _ => invariant [] := by
  rintro state rfl
  exact Program.wp_forM (Contract.demonic_monotone _) body
    (fun rest after => invariant rest (view after))
    (fun item rest state holds => turn item rest _ holds state rfl) items state start

theorem runs_show {post : Value → View → Prop} {before after : State} {value : Value}
    (shows : Shows view own program (view before) post)
    (ran : program.Runs (step view own) before value after) : post value (view after) :=
  (Program.wp_demonic_iff _ program _ before).mp (shows before rfl) value after ran

/-- A run alone is one in which the others do nothing. -/
theorem runs_alone {before after : State} {value : Value} (ran : program.Runs own before value after) :
    program.Runs (step view own) before value after := by
  induction program generalizing before with
  | ret other => exact ran
  | op operation next ih =>
      obtain ⟨answer, middle, taken, rest⟩ := ran
      exact ⟨answer, middle, ⟨before, rfl, taken⟩, ih answer rest⟩

end Library.Beside
