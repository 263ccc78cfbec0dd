import Mathlib.Logic.Basic

/-! Programs that ask their environment for effects, and simulation between environments. -/

namespace Nachos

/-- A computation that makes requests, uses the answers, and ends with a value or aborts. -/
inductive Program (Request : Type) (Answer : Request → Type) (α : Type) : Type
  | done (value : α)
  | request (ask : Request) (next : Answer ask → Program Request Answer α)
  | abort

namespace Program

variable {Request : Type} {Answer : Request → Type} {State Other α β : Type}

/-- Continue with the value of the first computation. -/
def andThen : Program Request Answer α → (α → Program Request Answer β) → Program Request Answer β
  | done value, next => next value
  | request ask more, next => request ask fun answer => (more answer).andThen next
  | abort, _ => abort

instance : Monad (Program Request Answer) where
  pure := done
  bind := andThen

/-- It makes no difference which parts of a sequence are taken together. -/
theorem andThen_assoc {γ : Type} (first : Program Request Answer α)
    (second : α → Program Request Answer β) (third : β → Program Request Answer γ) :
    (first.andThen second).andThen third = first.andThen fun value => (second value).andThen third := by
  -- The requests of the first part come first on both sides.
  induction first with
  | done value => rfl
  | abort => rfl
  | request question next ih =>
    simp only [andThen]
    congr 1
    funext answer
    exact ih answer

/-- A computation whose value is only passed on is that computation. -/
theorem andThen_done (program : Program Request Answer α) : program.andThen done = program := by
  induction program with
  | done value => rfl
  | abort => rfl
  | request question next ih =>
    simp only [andThen]
    congr 1
    funext answer
    exact ih answer

instance : LawfulMonad (Program Request Answer) :=
  LawfulMonad.mk' _ andThen_done (fun _ _ => rfl) andThen_assoc

/-- Make one request and return its answer. -/
def ask (question : Request) : Program Request Answer (Answer question) :=
  request question done

/-- Go on only if the condition holds. -/
def assert (condition : Bool) : Program Request Answer Unit :=
  if condition then done () else abort

/-- How an environment answers a request, or refuses and stops the program. -/
abbrev Handler (Request : Type) (Answer : Request → Type) (State : Type) : Type :=
  (question : Request) → State → Option (Answer question × State)

/-- Execute a program in an environment. Nothing is returned when it aborts. -/
def run (handler : Handler Request Answer State) :
    Program Request Answer α → State → Option (α × State)
  | done value, state => some (value, state)
  | request question next, state =>
    (handler question state).bind fun (answer, state) => (next answer).run handler state
  | abort, _ => none

variable {handler : Handler Request Answer State}

@[simp] theorem run_pure (value : α) (state : State) :
    (pure value : Program Request Answer α).run handler state = some (value, state) := rfl

@[simp] theorem run_abort (state : State) :
    (abort : Program Request Answer α).run handler state = none := rfl

@[simp] theorem run_ask (question : Request) (state : State) :
    (ask question : Program Request Answer _).run handler state = handler question state := by
  cases answered : handler question state <;> simp [ask, run, answered]

@[simp] theorem run_assert (condition : Bool) (state : State) :
    (assert condition : Program Request Answer Unit).run handler state =
      if condition then some ((), state) else none := by
  cases condition <;> rfl

/-- Running a sequence runs its parts one after the other. -/
@[simp] theorem run_bind (first : Program Request Answer α) (next : α → Program Request Answer β)
    (state : State) : (first >>= next).run handler state =
      (first.run handler state).bind fun (value, state) => (next value).run handler state := by
  -- The requests of the first part are made before the second part is reached.
  show (first.andThen next).run handler state = _
  induction first generalizing state with
  | done value => rfl
  | abort => rfl
  | request question more ih =>
    simp only [andThen, run, Option.bind_assoc]
    congr 1
    funext answered
    exact ih answered.1 answered.2

/-- A conditional program runs the branch that is taken. -/
@[simp] theorem run_ite (condition : Prop) [Decidable condition]
    (yes no : Program Request Answer α) (state : State) :
    (if condition then yes else no).run handler state =
      if condition then yes.run handler state else no.run handler state := by
  split <;> rfl

/-- Both sides refuse, or both answer alike and stay related. -/
def Related (relation : State → Other → Prop) :
    Option (α × State) → Option (α × Other) → Prop
  | none, none => True
  | some (value, state), some (other, twin) => value = other ∧ relation state twin
  | _, _ => False

/-- Every request gets the same answer in related states and leaves them related. -/
def Simulates (relation : State → Other → Prop) (handler : Handler Request Answer State)
    (abstract : Handler Request Answer Other) : Prop :=
  ∀ question state twin, relation state twin →
    Related relation (handler question state) (abstract question twin)

/-- No program tells an environment from one that it simulates. -/
theorem run_related {relation : State → Other → Prop} {abstract : Handler Request Answer Other}
    (simulates : Simulates relation handler abstract) (program : Program Request Answer α) :
    ∀ state twin, relation state twin →
      Related relation (program.run handler state) (program.run abstract twin) := by
  -- By induction on the program: each request is answered alike before the rest goes on.
  induction program with
  -- A program that is done has its value on both sides.
  | done value => exact fun state twin related => ⟨rfl, related⟩
  | abort => exact fun _ _ _ => trivial
  | request question next ih =>
    intro state twin related
    have step := simulates question state twin related
    simp only [run]
    cases concrete : handler question state with
    | none =>
      cases model : abstract question twin with
      | none => trivial
      | some answered => simp [Related, concrete, model] at step
    -- The one has answered, so the other has as well.
    | some answered =>
      cases model : abstract question twin with
      | none => simp [Related, concrete, model] at step
      | some modelled =>
        simp only [Related, concrete, model] at step
        obtain ⟨same, related⟩ := step
        simp only [Option.bind_some, same]
        exact ih modelled.1 answered.2 modelled.2 related

/-- The program ends, in every way it can end here, with the postcondition or by aborting. -/
def Meets (handler : Handler Request Answer State) (program : Program Request Answer α)
    (state : State) (post : α → State → Prop) : Prop :=
  ∀ value final, program.run handler state = some (value, final) → post value final

/-- The program does end, with the postcondition. -/
def Achieves (handler : Handler Request Answer State) (program : Program Request Answer α)
    (state : State) (post : α → State → Prop) : Prop :=
  ∃ value final, program.run handler state = some (value, final) ∧ post value final

/-- Sequencing achieves what its second part achieves from wherever the first part ends. -/
theorem Achieves.bind {first : Program Request Answer α} {next : α → Program Request Answer β}
    {state : State} {mid : α → State → Prop} {post : β → State → Prop}
    (begins : Achieves handler first state mid)
    (ends : ∀ value middle, mid value middle → Achieves handler (next value) middle post) :
    Achieves handler (first >>= next) state post := by
  obtain ⟨value, middle, ran, holds⟩ := begins
  obtain ⟨result, final, finished, ended⟩ := ends value middle holds
  exact ⟨result, final, by simp [ran, finished], ended⟩

/-- A weaker postcondition is achieved too. -/
theorem Achieves.mono {program : Program Request Answer α} {state : State}
    {strong weak : α → State → Prop} (achieves : Achieves handler program state strong)
    (weaker : ∀ value final, strong value final → weak value final) :
    Achieves handler program state weak := by
  obtain ⟨value, final, ran, holds⟩ := achieves
  exact ⟨value, final, ran, weaker value final holds⟩

section Views

variable {View : Type} {view : State → View} {start : View} {program : Program Request Answer α}
  {first : Program Request Answer α} {next : α → Program Request Answer β}

/--
The program ends from every state with this view, with the postcondition.

The postcondition is about the value and the view of the state that is left. What a view leaves out
may take any value without a difference.
-/
def Yields (handler : Handler Request Answer State) (view : State → View) (start : View)
    (program : Program Request Answer α) (post : α → View → Prop) : Prop :=
  ∀ state, view state = start →
    Achieves handler program state fun value final => post value (view final)

/-- The program does not end from any state with this view: it aborts or is refused an answer. -/
def Refuses (handler : Handler Request Answer State) (view : State → View) (start : View)
    (program : Program Request Answer α) : Prop :=
  ∀ state, view state = start → program.run handler state = none

/-- A value yields itself. -/
theorem Yields.pure {value : α} {post : α → View → Prop} (holds : post value start) :
    Yields handler view start (pure value) post := by
  intro state seen
  subst seen
  exact ⟨value, state, rfl, holds⟩

/-- Sequencing yields what its second part yields from each view the first part leaves. -/
theorem Yields.bind {mid : α → View → Prop} {post : β → View → Prop}
    (begins : Yields handler view start first mid)
    (ends : ∀ value middle, mid value middle → Yields handler view middle (next value) post) :
    Yields handler view start (first >>= next) post :=
  fun state seen => (begins state seen).bind fun value middle holds =>
    ends value (view middle) holds middle rfl

/-- A weaker postcondition is yielded too. -/
theorem Yields.mono {strong weak : α → View → Prop}
    (yields : Yields handler view start program strong)
    (weaker : ∀ value final, strong value final → weak value final) :
    Yields handler view start program weak :=
  fun state seen => (yields state seen).mono fun value final holds =>
    weaker value (view final) holds

/-- A program that yields nothing but what the postcondition allows ends that way. -/
theorem Yields.holds {post : α → View → Prop} (yields : Yields handler view start program post)
    {state final : State} (seen : view state = start) {value : α}
    (ran : program.run handler state = some (value, final)) : post value (view final) := by
  obtain ⟨other, left, again, holds⟩ := yields state seen
  cases ran.symm.trans again
  exact holds

/-- A passed assertion changes nothing. -/
theorem Yields.assert {condition : Bool} (passed : condition = true) {post : Unit → View → Prop}
    (holds : post () start) : Yields handler view start (Program.assert condition) post := by
  subst passed
  exact Yields.pure holds

/-- A failed assertion ends the program. -/
theorem Refuses.assert {condition : Bool} (failed : condition = false) :
    Refuses handler view start (Program.assert condition : Program Request Answer Unit) := by
  subst failed
  exact fun _ _ => rfl

/-- What comes after a program that does not end is not reached. -/
theorem Refuses.bind_first (refuses : Refuses handler view start first) :
    Refuses handler view start (first >>= next) := by
  intro state seen
  rw [run_bind, refuses state seen]
  rfl

/-- A program whose second part never ends does not end. -/
theorem Refuses.bind {mid : α → View → Prop} (begins : Yields handler view start first mid)
    (refuses : ∀ value middle, mid value middle → Refuses handler view middle (next value)) :
    Refuses handler view start (first >>= next) := by
  intro state seen
  obtain ⟨value, middle, ran, holds⟩ := begins state seen
  rw [run_bind, ran]
  exact refuses value (view middle) holds middle rfl

end Views

section Requests

variable {allowed : Request → Prop} {property : β → Prop} {program : Program Request Answer α}
  {first : Program Request Answer α} {next : α → Program Request Answer β}

/-- The program makes requests of this kind only, whatever it is answered. -/
def Asks (allowed : Request → Prop) : Program Request Answer α → Prop
  | done _ => True
  | request question next => allowed question ∧ ∀ answer, (next answer).Asks allowed
  | abort => True

/-- A sequence asks what its parts ask. -/
theorem Asks.bind (begins : Asks allowed first) (ends : ∀ value, Asks allowed (next value)) :
    Asks allowed (first >>= next) := by
  show Asks allowed (first.andThen next)
  -- By induction on the first part, whose answers lead to the second one.
  induction first with
  | done value => exact ends value
  | abort => exact trivial
  | request question more ih => exact ⟨begins.1, fun answer => ih answer (begins.2 answer)⟩

/-- A program that asks for little asks for no more than that. -/
theorem Asks.mono {more : Request → Prop} (asks : Asks allowed program)
    (allows : ∀ question, allowed question → more question) : Asks more program := by
  induction program with
  | done value => exact trivial
  | abort => exact trivial
  | request question next ih => exact ⟨allows question asks.1, fun answer => ih answer (asks.2 answer)⟩

/-- Every program asks for something or other. -/
theorem asks_any (program : Program Request Answer α) : Asks (fun _ => True) program := by
  induction program with
  | done value => exact trivial
  | abort => exact trivial
  | request question next ih => exact ⟨trivial, ih⟩

/-- What no request of the program touches is as it was when the program ends. -/
theorem Asks.kept {View : Type} {view : State → View} (asks : Asks allowed program)
    (untouched : ∀ question, allowed question → ∀ state answered,
      handler question state = some answered → view answered.2 = view state) :
    ∀ {state value final}, program.run handler state = some (value, final) →
      view final = view state := by
  -- Each request keeps the view, and then the rest of the program does.
  induction program with
  -- Nothing is asked any more.
  | done value =>
    intro state value final ran
    cases ran
    rfl
  | abort => exact fun ran => nomatch ran
  | request question next ih =>
    intro state value final ran
    obtain ⟨answered, served, ran⟩ := Option.bind_eq_some_iff.mp ran
    exact (ih answered.1 (asks.2 answered.1) ran).trans
      (untouched question asks.1 state answered served)

/-- Every value that the program can end with has the property, whatever it is answered. -/
def Returns (property : β → Prop) : Program Request Answer β → Prop
  | done value => property value
  | request _ next => ∀ answer, (next answer).Returns property
  | abort => True

/-- What a sequence returns is what its second part returns. -/
theorem Returns.bind (ends : ∀ value, Returns property (next value)) :
    Returns property (first >>= next) := by
  show Returns property (first.andThen next)
  induction first with
  | done value => exact ends value
  | abort => exact trivial
  | request question more ih => exact fun answer => ih answer

/-- What a sequence returns, its second part returns after each value of the first part. -/
theorem Returns.bind_of {known : α → Prop} (begins : Returns known first)
    (ends : ∀ value, known value → Returns property (next value)) :
    Returns property (first >>= next) := by
  show Returns property (first.andThen next)
  induction first with
  | done value => exact ends value begins
  | abort => exact trivial
  | request question more ih => exact fun answer => ih answer (begins answer)

/-- It does not matter what comes after the values that a program cannot end with. -/
theorem Returns.bind_congr {known : α → Prop} {other : α → Program Request Answer β}
    (returns : Returns known first) (same : ∀ value, known value → next value = other value) :
    first >>= next = first >>= other := by
  show first.andThen next = first.andThen other
  induction first with
  | done value => exact same value returns
  | abort => rfl
  | request question more ih =>
    simp only [andThen]
    congr 1
    funext answer
    exact ih answer (returns answer)

/-- The value of a run is one that the program can end with. -/
theorem Returns.holds {program : Program Request Answer β} (returns : Returns property program) :
    ∀ {state value final}, program.run handler state = some (value, final) → property value := by
  induction program with
  | done value =>
    intro state value final ran
    cases ran
    exact returns
  | abort => exact fun ran => nomatch ran
  | request question next ih =>
    intro state value final ran
    obtain ⟨answered, served, ran⟩ := Option.bind_eq_some_iff.mp ran
    exact ih answered.1 (returns answered.1) ran

end Requests

end Program

end Nachos
