import Nachos.Theory.Run

/-! Backward simulation: a specification that guesses what the system finds out only later. -/

namespace Nachos

section Backward

variable {State Spec Event : Type}

/--
What a step must do to be explained backwards.

A state may be explained by many states of the specification, as it does not know yet which of them
it is in. The states that explain it after a step are reached from ones that explain it before.
-/
def Explained (Inv : State → Prop) (explains : State → Spec → Prop) (state : State)
    (spec : Spec → Option Spec) : Option State → Prop
  | some next => Inv next ∧ ∀ after, explains next after →
    ∃ before, explains state before ∧ spec before = some after
  | none => ∃ before, explains state before ∧ spec before = none

/--
What explains a step from a later state explains it from an earlier one.

It is enough that each state of the specification that explains the later state comes from one that
explains the earlier state and then does the same.
-/
theorem Explained.from_earlier {Inv : State → Prop} {explains : State → Spec → Prop}
    {state middle : State} {spec rest : Spec → Option Spec} {result : Option State}
    (explained : Explained Inv explains middle rest result)
    (back : ∀ between, explains middle between →
      ∃ before, explains state before ∧ spec before = rest between) :
    Explained Inv explains state spec result := by
  cases result with
  | none =>
    obtain ⟨between, holds, stops⟩ := explained
    obtain ⟨before, holds, same⟩ := back between holds
    exact ⟨before, holds, same.trans stops⟩
  | some next =>
    refine ⟨explained.1, fun after holds => ?_⟩
    obtain ⟨between, holds, went⟩ := explained.2 after holds
    obtain ⟨before, holds, same⟩ := back between holds
    exact ⟨before, holds, same.trans went⟩

/--
A run is explained backwards if its steps are.

The specification has a state, which it has to guess, from where it stops when the system stops, or
ends in a state that explains where the system ends.
-/
theorem replay_backward {step : State → Event → Option State} {spec : Spec → Event → Option Spec}
    {guard : State → Event → Prop} {Inv : State → Prop} {explains : State → Spec → Prop}
    (total : ∀ state, Inv state → ∃ before, explains state before)
    (back : ∀ state event, Inv state → guard state event →
      Explained Inv explains state (spec · event) (step state event)) {events : List Event} :
    ∀ {state}, Inv state → EveryStep step guard state events →
      ∃ before, explains state before ∧
        Option.Rel explains (replay step state events) (replay spec before events) := by
  -- The rest of the run says which state the first step must lead to.
  induction events with
  | nil =>
    intro state holds _
    obtain ⟨before, explained⟩ := total state holds
    exact ⟨before, explained, .some explained⟩
  | cons event rest ih =>
    intro state holds every
    have explained := back state event holds every.1
    cases stepped : step state event with
    | none =>
      rw [stepped] at explained
      obtain ⟨before, explained, stops⟩ := explained
      refine ⟨before, explained, ?_⟩
      simp only [replay, stepped, stops, Option.bind_none]
      exact .none
    | some next =>
      rw [stepped] at explained
      obtain ⟨after, explainedNext, ends⟩ := ih explained.1 (every.2 next stepped)
      obtain ⟨before, explainedHere, went⟩ := explained.2 after explainedNext
      refine ⟨before, explainedHere, ?_⟩
      rw [replay_cons stepped, replay_cons went]
      exact ends

end Backward

end Nachos
