import Nachos.Theory.Run

/-! Runs that a rank brings to their end. -/

namespace Nachos

variable {State Event : Type}

/-- If every state that is not at its end has a step to a lower rank, an end can be reached. -/
theorem replay_reaches {step : State → Event → Option State} {Inv : State → Prop}
    (Done : State → Prop) (rank : State → Nat)
    (nears : ∀ state, Inv state → ¬ Done state → ∃ event next,
      step state event = some next ∧ Inv next ∧ rank next < rank state)
    {state : State} (holds : Inv state) :
    ∃ events final, replay step state events = some final ∧ Inv final ∧ Done final := by
  induction ranked : rank state using Nat.strongRecOn generalizing state with
  | ind bound ih =>
    by_cases done : Done state
    · exact ⟨[], state, rfl, holds, done⟩
    · -- One step down, and from there by induction.
      obtain ⟨event, next, stepped, kept, lower⟩ := nears state holds done
      obtain ⟨events, final, ran, ends⟩ := ih (rank next) (ranked ▸ lower) kept rfl
      exact ⟨event :: events, final, by simp [replay, stepped, ran], ends⟩

end Nachos
