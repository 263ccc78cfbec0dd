import Mathlib.Data.List.Basic

/-! Finite runs of deterministic systems whose steps may be refused. -/

namespace Nachos

section Replay

variable {State Event : Type}

/-- Take the events in order, stopping with nothing at the first one that is refused. -/
def replay (step : State → Event → Option State) : State → List Event → Option State
  | state, [] => some state
  | state, event :: rest => (step state event).bind fun next => replay step next rest

/-- Every step the run takes is taken from a state and an event that satisfy the guard. -/
def EveryStep (step : State → Event → Option State) (guard : State → Event → Prop) :
    State → List Event → Prop
  | _, [] => True
  | state, event :: rest =>
    guard state event ∧ ∀ next, step state event = some next → EveryStep step guard next rest

/-- A property kept by every guarded step holds wherever a run of guarded steps ends. -/
theorem replay_guarded {step : State → Event → Option State} {guard : State → Event → Prop}
    {Inv : State → Prop}
    (kept : ∀ state event next, Inv state → guard state event →
      step state event = some next → Inv next) {events : List Event} :
    ∀ {state final}, Inv state → EveryStep step guard state events →
      replay step state events = some final → Inv final := by
  -- The first step keeps the property, and the rest of the run starts where it ends.
  induction events with
  | nil =>
    intro state final holds _ ran
    cases ran
    exact holds
  | cons event rest ih =>
    intro state final holds guarded ran
    obtain ⟨next, stepped, ran⟩ := Option.bind_eq_some_iff.mp ran
    exact ih (kept state event next holds guarded.1 stepped) (guarded.2 next stepped) ran

/-- A run goes on from where its first step ends. -/
theorem replay_cons {step : State → Event → Option State} {state next : State} {event : Event}
    (stepped : step state event = some next) (rest : List Event) :
    replay step state (event :: rest) = replay step next rest := by
  unfold replay
  rw [stepped]
  cases rest <;> rfl

/-- A guard holds along a run if it holds at the first step and from there on. -/
theorem EveryStep.cons {step : State → Event → Option State} {guard : State → Event → Prop}
    {state next : State} {event : Event} {rest : List Event}
    (stepped : step state event = some next) (holds : guard state event)
    (later : EveryStep step guard next rest) : EveryStep step guard state (event :: rest) := by
  refine ⟨holds, fun other also => ?_⟩
  rw [stepped] at also
  cases also
  exact later

/-- A run goes on from where its front part ends. -/
theorem replay_append {step : State → Event → Option State} {front : List Event} :
    ∀ {state middle : State}, replay step state front = some middle → ∀ rest,
      replay step state (front ++ rest) = replay step middle rest := by
  induction front with
  | nil =>
    intro state middle ran rest
    cases ran
    rfl
  | cons event front ih =>
    intro state middle ran rest
    obtain ⟨next, stepped, ran⟩ := Option.bind_eq_some_iff.mp ran
    rw [List.cons_append, replay_cons stepped]
    exact ih ran rest

/-- A guard holds along a run if it holds along its front part, and from there on. -/
theorem EveryStep.append {step : State → Event → Option State} {guard : State → Event → Prop}
    {front rest : List Event} : ∀ {state middle : State}, EveryStep step guard state front →
      replay step state front = some middle → EveryStep step guard middle rest →
      EveryStep step guard state (front ++ rest) := by
  induction front with
  | nil =>
    intro state middle _ ran later
    cases ran
    exact later
  | cons event front ih =>
    intro state middle every ran later
    obtain ⟨next, stepped, ran⟩ := Option.bind_eq_some_iff.mp ran
    exact .cons stepped every.1 (ih (every.2 next stepped) ran later)

/-- A run over events of one kind is a run of the system that takes only these. -/
theorem replay_map {Part : Type} {step : State → Event → Option State} (kind : Part → Event)
    (parts : List Part) : ∀ state,
      replay step state (parts.map kind) = replay (fun state part => step state (kind part)) state parts := by
  induction parts with
  | nil => exact fun _ => rfl
  | cons part rest ih =>
    intro state
    exact Option.bind_congr fun next _ => ih next

/-- A guard on events of one kind is a guard of the system that takes only these. -/
theorem EveryStep.map {Part : Type} {step : State → Event → Option State}
    {guard : State → Event → Prop} (kind : Part → Event) (parts : List Part) : ∀ {state},
      EveryStep (fun state part => step state (kind part)) (fun state part => guard state (kind part))
        state parts → EveryStep step guard state (parts.map kind) := by
  induction parts with
  | nil => exact fun _ => trivial
  | cons part rest ih => exact fun every => ⟨every.1, fun next stepped => ih (every.2 next stepped)⟩

/-- A guard that each event of a run satisfies in any state holds along the run. -/
theorem everyStep_of_mem {step : State → Event → Option State} {guard : State → Event → Prop}
    {events : List Event} : (∀ event ∈ events, ∀ state, guard state event) →
      ∀ state, EveryStep step guard state events := by
  induction events with
  | nil => exact fun _ _ => trivial
  | cons event rest ih =>
    exact fun each state => ⟨each event List.mem_cons_self state,
      fun next _ => ih (fun later member => each later (List.mem_cons_of_mem event member)) next⟩

/-- A guard that always holds restricts no run. -/
theorem everyStep_of_forall {step : State → Event → Option State} {guard : State → Event → Prop}
    (always : ∀ state event, guard state event) (events : List Event) :
    ∀ state, EveryStep step guard state events :=
  everyStep_of_mem fun event _ state => always state event

/-- A run under a guard is a run under every weaker one. -/
theorem EveryStep.mono {step : State → Event → Option State} {strong weak : State → Event → Prop}
    (weaker : ∀ state event, strong state event → weak state event) {events : List Event} :
    ∀ {state}, EveryStep step strong state events → EveryStep step weak state events := by
  induction events with
  | nil => exact fun _ => trivial
  | cons event rest ih =>
    exact fun every => ⟨weaker _ event every.1, fun next stepped => ih (every.2 next stepped)⟩

/-- Along a guarded run holds whatever follows from the guard and from what guarded steps keep. -/
theorem EveryStep.of_invariant {step : State → Event → Option State}
    {guard result : State → Event → Prop} {Inv : State → Prop}
    (kept : ∀ state event next, Inv state → guard state event →
      step state event = some next → Inv next)
    (follows : ∀ state event, Inv state → guard state event → result state event)
    {events : List Event} : ∀ {state}, Inv state → EveryStep step guard state events →
      EveryStep step result state events := by
  induction events with
  | nil => exact fun _ _ => trivial
  | cons event rest ih =>
    intro state holds every
    exact ⟨follows state event holds every.1, fun next stepped =>
      ih (kept state event next holds every.1 stepped) (every.2 next stepped)⟩

/-- What holds along a run holds of the step that is taken where its front part ends. -/
theorem EveryStep.after {step : State → Event → Option State} {guard : State → Event → Prop}
    {front rest : List Event} {event : Event} : ∀ {state middle : State},
      EveryStep step guard state (front ++ event :: rest) →
      replay step state front = some middle → guard middle event := by
  induction front with
  | nil =>
    intro state middle every ran
    cases ran
    exact every.1
  | cons first front ih =>
    intro state middle every ran
    obtain ⟨next, stepped, ran⟩ := Option.bind_eq_some_iff.mp ran
    exact ih (every.2 next stepped) ran

/-- What holds along a run holds along its front part, and from there on. -/
theorem EveryStep.split {step : State → Event → Option State} {guard : State → Event → Prop}
    {front rest : List Event} : ∀ {state : State}, EveryStep step guard state (front ++ rest) →
      EveryStep step guard state front ∧
        ∀ middle, replay step state front = some middle → EveryStep step guard middle rest := by
  -- By induction on the front part.
  induction front with
  -- Nothing is in front, so the run starts from the same state.
  | nil =>
    intro state every
    refine ⟨trivial, fun middle ran => ?_⟩
    cases ran
    exact every
  -- The first step is in front, and what comes after it is split.
  | cons event front ih =>
    intro state every
    refine ⟨⟨every.1, fun next stepped => (ih (every.2 next stepped)).1⟩, fun middle ran => ?_⟩
    obtain ⟨next, stepped, ran⟩ := Option.bind_eq_some_iff.mp ran
    exact (ih (every.2 next stepped)).2 middle ran

/-- Two guards on the same run are one guard. -/
theorem EveryStep.and {step : State → Event → Option State} {first second : State → Event → Prop}
    {events : List Event} : ∀ {state}, EveryStep step first state events →
      EveryStep step second state events →
      EveryStep step (fun state event => first state event ∧ second state event) state events := by
  induction events with
  | nil => exact fun _ _ => trivial
  | cons event rest ih =>
    exact fun every also => ⟨⟨every.1, also.1⟩, fun next stepped =>
      ih (every.2 next stepped) (also.2 next stepped)⟩

/-- A property kept by every step holds wherever a run ends. -/
theorem replay_invariant {step : State → Event → Option State} {Inv : State → Prop}
    (kept : ∀ state event next, Inv state → step state event = some next → Inv next)
    {state final : State} {events : List Event} (holds : Inv state)
    (ran : replay step state events = some final) : Inv final :=
  -- An unguarded run is a run under the guard that always holds.
  have unguarded : EveryStep step (fun _ _ => True) state events :=
    everyStep_of_forall (fun _ _ => trivial) events state
  replay_guarded (fun state event next holds _ stepped => kept state event next holds stepped)
    holds unguarded ran

/-- A property of a state and of what has led to it, kept by every step, holds wherever a run ends. -/
theorem replay_history {step : State → Event → Option State} {Inv : State → List Event → Prop}
    (kept : ∀ state earlier event next, Inv state earlier → step state event = some next →
      Inv next (earlier ++ [event])) {events : List Event} :
    ∀ {state final earlier}, Inv state earlier → replay step state events = some final →
      Inv final (earlier ++ events) := by
  -- The first event joins the history before the rest of the run begins.
  induction events with
  | nil =>
    intro state final earlier holds ran
    cases ran
    rwa [List.append_nil]
  | cons event rest ih =>
    intro state final earlier holds ran
    obtain ⟨next, stepped, ran⟩ := Option.bind_eq_some_iff.mp ran
    rw [← List.singleton_append, ← List.append_assoc]
    exact ih (kept state earlier event next holds stepped) ran

/-- A fold whose steps may fail is a run. -/
theorem foldlM_eq_replay (step : State → Event → Option State) (events : List Event) :
    ∀ state, events.foldlM step state = replay step state events := by
  induction events with
  | nil => exact fun _ => rfl
  | cons event rest ih =>
    intro state
    rw [List.foldlM_cons, replay]
    exact congrArg _ (funext ih)

/-- A run whose steps are all possible and keep a property ends, and ends with the property. -/
theorem replay_progress {step : State → Event → Option State} {guard : State → Event → Prop}
    {Inv : State → Prop}
    (kept : ∀ state event, Inv state → guard state event →
      ∃ next, step state event = some next ∧ Inv next) {events : List Event} :
    ∀ {state}, Inv state → EveryStep step guard state events →
      ∃ final, replay step state events = some final ∧ Inv final := by
  -- The first step is possible, and so is the rest of the run from where it ends.
  induction events with
  | nil => exact fun holds _ => ⟨_, rfl, holds⟩
  | cons event rest ih =>
    intro state holds guarded
    obtain ⟨next, stepped, holds⟩ := kept state event holds guarded.1
    obtain ⟨final, ran, holds⟩ := ih holds (guarded.2 next stepped)
    exact ⟨final, by simp only [replay, stepped, Option.bind_some, ran], holds⟩

/-- Related values are passed on to related results. -/
theorem rel_bind {α β γ δ : Type} {first : α → β → Prop} {second : γ → δ → Prop}
    {x : Option α} {y : Option β} {f : α → Option γ} {g : β → Option δ}
    (related : Option.Rel first x y)
    (next : ∀ a b, first a b → Option.Rel second (f a) (g b)) :
    Option.Rel second (x.bind f) (y.bind g) := by
  cases related with
  | none => exact .none
  | some held => exact next _ _ held

/-- What is related is related in another way if all that is there is. -/
theorem rel_mono {α β : Type} {relation weaker : α → β → Prop} {x : Option α} {y : Option β}
    (related : Option.Rel relation x y)
    (weakens : ∀ a b, x = some a → relation a b → weaker a b) : Option.Rel weaker x y := by
  cases related with
  | none => exact .none
  | some held => exact .some (weakens _ _ rfl held)

/-- A system together with what its steps have put out so far. -/
def recording {Output : Type} (step : State → Event → Option State)
    (output : State → Event → State → List Output) (record : State × List Output) (event : Event) :
    Option (State × List Output) :=
  (step record.1 event).map fun next => (next, record.2 ++ output record.1 event next)

/-- A step of a recorded system is a step of the system, which adds its own output. -/
theorem recording_some {Output : Type} {step : State → Event → Option State}
    {output : State → Event → State → List Output} {record after : State × List Output}
    {event : Event} (stepped : recording step output record event = some after) :
    step record.1 event = some after.1 ∧ after.2 = record.2 ++ output record.1 event after.1 := by
  obtain ⟨next, went, rfl⟩ := Option.map_eq_some_iff.mp stepped
  exact ⟨went, rfl⟩

/-- A run of a recorded system is a run of the system, and only adds to the record. -/
theorem replay_recorded {Output : Type} {step : State → Event → Option State}
    {output : State → Event → State → List Output} {events : List Event} :
    ∀ {record after : State × List Output},
      replay (recording step output) record events = some after →
      replay step record.1 events = some after.1 ∧ ∃ more, after.2 = record.2 ++ more := by
  -- Over the events: each adds to the record, and nothing is taken out.
  induction events with
  | nil =>
    intro record after ran
    cases ran
    exact ⟨rfl, [], by simp⟩
  | cons event rest ih =>
    intro record after ran
    obtain ⟨middle, stepped, ran⟩ := Option.bind_eq_some_iff.mp ran
    obtain ⟨went, added⟩ := recording_some stepped
    obtain ⟨goesOn, more, all⟩ := ih ran
    rw [replay_cons went]
    exact ⟨goesOn, output record.1 event middle.1 ++ more, by rw [all, added, List.append_assoc]⟩

/-- Every run of a system can be recorded. -/
theorem replay_recording {Output : Type} {step : State → Event → Option State}
    {output : State → Event → State → List Output} {events : List Event} :
    ∀ {state final : State}, replay step state events = some final → ∀ record,
      ∃ more, replay (recording step output) (state, record) events = some (final, more) := by
  -- Each step that is taken adds its own output to the record.
  induction events with
  | nil =>
    intro state final ran record
    cases ran
    exact ⟨record, rfl⟩
  | cons event rest ih =>
    intro state final ran record
    obtain ⟨next, stepped, ran⟩ := Option.bind_eq_some_iff.mp ran
    obtain ⟨more, goesOn⟩ := ih ran (record ++ output state event next)
    have recorded : recording step output (state, record) event =
        some (next, record ++ output state event next) := by
      unfold recording
      rw [stepped]
      rfl
    exact ⟨more, by rw [replay_cons recorded, goesOn]⟩

/-- A guard on the steps of a system is one on the steps that are recorded. -/
theorem EveryStep.recording {Output : Type} {step : State → Event → Option State}
    {guard : State → Event → Prop} {output : State → Event → State → List Output}
    {events : List Event} : ∀ {record : State × List Output},
      EveryStep step guard record.1 events →
      EveryStep (recording step output) (fun record event => guard record.1 event) record events := by
  induction events with
  | nil => exact fun _ => trivial
  | cons event rest ih =>
    exact fun every => ⟨every.1, fun next stepped => ih (every.2 next.1 (recording_some stepped).1)⟩

/-- A guard holds along a run if it holds at each step, wherever the steps in front of it lead. -/
theorem everyStep_of_after {step : State → Event → Option State} {guard : State → Event → Prop}
    {events : List Event} : ∀ {state : State},
      (∀ front event rest middle, events = front ++ event :: rest →
        replay step state front = some middle → guard middle event) →
      EveryStep step guard state events := by
  induction events with
  | nil => exact fun _ => trivial
  | cons event rest ih =>
    intro state holds
    refine ⟨holds [] event rest state rfl rfl, fun next stepped => ih ?_⟩
    rintro front later others middle rfl ran
    exact holds (event :: front) later others middle rfl (by rw [replay_cons stepped, ran])

/-- Runs of two systems over related events, from related states, stay related or both stop. -/
theorem replay_related {Twin Other : Type} {step : State → Event → Option State}
    {follow : Twin → Other → Option Twin} {guard : State → Event → Prop}
    {relation : State → Twin → Prop} {alike : Event → Other → Prop}
    (kept : ∀ state twin event other, relation state twin → alike event other →
      guard state event → Option.Rel relation (step state event) (follow twin other))
    {events : List Event} {others : List Other} (matched : List.Forall₂ alike events others) :
    ∀ {state twin}, relation state twin → EveryStep step guard state events →
      Option.Rel relation (replay step state events) (replay follow twin others) := by
  -- Both runs take their first steps together, and go on from related states.
  induction matched with
  | nil => exact fun related _ => .some related
  | cons head tail ih =>
    intro state twin related guarded
    have stepped := kept state twin _ _ related head guarded.1
    simp only [replay]
    -- The one has stopped, and so has the other.
    cases first : step state _ with
    | none =>
      rw [first] at stepped
      generalize second : follow twin _ = result at stepped
      cases stepped
      exact .none
    -- Both go on to states that are related.
    | some next =>
      rw [first] at stepped
      generalize second : follow twin _ = result at stepped
      cases stepped with
      | some held => exact ih held (guarded.2 next first)

/-- A run of a specification is followed by a run of a system that simulates its steps. -/
theorem replay_simulates {Twin : Type} {step : State → Event → Option State}
    {spec : Twin → Event → Option Twin} {guard : State → Event → Prop}
    {relation : State → Twin → Prop}
    (kept : ∀ state twin event next, relation state twin → guard state event →
      spec twin event = some next → ∃ after, step state event = some after ∧ relation after next)
    {events : List Event} : ∀ {state twin final}, relation state twin →
      EveryStep step guard state events → replay spec twin events = some final →
      ∃ after, replay step state events = some after ∧ relation after final := by
  -- The first step is simulated, and so is the rest of the run from where it ends.
  induction events with
  | nil =>
    intro state twin final related _ ran
    cases ran
    exact ⟨state, rfl, related⟩
  | cons event rest ih =>
    intro state twin final related every ran
    obtain ⟨next, specified, ran⟩ := Option.bind_eq_some_iff.mp ran
    obtain ⟨middle, stepped, related⟩ := kept state twin event next related every.1 specified
    obtain ⟨after, later, ends⟩ := ih related (every.2 middle stepped) ran
    exact ⟨after, by rw [replay_cons stepped, later], ends⟩

/-- A guarded run goes through, and a system that keeps step with it ends in a related state. -/
theorem replay_lockstep {Twin : Type} {step : State → Event → Option State}
    {follow : Twin → Event → Option Twin} {guard : State → Event → Prop}
    {relation : State → Twin → Prop}
    (kept : ∀ state twin event, relation state twin → guard state event →
      ∃ after next, step state event = some after ∧ follow twin event = some next ∧
        relation after next)
    {events : List Event} : ∀ {state twin}, relation state twin →
      EveryStep step guard state events →
      ∃ after final, replay step state events = some after ∧
        replay follow twin events = some final ∧ relation after final := by
  -- Both take the first step together, and then the rest of the run.
  induction events with
  | nil => exact fun related _ => ⟨_, _, rfl, rfl, related⟩
  | cons event rest ih =>
    intro state twin related every
    obtain ⟨middle, next, stepped, followed, related⟩ := kept state twin event related every.1
    obtain ⟨after, final, ran, alongside, ends⟩ := ih related (every.2 middle stepped)
    exact ⟨after, final, by rw [replay_cons stepped, ran], by rw [replay_cons followed, alongside],
      ends⟩

/-- Whether every step is taken under the guard can be found out by taking the steps. -/
instance everyStepDecidable {step : State → Event → Option State}
    {guard : State → Event → Prop} [decidable : ∀ state event, Decidable (guard state event)] :
    ∀ state events, Decidable (EveryStep step guard state events)
  | _, [] => isTrue trivial
  | state, event :: rest =>
    match decidable state event, ended : step state event with
    | isFalse refused, _ => isFalse fun every => refused every.1
    | isTrue holds, none => isTrue ⟨holds, fun _ stepped => by rw [ended] at stepped; cases stepped⟩
    | isTrue holds, some next =>
      match everyStepDecidable next rest with
      | isTrue later => isTrue ⟨holds, fun other stepped => by
          rw [ended] at stepped; cases stepped; exact later⟩
      | isFalse refused => isFalse fun every => refused (every.2 next ended)

end Replay

end Nachos
