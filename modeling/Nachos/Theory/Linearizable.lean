import Mathlib.Data.List.Nodup
import Mathlib.Logic.Function.Basic
import Nachos.Theory.Run

/-! Objects that many threads call, and systems in which each call takes effect at one moment. -/

namespace Nachos

section Linearizable

variable {Thread Object Op Ret : Type}

/-- What is seen of the calls from outside: they begin, and they come back with a result. -/
inductive Action (Thread Op Ret : Type)
  | call (thread : Thread) (op : Op)
  | ret (thread : Thread) (value : Ret)
  deriving DecidableEq, Repr

/-- The thread that calls, or that is back. -/
def Action.thread : Action Thread Op Ret → Thread
  | .call thread _ | .ret thread _ => thread

/-- The thread calls at one place of the history, and the next that is seen of it is the return. -/
structure CallReturns (history : List (Action Thread Op Ret)) (thread : Thread) (start finish : Nat)
    (op : Op) (value : Ret) : Prop where
  called : history[start]? = some (.call thread op)
  returned : history[finish]? = some (.ret thread value)
  inOrder : start < finish
  between : ∀ place action, start < place → place < finish → history[place]? = some action →
    action.thread ≠ thread

/-- The thread calls at one place of the history, and nothing is seen of it after that. -/
structure CallPending (history : List (Action Thread Op Ret)) (thread : Thread) (start : Nat)
    (op : Op) : Prop where
  called : history[start]? = some (.call thread op)
  silent : ∀ place action, start < place → history[place]? = some action →
    action.thread ≠ thread

/-- One call of a history in the order of the effects: where it begins, and its result. -/
structure CallEffect (Op Ret : Type) where
  start : Nat
  op : Op
  value : Ret

/-- The operations, one after the other, have these results and take the object to this state. -/
def Performs (apply : Object → Op → Option (Ret × Object)) :
    Object → List (CallEffect Op Ret) → Object → Prop
  | object, [], final => object = final
  | object, effect :: rest, final =>
    ∃ next, apply object effect.op = some (effect.value, next) ∧ Performs apply next rest final

/--
The calls of a history could have been made one after the other, in this order of their effects.

Every call that has returned is in the order, with the result that it returned. A call that came
back before another one began does not stand after it.
-/
structure Linearizes (apply : Object → Op → Option (Ret × Object)) (init final : Object)
    (history : List (Action Thread Op Ret)) (order : List (CallEffect Op Ret)) : Prop where
  called : ∀ effect ∈ order, ∃ thread, history[effect.start]? = some (.call thread effect.op)
  once : (order.map CallEffect.start).Nodup
  legal : Performs apply init order final
  returned : ∀ finish thread value, history[finish]? = some (.ret thread value) →
    ∃ start op, CallReturns history thread start finish op value ∧ ⟨start, op, value⟩ ∈ order
  realTime : order.Pairwise fun earlier later =>
    ∀ thread finish op value, CallReturns history thread later.start finish op value →
      earlier.start < finish

/-- The history of an object whose calls each take effect at one moment between call and return. -/
def Linearizable (apply : Object → Op → Option (Ret × Object)) (init final : Object)
    (history : List (Action Thread Op Ret)) : Prop :=
  ∃ order, Linearizes apply init final history order

section

variable {apply : Object → Op → Option (Ret × Object)} {init final object next : Object}
  {history : List (Action Thread Op Ret)} {order : List (CallEffect Op Ret)} {thread other : Thread}
  {start finish : Nat} {op : Op} {value : Ret} {action : Action Thread Op Ret}

/-- One more operation goes on from where the others end. -/
theorem Performs.snoc {effects : List (CallEffect Op Ret)} (start : Nat) :
    ∀ {object : Object}, Performs apply object effects final →
      apply final op = some (value, next) →
      Performs apply object (effects ++ [⟨start, op, value⟩]) next := by
  -- Over the operations that come first: each is performed as before.
  induction effects with
  | nil =>
    intro object performs applied
    cases performs
    exact ⟨next, applied, rfl⟩
  | cons effect rest ih =>
    intro object performs applied
    obtain ⟨middle, first, later⟩ := performs
    exact ⟨middle, first, ih later applied⟩

/-- What a history has at a place it has after more is seen. -/
theorem getElem?_snoc (found : history[start]? = some action) (last : Action Thread Op Ret) :
    (history ++ [last])[start]? = some action := by
  obtain ⟨within, -⟩ := List.getElem?_eq_some_iff.mp found
  rw [List.getElem?_append_left within, found]

/-- What a history has at a place after more is seen, it had before, or it is the last of it. -/
theorem getElem?_snoc_cases {last : Action Thread Op Ret}
    (found : (history ++ [last])[start]? = some action) :
    history[start]? = some action ∨ (start = history.length ∧ action = last) := by
  rcases Nat.lt_trichotomy start history.length with within | same | beyond
  · rw [List.getElem?_append_left within] at found
    exact .inl found
  · subst same
    simp only [List.getElem?_concat_length, Option.some.injEq] at found
    exact .inr ⟨rfl, found.symm⟩
  · have outside : (history ++ [last]).length ≤ start := by simp; omega
    rw [List.getElem?_eq_none outside] at found
    cases found

/-- A pending call stays pending while others are seen. -/
theorem CallPending.snoc (pending : CallPending history thread start op)
    (apart : action.thread ≠ thread) : CallPending (history ++ [action]) thread start op := by
  refine ⟨getElem?_snoc pending.called action, fun place seen after found => ?_⟩
  rcases getElem?_snoc_cases found with earlier | ⟨-, last⟩
  · exact pending.silent place seen after earlier
  · rwa [last]

/-- A call that has just begun is pending. -/
theorem pending_call (history : List (Action Thread Op Ret)) (thread : Thread) (op : Op) :
    CallPending (history ++ [.call thread op]) thread history.length op := by
  refine ⟨by simp, fun place action after found => ?_⟩
  rcases getElem?_snoc_cases found with earlier | ⟨last, -⟩
  · obtain ⟨within, -⟩ := List.getElem?_eq_some_iff.mp earlier
    omega
  · omega

/-- A pending call is not answered yet. -/
theorem CallPending.unanswered (pending : CallPending history thread start op) {also : Op} :
    ¬ CallReturns history other start finish also value := by
  intro answers
  have same := answers.called.symm.trans pending.called
  simp only [Option.some.injEq, Action.call.injEq] at same
  exact pending.silent finish _ answers.inOrder answers.returned same.1

/-- The return that is seen next answers the pending call. -/
theorem CallPending.answers (pending : CallPending history thread start op) (value : Ret) :
    CallReturns (history ++ [.ret thread value]) thread start history.length op value := by
  obtain ⟨within, -⟩ := List.getElem?_eq_some_iff.mp pending.called
  refine ⟨getElem?_snoc pending.called _, by simp, within, fun place seen after before found => ?_⟩
  rw [List.getElem?_append_left before] at found
  exact pending.silent place seen after found

/-- An answer that came earlier is one after more is seen. -/
theorem CallReturns.snoc (answers : CallReturns history thread start finish op value)
    (last : Action Thread Op Ret) :
    CallReturns (history ++ [last]) thread start finish op value := by
  obtain ⟨within, -⟩ := List.getElem?_eq_some_iff.mp answers.returned
  refine ⟨getElem?_snoc answers.called last, getElem?_snoc answers.returned last, answers.inOrder,
    fun place seen after before found => ?_⟩
  rw [List.getElem?_append_left (Nat.lt_trans before within)] at found
  exact answers.between place seen after before found

/-- An answer came earlier, or is the last that is seen. -/
theorem CallReturns.of_snoc {last : Action Thread Op Ret}
    (answers : CallReturns (history ++ [last]) thread start finish op value) :
    CallReturns history thread start finish op value ∨ finish = history.length := by
  rcases getElem?_snoc_cases answers.returned with returned | ⟨same, -⟩
  · obtain ⟨within, -⟩ := List.getElem?_eq_some_iff.mp returned
    have called := answers.called
    rw [List.getElem?_append_left (Nat.lt_trans answers.inOrder within)] at called
    exact .inl ⟨called, returned, answers.inOrder, fun place seen after before found =>
      answers.between place seen after before (getElem?_snoc found last)⟩
  · exact .inr same

/-- Nothing has happened, and no call has been made. -/
theorem linearizes_nil (apply : Object → Op → Option (Ret × Object)) (init : Object) :
    Linearizes apply init init ([] : List (Action Thread Op Ret)) [] where
  called := by simp
  once := List.nodup_nil
  legal := rfl
  returned := by simp
  realTime := List.Pairwise.nil

/-- A call that begins leaves the order of the effects as it is. -/
theorem Linearizes.call (linearizes : Linearizes apply init final history order) (thread : Thread)
    (op : Op) : Linearizes apply init final (history ++ [.call thread op]) order where
  -- What was called before was called before, whatever follows.
  called := fun effect member =>
    (linearizes.called effect member).imp fun _ found => getElem?_snoc found _
  once := linearizes.once
  legal := linearizes.legal
  returned := fun finish other value found => by
    -- The history has one more event, and that is no return.
    rcases getElem?_snoc_cases found with earlier | ⟨-, last⟩
    · obtain ⟨start, also, answers, member⟩ := linearizes.returned finish other value earlier
      exact ⟨start, also, answers.snoc _, member⟩
    · cases last
  realTime := linearizes.realTime.imp fun {_ _} apart other finish also value answers => by
    -- An answer that was seen before is at its old place.
    rcases getElem?_snoc_cases answers.returned with earlier | ⟨-, last⟩
    · rcases answers.of_snoc with before | same
      · exact apart other finish also value before
      · -- The return is one of those that were seen before the call.
        obtain ⟨within, -⟩ := List.getElem?_eq_some_iff.mp earlier
        omega
    · cases last

/-- A pending call may take effect: it goes to the end of the order. -/
theorem Linearizes.commit (linearizes : Linearizes apply init object history order)
    (pending : CallPending history thread start op) (fresh : ∀ effect ∈ order, effect.start ≠ start)
    (applied : apply object op = some (value, next)) :
    Linearizes apply init next history (order ++ [⟨start, op, value⟩]) where
  -- The operation that takes effect has been called.
  called := fun effect member => by
    rcases List.mem_append.mp member with earlier | last
    · exact linearizes.called effect earlier
    · rw [List.mem_singleton.mp last]
      exact ⟨thread, pending.called⟩
  -- It has had no effect before.
  once := by
    rw [List.map_append, List.nodup_append]
    refine ⟨linearizes.once, by simp, fun place earlier other last same => ?_⟩
    obtain ⟨effect, member, rfl⟩ := List.mem_map.mp earlier
    simp only [List.map_cons, List.map_nil, List.mem_singleton] at last
    exact fresh effect member (same.trans last)
  legal := linearizes.legal.snoc start applied
  returned := fun finish other result found => by
    -- What has returned is in the order still.
    obtain ⟨place, also, answers, member⟩ := linearizes.returned finish other result found
    exact ⟨place, also, answers, List.mem_append_left _ member⟩
  realTime := by
    rw [List.pairwise_append]
    refine ⟨linearizes.realTime, List.pairwise_singleton _ _, fun earlier _ last member => ?_⟩
    -- The call has not come back, so that nothing has to stand after it.
    rw [List.mem_singleton.mp member]
    exact fun other finish also result answers => absurd answers pending.unanswered

/-- A call that has taken effect may return with its result. -/
theorem Linearizes.ret (linearizes : Linearizes apply init final history order)
    (pending : CallPending history thread start op) (member : ⟨start, op, value⟩ ∈ order) :
    Linearizes apply init final (history ++ [.ret thread value]) order where
  called := fun effect member =>
    (linearizes.called effect member).imp fun _ found => getElem?_snoc found _
  once := linearizes.once
  legal := linearizes.legal
  -- The return that is seen last is that of this call.
  returned := fun finish other result found => by
    rcases getElem?_snoc_cases found with earlier | ⟨same, last⟩
    · obtain ⟨place, also, answers, member⟩ := linearizes.returned finish other result earlier
      exact ⟨place, also, answers.snoc _, member⟩
    · cases last
      subst same
      exact ⟨start, op, pending.answers value, member⟩
  -- Of two calls in the order, the second one has come back last, if any has.
  realTime := by
    refine linearizes.realTime.imp_of_mem fun {earlier later} front _ apart other finish also result
      answers => ?_
    rcases answers.of_snoc with before | same
    · exact apart other finish also result before
    · -- Every call in the order began before the return that is seen now.
      obtain ⟨caller, found⟩ := linearizes.called earlier front
      obtain ⟨within, -⟩ := List.getElem?_eq_some_iff.mp found
      omega

end

/-- How far a thread is in its operation. -/
inductive CallPhase (Op Ret : Type)
  | idle
  -- The call has begun, and has had no effect yet.
  | called (op : Op)
  -- The call has had its effect, and is about to return the result.
  | done (value : Ret)

/-- An object whose operations take effect at one moment, and how far each thread is. -/
structure Atomic (Thread Object Op Ret : Type) where
  object : Object
  phase : Thread → CallPhase Op Ret

/-- What can happen next, in any order. -/
inductive AtomicEvent (Thread Op : Type)
  | call (thread : Thread) (op : Op)
  -- The operation takes effect.
  | commit (thread : Thread)
  | ret (thread : Thread)

variable [DecidableEq Thread]

/-- The object in its first state, and nobody calls it. -/
def Atomic.start (init : Object) : Atomic Thread Object Op Ret :=
  { object := init, phase := fun _ => .idle }

/-- The thread goes on to another phase. -/
def Atomic.move (sys : Atomic Thread Object Op Ret) (thread : Thread) (phase : CallPhase Op Ret) :
    Atomic Thread Object Op Ret :=
  { sys with phase := Function.update sys.phase thread phase }

/-- One step of one thread, refused when the thread is not there or the object refuses. -/
def Atomic.step (apply : Object → Op → Option (Ret × Object)) (sys : Atomic Thread Object Op Ret) :
    AtomicEvent Thread Op → Option (Atomic Thread Object Op Ret)
  | .call thread op =>
    match sys.phase thread with
    | .idle => some (sys.move thread (.called op))
    | _ => none
  | .commit thread =>
    match sys.phase thread with
    | .called op =>
      (apply sys.object op).map fun (value, object) =>
        { sys with object }.move thread (.done value)
    | _ => none
  | .ret thread =>
    match sys.phase thread with
    | .done _ => some (sys.move thread .idle)
    | _ => none

/-- What is seen of a step. -/
def Atomic.observe (sys : Atomic Thread Object Op Ret) :
    AtomicEvent Thread Op → Atomic Thread Object Op Ret → List (Action Thread Op Ret)
  | .call thread op, _ => [.call thread op]
  | .commit _, _ => []
  | .ret thread, _ =>
    match sys.phase thread with
    | .done value => [.ret thread value]
    | _ => []

section

variable {apply : Object → Op → Option (Ret × Object)} {init : Object}
  {history : List (Action Thread Op Ret)} {order : List (CallEffect Op Ret)}
  {sys next : Atomic Thread Object Op Ret}

@[simp] theorem Atomic.move_object (thread : Thread) (phase : CallPhase Op Ret) :
    (sys.move thread phase).object = sys.object := rfl

@[simp] theorem Atomic.move_phase_self (thread : Thread) (phase : CallPhase Op Ret) :
    (sys.move thread phase).phase thread = phase := by
  simp [move]

@[simp] theorem Atomic.move_phase_of_ne (thread other : Thread) (phase : CallPhase Op Ret)
    (different : other ≠ thread) : (sys.move thread phase).phase other = sys.phase other := by
  simp [move, different]

/-- Where the call of a thread stands in the history and in the order, by its phase. -/
def CallPhase.Recorded (history : List (Action Thread Op Ret)) (order : List (CallEffect Op Ret))
    (thread : Thread) : CallPhase Op Ret → Prop
  | .idle => True
  | .called op =>
    ∃ start, CallPending history thread start op ∧ ∀ effect ∈ order, effect.start ≠ start
  | .done value => ∃ start op, CallPending history thread start op ∧ ⟨start, op, value⟩ ∈ order

/-- What every run keeps: the effects so far, in the order in which they came, explain it. -/
def Atomic.Explained (apply : Object → Op → Option (Ret × Object)) (init : Object)
    (record : Atomic Thread Object Op Ret × List (Action Thread Op Ret)) : Prop :=
  ∃ order, Linearizes apply init record.1.object record.2 order ∧
    ∀ thread, (record.1.phase thread).Recorded record.2 order thread

omit [DecidableEq Thread] in
/-- What is seen of another thread leaves a thread in its phase. -/
theorem CallPhase.Recorded.snoc {thread : Thread} {phase : CallPhase Op Ret}
    {action : Action Thread Op Ret} (recorded : phase.Recorded history order thread)
    (apart : action.thread ≠ thread) :
    phase.Recorded (history ++ [action]) order thread := by
  cases phase with
  | idle => trivial
  | called op =>
    obtain ⟨start, pending, fresh⟩ := recorded
    exact ⟨start, pending.snoc apart, fresh⟩
  | done value =>
    obtain ⟨start, op, pending, member⟩ := recorded
    exact ⟨start, op, pending.snoc apart, member⟩

omit [DecidableEq Thread] in
/-- Two calls that are pending at one place are one thread's. -/
theorem CallPending.same_thread {thread other : Thread} {start : Nat} {op also : Op}
    (pending : CallPending history thread start op) (there : CallPending history other start also) :
    thread = other := by
  have same := pending.called.symm.trans there.called
  simp only [Option.some.injEq, Action.call.injEq] at same
  exact same.1

omit [DecidableEq Thread] in
/-- The effect of one thread leaves another one in its phase. -/
theorem CallPhase.Recorded.commit {thread other : Thread} {start : Nat} {op : Op} {value : Ret}
    {phase : CallPhase Op Ret} (recorded : phase.Recorded history order other)
    (pending : CallPending history thread start op) (apart : other ≠ thread) :
    phase.Recorded history (order ++ [⟨start, op, value⟩]) other := by
  cases phase with
  -- A thread that makes no call has nothing recorded.
  | idle => trivial
  -- A call that is pending has no effect in the order, and that of another thread is none of it.
  | called also =>
    obtain ⟨place, there, fresh⟩ := recorded
    refine ⟨place, there, fun effect member => ?_⟩
    rcases List.mem_append.mp member with earlier | last
    · exact fresh effect earlier
    · rw [List.mem_singleton.mp last]
      rintro rfl
      exact apart (there.same_thread pending)
  -- The effect of one that is done stays in the order.
  | done result =>
    obtain ⟨place, also, there, member⟩ := recorded
    exact ⟨place, also, there, List.mem_append_left _ member⟩

/-- A thread that goes to a phase that is recorded leaves the others in theirs. -/
theorem Atomic.recorded_move {thread : Thread} {phase : CallPhase Op Ret}
    (here : phase.Recorded history order thread)
    (others : ∀ other, other ≠ thread → (sys.phase other).Recorded history order other)
    (other : Thread) : ((sys.move thread phase).phase other).Recorded history order other := by
  by_cases same : other = thread
  · rwa [same, move_phase_self]
  · rw [move_phase_of_ne _ _ _ same]
    exact others other same

/-- Every step is explained by the effects so far, and by its own if it has one. -/
theorem Atomic.explained_step
    {record after : Atomic Thread Object Op Ret × List (Action Thread Op Ret)}
    {event : AtomicEvent Thread Op} (explained : Explained apply init record)
    (went : recording (Atomic.step apply) Atomic.observe record event = some after) :
    Explained apply init after := by
  obtain ⟨sys, history⟩ := record
  obtain ⟨next, seen⟩ := after
  obtain ⟨stepped, added⟩ := recording_some went
  obtain ⟨order, linearizes, phases⟩ := explained
  dsimp only at stepped added linearizes phases
  subst added
  cases event with
  -- A call begins.
  | call thread op =>
    cases phase : sys.phase thread <;> simp only [Atomic.step, phase] at stepped <;> cases stepped
    refine ⟨order, linearizes.call thread op, Atomic.recorded_move ?_ fun other apart => ?_⟩
    · -- The call begins after every effect that there is.
      refine ⟨history.length, pending_call history thread op, fun effect member => ?_⟩
      obtain ⟨caller, found⟩ := linearizes.called effect member
      exact Nat.ne_of_lt (List.getElem?_eq_some_iff.mp found).1
    · exact (phases other).snoc (Ne.symm apart)
  -- A call takes effect.
  | commit thread =>
    cases phase : sys.phase thread with
    | called op =>
      simp only [Atomic.step, phase, Option.map_eq_some_iff] at stepped
      obtain ⟨⟨value, object⟩, applied, rfl⟩ := stepped
      have recorded := phases thread
      rw [phase] at recorded
      obtain ⟨start, pending, fresh⟩ := recorded
      have takes := linearizes.commit pending fresh applied
      simp only [Atomic.observe, List.append_nil]
      refine ⟨_, takes, Atomic.recorded_move ?_ fun other apart =>
        (phases other).commit pending apart⟩
      exact ⟨start, op, pending, by simp⟩
    | _ => simp [Atomic.step, phase] at stepped
  -- A call returns.
  | ret thread =>
    cases phase : sys.phase thread with
    | done value =>
      simp only [Atomic.step, phase, Option.some.injEq] at stepped
      subst stepped
      have recorded := phases thread
      rw [phase] at recorded
      obtain ⟨start, op, pending, member⟩ := recorded
      simp only [Atomic.observe, phase]
      exact ⟨order, linearizes.ret pending member, Atomic.recorded_move trivial fun other apart =>
        (phases other).snoc (Ne.symm apart)⟩
    | _ => simp [Atomic.step, phase] at stepped

/-- The object has come to this state from its start, and this was seen of it on the way. -/
def Atomic.Reached (apply : Object → Op → Option (Ret × Object)) (init : Object)
    (sys : Atomic Thread Object Op Ret) (history : List (Action Thread Op Ret)) : Prop :=
  ∃ events, replay (recording (Atomic.step apply) Atomic.observe) (.start init, []) events =
    some (sys, history)

/-- Every run of an object whose operations take effect at one moment is linearizable. -/
theorem Atomic.Reached.linearizable (reached : sys.Reached apply init history) :
    Linearizable apply init sys.object history := by
  obtain ⟨events, ran⟩ := reached
  have explained : Atomic.Explained apply init (sys, history) :=
    replay_invariant (fun _ _ _ => Atomic.explained_step)
      (show Explained apply init (.start init, []) from
        ⟨[], linearizes_nil apply init, fun _ => trivial⟩) ran
  obtain ⟨order, linearizes, -⟩ := explained
  exact ⟨order, linearizes⟩

/-- Some steps take the atomic object from one state to another, and this is seen of them. -/
def Atomic.Reaches (apply : Object → Op → Option (Ret × Object)) (sys : Atomic Thread Object Op Ret)
    (seen : List (Action Thread Op Ret)) (next : Atomic Thread Object Op Ret) : Prop :=
  ∃ events, ∀ history,
    replay (recording (Atomic.step apply) Atomic.observe) (sys, history) events =
      some (next, history ++ seen)

/-- Nothing happens, and nothing is seen. -/
theorem Atomic.Reaches.refl (apply : Object → Op → Option (Ret × Object))
    (sys : Atomic Thread Object Op Ret) : sys.Reaches apply [] sys :=
  ⟨[], fun history => by rw [List.append_nil]; rfl⟩

/-- One step, and what is seen of it. -/
theorem Atomic.Reaches.of_step (event : AtomicEvent Thread Op)
    (stepped : sys.step apply event = some next) :
    sys.Reaches apply (sys.observe event next) next := by
  refine ⟨[event], fun history => ?_⟩
  simp [replay, recording, stepped]

/-- A call begins. -/
theorem Atomic.Reaches.call {thread : Thread} (idle : sys.phase thread = .idle) (op : Op) :
    sys.Reaches apply [.call thread op] (sys.move thread (.called op)) :=
  .of_step (.call thread op) (by simp only [Atomic.step, idle])

/-- A call takes effect, unseen. -/
theorem Atomic.Reaches.commit {thread : Thread} {op : Op} {value : Ret} {object : Object}
    (called : sys.phase thread = .called op)
    (applied : apply sys.object op = some (value, object)) :
    sys.Reaches apply [] ({ sys with object }.move thread (.done value)) :=
  .of_step (.commit thread) (by simp [Atomic.step, called, applied])

/-- A call returns. -/
theorem Atomic.Reaches.ret {thread : Thread} {value : Ret} (done : sys.phase thread = .done value) :
    sys.Reaches apply [.ret thread value] (sys.move thread .idle) := by
  have stepped : sys.step apply (.ret thread) = some (sys.move thread .idle) := by
    simp only [Atomic.step, done]
  have seen := Atomic.Reaches.of_step (.ret thread) stepped
  simpa only [Atomic.observe, done] using seen

/-- The atomic object behind threads that go through stages, each of which is in one phase. -/
def Atomic.ofStages {Stage : Type} (phase : Stage → CallPhase Op Ret) (object : Object)
    (stage : Thread → Stage) : Atomic Thread Object Op Ret :=
  { object, phase := fun thread => phase (stage thread) }

section

variable {Stage : Type} {phase : Stage → CallPhase Op Ret} {object later : Object}
  {stage : Thread → Stage} {thread : Thread} {after : Stage}

/-- A thread that goes to another stage goes to the phase of that stage. -/
theorem Atomic.ofStages_update : ofStages phase object (Function.update stage thread after) =
    (ofStages phase object stage).move thread (phase after) := by
  unfold ofStages move
  congr 1
  funext other
  by_cases same : other = thread
  · simp [same]
  · simp [same]

/-- A thread that stays in its phase goes unseen. -/
theorem Atomic.Reaches.stay (apply : Object → Op → Option (Ret × Object))
    (same : phase after = phase (stage thread)) :
    (ofStages phase object stage).Reaches apply []
      (ofStages phase object (Function.update stage thread after)) := by
  have kept : ofStages phase object (Function.update stage thread after) =
      ofStages phase object stage := by
    rw [ofStages_update, same]
    unfold Atomic.move
    rw [show (ofStages phase object stage).phase = fun other => phase (stage other) from rfl,
      Function.update_eq_self_iff.mpr rfl]
    rfl
  rw [kept]
  exact .refl apply _

/-- A thread that goes from a stage outside to one in which it has called is seen to call. -/
theorem Atomic.Reaches.enter (apply : Object → Op → Option (Ret × Object)) {op : Op}
    (idle : phase (stage thread) = .idle) (goes : phase after = .called op) :
    (ofStages phase object stage).Reaches apply [.call thread op]
      (ofStages phase object (Function.update stage thread after)) := by
  rw [ofStages_update, goes]
  exact .call idle op

/-- A thread that goes on with the result of its operation has had its effect, unseen. -/
theorem Atomic.Reaches.effect {op : Op} {value : Ret} (called : phase (stage thread) = .called op)
    (goes : phase after = .done value) (applied : apply object op = some (value, later)) :
    (ofStages phase object stage).Reaches apply []
      (ofStages phase later (Function.update stage thread after)) := by
  have committed : (ofStages phase object stage).Reaches apply []
      ({ ofStages phase object stage with object := later }.move thread (.done value)) :=
    .commit called applied
  rw [ofStages_update, goes]
  exact committed

/-- A thread that goes outside with its result is seen to return it. -/
theorem Atomic.Reaches.leave (apply : Object → Op → Option (Ret × Object)) {value : Ret}
    (done : phase (stage thread) = .done value) (goes : phase after = .idle) :
    (ofStages phase object stage).Reaches apply [.ret thread value]
      (ofStages phase object (Function.update stage thread after)) := by
  rw [ofStages_update, goes]
  exact .ret done

end

/--
A system is linearizable if an atomic object stands behind it, by a mapping of its states.

Every step of the system is some steps of the atomic object, of which the same is seen.
-/
theorem linearizable_of_mapping {State Event : Type} {step : State → Event → Option State}
    {observe : State → Event → State → List (Action Thread Op Ret)}
    (mapping : State → Atomic Thread Object Op Ret) (Inv : State → Prop)
    (kept : ∀ state event next, Inv state → step state event = some next → Inv next)
    (mapped : ∀ state event next, Inv state → step state event = some next →
      (mapping state).Reaches apply (observe state event next) (mapping next))
    {state final : State} {events : List Event} (holds : Inv state)
    (starts : mapping state = .start init)
    (ran : replay (recording step observe) (state, []) events = some (final, history)) :
    Linearizable apply init (mapping final).object history := by
  -- Along the run: what was seen so far is seen of a run of the atomic object.
  have follows : ∀ record event after,
      Inv record.1 ∧ (mapping record.1).Reached apply init record.2 →
      recording step observe record event = some after →
      Inv after.1 ∧ (mapping after.1).Reached apply init after.2 := by
    intro record event after ⟨holds, moves, went⟩ recorded
    obtain ⟨stepped, added⟩ := recording_some recorded
    obtain ⟨more, goesOn⟩ := mapped record.1 event after.1 holds stepped
    refine ⟨kept record.1 event after.1 holds stepped, moves ++ more, ?_⟩
    rw [replay_append went, goesOn, added]
  -- At first nothing has been seen.
  have first : (mapping state).Reached apply init [] := ⟨[], by rw [← starts]; rfl⟩
  exact (replay_invariant follows ⟨holds, first⟩ ran).2.linearizable

end

end Linearizable

end Nachos
