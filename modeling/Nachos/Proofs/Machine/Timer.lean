import Nachos.Machine.Timer
import Nachos.Proofs.Machine.Interrupt

/-!
The timer never stops: one interrupt of it is always pending, and so the machine never halts.

All of this is about runs whose ticks stay within the range of `int`.
-/

namespace Nachos

/-- The pending interrupts of the timer. -/
def Interrupt.timerPending (sys : Interrupt) : List PendingInterrupt :=
  sys.pending.filter fun next => next.type = .timerInt

/-- The interrupts of the timer that were called so far, in order. -/
def Interrupt.timerCalls (sys : Interrupt) : List (PendingInterrupt × Int) :=
  sys.fired.filter fun call => call.1.type = .timerInt

/-- An interrupt is due one delay after the call in which it was scheduled. -/
def Timer.Spaced (timer : Timer) (called due : Int) : Prop :=
  called + timer.shortest ≤ due ∧ due ≤ called + timer.longest

/-- What the timer keeps at all times, but for the middle of its own handler. -/
structure Timer.Drives (timer : Timer) (sys : Interrupt) : Prop where
  -- Each interrupt was scheduled in the call of the one before it, the first one at time zero.
  armed : ∃ next, sys.timerPending = [next] ∧
    List.Forall₂ timer.Spaced (0 :: sys.timerCalls.map Prod.snd)
      ((sys.timerCalls.map fun call => call.1.when) ++ [next.when])
  prompt : ∀ call ∈ sys.fired, call.2 < call.1.when + systemTick
  recent : ∀ next ∈ sys.pending, sys.stats.totalTicks < next.when + systemTick
  running : sys.halted = false
  elapsed : 0 ≤ sys.stats.totalTicks

section

variable {Item : Type} {compare : Item → Item → Int} {item : Item} {list : List Item}
  {keep : Item → Bool}

/-- An item that is filtered out may be inserted anywhere. -/
theorem filter_insertWalk (dropped : keep item = false) :
    (insertWalk compare item list).filter keep = list.filter keep := by
  induction list with
  | nil => simp [insertWalk, dropped]
  | cons first rest ih =>
    unfold insertWalk
    split
    · simp [dropped]
    · rw [List.filter_cons, List.filter_cons, ih]

/-- An item that is kept among others that are not is what is left. -/
theorem filter_insertWalk_only (kept : keep item = true) (others : list.filter keep = []) :
    (insertWalk compare item list).filter keep = [item] := by
  have rearranged := (insertWalk_perm compare item list).filter keep
  rw [List.filter_cons_of_pos kept, others] at rearranged
  exact List.perm_singleton.mp rearranged

end

variable {timer : Timer} {sys next : Interrupt}

/-- What `Schedule` does. -/
theorem Interrupt.schedule_some {request : Request} (scheduled : sys.schedule request = some next) :
    ∃ toOccur : PendingInterrupt, toOccur.type = request.type ∧
      toOccur.when = sys.stats.totalTicks + request.fromNow ∧
      next = { sys with
        pending := insertWalk pendingCompare toOccur sys.pending
        scheduled := sys.scheduled + 1 } := by
  simp only [schedule, sortedInsert, Option.bind_eq_bind, Option.bind_eq_some_iff,
    Option.ite_none_left_eq_some, Option.some.injEq] at scheduled
  obtain ⟨pending, ⟨-, rfl⟩, result⟩ := scheduled
  exact ⟨_, rfl, rfl, (Option.some.inj result).symm⟩

/-- A new interrupt lies in the future, and the others stay where they are. -/
theorem Timer.recent_insert {toOccur : PendingInterrupt} {pending : List PendingInterrupt}
    {totalTicks : Int} (recent : ∀ next ∈ pending, totalTicks < next.when + systemTick)
    (future : totalTicks < toOccur.when) :
    ∀ next ∈ insertWalk pendingCompare toOccur pending, totalTicks < next.when + systemTick := by
  intro next member
  rcases mem_insertWalk.mp member with same | before
  · rw [same]
    unfold systemTick
    omega
  · exact recent next before

/-- What another device asks for does not concern the timer. -/
theorem Timer.Drives.device (drives : timer.Drives sys) (request : DeviceRequest)
    (scheduled : sys.schedule request.1 = some next) : timer.Drives next := by
  obtain ⟨toOccur, type, time, rfl⟩ := Interrupt.schedule_some scheduled
  -- The request is not the timer's own.
  have other : decide (toOccur.type = .timerInt) = false := by
    rw [type]
    exact decide_eq_false request.2
  obtain ⟨armed, only, spaced⟩ := drives.armed
  refine ⟨⟨armed, ?_, spaced⟩, drives.prompt, Timer.recent_insert drives.recent ?_,
    drives.running, drives.elapsed⟩
  · -- So what is pending for the timer is as it was.
    rw [← only]
    exact filter_insertWalk other
  · -- What is new lies in the future.
    have future := request.1.future
    change sys.stats.totalTicks < toOccur.when
    omega

/-- What other devices ask for, one after the other, does not concern the timer. -/
theorem Timer.Drives.devices (requests : List DeviceRequest) :
    ∀ {sys next : Interrupt}, timer.Drives sys →
      (requests.map Subtype.val).foldlM Interrupt.schedule sys = some next → timer.Drives next := by
  induction requests with
  | nil =>
    intro sys next drives scheduled
    cases scheduled
    exact drives
  | cons request rest ih =>
    intro sys next drives scheduled
    rw [List.map_cons, List.foldlM_cons] at scheduled
    obtain ⟨middle, first, later⟩ := Option.bind_eq_some_iff.mp scheduled
    exact ih (drives.device request first) later

/-- A list of related pairs can be continued by one more. -/
theorem forall₂_snoc {First Second : Type} {related : First → Second → Prop} {front : List First}
    {back : List Second} {first : First} {second : Second} (all : List.Forall₂ related front back)
    (last : related first second) : List.Forall₂ related (front ++ [first]) (back ++ [second]) := by
  induction all with
  | nil => exact .cons last .nil
  | cons head tail ih => exact .cons head ih

/-- The call of the handler of a due interrupt leaves one interrupt of the timer pending. -/
theorem Timer.Drives.callBack (drives : timer.Drives sys) (enabled : timer.disable = false)
    (handlers : Handlers) {front : PendingInterrupt} {rest : List PendingInterrupt}
    (pending : sys.pending = front :: rest)
    (called : ({ sys with pending := rest } : Interrupt).callBack (timer.response handlers) front =
      some next) : timer.Drives next := by
  obtain ⟨armed, only, spaced⟩ := drives.armed
  -- The call that is made now is on time, like those before it.
  have prompt : ∀ call ∈ sys.fired ++ [(front, sys.stats.totalTicks)],
      call.2 < call.1.when + systemTick := by
    intro call member
    rcases List.mem_append.mp member with before | last
    · exact drives.prompt call before
    · rw [List.mem_singleton.mp last]
      exact drives.recent front (by rw [pending]; exact List.mem_cons_self)
  -- What is left is as recent as it was.
  have recent : ∀ next ∈ rest, sys.stats.totalTicks < next.when + systemTick :=
    fun next member => drives.recent next (by rw [pending]; exact List.mem_cons_of_mem front member)
  unfold Interrupt.timerPending at only
  rw [pending] at only
  unfold Interrupt.callBack Timer.response at called
  by_cases ours : front.type = .timerInt
  · -- The timer was off the list, and goes back on it with a new delay.
    rw [List.filter_cons_of_pos (by simpa using ours)] at only
    obtain ⟨rfl, none⟩ := List.cons.inj only
    rw [if_pos ours] at called
    simp only [Timer.callBack, alarmCallBack, setInterrupt, enabled, Bool.false_eq_true, if_false,
      List.nil_append, List.foldlM_cons, List.foldlM_nil, bind_pure] at called
    obtain ⟨toOccur, type, time, rfl⟩ := Interrupt.schedule_some called
    -- The delay is within its bounds.
    have delay := timer.delay_bounds (handlers.randomNumber front)
    have calls : Interrupt.timerCalls { sys with
        pending := insertWalk pendingCompare toOccur rest
        fired := sys.fired ++ [(front, sys.stats.totalTicks)]
        scheduled := sys.scheduled + 1 } = sys.timerCalls ++ [(front, sys.stats.totalTicks)] := by
      simp [Interrupt.timerCalls, List.filter_append, ours]
    refine ⟨⟨toOccur, filter_insertWalk_only (by simpa using type) none, ?_⟩, prompt,
      Timer.recent_insert recent ?_, drives.running, drives.elapsed⟩
    · -- The next interrupt is spaced from the call that was made.
      rw [calls, List.map_append, List.map_append]
      refine forall₂_snoc spaced ?_
      dsimp only at time
      exact ⟨by omega, by omega⟩
    · -- It lies in the future.
      have positive := timer.shortest_pos
      change sys.stats.totalTicks < toOccur.when
      dsimp only at time
      omega
  · -- The interrupt is that of another device, whose handler may ask for more.
    rw [List.filter_cons_of_neg (by simpa using ours)] at only
    rw [if_neg ours] at called
    have calls : Interrupt.timerCalls { sys with
        pending := rest
        fired := sys.fired ++ [(front, sys.stats.totalTicks)] } = sys.timerCalls := by
      simp [Interrupt.timerCalls, List.filter_append, ours]
    have recorded : timer.Drives { sys with
        pending := rest
        fired := sys.fired ++ [(front, sys.stats.totalTicks)] } :=
      ⟨⟨armed, only, by rw [calls]; exact spaced⟩, prompt, recent, drives.running,
        drives.elapsed⟩
    exact recorded.devices (handlers.devices front) called

/-- The loop that calls what is due leaves one interrupt of the timer pending. -/
theorem Timer.Drives.drain (enabled : timer.disable = false) (handlers : Handlers) (turns : Nat) :
    ∀ {sys next : Interrupt}, timer.Drives sys →
      Interrupt.drain (timer.response handlers) turns sys = some next → timer.Drives next := by
  -- By induction on the turns, each of which takes the front off the list and calls its handler.
  induction turns with
  | zero =>
    intro sys next _ drained
    cases drained
  | succ turns ih =>
    intro sys next drives drained
    cases pending : sys.pending with
    | nil => simp [Interrupt.drain, pending, removeFront] at drained
    | cons front rest =>
      simp only [Interrupt.drain, pending, removeFront, Option.bind_eq_bind, Option.bind_some,
        Option.bind_eq_some_iff] at drained
      obtain ⟨middle, called, drained⟩ := drained
      have drives := drives.callBack enabled handlers pending called
      split at drained
      · exact ih drives drained
      · cases drained
        exact drives

/-- Calling what is due leaves one interrupt of the timer pending. -/
theorem Timer.Drives.fire (drives : timer.Drives sys) (enabled : timer.disable = false)
    (handlers : Handlers) (fired : sys.fire (timer.response handlers) = some next) :
    timer.Drives next := by
  simp only [Interrupt.fire, Option.bind_eq_bind, Option.bind_eq_some_iff] at fired
  obtain ⟨middle, drained, result⟩ := fired
  have entered : timer.Drives { sys with inHandler := true } :=
    ⟨drives.armed, drives.prompt, drives.recent, drives.running, drives.elapsed⟩
  have drives := entered.drain enabled handlers _ drained
  cases result
  exact ⟨drives.armed, drives.prompt, drives.recent, drives.running, drives.elapsed⟩

/-- Going on to the front of the list skips nothing that is pending. -/
theorem Timer.Drives.skipTo (drives : timer.Drives sys) (timed : sys.Timed)
    {front : PendingInterrupt} {rest : List PendingInterrupt}
    (pending : sys.pending = front :: rest) (future : sys.stats.totalTicks < front.when) :
    timer.Drives (sys.skipTo front) := by
  -- The list is sorted, so nothing on it is due before the front.
  have sorted := (List.pairwise_append.mp timed.order).2.1
  rw [pending] at sorted
  refine ⟨drives.armed, drives.prompt, fun next member => ?_, drives.running,
    Int.le_of_lt (Int.lt_of_le_of_lt drives.elapsed future)⟩
  change front.when < next.when + systemTick
  unfold systemTick
  rw [show (sys.skipTo front).pending = front :: rest from pending] at member
  rcases List.mem_cons.mp member with same | later
  · rw [same]
    omega
  · -- What comes later is not due earlier.
    have order := (List.pairwise_cons.mp sorted).1 next later
    unfold PendingInterrupt.Earlier at order
    omega

/-- `CheckIfDue` fires something when the clock may advance, since the timer is pending. -/
theorem Timer.Drives.checkIfDue (drives : timer.Drives sys) (timed : sys.Timed)
    (enabled : timer.disable = false) (handlers : Handlers) {advanceClock fired : Bool}
    (checked : sys.checkIfDue advanceClock (timer.response handlers) = some (next, fired)) :
    timer.Drives next ∧ (advanceClock = true → fired = true) := by
  unfold Interrupt.checkIfDue at checked
  split at checked
  · -- The list is not empty, as the timer is on it.
    cases pending : sys.pending with
    | nil =>
      obtain ⟨armed, only, -⟩ := drives.armed
      rw [Interrupt.timerPending, pending] at only
      cases only
    | cons front rest =>
      simp only [pending] at checked
      -- The front lies in the future, or it is due.
      split at checked
      · rename_i future
        -- The clock may advance to the front, or nothing is done.
        split at checked
        · obtain ⟨after, went, result⟩ := Option.map_eq_some_iff.mp checked
          cases result
          exact ⟨(drives.skipTo timed pending future).fire enabled handlers went, fun _ => rfl⟩
        · rename_i stays
          cases checked
          exact ⟨drives, fun advances => absurd advances stays⟩
      · -- It is due, and its handler is called.
        obtain ⟨after, went, result⟩ := Option.map_eq_some_iff.mp checked
        cases result
        exact ⟨drives.fire enabled handlers went, fun _ => rfl⟩
  · cases checked

/-- A tick passes no pending interrupt by more than the tick. -/
theorem Timer.Drives.oneTick (drives : timer.Drives sys) (inv : sys.Invariant)
    (enabled : timer.disable = false) (handlers : Handlers)
    (ticked : sys.oneTick (timer.response handlers) = some next) : timer.Drives next := by
  obtain ⟨timed, ahead⟩ := inv
  simp only [Interrupt.oneTick, Option.bind_eq_bind, Option.bind_eq_some_iff] at ticked
  obtain ⟨⟨middle, fired⟩, checked, result⟩ := ticked
  -- The clock has passed what is pending by less than a tick.
  have advanced : timer.Drives { sys.advance with level := .intOff } := by
    unfold Interrupt.advance
    split
    · -- A tick of the kernel.
      refine ⟨drives.armed, drives.prompt, fun next member => ?_, drives.running,
        Int.add_nonneg drives.elapsed (by decide)⟩
      have before := ahead next member
      change sys.stats.totalTicks + systemTick < next.when + systemTick
      omega
    · -- A tick of the user program, which is shorter.
      refine ⟨drives.armed, drives.prompt, fun next member => ?_, drives.running,
        Int.add_nonneg drives.elapsed (by decide)⟩
      have before := ahead next member
      change sys.stats.totalTicks + userTick < next.when + systemTick
      unfold userTick systemTick
      omega
  -- The list is in order, and the calls were on time.
  have ticking : ({ sys.advance with level := .intOff } : Interrupt).Timed := by
    have onTime := timed.onTime
    have total := timed.total
    unfold Interrupt.advance
    split
    · refine ⟨timed.order, timed.numbered, fun call member => ?_, ?_⟩
      · have before := onTime call member
        exact ⟨before.1, by dsimp only [systemTick]; omega⟩
      · dsimp only [systemTick]
        omega
    · refine ⟨timed.order, timed.numbered, fun call member => ?_, ?_⟩
      · have before := onTime call member
        exact ⟨before.1, by dsimp only [userTick]; omega⟩
      · dsimp only [userTick]
        omega
  -- What is due by now is called.
  have drives := (advanced.checkIfDue ticking enabled handlers checked).1
  cases result
  exact ⟨drives.armed, drives.prompt, drives.recent, drives.running, drives.elapsed⟩

/-- A call with the timer at work is one of the hardware, and ends in the range of `int`. -/
theorem Timer.step_eq_some {event : ClockEvent} :
    timer.step sys event = some next ↔
      sys.step (event.call timer) = some next ∧ next.InRange := by
  simp [Timer.step]

/-- Every call leaves one interrupt of the timer pending, and the machine running. -/
theorem Timer.drives_step {event : ClockEvent} (enabled : timer.disable = false)
    (drives : timer.Drives sys) (inv : sys.Invariant)
    (stepped : sys.step (event.call timer) = some next) : timer.Drives next := by
  simp only [Interrupt.step, drives.running, Bool.false_eq_true, if_false] at stepped
  cases event with
  -- A request of another device.
  | schedule request => exact drives.device request stepped
  -- Setting the level makes a tick if interrupts are turned on by it.
  | setLevel now handlers =>
    dsimp only [ClockEvent.call, Interrupt.setLevel] at stepped
    split at stepped
    · cases stepped
    · have changed : timer.Drives { sys with level := now } :=
        ⟨drives.armed, drives.prompt, drives.recent, drives.running, drives.elapsed⟩
      split at stepped
      · exact changed.oneTick ⟨⟨inv.1.order, inv.1.numbered, inv.1.onTime, inv.1.total⟩, inv.2⟩
          enabled handlers stepped
      · cases stepped
        exact changed
  -- A tick of its own.
  | oneTick handlers => exact drives.oneTick inv enabled handlers stepped
  -- The machine idles until the next interrupt.
  | idle handlers =>
    simp only [ClockEvent.call, Interrupt.idle, Option.bind_eq_bind, Option.bind_eq_some_iff]
      at stepped
    obtain ⟨⟨middle, fired⟩, checked, result⟩ := stepped
    have idling : timer.Drives { sys with status := .idleMode } :=
      ⟨drives.armed, drives.prompt, drives.recent, drives.running, drives.elapsed⟩
    obtain ⟨drives, fires⟩ := idling.checkIfDue
      ⟨inv.1.order, inv.1.numbered, inv.1.onTime, inv.1.total⟩ enabled handlers checked
    -- Something was pending, so that the machine goes on.
    rw [fires rfl] at result
    cases result
    exact ⟨drives.armed, drives.prompt, drives.recent, drives.running, drives.elapsed⟩
  -- Setting the status touches neither the clock nor the list.
  | setStatus status =>
    cases stepped
    exact ⟨drives.armed, drives.prompt, drives.recent, rfl, drives.elapsed⟩

/-- The timer is started with one interrupt pending. -/
theorem Timer.drives_start {randomNumber : Nat} (enabled : timer.disable = false)
    (started : timer.start randomNumber = some sys) : timer.Drives sys ∧ sys.Invariant := by
  simp only [start, setInterrupt, enabled, Bool.false_eq_true, if_false, List.foldlM_cons,
    List.foldlM_nil, bind_pure] at started
  have stepped : Interrupt.new.step (.schedule _) = some sys := started
  -- The first interrupt is scheduled like any other.
  have inv : sys.Invariant := Interrupt.invariant_step Interrupt.invariant_new stepped
  obtain ⟨toOccur, type, time, rfl⟩ := Interrupt.schedule_some started
  have delay := timer.delay_bounds randomNumber
  have positive := timer.shortest_pos
  -- It is due one delay from the start.
  change toOccur.when = 0 + timer.delay randomNumber at time
  refine ⟨⟨⟨toOccur, ?_, .cons ⟨by omega, by omega⟩ .nil⟩, by simp [Interrupt.new], ?_, rfl,
    Int.le_refl 0⟩, inv⟩
  · -- It is the only one.
    simp [Interrupt.timerPending, Interrupt.new, insertWalk, type]
  · -- It is in the future.
    refine Timer.recent_insert (by simp [Interrupt.new]) ?_
    change 0 < toOccur.when
    omega

/-- Whatever the kernel and the devices do, the timer goes on while the ticks are in range. -/
theorem Timer.drives_run {start : Interrupt} {randomNumber : Nat} {events : List ClockEvent}
    (enabled : timer.disable = false) (started : timer.start randomNumber = some start)
    (reached : replay timer.step start events = some sys) : timer.Drives sys ∧ sys.Invariant := by
  have kept : ∀ sys event next, timer.Drives sys ∧ sys.Invariant →
      timer.step sys event = some next → timer.Drives next ∧ next.Invariant :=
    fun sys event next holds stepped =>
      have called := (Timer.step_eq_some.mp stepped).1
      ⟨Timer.drives_step enabled holds.1 holds.2 called, Interrupt.invariant_step holds.2 called⟩
  exact replay_invariant kept (Timer.drives_start enabled started) reached

/-- Interrupts that are due one delay after another and are called on time spread their calls. -/
theorem Timer.spread {now : Int} (calls : List (PendingInterrupt × Int)) :
    ∀ {before due : Int}, List.Forall₂ timer.Spaced (before :: calls.map Prod.snd)
        ((calls.map fun call => call.1.when) ++ [due]) →
      (∀ call ∈ calls, call.1.when ≤ call.2 ∧ call.2 < call.1.when + systemTick ∧ call.2 ≤ now) →
      before ≤ now →
      before + calls.length * timer.shortest ≤ now ∧
      due ≤ before + calls.length * (timer.longest + (systemTick - 1)) + timer.longest := by
  -- The time goes from one call to the next.
  induction calls with
  -- There is only the interrupt that is due.
  | nil =>
    intro before due spaced _ reached
    cases spaced with
    | cons one _ => exact ⟨by simpa using reached, by simpa using one.2⟩
  -- The first call was late by less than a tick.
  | cons call rest ih =>
    intro before due spaced onTime _
    cases spaced with
    | cons first later =>
      obtain ⟨due, late, past⟩ := onTime call List.mem_cons_self
      obtain ⟨low, high⟩ := ih later (fun other member =>
        onTime other (List.mem_cons_of_mem call member)) past
      unfold Timer.Spaced at first
      dsimp only at first
      -- Each call adds one delay and one lateness to the bounds.
      rw [List.length_cons, Int.natCast_succ, Int.add_mul, Int.one_mul, Int.add_mul, Int.one_mul]
      constructor <;> omega

/--
The timer goes on in every run of the machine whose ticks stay within the range of `int`.

One interrupt of the timer is pending at any time between the calls; each one is due one delay after
the call of the one before; every interrupt is called less than a system tick after it is due; and
an idle processor always finds an interrupt, so that `Idle` does not come to its `Halt` unless the
ticks leave the range.
-/
theorem timer_goesOn (number : Nat) (doRandom : Bool) (randomNumber : Nat)
    (start sys : Interrupt) (events : List ClockEvent)
    (started : (Timer.new number doRandom).start randomNumber = some start)
    (reached : replay (Timer.new number doRandom).step start events = some sys) :
    sys.halted = false ∧
    (∀ call ∈ sys.fired, call.1.when ≤ call.2 ∧ call.2 < call.1.when + systemTick) ∧
    (∃ next, sys.timerPending = [next] ∧ sys.stats.totalTicks < next.when ∧
      List.Forall₂ (Timer.new number doRandom).Spaced (0 :: sys.timerCalls.map Prod.snd)
        ((sys.timerCalls.map fun call => call.1.when) ++ [next.when])) ∧
    (sys.level = .intOff → ∀ handlers, ∃ next,
      sys.step ((ClockEvent.idle handlers).call (Timer.new number doRandom)) = some next ∧
      (next.InRange → (Timer.new number doRandom).step sys (.idle handlers) = some next ∧
        next.halted = false)) := by
  obtain ⟨drives, inv⟩ := Timer.drives_run rfl started reached
  refine ⟨drives.running, fun call member => ⟨(inv.1.onTime call member).1,
    drives.prompt call member⟩, ?_, fun off handlers => ?_⟩
  · -- The next interrupt is on the list, and is not overdue.
    obtain ⟨next, only, spaced⟩ := drives.armed
    have member : next ∈ sys.timerPending := by
      rw [only]
      exact List.mem_singleton_self next
    exact ⟨next, only, inv.2 next (List.mem_filter.mp member).1, spaced⟩
  · -- The machine can idle until then, and goes on to run.
    obtain ⟨next, idled, -⟩ := inv.1.idle off ((Timer.new number doRandom).response handlers)
    have stepped : sys.step ((ClockEvent.idle handlers).call (Timer.new number doRandom)) =
        some next := by
      simpa [Interrupt.step, drives.running, ClockEvent.call] using idled
    exact ⟨next, stepped, fun inRange => ⟨Timer.step_eq_some.mpr ⟨stepped, inRange⟩,
      (Timer.drives_step rfl drives inv stepped).running⟩⟩

/-- The processor idles through two fixed delays of the timer, with a disk interrupt in between. -/
def idling : List ClockEvent :=
  [.schedule ⟨⟨7, 150, .diskInt, by decide⟩, by decide⟩, .idle ⟨fun _ => 0, fun _ => []⟩,
    .idle ⟨fun _ => 0, fun _ => []⟩, .idle ⟨fun _ => 0, fun _ => []⟩]

/-- The timer is called at 100 and at 200 then. -/
theorem idling_reached : ∃ start sys, (Timer.new 3 false).start 0 = some start ∧
    replay (Timer.new 3 false).step start idling = some sys ∧
    sys.timerCalls.map Prod.snd = [100, 200] := by
  have calls : (((Timer.new 3 false).start 0).bind fun start =>
      replay (Timer.new 3 false).step start idling).map
        (fun sys => sys.timerCalls.map Prod.snd) = some [100, 200] := by decide +kernel
  obtain ⟨sys, reached, calls⟩ := Option.map_eq_some_iff.mp calls
  obtain ⟨start, started, reached⟩ := Option.bind_eq_some_iff.mp reached
  exact ⟨start, sys, started, reached, calls⟩

/-- The timer was called at 100 and at 200, and goes on. -/
theorem timer_goesOn_idling :
    ∃ start sys, (Timer.new 3 false).start 0 = some start ∧
      replay (Timer.new 3 false).step start idling = some sys ∧
      sys.timerCalls.map Prod.snd = [100, 200] ∧ sys.halted = false := by
  obtain ⟨start, sys, started, reached, calls⟩ := idling_reached
  exact ⟨start, sys, started, reached, calls,
    (timer_goesOn 3 false 0 start sys idling started reached).1⟩

/--
The timer measures simulated time: between two of its calls there is a delay, and little more.

In a run whose ticks stay within the range of `int`, after so many calls the clock has gone on by at
least as many of the shortest delays, and by less than as many of the longest ones, each late by
less than a system tick, and the one under way.
-/
theorem timer_measuresTime (number : Nat) (doRandom : Bool) (randomNumber : Nat)
    (start sys : Interrupt) (events : List ClockEvent)
    (started : (Timer.new number doRandom).start randomNumber = some start)
    (reached : replay (Timer.new number doRandom).step start events = some sys) :
    sys.timerCalls.length * (if doRandom then 1 else 100) ≤ sys.stats.totalTicks ∧
    sys.stats.totalTicks <
      sys.timerCalls.length * (if doRandom then 209 else 109) +
        (if doRandom then 200 else 100) := by
  obtain ⟨drives, inv⟩ := Timer.drives_run rfl started reached
  -- Every call of the timer was on time and on or before now.
  have onTime : ∀ call ∈ sys.timerCalls, call.1.when ≤ call.2 ∧
      call.2 < call.1.when + systemTick ∧ call.2 ≤ sys.stats.totalTicks := fun call member =>
    have member := (List.mem_filter.mp member).1
    ⟨(inv.1.onTime call member).1, drives.prompt call member, (inv.1.onTime call member).2⟩
  obtain ⟨next, only, spaced⟩ := drives.armed
  have member : next ∈ sys.timerPending := by
    rw [only]
    exact List.mem_singleton_self next
  -- The next one is still ahead of the clock.
  have ahead := inv.2 next (List.mem_filter.mp member).1
  have start : 0 ≤ sys.stats.totalTicks := drives.elapsed
  -- The calls are spread between the two bounds.
  obtain ⟨low, high⟩ := Timer.spread sys.timerCalls spaced onTime start
  have shortest : (Timer.new number doRandom).shortest = if doRandom then 1 else 100 := rfl
  have longest : (Timer.new number doRandom).longest = if doRandom then 200 else 100 := by
    cases doRandom <;> rfl
  rw [shortest] at low
  rw [longest] at high
  unfold systemTick at high
  -- The bounds are those of the delay, which is fixed or random.
  cases doRandom with
  | true =>
    simp only [if_true] at low high ⊢
    exact ⟨by omega, by omega⟩
  | false =>
    simp only [Bool.false_eq_true, if_false] at low high ⊢
    exact ⟨by omega, by omega⟩

/-- After two calls of the timer the clock is between 200 and 317. -/
theorem timer_measuresTime_idling :
    ∃ start sys, (Timer.new 3 false).start 0 = some start ∧
      replay (Timer.new 3 false).step start idling = some sys ∧
      sys.timerCalls.map Prod.snd = [100, 200] ∧
      200 ≤ sys.stats.totalTicks ∧ sys.stats.totalTicks < 318 := by
  obtain ⟨start, sys, started, reached, calls⟩ := idling_reached
  have twice : sys.timerCalls.length = 2 := by
    rw [← List.length_map Prod.snd, calls]
    rfl
  have time := timer_measuresTime 3 false 0 start sys idling started reached
  rw [twice] at time
  exact ⟨start, sys, started, reached, calls, time.1, time.2⟩

end Nachos
