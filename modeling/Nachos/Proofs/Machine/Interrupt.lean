import Nachos.Machine.Interrupt
import Nachos.Proofs.Lib.List

/-! Simulated interrupts fire once, in order and on time. -/

namespace Nachos

/-- One interrupt is to fire before another: by time, and by the order of scheduling at one time. -/
def PendingInterrupt.Earlier (first second : PendingInterrupt) : Prop :=
  first.when < second.when ∨ (first.when = second.when ∧ first.object < second.object)

/-- Earlier than the earlier is earlier. -/
theorem PendingInterrupt.Earlier.trans {first second third : PendingInterrupt}
    (one : first.Earlier second) (two : second.Earlier third) : first.Earlier third := by
  unfold Earlier at *
  omega

/-- The interrupts called so far, in order, and then the pending ones. -/
def Interrupt.timeline (sys : Interrupt) : List PendingInterrupt :=
  sys.fired.map Prod.fst ++ sys.pending

/-- What holds at all times, also between the handlers of one loop. -/
structure Interrupt.Timed (sys : Interrupt) : Prop where
  order : sys.timeline.Pairwise PendingInterrupt.Earlier
  numbered : ∀ interrupt ∈ sys.timeline, interrupt.object < sys.scheduled
  onTime : ∀ call ∈ sys.fired, call.1.when ≤ call.2 ∧ call.2 ≤ sys.stats.totalTicks
  total : sys.stats.totalTicks =
    sys.stats.idleTicks + sys.stats.systemTicks + sys.stats.userTicks

/-- Every pending interrupt lies in the future. -/
def Interrupt.Ahead (sys : Interrupt) : Prop :=
  ∀ interrupt ∈ sys.pending, sys.stats.totalTicks < interrupt.when

/-- How many pending interrupts are due. -/
def Interrupt.numDue (sys : Interrupt) : Nat :=
  sys.pending.countP fun interrupt => interrupt.when ≤ sys.stats.totalTicks

/-- The handlers have only scheduled interrupts, and none that is due. -/
structure Interrupt.Extends (sys next : Interrupt) : Prop where
  fields : next = { sys with pending := next.pending, scheduled := next.scheduled }
  numDue : next.numDue = sys.numDue

variable {sys next : Interrupt}

/-- Scheduling nothing extends. -/
theorem Interrupt.Extends.refl (sys : Interrupt) : sys.Extends sys := ⟨rfl, rfl⟩

/-- Scheduling goes on from what was scheduled. -/
theorem Interrupt.Extends.trans {middle : Interrupt} (one : sys.Extends middle)
    (two : middle.Extends next) : sys.Extends next := by
  refine ⟨?_, two.numDue.trans one.numDue⟩
  rw [two.fields, one.fields]

/-- `Schedule` puts a new interrupt at its place, and never fails. -/
theorem Interrupt.Timed.schedule (timed : sys.Timed) (request : Request) :
    ∃ next, sys.schedule request = some next ∧ next.Timed ∧ sys.Extends next := by
  -- The interrupt is new, and lies in the future.
  have future := request.future
  have fresh : ∀ interrupt ∈ sys.pending, interrupt.object < sys.scheduled :=
    fun interrupt member => timed.numbered interrupt (List.mem_append_right _ member)
  obtain ⟨fired, pending, across⟩ := List.pairwise_append.mp timed.order
  -- It has the next number, and the time that is asked for.
  generalize new : ({ object := sys.scheduled
                      callOnInterrupt := request.toCall
                      «when» := sys.stats.totalTicks + request.fromNow
                      type := request.type } : PendingInterrupt) = toOccur
  have object : toOccur.object = sys.scheduled := by rw [← new]
  have time : toOccur.when = sys.stats.totalTicks + request.fromNow := by rw [← new]
  -- So it is not on the list yet.
  have absent : toOccur ∉ sys.pending := fun member => by
    have := fresh toOccur member
    omega
  -- The walk puts it where the order wants it.
  have placed : (insertWalk pendingCompare toOccur sys.pending).Pairwise
      PendingInterrupt.Earlier := by
    refine insertWalk_pairwise PendingInterrupt.Earlier.trans (fun other member smaller => ?_)
      (fun other member greater => ?_) pending
    · -- What compares as smaller is due earlier, or was there before.
      unfold pendingCompare at smaller
      unfold PendingInterrupt.Earlier
      split at smaller
      · omega
      · split at smaller <;> omega
    · -- Among equal times the new interrupt comes last.
      have := fresh other member
      unfold pendingCompare at greater
      unfold PendingInterrupt.Earlier
      split at greater
      · omega
      · omega
  refine ⟨{ sys with
    pending := insertWalk pendingCompare toOccur sys.pending
    scheduled := sys.scheduled + 1 }, ?_, ⟨?_, ?_, timed.onTime, timed.total⟩, ⟨rfl, ?_⟩⟩
  · -- The assertion of the list holds, as the interrupt is not on it.
    simp only [Interrupt.schedule, new, sortedInsert, if_neg absent]
    rfl
  · -- What has been called comes before what is pending.
    refine List.pairwise_append.mpr ⟨fired, placed, fun before member other inserted => ?_⟩
    rcases mem_insertWalk.mp inserted with same | older
    · -- What has been called was due by now.
      obtain ⟨call, called, rfl⟩ := List.mem_map.mp member
      have := timed.onTime call called
      exact .inl (by rw [same, time]; omega)
    · exact across before member other older
  · -- The numbers are below the next one.
    intro interrupt member
    rcases List.mem_append.mp member with called | inserted
    · have := timed.numbered interrupt (List.mem_append_left _ called)
      dsimp only
      omega
    · dsimp only
      rcases mem_insertWalk.mp inserted with same | older
      · rw [same, object]
        omega
      · have := fresh interrupt older
        omega
  · -- Nothing more is due, since the new one lies in the future.
    unfold numDue
    rw [(insertWalk_perm _ _ _).countP_eq, List.countP_cons_of_neg]
    simp only [time, decide_eq_true_eq]
    omega

/-- A handler may schedule as many interrupts as it likes. -/
theorem Interrupt.Timed.scheduleAll (requests : List Request) :
    ∀ {sys : Interrupt}, sys.Timed →
      ∃ next, requests.foldlM Interrupt.schedule sys = some next ∧ next.Timed ∧
        sys.Extends next := by
  induction requests with
  | nil => exact fun {sys} timed => ⟨sys, rfl, timed, .refl sys⟩
  | cons request rest ih =>
    intro sys timed
    obtain ⟨middle, scheduled, timed, grows⟩ := timed.schedule request
    obtain ⟨next, all, timed, extended⟩ := ih timed
    refine ⟨next, ?_, timed, grows.trans extended⟩
    rw [List.foldlM_cons, scheduled]
    exact all

/-- The front of the list is due exactly if anything is. -/
theorem Interrupt.Timed.ahead (timed : sys.Timed) (rest : sys.isDue = false) : sys.Ahead := by
  -- The list is sorted by time.
  have sorted := (List.pairwise_append.mp timed.order).2.1
  intro interrupt member
  unfold isDue at rest
  cases pending : sys.pending with
  | nil => simp [pending] at member
  -- If the front is not due, nothing behind it is.
  | cons front others =>
    rw [pending] at rest sorted member
    have future : sys.stats.totalTicks < front.when := by simpa using rest
    rcases List.mem_cons.mp member with same | later
    · rw [same]
      exact future
    · have := (List.pairwise_cons.mp sorted).1 interrupt later
      unfold PendingInterrupt.Earlier at this
      omega

/-- The handler of a due front is called: it is on record, and one interrupt less is due. -/
theorem Interrupt.Timed.callBack (timed : sys.Timed) (response : Response)
    {front : PendingInterrupt} {rest : List PendingInterrupt} (pending : sys.pending = front :: rest)
    (due : front.when ≤ sys.stats.totalTicks) :
    ∃ next, { sys with pending := rest }.callBack response front = some next ∧ next.Timed ∧
      next.numDue + 1 = sys.numDue ∧
      next = { sys with
        pending := next.pending, scheduled := next.scheduled, fired := next.fired } := by
  -- The call is recorded before the handler runs.
  have recorded : Timed { sys with
      pending := rest
      fired := sys.fired ++ [(front, sys.stats.totalTicks)] } := by
    -- The front leaves the list and becomes the last call, so the timeline stays.
    have same : ({ sys with
        pending := rest
        fired := sys.fired ++ [(front, sys.stats.totalTicks)] } : Interrupt).timeline =
          sys.timeline := by
      simp [timeline, pending]
    refine ⟨by rw [same]; exact timed.order, by rw [same]; exact timed.numbered, ?_, timed.total⟩
    intro call member
    rcases List.mem_append.mp member with before | new
    · -- The earlier calls were on time.
      exact timed.onTime call before
    · -- This one is due now.
      rw [List.mem_singleton.mp new]
      exact ⟨due, Int.le_refl _⟩
  -- The handler only adds interrupts of the future.
  obtain ⟨next, called, timed, extended⟩ := recorded.scheduleAll (response front)
  refine ⟨next, called, timed, ?_, ?_⟩
  · -- So one less is due than before.
    rw [extended.numDue]
    unfold numDue
    rw [pending, List.countP_cons_of_pos (by simpa using due)]
  · rw [extended.fields]

/-- The loop ends, and leaves nothing that is due. -/
theorem Interrupt.Timed.drain (response : Response) (turns : Nat) :
    ∀ {sys : Interrupt}, sys.Timed → sys.isDue = true → sys.numDue ≤ turns →
      ∃ next, Interrupt.drain response turns sys = some next ∧ next.Timed ∧ next.Ahead ∧
        next = { sys with
          pending := next.pending, scheduled := next.scheduled, fired := next.fired } := by
  -- Each turn takes one due interrupt off the list, and the handlers put none on it.
  induction turns with
  -- There are as many turns as interrupts are due, so that none is left here.
  | zero =>
    intro sys _ due enough
    exfalso
    unfold isDue at due
    unfold numDue at enough
    cases pending : sys.pending with
    | nil => simp [pending] at due
    | cons front rest =>
      rw [pending] at due enough
      rw [List.countP_cons_of_pos (by simpa using due)] at enough
      omega
  -- One turn: the front is called.
  | succ turns ih =>
    intro sys timed due enough
    cases pending : sys.pending with
    | nil => simp [isDue, pending] at due
    | cons front rest =>
      -- The front is due, as the loop would have ended.
      have now : front.when ≤ sys.stats.totalTicks := by simpa [isDue, pending] using due
      obtain ⟨middle, called, timed, fewer, fields⟩ := timed.callBack response pending now
      have turn : Interrupt.drain response (turns + 1) sys =
          if middle.isDue then Interrupt.drain response turns middle else some middle := by
        simp only [Interrupt.drain, pending, removeFront, Option.bind_eq_bind, Option.bind_some,
          called]
        rfl
      rw [turn]
      cases more : middle.isDue with
      -- More is due, and one turn less is needed.
      | true =>
        obtain ⟨next, drained, timed, ahead, frame⟩ := ih timed more (by omega)
        refine ⟨next, drained, timed, ahead, ?_⟩
        rw [frame, fields]
      | false => exact ⟨middle, rfl, timed, timed.ahead more, fields⟩

/-- Firing what is due ends, and leaves nothing that is due. -/
theorem Interrupt.Timed.fire (timed : sys.Timed) (response : Response) (due : sys.isDue = true) :
    ∃ next, sys.fire response = some next ∧ next.Timed ∧ next.Ahead ∧
      next.stats = sys.stats ∧ next.halted = sys.halted := by
  -- The list is at least as long as the number of what is due.
  have enough : ({ sys with inHandler := true } : Interrupt).numDue ≤ sys.pending.length :=
    List.countP_le_length
  -- Being in the handler has nothing to do with the times.
  have entered : ({ sys with inHandler := true } : Interrupt).Timed :=
    ⟨timed.order, timed.numbered, timed.onTime, timed.total⟩
  obtain ⟨next, drained, timed, ahead, frame⟩ := entered.drain response _ due enough
  refine ⟨{ next with inHandler := false }, ?_,
    ⟨timed.order, timed.numbered, timed.onTime, timed.total⟩, ahead, ?_, ?_⟩
  · -- The flag is cleared when the loop has ended.
    simp only [Interrupt.fire, drained, Option.bind_eq_bind, Option.bind_some]
    rfl
  · rw [frame]
  · rw [frame]

/-- Jumping to the front of the list takes idle time, and makes the front due. -/
theorem Interrupt.Timed.skipTo (timed : sys.Timed) {front : PendingInterrupt}
    (future : sys.stats.totalTicks < front.when) : (sys.skipTo front).Timed := by
  refine ⟨timed.order, timed.numbered, fun call member => ?_, ?_⟩
  · have := timed.onTime call member
    exact ⟨this.1, by simp only [Interrupt.skipTo]; omega⟩
  · have := timed.total
    simp only [Interrupt.skipTo]
    omega

/-- `CheckIfDue` ends, and leaves nothing that is due. -/
theorem Interrupt.Timed.checkIfDue (timed : sys.Timed) (off : sys.level = .intOff)
    (advanceClock : Bool) (response : Response) :
    ∃ next fired, sys.checkIfDue advanceClock response = some (next, fired) ∧ next.Timed ∧
      next.Ahead := by
  unfold Interrupt.checkIfDue
  rw [if_pos off]
  cases pending : sys.pending with
  -- Without pending interrupts there is nothing to do.
  | nil => exact ⟨sys, false, rfl, timed, by simp [Ahead, pending]⟩
  | cons front rest =>
    dsimp only
    split
    · -- The front lies in the future.
      rename_i future
      cases advanceClock with
      | true =>
        -- The clock goes to the front, which is due there.
        have due : (sys.skipTo front).isDue = true := by
          simp [isDue, Interrupt.skipTo, pending]
        obtain ⟨next, fired, timed, ahead, -⟩ := (timed.skipTo future).fire response due
        exact ⟨next, true, by simp [fired], timed, ahead⟩
      -- The clock stays, and so does everything else.
      | false =>
        exact ⟨sys, false, rfl, timed, timed.ahead (by simp [isDue, pending]; omega)⟩
    · -- The front is due.
      rename_i now
      have due : sys.isDue = true := by
        simp [isDue, pending]
        omega
      obtain ⟨next, fired, timed, ahead, -⟩ := timed.fire response due
      exact ⟨next, true, by simp [fired], timed, ahead⟩

/-- `OneTick` succeeds, and leaves nothing that is due. -/
theorem Interrupt.Timed.oneTick (timed : sys.Timed) (response : Response) :
    ∃ next, sys.oneTick response = some next ∧ next.Timed ∧ next.Ahead := by
  -- Time goes on first, by a tick of the system or of a user program.
  have later : ({ sys.advance with level := .intOff } : Interrupt).Timed := by
    have total := timed.total
    unfold Interrupt.advance systemTick userTick
    split
    · -- A tick of the system keeps what has been called in the past.
      refine ⟨timed.order, timed.numbered, fun call member => ?_, by dsimp only; omega⟩
      have := timed.onTime call member
      exact ⟨this.1, by dsimp only; omega⟩
    · -- A tick of the user does as well.
      refine ⟨timed.order, timed.numbered, fun call member => ?_, by dsimp only; omega⟩
      have := timed.onTime call member
      exact ⟨this.1, by dsimp only; omega⟩
  -- What is due by now is called.
  obtain ⟨next, fired, checked, timed, ahead⟩ := later.checkIfDue rfl false response
  refine ⟨{ next with level := .intOn }, ?_,
    ⟨timed.order, timed.numbered, timed.onTime, timed.total⟩, ahead⟩
  simp only [Interrupt.oneTick, checked, Option.bind_eq_bind, Option.bind_some]
  rfl

/-- `Idle` succeeds with interrupts off, and leaves nothing that is due. -/
theorem Interrupt.Timed.idle (timed : sys.Timed) (off : sys.level = .intOff)
    (response : Response) :
    ∃ next, sys.idle response = some next ∧ next.Timed ∧ next.Ahead := by
  -- Idling does not concern the times.
  have idling : ({ sys with status := .idleMode } : Interrupt).Timed :=
    ⟨timed.order, timed.numbered, timed.onTime, timed.total⟩
  obtain ⟨next, fired, checked, timed, ahead⟩ := idling.checkIfDue off true response
  have left : sys.idle response = if fired then some { next with status := .systemMode }
      else some { next with halted := true } := by
    simp only [Interrupt.idle, checked, Option.bind_eq_bind, Option.bind_some]
    rfl
  rw [left]
  -- An interrupt was called, and the machine goes on.
  cases fired with
  | true => exact ⟨_, rfl, ⟨timed.order, timed.numbered, timed.onTime, timed.total⟩, ahead⟩
  -- Nothing was pending, and the machine halts.
  | false => exact ⟨_, rfl, ⟨timed.order, timed.numbered, timed.onTime, timed.total⟩, ahead⟩

/-- What holds between the calls. -/
def Interrupt.Invariant (sys : Interrupt) : Prop := sys.Timed ∧ sys.Ahead

/-- At time zero nothing is pending. -/
theorem Interrupt.invariant_new : new.Invariant :=
  ⟨⟨.nil, by simp [timeline, new], by simp [new], rfl⟩, by simp [Ahead, new]⟩

/-- Scheduling puts nothing on the list that is due. -/
theorem Interrupt.Extends.ahead (grows : sys.Extends next) (ahead : sys.Ahead) : next.Ahead := by
  -- Nothing was due, so nothing is.
  have none : sys.numDue = 0 := by
    refine List.countP_eq_zero.mpr fun interrupt member => ?_
    have := ahead interrupt member
    simpa using this
  have still := grows.numDue.trans none
  intro interrupt member
  have := List.countP_eq_zero.mp still interrupt member
  simpa using this

/-- Every call keeps the invariant. -/
theorem Interrupt.invariant_step {event : InterruptEvent} (inv : sys.Invariant)
    (stepped : sys.step event = some next) : next.Invariant := by
  obtain ⟨timed, ahead⟩ := inv
  unfold step at stepped
  split at stepped
  · -- A machine that has halted makes no calls.
    cases stepped
  cases event with
  -- What is scheduled lies in the future, so nothing more is due.
  | schedule request =>
    obtain ⟨after, scheduled, timed, grows⟩ := timed.schedule request
    have same : next = after := Option.some.inj (stepped.symm.trans scheduled)
    rw [same]
    exact ⟨timed, grows.ahead ahead⟩
  | setLevel now response =>
    dsimp only [setLevel] at stepped
    split at stepped
    · cases stepped
    split at stepped
    · -- Interrupts come on, which takes a tick.
      have enabled : ({ sys with level := now } : Interrupt).Timed :=
        ⟨timed.order, timed.numbered, timed.onTime, timed.total⟩
      obtain ⟨after, ticked, timed, ahead⟩ := enabled.oneTick response
      have same : next = after := Option.some.inj (stepped.symm.trans ticked)
      rw [same]
      exact ⟨timed, ahead⟩
    · -- Otherwise only the level has changed.
      cases stepped
      exact ⟨⟨timed.order, timed.numbered, timed.onTime, timed.total⟩, ahead⟩
  -- A tick leaves nothing due.
  | oneTick response =>
    obtain ⟨after, ticked, timed, ahead⟩ := timed.oneTick response
    have same : next = after := Option.some.inj (stepped.symm.trans ticked)
    rw [same]
    exact ⟨timed, ahead⟩
  -- Idling asserts that interrupts are off.
  | idle response =>
    by_cases off : sys.level = .intOff
    · obtain ⟨after, idled, timed, ahead⟩ := timed.idle off response
      have same : next = after := Option.some.inj (stepped.symm.trans idled)
      rw [same]
      exact ⟨timed, ahead⟩
    · -- With interrupts on the assertion in CheckIfDue fails.
      simp [Interrupt.idle, Interrupt.checkIfDue, off] at stepped
  -- The status does not concern the times.
  | setStatus status =>
    cases stepped
    exact ⟨⟨timed.order, timed.numbered, timed.onTime, timed.total⟩, ahead⟩

/--
Simulated interrupts fire at most once, in order and on time, in every run.

The calls on record are strictly ordered by time and, at one time, by the order of scheduling; each
was made at its time or later; between the calls of the kernel nothing pending is due; and the loop
that fires what is due ends, whatever the handlers schedule.
-/
theorem interrupts_onTime (events : List InterruptEvent) (sys : Interrupt)
    (reached : replay Interrupt.step .new events = some sys) :
    (sys.fired.map Prod.fst).Nodup ∧
    (sys.fired.map Prod.fst).Pairwise PendingInterrupt.Earlier ∧
    (∀ call ∈ sys.fired, call.1.when ≤ call.2) ∧
    (∀ interrupt ∈ sys.pending, sys.stats.totalTicks < interrupt.when) ∧
    (∀ response, ∃ next, sys.oneTick response = some next) ∧
    (sys.level = .intOff → ∀ response, ∃ next, sys.idle response = some next) ∧
    sys.stats.totalTicks =
      sys.stats.idleTicks + sys.stats.systemTicks + sys.stats.userTicks := by
  obtain ⟨timed, ahead⟩ : sys.Invariant :=
    replay_invariant (fun _ _ _ => Interrupt.invariant_step) Interrupt.invariant_new reached
  -- The calls are the first part of the timeline, which is ordered.
  have order : (sys.fired.map Prod.fst).Pairwise PendingInterrupt.Earlier :=
    (List.pairwise_append.mp timed.order).1
  refine ⟨order.imp fun earlier same => ?_, order, fun call member => (timed.onTime call member).1,
    ahead, fun response => ?_, fun off response => ?_, timed.total⟩
  · -- Nothing fires before itself.
    subst same
    unfold PendingInterrupt.Earlier at earlier
    omega
  · -- The next tick goes through.
    obtain ⟨next, ticked, -⟩ := timed.oneTick response
    exact ⟨next, ticked⟩
  · -- So does idling with interrupts off.
    obtain ⟨next, idled, -⟩ := timed.idle off response
    exact ⟨next, idled⟩

/-- Two interrupts at one time, and a handler that asks for its interrupt again. -/
def rearmingEvents : List InterruptEvent :=
  [.schedule ⟨0, 20, .timerInt, by decide⟩, .schedule ⟨1, 20, .diskInt, by decide⟩,
    .idle fun next =>
      if next.callOnInterrupt = 0 then [⟨0, 20, .timerInt, by decide⟩] else []]

/-- Both are called in the order of scheduling, and the one that was asked for again is ahead. -/
theorem interrupts_onTime_rearming :
    ∃ sys, replay Interrupt.step .new rearmingEvents = some sys ∧
      sys.fired.map (fun call => (call.1.callOnInterrupt, call.2)) = [(0, 20), (1, 20)] ∧
      ∀ interrupt ∈ sys.pending, sys.stats.totalTicks < interrupt.when := by
  have calls : (replay Interrupt.step .new rearmingEvents).map
      (fun sys => sys.fired.map fun call => (call.1.callOnInterrupt, call.2)) =
        some [(0, 20), (1, 20)] := by decide +kernel
  obtain ⟨sys, reached, calls⟩ := Option.map_eq_some_iff.mp calls
  exact ⟨sys, reached, calls, (interrupts_onTime rearmingEvents sys reached).2.2.2.1⟩

end Nachos
