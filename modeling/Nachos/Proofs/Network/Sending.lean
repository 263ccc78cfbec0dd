import Nachos.Proofs.Network.PostOffice
import Nachos.Proofs.Threads.LockProgress
import Nachos.Proofs.Userprog.SynchConsoleOutput

/-! A post office sends one packet at a time, though the network never notes that it is busy. -/

namespace Nachos

section

variable {Thread : Type}

/-- Sending, seen as writing to the synchronous display: which packet it is does not matter. -/
def SendStage.writes : SendStage → SynchOutputStage
  | .idle => .idle
  | .entering _ _ _ => .entering 0
  | .waiting => .waiting
  | .parked => .parked
  | .leaving => .leaving

/-- The network has the packet of this call, and the call has not seen the interrupt. -/
def SendStage.awaits (stage : SendStage) : Bool := stage.writes.awaits

theorem SendStage.writes_allows (piece : LockEvent Thread) (stage : SendStage) :
    stage.writes.allows piece = stage.allows piece := by
  cases piece <;> cases stage <;> rfl

theorem SendStage.writes_after (piece : LockEvent Thread) (stage : SendStage) :
    stage.writes.after piece = (stage.after piece).writes := by
  cases piece <;> cases stage <;> rfl

/-- The event takes a call of `Send` further that is under way. -/
def PostEvent.continues : PostEvent Thread → Bool
  | .lock _ | .transmit _ _ _ | .sentP _ | .sentInterrupt => true
  | .poll | .available | .collect | .again | .receive _ _ | .box _ _ | .send _ _ _ _ => false

/-- The event has to do with sending: it begins or takes further a call of `Send`. -/
def PostEvent.sends : PostEvent Thread → Bool
  | .send _ _ _ _ | .lock _ | .transmit _ _ _ | .sentP _ | .sentInterrupt => true
  | .poll | .available | .collect | .again | .receive _ _ | .box _ _ => false

variable [DecidableEq Thread]

namespace PostOffice

variable {office next : PostOffice Thread} {sys : SynchOutputSystem Thread} {hostName : Word}

/-- The sending side of a post office is where a synchronous display is. -/
structure SendsLike (office : PostOffice Thread) (sys : SynchOutputSystem Thread) : Prop where
  lock : office.sendLock = sys.lock
  waitFor : office.messageSent = sys.waitFor
  pending : office.pendingSends = sys.consoleOutput.pending
  stage : ∀ thread, (office.sender thread).writes = sys.stage thread

/-- What every run keeps of the sending side. -/
structure Sending (office : PostOffice Thread) : Prop where
  like : ∃ sys : SynchOutputSystem Thread, sys.Invariant ∧ office.SendsLike sys
  lively : office.sendLock.Lively

/-- Nothing of the sending side has changed. -/
def SendsAsBefore (office next : PostOffice Thread) : Prop :=
  next.sendLock = office.sendLock ∧ next.messageSent = office.messageSent ∧
    next.pendingSends = office.pendingSends ∧ next.sender = office.sender

omit [DecidableEq Thread] in
theorem Sending.keep (sending : office.Sending) (same : office.SendsAsBefore next) :
    next.Sending := by
  obtain ⟨lock, waitFor, pending, sender⟩ := same
  obtain ⟨sys, inv, like⟩ := sending.like
  refine ⟨⟨sys, inv, lock.trans like.lock, waitFor.trans like.waitFor,
    pending.trans like.pending, fun thread => ?_⟩, lock ▸ sending.lively⟩
  rw [sender]
  exact like.stage thread

/-- A thread that moves to the same stage in both takes the two to alike states again. -/
theorem SendsLike.move (like : office.SendsLike sys) {thread : Thread} (stage : SendStage)
    {sys' : SynchOutputSystem Thread} (lock : next.sendLock = sys'.lock)
    (waitFor : next.messageSent = sys'.waitFor)
    (pending : next.pendingSends = sys'.consoleOutput.pending)
    (sender : next.sender = Function.update office.sender thread stage)
    (moved : sys'.stage = Function.update sys.stage thread stage.writes) :
    next.SendsLike sys' := by
  -- The two stages agree for the thread that moved, and for the others as before.
  refine ⟨lock, waitFor, pending, fun other => ?_⟩
  rw [sender, moved]
  by_cases same : other = thread
  · simp [same]
  · simp only [Function.update_of_ne same]
    exact like.stage other

/-- The socket, the postal worker and the calls of `Receive` have nothing to do with sending. -/
theorem sendsAsBefore_step {event : PostEvent Thread} {sent : Option Datagram}
    (apart : event.sends = false) (stepped : office.step hostName event = some (next, sent)) :
    office.SendsAsBefore next ∧ sent = none := by
  cases step_cases stepped with
  | poll =>
    obtain ⟨_, _, _, _, _, _, _, polled⟩ := office.poll_frame hostName
    rw [polled]
    exact ⟨⟨rfl, rfl, rfl, rfl⟩, rfl⟩
  | available | unavailable | collect | reject | again | receive | box =>
    exact ⟨⟨rfl, rfl, rfl, rfl⟩, rfl⟩
  | send | lock | transmit | refuse | sentP | unsentP | sentInterrupt => cases apart

/-- A packet that the network is given is a character that the display is given. -/
theorem Sending.transmit (sending : office.Sending) {thread : Thread} {pktHdr : PacketHeader}
    {mailHdr : MailHeader} {data : List Byte}
    (entering : office.sender thread = .entering pktHdr mailHdr data)
    (holding : office.sendLock.stage thread = .holding) :
    (({ office with pendingSends := office.pendingSends + 1 } : PostOffice Thread).move thread
      .waiting).Sending := by
  obtain ⟨sys, inv, like⟩ := sending.like
  -- On both sides the thread has something to give away, and has the lock.
  have given : sys.stage thread = .entering 0 := by
    rw [← like.stage, entering]
    rfl
  have held : sys.lock.stage thread = .holding := like.lock ▸ holding
  -- The display takes the character.
  have putChar := inv.putChar_step given held
  rw [inv.putChar_eq given held] at putChar
  refine ⟨⟨_, putChar, ?_⟩, sending.lively⟩
  -- The thread waits for the interrupt on both sides.
  exact like.move .waiting like.lock like.waitFor (congrArg (· + 1) like.pending) rfl rfl

/-- The interrupt of the network is that of the display. -/
theorem Sending.sent (sending : office.Sending) (pending : office.pendingSends ≠ 0) :
    office.sent.Sending := by
  obtain ⟨sys, inv, like⟩ := sending.like
  -- The display takes its interrupt.
  have interrupt := inv.interrupt_step (like.pending ▸ pending)
  have less := congrArg (· - 1) like.pending
  unfold SynchOutputSystem.interrupt SynchOutputSystem.callBack at interrupt
  -- Whether somebody is woken depends on the semaphore, which is the same.
  rcases office.sent_cases with ⟨messageSent, nobody, same⟩ | ⟨messageSent, woken, wakes, same⟩
  · -- Nobody waits on either side.
    rw [like.waitFor] at nobody
    simp only [nobody] at interrupt
    rw [same]
    exact ⟨⟨_, interrupt, like.lock, rfl, less, like.stage⟩, sending.lively⟩
  · -- The same thread is woken on both sides.
    rw [like.waitFor] at wakes
    simp only [wakes] at interrupt
    rw [same]
    refine ⟨⟨_, interrupt, ?_⟩, sending.lively⟩
    exact like.move .waiting like.lock rfl less rfl rfl

/-- Every step keeps the sending side where a synchronous display can be. -/
theorem Sending.step (sending : office.Sending) {event : PostEvent Thread} {sent : Option Datagram}
    (stepped : office.step hostName event = some (next, sent)) : next.Sending := by
  obtain ⟨sys, inv, like⟩ := sending.like
  -- By cases on the step, each with the step of the display that goes with it.
  cases step_cases stepped with
  | @send thread toHost mailHdr data idle =>
    -- The call begins, as a call of the display does.
    have called : sys.step (.call thread 0) = some (sys.move thread (.entering 0)) := by
      simp only [SynchOutputSystem.step, ← like.stage, idle]
      rfl
    refine ⟨⟨_, SynchOutputSystem.invariant_step inv called, ?_⟩, sending.lively⟩
    exact like.move _ like.lock like.waitFor like.pending rfl rfl
  | @lock piece sendLock allowed moved =>
    have lively := sending.lively.step (like.lock ▸ inv.locked) moved
    rw [like.lock] at moved
    rw [← SendStage.writes_allows, like.stage] at allowed
    -- The lock of the display takes the same piece.
    refine ⟨⟨_, inv.lock_step allowed moved, ?_⟩, lively⟩
    refine like.move _ rfl like.waitFor like.pending rfl ?_
    rw [← SendStage.writes_after, like.stage]
    rfl
  -- The packet is the character.
  | transmit entering holding accepted => exact sending.transmit entering holding
  | refuse entering holding refused =>
    -- A packet that is not accepted ends the program.
    exact sending.keep ⟨rfl, rfl, rfl, rfl⟩
  | @sentP thread messageSent waiting passes =>
    -- The unit is there on both sides.
    have there : sys.stage thread = .waiting := by
      rw [← like.stage, waiting]
      rfl
    rw [like.waitFor] at passes
    have positive : sys.waitFor.value ≠ 0 := fun zero => by simp [Semaphore.test, zero] at passes
    simp only [Semaphore.test, if_neg positive] at passes
    cases passes
    -- Both threads leave.
    refine ⟨⟨_, inv.p_leaving there positive, ?_⟩, sending.lively⟩
    exact like.move _ like.lock rfl like.pending rfl rfl
  -- No unit is there on either side, and both threads sleep.
  | @unsentP thread messageSent waiting stops =>
    have there : sys.stage thread = .waiting := by
      rw [← like.stage, waiting]
      rfl
    rw [like.waitFor] at stops
    have zero : sys.waitFor.value = 0 := by
      by_contra positive
      simp [Semaphore.test, positive] at stops
    simp only [Semaphore.test, if_pos zero] at stops
    cases stops
    refine ⟨⟨_, inv.p_parked there zero, ?_⟩, sending.lively⟩
    exact like.move _ like.lock rfl like.pending rfl rfl
  | sentInterrupt pending => exact sending.sent pending
  | poll | available | unavailable | collect | reject | again | receive | box =>
    -- Nothing of this touches the sending side.
    exact sending.keep (sendsAsBefore_step rfl stepped).1

omit [DecidableEq Thread] in
/-- The calls that a thread is in are those that it is in at the display. -/
theorem SendsLike.writes (like : office.SendsLike sys) {thread : Thread} {stage : SendStage}
    (there : office.sender thread = stage) : sys.stage thread = stage.writes := by
  rw [← like.stage, there]

/-- A piece of the lock can go on where both the call and the lock let it. -/
theorem goesOn_lock (piece : LockEvent Thread)
    (allowed : (office.sender piece.thread).allows piece = true)
    (there : office.sendLock.stage piece.thread = piece.before) (hostName : Word) :
    ∃ event : PostEvent Thread, event.continues = true ∧ (office.step hostName event).isSome :=
  ⟨.lock piece, rfl, by simpa [PostOffice.step, allowed] using LockSystem.step_isSome piece there⟩

/-- Whoever has the lock can go on, or the interrupt it waits for can come. -/
theorem Sending.goesOn_holding (sending : office.Sending) {thread : Thread}
    (holding : office.sendLock.stage thread = .holding) (hostName : Word) :
    ∃ event : PostEvent Thread, event.continues = true ∧ (office.step hostName event).isSome := by
  -- The thread has the lock on both sides.
  obtain ⟨sys, inv, like⟩ := sending.like
  have placed := inv.placed thread
  have there : sys.lock.stage thread = .holding := like.lock ▸ holding
  -- By cases on how far the call is.
  cases stage : office.sender thread with
  -- Outside of a call, a thread does not have the lock.
  | idle =>
    have outside : sys.lock.stage thread = .outside := by
      rwa [like.writes stage] at placed
    rw [there] at outside
    cases outside
  -- The packet can be given to the network.
  | entering pktHdr mailHdr data =>
    exact ⟨.transmit thread false [], rfl, by simp [PostOffice.step, stage, holding]⟩
  -- The semaphore can be tested.
  | waiting =>
    refine ⟨.sentP thread, rfl, ?_⟩
    simp only [PostOffice.step, stage]
    split <;> rfl
  | parked =>
    -- A thread sleeps only while the interrupt is scheduled.
    have pending := inv.pending_of_parked (like.writes stage)
    rw [← like.pending] at pending
    exact ⟨.sentInterrupt, rfl, by simp [PostOffice.step, pending]⟩
  -- The lock can be released.
  | leaving =>
    refine goesOn_lock (.release thread) ?_ holding hostName
    simp [LockEvent.thread, stage, SendStage.allows]

/-- While anybody is in a call, some call or the interrupt of the network can go on. -/
theorem Sending.goesOn (sending : office.Sending) {thread : Thread}
    (under : office.sender thread ≠ .idle) (hostName : Word) :
    ∃ event : PostEvent Thread, event.continues = true ∧ (office.step hostName event).isSome := by
  obtain ⟨sys, inv, like⟩ := sending.like
  by_cases outside : office.sendLock.stage thread = .outside
  · -- Outside of the lock, the call has only begun.
    have placed := inv.placed thread
    have there : sys.lock.stage thread = .outside := like.lock ▸ outside
    cases stage : office.sender thread with
    -- In a call that needs the lock no more, and not yet outside it, there is nothing.
    | idle => exact absurd stage under
    | entering pktHdr mailHdr data =>
      refine goesOn_lock (.acquire thread) ?_ outside hostName
      simp [LockEvent.thread, stage, SendStage.allows]
    -- These stages are inside the lock.
    | waiting | parked | leaving =>
      rw [like.writes stage] at placed
      simp [SendStage.writes, SynchOutputSystem.Placed, there] at placed
  · -- Somebody inside the lock is awake, and it can go on from any stage.
    obtain ⟨other, inside, awake⟩ := sending.lively.awake (like.lock ▸ inv.locked) outside
    cases lock : office.sendLock.stage other with
    | outside => exact absurd lock inside
    | asleep => exact absurd lock awake
    | acquiring => exact goesOn_lock (.p other) rfl lock hostName
    | granted => exact goesOn_lock (.hold other) rfl lock hostName
    | holding => exact sending.goesOn_holding lock hostName
    | vacated => exact goesOn_lock (.v other) rfl lock hostName

end PostOffice

/-- On no machine has the sending side gone another way. -/
theorem PostSystem.sending_step {sys next : PostSystem Thread} {located : Word × PostEvent Thread}
    (sending : ∀ hostName, (sys.office hostName).Sending)
    (stepped : sys.step located = some next) (hostName : Word) :
    (next.office hostName).Sending := by
  -- What a machine does changes that machine, and the socket of the one it sends to.
  have updated : ∀ {hosts : Word → PostOffice Thread} (here : Word) {office : PostOffice Thread},
      (∀ other, (hosts other).Sending) → office.Sending →
      ∀ other, (Function.update hosts here office other).Sending := by
    intro hosts here office all changed other
    by_cases same : other = here
    · rw [same, Function.update_self]
      exact changed
    · rw [Function.update_of_ne same]
      exact all other
  -- Either nothing is sent, or another machine finds a datagram in its socket.
  rcases PostSystem.step_cases stepped with ⟨office, worked, rfl⟩ | ⟨office, datagram, worked, rfl⟩
  · exact updated located.1 sending ((sending _).step worked) hostName
  · have before := updated located.1 sending ((sending _).step worked)
    unfold PostSystem.deliver
    refine updated datagram.toHost before ?_ hostName
    -- The datagram touches nothing of the sending side.
    exact (before datagram.toHost).keep ⟨rfl, rfl, rfl, rfl⟩

/--
A post office hands the network one packet at a time, in every run of all machines.

The network never notes that it is busy, so nothing but the lock and the semaphore see to that. At
most one packet is under way, with at most one call that waits for its interrupt; whoever else has
the lock finds the network idle, and so does whoever is about to hand it a packet. A call sleeps
only while the interrupt that wakes it is scheduled, and while there are calls, one of them or that
interrupt can go on.
-/
theorem postOffice_sendsOneAtATime (numBoxes : Word → Nat) (inHdr : Word → PacketHeader)
    (inbox buffer : Word → List Byte) (events : List (Word × PostEvent Thread))
    (sys : PostSystem Thread)
    (reached : replay PostSystem.step (.boot numBoxes inHdr inbox buffer) events = some sys)
    (hostName : Word) :
    (sys.office hostName).pendingSends ≤ 1 ∧
    (∀ thread other, ((sys.office hostName).sender thread).awaits = true →
      ((sys.office hostName).sender other).awaits = true → thread = other) ∧
    (∀ thread, (sys.office hostName).sendLock.stage thread = .holding →
      ((sys.office hostName).sender thread).awaits = false →
        (sys.office hostName).pendingSends = 0) ∧
    (∀ thread, (sys.office hostName).sender thread = .parked →
      (sys.office hostName).pendingSends = 1) ∧
    (∀ thread, (sys.office hostName).sender thread ≠ .idle → ∃ event : PostEvent Thread,
      event.continues = true ∧ ((sys.office hostName).step hostName event).isSome) := by
  have sending : ∀ hostName, (sys.office hostName).Sending := by
    -- At the start every machine is like a new display.
    refine replay_invariant (fun _ _ _ sending stepped => PostSystem.sending_step sending stepped)
      (fun hostName => ?_) reached
    exact ⟨⟨.new, SynchOutputSystem.invariant_new, rfl, rfl, rfl, fun _ => rfl⟩,
      fun queued => absurd rfl queued⟩
  -- Everything else is a fact about that display.
  obtain ⟨display, inv, like⟩ := (sending hostName).like
  have past : ∀ {thread}, (sys.office hostName).sendLock.stage thread = .holding →
      (display.lock.stage thread).pastP = true := by
    intro thread holding
    rw [← like.lock, holding]
    rfl
  refine ⟨?_, fun thread other awaits also => ?_, fun thread holding without => ?_,
    fun thread parked => ?_, fun thread under => (sending hostName).goesOn under hostName⟩
  · -- There is at most one interrupt scheduled.
    rw [like.pending]
    rcases inv.device with resting | ⟨owner, writing | written⟩
    · simp [resting.pending]
    · simp [writing.pending]
    · simp [written.pending]
  · -- Both have the lock.
    unfold SendStage.awaits at awaits also
    rw [like.stage] at awaits also
    exact inv.alone awaits (by rw [inv.holding_of_awaits also]; rfl)
  · -- Without a packet under way nothing is scheduled.
    unfold SendStage.awaits at without
    rw [like.stage] at without
    exact like.pending.trans (inv.resting (past holding) without).pending
  · -- Whoever sleeps is woken by an interrupt that is scheduled.
    exact like.pending.trans (inv.pending_of_parked (like.writes parked))

/-- Machine 0 sends a packet, and the thread sleeps until the interrupt. -/
def asleepInSend : List (Word × PostEvent Bool) :=
  [(0, .send false 1 ⟨0, 5, 2⟩ [7, 8]), (0, .lock (.acquire false)), (0, .lock (.p false)),
    (0, .lock (.hold false)), (0, .transmit false true [9]), (0, .sentP false)]

/-- The packet was dropped, and the interrupt that wakes the thread is scheduled all the same. -/
theorem postOffice_sendsOneAtATime_asleep :
    ∃ sys : PostSystem Bool,
      replay PostSystem.step
        (.boot (fun _ => 1) (fun _ => ⟨0, 0, 0⟩) (fun _ => []) fun _ => []) asleepInSend =
          some sys ∧
      (sys.office 0).sender false = .parked ∧ (sys.office 0).pendingSends = 1 := by
  -- The run is evaluated, and the theorem says the rest.
  obtain ⟨sys, reached, parked⟩ : ∃ sys : PostSystem Bool,
      replay PostSystem.step
        (.boot (fun _ => 1) (fun _ => ⟨0, 0, 0⟩) (fun _ => []) fun _ => []) asleepInSend =
          some sys ∧
      (sys.office 0).sender false = .parked := ⟨_, rfl, rfl⟩
  refine ⟨sys, reached, parked, ?_⟩
  exact (postOffice_sendsOneAtATime _ _ _ _ asleepInSend sys reached 0).2.2.2.1 false parked

end

end Nachos
