import Nachos.Proofs.Network.Sending

/-! What the steps of a post office do to the calls of one thread, in its boxes and in `Send`. -/

namespace Nachos

section Lists

variable {Thread Item : Type}

/-- A piece of the lock does not bring a call to its end. -/
theorem SynchListStage.leaving_of_after {piece : LockEvent Thread} {stage : SynchListStage Item}
    {result : Option Item} (after : stage.after piece = .leaving result) :
    stage = .leaving result := by
  cases piece <;> cases stage <;> simp_all [SynchListStage.after]

variable [DecidableEq Thread] {sys next mid : SynchListSystem Thread Item}

/-- What a call of `RemoveFront` is about to return has been taken off the list. -/
def SynchListSystem.Took (sys : SynchListSystem Thread Item) : Prop :=
  ∀ thread item, sys.stage thread = .leaving (some item) → item ∈ sys.removed

namespace SynchListSystem.Took

/-- A thread may move to the end of its call once it has taken what it returns. -/
theorem move (took : sys.Took) (same : mid.stage = sys.stage) (grown : sys.removed ⊆ mid.removed)
    {mover : Thread} {stage : SynchListStage Item}
    (new : ∀ item, stage = .leaving (some item) → sys.stage mover = .leaving (some item) ∨
      item ∈ mid.removed) : (mid.move mover stage).Took := by
  intro thread item leaving
  by_cases here : thread = mover
  · subst here
    rw [move_stage_self] at leaving
    exact (new item leaving).elim (fun before => grown (took _ _ before)) id
  · rw [move_stage_of_ne _ _ _ _ here, same] at leaving
    exact grown (took _ _ leaving)

/-- Every step keeps that. -/
theorem step {event : SynchListEvent Thread Item} (took : sys.Took)
    (stepped : sys.step event = some next) : next.Took := by
  -- By cases on the step: only a test that finds something makes a thread leave with an item.
  cases step_cases stepped with
  -- A call begins, a producer leaves with nothing, or a consumer waits.
  | append | removeFront | put | wait =>
    exact took.move rfl (List.Subset.refl _) fun _ leaving => by cases leaving
  -- A piece of the lock takes nothing from the list.
  | lock =>
    exact took.move rfl (List.Subset.refl _) fun _ leaving =>
      .inl (SynchListStage.leaving_of_after leaving)
  -- Nor does a test in P.
  | p => exact took
  | take =>
    -- The front of the list is taken off it, and is what the call returns.
    refine took.move ?_ ?_ fun _ leaving => .inr ?_
    · rfl
    · exact List.subset_append_left _ _
    · cases leaving
      simp

end SynchListSystem.Took

/-- A thread that has not called goes on not having called, while others go on. -/
theorem SynchListSystem.idle_of_goesOn {event : SynchListEvent Thread Item}
    (goesOn : event.goesOn = true) (stepped : sys.step event = some next) {thread : Thread}
    (idle : sys.stage thread = .idle) : next.stage thread = .idle := by
  rcases goesOn_cases goesOn stepped with ⟨other, item, appending, -, moved⟩ |
    ⟨-, other, stage, moved, -, rests⟩
  · -- The thread that puts an item there is in its call.
    have different : thread ≠ other := fun same => by simp [same, appending] at idle
    rw [moved, Function.update_of_ne different]
    exact idle
  · -- Whoever moves, a thread that is idle stays so.
    rw [moved]
    by_cases same : thread = other
    · rw [same, Function.update_self]
      exact rests (same ▸ idle)
    · rw [Function.update_of_ne same]
      exact idle

end Lists

section Office

variable {Thread : Type} [DecidableEq Thread] {office next : PostOffice Thread} {hostName : Word}

/-- What a piece of work at a list of messages is for the post office. -/
def SynchListEvent.DoneBy (box : Nat) (piece : SynchListEvent (Option Thread) Mail) :
    PostEvent Thread → Prop
  | .collect => ∃ mail, piece = .append none mail
  | .receive thread other => other = box ∧ piece = .removeFront (some thread)
  | .box other event => other = box ∧ piece = event ∧ event.goesOn = true
  | _ => False

/-- Work that begins no call leaves threads that have not called as they are. -/
theorem SynchListEvent.DoneBy.idle {box : Nat} {piece : SynchListEvent (Option Thread) Mail}
    {event : PostEvent Thread} (done : SynchListEvent.DoneBy box piece event)
    (goesOn : event.begins = false) {list messages : SynchListSystem (Option Thread) Mail}
    (stepped : list.step piece = some messages) {thread : Thread}
    (idle : list.stage (some thread) = .idle) : messages.stage (some thread) = .idle := by
  -- By cases on the event that has to do with a box.
  cases event with
  | collect =>
    -- The postal worker begins to put a message there.
    obtain ⟨mail, rfl⟩ := done
    -- The worker is none of the threads that call.
    cases SynchListSystem.step_cases stepped
    rwa [SynchListSystem.move_stage_of_ne _ _ _ _ (by simp)]
  -- A piece of a call that has begun.
  | box other event =>
    obtain ⟨-, rfl, continues⟩ := done
    exact SynchListSystem.idle_of_goesOn continues stepped idle
  -- The events that begin a call, or have nothing to do with a box.
  | receive _ _ => cases goesOn
  | poll | available | again | send _ _ _ _ | lock _ | transmit _ _ _ | sentP _ | sentInterrupt =>
    cases done

/-- A step leaves the boxes as they are, or does a piece of work in one of them. -/
theorem PostOffice.step_boxes {event : PostEvent Thread} {sent : Option Datagram}
    (stepped : office.step hostName event = some (next, sent)) :
    next.boxes = office.boxes ∨ ∃ box piece messages,
      SynchListEvent.DoneBy box piece event ∧ (office.boxes box).step piece = some messages ∧
      next.boxes = Function.update office.boxes box messages := by
  cases step_cases stepped with
  -- The worker, and the threads in `Receive`, work in a box.
  | collect ready taken delivers appended =>
    exact .inr ⟨_, _, _, ⟨_, rfl⟩, appended, rfl⟩
  | receive begun => exact .inr ⟨_, _, _, ⟨rfl, rfl⟩, begun, rfl⟩
  | box goesOn went => exact .inr ⟨_, _, _, ⟨rfl, rfl, goesOn⟩, went, rfl⟩
  -- The rest has to do with the socket, the semaphores and the calls of `Send`.
  | poll =>
    obtain ⟨_, _, _, _, _, _, _, polled⟩ := office.poll_frame hostName
    rw [polled]
    exact .inl rfl
  | sentInterrupt pending =>
    refine .inl ?_
    rcases office.sent_cases with ⟨_, -, same⟩ | ⟨_, _, -, same⟩
    · rw [same]
    · rw [same]
      rfl
  | available | unavailable | reject | again | send | lock | transmit | refuse | sentP | unsentP =>
    exact .inl rfl

namespace PostOffice

/-- Work that begins no call gives nobody a packet to send, and sends one that somebody has. -/
theorem step_sender {event : PostEvent Thread} {sent : Option Datagram}
    (goesOn : event.begins = false) (stepped : office.step hostName event = some (next, sent)) :
    (∀ thread pktHdr mailHdr data, next.sender thread = .entering pktHdr mailHdr data →
      office.sender thread = .entering pktHdr mailHdr data) ∧
    ∀ datagram, sent = some datagram → ∃ thread pktHdr mailHdr data,
      office.sender thread = .entering pktHdr mailHdr data ∧ datagram.toHost = pktHdr.toHost ∧
      datagram.letter = ⟨hostName, mailHdr, data⟩ := by
  -- A thread that moves to a stage without a packet is all that has changed.
  have moved : ∀ (mover : Thread) (stage : SendStage),
      (∀ pktHdr mailHdr data, stage = .entering pktHdr mailHdr data →
        office.sender mover = .entering pktHdr mailHdr data) →
      ∀ thread pktHdr mailHdr data,
        Function.update office.sender mover stage thread = .entering pktHdr mailHdr data →
        office.sender thread = .entering pktHdr mailHdr data := by
    intro mover stage has thread pktHdr mailHdr data
    by_cases same : thread = mover
    · rw [same, Function.update_self]
      exact has pktHdr mailHdr data
    · rw [Function.update_of_ne same]
      exact id
  -- A step that sends nothing has nothing to show.
  have nothing : ∀ datagram, (none : Option Datagram) = some datagram →
      ∃ thread pktHdr mailHdr data, office.sender thread = .entering pktHdr mailHdr data ∧
        datagram.toHost = pktHdr.toHost ∧ datagram.letter = ⟨hostName, mailHdr, data⟩ :=
    fun _ none => by cases none
  -- By cases on the step; a packet changes hands only in Send and in the transmission.
  cases step_cases stepped with
  | send | receive => cases goesOn
  | poll =>
    obtain ⟨_, _, _, _, _, _, _, polled⟩ := office.poll_frame hostName
    rw [polled]
    exact ⟨fun _ _ _ _ => id, nothing⟩
  | available | unavailable | collect | reject | again | box | refuse =>
    exact ⟨fun _ _ _ _ => id, nothing⟩
  -- A piece of the lock keeps the packet of its thread, if it has one.
  | @lock piece sendLock allowed went =>
    refine ⟨moved _ _ fun pktHdr mailHdr data => ?_, nothing⟩
    cases piece <;> cases stage : office.sender _ <;> simp [SendStage.after]
  | @transmit thread dropped padding pktHdr mailHdr data entering holding accepted =>
    refine ⟨moved _ _ (fun _ _ _ other => by cases other), fun datagram sent => ?_⟩
    cases dropped with
    | true => cases sent
    | false =>
      -- What goes out is the packet of the call.
      cases sent
      exact ⟨thread, pktHdr, mailHdr, data, entering, rfl, rfl⟩
  -- After the packet is given away the thread has none.
  | sentP | unsentP => exact ⟨moved _ _ (fun _ _ _ other => by cases other), nothing⟩
  -- The interrupt wakes a thread that has no packet.
  | sentInterrupt pending =>
    rcases office.sent_cases with ⟨_, -, same⟩ | ⟨_, _, -, same⟩
    · rw [same]
      exact ⟨fun _ _ _ _ => id, nothing⟩
    · rw [same]
      exact ⟨moved _ _ (fun _ _ _ other => by cases other), nothing⟩

/-- A call of `Send` begins with a packet, and with nothing else. -/
theorem step_send {thread : Thread} {toHost : Word} {mailHdr : MailHeader} {data : List Byte}
    {sent : Option Datagram}
    (stepped : office.step hostName (.send thread toHost mailHdr data) = some (next, sent)) :
    sent = none ∧ next.boxes = office.boxes ∧ ∃ length,
      next.sender = Function.update office.sender thread
        (.entering ⟨toHost, hostName, length⟩ mailHdr (data.take mailHdr.length.toNat)) := by
  cases step_cases stepped with
  | send => exact ⟨rfl, rfl, _, rfl⟩

/-- A call of `Receive` begins in its box, and nowhere else. -/
theorem step_receive {thread : Thread} {box : Nat} {sent : Option Datagram}
    (stepped : office.step hostName (.receive thread box) = some (next, sent)) :
    sent = none ∧ next.sender = office.sender ∧
      next.boxes = Function.update office.boxes box ((office.boxes box).move (some thread)
        .removing) := by
  -- The step can only be the call.
  cases step_cases stepped with
  | receive begun =>
    refine ⟨rfl, rfl, ?_⟩
    -- The thread was idle, and removes from now on.
    cases SynchListSystem.step_cases begun
    rfl

end PostOffice

/-- One machine takes a step, and at most a letter that it has sent arrives anywhere. -/
theorem PostSystem.step_sees {sys next : PostSystem Thread} {event : PostEvent Thread}
    (stepped : sys.step (hostName, event) = some next) :
    ∃ office sent, (sys.office hostName).step hostName event = some (office, sent) ∧
      ∀ other,
        (next.office other).boxes = (Function.update sys.office hostName office other).boxes ∧
        (next.office other).sender = (Function.update sys.office hostName office other).sender ∧
        ∀ letter ∈ (next.office other).arrived, letter ∈ (sys.office other).arrived ∨
          ∃ datagram, sent = some datagram ∧ datagram.toHost = other ∧
            datagram.letter = letter := by
  -- The machine by itself records no arrival.
  have before : ∀ {office sent},
      (sys.office hostName).step hostName event = some (office, sent) →
      ∀ other, (Function.update sys.office hostName office other).arrived =
        (sys.office other).arrived := by
    intro office sent worked other
    by_cases same : other = hostName
    · rw [same, Function.update_self]
      exact PostOffice.step_arrived worked
    · rw [Function.update_of_ne same]
  -- Nothing is sent, so nothing arrives.
  rcases step_cases stepped with ⟨office, worked, rfl⟩ | ⟨office, datagram, worked, rfl⟩
  · refine ⟨office, none, worked, fun other => ⟨rfl, rfl, fun letter arrived => .inl ?_⟩⟩
    -- A datagram is sent, and arrives at one machine.
    rwa [← before worked]
  · refine ⟨office, some datagram, worked, fun other => ?_⟩
    unfold deliver
    dsimp only
    by_cases same : other = datagram.toHost
    · subst same
      simp only [Function.update_self]
      refine ⟨trivial, trivial, fun letter arrived => ?_⟩
      rw [before worked] at arrived
      -- A letter that arrived before, or the one just sent.
      rcases List.mem_append.mp arrived with earlier | last
      · exact .inl earlier
      · exact .inr ⟨datagram, rfl, rfl, (List.mem_singleton.mp last).symm⟩
    · -- At the other machines nothing arrives.
      simp only [Function.update_of_ne same]
      refine ⟨trivial, trivial, fun letter arrived => .inl ?_⟩
      rwa [← before worked]

end Office

end Nachos
