import Nachos.Network.PostOffice
import Nachos.Proofs.Network.Packet
import Nachos.Proofs.Threads.SynchList

/-! What each step of a post office does to it, and what it leaves alone. -/

namespace Nachos

variable {Thread : Type} [DecidableEq Thread]

namespace PostOffice

/-- The checks that the network makes of a packet it is given. -/
abbrev Accepts (office : PostOffice Thread) (hostName : Word) (pktHdr : PacketHeader) : Prop :=
  office.sendBusy = false ∧ pktHdr.length ≠ 0 ∧ pktHdr.length.toNat ≤ maxPacketSize ∧
    pktHdr.fromHost = hostName

/-- The checks that the postal worker makes of a message. -/
abbrev Delivers (office : PostOffice Thread) (mail : Mail) : Prop :=
  0 ≤ mail.mailHdr.toBox.toInt ∧ mail.mailHdr.toBox.toInt < office.numBoxes ∧
    mail.mailHdr.length.toNat ≤ maxMailSize

/-- What a step can do: one case for each event, and two where a test decides. -/
inductive Steps (office : PostOffice Thread) (hostName : Word) :
    PostEvent Thread → PostOffice Thread → Option Datagram → Prop
  | poll : Steps office hostName .poll (office.poll hostName) none
  | available {messageAvailable : Semaphore Unit} (waiting : office.worker = .waiting)
      (passes : office.messageAvailable.test () = (messageAvailable, true)) :
      Steps office hostName .available { office with messageAvailable, worker := .ready } none
  -- The semaphore is zero, and the postal worker goes to sleep.
  | unavailable {messageAvailable : Semaphore Unit} (waiting : office.worker = .waiting)
      (stops : office.messageAvailable.test () = (messageAvailable, false)) :
      Steps office hostName .available { office with messageAvailable, worker := .parked } none
  | collect {mail : Mail} {messages : SynchListSystem (Option Thread) Mail}
      (ready : office.worker = .ready)
      (taken : Mail.ofPacket office.inHdr office.receive.buffer = mail)
      (delivers : office.Delivers mail)
      (appended : (office.boxes mail.mailHdr.toBox.toInt.toNat).step (.append none mail) =
        some messages) :
      Steps office hostName .collect { office.receive with
        worker := .delivering mail.mailHdr.toBox.toInt.toNat
        boxes := Function.update office.boxes mail.mailHdr.toBox.toInt.toNat messages } none
  -- A check of the message fails.
  | reject {mail : Mail} (ready : office.worker = .ready)
      (taken : Mail.ofPacket office.inHdr office.receive.buffer = mail)
      (illegal : ¬ office.Delivers mail) :
      Steps office hostName .collect { office.receive with aborted := true } none
  | again {box : Nat} (delivering : office.worker = .delivering box)
      (idle : (office.boxes box).stage none = .idle) :
      Steps office hostName .again { office with worker := .waiting } none
  | receive {thread : Thread} {box : Nat} {messages : SynchListSystem (Option Thread) Mail}
      (begun : (office.boxes box).step (.removeFront (some thread)) = some messages) :
      Steps office hostName (.receive thread box)
        { office with boxes := Function.update office.boxes box messages } none
  | box {box : Nat} {piece : SynchListEvent (Option Thread) Mail}
      {messages : SynchListSystem (Option Thread) Mail} (goesOn : piece.goesOn = true)
      (went : (office.boxes box).step piece = some messages) :
      Steps office hostName (.box box piece)
        { office with boxes := Function.update office.boxes box messages } none
  | send {thread : Thread} {toHost : Word} {mailHdr : MailHeader} {data : List Byte}
      (idle : office.sender thread = .idle) (small : mailHdr.length.toNat ≤ maxMailSize)
      (nonneg : 0 ≤ mailHdr.toBox.toInt) (held : mailHdr.length.toNat ≤ data.length) :
      Steps office hostName (.send thread toHost mailHdr data)
        (office.move thread (.entering
          ⟨toHost, hostName, mailHdr.length + BitVec.ofNat 32 sizeofHeader⟩ mailHdr
          (data.take mailHdr.length.toNat))) none
  | lock {piece : LockEvent Thread} {sendLock : LockSystem Thread}
      (allowed : (office.sender piece.thread).allows piece = true)
      (moved : office.sendLock.step piece = some sendLock) :
      Steps office hostName (.lock piece) (({ office with sendLock } : PostOffice Thread).move
        piece.thread ((office.sender piece.thread).after piece)) none
  | transmit {thread : Thread} {dropped : Bool} {padding : List Byte} {pktHdr : PacketHeader}
      {mailHdr : MailHeader} {data : List Byte}
      (entering : office.sender thread = .entering pktHdr mailHdr data)
      (holding : office.sendLock.stage thread = .holding)
      (accepted : office.Accepts hostName pktHdr) :
      Steps office hostName (.transmit thread dropped padding)
        (({ office with pendingSends := office.pendingSends + 1 } : PostOffice Thread).move thread
          .waiting)
        (if dropped then none
          else some ⟨pktHdr.toHost, wire pktHdr mailHdr data padding, ⟨hostName, mailHdr, data⟩⟩)
  -- A check of the packet fails.
  | refuse {thread : Thread} {dropped : Bool} {padding : List Byte} {pktHdr : PacketHeader}
      {mailHdr : MailHeader} {data : List Byte}
      (entering : office.sender thread = .entering pktHdr mailHdr data)
      (holding : office.sendLock.stage thread = .holding)
      (refused : ¬ office.Accepts hostName pktHdr) :
      Steps office hostName (.transmit thread dropped padding) { office with aborted := true } none
  | sentP {thread : Thread} {messageSent : Semaphore Thread}
      (waiting : office.sender thread = .waiting)
      (passes : office.messageSent.test thread = (messageSent, true)) :
      Steps office hostName (.sentP thread)
        (({ office with messageSent } : PostOffice Thread).move thread .leaving) none
  -- The packet is still under way, and its sender goes to sleep.
  | unsentP {thread : Thread} {messageSent : Semaphore Thread}
      (waiting : office.sender thread = .waiting)
      (stops : office.messageSent.test thread = (messageSent, false)) :
      Steps office hostName (.sentP thread)
        (({ office with messageSent } : PostOffice Thread).move thread .parked) none
  | sentInterrupt (pending : office.pendingSends ≠ 0) :
      Steps office hostName .sentInterrupt office.sent none

variable {office next : PostOffice Thread} {hostName : Word} {event : PostEvent Thread}
  {sent : Option Datagram}

/-- A step does what its case says, and the guards of the case hold. -/
theorem step_cases (stepped : office.step hostName event = some (next, sent)) :
    office.Steps hostName event next sent := by
  -- By cases on the event, and then on the branches of its definition.
  cases event with
  | poll =>
    cases stepped
    exact .poll
  | available =>
    simp only [step, Option.ite_none_right_eq_some] at stepped
    obtain ⟨waiting, stepped⟩ := stepped
    -- The two ends of the test.
    split at stepped
    · cases stepped
      exact .available waiting ‹_›
    · cases stepped
      exact .unavailable waiting ‹_›
  -- The worker takes the packet, if it was told of one.
  | collect =>
    simp only [step, Option.ite_none_right_eq_some, Option.map_eq_some_iff, Prod.mk.injEq]
      at stepped
    obtain ⟨ready, _, collected, rfl, rfl⟩ := stepped
    unfold collect at collected
    dsimp only at collected
    -- The worker delivers the message if all its checks succeed.
    split at collected
    · obtain ⟨messages, appended, rfl⟩ := Option.map_eq_some_iff.mp collected
      exact .collect ready rfl ‹_› appended
    · cases collected
      exact .reject ready rfl ‹_›
  -- The worker comes back from a box when its put is done.
  | again =>
    simp only [step] at stepped
    split at stepped
    · split at stepped
      · cases stepped
        exact .again ‹_› ‹_›
      · cases stepped
    · cases stepped
  -- A thread begins to receive, if it is in no call.
  | receive thread box =>
    simp only [step, Option.ite_none_right_eq_some, Option.map_eq_some_iff, Prod.mk.injEq]
      at stepped
    obtain ⟨-, messages, begun, rfl, rfl⟩ := stepped
    exact .receive begun
  -- Work goes on in a box, and begins no call there.
  | box box piece =>
    simp only [step, Option.ite_none_right_eq_some, Option.map_eq_some_iff, Prod.mk.injEq]
      at stepped
    obtain ⟨goesOn, messages, went, rfl, rfl⟩ := stepped
    exact .box goesOn went
  -- The checks of the source on the length and the box come first.
  | send thread toHost mailHdr data =>
    simp only [step] at stepped
    split at stepped
    · simp only [Option.ite_none_right_eq_some, Option.some.injEq, Prod.mk.injEq] at stepped
      obtain ⟨⟨small, nonneg, held⟩, rfl, rfl⟩ := stepped
      exact .send ‹_› small nonneg held
    · cases stepped
  -- A piece of the lock, where the call allows it.
  | lock piece =>
    simp only [step, Option.ite_none_right_eq_some, Option.map_eq_some_iff, Prod.mk.injEq]
      at stepped
    obtain ⟨allowed, sendLock, moved, rfl, rfl⟩ := stepped
    exact .lock allowed moved
  | transmit thread dropped padding =>
    simp only [step] at stepped
    split at stepped
    · simp only [Option.ite_none_right_eq_some, Option.some.injEq] at stepped
      obtain ⟨holding, given⟩ := stepped
      unfold PostOffice.transmit at given
      -- The network takes the packet if all its checks succeed.
      split at given
      · cases given
        exact .transmit ‹_› holding ‹_›
      · cases given
        exact .refuse ‹_› holding ‹_›
    · cases stepped
  | sentP thread =>
    simp only [step] at stepped
    split at stepped
    · -- The two ends of the test.
      split at stepped
      · cases stepped
        exact .sentP ‹_› ‹_›
      · cases stepped
        exact .unsentP ‹_› ‹_›
    · cases stepped
  -- The interrupt comes if one is scheduled.
  | sentInterrupt =>
    simp only [step, Option.ite_none_left_eq_some, Option.some.injEq, Prod.mk.injEq] at stepped
    obtain ⟨pending, rfl, rfl⟩ := stepped
    exact .sentInterrupt pending

omit [DecidableEq Thread] in
/-- Reading a packet changes what has to do with the socket and the inbox, and nothing else. -/
theorem poll_frame (office : PostOffice Thread) (hostName : Word) :
    ∃ socket inHdr inbox messageAvailable worker read aborted, office.poll hostName =
      { office with socket, inHdr, inbox, messageAvailable, worker, read, aborted } := by
  -- The inbox is full, the socket is empty, or there is a packet.
  unfold poll callBack
  split
  · exact ⟨_, _, _, _, _, _, _, rfl⟩
  · split
    · exact ⟨_, _, _, _, _, _, _, rfl⟩
    · dsimp only
      split
      · -- The packet is read, and the worker is told of it.
        split <;> exact ⟨_, _, _, _, _, _, _, rfl⟩
      · -- The packet fails an assertion of the source.
        exact ⟨_, _, _, _, _, _, _, rfl⟩

/-- The interrupt of the network wakes the first of those who sleep in `Send`, if anybody does. -/
theorem sent_cases (office : PostOffice Thread) :
    (∃ messageSent, office.messageSent.v = (messageSent, none) ∧ office.sent = { office with
      pendingSends := office.pendingSends - 1, sendBusy := false, messageSent }) ∨
    ∃ messageSent woken, office.messageSent.v = (messageSent, some woken) ∧ office.sent =
      ({ office with pendingSends := office.pendingSends - 1, sendBusy := false, messageSent } :
        PostOffice Thread).move woken .waiting := by
  unfold PostOffice.sent
  dsimp only
  split
  · exact .inl ⟨_, ‹_›, rfl⟩
  · exact .inr ⟨_, _, ‹_›, rfl⟩

/-- No step of a machine changes the record of what has arrived there. -/
theorem step_arrived (stepped : office.step hostName event = some (next, sent)) :
    next.arrived = office.arrived := by
  -- By cases on the step; none of them writes the record.
  cases step_cases stepped with
  | poll =>
    obtain ⟨_, _, _, _, _, _, _, polled⟩ := office.poll_frame hostName
    rw [polled]
  | sentInterrupt pending =>
    rcases office.sent_cases with ⟨_, -, same⟩ | ⟨_, _, -, same⟩
    · rw [same]
    · rw [same]
      rfl
  | available | unavailable | collect | reject | again | receive | box | send | lock | transmit
  | refuse | sentP | unsentP => rfl

end PostOffice

end Nachos
