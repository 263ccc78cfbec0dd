import Mathlib.Data.Fintype.Option
import Nachos.Proofs.Network.Steps

/-! Mail is delivered whole, in order and at most once, and only dropped packets are lost. -/

namespace Nachos

section Producer

variable {Thread Item : Type}

/-- The item that a thread is about to put on the list. -/
def SynchListStage.item : SynchListStage Item → Option Item
  | .appending item => some item
  | .idle | .removing | .retrying | .leaving _ => none

/-- A piece of the lock changes neither what is about to be put on the list nor who is idle. -/
theorem SynchListStage.after_item (piece : LockEvent Thread) (stage : SynchListStage Item) :
    (stage.after piece).item = stage.item ∧ (stage = .idle → stage.after piece = .idle) := by
  cases piece <;> cases stage <;> exact ⟨rfl, fun same => by first | rfl | cases same⟩

namespace SynchListSystem

/-- What a producer has put on the list, with the item that it is about to put there. -/
def pipeline (sys : SynchListSystem Thread Item) (producer : Thread) : List Item :=
  sys.appended ++ (sys.stage producer).item.toList

/-- Nobody else puts anything on the list. -/
abbrev Only (sys : SynchListSystem Thread Item) (producer : Thread) : Prop :=
  ∀ thread, thread ≠ producer → (sys.stage thread).item = none

variable [DecidableEq Thread] {sys next : SynchListSystem Thread Item}

/-- A piece of a call that has begun: an item is put on the list, or nothing is known to be. -/
theorem goesOn_cases {event : SynchListEvent Thread Item} (goesOn : event.goesOn = true)
    (stepped : sys.step event = some next) :
    (∃ thread item, sys.stage thread = .appending item ∧
      next.appended = sys.appended ++ [item] ∧
      next.stage = Function.update sys.stage thread (.leaving none)) ∨
    (next.appended = sys.appended ∧ ∃ thread stage,
      next.stage = Function.update sys.stage thread stage ∧
      stage.item = (sys.stage thread).item ∧ (sys.stage thread = .idle → stage = .idle)) := by
  -- By cases on the step: only the put of a producer adds an item.
  cases step_cases stepped with
  | append | removeFront => cases goesOn
  -- A piece of the lock moves its thread within its call.
  | @lock piece => exact .inr ⟨rfl, piece.thread, _, rfl, SynchListStage.after_item piece _⟩
  -- A test in P moves nobody.
  | @p thread =>
    exact .inr ⟨rfl, thread, sys.stage thread, (Function.update_eq_self _ _).symm, rfl, id⟩
  -- The producer has its item on the list, and goes on to leave.
  | put appending => exact .inl ⟨_, _, appending, rfl, rfl⟩
  -- A consumer has no item, whether it waits or takes the front.
  | wait consumes | take consumes =>
    refine .inr ⟨rfl, _, _, rfl, ?_, fun idle => ?_⟩
    · rcases consumes with stage | stage <;> rw [stage] <;> rfl
    · rcases consumes with stage | stage <;> rw [stage] at idle <;> cases idle

variable {producer : Thread}

/-- Work that goes on changes nothing of what the only producer has put into the list. -/
theorem Only.goesOn (only : sys.Only producer) {event : SynchListEvent Thread Item}
    (goesOn : event.goesOn = true) (stepped : sys.step event = some next) :
    next.pipeline producer = sys.pipeline producer ∧ next.Only producer ∧
      (sys.stage producer = .idle → next.stage producer = .idle) := by
  rcases goesOn_cases goesOn stepped with ⟨thread, item, stage, appended, moved⟩ |
    ⟨appended, thread, stage, moved, item, idle⟩
  · -- Whoever puts an item on the list is the producer.
    have same : thread = producer := by
      by_contra different
      have nothing := only thread different
      rw [stage] at nothing
      cases nothing
    subst same
    refine ⟨?_, fun other different => ?_, fun idle => ?_⟩
    · -- The item moves from the producer's hand to the end of the list.
      rw [pipeline, pipeline, appended, moved, Function.update_self, stage]
      simp [SynchListStage.item]
    · -- The others had no item, and have none.
      rw [moved, Function.update_of_ne different]
      exact only other different
    · -- The producer was in its call.
      rw [stage] at idle
      cases idle
  · -- No item is added, and nobody's item changes.
    have items : ∀ other, (next.stage other).item = (sys.stage other).item := by
      intro other
      rw [moved]
      by_cases same : other = thread
      · rw [same, Function.update_self, item]
      · rw [Function.update_of_ne same]
    -- So the pipeline is the same, and so is who may have an item.
    refine ⟨by rw [pipeline, pipeline, appended, items], fun other different => ?_, fun rests => ?_⟩
    · rw [items]
      exact only other different
    · rw [moved]
      by_cases same : producer = thread
      · rw [same, Function.update_self]
        exact idle (same ▸ rests)
      · rw [Function.update_of_ne same]
        exact rests

/-- A consumer that begins changes nothing of it either. -/
theorem Only.removeFront (only : sys.Only producer) {thread : Thread}
    (different : thread ≠ producer) (stepped : sys.step (.removeFront thread) = some next) :
    next.pipeline producer = sys.pipeline producer ∧ next.Only producer ∧
      next.stage producer = sys.stage producer := by
  -- The caller is only entered as one that removes.
  cases step_cases stepped
  have kept := move_stage_of_ne sys thread producer .removing different.symm
  -- The consumer has no item, and the producer is another thread.
  refine ⟨by rw [pipeline, pipeline, kept]; rfl, fun other others => ?_, kept⟩
  by_cases same : other = thread
  · rw [same, move_stage_self]
    rfl
  · rw [move_stage_of_ne _ _ _ _ same]
    exact only other others

/-- The producer's next item goes to the end of the pipeline. -/
theorem Only.append (only : sys.Only producer) {item : Item}
    (stepped : sys.step (.append producer item) = some next) :
    next.pipeline producer = sys.pipeline producer ++ [item] ∧ next.Only producer := by
  -- The item waits with its producer until it is put into the list.
  cases step_cases stepped with
  | append idle =>
    -- The producer has the item in its hand.
    refine ⟨?_, fun other different => ?_⟩
    · simp only [pipeline, move_stage_self, idle, SynchListStage.item, Option.toList_some,
        Option.toList_none, List.append_nil]
      rfl
    · -- The others had none.
      rw [move_stage_of_ne _ _ _ _ different]
      exact only other different

end SynchListSystem

end Producer

section

variable {Thread : Type}

/-- A packet that was sent to a machine as mail: its header, and its data. -/
structure Posted (hostName : Word) (numBoxes : Nat) (pktHdr : PacketHeader) (mailHdr : MailHeader)
    (data : List Byte) : Prop where
  toHost : pktHdr.toHost = hostName
  packetLength : pktHdr.length.toNat = sizeofHeader + data.length
  mailLength : mailHdr.length.toNat = data.length
  small : data.length ≤ maxMailSize
  box : 0 ≤ mailHdr.toBox.toInt ∧ mailHdr.toBox.toInt < numBoxes

/-- A packet as it is read is one that was sent to the machine as mail. -/
def Genuine (hostName : Word) (numBoxes : Nat) (packet : PacketHeader × List Byte) : Prop :=
  ∃ mailHdr data, Posted hostName numBoxes packet.1 mailHdr data ∧
    packet.2 = mailHdr.toBytes ++ data

/-- The letter in a packet as it is read. -/
def letterOf (packet : PacketHeader × List Byte) : Letter := (Mail.ofPacket packet.1 packet.2).letter

/-- A packet with mail in it is not empty. -/
theorem Genuine.length_ne {hostName : Word} {numBoxes : Nat} {packet : PacketHeader × List Byte}
    (genuine : Genuine hostName numBoxes packet) : packet.1.length ≠ 0 := by
  obtain ⟨mailHdr, data, posted, -⟩ := genuine
  intro zero
  have counted : 0 = 12 + data.length := by
    rw [← posted.packetLength, zero]
    rfl
  omega

/-- A packet with mail in it fits into the inbox. -/
theorem Genuine.length_le {hostName : Word} {numBoxes : Nat} {packet : PacketHeader × List Byte}
    (genuine : Genuine hostName numBoxes packet) : packet.1.length.toNat ≤ maxPacketSize := by
  obtain ⟨mailHdr, data, posted, -⟩ := genuine
  have small : data.length ≤ 40 := posted.small
  rw [posted.packetLength]
  change 12 + data.length ≤ 52
  omega

/-- The data of a packet with mail in it is as long as its header says. -/
theorem Genuine.counted {hostName : Word} {numBoxes : Nat} {packet : PacketHeader × List Byte}
    (genuine : Genuine hostName numBoxes packet) : packet.2.length = packet.1.length.toNat := by
  obtain ⟨mailHdr, data, posted, same⟩ := genuine
  rw [same, posted.packetLength, List.length_append, MailHeader.length_toBytes]

namespace PostOffice

/-- The packet that lies in the inbox. -/
def packet (office : PostOffice Thread) : PacketHeader × List Byte :=
  (office.inHdr, office.inbox.take office.inHdr.length.toNat)

/-- The letters in the inbox: one, or none. -/
def inInbox (office : PostOffice Thread) : List Letter :=
  if office.inHdr.length = 0 then [] else [letterOf office.packet]

/-- The letters that are on their way into a box, or have got there, or been taken from it. -/
def boxed (office : PostOffice Thread) (box : Nat) : List Letter :=
  ((office.boxes box).pipeline none).map Mail.letter

/-- The letter is for the box. -/
def isFor (box : Nat) (letter : Letter) : Bool := letter.mailHdr.toBox.toInt = box

theorem isFor_iff {box : Nat} {letter : Letter} :
    isFor box letter = true ↔ letter.mailHdr.toBox.toInt = box := decide_eq_true_iff

/-- The semaphore counts the packet in the inbox, unless the worker has been told of it. -/
def Counted (office : PostOffice Thread) : Prop :=
  match office.worker with
  | .waiting | .delivering _ =>
    office.messageAvailable = ⟨if office.inHdr.length = 0 then 0 else 1, []⟩
  | .parked => office.messageAvailable = ⟨0, [()]⟩ ∧ office.inHdr.length = 0
  | .ready => office.messageAvailable = ⟨0, []⟩ ∧ office.inHdr.length ≠ 0

/-- What the receiving side of a post office keeps. -/
structure Incoming [Fintype Thread] [DecidableEq Thread] (hostName : Word)
    (office : PostOffice Thread) : Prop where
  sound : office.aborted = false
  careful : office.tookEmpty = false
  lists : ∀ box, (office.boxes box).Invariant
  only : ∀ box, (office.boxes box).Only none
  counted : office.Counted
  elsewhere : ∀ box, office.worker ≠ .delivering box → (office.boxes box).stage none = .idle
  genuine : office.inHdr.length ≠ 0 → Genuine hostName office.numBoxes office.packet
  socket : ∀ datagram ∈ office.socket, Genuine hostName office.numBoxes (packetOf datagram)
  arrived : office.arrived = office.read ++ office.socket.map (letterOf ∘ packetOf)
  accounted : ∀ box, office.read.filter (isFor box) =
    office.boxed box ++ office.inInbox.filter (isFor box)

/-- What the sending side of a post office keeps, by the number of boxes of every machine. -/
structure Outgoing (numBoxes : Word → Nat) (hostName : Word) (office : PostOffice Thread) :
    Prop where
  quiet : office.sendBusy = false
  entering : ∀ thread pktHdr mailHdr data, office.sender thread = .entering pktHdr mailHdr data →
    pktHdr.fromHost = hostName ∧
      Posted pktHdr.toHost (numBoxes pktHdr.toHost) pktHdr mailHdr data

variable {office next : PostOffice Thread} {hostName : Word}

/-- A packet that was laid over the inbox is the packet in it. -/
theorem take_overlay {data : List Byte} {length : Nat} (whole : data.length = length)
    (held : List Byte) : (overlay data held).take length = data := by
  rw [overlay, ← whole, List.take_left]

variable [DecidableEq Thread] [Fintype Thread]

/-- The receiving side has no use for what the sending side changes. -/
theorem Incoming.outgoing (incoming : office.Incoming hostName) (sendLock : LockSystem Thread)
    (messageSent : Semaphore Thread) (sendBusy : Bool) (pendingSends : Nat)
    (sender : Thread → SendStage) :
    Incoming hostName
      { office with sendLock, messageSent, sendBusy, pendingSends, sender } :=
  ⟨incoming.sound, incoming.careful, incoming.lists, incoming.only, incoming.counted,
    incoming.elsewhere, incoming.genuine, incoming.socket, incoming.arrived, incoming.accounted⟩

omit [DecidableEq Thread] [Fintype Thread] in
/-- The worker is told of a packet that lies in an inbox that was empty before. -/
theorem Counted.callBack (counted : office.Counted) (empty : office.inHdr.length = 0)
    {inHdr : PacketHeader} (full : inHdr.length ≠ 0) (socket : List (List Byte))
    (inbox : List Byte) (read : List Letter) :
    ({ office with socket, inHdr, inbox, read } : PostOffice Thread).callBack.Counted ∧
      ∃ messageAvailable worker,
        ({ office with socket, inHdr, inbox, read } : PostOffice Thread).callBack =
          { office with socket, inHdr, inbox, read, messageAvailable, worker } ∧
        ∀ box, office.worker = .delivering box → worker = .delivering box := by
  unfold Counted at counted
  unfold PostOffice.callBack
  -- By cases on the worker, which waits, sleeps or is about to take a packet.
  cases worker : office.worker with
  | waiting | delivering box =>
    -- Nobody waits for the packet yet.
    simp only [worker, empty, if_true] at counted
    simp only [counted, Semaphore.v]
    refine ⟨?_, ⟨1, []⟩, _, rfl, fun _ same => same⟩
    simp only [Counted, if_neg full, Int.zero_add]
  -- The worker sleeps for want of a packet, and is woken.
  | parked =>
    simp only [worker] at counted
    simp only [counted.1, Semaphore.v]
    refine ⟨?_, ⟨1, []⟩, _, rfl, fun _ other => by cases other⟩
    simp only [Counted, if_neg full, Int.zero_add]
  -- The worker is about to take a packet, so the inbox is not empty.
  | ready =>
    simp only [worker] at counted
    exact absurd empty counted.2

/-- While the worker waits, it is not busy with any box. -/
theorem Incoming.elsewhere_waiting (incoming : office.Incoming hostName)
    (waiting : office.worker = .waiting) (box : Nat) : (office.boxes box).stage none = .idle :=
  incoming.elsewhere box (by rw [waiting]; exact WorkerStage.noConfusion)

/-- The worker passes the semaphore if there is a packet, and goes on to take it. -/
theorem Incoming.available (incoming : office.Incoming hostName)
    {messageAvailable : Semaphore Unit} (waiting : office.worker = .waiting)
    (passes : office.messageAvailable.test () = (messageAvailable, true)) :
    Incoming hostName { office with messageAvailable, worker := .ready } := by
  -- The count in the semaphore says whether there is a packet.
  have counted := incoming.counted
  simp only [Counted, waiting] at counted
  rw [counted] at passes
  by_cases empty : office.inHdr.length = 0
  · -- Without a packet, the semaphore is zero.
    simp [empty, Semaphore.test] at passes
  · simp only [if_neg empty, Semaphore.test, Int.one_ne_zero, if_false, Int.sub_self,
      Prod.mk.injEq, and_true] at passes
    subst passes
    -- Only the worker has moved, and the semaphore.
    exact ⟨incoming.sound, incoming.careful, incoming.lists, incoming.only, ⟨rfl, empty⟩,
      fun box _ => incoming.elsewhere_waiting waiting box, incoming.genuine, incoming.socket,
      incoming.arrived, incoming.accounted⟩

/-- The worker goes to sleep if there is no packet. -/
theorem Incoming.unavailable (incoming : office.Incoming hostName)
    {messageAvailable : Semaphore Unit} (waiting : office.worker = .waiting)
    (stops : office.messageAvailable.test () = (messageAvailable, false)) :
    Incoming hostName { office with messageAvailable, worker := .parked } := by
  have counted := incoming.counted
  -- The count in the semaphore says whether there is a packet.
  simp only [Counted, waiting] at counted
  rw [counted] at stops
  by_cases empty : office.inHdr.length = 0
  · simp only [if_pos empty, Semaphore.test, if_true, List.nil_append, Prod.mk.injEq, and_true]
      at stops
    subst stops
    -- Only the worker has moved, and the semaphore.
    exact ⟨incoming.sound, incoming.careful, incoming.lists, incoming.only, ⟨rfl, empty⟩,
      fun box _ => incoming.elsewhere_waiting waiting box, incoming.genuine, incoming.socket,
      incoming.arrived, incoming.accounted⟩
  · -- With a packet, the semaphore is one.
    rw [if_neg empty] at stops
    simp [Semaphore.test] at stops

/-- A packet is read into an empty inbox, and its letter is the next one that was to arrive. -/
theorem Incoming.poll (incoming : office.Incoming hostName) :
    (office.poll hostName).Incoming hostName := by
  unfold PostOffice.poll
  -- The inbox is full, and nothing is read.
  split
  · exact incoming
  · rename_i empty
    have empty : office.inHdr.length = 0 := not_not.mp empty
    split
    · -- Nothing is there to be read.
      exact incoming
    · rename_i datagram socket waiting
      -- What lies in the socket is mail for this machine, and short enough.
      have genuine := incoming.socket datagram (by rw [waiting]; exact List.mem_cons_self)
      have accepted : (packetOf datagram).1.toHost = hostName ∧
          (packetOf datagram).1.length.toNat ≤ maxPacketSize := by
        refine ⟨?_, genuine.length_le⟩
        obtain ⟨mailHdr, data, posted, -⟩ := genuine
        exact posted.toHost
      simp only [if_pos accepted]
      -- The worker is told of it.
      obtain ⟨counted, messageAvailable, worker, same, moved⟩ :=
        incoming.counted.callBack empty genuine.length_ne socket
          (overlay (packetOf datagram).2 office.inbox)
          (office.read ++ [letterOf (packetOf datagram)])
      change Incoming hostName ({ office with
        socket
        inHdr := (packetOf datagram).1
        inbox := overlay (packetOf datagram).2 office.inbox
        read := office.read ++ [letterOf (packetOf datagram)] } : PostOffice Thread).callBack
      -- What is in the inbox now is the datagram, as far as its header says.
      rw [same] at counted ⊢
      have inside : ((packetOf datagram).1, (overlay (packetOf datagram).2 office.inbox).take
          (packetOf datagram).1.length.toNat) = packetOf datagram := by
        rw [take_overlay genuine.counted]
      refine ⟨incoming.sound, incoming.careful, incoming.lists, incoming.only, counted, ?_, ?_, ?_,
        ?_, ?_⟩
      · -- The worker is not in any other box than before.
        exact fun box elsewhere => incoming.elsewhere box fun there => elsewhere (moved box there)
      · -- The packet in the inbox is mail.
        intro _
        rw [packet, inside]
        exact genuine
      · -- What is left in the socket is mail.
        intro other member
        refine incoming.socket other ?_
        rw [waiting]
        exact List.mem_cons_of_mem datagram member
      · -- The letter moves from the socket to those that have been read.
        have arrived := incoming.arrived
        rw [waiting] at arrived
        simpa using arrived
      · -- The inbox held nothing, and now holds the letter.
        intro box
        have accounted := incoming.accounted box
        rw [inInbox, if_pos empty] at accounted
        have held : ({ office with
            socket
            inHdr := (packetOf datagram).1
            inbox := overlay (packetOf datagram).2 office.inbox
            messageAvailable
            worker
            read := office.read ++ [letterOf (packetOf datagram)] } : PostOffice Thread).inInbox =
              [letterOf (packetOf datagram)] := by
          rw [inInbox, if_neg genuine.length_ne, packet, inside]
        rw [held, List.filter_append, accounted]
        simp [boxed]

/-- What the worker takes from a full inbox is the message whose letter was in it. -/
theorem Incoming.taken (incoming : office.Incoming hostName) (full : office.inHdr.length ≠ 0) :
    ∃ mail, Mail.ofPacket office.inHdr office.receive.buffer = mail ∧
      office.inInbox = [mail.letter] ∧ 0 ≤ mail.mailHdr.toBox.toInt ∧
      mail.mailHdr.toBox.toInt < office.numBoxes ∧
      mail.mailHdr.length.toNat ≤ maxMailSize := by
  obtain ⟨mailHdr, data, posted, same⟩ := incoming.genuine full
  -- The buffer begins with the packet, whatever was in it before.
  have buffer : office.receive.buffer =
      mailHdr.toBytes ++ data ++ office.buffer.drop (mailHdr.toBytes ++ data).length := by
    simp only [packet] at same
    simp only [receive, if_pos full, same, overlay]
  refine ⟨⟨office.inHdr, mailHdr, data⟩, ?_, ?_, posted.box.1, posted.box.2, ?_⟩
  · -- The mail is read back from the buffer.
    rw [buffer]
    exact Mail.ofPacket_toBytes _ posted.mailLength _
  · -- Nothing comes behind the message in the packet itself.
    have plain := Mail.ofPacket_toBytes office.inHdr posted.mailLength []
    rw [List.append_nil] at plain
    rw [inInbox, if_neg full, letterOf, same]
    exact congrArg (fun mail => [Mail.letter mail]) plain
  · -- Its length is within the limit, since Send checks it.
    rw [posted.mailLength]
    exact posted.small

/-- The worker takes the packet there is, and begins to put its message into its box. -/
theorem Incoming.collect (incoming : office.Incoming hostName) {mail : Mail}
    {messages : SynchListSystem (Option Thread) Mail} (ready : office.worker = .ready)
    (found : Mail.ofPacket office.inHdr office.receive.buffer = mail)
    (legal : office.Delivers mail)
    (appended : (office.boxes mail.mailHdr.toBox.toInt.toNat).step (.append none mail) =
      some messages) :
    Incoming hostName { office.receive with
      worker := .delivering mail.mailHdr.toBox.toInt.toNat
      boxes := Function.update office.boxes mail.mailHdr.toBox.toInt.toNat messages } := by
  have counted := incoming.counted
  simp only [Counted, ready] at counted
  obtain ⟨available, full⟩ := counted
  -- The message is the one whose letter was in the inbox.
  obtain ⟨same, taken, letter, -⟩ := incoming.taken full
  obtain rfl : mail = same := found.symm.trans taken
  -- The worker is in none of the boxes yet.
  have elsewhere : ∀ box, (office.boxes box).stage none = .idle := fun box =>
    incoming.elsewhere box (by rw [ready]; exact WorkerStage.noConfusion)
  -- The message is the last of what the worker has put into this box.
  have pipeline := (incoming.only mail.mailHdr.toBox.toInt.toNat).append appended
  refine ⟨incoming.sound, ?_, ?_, ?_, ?_, ?_, ?_, incoming.socket, incoming.arrived, ?_⟩
  · -- The copy asserts that there was a packet.
    have notEmpty : (office.inHdr.length == 0) = false := by simpa using full
    simp only [receive, incoming.careful, notEmpty, Bool.or_self]
  · -- The one box takes a step, and the others none.
    intro box
    by_cases same : box = mail.mailHdr.toBox.toInt.toNat
    · rw [same]
      simp only [Function.update_self]
      exact SynchListSystem.invariant_step (incoming.lists _) appended
    · simp only [Function.update_of_ne same]
      exact incoming.lists box
  · -- The worker is the one producer of every box.
    intro box
    by_cases same : box = mail.mailHdr.toBox.toInt.toNat
    · rw [same]
      simp only [Function.update_self]
      exact pipeline.2
    · simp only [Function.update_of_ne same]
      exact incoming.only box
  · -- The semaphore had its unit taken for this packet.
    exact available
  · -- The worker is in this box now.
    intro box different
    have same : box ≠ mail.mailHdr.toBox.toInt.toNat := fun same => different (by rw [same])
    simp only [Function.update_of_ne same]
    exact elsewhere box
  · -- The inbox is empty.
    exact fun full => absurd rfl full
  · -- The letter is the last one that is on its way into its box now.
    intro box
    have accounted := incoming.accounted box
    rw [letter] at accounted
    refine accounted.trans ?_
    have emptied : ({ office.receive with
        worker := .delivering mail.mailHdr.toBox.toInt.toNat
        boxes := Function.update office.boxes mail.mailHdr.toBox.toInt.toNat messages } :
          PostOffice Thread).inInbox = [] := if_pos rfl
    rw [emptied, List.filter_nil, List.append_nil]
    by_cases same : box = mail.mailHdr.toBox.toInt.toNat
    · -- The letter is for this box, and is the last in it now.
      have chosen : isFor box mail.letter = true := by
        rw [isFor_iff, same]
        exact (Int.toNat_of_nonneg legal.1).symm
      rw [List.filter_cons_of_pos chosen, List.filter_nil, same]
      simp only [boxed, Function.update_self]
      rw [pipeline.1, List.map_append]
      rfl
    · -- The letter is for another box.
      have passed : ¬ isFor box mail.letter = true := by
        rw [isFor_iff]
        intro named
        exact same (by rw [show mail.mailHdr.toBox.toInt = box from named, Int.toNat_natCast])
      rw [List.filter_cons_of_neg passed, List.filter_nil, List.append_nil]
      simp only [boxed, Function.update_of_ne same]

/-- Work on one box that leaves its pipeline alone. -/
theorem Incoming.boxStep (incoming : office.Incoming hostName) {box : Nat}
    {messages : SynchListSystem (Option Thread) Mail} (lists : messages.Invariant)
    (pipeline : messages.pipeline none = (office.boxes box).pipeline none)
    (only : messages.Only none)
    (idle : (office.boxes box).stage none = .idle → messages.stage none = .idle) :
    Incoming hostName { office with boxes := Function.update office.boxes box messages } := by
  refine ⟨incoming.sound, incoming.careful, ?_, ?_, incoming.counted, ?_, incoming.genuine,
    incoming.socket, incoming.arrived, ?_⟩
  · intro other
    -- One box has changed, and what is said of another is as it was.
    by_cases same : other = box
    · simpa only [same, Function.update_self] using lists
    · simpa only [Function.update_of_ne same] using incoming.lists other
  · -- The worker is the only producer of that box too.
    intro other
    by_cases same : other = box
    · simpa only [same, Function.update_self] using only
    · simpa only [Function.update_of_ne same] using incoming.only other
  · -- Where the worker is not, it is not.
    intro other different
    have rests := incoming.elsewhere other different
    by_cases same : other = box
    · rw [same] at rests ⊢
      simpa only [Function.update_self] using idle rests
    · simpa only [Function.update_of_ne same] using rests
  · -- The box has what it had, as far as letters go.
    intro other
    refine (incoming.accounted other).trans ?_
    by_cases same : other = box
    · simp only [boxed, same, Function.update_self, pipeline]
      rfl
    · simp only [boxed, Function.update_of_ne same]
      rfl

/-- What the receiving side leaves alone. -/
def SameSender (office next : PostOffice Thread) : Prop :=
  next.sendBusy = office.sendBusy ∧ next.sender = office.sender ∧ next.numBoxes = office.numBoxes

omit [DecidableEq Thread] [Fintype Thread] in
/-- The interrupt that polls for a packet is of no concern to those who send. -/
theorem sameSender_poll (office : PostOffice Thread) (hostName : Word) :
    office.SameSender (office.poll hostName) := by
  obtain ⟨_, _, _, _, _, _, _, polled⟩ := office.poll_frame hostName
  rw [polled]
  exact ⟨rfl, rfl, rfl⟩

variable {numBoxes : Word → Nat}

omit [DecidableEq Thread] [Fintype Thread] in
/-- The sending side is kept by what leaves it alone. -/
theorem Outgoing.keep (outgoing : office.Outgoing numBoxes hostName)
    (same : office.SameSender next) : next.Outgoing numBoxes hostName :=
  ⟨same.1.trans outgoing.quiet, by rw [same.2.1]; exact outgoing.entering⟩

omit [Fintype Thread] in
/-- The sending side is kept by a thread that moves to a stage in which it has no packet. -/
theorem Outgoing.move (outgoing : office.Outgoing numBoxes hostName) {thread : Thread}
    {stage : SendStage} (without : ∀ pktHdr mailHdr data, stage = .entering pktHdr mailHdr data →
      office.sender thread = .entering pktHdr mailHdr data) (sendLock : LockSystem Thread)
    (messageSent : Semaphore Thread) (pendingSends : Nat) :
    Outgoing numBoxes hostName
      ({ office with sendLock, messageSent, pendingSends }.move thread stage) := by
  refine ⟨outgoing.quiet, ?_⟩
  intro other pktHdr mailHdr data
  -- The thread that moves has a packet afterwards only if it had it before.
  by_cases same : other = thread
  · subst same
    simp only [PostOffice.move, Function.update_self]
    exact fun entering => outgoing.entering _ _ _ _ (without _ _ _ entering)
  · simp only [PostOffice.move, Function.update_of_ne same]
    exact outgoing.entering other pktHdr mailHdr data

/-- A datagram carries its letter to a machine that can deliver it. -/
def Carries (numBoxes : Word → Nat) (datagram : Datagram) : Prop :=
  Genuine datagram.toHost (numBoxes datagram.toHost) (packetOf datagram.bytes) ∧
    letterOf (packetOf datagram.bytes) = datagram.letter

omit [DecidableEq Thread] [Fintype Thread] in
/-- The network accepts what it is given. -/
theorem Outgoing.accepts (outgoing : office.Outgoing numBoxes hostName) {thread : Thread}
    {pktHdr : PacketHeader} {mailHdr : MailHeader} {data : List Byte}
    (entering : office.sender thread = .entering pktHdr mailHdr data) :
    office.Accepts hostName pktHdr := by
  obtain ⟨fromHost, posted⟩ := outgoing.entering thread pktHdr mailHdr data entering
  have genuine : Genuine pktHdr.toHost (numBoxes pktHdr.toHost)
      (pktHdr, mailHdr.toBytes ++ data) := ⟨mailHdr, data, posted, rfl⟩
  exact ⟨outgoing.quiet, genuine.length_ne, genuine.length_le, fromHost⟩

omit [DecidableEq Thread] [Fintype Thread] in
/-- What it is given goes out whole. -/
theorem Outgoing.carries (outgoing : office.Outgoing numBoxes hostName) {thread : Thread}
    {pktHdr : PacketHeader} {mailHdr : MailHeader} {data : List Byte}
    (entering : office.sender thread = .entering pktHdr mailHdr data) (padding : List Byte) :
    Carries numBoxes
      ⟨pktHdr.toHost, wire pktHdr mailHdr data padding, ⟨hostName, mailHdr, data⟩⟩ := by
  obtain ⟨fromHost, posted⟩ := outgoing.entering thread pktHdr mailHdr data entering
  -- The packet that is read is the one that was sent, with its mail in it.
  have read : packetOf (wire pktHdr mailHdr data padding) = (pktHdr, mailHdr.toBytes ++ data) :=
    packetOf_wire posted.packetLength padding
  refine ⟨?_, ?_⟩
  · rw [read]
    -- It is mail for a machine with enough boxes.
    exact ⟨mailHdr, data, posted, rfl⟩
  · -- The letter in it is the one that was sent.
    have mail := Mail.ofPacket_toBytes pktHdr posted.mailLength []
    rw [List.append_nil] at mail
    rw [read, letterOf, mail]
    exact congrArg (fun host => (⟨host, mailHdr, data⟩ : Letter)) fromHost

/-- A call of `Send` prepares a packet that the other machine can deliver. -/
theorem posted_send {toHost : Word} {mailHdr : MailHeader} {data : List Byte}
    (small : mailHdr.length.toNat ≤ maxMailSize) (nonneg : 0 ≤ mailHdr.toBox.toInt)
    (held : mailHdr.length.toNat ≤ data.length)
    (addressed : mailHdr.toBox.toInt < numBoxes toHost) :
    Posted toHost (numBoxes toHost)
      ⟨toHost, hostName, mailHdr.length + BitVec.ofNat 32 sizeofHeader⟩ mailHdr
      (data.take mailHdr.length.toNat) := by
  -- There are as many bytes as the header says, and the sum is far below 2 to the 32.
  have cut : (data.take mailHdr.length.toNat).length = mailHdr.length.toNat := by
    rw [List.length_take]
    omega
  refine ⟨rfl, ?_, cut.symm, cut.le.trans small, nonneg, addressed⟩
  have bound : mailHdr.length.toNat ≤ 40 := small
  rw [cut]
  simp only [BitVec.toNat_add, BitVec.toNat_ofNat, sizeofHeader]
  omega

/-- Every step of a machine keeps both of its sides, and sends nothing but mail. -/
theorem Incoming.step (incoming : office.Incoming hostName)
    (outgoing : office.Outgoing numBoxes hostName) {event : PostEvent Thread}
    (addressed : ∀ thread toHost mailHdr data, event = .send thread toHost mailHdr data →
      mailHdr.toBox.toInt < numBoxes toHost)
    {sent : Option Datagram} (stepped : office.step hostName event = some (next, sent)) :
    next.Incoming hostName ∧ next.Outgoing numBoxes hostName ∧ next.numBoxes = office.numBoxes ∧
      ∀ datagram, sent = some datagram → Carries numBoxes datagram := by
  -- Only the transmission of a packet sends anything.
  have nothing : ∀ datagram : Datagram, none = some datagram → Carries numBoxes datagram :=
    fun _ none => by cases none
  -- By cases on the step; what has to do with receiving leaves the sending side, and the other way.
  cases step_cases stepped with
  | poll =>
    have same := sameSender_poll office hostName
    exact ⟨incoming.poll, outgoing.keep same, same.2.2, nothing⟩
  | available waiting passes =>
    exact ⟨incoming.available waiting passes, outgoing.keep ⟨rfl, rfl, rfl⟩, rfl, nothing⟩
  | unavailable waiting stops =>
    exact ⟨incoming.unavailable waiting stops, outgoing.keep ⟨rfl, rfl, rfl⟩, rfl, nothing⟩
  -- The worker puts a message into its box.
  | collect ready taken delivers appended =>
    exact ⟨incoming.collect ready taken delivers appended, outgoing.keep ⟨rfl, rfl, rfl⟩, rfl,
      nothing⟩
  | reject ready found illegal =>
    -- What lies in the inbox is mail, which passes all the checks.
    have counted := incoming.counted
    simp only [Counted, ready] at counted
    obtain ⟨_, taken, -, legal⟩ := incoming.taken counted.2
    rw [← found, taken] at illegal
    exact absurd legal illegal
  -- The worker is back from the box, and looks for the next packet.
  | @again box delivering idle =>
    have counted := incoming.counted
    simp only [Counted, delivering] at counted
    refine ⟨⟨incoming.sound, incoming.careful, incoming.lists, incoming.only, counted, ?_,
      incoming.genuine, incoming.socket, incoming.arrived, incoming.accounted⟩,
      outgoing.keep ⟨rfl, rfl, rfl⟩, rfl, nothing⟩
    -- The box that the message was put into is like the others now.
    intro other _
    by_cases same : other = box
    · rw [same]
      exact idle
    · refine incoming.elsewhere other fun there => same ?_
      rw [delivering] at there
      exact (WorkerStage.delivering.inj there).symm
  -- A thread begins to receive, which takes nothing from the worker.
  | @receive thread box messages begun =>
    obtain ⟨pipeline, only, same⟩ := (incoming.only box).removeFront (by simp) begun
    exact ⟨incoming.boxStep (SynchListSystem.invariant_step (incoming.lists box) begun) pipeline
      only fun idle => same.trans idle, outgoing.keep ⟨rfl, rfl, rfl⟩, rfl, nothing⟩
  -- Work in a box goes on.
  | @box box piece messages goesOn went =>
    obtain ⟨pipeline, only, idle⟩ := (incoming.only box).goesOn goesOn went
    exact ⟨incoming.boxStep (SynchListSystem.invariant_step (incoming.lists box) went) pipeline
      only idle, outgoing.keep ⟨rfl, rfl, rfl⟩, rfl, nothing⟩
  -- A call of Send begins, with a packet that can be delivered.
  | @send thread toHost mailHdr data idle small nonneg held =>
    have named := addressed thread toHost mailHdr data rfl
    refine ⟨incoming.outgoing _ _ _ _ _, ⟨outgoing.quiet, ?_⟩, rfl, nothing⟩
    -- The caller has a packet for a box of the other machine, and the others are where they were.
    intro other pktHdr otherHdr otherData
    by_cases same : other = thread
    · simp only [PostOffice.move, same, Function.update_self]
      intro entering
      cases entering
      exact ⟨rfl, posted_send small nonneg held named⟩
    · simp only [PostOffice.move, Function.update_of_ne same]
      exact outgoing.entering other pktHdr otherHdr otherData
  -- A piece of the lock of the sending side.
  | @lock piece sendLock allowed moved =>
    refine ⟨incoming.outgoing _ _ _ _ _, outgoing.move ?_ sendLock office.messageSent
      office.pendingSends, rfl, nothing⟩
    -- A call that is given a packet is the call it was before.
    intro pktHdr mailHdr data entering
    cases piece <;> cases stage : office.sender _ <;> simp_all [SendStage.after]
  -- The packet goes out, or is dropped on the way.
  | @transmit thread dropped padding pktHdr mailHdr data entering holding accepted =>
    refine ⟨incoming.outgoing _ _ _ _ _, outgoing.move (fun _ _ _ other => by cases other)
      office.sendLock office.messageSent _, rfl, fun datagram sent => ?_⟩
    cases dropped with
    | true => cases sent
    | false =>
      cases sent
      exact outgoing.carries entering padding
  | refuse entering holding refused =>
    -- The network is never busy, and the packet is one that it takes.
    exact absurd (outgoing.accepts entering) refused
  -- The test of the semaphore after the packet is given away.
  | sentP | unsentP =>
    exact ⟨incoming.outgoing _ _ _ _ _, outgoing.move (fun _ _ _ other => by cases other)
      office.sendLock _ office.pendingSends, rfl, nothing⟩
  -- The network is free again, and whoever waits for it is woken.
  | sentInterrupt pending =>
    have quiet : Outgoing numBoxes hostName { office with sendBusy := false } :=
      ⟨rfl, outgoing.entering⟩
    rcases office.sent_cases with ⟨messageSent, -, same⟩ | ⟨messageSent, woken, -, same⟩
    · rw [same]
      exact ⟨incoming.outgoing _ _ _ _ _, ⟨rfl, outgoing.entering⟩, rfl, nothing⟩
    · rw [same]
      exact ⟨incoming.outgoing _ _ _ _ _, quiet.move (fun _ _ _ other => by cases other)
        office.sendLock _ _, rfl, nothing⟩

/-- A datagram that is delivered is the last one of the socket, and its letter the last to arrive. -/
theorem Incoming.deliver (incoming : office.Incoming hostName) {bytes : List Byte} {letter : Letter}
    (genuine : Genuine hostName office.numBoxes (packetOf bytes))
    (same : letterOf (packetOf bytes) = letter) :
    Incoming hostName { office with
      socket := office.socket ++ [bytes]
      arrived := office.arrived ++ [letter] } := by
  refine ⟨incoming.sound, incoming.careful, incoming.lists, incoming.only, incoming.counted,
    incoming.elsewhere, incoming.genuine, ?_, ?_, incoming.accounted⟩
  · -- The socket has one datagram more, which is mail.
    intro datagram member
    rcases List.mem_append.mp member with before | last
    · exact incoming.socket datagram before
    · rw [List.mem_singleton.mp last]
      exact genuine
  · -- The letter has arrived, and lies in the socket.
    simp only [incoming.arrived, List.map_append, List.append_assoc]
    simp [same]

omit [DecidableEq Thread] in
/-- A new post office has nothing in it. -/
theorem incoming_new [DecidableEq Thread] (numBoxes : Nat) (inHdr : PacketHeader)
    (inbox buffer : List Byte) :
    Incoming hostName (new numBoxes inHdr inbox buffer : PostOffice Thread) := by
  refine ⟨rfl, rfl, fun _ => SynchListSystem.invariant_new, fun _ _ _ => rfl, rfl, fun _ _ => rfl,
    fun full => absurd rfl full, ?_, rfl, fun _ => rfl⟩
  intro datagram member
  cases member

end PostOffice

namespace PostSystem

variable [DecidableEq Thread] [Fintype Thread] {sys next : PostSystem Thread}
  {numBoxes : Word → Nat}

/-- What every run of the machines keeps of one of them. -/
structure Kept (numBoxes : Word → Nat) (hostName : Word) (office : PostOffice Thread) : Prop where
  boxes : office.numBoxes = numBoxes hostName
  incoming : office.Incoming hostName
  outgoing : office.Outgoing numBoxes hostName

/-- What every run of the machines keeps. -/
def Invariant (numBoxes : Word → Nat) (sys : PostSystem Thread) : Prop :=
  ∀ hostName, Kept numBoxes hostName (sys.office hostName)

/-- One machine may change, as long as the same goes on to hold of it. -/
theorem Invariant.update (inv : sys.Invariant numBoxes) {hostName : Word}
    {office : PostOffice Thread} (changed : Kept numBoxes hostName office) :
    Invariant numBoxes { office := Function.update sys.office hostName office } := by
  intro other
  by_cases same : other = hostName
  · simp only [same, Function.update_self]
    exact changed
  · simp only [Function.update_of_ne same]
    exact inv other

omit [Fintype Thread] in
/-- One machine takes a step, and what it sends, if anything, is delivered at once. -/
theorem step_cases {hostName : Word} {event : PostEvent Thread}
    (stepped : sys.step (hostName, event) = some next) :
    (∃ office, (sys.office hostName).step hostName event = some (office, none) ∧
      next = { office := Function.update sys.office hostName office }) ∨
    (∃ office datagram, (sys.office hostName).step hostName event = some (office, some datagram) ∧
      next = deliver { office := Function.update sys.office hostName office } datagram) := by
  -- The machine may send nothing, or one datagram, or not step at all.
  unfold PostSystem.step at stepped
  simp only at stepped
  split at stepped
  · cases stepped
  · rename_i office worked
    cases stepped
    exact .inl ⟨office, worked, rfl⟩
  · rename_i office datagram worked
    cases stepped
    exact .inr ⟨office, datagram, worked, rfl⟩

/-- A machine that takes a step goes on as before, and sends nothing but mail for boxes. -/
theorem Invariant.works (inv : sys.Invariant numBoxes) {hostName : Word} {event : PostEvent Thread}
    (addressed : sys.Addressed (hostName, event)) {office : PostOffice Thread}
    {sent : Option Datagram}
    (worked : (sys.office hostName).step hostName event = some (office, sent)) :
    Invariant numBoxes { office := Function.update sys.office hostName office } ∧
      ∀ datagram, sent = some datagram → PostOffice.Carries numBoxes datagram := by
  -- The call of Send that begins, if one does, is for a box that there is.
  have named : ∀ thread toHost mailHdr data, event = .send thread toHost mailHdr data →
      mailHdr.toBox.toInt < numBoxes toHost := by
    intro thread toHost mailHdr data sends
    subst sends
    rw [← (inv toHost).boxes]
    exact addressed
  -- Both sides of the machine are kept.
  obtain ⟨incoming, outgoing, boxes, carries⟩ :=
    (inv hostName).incoming.step (inv hostName).outgoing named worked
  exact ⟨inv.update ⟨boxes.trans (inv hostName).boxes, incoming, outgoing⟩, carries⟩

/-- One step of one machine keeps what is known of all of them. -/
theorem Invariant.step (inv : sys.Invariant numBoxes) {located : Word × PostEvent Thread}
    (addressed : sys.Addressed located) (stepped : sys.step located = some next) :
    next.Invariant numBoxes := by
  rcases step_cases stepped with ⟨office, worked, rfl⟩ | ⟨office, datagram, worked, rfl⟩
  · -- Nothing is sent, so only one machine has changed.
    exact (inv.works addressed worked).1
  · -- The sender changes first, and then the machine that the datagram is for, maybe the same one.
    obtain ⟨changed, carries⟩ := inv.works addressed worked
    have target := changed datagram.toHost
    obtain ⟨genuine, same⟩ := carries datagram rfl
    rw [← target.boxes] at genuine
    exact changed.update ⟨target.boxes, target.incoming.deliver genuine same,
      ⟨target.outgoing.quiet, target.outgoing.entering⟩⟩

/-- The machines when they are switched on, with whatever lies in their buffers. -/
def boot (numBoxes : Word → Nat) (inHdr : Word → PacketHeader) (inbox buffer : Word → List Byte) :
    PostSystem Thread where
  office hostName := .new (numBoxes hostName) (inHdr hostName) (inbox hostName) (buffer hostName)

/-- Machines that have just been switched on satisfy the invariant. -/
theorem invariant_boot (inHdr : Word → PacketHeader) (inbox buffer : Word → List Byte) :
    (boot numBoxes inHdr inbox buffer : PostSystem Thread).Invariant numBoxes := fun hostName =>
  ⟨rfl, PostOffice.incoming_new _ _ _ _, rfl, fun _ _ _ _ entering => by cases entering⟩

end PostSystem

/--
Mail is delivered in order, whole and at most once.

What the threads of a machine have received from a box is a prefix of the mail for that box that was
not dropped, in the order of the socket, with the mail header and the data that were passed to
`Send` and the name of the machine that sent it. The postal worker never finds the inbox empty. What
has been read from the socket has been received, or is in its box, in the worker's hands or in the
inbox, so that no packet is overwritten before it is delivered; and no assertion about a packet
fails.
-/
theorem mail_delivered [DecidableEq Thread] [Fintype Thread] (numBoxes : Word → Nat)
    (inHdr : Word → PacketHeader) (inbox buffer : Word → List Byte)
    (events : List (Word × PostEvent Thread)) (sys : PostSystem Thread)
    (addressed : EveryStep PostSystem.step PostSystem.Addressed
      (.boot numBoxes inHdr inbox buffer) events)
    (reached : replay PostSystem.step (.boot numBoxes inHdr inbox buffer) events = some sys) :
    ∀ hostName box,
      sys.received hostName box <+: sys.undropped hostName box ∧
      (sys.office hostName).tookEmpty = false ∧
      (sys.office hostName).read.filter (PostOffice.isFor box) =
        sys.received hostName box ++ ((sys.office hostName).boxes box).list.map Mail.letter ++
          (((sys.office hostName).boxes box).stage none).item.toList.map Mail.letter ++
          (sys.office hostName).inInbox.filter (PostOffice.isFor box) ∧
      (sys.office hostName).aborted = false := by
  -- The invariant holds of all machines all along.
  have inv : sys.Invariant numBoxes :=
    replay_guarded (fun _ _ _ inv addressed stepped => inv.step addressed stepped)
      (PostSystem.invariant_boot inHdr inbox buffer) addressed reached
  intro hostName box
  have incoming := (inv hostName).incoming
  -- What was put into the box is what has been received and what is still there.
  have boxed : (sys.office hostName).boxed box =
      sys.received hostName box ++ ((sys.office hostName).boxes box).list.map Mail.letter ++
        (((sys.office hostName).boxes box).stage none).item.toList.map Mail.letter := by
    rw [PostOffice.boxed, SynchListSystem.pipeline, ← (incoming.lists box).fifo, List.map_append,
      List.map_append]
    rfl
  have read := incoming.accounted box
  rw [boxed] at read
  refine ⟨?_, incoming.careful, read, incoming.sound⟩
  -- What has arrived undropped has been read, or lies in the socket.
  have arrived : sys.undropped hostName box =
      (sys.office hostName).read.filter (PostOffice.isFor box) ++
        ((sys.office hostName).socket.map (letterOf ∘ packetOf)).filter
          (PostOffice.isFor box) := by
    rw [← List.filter_append, ← incoming.arrived]
    rfl
  -- So what was received is the front of it.
  rw [arrived, read]
  simp only [List.append_assoc]
  exact List.prefix_append _ _

/-- Machine 0 sends two bytes to box 0 of machine 1, where a thread receives them. -/
def oneLetter : List (Word × PostEvent Bool) :=
  [(1, .available), (0, .send false 1 ⟨0, 5, 2⟩ [7, 8]), (0, .lock (.acquire false)),
    (0, .lock (.p false)), (0, .lock (.hold false)), (0, .transmit false false [9]),
    (0, .sentInterrupt), (1, .poll), (1, .available), (1, .collect), (0, .sentP false),
    (0, .lock (.release false)), (0, .lock (.v false)), (1, .box 0 (.lock (.acquire none))),
    (1, .box 0 (.lock (.p none))), (1, .box 0 (.lock (.hold none))), (1, .receive true 0),
    (1, .box 0 (.put none)), (1, .box 0 (.lock (.release none))), (1, .box 0 (.lock (.v none))),
    (1, .again), (1, .box 0 (.lock (.acquire (some true)))), (1, .box 0 (.lock (.p (some true)))),
    (1, .box 0 (.lock (.hold (some true)))), (1, .box 0 (.test (some true)))]

/-- The letter is received, and is all the mail there was for the box. -/
theorem mail_delivered_one :
    ∃ sys : PostSystem Bool,
      replay PostSystem.step
        (.boot (fun _ => 1) (fun _ => ⟨0, 0, 0⟩) (fun _ => []) fun _ => []) oneLetter = some sys ∧
      sys.received 1 0 = [⟨0, ⟨0, 5, 2⟩, [7, 8]⟩] ∧
      sys.received 1 0 <+: sys.undropped 1 0 := by
  -- The run is evaluated, and the theorem says the rest.
  have evaluated : (replay PostSystem.step
      (.boot (fun _ => 1) (fun _ => ⟨0, 0, 0⟩) (fun _ => []) fun _ => []) oneLetter).map
        (fun sys => sys.received 1 0) = some [⟨0, ⟨0, 5, 2⟩, [7, 8]⟩] := by decide +kernel
  obtain ⟨sys, reached, received⟩ := Option.map_eq_some_iff.mp evaluated
  refine ⟨sys, reached, received, ?_⟩
  exact (mail_delivered _ _ _ _ oneLetter sys (by decide +kernel) reached 1 0).1

end

end Nachos
