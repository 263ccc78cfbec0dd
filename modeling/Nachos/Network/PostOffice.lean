import Nachos.Network.Packet
import Nachos.Threads.SynchList

/-! Post offices on machines that send each other packets: their threads, workers and interrupts. -/

namespace Nachos

section

variable {Thread : Type} [DecidableEq Thread]

/-- What a call of `Send` passes on, and what a call of `Receive` should get. -/
structure Letter where
  fromHost : Word
  mailHdr : MailHeader
  data : List Byte
  deriving DecidableEq

/-- What the caller of `Receive` finds of a message. -/
def Mail.letter (mail : Mail) : Letter := ⟨mail.pktHdr.fromHost, mail.mailHdr, mail.data⟩

/-- Where the postal worker stands in `PostalDelivery`. -/
inductive WorkerStage
  -- In front of the test in P of messageAvailable.
  | waiting
  -- Asleep in that P.
  | parked
  -- P has returned, and the packet is not taken yet.
  | ready
  -- Putting a message into this box.
  | delivering (box : Nat)
  deriving DecidableEq

/-- Where a thread stands in its call of `Send`. -/
inductive SendStage
  | idle
  -- In Acquire, or back from it.
  | entering (pktHdr : PacketHeader) (mailHdr : MailHeader) (data : List Byte)
  -- The network has the packet, and P of messageSent is about to test the value.
  | waiting
  -- Asleep in that P.
  | parked
  -- In front of Release, or inside it.
  | leaving

/--
The post office of one machine, with its network device, and how far each thread is in its calls.

The threads of the mail boxes are those that call `Receive`, and the postal worker, who is none of
them.
-/
structure PostOffice (Thread : Type) where
  numBoxes : Nat
  -- The datagrams that have been sent to this machine and not been read.
  socket : List (List Byte)
  inHdr : PacketHeader
  inbox : List Byte
  messageAvailable : Semaphore Unit
  worker : WorkerStage
  -- The worker's buffer.
  buffer : List Byte
  boxes : Nat → SynchListSystem (Option Thread) Mail
  sendLock : LockSystem Thread
  messageSent : Semaphore Thread
  sendBusy : Bool
  -- How many packets have been sent without the interrupt that says so.
  pendingSends : Nat
  sender : Thread → SendStage
  -- An assertion about a packet has failed.
  aborted : Bool
  -- The letters whose packets got into the socket, and those read from it, for the record only.
  arrived : List Letter
  read : List Letter
  -- The worker has taken a packet from an empty inbox.
  tookEmpty : Bool

namespace PostOffice

/-- The constructors: nothing has been sent, and the worker has just been forked. -/
def new (numBoxes : Nat) (inHdr : PacketHeader) (inbox buffer : List Byte) : PostOffice Thread where
  numBoxes
  socket := []
  inHdr := { inHdr with length := 0 }
  inbox
  messageAvailable := .new 0
  worker := .waiting
  buffer
  boxes := fun _ => .new
  sendLock := .new
  messageSent := .new 0
  sendBusy := false
  pendingSends := 0
  sender := fun _ => .idle
  aborted := false
  arrived := []
  read := []
  tookEmpty := false

/-- `PostOfficeInput::CallBack`: a packet has arrived. -/
def callBack (office : PostOffice Thread) : PostOffice Thread :=
  match office.messageAvailable.v with
  | (messageAvailable, none) => { office with messageAvailable }
  | (messageAvailable, some ()) => { office with messageAvailable, worker := .waiting }

/-- Lay a packet over what the inbox, or a buffer, held. -/
def overlay (data held : List Byte) : List Byte := data ++ held.drop data.length

/-- `NetworkInput::CallBack`: read a packet, if there is one and the last one has been taken. -/
def poll (office : PostOffice Thread) (hostName : Word) : PostOffice Thread :=
  if office.inHdr.length ≠ 0 then office
  else
    match office.socket with
    | [] => office
    | datagram :: socket =>
      let (inHdr, data) := packetOf datagram
      if inHdr.toHost = hostName ∧ inHdr.length.toNat ≤ maxPacketSize then
        { office with
          socket
          inHdr
          inbox := overlay data office.inbox
          read := office.read ++ [(Mail.ofPacket inHdr data).letter] }.callBack
      else { office with socket, aborted := true }

/-- `NetworkInput::Receive`: empty the inbox into the worker's buffer, unless it is empty. -/
def receive (office : PostOffice Thread) : PostOffice Thread :=
  let length := office.inHdr.length.toNat
  { office with
    inHdr := { office.inHdr with length := 0 }
    buffer := if office.inHdr.length ≠ 0 then overlay (office.inbox.take length) office.buffer
      else office.buffer
    tookEmpty := office.tookEmpty || office.inHdr.length == 0 }

/-- `PostalDelivery` from the return of `P` to the call of `Append` on the mail box. -/
def collect (office : PostOffice Thread) : Option (PostOffice Thread) :=
  let pktHdr := office.inHdr
  let office := office.receive
  let mail := Mail.ofPacket pktHdr office.buffer
  let box := mail.mailHdr.toBox.toInt
  if 0 ≤ box ∧ box < office.numBoxes ∧ mail.mailHdr.length.toNat ≤ maxMailSize then
    ((office.boxes box.toNat).step (.append none mail)).map fun messages =>
      { office with
        worker := .delivering box.toNat
        boxes := Function.update office.boxes box.toNat messages }
  else some { office with aborted := true }

/-- The thread moves on to another stage of its call of `Send`. -/
def move (office : PostOffice Thread) (thread : Thread) (stage : SendStage) : PostOffice Thread :=
  { office with sender := Function.update office.sender thread stage }

/-- `NetworkOutput::CallBack`, which calls `PostOfficeOutput::CallBack`. -/
def sent (office : PostOffice Thread) : PostOffice Thread :=
  let office := { office with pendingSends := office.pendingSends - 1, sendBusy := false }
  match office.messageSent.v with
  | (messageSent, none) => { office with messageSent }
  | (messageSent, some woken) => { office with messageSent }.move woken .waiting

end PostOffice

/-- The pieces of a post office's work between which others may run. -/
inductive PostEvent (Thread : Type)
  -- The interrupt that polls the socket.
  | poll
  -- P of messageAvailable, called by the postal worker, tests the value.
  | available
  -- The worker takes the packet, and begins to put it into its box.
  | collect
  -- The worker has put a message into its box, and goes round its loop.
  | again
  -- Receive is called.
  | receive (thread : Thread) (box : Nat)
  -- A piece of the work on the list of messages in a box, by the worker or in Receive.
  | box (box : Nat) (event : SynchListEvent (Option Thread) Mail)
  -- Send is called, with so much data in its buffer.
  | send (thread : Thread) (toHost : Word) (mailHdr : MailHeader) (data : List Byte)
  -- A piece of Acquire or Release of the send lock.
  | lock (piece : LockEvent Thread)
  -- The thread has the send lock, and gives its packet to the network, which may drop it.
  | transmit (thread : Thread) (dropped : Bool) (padding : List Byte)
  -- P of messageSent, called in Send, tests the value.
  | sentP (thread : Thread)
  -- The interrupt that says that a packet has been sent.
  | sentInterrupt

/-- The calls of the lock that a thread makes in `Send`; the others go on inside one. -/
def SendStage.allows : LockEvent Thread → SendStage → Bool
  | .acquire _, .entering _ _ _ => true
  | .release _, .leaving => true
  | .acquire _, _ | .release _, _ => false
  | .p _, _ | .hold _, _ | .v _, _ => true

/-- The return from `Release` is the return from `Send`. -/
def SendStage.after : LockEvent Thread → SendStage → SendStage
  | .v _, .leaving => .idle
  | _, stage => stage

/-- The pieces of work on a box that go on inside a call that has begun. -/
def SynchListEvent.goesOn {Item : Type} : SynchListEvent Thread Item → Bool
  | .append _ _ | .removeFront _ => false
  | .lock _ | .p _ | .put _ | .test _ => true

/-- The event is the beginning of a call. -/
def PostEvent.begins : PostEvent Thread → Bool
  | .send _ _ _ _ | .receive _ _ => true
  | .poll | .available | .collect | .again | .box _ _ | .lock _ | .transmit _ _ _ | .sentP _
  | .sentInterrupt => false

/-- A datagram on its way to a machine, with the letter that is in it. -/
structure Datagram where
  toHost : Word
  bytes : List Byte
  letter : Letter

/-- `NetworkOutput::Send`, and on to `P` of messageSent: the datagram, if it is not dropped. -/
def PostOffice.transmit (office : PostOffice Thread) (hostName : Word) (thread : Thread)
    (pktHdr : PacketHeader) (mailHdr : MailHeader) (data padding : List Byte) (dropped : Bool) :
    PostOffice Thread × Option Datagram :=
  if office.sendBusy = false ∧ pktHdr.length ≠ 0 ∧ pktHdr.length.toNat ≤ maxPacketSize ∧
      pktHdr.fromHost = hostName then
    ({ office with pendingSends := office.pendingSends + 1 }.move thread .waiting,
      if dropped then none
      else some ⟨pktHdr.toHost, wire pktHdr mailHdr data padding, ⟨hostName, mailHdr, data⟩⟩)
  else ({ office with aborted := true }, none)

/-- One step on one machine, refused when nobody is there, with what goes out on the wire. -/
def PostOffice.step (office : PostOffice Thread) (hostName : Word) :
    PostEvent Thread → Option (PostOffice Thread × Option Datagram)
  | .poll => some (office.poll hostName, none)
  | .available =>
    if office.worker = .waiting then
      match office.messageAvailable.test () with
      | (messageAvailable, true) => some ({ office with messageAvailable, worker := .ready }, none)
      | (messageAvailable, false) => some ({ office with messageAvailable, worker := .parked }, none)
    else none
  | .collect => if office.worker = .ready then office.collect.map (·, none) else none
  | .again =>
    match office.worker with
    | .delivering box =>
      match (office.boxes box).stage none with
      | .idle => some ({ office with worker := .waiting }, none)
      | _ => none
    | _ => none
  | .receive thread box =>
    if box < office.numBoxes then
      ((office.boxes box).step (.removeFront (some thread))).map fun messages =>
        ({ office with boxes := Function.update office.boxes box messages }, none)
    else none
  | .box box event =>
    if event.goesOn then
      ((office.boxes box).step event).map fun messages =>
        ({ office with boxes := Function.update office.boxes box messages }, none)
    else none
  | .send thread toHost mailHdr data =>
    match office.sender thread with
    | .idle =>
      if mailHdr.length.toNat ≤ maxMailSize ∧ 0 ≤ mailHdr.toBox.toInt ∧
          mailHdr.length.toNat ≤ data.length then
        let pktHdr := ⟨toHost, hostName, mailHdr.length + BitVec.ofNat 32 sizeofHeader⟩
        some (office.move thread (.entering pktHdr mailHdr (data.take mailHdr.length.toNat)), none)
      else none
    | _ => none
  | .lock piece =>
    if (office.sender piece.thread).allows piece then
      (office.sendLock.step piece).map fun sendLock =>
        ({ office with sendLock }.move piece.thread ((office.sender piece.thread).after piece), none)
    else none
  | .transmit thread dropped padding =>
    match office.sender thread with
    | .entering pktHdr mailHdr data =>
      if office.sendLock.stage thread = .holding then
        some (office.transmit hostName thread pktHdr mailHdr data padding dropped)
      else none
    | _ => none
  | .sentP thread =>
    match office.sender thread with
    | .waiting =>
      match office.messageSent.test thread with
      | (messageSent, true) => some ({ office with messageSent }.move thread .leaving, none)
      | (messageSent, false) => some ({ office with messageSent }.move thread .parked, none)
    | _ => none
  | .sentInterrupt => if office.pendingSends = 0 then none else some (office.sent, none)

/-- The machines, by their host names. A machine that nobody runs does nothing. -/
structure PostSystem (Thread : Type) where
  office : Word → PostOffice Thread

namespace PostSystem

/-- A datagram gets into the socket of the machine it is for. -/
def deliver (sys : PostSystem Thread) (datagram : Datagram) : PostSystem Thread :=
  let office := sys.office datagram.toHost
  { office := Function.update sys.office datagram.toHost { office with
      socket := office.socket ++ [datagram.bytes]
      arrived := office.arrived ++ [datagram.letter] } }

/-- One step of one machine. -/
def step (sys : PostSystem Thread) (located : Word × PostEvent Thread) :
    Option (PostSystem Thread) :=
  match (sys.office located.1).step located.1 located.2 with
  | none => none
  | some (office, none) => some { office := Function.update sys.office located.1 office }
  | some (office, some datagram) =>
    some (deliver { office := Function.update sys.office located.1 office } datagram)

/-- The mail that threads have received from a box, in the order in which they took it. -/
def received (sys : PostSystem Thread) (hostName : Word) (box : Nat) : List Letter :=
  ((sys.office hostName).boxes box).removed.map Mail.letter

/-- The mail for a box whose packets were not dropped, in the order of the socket. -/
def undropped (sys : PostSystem Thread) (hostName : Word) (box : Nat) : List Letter :=
  (sys.office hostName).arrived.filter fun letter => letter.mailHdr.toBox.toInt = box

/-- Whoever sends mail names a box that the other machine has. -/
def Addressed (sys : PostSystem Thread) (located : Word × PostEvent Thread) : Prop :=
  match located.2 with
  | .send _ toHost mailHdr _ => mailHdr.toBox.toInt < (sys.office toHost).numBoxes
  | _ => True

instance (sys : PostSystem Thread) : DecidablePred sys.Addressed
  | (_, .send _ toHost mailHdr _) =>
    inferInstanceAs (Decidable (mailHdr.toBox.toInt < (sys.office toHost).numBoxes))
  | (_, .poll) | (_, .available) | (_, .collect) | (_, .again) | (_, .receive _ _)
  | (_, .box _ _) | (_, .lock _) | (_, .transmit _ _ _) | (_, .sentP _)
  | (_, .sentInterrupt) => isTrue trivial

end PostSystem

end

end Nachos
