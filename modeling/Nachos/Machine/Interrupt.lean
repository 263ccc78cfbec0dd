import Nachos.Lib.List
import Nachos.Theory.Run

/-! Simulated time, and the interrupts that the devices schedule in it. -/

namespace Nachos

/-- Whether interrupts are taken. -/
inductive IntStatus
  | intOff
  | intOn
  deriving DecidableEq, Repr

/-- What the machine is doing. -/
inductive MachineStatus
  | idleMode
  | systemMode
  | userMode
  deriving DecidableEq, Repr

/-- The devices that cause interrupts. -/
inductive IntType
  | timerInt
  | diskInt
  | consoleWriteInt
  | consoleReadInt
  | networkSendInt
  | networkRecvInt
  deriving DecidableEq, Repr

/-- An interrupt that is to occur; each object is known by the number of its allocation. -/
structure PendingInterrupt where
  object : Nat
  callOnInterrupt : Nat
  «when» : Int
  type : IntType
  deriving DecidableEq, Repr

/-- The clock, and what the time went into. -/
structure Statistics where
  totalTicks : Int
  idleTicks : Int
  systemTicks : Int
  userTicks : Int
  deriving DecidableEq, Repr

/-- The ticks of one user instruction. -/
abbrev userTick : Int := 1

/-- The ticks of one time that interrupts are enabled. -/
abbrev systemTick : Int := 10

/-- The simulated interrupt hardware, with a record of what it did. -/
structure Interrupt where
  level : IntStatus
  pending : List PendingInterrupt
  inHandler : Bool
  status : MachineStatus
  stats : Statistics
  -- How many interrupts have been scheduled, which numbers the next one.
  scheduled : Nat
  -- The handlers called, in order, with the time of each call.
  fired : List (PendingInterrupt × Int)
  halted : Bool
  deriving DecidableEq, Repr

/-- The constructor, at time zero. -/
def Interrupt.new : Interrupt :=
  { level := .intOff, pending := [], inHandler := false, status := .systemMode
    stats := { totalTicks := 0, idleTicks := 0, systemTicks := 0, userTicks := 0 }
    scheduled := 0, fired := [], halted := false }

/-- `PendingCompare`: which of two interrupts should occur first. -/
def pendingCompare (x y : PendingInterrupt) : Int :=
  if x.when < y.when then -1 else if x.when > y.when then 1 else 0

/-- The arguments of `Schedule`, which asserts that the interrupt lies in the future. -/
structure Request where
  toCall : Nat
  fromNow : Int
  type : IntType
  future : fromNow > 0
  deriving DecidableEq

/-- `Schedule`: just put it on a sorted list. -/
def Interrupt.schedule (sys : Interrupt) (request : Request) : Option Interrupt := do
  let toOccur : PendingInterrupt :=
    { object := sys.scheduled
      callOnInterrupt := request.toCall
      «when» := sys.stats.totalTicks + request.fromNow
      type := request.type }
  let pending ← sortedInsert pendingCompare toOccur sys.pending
  return { sys with pending, scheduled := sys.scheduled + 1 }

/-- The interrupts that the handler of each interrupt schedules when it is called. -/
abbrev Response := PendingInterrupt → List Request

/-- Call the handler of an interrupt that is off the list, and let it schedule what it likes. -/
def Interrupt.callBack (sys : Interrupt) (response : Response) (next : PendingInterrupt) :
    Option Interrupt :=
  (response next).foldlM schedule
    { sys with fired := sys.fired ++ [(next, sys.stats.totalTicks)] }

/-- The condition of the loop in `CheckIfDue`: the front of the list is due. -/
def Interrupt.isDue (sys : Interrupt) : Bool :=
  match sys.pending with
  | [] => false
  | front :: _ => front.when ≤ sys.stats.totalTicks

/-- The loop of `CheckIfDue`, for at most so many turns. -/
def Interrupt.drain (response : Response) : Nat → Interrupt → Option Interrupt
  | 0, _ => none
  | turns + 1, sys => do
    let (next, pending) ← removeFront sys.pending
    let sys ← { sys with pending }.callBack response next
    if sys.isDue then drain response turns sys else return sys

/-- Call the handlers that are due, with as many turns as there are interrupts on the list. -/
def Interrupt.fire (sys : Interrupt) (response : Response) : Option Interrupt := do
  let sys ← { sys with inHandler := true }.drain response sys.pending.length
  return { sys with inHandler := false }

/-- Advance the clock to the time of an interrupt, with nothing to do until then. -/
def Interrupt.skipTo (sys : Interrupt) (next : PendingInterrupt) : Interrupt :=
  { sys with stats :=
    { sys.stats with
      idleTicks := sys.stats.idleTicks + (next.when - sys.stats.totalTicks)
      totalTicks := next.when } }

/-- `CheckIfDue`, which asserts that interrupts are off. -/
def Interrupt.checkIfDue (sys : Interrupt) (advanceClock : Bool) (response : Response) :
    Option (Interrupt × Bool) :=
  if sys.level = .intOff then
    match sys.pending with
    | [] => some (sys, false)
    | next :: _ =>
      if next.when > sys.stats.totalTicks then
        if advanceClock then ((sys.skipTo next).fire response).map fun sys => (sys, true)
        else some (sys, false)
      else (sys.fire response).map fun sys => (sys, true)
  else none

/-- The ticks that one call of `OneTick` takes. -/
def Interrupt.advance (sys : Interrupt) : Interrupt :=
  if sys.status = .systemMode then
    { sys with stats :=
      { sys.stats with
        totalTicks := sys.stats.totalTicks + systemTick
        systemTicks := sys.stats.systemTicks + systemTick } }
  else
    { sys with stats :=
      { sys.stats with
        totalTicks := sys.stats.totalTicks + userTick
        userTicks := sys.stats.userTicks + userTick } }

/-- `OneTick`, up to the yield that a handler may ask for. -/
def Interrupt.oneTick (sys : Interrupt) (response : Response) : Option Interrupt := do
  let (sys, _) ← { sys.advance with level := .intOff }.checkIfDue false response
  return { sys with level := .intOn }

/-- `SetLevel`: enabling interrupts advances simulated time. -/
def Interrupt.setLevel (sys : Interrupt) (now : IntStatus) (response : Response) :
    Option Interrupt :=
  if now = .intOn ∧ sys.inHandler = true then none
  else if now = .intOn ∧ sys.level = .intOff then { sys with level := now }.oneTick response
  else some { sys with level := now }

/-- `Idle`: go on to the next interrupt, or stop when there is none. -/
def Interrupt.idle (sys : Interrupt) (response : Response) : Option Interrupt := do
  let (sys, fired) ← { sys with status := .idleMode }.checkIfDue true response
  if fired then return { sys with status := .systemMode } else return { sys with halted := true }

/-- What the kernel and the machine call, with what the handlers schedule meanwhile. -/
inductive InterruptEvent
  | schedule (request : Request)
  | setLevel (now : IntStatus) (response : Response)
  -- A user instruction has been executed.
  | oneTick (response : Response)
  | idle (response : Response)
  | setStatus (status : MachineStatus)

/-- One call, refused when the machine has halted or an assertion fails. -/
def Interrupt.step (sys : Interrupt) (event : InterruptEvent) : Option Interrupt :=
  if sys.halted then none
  else
    match event with
    | .schedule request => sys.schedule request
    | .setLevel now response => sys.setLevel now response
    | .oneTick response => sys.oneTick response
    | .idle response => sys.idle response
    | .setStatus status => some { sys with status }

end Nachos
