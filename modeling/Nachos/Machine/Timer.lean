import Mathlib.Algebra.Group.Int.Defs
import Nachos.Machine.Interrupt

/-! The timer, which schedules its own next interrupt, and the alarm clock that it calls. -/

namespace Nachos

/-- The ticks between two interrupts of the timer, on average if they come at random. -/
abbrev timerTicks : Int := 100

/-- The timer device. -/
structure Timer where
  randomize : Bool
  disable : Bool
  -- The timer itself, as the interrupt hardware knows it.
  number : Nat

/-- The constructor, up to the first `SetInterrupt`. -/
def Timer.new (number : Nat) (doRandom : Bool) : Timer :=
  { randomize := doRandom, disable := false, number }

/-- The delay of an interrupt: fixed, or random. -/
def Timer.delay (timer : Timer) (randomNumber : Nat) : Int :=
  if timer.randomize then 1 + randomNumber % (timerTicks * 2) else timerTicks

/-- The shortest delay. -/
def Timer.shortest (timer : Timer) : Int := if timer.randomize then 1 else timerTicks

/-- The longest delay. -/
def Timer.longest (timer : Timer) : Int := if timer.randomize then timerTicks * 2 else timerTicks

/-- Every delay is between the shortest and the longest. -/
theorem Timer.delay_bounds (timer : Timer) (randomNumber : Nat) :
    timer.shortest ≤ timer.delay randomNumber ∧ timer.delay randomNumber ≤ timer.longest := by
  unfold shortest longest delay timerTicks
  split
  · omega
  · exact ⟨Int.le_refl _, Int.le_refl _⟩

/-- The shortest delay is a delay. -/
theorem Timer.shortest_pos (timer : Timer) : 0 < timer.shortest := by
  unfold shortest
  split <;> decide

/-- `SetInterrupt`: the next interrupt, unless the timer has been turned off. -/
def Timer.setInterrupt (timer : Timer) (randomNumber : Nat) : List Request :=
  if timer.disable then []
  else
    [{ toCall := timer.number
       fromNow := timer.delay randomNumber
       type := .timerInt
       future := Int.lt_of_lt_of_le timer.shortest_pos (timer.delay_bounds randomNumber).1 }]

/-- `Alarm::CallBack`, all of which is commented out: it asks for no interrupt, and for no yield. -/
def alarmCallBack : List Request := []

/-- `CallBack`: invoke the handler of the alarm clock, and then set the next interrupt. -/
def Timer.callBack (timer : Timer) (randomNumber : Nat) : List Request :=
  alarmCallBack ++ timer.setInterrupt randomNumber

/-- What a device other than the timer asks for. -/
abbrev DeviceRequest := { request : Request // request.type ≠ .timerInt }

/-- The random number that the timer gets in each of its interrupts, and what other devices do. -/
structure Handlers where
  randomNumber : PendingInterrupt → Nat
  devices : PendingInterrupt → List DeviceRequest

/-- Whom an interrupt calls: the timer, or one of the other devices. -/
def Timer.response (timer : Timer) (handlers : Handlers) : Response := fun next =>
  if next.type = .timerInt then timer.callBack (handlers.randomNumber next)
  else (handlers.devices next).map Subtype.val

/-- What the kernel, the machine and the other devices call, with what the handlers do meanwhile. -/
inductive ClockEvent
  | schedule (request : DeviceRequest)
  | setLevel (now : IntStatus) (handlers : Handlers)
  | oneTick (handlers : Handlers)
  | idle (handlers : Handlers)
  | setStatus (status : MachineStatus)

/-- The same as a call of the interrupt hardware, with the timer among those it calls. -/
def ClockEvent.call (timer : Timer) : ClockEvent → InterruptEvent
  | .schedule request => .schedule request.1
  | .setLevel now handlers => .setLevel now (timer.response handlers)
  | .oneTick handlers => .oneTick (timer.response handlers)
  | .idle handlers => .idle (timer.response handlers)
  | .setStatus status => .setStatus status

/-- The interrupt hardware when the timer has been started, with the first random number. -/
def Timer.start (timer : Timer) (randomNumber : Nat) : Option Interrupt :=
  (timer.setInterrupt randomNumber).foldlM Interrupt.schedule .new

/-- The clock and the times of all pending interrupts are within the range of `int`. -/
def Interrupt.InRange (sys : Interrupt) : Prop :=
  sys.stats.totalTicks < 2 ^ 31 ∧ ∀ next ∈ sys.pending, next.when < 2 ^ 31

instance Interrupt.decidableInRange (sys : Interrupt) : Decidable sys.InRange :=
  inferInstanceAs (Decidable (_ ∧ _))

/--
One call, with the timer at work, as long as the ticks stay within the range of `int`.

The hardware counts them without a bound, and the source in an `int`: when that overflows, nothing
is said of the call, and the run ends before it.
-/
def Timer.step (timer : Timer) (sys : Interrupt) (event : ClockEvent) : Option Interrupt :=
  (sys.step (event.call timer)).filter fun next => next.InRange

end Nachos
