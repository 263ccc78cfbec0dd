import Nachos.Machine.Disk

/-! How long the simulated disk takes: the head seeks, the platter turns, a track is buffered. -/

namespace Nachos

/-- Time that the disk takes to rotate one sector. -/
abbrev rotationTime : Int := 500

/-- Time that the disk takes to seek past one track. -/
abbrev seekTime : Int := 500

/-- What the disk knows about its head and its track buffer. -/
structure DiskHead where
  -- Is a request in progress?
  active : Bool
  lastSector : Int
  -- When the track buffer started being loaded.
  bufferInit : Int
  deriving DecidableEq

namespace DiskHead

/-- The constructor: the buffer has been loading since the start. -/
def new : DiskHead := ⟨false, 0, 0⟩

/-- `TimeToSeek`: the time to seek, and then until the next sector boundary. -/
def timeToSeek (head : DiskHead) (totalTicks newSector : Int) : Int × Int :=
  let newTrack := newSector.tdiv sectorsPerTrack
  let oldTrack := head.lastSector.tdiv sectorsPerTrack
  let seek := (newTrack - oldTrack).natAbs * seekTime
  let overTicks := (totalTicks + seek).tmod rotationTime
  (seek, if overTicks > 0 then rotationTime - overTicks else 0)

/-- `ModuloDiff`: the sectors from one position of the platter to another one. -/
def moduloDiff (toSector fromSector : Int) : Int :=
  let toOffset := toSector.tmod sectorsPerTrack
  let fromOffset := fromSector.tmod sectorsPerTrack
  ((toOffset - fromOffset) + sectorsPerTrack).tmod sectorsPerTrack

/-- Does the track buffer have what is asked for? -/
def buffered (head : DiskHead) (totalTicks newSector : Int) (writing : Bool) : Bool :=
  let (seek, rotation) := head.timeToSeek totalTicks newSector
  let timeAfter := totalTicks + seek + rotation
  writing == false && seek == 0 &&
    decide ((timeAfter - head.bufferInit).tdiv rotationTime >
      moduloDiff newSector (head.bufferInit.tdiv rotationTime))

/-- `ComputeLatency`, whose sums fit an int. -/
def computeLatency (head : DiskHead) (totalTicks newSector : Int) (writing : Bool) : Int :=
  let (seek, rotation) := head.timeToSeek totalTicks newSector
  let timeAfter := totalTicks + seek + rotation
  if head.buffered totalTicks newSector writing then rotationTime
  else
    let rotation := rotation + moduloDiff newSector (timeAfter.tdiv rotationTime) * rotationTime
    seek + rotation + rotationTime

/-- `UpdateLast`: a seek discards what is in the track buffer. -/
def updateLast (head : DiskHead) (totalTicks newSector : Int) : DiskHead :=
  let (seek, rotate) := head.timeToSeek totalTicks newSector
  { head with
    bufferInit := if seek ≠ 0 then totalTicks + seek + rotate else head.bufferInit
    lastSector := newSector }

/-- What `ReadRequest` and `WriteRequest` do with the head: the interrupt is timed first. -/
def request (head : DiskHead) (totalTicks newSector : Int) (writing : Bool) :
    Option (Int × DiskHead) :=
  let ticks := head.computeLatency totalTicks newSector writing
  -- There is one request at a time.
  if head.active then none
  else if OnDisk newSector then
    some (totalTicks + ticks, { head with active := true }.updateLast totalTicks newSector)
  else none

/-- `CallBack`: the request is done. -/
def callBack (head : DiskHead) : DiskHead := { head with active := false }

/-- One request, made some time after the former one was done, up to its own interrupt. -/
structure Use where
  wait : Int
  newSector : Int
  writing : Bool

/-- The head and the clock when the interrupt of a request has been handled. -/
def serve (state : DiskHead × Int) (use : Use) : Option (DiskHead × Int) := do
  let (due, head) ← state.1.request (state.2 + use.wait) use.newSector use.writing
  return (head.callBack, due)

end DiskHead

end Nachos
