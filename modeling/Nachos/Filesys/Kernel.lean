import Nachos.Filesys.SynchDisk

/-! What the file system asks of the rest of the kernel, and the machines that answer it. -/

namespace Nachos

/-- The services that the file system uses. -/
inductive KernelRequest
  -- kernel->synchDisk->ReadSector and WriteSector.
  | readSector (sectorNumber : Int)
  | writeSector (sectorNumber : Int) (data : Sector)
  -- Memory for a variable that is not initialised.
  | allocate (numBytes : Nat)
  -- kernel->stats->totalTicks.
  | totalTicks

/-- What each service answers. -/
abbrev KernelRequest.Answer : KernelRequest → Type
  | readSector _ => Sector
  | writeSector _ _ => Unit
  | allocate _ => List Byte
  | totalTicks => Word

/-- A computation of the file system. -/
abbrev Fs (α : Type) : Type := Program KernelRequest KernelRequest.Answer α

namespace Fs

/-- `SynchDisk::ReadSector`. -/
def readSector (sectorNumber : Int) : Fs Sector := Program.ask (KernelRequest.readSector sectorNumber)

/-- `SynchDisk::WriteSector`. -/
def writeSector (sectorNumber : Int) (data : Sector) : Fs Unit :=
  Program.ask (KernelRequest.writeSector sectorNumber data)

/-- Memory that holds whatever it held before. -/
def allocate (numBytes : Nat) : Fs (List Byte) :=
  Program.ask (KernelRequest.allocate numBytes)

/-- The current time. -/
def totalTicks : Fs Word := Program.ask KernelRequest.totalTicks

/-- Go on with a value that an operation on memory gives, unless it fails an assertion. -/
def ofOption {α : Type} : Option α → Fs α
  | some value => .done value
  | none => .abort

end Fs

/-- What memory that is handed out holds, and the times that are read, by how often was asked. -/
structure Surroundings where
  memory : Nat → Nat → Byte
  clock : Nat → Word

/-- The bytes that a variable starts out with. -/
def Surroundings.leftover (surroundings : Surroundings) (asked numBytes : Nat) : List Byte :=
  (List.range numBytes).map (surroundings.memory asked)

/-- A machine whose disk has no cache. -/
structure World where
  disk : Disk
  surroundings : Surroundings
  asked : Nat

/-- Answer a request with the raw disk. -/
def World.serve : Program.Handler KernelRequest KernelRequest.Answer World
  | .readSector sectorNumber, world => do
    return (← world.disk.readRequest sectorNumber, world)
  | .writeSector sectorNumber data, world => do
    return ((), { world with disk := ← world.disk.writeRequest sectorNumber data })
  | .allocate numBytes, world =>
    some (world.surroundings.leftover world.asked numBytes,
      { world with asked := world.asked + 1 })
  | .totalTicks, world =>
    some (world.surroundings.clock world.asked, { world with asked := world.asked + 1 })

/-- The machine as it is, with the cache in front of its disk. -/
structure CachedWorld where
  synchDisk : SynchDisk
  surroundings : Surroundings
  asked : Nat

/-- Answer a request through the cache of the disk. -/
def CachedWorld.serve : Program.Handler KernelRequest KernelRequest.Answer CachedWorld
  | .readSector sectorNumber, world => do
    let ticks := (world.surroundings.clock world.asked).toInt
    let (data, synchDisk) ← world.synchDisk.readSector ticks sectorNumber
    return (data, { world with synchDisk })
  | .writeSector sectorNumber data, world => do
    return ((), { world with synchDisk := ← world.synchDisk.writeSector sectorNumber data })
  | .allocate numBytes, world =>
    some (world.surroundings.leftover world.asked numBytes,
      { world with asked := world.asked + 1 })
  | .totalTicks, world =>
    some (world.surroundings.clock world.asked, { world with asked := world.asked + 1 })

end Nachos
