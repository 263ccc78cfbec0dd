import Mathlib.Data.Nat.Basic
import Mathlib.Logic.Function.Basic
import Nachos.Theory.Bytes

/-! The simulated disk: whole sectors, read and written one at a time. -/

namespace Nachos

/-- Number of bytes per disk sector. -/
abbrev sectorSize : Nat := 128

/-- Number of sectors per disk track. -/
abbrev sectorsPerTrack : Nat := 32

/-- Number of tracks per disk. -/
abbrev numTracks : Nat := 32

/-- Total number of sectors per disk. -/
abbrev numSectors : Nat := sectorsPerTrack * numTracks

/-- The contents of one sector. -/
abbrev Sector : Type := Vector Byte sectorSize

/-- The contents of the UNIX file behind the disk, past its magic number. -/
abbrev Disk : Type := Int → Sector

/-- The sector numbers the disk accepts. -/
abbrev OnDisk (sectorNumber : Int) : Prop := 0 ≤ sectorNumber ∧ sectorNumber < numSectors

/-- `Disk::ReadRequest`: fetch a sector, or fail the assertion on its number. -/
def Disk.readRequest (disk : Disk) (sectorNumber : Int) : Option Sector :=
  if OnDisk sectorNumber then some (disk sectorNumber) else none

/-- `Disk::WriteRequest`: replace a sector, or fail the assertion on its number. -/
def Disk.writeRequest (disk : Disk) (sectorNumber : Int) (data : Sector) : Option Disk :=
  if OnDisk sectorNumber then some (Function.update disk sectorNumber data) else none

end Nachos
