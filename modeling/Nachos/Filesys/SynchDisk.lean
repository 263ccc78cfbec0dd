import Nachos.Machine.Disk
import Nachos.Theory.Program

/-! The synchronous disk and its cache of recently read sectors. -/

namespace Nachos

/-- Number of slots in the disk cache. -/
abbrev diskCacheSize : Nat := 4

/-- One slot of the disk cache. -/
structure DiskCacheEntry where
  valid : Int
  dirty : Int
  sector : Int
  lru : Int
  data : Sector

/-- The disk behind its cache. -/
structure SynchDisk where
  disk : Disk
  cache : Vector DiskCacheEntry diskCacheSize

/-- The constructor sets `valid` alone, so the other fields of a slot hold whatever was there. -/
def SynchDisk.new (disk : Disk) (uninitialised : Vector DiskCacheEntry diskCacheSize) : SynchDisk :=
  { disk, cache := uninitialised.map fun slot => { slot with valid := -1 } }

/-- What a slot of the cache holds. -/
def SynchDisk.slot (synch : SynchDisk) (i : Fin diskCacheSize) : DiskCacheEntry := synch.cache[i]

/-- Another slot in the place of one. -/
def SynchDisk.store (synch : SynchDisk) (index : Fin diskCacheSize) (slot : DiskCacheEntry) :
    SynchDisk :=
  { synch with cache := synch.cache.set index slot }

/-- Every slot that counts as a hit names a sector of the disk and holds its contents. -/
def SynchDisk.Coherent (synch : SynchDisk) : Prop :=
  ∀ i : Fin diskCacheSize, synch.cache[i].valid = 1 →
    OnDisk synch.cache[i].sector ∧ synch.cache[i].data = synch.disk synch.cache[i].sector

/-- The first slot that holds the sector, if any does. -/
def SynchDisk.lookup (synch : SynchDisk) (sectorNumber : Int) : Option (Fin diskCacheSize) :=
  (List.finRange diskCacheSize).find? fun i =>
    synch.cache[i].valid = 1 ∧ synch.cache[i].sector = sectorNumber

/-- The loop that picks the slot to replace, from the candidate so far. -/
def SynchDisk.swapFrom (synch : SynchDisk) :
    Fin diskCacheSize → List (Fin diskCacheSize) → Fin diskCacheSize
  | swap, [] => swap
  | swap, i :: rest =>
    -- No slot has this value: a slot without data has -1.
    if synch.cache[i].valid = 0 then i
    else if synch.cache[i].lru < synch.cache[swap].lru then synch.swapFrom i rest
    else synch.swapFrom swap rest

/-- The slot to replace on a miss. -/
def SynchDisk.swap (synch : SynchDisk) : Fin diskCacheSize :=
  synch.swapFrom ⟨0, by decide⟩ (List.finRange diskCacheSize)

/-- `ReadSector`, called when the clock shows `totalTicks`. -/
def SynchDisk.readSector (synch : SynchDisk) (totalTicks : Int) (sectorNumber : Int) :
    Option (Sector × SynchDisk) :=
  match synch.lookup sectorNumber with
  | some index =>
    let slot := synch.cache[index]
    -- A hit changes nothing but the time of the last use.
    some (slot.data,
      { synch with cache := synch.cache.set index { slot with lru := totalTicks } })
  | none => do
    let data ← synch.disk.readRequest sectorNumber
    return (data, { synch with
      cache := synch.cache.set synch.swap
        { valid := 1, dirty := 0, sector := sectorNumber, lru := totalTicks, data } })

/-- `WriteSector`: write through, and drop every slot that names the sector. -/
def SynchDisk.writeSector (synch : SynchDisk) (sectorNumber : Int) (data : Sector) :
    Option SynchDisk := do
  let disk ← synch.disk.writeRequest sectorNumber data
  return {
    disk
    cache := synch.cache.map fun slot =>
      if slot.sector = sectorNumber then { slot with valid := -1 } else slot }

/-- A request to read or to write one sector. -/
inductive DiskRequest
  | read (sectorNumber : Int)
  | write (sectorNumber : Int) (data : Sector)

/-- The sector a request is about. -/
def DiskRequest.sectorNumber : DiskRequest → Int
  | read sectorNumber => sectorNumber
  | write sectorNumber _ => sectorNumber

/-- Serve requests on the raw disk, collecting what the reads return. -/
def Disk.serve : Disk → List DiskRequest → Option (List Sector)
  | _, [] => some []
  | disk, .read sectorNumber :: rest => do
    let data ← disk.readRequest sectorNumber
    return data :: (← disk.serve rest)
  | disk, .write sectorNumber data :: rest => do
    (← disk.writeRequest sectorNumber data).serve rest

/-- Serve requests through the cache, the clock showing the head of `clock` at each of them. -/
def SynchDisk.serve : SynchDisk → List (Int × DiskRequest) → Option (List Sector)
  | _, [] => some []
  | synch, (totalTicks, .read sectorNumber) :: rest => do
    let (data, synch) ← synch.readSector totalTicks sectorNumber
    return data :: (← synch.serve rest)
  | synch, (_, .write sectorNumber data) :: rest => do
    (← synch.writeSector sectorNumber data).serve rest

end Nachos
