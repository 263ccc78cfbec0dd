import Nachos.Filesys.CheckedFile
import Nachos.Proofs.Filesys.Counts

/-! No int overflows in `ReadAt` and `WriteAt` as long as the end of the request is an int. -/

namespace Nachos

namespace CheckedFs

variable {α β : Type}

/-- An int that fits is computed. -/
theorem int_fits {value : Int} (fits : InInt value) : int value = pure value := if_pos fits

/-- An int that does not fit ends the computation. -/
theorem int_overflows {value : Int} (large : 2 ^ 31 ≤ value) : int value = failure :=
  if_neg fun fits => by omega

/-- A place within the buffer may be touched. -/
theorem touch_inside {size place count : Int} (nonneg : 0 ≤ place) (inside : place + count ≤ size) :
    touch size place count = pure () := if_pos ⟨nonneg, inside⟩

/-- A sequence whose parts need no checks needs none. -/
theorem lift_bind (first : Fs α) (next : α → Fs β) :
    (OptionT.lift (first >>= next) : CheckedFs β) =
      OptionT.lift first >>= fun value => OptionT.lift (next value) := by
  apply OptionT.ext
  simp only [OptionT.run_lift, OptionT.run_bind_lift, bind_assoc]

/-- After a part that needs no checks, only the values matter that it can end with. -/
theorem lift_bind_congr {first : Fs α} {known : α → Prop} {next other : α → CheckedFs β}
    (returns : Program.Returns known first) (same : ∀ value, known value → next value = other value) :
    (OptionT.lift first : CheckedFs α) >>= next = OptionT.lift first >>= other := by
  apply OptionT.ext
  simp only [OptionT.run_bind_lift]
  exact returns.bind_congr fun value holds => congrArg OptionT.run (same value holds)

/-- A branch is checked as the one that is taken. -/
theorem lift_ite (condition : Prop) [Decidable condition] (yes no : Fs α) :
    (OptionT.lift (if condition then yes else no) : CheckedFs α) =
      if condition then OptionT.lift yes else OptionT.lift no := by
  split <;> rfl

end CheckedFs

/-- Finding a sector keeps the size of the map. -/
theorem Bitmap.numBits_findAndSet {map after : Bitmap} {sector : Int}
    (found : map.findAndSet = some (sector, after)) : after.numBits = map.numBits := by
  rcases map.findAndSet_cases with ⟨i, -, -, -, same⟩ | ⟨-, same⟩
  · cases found.symm.trans same
    rfl
  · cases found.symm.trans same
    rfl

namespace FileHeader

/-- What is found in a map leaves a map of the same size. -/
theorem returns_findAndSet (freeMap : Bitmap) :
    Program.Returns (fun given => given.2.numBits = freeMap.numBits)
      (Fs.ofOption freeMap.findAndSet) := by
  cases found : freeMap.findAndSet with
  | none => exact trivial
  | some given => exact Bitmap.numBits_findAndSet found

/-- Filling the direct slots keeps the size of the map. -/
theorem returns_allocateDirect (slots : List Nat) : ∀ (n : Nat) (hdr : FileHeader) (freeMap : Bitmap),
    Program.Returns (fun given => given.2.2.numBits = freeMap.numBits)
      (allocateDirect slots n hdr freeMap) := by
  induction slots with
  | nil => exact fun _ _ _ => rfl
  | cons i rest ih =>
    intro n hdr freeMap
    cases n with
    | zero => exact rfl
    | succ n =>
      refine (returns_findAndSet freeMap).bind_of fun found same => ?_
      refine Program.Returns.bind fun _ => ?_
      rw [← same]
      exact ih n _ found.2

/-- Filling the index sector keeps the size of the map. -/
theorem returns_allocateIndirect (slots : List Nat) :
    ∀ (n : Nat) (inDirect : List Int) (freeMap : Bitmap),
      Program.Returns (fun given => given.2.2.numBits = freeMap.numBits)
        (allocateIndirect slots n inDirect freeMap) := by
  -- Over the entries: finding a sector keeps the number of bits.
  induction slots with
  | nil => exact fun _ _ _ => rfl
  | cons i rest ih =>
    intro n inDirect freeMap
    -- By how many sectors are still wanted, and whether the entry is used already.
    cases n with
    | zero => exact rfl
    | succ n =>
      unfold allocateIndirect
      split
      · refine (returns_findAndSet freeMap).bind_of fun found same => ?_
        refine Program.Returns.bind fun _ => ?_
        rw [← same]
        exact ih n _ found.2
      · exact ih (n + 1) inDirect freeMap

/-- Finding the index sector keeps the size of the map. -/
theorem returns_ensureIndex (hdr : FileHeader) (freeMap : Bitmap) :
    Program.Returns (fun given => given.2.numBits = freeMap.numBits) (hdr.ensureIndex freeMap) := by
  unfold ensureIndex
  split
  · refine (returns_findAndSet freeMap).bind_of fun found same => ?_
    exact Program.Returns.bind fun _ => Program.Returns.bind fun _ => same
  · exact rfl

/-- Finding sectors past the direct ones keeps the size of the map. -/
theorem returns_allocateIndex (hdr : FileHeader) (freeMap : Bitmap) (n : Nat) :
    Program.Returns (fun given => given.2.2.numBits = freeMap.numBits)
      (hdr.allocateIndex freeMap n) := by
  unfold allocateIndex
  refine (returns_ensureIndex hdr freeMap).bind_of fun ensured same => ?_
  refine Program.Returns.bind fun inDirect => ?_
  refine (returns_allocateIndirect _ n inDirect ensured.2).bind_of fun filled kept => ?_
  have all := kept.trans same
  dsimp only
  split
  · exact Program.Returns.bind fun _ => all
  · exact all

/-- `Allocate` keeps the size of the map. -/
theorem returns_allocate (hdr : FileHeader) (freeMap : Bitmap) (size : Int) :
    Program.Returns (fun given => given.2.2.numBits = freeMap.numBits)
      (hdr.allocate freeMap size) := by
  unfold allocate
  split
  · exact rfl
  split
  · exact rfl
  dsimp only
  split
  · exact rfl
  refine (returns_allocateDirect _ _ hdr freeMap).bind_of fun filled same => ?_
  split
  · exact same
  · exact (returns_allocateIndex _ filled.2.2 _).bind_of fun given kept => kept.trans same

/-- `Allocate` inside an assertion keeps the size of the map. -/
theorem returns_mustAllocate (hdr : FileHeader) (freeMap : Bitmap) (size : Int) :
    Program.Returns (fun given => given.2.numBits = freeMap.numBits)
      (hdr.mustAllocate freeMap size) :=
  (returns_allocate hdr freeMap size).bind_of fun _ same => Program.Returns.bind fun _ => same

/-- More bytes than fit the largest file fail the assertion on `Allocate`. -/
theorem mustAllocate_large {hdr : FileHeader} {size : Int} (freeMap : Bitmap) (some : 0 < size)
    (large : maxFileSize < size + hdr.capacity) :
    hdr.mustAllocate freeMap size = Program.abort := by
  unfold mustAllocate allocate
  rw [if_neg (by omega), if_pos (.inr (.inl large)), pure_bind]
  rfl

end FileHeader

namespace OpenFile

open CheckedFs

variable {hdr : FileHeader} {file : OpenFile}

/-- Reading sectors into a buffer that holds them all overflows nothing. -/
theorem checkedReadSectors_eq {firstSector size : Int} (nonneg : 0 ≤ firstSector) (count : Nat) :
    ∀ {i : Nat}, firstSector ≤ i → i + count ≤ numDirect + numInDirect →
      (i + count - firstSector) * sectorSize ≤ size →
      checkedReadSectors hdr firstSector size count i = OptionT.lift (readSectors hdr i count) := by
  -- Over the sectors that are left to be read.
  induction count with
  | zero => exact fun _ _ _ => (OptionT.lift_pure _).symm
  | succ count ih =>
    intro i above few room
    simp only [numDirect, numInDirect, sectorSize] at few room
    have offset : ((i : Int) * (sectorSize : Nat)).toNat = i * sectorSize := by
      -- No number is larger than the file.
      simp only [sectorSize]
      omega
    have next := @ih (i + 1) (by omega) (by simp only [numDirect, numInDirect]; omega)
      (by simp only [sectorSize]; omega)
    rw [Int.natCast_add, Int.natCast_one] at next
    unfold checkedReadSectors readSectors
    simp only [sectorSize] at offset ⊢
    rw [int_fits (by omega), pure_bind, int_fits (by omega), pure_bind, int_fits (by omega),
      pure_bind, touch_inside (by omega) (by omega), pure_bind, int_fits (by omega), offset]
    simp only [pure_bind, lift_bind, OptionT.lift_pure, next]

/-- A sum that fits an int is computed. -/
theorem intSum_eq {x y : Int} (fits : InInt (x + y)) : intSum x y = pure (x + y) := by
  unfold intSum
  rw [decide_eq_true fits]
  rfl

/-- The sectors that some bytes of a file lie in are counted alike with ints and without. -/
theorem sectors_natCast (position : Nat) {count : Nat} (some : 0 < count) :
    (position : Int) / sectorSize = (position / sectorSize : Nat) ∧
    ((position : Int) + count - 1) / sectorSize = ((position + count - 1) / sectorSize : Nat) ∧
    1 + (((position + count - 1) / sectorSize : Nat) : Int) - (position / sectorSize : Nat) =
      (1 + (position + count - 1) / sectorSize - position / sectorSize : Nat) ∧
    (position : Int) - (position / sectorSize : Nat) * sectorSize =
      (position - position / sectorSize * sectorSize : Nat) := by
  simp only [sectorSize]
  omega

/-- The bytes between two places that are not too far in a file are read without an overflow. -/
theorem checkedCopyAt_eq (file : OpenFile) (position : Nat) {count : Nat} (some : 0 < count)
    (small : position + count ≤ maxFileSize) :
    file.checkedCopyAt count position = OptionT.lift (do
      let firstSector := position / sectorSize
      let lastSector := (position + count - 1) / sectorSize
      let buf ← readSectors file.hdr firstSector (1 + lastSector - firstSector)
      return (buf.drop (position - firstSector * sectorSize)).take count) := by
  -- The first and the last sector, and the place in the first one.
  obtain ⟨first, last, sectors, start⟩ := sectors_natCast position some
  simp only [maxFileSize, numDirect, numInDirect, sectorSize] at small first last sectors start
  -- All numbers on the way are those of a file of the largest size at most.
  unfold checkedCopyAt
  simp only [sectorSize, first]
  rw [int_fits (by omega), pure_bind, int_fits (by omega), pure_bind, last, int_fits (by omega),
    pure_bind, int_fits (by omega), pure_bind, sectors, int_fits (by omega), pure_bind,
    Int.toNat_natCast, checkedReadSectors_eq (by omega) _ (le_refl _)
      (by simp only [numDirect, numInDirect]; omega) (by simp only [sectorSize]; omega), lift_bind]
  refine bind_congr fun buf => ?_
  rw [int_fits (by omega), pure_bind, start, int_fits (by omega), pure_bind,
    touch_inside (by omega) (by omega), pure_bind, Int.toNat_natCast, Int.toNat_natCast,
    OptionT.lift_pure]

/-- `ReadAt` overflows nothing if its end is an int and in no file that is too large. -/
theorem checkedReadAt_eq (file : OpenFile) {numBytes position : Int}
    (within : min (position + numBytes) file.hdr.limit ≤ maxFileSize)
    (sum : numBytes ≤ 0 ∨ position < 0 ∨ file.hdr.limit ≤ position ∨
      position + numBytes < 2 ^ 31) :
    file.checkedReadAt numBytes position = OptionT.lift (file.readAt numBytes position) := by
  unfold checkedReadAt readAt
  -- A read that is refused computes nothing.
  by_cases refused : numBytes ≤ 0 ∨ position < 0 ∨ position ≥ file.hdr.limit
  · simp only [if_pos refused, OptionT.lift_pure]
  simp only [if_neg refused]
  rw [int_fits (by omega), pure_bind, intSum_eq (by omega), pure_bind]
  obtain ⟨p, rfl⟩ := Int.eq_ofNat_of_zero_le (show 0 ≤ position by omega)
  split
  · -- Only the bytes up to the end of the file are read.
    obtain ⟨n, cut⟩ := Int.eq_ofNat_of_zero_le (show 0 ≤ file.hdr.limit - p by omega)
    rw [int_fits (by omega), pure_bind, cut, checkedCopyAt_eq file p (by omega) (by omega)]
    rfl
  · -- All bytes are within the file.
    obtain ⟨n, rfl⟩ := Int.eq_ofNat_of_zero_le (show 0 ≤ numBytes by omega)
    rw [checkedCopyAt_eq file p (by omega) (by omega)]
    rfl

/-- Writing sectors from a buffer that holds them all overflows nothing. -/
theorem checkedWriteSectors_eq {firstSector : Nat} {size : Int} {buf : List Byte} (count : Nat) :
    ∀ {i : Nat}, firstSector ≤ i → i + count ≤ numDirect + numInDirect →
      ((i : Int) + count - firstSector) * sectorSize ≤ size →
      checkedWriteSectors hdr firstSector size buf count i =
        OptionT.lift (writeSectors hdr i count (buf.drop ((i - firstSector) * sectorSize))) := by
  -- Over the sectors that are left to be written.
  induction count with
  | zero => exact fun _ _ _ => (OptionT.lift_pure _).symm
  | succ count ih =>
    intro i above few room
    simp only [numDirect, numInDirect, sectorSize] at few room
    -- Nor is any number larger than the buffer.
    have offset : ((i : Int) * (128 : Nat)).toNat = i * 128 := by omega
    have place : (((i : Int) - firstSector) * (128 : Nat)).toNat = (i - firstSector) * 128 := by omega
    have next := @ih (i + 1) (by omega) (by simp only [numDirect, numInDirect]; omega)
      (by simp only [sectorSize]; omega)
    rw [Int.natCast_add, Int.natCast_one] at next
    have rest : (i - firstSector) * 128 + 128 = (i + 1 - firstSector) * 128 := by omega
    unfold checkedWriteSectors writeSectors
    simp only [sectorSize] at next ⊢
    rw [int_fits (by omega), pure_bind, int_fits (by omega), pure_bind, int_fits (by omega),
      pure_bind, touch_inside (by omega) (by omega), pure_bind, int_fits (by omega), offset, place,
      List.drop_drop, rest]
    simp only [pure_bind, lift_bind, next]

/-- Reading a sector back into its place of a buffer overflows nothing. -/
theorem checkedReadBack_eq (file : OpenFile) {needed needed' : Prop} [Decidable needed]
    [Decidable needed'] (same : needed ↔ needed') (buf : List Byte) {firstSector sector : Nat}
    {size : Int} (above : firstSector ≤ sector) (few : sector < numDirect + numInDirect)
    (room : ((sector : Int) + 1 - firstSector) * sectorSize ≤ size) :
    file.checkedReadBack needed buf firstSector size sector =
      OptionT.lift (file.readBack needed' buf ((sector - firstSector) * sectorSize) sector) := by
  -- Nothing is read back, or the sector is within the file and the buffer.
  simp only [numDirect, numInDirect, sectorSize] at few room
  unfold checkedReadBack readBack
  rw [if_congr same rfl rfl, lift_ite]
  refine if_congr Iff.rfl ?_ (OptionT.lift_pure _).symm
  have place : (((sector : Int) - firstSector) * (128 : Nat)).toNat = (sector - firstSector) * 128 := by
    omega
  simp only [sectorSize]
  rw [int_fits (by omega), pure_bind, int_fits (by omega), pure_bind, int_fits (by omega), pure_bind,
    touch_inside (by omega) (by omega), pure_bind, place, checkedReadAt_eq file ?_ (by omega)]
  · -- The two do the same with what they have read.
    simp only [lift_bind, OptionT.lift_pure, Int.natCast_mul]
  · -- The bytes of one sector are within the largest file.
    simp only [maxFileSize, numDirect, numInDirect, sectorSize]
    omega

/-- The data part of `WriteAt` overflows nothing in a file that is not too large. -/
theorem checkedMergeAt_eq (file : OpenFile) {source : List Byte} (position : Nat)
    (some : 0 < source.length) (small : position + source.length ≤ maxFileSize) :
    file.checkedMergeAt source source.length position =
      OptionT.lift (file.mergeAt source position) := by
  generalize length : source.length = n at *
  obtain ⟨first, last, sectors, start⟩ := sectors_natCast position some
  simp only [maxFileSize, numDirect, numInDirect, sectorSize] at small first last sectors start
  unfold checkedMergeAt mergeAt
  simp only [sectorSize, first, length]
  generalize firstEq : position / 128 = firstSector at *
  generalize lastEq : (position + n - 1) / 128 = lastSector at *
  -- What the checks ask for, once for all of them.
  have order : firstSector ≤ lastSector ∧ lastSector < 56 ∧ firstSector * 128 ≤ position ∧
      position + n ≤ (lastSector + 1) * 128 := by omega
  have size : (((1 + lastSector - firstSector : Nat) : Int) * (128 : Nat)).toNat =
      (1 + lastSector - firstSector) * 128 := by omega
  have notFirst : ¬ (position : Int) = firstSector * (128 : Nat) ↔ ¬ position = firstSector * 128 := by
    omega
  have notLast : (¬ (position : Int) + n = (lastSector + 1) * (128 : Nat) ∧
      ((firstSector : Int) ≠ lastSector ∨ (position : Int) = firstSector * (128 : Nat))) ↔
        ¬ position + n = (lastSector + 1) * 128 ∧
          (firstSector ≠ lastSector ∨ position = firstSector * 128) := by omega
  -- Each check passes, in the order in which the source makes them.
  rw [int_fits (by omega), pure_bind, int_fits (by omega), pure_bind, last, int_fits (by omega),
    pure_bind, int_fits (by omega), pure_bind, sectors, int_fits (by omega), pure_bind, size,
    lift_bind]
  refine bind_congr fun buf => ?_
  rw [int_fits (by omega), pure_bind, int_fits (by omega), pure_bind, int_fits (by omega), pure_bind,
    checkedReadBack_eq file notFirst buf (le_refl _) (by simp only [numDirect, numInDirect]; omega)
      (by simp only [sectorSize]; omega), Nat.sub_self, Nat.zero_mul, lift_bind]
  refine bind_congr fun front => ?_
  rw [checkedReadBack_eq file notLast front order.1 (by simp only [numDirect, numInDirect]; omega)
      (by simp only [sectorSize]; omega), lift_bind]
  refine bind_congr fun merged => ?_
  rw [start, int_fits (by omega), pure_bind, touch_inside (by omega) (by omega), pure_bind,
    Int.toNat_natCast, Int.toNat_natCast, checkedWriteSectors_eq _ (le_refl _)
      (by simp only [numDirect, numInDirect]; omega) (by simp only [sectorSize]; omega),
    Nat.sub_self, Nat.zero_mul, List.drop_zero]

/-- A file whose limit and capacity are in order, and which is not too large. -/
structure Bounded (hdr : FileHeader) : Prop where
  nonneg : 0 ≤ hdr.limit
  within : hdr.limit ≤ hdr.capacity
  small : hdr.capacity ≤ maxFileSize

/-- `WriteAt` finds more sectors with the map of free sectors open. -/
def allocateFrom (file : OpenFile) (past : Int)
    (writeBack : OpenFile → PersistentBitmap → Fs Unit) (freeMapFile : OpenFile) :
    Fs FileHeader := do
  let freeMap ← PersistentBitmap.fetchFrom (Bitmap.new numSectors) freeMapFile
  let (hdr, freeMap) ← file.hdr.mustAllocate freeMap (past - file.hdr.capacity)
  writeBack freeMapFile freeMap
  return hdr

/-- What `WriteAt` does once the file is large enough. -/
def finishAt (file : OpenFile) (source : List Byte) (position : Int) (hdr : FileHeader) :
    Fs (Int × OpenFile) := do
  let file := { file with hdr := hdr.setFileLimit (position + source.length) }
  file.storeAt source position.toNat
  return (source.length, file)

/-- What `WriteAt` does once the file is large enough, with every int that it computes. -/
def checkedFinishAt (file : OpenFile) (source : List Byte) (position : Int) (hdr : FileHeader) :
    CheckedFs (Int × OpenFile) := do
  let file := { file with hdr := hdr.setFileLimit (position + source.length) }
  OptionT.lift (file.hdr.writeBack file.hdr.selfSector)
  file.checkedMergeAt source source.length position
  return (source.length, file)

/-- The map of free sectors is read without an overflow, whatever its header says. -/
theorem checkedReadAt_map (freeMapFile : OpenFile) :
    freeMapFile.checkedReadAt (4 * (Bitmap.new numSectors).map.length : Nat) 0 =
      OptionT.lift (freeMapFile.readAt (4 * (Bitmap.new numSectors).map.length : Nat) 0) := by
  have all : ((4 * (Bitmap.new numSectors).map.length : Nat) : Int) = 128 := by
    rw [PersistentBitmap.length_map rfl]
    rfl
  rw [all]
  refine checkedReadAt_eq freeMapFile ?_ (by omega)
  simp only [maxFileSize, numDirect, numInDirect, sectorSize]
  omega

/-- Once the file is large enough, a write to a file that is not too large overflows nothing. -/
theorem checkedFinishAt_eq (file : OpenFile) {source : List Byte} {position : Int}
    (some : 0 < source.length) (nonneg : 0 ≤ position)
    (small : position + source.length ≤ maxFileSize) (hdr : FileHeader) :
    file.checkedFinishAt source position hdr = OptionT.lift (file.finishAt source position hdr) := by
  obtain ⟨p, rfl⟩ := Int.eq_ofNat_of_zero_le nonneg
  unfold checkedFinishAt finishAt storeAt
  simp only [Int.toNat_natCast, bind_assoc, lift_bind, OptionT.lift_pure]
  rw [checkedMergeAt_eq _ p some (by omega)]

/-- Finding more sectors overflows nothing if writing the map back does not. -/
theorem checkedAllocateFrom_eq {past : Int} (fits : InInt (past - file.hdr.capacity))
    {checkedBack : OpenFile → PersistentBitmap → CheckedFs Unit}
    (writeBack : OpenFile → PersistentBitmap → Fs Unit) {freeMapFile : OpenFile}
    (back : ∀ map : PersistentBitmap, map.numBits = numSectors →
      checkedBack freeMapFile map = OptionT.lift (writeBack freeMapFile map)) :
    file.checkedAllocateFrom past checkedBack freeMapFile =
      OptionT.lift (file.allocateFrom past writeBack freeMapFile) := by
  unfold checkedAllocateFrom allocateFrom PersistentBitmap.fetchFrom
  simp only [checkedReadAt_map, lift_bind, bind_assoc, pure_bind, OptionT.lift_pure]
  refine bind_congr fun bytes => ?_
  rw [int_fits fits, pure_bind]
  refine lift_bind_congr (FileHeader.returns_mustAllocate _ _ _) fun given same => ?_
  rw [back given.2 (same.trans rfl)]

/-- A write past the largest file aborts as soon as it has read the map. -/
theorem allocateFrom_large {past : Int} (grows : file.hdr.capacity < past)
    (large : maxFileSize < past) (writeBack : OpenFile → PersistentBitmap → Fs Unit)
    (freeMapFile : OpenFile) : file.allocateFrom past writeBack freeMapFile =
      PersistentBitmap.fetchFrom (Bitmap.new numSectors) freeMapFile >>= fun _ =>
        Program.abort := by
  unfold allocateFrom
  refine bind_congr fun map => ?_
  rw [FileHeader.mustAllocate_large map (by omega) (by omega)]
  rfl

/-- Writing the map back to this file overflows nothing, with so many nested calls. -/
def BacksUp (depth : Nat) (freeMapFile : OpenFile) : Prop :=
  ∀ map : PersistentBitmap, map.numBits = numSectors →
    checkedWriteAtNested depth freeMapFile (PersistentBitmap.bytes map)
        (PersistentBitmap.bytes map).length 0 =
      OptionT.lift (writeAtNested depth freeMapFile (PersistentBitmap.bytes map) 0)

/-- `WriteAt` to a file that has to grow, with the map of free sectors open. -/
def growFrom (depth : Nat) (file : OpenFile) (source : List Byte) (position : Int)
    (freeMapFile : OpenFile) : Fs (Int × OpenFile) := do
  let hdr ← file.allocateFrom (position + source.length) (fun freeMapFile freeMap => do
    let _ ← writeAtNested depth freeMapFile (PersistentBitmap.bytes freeMap) 0) freeMapFile
  file.finishAt source position hdr

/-- `WriteAt` to a file that has to grow, with every int that it computes. -/
def checkedGrowFrom (depth : Nat) (file : OpenFile) (source : List Byte) (position : Int)
    (freeMapFile : OpenFile) : CheckedFs (Int × OpenFile) := do
  let hdr ← file.checkedAllocateFrom (position + source.length) (fun freeMapFile freeMap => do
    let _ ← checkedWriteAtNested depth freeMapFile (PersistentBitmap.bytes freeMap)
      (PersistentBitmap.bytes freeMap).length 0) freeMapFile
  file.checkedFinishAt source position hdr

/-- Growing a file overflows nothing if writing the map back does not. -/
theorem checkedGrowFrom_eq {depth : Nat} (bounded : Bounded file.hdr) {source : List Byte}
    {position : Int} (some : 0 < source.length) (nonneg : 0 ≤ position)
    (sum : position + source.length < 2 ^ 31)
    (grows : file.hdr.capacity < position + source.length) {freeMapFile : OpenFile}
    (backsUp : BacksUp depth freeMapFile) :
    file.checkedGrowFrom depth source position freeMapFile =
      OptionT.lift (file.growFrom depth source position freeMapFile) := by
  have capacity : 0 ≤ file.hdr.capacity := bounded.nonneg.trans bounded.within
  -- Writing the map back overflows nothing, by the hypothesis.
  have back : ∀ map : PersistentBitmap, map.numBits = numSectors → (do
        let _ ← checkedWriteAtNested depth freeMapFile (PersistentBitmap.bytes map)
          (PersistentBitmap.bytes map).length 0 : CheckedFs Unit) =
      OptionT.lift (do
        let _ ← writeAtNested depth freeMapFile (PersistentBitmap.bytes map) 0) := by
    intro map all
    simp only [backsUp map all, lift_bind, OptionT.lift_pure]
  unfold checkedGrowFrom growFrom
  rw [checkedAllocateFrom_eq ⟨by omega, by omega⟩ (fun freeMapFile freeMap => do
    let _ ← writeAtNested depth freeMapFile (PersistentBitmap.bytes freeMap) 0) back, lift_bind]
  -- The file stays small enough for its bytes, or Allocate refuses.
  by_cases small : position + source.length ≤ maxFileSize
  · exact bind_congr fun hdr => checkedFinishAt_eq file some nonneg small hdr
  · -- Allocate is asked for too much, so nothing comes after it.
    rw [allocateFrom_large grows (by omega), lift_bind, bind_assoc, bind_assoc]
    rfl

/-- A write that the file has to grow for goes on with the map of free sectors. -/
theorem writeAtNested_grows (depth : Nat) {source : List Byte} {position : Int}
    (some : 0 < source.length) (nonneg : 0 ≤ position) (started : position ≤ file.hdr.limit)
    (sum : position + source.length < 2 ^ 31)
    (grows : file.hdr.capacity < position + source.length) :
    writeAtNested (depth + 1) file source position =
        new freeMapSector >>= file.growFrom depth source position ∧
      checkedWriteAtNested (depth + 1) file source source.length position =
        OptionT.lift (new freeMapSector) >>= file.checkedGrowFrom depth source position := by
  -- Both do the same up to the point where the file of the map is opened.
  constructor
  · -- Without the checks.
    unfold writeAtNested enlarge
    rw [if_neg (by omega), intSum_eq ⟨by omega, by omega⟩, pure_bind, if_pos grows, bind_assoc]
    refine bind_congr fun freeMapFile => ?_
    simp only [growFrom, allocateFrom, finishAt, bind_assoc, pure_bind]
  · -- With the checks.
    unfold checkedWriteAtNested checkedEnlarge
    rw [if_neg (by omega), int_fits ⟨by omega, by omega⟩, pure_bind, if_pos grows, bind_assoc]
    refine bind_congr fun freeMapFile => ?_
    simp only [checkedGrowFrom, checkedAllocateFrom, checkedFinishAt, bind_assoc, pure_bind]

/-- A write for which the file need not grow overflows nothing. -/
theorem checkedWriteAtNested_within (depth : Nat) (bounded : Bounded file.hdr) {source : List Byte}
    {position : Int} (started : 0 < source.length → 0 ≤ position → position ≤ file.hdr.limit →
      position + source.length ≤ file.hdr.capacity) :
    checkedWriteAtNested (depth + 1) file source source.length position =
      OptionT.lift (writeAtNested (depth + 1) file source position) := by
  have small := bounded.small
  simp only [maxFileSize, numDirect, numInDirect, sectorSize] at small
  unfold checkedWriteAtNested writeAtNested
  -- A write that is refused computes nothing.
  by_cases refused : source.length = 0 ∨ position > file.hdr.limit ∨ position < 0
  · rw [if_pos (by omega), if_pos refused, OptionT.lift_pure]
  have within := started (by omega) (by omega) (by omega)
  -- The file need not grow, so the bytes are written at once.
  unfold checkedEnlarge enlarge
  rw [if_neg (by omega), if_neg refused, int_fits ⟨by omega, by omega⟩, pure_bind,
    intSum_eq ⟨by omega, by omega⟩, pure_bind, if_neg (by omega), if_neg (by omega), pure_bind,
    pure_bind]
  exact checkedFinishAt_eq file (by omega) (by omega)
    (by simp only [maxFileSize, numDirect, numInDirect, sectorSize]; omega) file.hdr

/-- A write that may not nest another one overflows nothing if its end is an int. -/
theorem checkedWriteAtNested_one (bounded : Bounded file.hdr) {source : List Byte} {position : Int}
    (sum : position + source.length < 2 ^ 31) :
    checkedWriteAtNested 1 file source source.length position =
      OptionT.lift (writeAtNested 1 file source position) := by
  by_cases grows : 0 < source.length ∧ 0 ≤ position ∧ position ≤ file.hdr.limit ∧
      file.hdr.capacity < position + source.length
  · obtain ⟨some, nonneg, started, grows⟩ := grows
    obtain ⟨plain, checked⟩ := writeAtNested_grows 0 some nonneg started sum grows
    rw [plain, checked, lift_bind]
    -- The nested call aborts at once, so its header does not matter.
    exact bind_congr fun freeMapFile =>
      checkedGrowFrom_eq bounded some nonneg sum grows fun _ _ => rfl
  · refine checkedWriteAtNested_within 0 bounded fun some nonneg started => ?_
    by_contra larger
    exact grows ⟨some, nonneg, started, by omega⟩

/-- A map of free sectors whose file is not too large is written back without an overflow. -/
theorem backsUp_one {freeMapFile : OpenFile} (bounded : Bounded freeMapFile.hdr) :
    BacksUp 1 freeMapFile := by
  intro map all
  refine checkedWriteAtNested_one bounded ?_
  rw [PersistentBitmap.length_bytes, PersistentBitmap.length_map all]
  decide

/-- `WriteAt` overflows nothing if the end of the write is an int. -/
theorem run_checkedWriteAt {world : World} (bounded : Bounded file.hdr)
    (map : Bounded (headerAt world.disk freeMapSector)) {source : List Byte} {position : Int}
    (sum : 0 < source.length → 0 ≤ position → position ≤ file.hdr.limit →
      position + source.length < 2 ^ 31) :
    (file.checkedWriteAt source source.length position).run.run World.serve world =
      (OptionT.lift (file.writeAt source position) : CheckedFs _).run.run World.serve world := by
  -- The file has to grow, or it need not.
  by_cases grows : 0 < source.length ∧ 0 ≤ position ∧ position ≤ file.hdr.limit ∧
      file.hdr.capacity < position + source.length
  · obtain ⟨some, nonneg, started, grows⟩ := grows
    have small := sum some nonneg started
    obtain ⟨plain, checked⟩ := writeAtNested_grows 1 some nonneg started small grows
    -- The map of free sectors is opened, and its file is the one that was there before.
    have opens : Fs.Reads world.disk (new freeMapSector) ⟨headerAt world.disk freeMapSector, 0⟩ :=
      new_reads (by decide)
    obtain ⟨_, opened, ran, rfl, -⟩ := opens world rfl
    have backsUp : BacksUp 1 ⟨headerAt world.disk freeMapSector, 0⟩ := backsUp_one map
    unfold checkedWriteAt writeAt
    rw [plain, checked, lift_bind, OptionT.run_bind_lift, OptionT.run_bind_lift, Program.run_bind,
      Program.run_bind, ran, Option.bind_some, Option.bind_some]
    dsimp only
    rw [checkedGrowFrom_eq bounded some nonneg small grows backsUp]
  · -- It need not grow, so nothing is opened.
    unfold checkedWriteAt writeAt
    rw [checkedWriteAtNested_within 1 bounded fun some nonneg started => ?_]
    by_contra larger
    exact grows ⟨some, nonneg, started, by omega⟩

/-- Reading sectors gives all of their bytes. -/
theorem returns_readSectors (hdr : FileHeader) (count : Nat) : ∀ first,
    Program.Returns (fun bytes => bytes.length = count * sectorSize)
      (readSectors hdr first count) := by
  induction count with
  | zero => exact fun _ => (Nat.zero_mul _).symm
  | succ count ih =>
    intro first
    unfold readSectors
    refine Program.Returns.bind fun _ => Program.Returns.bind fun data => ?_
    refine (ih (first + 1)).bind_of fun rest length => ?_
    show (data.toList ++ rest).length = (count + 1) * sectorSize
    rw [List.length_append, length, Vector.length_toList, Nat.succ_mul, Nat.add_comm]

/-- `ReadAt` gives the bytes that are asked for, as far as the file reaches. -/
theorem returns_readAt (file : OpenFile) (numBytes : Int) {position : Int} (nonneg : 0 ≤ position) :
    Program.Returns (fun bytes =>
      (bytes.length : Int) = max 0 (min numBytes (file.hdr.limit - position)))
      (file.readAt numBytes position) := by
  unfold readAt
  dsimp only
  -- No bytes are asked for, or the position is past the end.
  split
  · show ((0 : Nat) : Int) = _
    omega
  have begins : Program.Returns (fun past => past = position + numBytes)
      (intSum position numBytes) := Program.Returns.bind fun _ => rfl
  -- What is read are the sectors, and then the bytes that are asked for.
  refine begins.bind_of fun past same => ?_
  subst same
  refine (returns_readSectors file.hdr _ _).bind_of fun buf length => ?_
  generalize asked : (if position + numBytes > file.hdr.limit then file.hdr.limit - position
    else numBytes) = count at *
  show ((((buf.drop _).take count.toNat).length : Nat) : Int) = _
  rw [List.length_take, List.length_drop, length]
  simp only [sectorSize]
  -- The bytes are those up to the limit, or all that are asked for.
  split at asked <;> omega

/-- No int overflows in `ReadAt` and `WriteAt`, no buffer is left, and all bytes there are are read. -/
structure IntsFit (disk : Disk) (file : OpenFile) (source : List Byte) (numBytes position : Int) :
    Prop where
  read : ∀ world, world.disk = disk →
    Program.Meets World.serve (file.checkedReadAt numBytes position).run world fun given _ =>
      ∃ bytes, given = some bytes ∧ (0 ≤ position →
        (bytes.length : Int) = max 0 (min numBytes (file.hdr.limit - position)))
  -- The sectors of a file that is laid out are found, so that it is read to the end.
  readEnds : file.hdr.Laid disk → ∀ world, world.disk = disk →
    ((file.checkedReadAt numBytes position).run.run World.serve world).isSome
  write : ∀ world, world.disk = disk →
    Program.Meets World.serve (file.checkedWriteAt source numBytes position).run world fun given _ =>
      given.isSome

/-- What a computation without checks ends with, it does not end for an overflow. -/
theorem some_of_lift {α : Type} {program : Fs α} {world final : World} {given : Option α}
    (ran : (OptionT.lift program : CheckedFs α).run.run World.serve world = some (given, final)) :
    ∃ value, given = some value ∧ program.run World.serve world = some (value, final) := by
  rw [OptionT.run_lift, Program.run_bind] at ran
  obtain ⟨⟨value, left⟩, ends, same⟩ := Option.bind_eq_some_iff.mp ran
  cases same
  exact ⟨value, rfl, ends⟩

/-- The reads of a file that is not too large fit if the end of what is asked for is an int. -/
theorem read_fits (bounded : Bounded file.hdr) {numBytes position : Int}
    (sum : numBytes ≤ 0 ∨ position < 0 ∨ file.hdr.limit ≤ position ∨
      position + numBytes < 2 ^ 31) :
    file.checkedReadAt numBytes position = OptionT.lift (file.readAt numBytes position) := by
  refine checkedReadAt_eq file ?_ sum
  have within := bounded.within
  have small := bounded.small
  omega

/-- A laid out file is read to the end of what is asked for, if that is an int. -/
theorem readAt_ends {disk : Disk} (laid : file.hdr.Laid disk) {numBytes position : Int}
    (sum : numBytes ≤ 0 ∨ position < 0 ∨ file.hdr.limit ≤ position ∨
      position + numBytes < 2 ^ 31) :
    ∃ bytes, Fs.Reads disk (file.readAt numBytes position) bytes := by
  by_cases refused : numBytes ≤ 0 ∨ position < 0 ∨ position ≥ file.hdr.limit
  · refine ⟨[], ?_⟩
    unfold readAt
    rw [if_pos refused]
    exact Fs.Reads.pure disk []
  · obtain ⟨p, rfl⟩ := Int.eq_ofNat_of_zero_le (show 0 ≤ position by omega)
    exact ⟨_, readAt_reads laid p (by omega) (by omega)⟩

/-- A write that is refused for its length is refused at once. -/
theorem checkedWriteAt_nothing (file : OpenFile) (source : List Byte) {numBytes : Int}
    (none : numBytes ≤ 0) (position : Int) :
    file.checkedWriteAt source numBytes position = pure (0, file) := by
  unfold checkedWriteAt checkedWriteAtNested
  rw [if_pos (.inl none)]

/-- A write whose end is no int overflows. -/
theorem checkedWriteAt_overflows {source : List Byte} {numBytes position : Int}
    (some : 0 < numBytes) (nonneg : 0 ≤ position) (started : position ≤ file.hdr.limit)
    (large : 2 ^ 31 ≤ position + numBytes) :
    file.checkedWriteAt source numBytes position = failure := by
  unfold checkedWriteAt checkedWriteAtNested
  rw [if_neg (by omega), int_overflows large]
  rfl

end OpenFile

/-- The ints of `ReadAt` and `WriteAt` fit exactly if the request is refused or its end is an int. -/
theorem fileArithmetic_fits_iff {disk : Disk} {file : OpenFile} {source : List Byte}
    {numBytes position : Int} (bounded : OpenFile.Bounded file.hdr)
    (map : OpenFile.Bounded (headerAt disk freeMapSector))
    (sized : source.length = numBytes.toNat) :
    OpenFile.IntsFit disk file source numBytes position ↔
      numBytes ≤ 0 ∨ position < 0 ∨ file.hdr.limit < position ∨ position + numBytes < 2 ^ 31 := by
  constructor
  · -- If the sum overflows, the checked write fails.
    intro fit
    by_contra overflows
    have fails : file.checkedWriteAt source numBytes position = failure :=
      OpenFile.checkedWriteAt_overflows (by omega) (by omega) (by omega) (by omega)
    have ran := fit.write (World.ofDisk disk) rfl none (World.ofDisk disk) (by rw [fails]; rfl)
    cases ran
  · -- If it does not, the checked calls are the plain ones.
    intro sum
    have reads : file.checkedReadAt numBytes position =
        OptionT.lift (file.readAt numBytes position) := OpenFile.read_fits bounded (by omega)
    refine ⟨?_, ?_, ?_⟩
    · -- A read gives the bytes that there are.
      rw [reads]
      intro world seen given final ran
      obtain ⟨bytes, rfl, read⟩ := OpenFile.some_of_lift ran
      exact ⟨bytes, rfl, fun nonneg => (OpenFile.returns_readAt file numBytes nonneg).holds read⟩
    · -- It ends without an error on a sound file.
      intro laid world seen
      have ends : ∃ bytes, Fs.Reads disk (file.readAt numBytes position) bytes :=
        OpenFile.readAt_ends laid (by omega)
      obtain ⟨bytes, ends⟩ := ends
      obtain ⟨_, final, ran, -⟩ := ends world seen
      rw [reads, OptionT.run_lift, Program.run_bind, ran]
      rfl
    · -- A write leaves nothing in the buffer.
      intro world seen given final ran
      by_cases some : 0 < numBytes
      · -- The buffer holds the bytes that are written.
        obtain rfl : numBytes = source.length := by omega
        rw [OpenFile.run_checkedWriteAt bounded (seen ▸ map) (by omega)] at ran
        obtain ⟨value, rfl, -⟩ := OpenFile.some_of_lift ran
        rfl
      · -- Without bytes to write, nothing is done.
        rw [OpenFile.checkedWriteAt_nothing file source (by omega)] at ran
        cases ran
        rfl

/-- Nothing overflows when a byte of a file of two bytes is read or written. -/
theorem fileArithmetic_fits_lastByte :
    OpenFile.IntsFit (sampleDisk [5] 2) ⟨.ofSectors 4 [5] 2, 0⟩ [7] 1 1 := by
  refine (fileArithmetic_fits_iff ⟨by decide, by decide, by decide⟩ ?_ rfl).mpr (by decide)
  show OpenFile.Bounded (mapHeader (sampleDisk [5] 2))
  rw [mapHeader_sampleDisk]
  exact ⟨by decide, by decide, by decide⟩

/-- The second byte of a file of two bytes is not read by asking for as many as an int can say. -/
theorem fileArithmetic_overflows :
    OpenFile.Bounded (FileHeader.ofSectors 4 [5] 2) ∧
      OpenFile.Bounded (headerAt (sampleDisk [5] 2) freeMapSector) ∧
      InInt (2 ^ 31 - 1) ∧
      (List.replicate (2 ^ 31 - 1) (0 : Byte)).length = (2 ^ 31 - 1 : Int).toNat ∧
      ¬ OpenFile.IntsFit (sampleDisk [5] 2) ⟨.ofSectors 4 [5] 2, 0⟩
        (List.replicate (2 ^ 31 - 1) 0) (2 ^ 31 - 1) 1 := by
  -- The map is a small file.
  have map : OpenFile.Bounded (mapHeader (sampleDisk [5] 2)) := by
    rw [mapHeader_sampleDisk]
    exact ⟨by decide, by decide, by decide⟩
  refine ⟨⟨by decide, by decide, by decide⟩, map, by decide, List.length_replicate, fun fit => ?_⟩
  -- The sum of the position and the count is one more than the largest int.
  have fails : OpenFile.checkedReadAt ⟨.ofSectors 4 [5] 2, 0⟩ (2 ^ 31 - 1) 1 = failure := by
    unfold OpenFile.checkedReadAt
    rw [if_neg (by decide), CheckedFs.int_overflows (by decide)]
    rfl
  -- So the checked read does not give what the plain one gives.
  obtain ⟨_, wrong, -⟩ := fit.read (World.ofDisk (sampleDisk [5] 2)) rfl none
    (World.ofDisk (sampleDisk [5] 2)) (by rw [fails]; rfl)
  cases wrong

end Nachos
