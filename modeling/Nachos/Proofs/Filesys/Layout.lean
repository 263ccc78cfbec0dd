import Nachos.Proofs.Filesys.FileHeader

/-! Where a header puts the sectors and the bytes of its file, and what a laid out file is. -/

namespace Nachos

/-- Number of slots of a header: the direct ones, the index slot, and the index sector's entries. -/
abbrev numSlots : Nat := numDirect + 1 + numInDirect

/-- The number of a sector of the disk fits an int. -/
theorem inInt_of_onDisk {sector : Int} (onDisk : OnDisk sector) : InInt sector := by
  -- There are far fewer sectors than there are ints.
  obtain ⟨nonneg, below⟩ := onDisk
  simp only [numSectors, sectorsPerTrack, numTracks] at below
  exact ⟨by omega, by omega⟩

namespace FileHeader

/--
The sector number in a slot, or 0 if there is none.

Slots 0 to 23 are the direct ones and slot 24 is that of the index sector. The entries of the index
sector come after them.
-/
def slot (disk : Disk) (hdr : FileHeader) (j : Nat) : Int :=
  if j ≤ numDirect then hdr.dataSector j
  else if hdr.dataSector numDirect ≠ 0 ∧ j < numSlots then
    (disk (hdr.dataSector numDirect)).int (j - (numDirect + 1))
  else 0

/-- How many slots a file of so many sectors uses. -/
def usedSlots (n : Nat) : Nat := if n ≤ numDirect then n else n + 1

/-- The slot of a sector of the file. The index sector is not one of them. -/
def blockSlot (n : Nat) : Nat := if n < numDirect then n else n + 1

/-- The disk sector that holds a sector of the file. -/
def block (disk : Disk) (hdr : FileHeader) (n : Nat) : Int := hdr.slot disk (blockSlot n)

/-- A byte of the file. -/
def byteAt (disk : Disk) (hdr : FileHeader) (k : Nat) : Byte :=
  (disk (hdr.block disk (k / sectorSize))).toList.getD (k % sectorSize) 0

/-- Some bytes of the file, from a position on. -/
def bytesAt (disk : Disk) (hdr : FileHeader) (position count : Nat) : List Byte :=
  (List.range count).map fun i => hdr.byteAt disk (position + i)

/-- The contents of the file. -/
def contents (disk : Disk) (hdr : FileHeader) : List Byte := hdr.bytesAt disk 0 hdr.limit.toNat

@[simp] theorem length_bytesAt (disk : Disk) (hdr : FileHeader) (position count : Nat) :
    (hdr.bytesAt disk position count).length = count := by
  simp [bytesAt]

/-- A byte of a part of the file is one of the file. -/
theorem getD_bytesAt (disk : Disk) (hdr : FileHeader) (position : Nat) {i count : Nat}
    (inside : i < count) :
    (hdr.bytesAt disk position count).getD i 0 = hdr.byteAt disk (position + i) := by
  simp [bytesAt, List.getD_eq_getElem?_getD, inside]

/-- A header whose sectors are all there: each on the disk, and none of them twice. -/
structure Laid (disk : Disk) (hdr : FileHeader) : Prop where
  counted : 0 ≤ hdr.nsectors ∧ hdr.nsectors ≤ numDirect + numInDirect
  capacity : hdr.capacity = hdr.nsectors * sectorSize
  limit : 0 ≤ hdr.limit ∧ hdr.limit ≤ hdr.capacity
  self : OnDisk hdr.selfSector
  used : ∀ j, hdr.slot disk j ≠ 0 ↔ j < usedSlots hdr.nsectors.toNat
  inRange : ∀ j, hdr.slot disk j ≠ 0 → OnDisk (hdr.slot disk j) ∧
    hdr.slot disk j ≠ hdr.selfSector
  apart : ∀ i j, hdr.slot disk i ≠ 0 → hdr.slot disk i = hdr.slot disk j → i = j

/-- A header that has sectors of the disk in the slots that it uses, and none in the others. -/
structure Mapped (disk : Disk) (hdr : FileHeader) : Prop where
  counted : 0 ≤ hdr.nsectors ∧ hdr.nsectors ≤ numDirect + numInDirect
  capacity : hdr.capacity = hdr.nsectors * sectorSize
  used : ∀ j, hdr.slot disk j ≠ 0 ↔ j < usedSlots hdr.nsectors.toNat
  onDisk : ∀ j, hdr.slot disk j ≠ 0 → OnDisk (hdr.slot disk j)

/-- A laid out header has its sectors in its slots. -/
theorem Laid.mapped {disk : Disk} {hdr : FileHeader} (laid : hdr.Laid disk) : hdr.Mapped disk :=
  ⟨laid.counted, laid.capacity, laid.used, fun j there => (laid.inRange j there).1⟩

variable {disk disk' : Disk} {hdr : FileHeader}

/-- A slot with a number past all of them is empty. -/
theorem dataSector_of_ge (hdr : FileHeader) {j : Nat} (past : numDirect < j) :
    hdr.dataSector j = 0 := by
  unfold dataSector
  rw [List.getD_eq_default]
  simp only [Vector.length_toList]
  omega

/-- The direct slots and that of the index sector are in the header, wherever that is. -/
theorem slot_direct (disk : Disk) (hdr : FileHeader) {j : Nat} (direct : j ≤ numDirect) :
    hdr.slot disk j = hdr.dataSector j := if_pos direct

/-- The index sector is in slot 24. -/
theorem slot_index (disk : Disk) (hdr : FileHeader) :
    hdr.slot disk numDirect = hdr.dataSector numDirect := if_pos (le_refl _)

/-- Slots stay as they are if the header keeps its sectors and the index sector its contents. -/
theorem slot_congr {hdr' : FileHeader} (sectors : hdr'.dataSectors = hdr.dataSectors)
    (index : hdr.dataSector numDirect ≠ 0 →
      disk' (hdr.dataSector numDirect) = disk (hdr.dataSector numDirect)) (j : Nat) :
    hdr'.slot disk' j = hdr.slot disk j := by
  have same : ∀ i, hdr'.dataSector i = hdr.dataSector i := fun i => by
    unfold dataSector
    rw [sectors]
  unfold slot
  rw [same, same]
  -- A direct slot is in the header, and the others are in the index sector, if there is one.
  by_cases direct : j ≤ numDirect
  · rw [if_pos direct, if_pos direct]
  · by_cases empty : hdr.dataSector numDirect = 0
    · simp [empty]
    · rw [index empty]

/-- A byte stays as it is if its sector is the same and holds the same. -/
theorem byteAt_congr {hdr' : FileHeader} {k : Nat}
    (blocks : hdr'.block disk' (k / sectorSize) = hdr.block disk (k / sectorSize))
    (held : disk' (hdr.block disk (k / sectorSize)) = disk (hdr.block disk (k / sectorSize))) :
    hdr'.byteAt disk' k = hdr.byteAt disk k := by
  unfold byteAt
  rw [blocks, held]

/-- The slot of each sector of the file is in use. -/
theorem blockSlot_used {n m : Nat} (counted : n < m) : blockSlot n < usedSlots m := by
  unfold blockSlot usedSlots
  split <;> split <;> omega

namespace Mapped

/-- Each sector of the file is on the disk, and not missing. -/
theorem block_onDisk (mapped : hdr.Mapped disk) {n : Nat} (counted : n < hdr.nsectors.toNat) :
    OnDisk (hdr.block disk n) ∧ 0 < hdr.block disk n := by
  have used := (mapped.used (blockSlot n)).mpr (blockSlot_used counted)
  have onDisk := mapped.onDisk _ used
  refine ⟨onDisk, ?_⟩
  have nonneg := onDisk.1
  change 0 < hdr.slot disk _
  omega

/-- The index sector is there as soon as the direct ones do not suffice. -/
theorem index_used (mapped : hdr.Mapped disk) :
    hdr.dataSector numDirect ≠ 0 ↔ numDirect < hdr.nsectors.toNat := by
  rw [← slot_index disk, mapped.used]
  unfold usedSlots
  split <;> omega

/-- The index sector is on the disk. -/
theorem index_onDisk (mapped : hdr.Mapped disk) (used : hdr.dataSector numDirect ≠ 0) :
    OnDisk (hdr.dataSector numDirect) := by
  rw [← slot_index disk] at used ⊢
  exact mapped.onDisk _ used

/-- A file is as large as its sectors. -/
theorem sizes (mapped : hdr.Mapped disk) : 0 ≤ hdr.capacity ∧
    hdr.capacity = hdr.nsectors.toNat * sectorSize ∧ hdr.nsectors.toNat ≤ 56 := by
  obtain ⟨⟨some, few⟩, capacity, -⟩ := mapped
  simp only [numDirect, numInDirect] at few
  simp only [sectorSize] at *
  omega

/-- A header with the same sectors has them in its slots as long as the index sector is kept. -/
theorem congr (mapped : hdr.Mapped disk) {hdr' : FileHeader}
    (sectors : hdr'.dataSectors = hdr.dataSectors) (count : hdr'.nsectors = hdr.nsectors)
    (capacity : hdr'.capacity = hdr.capacity)
    (index : hdr.dataSector numDirect ≠ 0 →
      disk' (hdr.dataSector numDirect) = disk (hdr.dataSector numDirect)) : hdr'.Mapped disk' where
  counted := count ▸ mapped.counted
  capacity := by rw [capacity, count, mapped.capacity]
  used j := by rw [slot_congr sectors index, count, mapped.used]
  onDisk j := by
    rw [slot_congr sectors index]
    exact mapped.onDisk j

end Mapped

namespace Laid

/-- Every number in a laid out header fits an int. -/
theorem small (laid : hdr.Laid disk) : hdr.Small := by
  obtain ⟨⟨some, few⟩, capacity, ⟨nonneg, within⟩, self, used, inRange, apart⟩ := laid
  simp only [sectorSize] at capacity
  simp only [numDirect, numInDirect] at few
  refine ⟨⟨by omega, by omega⟩, ⟨by omega, by omega⟩, ⟨by omega, by omega⟩, ?_, fun i => ?_⟩
  · exact inInt_of_onDisk self
  -- There are no slots behind the last one, and the others hold a sector of the disk or 0.
  · by_cases past : numDirect < i
    · rw [hdr.dataSector_of_ge past]
      decide
    · have here : hdr.slot disk i = hdr.dataSector i := if_pos (by omega)
      by_cases empty : hdr.dataSector i = 0
      · rw [empty]
        decide
      · exact inInt_of_onDisk (here ▸ (inRange i (here ▸ empty)).1)

/-- Each sector of the file is on the disk, and neither the header nor missing. -/
theorem block_inRange (laid : hdr.Laid disk) {n : Nat} (counted : n < hdr.nsectors.toNat) :
    OnDisk (hdr.block disk n) ∧ hdr.block disk n ≠ hdr.selfSector ∧ 0 < hdr.block disk n := by
  have used := (laid.used (blockSlot n)).mpr (blockSlot_used counted)
  obtain ⟨onDisk, positive⟩ := laid.mapped.block_onDisk counted
  exact ⟨onDisk, (laid.inRange _ used).2, positive⟩

/-- Different sectors of the file are in different sectors of the disk. -/
theorem block_injective (laid : hdr.Laid disk) {m n : Nat} (counted : m < hdr.nsectors.toNat)
    (same : hdr.block disk m = hdr.block disk n) : m = n := by
  have used := (laid.used (blockSlot m)).mpr (blockSlot_used counted)
  -- The slots are the same, and with them the sectors of the file.
  have slots := laid.apart _ _ used same
  unfold blockSlot at slots
  split at slots <;> split at slots <;> omega

/-- The index sector is there as soon as the direct ones do not suffice. -/
theorem index_used (laid : hdr.Laid disk) :
    hdr.dataSector numDirect ≠ 0 ↔ numDirect < hdr.nsectors.toNat := laid.mapped.index_used

/-- The index sector holds no byte of the file. -/
theorem block_ne_index (laid : hdr.Laid disk) {n : Nat} (counted : n < hdr.nsectors.toNat) :
    hdr.block disk n ≠ hdr.dataSector numDirect := by
  intro same
  have used := (laid.used (blockSlot n)).mpr (blockSlot_used counted)
  -- The slot of the index sector is none of those of the file.
  have slots := laid.apart _ numDirect used (same.trans (slot_index disk hdr).symm)
  unfold blockSlot at slots
  split at slots <;> omega

/-- The index sector is on the disk, and is not the header. -/
theorem index_inRange (laid : hdr.Laid disk) (used : hdr.dataSector numDirect ≠ 0) :
    OnDisk (hdr.dataSector numDirect) ∧ hdr.dataSector numDirect ≠ hdr.selfSector := by
  rw [← slot_index disk] at used ⊢
  exact laid.inRange _ used

/-- A file is as large as its sectors, and ends in them. -/
theorem sizes (laid : hdr.Laid disk) :
    hdr.capacity = hdr.nsectors.toNat * sectorSize ∧ hdr.nsectors.toNat ≤ 56 ∧
      hdr.limit.toNat ≤ hdr.nsectors.toNat * sectorSize ∧ (hdr.limit.toNat : Int) = hdr.limit := by
  obtain ⟨-, capacity, few⟩ := laid.mapped.sizes
  obtain ⟨nonneg, within⟩ := laid.limit
  simp only [sectorSize] at *
  omega

/-- A byte within the file's sectors is in one of them. -/
theorem sector_counted (laid : hdr.Laid disk) {k : Nat} (inside : (k : Int) < hdr.capacity) :
    k / sectorSize < hdr.nsectors.toNat := by
  have sizes := laid.sizes
  simp only [sectorSize] at *
  omega

/-- A header stays laid out if it keeps its sectors, and its index sector what it holds. -/
theorem congr (laid : hdr.Laid disk) {hdr' : FileHeader}
    (sectors : hdr'.dataSectors = hdr.dataSectors) (count : hdr'.nsectors = hdr.nsectors)
    (capacity : hdr'.capacity = hdr.capacity) (self : hdr'.selfSector = hdr.selfSector)
    (limit : 0 ≤ hdr'.limit ∧ hdr'.limit ≤ hdr.capacity)
    (index : hdr.dataSector numDirect ≠ 0 →
      disk' (hdr.dataSector numDirect) = disk (hdr.dataSector numDirect)) : hdr'.Laid disk' := by
  have again := laid.mapped.congr sectors count capacity index
  refine ⟨again.counted, again.capacity, capacity ▸ limit, self ▸ laid.self, again.used,
    fun j => ?_, fun i j => ?_⟩
  · rw [slot_congr sectors index, self]
    exact laid.inRange j
  · rw [slot_congr sectors index, slot_congr sectors index]
    exact laid.apart i j

end Laid

end FileHeader

end Nachos
