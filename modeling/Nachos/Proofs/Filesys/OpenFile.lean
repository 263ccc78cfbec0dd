import Nachos.Filesys.OpenFile
import Nachos.Proofs.Filesys.Layout

/-! Reading and writing laid out files: which bytes are read, and which sectors change. -/

namespace Nachos

namespace FileHeader

variable {disk disk' : Disk} {hdr : FileHeader}

/-- A part of the file is its front and what comes after. -/
theorem bytesAt_append (disk : Disk) (hdr : FileHeader) (position front back : Nat) :
    hdr.bytesAt disk position front ++ hdr.bytesAt disk (position + front) back =
      hdr.bytesAt disk position (front + back) := by
  unfold bytesAt
  rw [List.range_add, List.map_append, List.map_map]
  congr 2
  funext i
  simp [Nat.add_assoc]

/-- The sectors of the file are cut from it one after the other. -/
theorem bytesAt_sector (disk : Disk) (hdr : FileHeader) (n : Nat) :
    hdr.bytesAt disk (n * sectorSize) sectorSize = (disk (hdr.block disk n)).toList := by
  -- Byte by byte, with the place in the file split into sector and offset.
  apply List.ext_getElem (by simp)
  intro i inside _
  have small : i < sectorSize := by simpa using inside
  have quotient : (n * sectorSize + i) / sectorSize = n := by
    simp only [sectorSize] at *
    omega
  have remainder : (n * sectorSize + i) % sectorSize = i := by
    simp only [sectorSize] at *
    omega
  simp only [bytesAt, List.getElem_map, List.getElem_range, byteAt, quotient, remainder]
  -- The sector has a byte there.
  rw [List.getD_eq_getElem?_getD, List.getElem?_eq_getElem (by simpa using small)]
  rfl

/-- Dropping and taking bytes of a part of the file leaves a smaller part. -/
theorem bytesAt_drop_take (disk : Disk) (hdr : FileHeader) (position : Nat) {skip wanted count : Nat}
    (inside : skip + wanted ≤ count) :
    ((hdr.bytesAt disk position count).drop skip).take wanted =
      hdr.bytesAt disk (position + skip) wanted := by
  obtain ⟨rest, rfl⟩ := Nat.le.dest inside
  rw [Nat.add_assoc, ← bytesAt_append, List.drop_append_of_le_length (by simp),
    List.drop_of_length_le (by simp), List.nil_append, ← bytesAt_append,
    List.take_append_of_le_length (by simp), List.take_of_length_le (by simp)]

/-- An index sector is read as the ints it holds. -/
theorem readIndex_reads {sector : Int} (inRange : OnDisk sector) :
    Fs.Reads disk (readIndex sector) ((List.range numInDirect).map (disk sector).int) :=
  (Fs.Reads.sector inRange).bind (Fs.Reads.pure disk _)

/-- A slot of the index sector is one of its ints. -/
theorem slot_indirect (disk : Disk) (used : hdr.dataSector numDirect ≠ 0) {i : Nat}
    (inside : i < numInDirect) :
    ((List.range numInDirect).map (disk (hdr.dataSector numDirect)).int).getD i 0 =
      hdr.slot disk (numDirect + 1 + i) := by
  unfold slot
  rw [if_neg (by omega), if_pos ⟨used, by simp only [numSlots]; omega⟩, Nat.add_sub_cancel_left]
  simp [List.getD_eq_getElem?_getD, inside]

/-- `ByteToSector` finds the disk sector of a byte. -/
theorem byteToSector_reads (mapped : hdr.Mapped disk) {n : Nat} (counted : n < hdr.nsectors.toNat) :
    Fs.Reads disk (hdr.byteToSector (n * sectorSize)) (hdr.block disk n) := by
  have sizes := mapped.sizes
  obtain ⟨-, positive⟩ := mapped.block_onDisk counted
  -- The place is the start of the sector.
  have quotient : n * sectorSize / sectorSize = n := Nat.mul_div_cancel n (by decide)
  unfold byteToSector
  rw [quotient]
  by_cases direct : n < numDirect
  · -- A direct sector is named by the header itself.
    have here : hdr.block disk n = hdr.dataSector n := by
      unfold block blockSlot slot
      rw [if_pos direct, if_pos (by omega)]
    rw [here] at positive ⊢
    rw [if_pos direct]
    exact (Fs.Reads.assert disk (by simpa using positive)).bind (Fs.Reads.pure disk _)
  · -- Any other one is named by the index sector.
    -- It is there, since the file has more than the direct ones.
    have used := mapped.index_used.mpr (by omega)
    have onDisk := mapped.index_onDisk used
    have there : 0 < hdr.dataSector numDirect := by
      have nonneg := onDisk.1
      omega
    have inside : n - numDirect < numInDirect := by
      simp only [numDirect, numInDirect] at *
      omega
    have here := slot_indirect disk used inside
    have slots : numDirect + 1 + (n - numDirect) = n + 1 := by omega
    -- The slot is the one behind that of the index sector.
    have block : hdr.block disk n = hdr.slot disk (n + 1) := by
      unfold FileHeader.block blockSlot
      rw [if_neg direct]
    rw [slots, ← block] at here
    rw [if_neg direct]
    -- The two assertions about the index hold.
    refine (Fs.Reads.assert disk (by simpa using there)).bind ?_
    refine (readIndex_reads onDisk).bind ?_
    rw [here]
    -- So do those about the entry.
    exact (Fs.Reads.assert disk (by simpa using inside)).bind
      ((Fs.Reads.assert disk (by simpa using positive)).bind (Fs.Reads.pure disk _))

/-- The first sectors of a file are found, and are on the disk. -/
def Found (disk : Disk) (hdr : FileHeader) (count : Nat) : Prop :=
  ∀ n < count, Fs.Reads disk (hdr.byteToSector (n * sectorSize)) (hdr.block disk n) ∧
    OnDisk (hdr.block disk n)

/-- All sectors of a laid out file are found. -/
theorem Laid.found (laid : hdr.Laid disk) : hdr.Found disk hdr.nsectors.toNat :=
  fun _ counted => ⟨byteToSector_reads laid.mapped counted, (laid.block_inRange counted).1⟩

/-- Sectors that the header names itself are found without a look at the disk. -/
theorem found_direct {count : Nat} (few : count ≤ numDirect)
    (named : ∀ n < count, 0 < hdr.dataSector n ∧ OnDisk (hdr.dataSector n)) :
    hdr.Found disk count := by
  intro n counted
  obtain ⟨positive, onDisk⟩ := named n counted
  -- The slot is a direct one.
  have direct : n < numDirect := by omega
  have quotient : n * sectorSize / sectorSize = n := Nat.mul_div_cancel n (by decide)
  have here : hdr.block disk n = hdr.dataSector n := by
    unfold block blockSlot slot
    rw [if_pos direct, if_pos (by omega)]
  rw [here]
  refine ⟨?_, onDisk⟩
  -- The assertion is that the sector is not zero.
  unfold byteToSector
  rw [quotient, if_pos direct]
  exact (Fs.Reads.assert disk (by simpa using positive)).bind (Fs.Reads.pure disk _)

end FileHeader

namespace OpenFile

variable {disk disk' : Disk} {hdr : FileHeader} {file : OpenFile}

/-- A sum that fits an int is computed. -/
theorem intSum_reads (disk : Disk) {x y : Int} (large : -2 ^ 31 ≤ x + y) (small : x + y < 2 ^ 31) :
    Fs.Reads disk (intSum x y) (x + y) :=
  (Fs.Reads.assert disk (by simpa using And.intro large small)).bind (Fs.Reads.pure disk _)

/-- Reading some sectors gives the bytes that are in them. -/
theorem readSectors_reads {sectors : Nat} (found : hdr.Found disk sectors) (count : Nat) :
    ∀ first, first + count ≤ sectors →
      Fs.Reads disk (readSectors hdr first count)
        (hdr.bytesAt disk (first * sectorSize) (count * sectorSize)) := by
  -- The first sector is the front of the part that is read.
  induction count with
  -- Nothing is left to read.
  | zero =>
    intro first counted
    rw [Nat.zero_mul]
    exact Fs.Reads.pure disk []
  -- One sector is read, and then the rest.
  | succ count ih =>
    intro first counted
    unfold readSectors
    obtain ⟨finds, onDisk⟩ := found first (by omega)
    refine finds.bind ((Fs.Reads.sector onDisk).bind ?_)
    refine (ih (first + 1) (by omega)).bind ?_
    -- The two parts follow one another.
    have split := FileHeader.bytesAt_append disk hdr (first * sectorSize) sectorSize
      (count * sectorSize)
    rw [FileHeader.bytesAt_sector, ← Nat.succ_mul, Nat.add_comm sectorSize, ← Nat.succ_mul] at split
    rw [← split]
    exact Fs.Reads.pure disk _

/-- `ReadAt` gives the bytes of the file from the position on, if their sectors are found. -/
theorem readAt_found {sectors : Nat} (found : file.hdr.Found disk sectors) (position : Nat)
    {numBytes : Int} (some : 0 < numBytes) (small : position + numBytes < 2 ^ 31)
    (reach : min (position + numBytes) file.hdr.limit ≤ (sectors * sectorSize : Nat)) :
    Fs.Reads disk (file.readAt numBytes position)
      (file.hdr.bytesAt disk position (min numBytes.toNat (file.hdr.limit.toNat - position))) := by
  unfold readAt
  by_cases past : (position : Int) ≥ file.hdr.limit
  · -- Past the end there is nothing to read.
    rw [if_pos (.inr (.inr past)), show file.hdr.limit.toNat - position = 0 by omega,
      Nat.min_zero]
    exact Fs.Reads.pure disk []
  -- The position is in the file.
  rw [if_neg (by omega)]
  refine (intSum_reads disk (by omega) small).bind ?_
  -- The bytes to read are those asked for, or those up to the end of the file.
  have wanted : (if position + numBytes > file.hdr.limit then file.hdr.limit - position
      else numBytes).toNat = min numBytes.toNat (file.hdr.limit.toNat - position) := by
    split <;> omega
  dsimp only
  rw [wanted, Int.toNat_natCast]
  generalize counted : min numBytes.toNat (file.hdr.limit.toNat - position) = count
  have positive : 0 < count := by omega
  have within : position + count ≤ sectors * sectorSize := by omega
  -- The sectors are those from the first byte to the last one.
  refine (readSectors_reads found _ (position / sectorSize) ?_).bind ?_
  · simp only [sectorSize] at *
    omega
  · -- The bytes are cut out of them.
    have inside : position - position / sectorSize * sectorSize + count ≤
        (1 + (position + count - 1) / sectorSize - position / sectorSize) * sectorSize := by
      simp only [sectorSize] at *
      omega
    have start : position / sectorSize * sectorSize +
        (position - position / sectorSize * sectorSize) = position := by
      simp only [sectorSize] at *
      omega
    rw [FileHeader.bytesAt_drop_take _ _ _ inside, start]
    exact Fs.Reads.pure disk _

/-- `ReadAt` gives the bytes of the file from the position on, as far as the file reaches. -/
theorem readAt_reads (laid : file.hdr.Laid disk) (position : Nat) {numBytes : Int}
    (some : 0 < numBytes) (small : position + numBytes < 2 ^ 31) :
    Fs.Reads disk (file.readAt numBytes position)
      (file.hdr.bytesAt disk position (min numBytes.toNat (file.hdr.limit.toNat - position))) := by
  have sizes := laid.sizes
  exact readAt_found laid.found position some small (by omega)

/-- Writing some sectors replaces them by the buffer, and nothing else on the disk. -/
theorem writeSectors_yields (count : Nat) :
    ∀ {disk first buf}, hdr.Laid disk → first + count ≤ hdr.nsectors.toNat →
      Fs.Yields disk (writeSectors hdr first count buf) fun _ after =>
        (∀ s, (∀ n, first ≤ n → n < first + count → s ≠ hdr.block disk n) → after s = disk s) ∧
        ∀ n, first ≤ n → n < first + count →
          after (hdr.block disk n) = .ofBytes (buf.drop ((n - first) * sectorSize)) := by
  induction count with
  -- Nothing is left to write.
  | zero => exact fun _ _ => Program.Yields.pure ⟨fun _ _ => rfl, fun n _ _ => by omega⟩
  | succ count ih =>
    intro disk first buf laid counted
    unfold writeSectors
    -- The sector is found and written.
    refine (FileHeader.byteToSector_reads laid.mapped (by omega)).bind ?_
    obtain ⟨onDisk, -⟩ := laid.block_inRange (n := first) (by omega)
    refine Fs.writeSector_bind onDisk ?_
    -- The index sector is not written, so the other sectors are still where they were.
    have index : hdr.dataSector numDirect ≠ 0 →
        Function.update disk (hdr.block disk first) (.ofBytes buf) (hdr.dataSector numDirect) =
          disk (hdr.dataSector numDirect) :=
      fun _ => Function.update_of_ne (laid.block_ne_index (by omega)).symm _ _
    have moved := laid.congr rfl rfl rfl rfl laid.limit index
    have blocks : ∀ n, hdr.block (Function.update disk (hdr.block disk first) (.ofBytes buf)) n =
        hdr.block disk n := fun n => FileHeader.slot_congr rfl index _
    -- The rest is written behind it.
    refine (ih moved (by omega)).mono ?_
    rintro _ after ⟨kept, written⟩
    simp only [blocks] at kept written
    refine ⟨fun s other => ?_, fun n from_first to_last => ?_⟩
    · -- Sectors outside both parts are as they were.
      rw [kept s fun n above below => other n (by omega) (by omega)]
      exact Function.update_of_ne (other first (by omega) (by omega)) _ _
    · by_cases here : n = first
      · -- The first sector is written once, and not again by the rest of the loop.
        subst here
        rw [kept _ fun m above below same => ?_, Function.update_self, Nat.sub_self, Nat.zero_mul,
          List.drop_zero]
        have := laid.block_injective (by omega) same
        omega
      · -- The others are written by the rest of the loop.
        rw [written n (by omega) (by omega), List.drop_drop]
        congr 2
        simp only [sectorSize]
        omega

/-- What a write leaves: the buffer in its place, and nothing changed outside of the file. -/
structure Merged (disk after : Disk) (hdr : FileHeader) (source : List Byte) (position : Nat) :
    Prop where
  frame : ∀ s, (∀ n < hdr.nsectors.toNat, s ≠ hdr.block disk n) → after s = disk s
  bytes : ∀ k < position + source.length, hdr.byteAt after k =
    if position ≤ k then source.getD (k - position) 0 else hdr.byteAt disk k

/-- A buffer keeps the bytes that the file has in a sector, whether the sector is read or not. -/
theorem readBack_finds (laid : file.hdr.Laid disk) {needed : Prop} [Decidable needed]
    {buf : List Byte} {place sector : Nat} (small : sector * sectorSize + sectorSize < 2 ^ 31)
    {kept : List Byte → Prop} (read : needed → kept (splice 0 buf place (file.hdr.bytesAt disk
      (sector * sectorSize) (min sectorSize (file.hdr.limit.toNat - sector * sectorSize)))))
    (unread : ¬ needed → kept buf) : Fs.Finds disk (file.readBack needed buf place sector) kept := by
  unfold readBack
  split
  · rename_i holds
    exact (readAt_reads laid (sector * sectorSize) (by decide)
      (by simp only [sectorSize] at *; omega)).bind (Fs.Finds.pure disk (read holds))
  · rename_i fails
    exact Fs.Finds.pure disk (unread fails)

/-- The data part of `WriteAt` puts the buffer in its place and keeps the bytes before it. -/
theorem mergeAt_yields (laid : file.hdr.Laid disk) {source : List Byte} {position : Nat}
    (some : 0 < source.length) (ends : file.hdr.limit = (position + source.length : Nat)) :
    Fs.Yields disk (file.mergeAt source position) fun _ after =>
      Merged disk after file.hdr source position := by
  have sizes := laid.sizes
  have past : file.hdr.limit.toNat = position + source.length := by omega
  unfold mergeAt
  dsimp only
  generalize firstEq : position / sectorSize = first
  generalize lastEq : (position + source.length - 1) / sectorSize = last
  -- The sectors are in order, and in the file.
  have order : first ≤ last ∧ last < file.hdr.nsectors.toNat ∧ first * sectorSize ≤ position ∧
      position < (first + 1) * sectorSize ∧
      position + source.length ≤ (last + 1) * sectorSize := by
    simp only [sectorSize] at *
    omega
  -- Whatever is in the buffer first is written over or not kept.
  refine (Fs.Finds.allocate disk _).bind fun buf _ => ?_
  -- The first sector is read back unless it is written from its start.
  let Keeps (buf : List Byte) : Prop := ∀ j, first * sectorSize + j < position →
    buf.getD j 0 = file.hdr.byteAt disk (first * sectorSize + j)
  have keepsFirst : Fs.Finds disk
      (file.readBack (¬ position = first * sectorSize) buf 0 first) Keeps := by
    refine readBack_finds laid (by simp only [sectorSize] at *; omega) (fun _ j before => ?_)
      fun aligned j before => by omega
    -- What is read back covers the bytes in front of the position.
    have inside : j < min sectorSize (file.hdr.limit.toNat - first * sectorSize) := by
      simp only [sectorSize] at *
      omega
    rw [getD_splice, if_pos (by simpa using inside), Nat.sub_zero,
      FileHeader.getD_bytesAt _ _ _ inside]
  refine keepsFirst.bind fun front kept => ?_
  -- What is read back of the last sector is behind the bytes that have to be kept.
  have keepsLast : Fs.Finds disk (file.readBack (¬ position + source.length = (last + 1) * sectorSize ∧
      (first ≠ last ∨ position = first * sectorSize)) front ((last - first) * sectorSize) last)
      Keeps := by
    refine readBack_finds laid (by simp only [sectorSize] at *; omega) (fun needed j before => ?_)
      fun _ => kept
    -- It begins behind the first sector.
    have ahead : j < (last - first) * sectorSize := by
      simp only [sectorSize] at *
      omega
    rw [getD_splice, if_neg (by omega), kept j before]
  refine keepsLast.bind fun buf kept => ?_
  -- The sectors from the first to the last are written from the buffer.
  refine (writeSectors_yields _ laid (by omega)).mono ?_
  rintro _ after ⟨frame, written⟩
  have index : file.hdr.dataSector numDirect ≠ 0 →
      after (file.hdr.dataSector numDirect) = disk (file.hdr.dataSector numDirect) :=
    fun _ => frame _ fun n _ below => (laid.block_ne_index (by omega)).symm
  -- The index sector is not among them, so the file has the same sectors.
  have blocks : ∀ n, file.hdr.block after n = file.hdr.block disk n :=
    fun n => FileHeader.slot_congr rfl index _
  refine ⟨fun s other => frame s fun n _ below => other n (by omega), fun k inside => ?_⟩
  have counted : k / sectorSize ≤ last := by
    simp only [sectorSize] at *
    omega
  by_cases before : k / sectorSize < first
  · -- The sectors before the first one are not written.
    rw [if_neg (by simp only [sectorSize] at *; omega)]
    refine FileHeader.byteAt_congr (blocks _) (frame _ fun n above _ same => ?_)
    have := laid.block_injective (by omega) same
    omega
  · -- Any other byte comes from the buffer.
    have place : (k / sectorSize - first) * sectorSize + k % sectorSize =
        k - first * sectorSize := by
      simp only [sectorSize] at *
      omega
    unfold FileHeader.byteAt
    rw [blocks, written _ (by omega) (by omega), Sector.getD_ofBytes _ (Nat.mod_lt _ (by decide)),
      List.getD_eq_getElem?_getD, List.getElem?_drop, place, ← List.getD_eq_getElem?_getD,
      getD_splice]
    -- A byte behind the position is one of the source.
    by_cases under : position ≤ k
    · rw [if_pos under, if_pos (by omega)]
      congr 1
      omega
    · -- A byte before it was read back.
      have at_k : first * sectorSize + (k - first * sectorSize) = k := by
        simp only [sectorSize] at *
        omega
      rw [if_neg under, if_neg (by omega), kept _ (by omega), at_k]
      rfl

end OpenFile

end Nachos
