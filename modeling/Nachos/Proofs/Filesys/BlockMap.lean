import Mathlib.Data.List.Perm.Basic
import Nachos.Proofs.Filesys.Create

/-! The sectors that `Allocate` adds to a header, call after call, and when it cannot. -/

namespace Nachos

namespace FileHeader

/--
The headers that calls of `Allocate` lead to from a new one, and the disks they are on.

Between the calls anything may be written to the disk but the index sector of the file.
-/
inductive Reached : Disk → FileHeader → Prop
  | new {world final : World} {selfSector : Int} {type : FileType} {hdr : FileHeader}
    (ran : (new selfSector type).run World.serve world = some (hdr, final)) :
    Reached final.disk hdr
  | allocate {world final : World} {hdr hdr' : FileHeader} {freeMap freeMap' : Bitmap} {size : Int}
    (reached : Reached world.disk hdr) (ofDisk : freeMap.OfDisk)
    (ran : (hdr.allocate freeMap size).run World.serve world =
      some ((true, hdr', freeMap'), final)) : Reached final.disk hdr'
  | elsewhere {disk disk' : Disk} {hdr : FileHeader} (reached : Reached disk hdr)
    (index : hdr.dataSector numDirect ≠ 0 →
      disk' (hdr.dataSector numDirect) = disk (hdr.dataSector numDirect)) : Reached disk' hdr
  | setFileLimit {disk : Disk} {hdr : FileHeader} (reached : Reached disk hdr) (position : Int) :
    Reached disk (hdr.setFileLimit position)

variable {disk after : Disk} {hdr hdr' : FileHeader} {freeMap freeMap' : Bitmap} {size : Int}

/-- Does the file need its index sector now, for so many more sectors? -/
def NeedsIndex (hdr : FileHeader) (wanted : Nat) : Prop :=
  hdr.dataSector numDirect = 0 ∧ numDirect < hdr.nsectors.toNat + wanted

instance (hdr : FileHeader) (wanted : Nat) : Decidable (hdr.NeedsIndex wanted) :=
  inferInstanceAs (Decidable (_ ∧ _))

/-- The index sector is needed as soon as the file first has more than the direct sectors. -/
theorem Mapped.needsIndex_iff (mapped : hdr.Mapped disk) (wanted : Nat) :
    hdr.NeedsIndex wanted ↔
      hdr.nsectors.toNat ≤ numDirect ∧ numDirect < hdr.nsectors.toNat + wanted := by
  -- Whether there is an index sector is seen in the number of sectors.
  have used := mapped.index_used
  unfold NeedsIndex
  constructor
  · -- Without one the file has direct sectors only.
    rintro ⟨none, more⟩
    refine ⟨?_, more⟩
    by_contra many
    exact used.mpr (by omega) none
  · -- A file with direct sectors only has none.
    rintro ⟨few, more⟩
    refine ⟨?_, more⟩
    by_contra there
    have := used.mp there
    omega

/-- The slots that a file needs are those of its sectors, and one for the index sector. -/
theorem Mapped.neededSlots_eq (mapped : hdr.Mapped disk) (wanted : Nat) :
    hdr.neededSlots wanted = wanted + if hdr.NeedsIndex wanted then 1 else 0 := by
  rw [if_congr (mapped.needsIndex_iff wanted) rfl rfl]
  unfold neededSlots usedSlots
  split <;> split <;> split <;> omega

/-- `ByteToSector` finds a byte where it finds the first one of the same sector. -/
theorem byteToSector_start (hdr : FileHeader) (offset : Nat) :
    hdr.byteToSector (offset / sectorSize * sectorSize) = hdr.byteToSector offset := by
  have quotient : offset / sectorSize * sectorSize / sectorSize = offset / sectorSize :=
    Nat.mul_div_cancel _ (by decide)
  unfold byteToSector
  rw [quotient]

/-- Each byte that fits the file is found in a sector of the file. -/
theorem Mapped.byteToSector_reads (mapped : hdr.Mapped disk) {offset : Nat}
    (inside : (offset : Int) < hdr.capacity) :
    Fs.Reads disk (hdr.byteToSector offset) (hdr.block disk (offset / sectorSize)) := by
  have sizes := mapped.sizes
  rw [← byteToSector_start]
  refine FileHeader.byteToSector_reads mapped ?_
  simp only [sectorSize] at *
  omega

/-- Of the sectors that fill the next slots, one may be the index sector. -/
theorem split_index {old n : Nat} {taken : List Nat}
    (long : taken.length = usedSlots (old + n) - usedSlots old) :
    ∃ fresh index : List Nat, (fresh ++ index).Perm taken ∧ fresh.length = n ∧
      index.length = (if old ≤ numDirect ∧ numDirect < old + n then 1 else 0) ∧
      (∀ i < n, fresh[i]? = taken[blockSlot (old + i) - usedSlots old]?) ∧
      ∀ s ∈ index, usedSlots old ≤ numDirect ∧ taken[numDirect - usedSlots old]? = some s := by
  by_cases crosses : old ≤ numDirect ∧ numDirect < old + n
  · -- The slot of the index sector is among those that are filled.
    obtain ⟨few, many⟩ := crosses
    have used : usedSlots old = old := if_pos few
    have used' : usedSlots (old + n) = old + n + 1 := if_neg (by omega)
    have inside : numDirect - old < taken.length := by omega
    refine ⟨taken.eraseIdx (numDirect - old), [taken[numDirect - old]], ?_, ?_, ?_,
      fun i below => ?_, fun s member => ?_⟩
    · -- What is taken is the index sector and the others.
      exact List.perm_append_comm.trans (List.getElem_cons_eraseIdx_perm inside)
    · rw [List.length_eraseIdx_of_lt inside]
      omega
    · -- There is one index sector.
      rw [if_pos ⟨few, many⟩, List.length_singleton]
    · rw [used]
      unfold blockSlot
      -- A sector before it is at its own place, and one behind it is one further.
      by_cases direct : old + i < numDirect
      · rw [if_pos direct, List.getElem?_eraseIdx_of_lt (by omega), Nat.add_sub_cancel_left]
      · rw [if_neg direct, List.getElem?_eraseIdx_of_ge (by omega)]
        congr 1
        omega
    · -- It is in the slot behind the direct ones.
      obtain rfl := List.mem_singleton.mp member
      rw [used]
      exact ⟨few, List.getElem?_eq_getElem inside⟩
  · -- All of the slots are those of sectors of the file.
    have slots : ∀ i < n, blockSlot (old + i) - usedSlots old = i := by
      intro i below
      unfold blockSlot usedSlots
      split <;> split <;> omega
    have count : usedSlots (old + n) - usedSlots old = n := by
      unfold usedSlots
      split <;> split <;> omega
    refine ⟨taken, [], ?_, long.trans count, ?_, fun i below => ?_, fun s member => ?_⟩
    · -- There is no index sector among them.
      rw [List.append_nil]
    · rw [if_neg crosses, List.length_nil]
    · rw [slots i below]
    · exact absurd member List.not_mem_nil

/-- What a successful `Allocate` of `n` sectors leaves, with the sectors that it found. -/
structure ExtendsMap (disk after : Disk) (hdr hdr' : FileHeader) (freeMap freeMap' : Bitmap)
    (n : Nat) (fresh index : List Nat) : Prop where
  nsectors : hdr'.nsectors = hdr.nsectors + n
  capacity : hdr'.capacity = hdr'.nsectors * sectorSize
  small : hdr'.capacity ≤ maxFileSize
  -- The bytes that the file had room for are where they were.
  kept : ∀ offset : Nat, offset < hdr.capacity → ∃ sector,
    Fs.Reads disk (hdr.byteToSector offset) sector ∧ Fs.Reads after (hdr'.byteToSector offset) sector
  -- Each of the new sectors has room for the next bytes.
  found : ∀ offset : Nat, hdr.capacity ≤ offset → offset < hdr'.capacity → ∃ sector : Nat,
    fresh[(offset - hdr.capacity.toNat) / sectorSize]? = some sector ∧
      Fs.Reads after (hdr'.byteToSector offset) sector
  long : fresh.length = n
  -- The index sector comes with the first sector that the header cannot name itself.
  indexed : index.length =
    if hdr.nsectors ≤ numDirect ∧ numDirect < hdr'.nsectors then 1 else 0
  named : ∀ sector ∈ index, hdr'.dataSector numDirect = sector
  nodup : (fresh ++ index).Nodup
  clear : ∀ sector ∈ fresh ++ index, sector < freeMap.numBits ∧ freeMap.bit sector = false
  numBits : freeMap'.numBits = freeMap.numBits
  bits : ∀ j, freeMap'.bit j = (decide (j ∈ fresh ++ index) || freeMap.bit j)

/-- A header that has got its sectors from the map has got them as it should. -/
theorem Allocated.extendsMap (mapped : hdr.Mapped disk) (ofDisk : freeMap.OfDisk) {n : Nat}
    {taken : List Nat} (allocated : Allocated disk after hdr hdr' freeMap freeMap' n taken)
    (fits : hdr.nsectors.toNat + n ≤ numDirect + numInDirect) :
    ∃ fresh index, ExtendsMap disk after hdr hdr' freeMap freeMap' n fresh index := by
  -- The header has grown by the sectors that were taken.
  obtain ⟨takes, long, extended⟩ := allocated
  have grew := extended.grew
  have mapped' : hdr'.Mapped after := grew.mapped mapped fits long fun s member =>
    ofDisk.free (takes.clear s member).1 (takes.clear s member).2
  have sizes := mapped.sizes
  have sizes' := mapped'.sizes
  have counted := mapped.counted
  have nsectors := grew.nsectors
  -- They are those of the file, and the index sector if there is one.
  obtain ⟨fresh, index, perm, length, single, named, indexed⟩ := split_index long
  refine ⟨fresh, index, nsectors, grew.capacity, ?_, fun offset inside => ?_,
    fun offset behind inside => ?_, length, ?_, fun s member => ?_, perm.nodup_iff.mpr takes.nodup,
    fun s member => takes.clear s (perm.mem_iff.mp member), takes.numBits, fun j => ?_⟩
  · -- The size is still one that a file can have.
    simp only [maxFileSize, numDirect, numInDirect, sectorSize] at *
    omega
  · -- Bytes from before are in the sectors where they were.
    refine ⟨_, mapped.byteToSector_reads inside, ?_⟩
    have same : hdr'.block after (offset / sectorSize) = hdr.block disk (offset / sectorSize) := by
      have used : offset / sectorSize < hdr.nsectors.toNat := by
        simp only [sectorSize] at *
        omega
      unfold block
      rw [grew.slots, if_pos (blockSlot_used used)]
    rw [← same]
    refine mapped'.byteToSector_reads ?_
    simp only [sectorSize] at *
    omega
  · -- The byte is in one of the new sectors, counted from the old end.
    obtain ⟨i, place⟩ : ∃ i, (offset - hdr.capacity.toNat) / sectorSize = i := ⟨_, rfl⟩
    have quotient : offset / sectorSize = hdr.nsectors.toNat + i ∧ i < n := by
      simp only [sectorSize] at *
      omega
    have slot : ¬ blockSlot (hdr.nsectors.toNat + i) < usedSlots hdr.nsectors.toNat := by
      unfold blockSlot usedSlots
      split <;> split <;> omega
    obtain ⟨sector, held⟩ : ∃ sector, fresh[i]? = some sector :=
      ⟨_, List.getElem?_eq_getElem (by omega)⟩
    have reads := mapped'.byteToSector_reads inside
    unfold block at reads
    rw [quotient.1, grew.slots, if_neg slot, List.getD_eq_getElem?_getD, ← named i quotient.2,
      held, Option.getD_some] at reads
    exact ⟨sector, place ▸ held, reads⟩
  · -- An index sector is taken exactly when the file comes to need one.
    rw [single, nsectors]
    have same : (hdr.nsectors ≤ numDirect ∧ (numDirect : Int) < hdr.nsectors + n) ↔
        hdr.nsectors.toNat ≤ numDirect ∧ numDirect < hdr.nsectors.toNat + n := by omega
    simp only [same]
  · -- It is the one that the header now names.
    obtain ⟨few, held⟩ := indexed s member
    rw [← slot_index after, grew.slots, if_neg (by omega), List.getD_eq_getElem?_getD, held,
      Option.getD_some]
  · -- The map has these sectors marked, and the others as before.
    rw [takes.bit]
    simp only [perm.mem_iff]

/-- `Allocate` of no bytes gives what is there. -/
theorem allocate_nothing (disk : Disk) (hdr : FileHeader) (freeMap : Bitmap) :
    Fs.Reads disk (hdr.allocate freeMap 0) (true, hdr, freeMap) := Fs.Reads.pure disk _

/-- `Allocate` of fewer than no bytes gives nothing. -/
theorem allocate_negative (disk : Disk) (hdr : FileHeader) (freeMap : Bitmap) {size : Int}
    (negative : size < 0) : Fs.Reads disk (hdr.allocate freeMap size) (false, hdr, freeMap) := by
  unfold allocate
  rw [if_neg (by omega), if_pos (.inl negative)]
  exact Fs.Reads.pure disk _

/-- The request is for more bytes, and so many that the file does not become too large. -/
def Fits (hdr : FileHeader) (size : Int) : Prop :=
  0 < size ∧ size + hdr.capacity ≤ maxFileSize

/-- How many sectors a request takes, with the index sector if the file gets it now. -/
def sectorsFor (hdr : FileHeader) (size : Int) : Nat :=
  divRoundUp size.toNat sectorSize +
    if hdr.NeedsIndex (divRoundUp size.toNat sectorSize) then 1 else 0

/-- Just the data sectors are free, and none is left for the index sector that is needed, too. -/
structure LacksIndex (hdr : FileHeader) (freeMap : Bitmap) (size : Int) : Prop where
  fits : hdr.Fits size
  needed : hdr.NeedsIndex (divRoundUp size.toNat sectorSize)
  exact : freeMap.numClear = divRoundUp size.toNat sectorSize

/-- `Allocate` aborts when the sector that is missing is the index sector. -/
theorem LacksIndex.refuses (lacks : hdr.LacksIndex freeMap size) (mapped : hdr.Mapped disk)
    (ofDisk : freeMap.OfDisk) : Fs.Refuses disk (hdr.allocate freeMap size) := by
  refine allocate_refuses mapped ofDisk lacks.fits.1 lacks.fits.2 lacks.exact.ge ?_
  rw [mapped.neededSlots_eq, if_pos lacks.needed, lacks.exact]
  exact Nat.lt_succ_self _

/-- `Allocate` finds the sectors if all of them are free. -/
theorem allocate_found (mapped : hdr.Mapped disk) (ofDisk : freeMap.OfDisk) (fits : hdr.Fits size)
    (enough : hdr.sectorsFor size ≤ freeMap.numClear) :
    Fs.Yields disk (hdr.allocate freeMap size) fun given after =>
      ∃ hdr' freeMap' fresh, given = (true, hdr', freeMap') ∧ Allocated disk after hdr hdr' freeMap
        freeMap' (divRoundUp size.toNat sectorSize) fresh :=
  allocate_yields mapped ofDisk fits.1 fits.2 (mapped.neededSlots_eq _ ▸ enough)

/-- `Allocate` changes nothing if sectors are missing, and not just the index sector. -/
theorem allocate_missing (mapped : hdr.Mapped disk) (some : size ≠ 0)
    (unmet : ¬ (hdr.Fits size ∧ hdr.sectorsFor size ≤ freeMap.numClear))
    (other : ¬ hdr.LacksIndex freeMap size) :
    Fs.Reads disk (hdr.allocate freeMap size) (false, hdr, freeMap) := by
  -- A negative size is refused first.
  by_cases negative : size < 0
  · exact allocate_negative disk hdr freeMap negative
  -- So is one that is too large.
  by_cases large : maxFileSize < size + hdr.capacity
  · exact allocate_large large (by omega)
  have fits : hdr.Fits size := ⟨by omega, by omega⟩
  -- The size is in order, so it is the map that has too few clear bits.
  refine allocate_short fits.1 fits.2 mapped.sizes.1 ?_
  by_contra enough
  unfold sectorsFor at unmet
  split at unmet
  · -- The index sector would be the only one that is missing.
    rename_i needed
    refine other ⟨fits, needed, ?_⟩
    by_contra different
    exact unmet ⟨fits, by omega⟩
  · -- The sectors of the bytes are missing.
    exact unmet ⟨fits, by omega⟩

/-- Every header that `Allocate` leads to has its sectors in its slots. -/
theorem Reached.mapped (reached : Reached disk hdr) : hdr.Mapped disk := by
  -- By induction on how the header was reached.
  induction reached with
  -- A new header has no sectors.
  | @new world final selfSector type hdr ran =>
    obtain ⟨-, blank⟩ := (new_finds world.disk selfSector type).holds rfl ran
    exact blank.mapped _
  -- It has been through a call that succeeded.
  | @allocate world final hdr hdr' freeMap freeMap' size reached ofDisk ran mapped =>
    -- Nothing was asked for.
    by_cases none : size = 0
    · subst none
      obtain ⟨same, kept⟩ := (allocate_nothing world.disk hdr freeMap).holds rfl ran
      cases same
      exact kept ▸ mapped
    -- All the sectors were found.
    by_cases met : hdr.Fits size ∧ hdr.sectorsFor size ≤ freeMap.numClear
    · obtain ⟨_, _, fresh, same, takes, long, extended⟩ :=
        (allocate_found mapped ofDisk met.1 met.2).holds rfl ran
      cases same
      exact extended.grew.mapped mapped (mapped.wanted_fits met.1.1 met.1.2).2 long
        fun s member => ofDisk.free (takes.clear s member).1 (takes.clear s member).2
    · -- A call that finds no sectors does not succeed.
      by_cases lacks : hdr.LacksIndex freeMap size
      · rw [lacks.refuses mapped ofDisk world rfl] at ran
        cases ran
      · obtain ⟨same, -⟩ := (allocate_missing mapped none met lacks).holds rfl ran
        cases same
  -- The disk has changed elsewhere.
  | elsewhere reached index mapped => exact mapped.congr rfl rfl rfl index
  -- The limit is no part of the map.
  | setFileLimit reached position mapped =>
    unfold FileHeader.setFileLimit
    split
    · exact mapped
    · exact mapped.congr rfl rfl rfl fun _ => rfl

/-- What `Allocate` is to do with every request. -/
def AllocatesCleanly (disk : Disk) (hdr : FileHeader) (freeMap : Bitmap) (size : Int) : Prop :=
  -- It ends, so no assertion fails.
  Fs.Yields disk (hdr.allocate freeMap size) fun (enough, hdr', freeMap') after =>
    (enough = true ↔
      size = 0 ∨ hdr.Fits size ∧ hdr.sectorsFor size ≤ freeMap.numClear) ∧
    (enough = false → hdr' = hdr ∧ freeMap' = freeMap ∧ after = disk)

/-- An `Allocate` that lacks just the index sector does not do what it is to do. -/
theorem LacksIndex.not_cleanly (lacks : hdr.LacksIndex freeMap size) (mapped : hdr.Mapped disk)
    (ofDisk : freeMap.OfDisk) : ¬ hdr.AllocatesCleanly disk freeMap size := by
  intro cleanly
  obtain ⟨_, _, ran, -⟩ := cleanly (World.ofDisk disk) rfl
  rw [lacks.refuses mapped ofDisk _ rfl] at ran
  cases ran

/-- A header without sectors is one that `Allocate` starts from. -/
theorem reached_ofSectors (selfSector : Int) (disk : Disk) :
    Reached disk (ofSectors selfSector [] 0) :=
  .new (show (FileHeader.new selfSector .file).run World.serve (World.ofDisk disk) =
    some (ofSectors selfSector [] 0, { World.ofDisk disk with asked := 2 }) from rfl)

end FileHeader

/-- A successful `Allocate` adds as many free sectors to the file as the bytes take. -/
theorem allocate_extendsMap {world final : World} {hdr hdr' : FileHeader}
    {freeMap freeMap' : Bitmap} {size : Int} (reached : FileHeader.Reached world.disk hdr)
    (ofDisk : freeMap.OfDisk) (some : 0 < size)
    (ran : (hdr.allocate freeMap size).run World.serve world =
      .some ((true, hdr', freeMap'), final)) :
    ∃ fresh index, FileHeader.ExtendsMap world.disk final.disk hdr hdr' freeMap freeMap'
      (divRoundUp size.toNat sectorSize) fresh index := by
  have mapped := reached.mapped
  by_cases met : hdr.Fits size ∧ hdr.sectorsFor size ≤ freeMap.numClear
  · -- All sectors were found, as the call has succeeded.
    obtain ⟨_, _, taken, same, allocated⟩ :=
      (FileHeader.allocate_found mapped ofDisk met.1 met.2).holds rfl ran
    cases same
    exact allocated.extendsMap mapped ofDisk (mapped.wanted_fits met.1.1 met.1.2).2
  · by_cases lacks : hdr.LacksIndex freeMap size
    -- The call stops at an assertion, and does not return.
    · rw [lacks.refuses mapped ofDisk world rfl] at ran
      cases ran
    · -- It would have failed.
      obtain ⟨same, -⟩ :=
        (FileHeader.allocate_missing mapped some.ne' met lacks).holds rfl ran
      cases same

/-- A new file gets 25 sectors and its index sector from a map with only sector 0 taken. -/
theorem allocate_extendsMap_pastDirect :
    ∃ hdr' freeMap' final fresh index,
      ((FileHeader.ofSectors 5 [] 0).allocate (.ofMarked [0]) 3200).run World.serve
        (World.ofDisk fun _ => .ofBytes []) = some ((true, hdr', freeMap'), final) ∧
      FileHeader.ExtendsMap (fun _ => .ofBytes []) final.disk (.ofSectors 5 [] 0) hdr'
        (.ofMarked [0]) freeMap' 25 fresh index := by
  -- The header is one without sectors.
  have reached : FileHeader.Reached (World.ofDisk fun _ => .ofBytes []).disk (.ofSectors 5 [] 0) :=
    FileHeader.reached_ofSectors 5 _
  have ofDisk : (Bitmap.ofMarked [0]).OfDisk := Bitmap.ofMarked_ofDisk (by decide) (by decide)
  have clear := @Bitmap.numClear_ofMarked [0] (by decide) (by decide)
  have fits : (FileHeader.ofSectors 5 [] 0).Fits 3200 := ⟨by decide, by decide⟩
  -- 25 sectors for the bytes, and one for the index.
  have enough : (FileHeader.ofSectors 5 [] 0).sectorsFor 3200 ≤ (Bitmap.ofMarked [0]).numClear := by
    have needed : (FileHeader.ofSectors 5 [] 0).sectorsFor 3200 = 26 := by decide
    simp only [List.length_cons, List.length_nil, numSectors, sectorsPerTrack, numTracks] at clear
    omega
  -- So the call succeeds.
  obtain ⟨_, final, ran, hdr', freeMap', _, rfl, -⟩ :=
    FileHeader.allocate_found reached.mapped ofDisk fits enough (World.ofDisk _) rfl
  obtain ⟨fresh, index, extended⟩ := allocate_extendsMap reached ofDisk (by decide) ran
  exact ⟨hdr', freeMap', final, fresh, index, ran, extended⟩

/-- `Allocate` does what it is to do unless just the index sector is missing. -/
theorem allocate_failsCleanly_iff {disk : Disk} {hdr : FileHeader} {freeMap : Bitmap}
    (reached : FileHeader.Reached disk hdr) (ofDisk : freeMap.OfDisk) (size : Int) :
    hdr.AllocatesCleanly disk freeMap size ↔ ¬ hdr.LacksIndex freeMap size := by
  have mapped := reached.mapped
  constructor
  · -- If just the index sector is missing, the call stops the kernel.
    exact fun cleanly lacks => lacks.not_cleanly mapped ofDisk cleanly
  · intro other
    unfold FileHeader.AllocatesCleanly
    -- Nothing is asked for, or all that is asked for is found, or the call fails first.
    by_cases none : size = 0
    · -- Nothing is asked for.
      subst none
      refine (FileHeader.allocate_nothing disk hdr freeMap).mono ?_
      rintro _ _ ⟨rfl, rfl⟩
      exact ⟨iff_of_true rfl (.inl rfl), fun failed => nomatch failed⟩
    by_cases met : hdr.Fits size ∧ hdr.sectorsFor size ≤ freeMap.numClear
    · -- All the sectors are found.
      refine (FileHeader.allocate_found mapped ofDisk met.1 met.2).mono ?_
      rintro _ after ⟨hdr', freeMap', fresh, rfl, -⟩
      exact ⟨iff_of_true rfl (.inr met), fun failed => nomatch failed⟩
    · -- The call fails, and nothing has changed.
      refine (FileHeader.allocate_missing mapped none met other).mono ?_
      rintro _ _ ⟨rfl, rfl⟩
      exact ⟨iff_of_false (fun wrong => nomatch wrong) fun either => either.elim none met,
        fun _ => ⟨rfl, rfl, rfl⟩⟩

/-- A map with all but one of the sectors left has enough of them for 25 sectors of a file. -/
theorem allocate_failsCleanly_enough :
    (FileHeader.ofSectors 5 [] 0).AllocatesCleanly (fun _ => .ofBytes []) (.ofMarked [0]) 3200 := by
  refine (allocate_failsCleanly_iff (FileHeader.reached_ofSectors 5 _)
    (Bitmap.ofMarked_ofDisk (by decide) (by decide)) 3200).mpr fun lacks => ?_
  have clear := @Bitmap.numClear_ofMarked [0] (by decide) (by decide)
  have wanted : divRoundUp (3200 : Int).toNat sectorSize = 25 := by decide
  rw [lacks.exact, wanted] at clear
  exact absurd clear (by decide)

/-- With 25 sectors left, 25 sectors of a new file make `Allocate` abort. -/
theorem allocate_abortsShort :
    FileHeader.Reached (fun _ => .ofBytes []) (.ofSectors 5 [] 0) ∧
      (Bitmap.ofMarked (List.range 999)).OfDisk ∧
      ¬ (FileHeader.ofSectors 5 [] 0).AllocatesCleanly (fun _ => .ofBytes [])
        (.ofMarked (List.range 999)) 3200 := by
  have reached := FileHeader.reached_ofSectors 5 fun _ => .ofBytes []
  -- The bits are in range.
  have inRange : ∀ s ∈ List.range 999, s < numSectors := by
    intro s member
    have below := List.mem_range.mp member
    simp only [numSectors, sectorsPerTrack, numTracks]
    omega
  have ofDisk : (Bitmap.ofMarked (List.range 999)).OfDisk :=
    Bitmap.ofMarked_ofDisk inRange (List.mem_range.mpr (by decide))
  -- 25 sectors are clear, which is one too few.
  have clear := Bitmap.numClear_ofMarked inRange List.nodup_range
  have wanted : divRoundUp (3200 : Int).toNat sectorSize = 25 := by decide
  rw [List.length_range] at clear
  refine ⟨reached, ofDisk, FileHeader.LacksIndex.not_cleanly ⟨⟨by decide, by decide⟩, ?_, ?_⟩
    reached.mapped ofDisk⟩
  · -- The file would have more than the direct sectors.
    rw [wanted]
    decide
  · -- As many bits are clear as the bytes take.
    rw [wanted]
    exact Nat.add_right_cancel (clear.trans (show numSectors = 25 + 999 from rfl))

end Nachos
