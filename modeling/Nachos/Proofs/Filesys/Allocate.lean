import Nachos.Proofs.Filesys.OpenFile

/-! Allocation of sectors to a file: which slots are filled, and with which sectors. -/

namespace Nachos

/-- A map of all sectors of the disk in which sector 0 is taken. -/
structure Bitmap.OfDisk (freeMap : Bitmap) : Prop where
  numBits : freeMap.numBits = numSectors
  taken : freeMap.bit 0 = true

/-- A sector that is free is not sector 0, and is on the disk. -/
theorem Bitmap.OfDisk.free {freeMap : Bitmap} (ofDisk : freeMap.OfDisk) {i : Nat}
    (inRange : i < freeMap.numBits) (clear : freeMap.bit i = false) :
    0 < i ∧ i < numSectors := by
  refine ⟨Nat.pos_of_ne_zero fun zero => ?_, ofDisk.numBits ▸ inRange⟩
  rw [zero, ofDisk.taken] at clear
  cases clear

/-- The map stays one of all sectors when more of them are found. -/
theorem Bitmap.Takes.ofDisk {freeMap after : Bitmap} {fresh : List Nat}
    (takes : freeMap.Takes fresh after) (ofDisk : freeMap.OfDisk) : after.OfDisk where
  numBits := takes.numBits.trans ofDisk.numBits
  taken := by rw [takes.bit, ofDisk.taken, Bool.or_true]

namespace FileHeader

/-- Put sectors into slots of the header, one after the other. -/
def setSlots (hdr : FileHeader) : Nat → List Nat → FileHeader
  | _, [] => hdr
  | i, sector :: rest => (hdr.setDataSector i sector).setSlots (i + 1) rest

/-- Put sectors into the entries of an index sector, one after the other. -/
def setEntries (inDirect : List Int) : Nat → List Nat → List Int
  | _, [] => inDirect
  | i, sector :: rest => setEntries (inDirect.set i sector) (i + 1) rest

variable {disk disk' : Disk} {hdr : FileHeader} {freeMap : Bitmap}

/-- A slot that is set holds the sector, and the others what they held. -/
theorem dataSector_setDataSector (hdr : FileHeader) {i : Nat} (inside : i ≤ numDirect)
    (sector : Int) (j : Nat) :
    (hdr.setDataSector i sector).dataSector j = if i = j then sector else hdr.dataSector j := by
  unfold dataSector setDataSector
  dsimp only
  rw [Vector.toList_setIfInBounds, List.getD_eq_getElem?_getD, List.getD_eq_getElem?_getD,
    List.getElem?_set]
  split
  · rename_i same
    subst same
    simp only [Vector.length_toList, if_pos (Nat.lt_succ_of_le inside), Option.getD_some]
  · rfl

/-- One place is set and then the places behind it, which sets all of them to the whole list. -/
theorem getD_cons_places (sector : Nat) (rest : List Nat) (i j : Nat) (otherwise : Int) :
    (if i + 1 ≤ j ∧ j < i + 1 + rest.length then (rest.getD (j - (i + 1)) 0 : Int)
      else if i = j then (sector : Int) else otherwise) =
    if i ≤ j ∧ j < i + (rest.length + 1) then ((sector :: rest).getD (j - i) 0 : Int)
      else otherwise := by
  by_cases here : i = j
  · subst here
    rw [if_neg (by omega), if_pos rfl, if_pos (by omega), Nat.sub_self, List.getD_cons_zero]
  · by_cases later : i + 1 ≤ j ∧ j < i + 1 + rest.length
    · rw [if_pos later, if_pos (by omega), show j - i = j - (i + 1) + 1 by omega,
        List.getD_cons_succ]
    · rw [if_neg later, if_neg here, if_neg (by omega)]

/-- Slots that are set one after the other hold the sectors in their order. -/
theorem dataSector_setSlots (fresh : List Nat) :
    ∀ {hdr : FileHeader} {i : Nat}, i + fresh.length ≤ numDirect + 1 → ∀ j,
      (hdr.setSlots i fresh).dataSector j =
        if i ≤ j ∧ j < i + fresh.length then (fresh.getD (j - i) 0 : Int) else hdr.dataSector j := by
  induction fresh with
  | nil =>
    intro hdr i _ j
    rw [if_neg (by simp only [List.length_nil]; omega)]
    rfl
  | cons sector rest ih =>
    intro hdr i inside j
    simp only [List.length_cons] at inside ⊢
    rw [setSlots, ih (by omega), dataSector_setDataSector _ (by omega)]
    exact getD_cons_places sector rest i j _

/-- Setting slots changes nothing else in the header. -/
theorem setSlots_fields (fresh : List Nat) : ∀ (hdr : FileHeader) (i : Nat),
    hdr.setSlots i fresh = { hdr with dataSectors := (hdr.setSlots i fresh).dataSectors } := by
  induction fresh with
  | nil => exact fun _ _ => rfl
  | cons sector rest ih =>
    intro hdr i
    rw [setSlots, ih]
    rfl

/-- Setting entries keeps their number. -/
@[simp] theorem length_setEntries (fresh : List Nat) : ∀ (inDirect : List Int) (i : Nat),
    (setEntries inDirect i fresh).length = inDirect.length := by
  induction fresh with
  | nil => exact fun _ _ => rfl
  | cons sector rest ih =>
    intro inDirect i
    rw [setEntries, ih, List.length_set]

/-- Entries that are set one after the other hold the sectors in their order. -/
theorem getD_setEntries (fresh : List Nat) :
    ∀ {inDirect : List Int} {i : Nat}, i + fresh.length ≤ inDirect.length → ∀ j,
      (setEntries inDirect i fresh).getD j 0 =
        if i ≤ j ∧ j < i + fresh.length then (fresh.getD (j - i) 0 : Int)
        else inDirect.getD j 0 := by
  -- Over the sectors that are entered, one place after the other.
  induction fresh with
  | nil =>
    intro inDirect i _ j
    rw [if_neg (by simp only [List.length_nil]; omega)]
    rfl
  | cons sector rest ih =>
    intro inDirect i inside j
    simp only [List.length_cons] at inside ⊢
    rw [setEntries, ih (by rw [List.length_set]; omega)]
    -- Setting one entry changes just that place.
    have set : (inDirect.set i (sector : Int)).getD j 0 =
        if i = j then (sector : Int) else inDirect.getD j 0 := by
      rw [List.getD_eq_getElem?_getD, List.getD_eq_getElem?_getD, List.getElem?_set]
      split
      · rw [if_pos (by omega), Option.getD_some]
      · rfl
    rw [set]
    exact getD_cons_places sector rest i j _

/-- The direct slots are filled with the next free sectors, as far as they reach. -/
theorem allocateDirect_reads (disk : Disk) (count : Nat) :
    ∀ (i n : Nat) (hdr : FileHeader) {freeMap}, freeMap.OfDisk →
      min n count ≤ freeMap.numClear →
      ∃ fresh after, freeMap.Takes fresh after ∧ fresh.length = min n count ∧
        Fs.Reads disk (allocateDirect (List.range' i count) n hdr freeMap)
          (n - min n count, hdr.setSlots i fresh, after) := by
  -- Over the direct slots that are left, with any header and any map so far.
  induction count with
  | zero =>
    intro i n hdr freeMap _ _
    refine ⟨[], freeMap, .nil _, by simp, ?_⟩
    rw [Nat.min_zero, Nat.sub_zero]
    exact Fs.Reads.pure disk _
  | succ count ih =>
    intro i n hdr freeMap ofDisk enough
    -- Nothing is wanted any more.
    cases n with
    | zero => exact ⟨[], freeMap, .nil _, by simp, Fs.Reads.pure disk _⟩
    | succ n =>
      -- The first clear bit is found and set, and the rest after it.
      obtain ⟨sector, found, takes⟩ := Bitmap.findAndSet_takes freeMap (by omega)
      obtain ⟨inRange, clear⟩ := takes.clear sector List.mem_cons_self
      have one := takes.numClear
      simp only [List.length_cons, List.length_nil] at one
      obtain ⟨rest, after, later, long, reads⟩ := ih (i + 1) n
        (hdr.setDataSector i sector) (takes.ofDisk ofDisk) (by omega)
      refine ⟨sector :: rest, after, takes.append later, by simp only [List.length_cons]; omega, ?_⟩
      rw [show n + 1 - min (n + 1) (count + 1) = n - min n count by omega]
      refine (Fs.Reads.ofOption disk found).bind ?_
      exact (Fs.Reads.assert disk (by simpa using (ofDisk.free inRange clear).1)).bind reads

/-- Entries in use are passed over. -/
theorem allocateIndirect_skip {inDirect : List Int} {rest : List Nat} (count : Nat) :
    ∀ {i n}, (∀ j, i ≤ j → j < i + count → inDirect.getD j 0 ≠ 0) →
      allocateIndirect (List.range' i count ++ rest) (n + 1) inDirect freeMap =
        allocateIndirect rest (n + 1) inDirect freeMap := by
  induction count with
  | zero => exact fun _ => rfl
  | succ count ih =>
    intro i n used
    rw [List.range'_succ, List.cons_append, allocateIndirect,
      if_neg (used i (le_refl _) (by omega))]
    exact ih fun j above below => used j (by omega) (by omega)

/-- Free entries are filled with the next free sectors, if there are enough. -/
theorem allocateIndirect_reads (disk : Disk) (count : Nat) :
    ∀ (i n : Nat) (inDirect : List Int) {freeMap}, freeMap.OfDisk → n ≤ count →
      n ≤ freeMap.numClear →
      i + count ≤ inDirect.length → (∀ j, i ≤ j → inDirect.getD j 0 = 0) →
      ∃ fresh after, freeMap.Takes fresh after ∧ fresh.length = n ∧
        Fs.Reads disk (allocateIndirect (List.range' i count) n inDirect freeMap)
          (0, setEntries inDirect i fresh, after) := by
  -- Over the entries that are left, all of which are empty from here on.
  induction count with
  | zero =>
    intro i n inDirect freeMap _ few _ _ _
    obtain rfl : n = 0 := by omega
    exact ⟨[], freeMap, .nil _, rfl, Fs.Reads.pure disk _⟩
  | succ count ih =>
    intro i n inDirect freeMap ofDisk few enough inside empty
    -- Nothing is wanted any more.
    cases n with
    | zero => exact ⟨[], freeMap, .nil _, rfl, Fs.Reads.pure disk _⟩
    | succ n =>
      -- The first clear bit is found and set, and the rest after it.
      obtain ⟨sector, found, takes⟩ := Bitmap.findAndSet_takes freeMap (by omega)
      have one := takes.numClear
      simp only [List.length_cons, List.length_nil] at one
      obtain ⟨rest, after, later, long, reads⟩ := ih (i + 1) n
        (inDirect.set i sector) (takes.ofDisk ofDisk) (by omega) (by omega)
        (by rw [List.length_set]; omega) fun j above => by
          rw [List.getD_eq_getElem?_getD, List.getElem?_set_ne (by omega),
            ← List.getD_eq_getElem?_getD]
          exact empty j (by omega)
      refine ⟨sector :: rest, after, takes.append later, by simp only [List.length_cons]; omega, ?_⟩
      rw [List.range'_succ, allocateIndirect, if_pos (empty i (le_refl _))]
      refine (Fs.Reads.ofOption disk found).bind ?_
      exact (Fs.Reads.assert disk (by simp)).bind reads

/-- The assertion fails as soon as an entry has to be filled and no sector is free. -/
theorem allocateIndirect_refuses (disk : Disk) (count : Nat) :
    ∀ {i n inDirect freeMap}, freeMap.numClear < n → n ≤ count →
      (∀ j, i ≤ j → inDirect.getD j 0 = 0) →
      Fs.Refuses disk (allocateIndirect (List.range' i count) n inDirect freeMap) := by
  -- By induction on the entries that are left.
  induction count with
  | zero => exact fun short few _ => by omega
  | succ count ih =>
    intro i n inDirect freeMap short few empty
    obtain ⟨n, rfl⟩ : ∃ m, n = m + 1 := ⟨n - 1, by omega⟩
    rw [List.range'_succ, allocateIndirect, if_pos (empty i (le_refl _))]
    -- The map runs out here, where the assertion fails, or at one of the later entries.
    rcases Nat.eq_zero_or_pos freeMap.numClear with full | positive
    · refine (Fs.Reads.ofOption disk (Bitmap.findAndSet_full full)).bind_refuses ?_
      exact Program.Refuses.bind_first (Program.Refuses.assert (by decide))
    · obtain ⟨sector, found, takes⟩ := Bitmap.findAndSet_takes _ positive
      have one := takes.numClear
      simp only [List.length_cons, List.length_nil] at one
      refine (Fs.Reads.ofOption disk found).bind_refuses ?_
      refine (Fs.Reads.assert disk (by simp)).bind_refuses ?_
      refine ih (by omega) (by omega) fun j above => ?_
      rw [List.getD_eq_getElem?_getD, List.getElem?_set_ne (by omega),
        ← List.getD_eq_getElem?_getD]
      exact empty j (by omega)

/--
A header with more sectors: the slots in use are as before, and the next ones name the new sectors.

The disk has changed in the index sector at most.
-/
structure Extended (disk after : Disk) (hdr hdr' : FileHeader) (wanted : Nat) (fresh : List Nat) :
    Prop where
  fields : hdr' = { hdr with
    nsectors := hdr.nsectors + wanted
    capacity := (hdr.nsectors + wanted) * sectorSize
    dataSectors := hdr'.dataSectors }
  slots : ∀ j, hdr'.slot after j = if j < usedSlots hdr.nsectors.toNat then hdr.slot disk j
    else (fresh.getD (j - usedSlots hdr.nsectors.toNat) 0 : Nat)
  frame : ∀ s, s ≠ hdr'.dataSector numDirect ∨ hdr'.dataSector numDirect = 0 → after s = disk s

/-- A sector number fits an int. -/
theorem inInt_sector {sector : Nat} (onDisk : sector < numSectors) : InInt (sector : Int) :=
  inInt_of_onDisk ⟨Int.natCast_nonneg sector, Int.ofNat_lt.mpr onDisk⟩

/-- An index sector that has been written holds its entries. -/
theorem int_written (disk : Disk) (sector : Int) (entries : List Int)
    (full : entries.length = numInDirect) (small : ∀ value ∈ entries, InInt value) {i : Nat}
    (inside : i < numInDirect) :
    (Function.update disk sector (.ofInts entries) sector).int i = entries.getD i 0 := by
  rw [Function.update_self]
  exact Sector.int_ofInts full small inside

/-- The entries of an index sector that is filled up further fit an int. -/
theorem setEntries_small {entries : List Int} (fresh : List Nat) {i : Nat}
    (inside : i + fresh.length ≤ entries.length) (small : ∀ value ∈ entries, InInt value)
    (onDisk : ∀ sector ∈ fresh, sector < numSectors) :
    ∀ value ∈ setEntries entries i fresh, InInt value := by
  intro value member
  obtain ⟨j, below, rfl⟩ := List.getElem_of_mem member
  have here := getD_setEntries fresh inside j
  rw [List.getD_eq_getElem?_getD, List.getElem?_eq_getElem below, Option.getD_some] at here
  rw [here]
  rw [length_setEntries] at below
  -- An entry is one that has just been set, or an old one.
  split
  · rename_i new
    have held : j - i < fresh.length := by omega
    rw [List.getD_eq_getElem?_getD, List.getElem?_eq_getElem held, Option.getD_some]
    exact inInt_sector (onDisk _ (List.getElem_mem held))
  · -- An old entry fits by the hypothesis.
    rw [List.getD_eq_getElem?_getD, List.getElem?_eq_getElem below, Option.getD_some]
    exact small _ (List.getElem_mem below)

/-- How many slots more a file uses that gets so many sectors more. -/
def neededSlots (hdr : FileHeader) (wanted : Nat) : Nat :=
  usedSlots (hdr.nsectors.toNat + wanted) - usedSlots hdr.nsectors.toNat

/-- Without more than the direct slots, only the header changes. -/
theorem extended_direct (mapped : hdr.Mapped disk) {wanted : Nat} {fresh : List Nat}
    (few : hdr.nsectors.toNat + wanted ≤ numDirect) (long : fresh.length = wanted) :
    Extended disk disk hdr ((hdr.setSlots hdr.nsectors.toNat fresh).grown wanted) wanted fresh := by
  -- The slots that are set are the next ones.
  have sector : ∀ j, ((hdr.setSlots hdr.nsectors.toNat fresh).grown wanted).dataSector j =
      if hdr.nsectors.toNat ≤ j ∧ j < hdr.nsectors.toNat + fresh.length then
        (fresh.getD (j - hdr.nsectors.toNat) 0 : Int) else hdr.dataSector j :=
    dataSector_setSlots fresh (by omega)
  have used : usedSlots hdr.nsectors.toNat = hdr.nsectors.toNat := if_pos (by omega)
  -- All slots are direct, so that there is no index sector, before or after.
  have noIndex : hdr.dataSector numDirect = 0 := by
    by_contra there
    have := mapped.index_used.mp there
    omega
  have stillNone : ((hdr.setSlots hdr.nsectors.toNat fresh).grown wanted).dataSector numDirect =
      0 := by
    rw [sector, if_neg (by omega), noIndex]
  -- The fields are those of the old header.
  refine ⟨?_, fun j => ?_, fun _ _ => rfl⟩
  · unfold grown
    rw [setSlots_fields]
  · -- Each slot is an old one, a new one, or empty.
    rw [used]
    have old := mapped.used j
    rw [used] at old
    unfold slot at old ⊢
    rw [stillNone, sector]
    rw [noIndex] at old ⊢
    by_cases direct : j ≤ numDirect
    · simp only [if_pos direct] at old ⊢
      -- A slot is an old one, one of those just found, or past both.
      by_cases before : j < hdr.nsectors.toNat
      · rw [if_neg (by omega), if_pos before]
      · rw [if_neg before]
        by_cases new : j < hdr.nsectors.toNat + fresh.length
        · rw [if_pos (by omega)]
        · rw [if_neg (by omega), List.getD_eq_default _ _ (by omega)]
          by_contra there
          exact before (old.mp there)
    · -- Behind the direct slots there is nothing.
      rw [if_neg direct, if_neg (by simp), if_neg (by omega),
        List.getD_eq_default _ _ (by omega)]
      rfl

/-- With an index sector, the header and the index sector change. -/
theorem extended_indirect {hdr' : FileHeader} {wanted : Nat} {fresh : List Nat}
    {entries : List Int} {after : Disk}
    (fields : hdr' = { hdr with dataSectors := hdr'.dataSectors })
    (full : entries.length = numInDirect) (small : ∀ value ∈ entries, InInt value)
    (long : usedSlots hdr.nsectors.toNat + fresh.length ≤ numSlots)
    (direct : ∀ j ≤ numDirect, hdr'.dataSector j =
      if j < usedSlots hdr.nsectors.toNat then hdr.slot disk j
      else (fresh.getD (j - usedSlots hdr.nsectors.toNat) 0 : Nat))
    (indirect : ∀ i < numInDirect, entries.getD i 0 =
      if numDirect + 1 + i < usedSlots hdr.nsectors.toNat then hdr.slot disk (numDirect + 1 + i)
      else (fresh.getD (numDirect + 1 + i - usedSlots hdr.nsectors.toNat) 0 : Nat))
    (index : hdr'.dataSector numDirect ≠ 0)
    (written : after (hdr'.dataSector numDirect) = .ofInts entries)
    (frame : ∀ s, s ≠ hdr'.dataSector numDirect → after s = disk s)
    (used : usedSlots hdr.nsectors.toNat ≤ numSlots) :
    Extended disk after hdr (hdr'.grown wanted) wanted fresh := by
  -- The fields are those of the old header.
  refine ⟨?_, fun j => ?_, fun s other => ?_⟩
  · unfold grown
    rw [fields]
  · -- Each slot is in the header, or in the index sector.
    have held : (hdr'.grown wanted).slot after j = if j ≤ numDirect then hdr'.dataSector j
        else if hdr'.dataSector numDirect ≠ 0 ∧ j < numSlots then
          (after (hdr'.dataSector numDirect)).int (j - (numDirect + 1)) else 0 := rfl
    rw [held]
    by_cases inHeader : j ≤ numDirect
    · -- In the header.
      rw [if_pos inHeader, direct j inHeader]
    · rw [if_neg inHeader]
      by_cases inside : j < numSlots
      · -- The slot is an entry of the index sector as it is written.
        obtain ⟨i, rfl⟩ := Nat.exists_eq_add_of_le (show numDirect + 1 ≤ j by omega)
        have here : i < numInDirect := by
          simp only [numSlots] at inside
          omega
        rw [if_pos ⟨index, inside⟩, Nat.add_sub_cancel_left, written,
          Sector.int_ofInts full small here, indirect i here]
      · -- Behind the last entry there is nothing.
        rw [if_neg fun both => inside both.2, if_neg (by omega),
          List.getD_eq_default _ _ (by omega)]
        rfl
  · -- Only the index sector has been written.
    exact frame s (other.resolve_right index)

/-- Slots in use of a header that is not larger than the largest file. -/
theorem Mapped.used_le (mapped : hdr.Mapped disk) : usedSlots hdr.nsectors.toNat ≤ numSlots := by
  have sizes := mapped.sizes
  unfold usedSlots
  simp only [numSlots, numDirect, numInDirect]
  split <;> omega

/-- Every slot fits an int. -/
theorem Mapped.slot_small (mapped : hdr.Mapped disk) (j : Nat) : InInt (hdr.slot disk j) := by
  by_cases empty : hdr.slot disk j = 0
  · rw [empty]
    decide
  · exact inInt_of_onDisk (mapped.onDisk j empty)

/-- The entries of an index sector are slots of the header. -/
theorem Mapped.entries_small (mapped : hdr.Mapped disk) (used : hdr.dataSector numDirect ≠ 0) :
    ∀ value ∈ (List.range numInDirect).map (disk (hdr.dataSector numDirect)).int,
      InInt value := by
  intro value member
  obtain ⟨i, below, rfl⟩ := List.getElem_of_mem member
  have inside : i < numInDirect := by simpa using below
  have here := slot_indirect disk used inside
  rw [List.getD_eq_getElem?_getD, List.getElem?_eq_getElem below, Option.getD_some] at here
  rw [here]
  exact mapped.slot_small _

/-- What `Allocate` leaves when it finds the sectors. -/
structure Allocated (disk after : Disk) (hdr hdr' : FileHeader) (freeMap freeMap' : Bitmap)
    (wanted : Nat) (fresh : List Nat) : Prop where
  takes : freeMap.Takes fresh freeMap'
  long : fresh.length = hdr.neededSlots wanted
  extended : Extended disk after hdr hdr' wanted fresh

/-- The free direct slots come after those in use. -/
theorem Mapped.freeDirect_eq (mapped : hdr.Mapped disk) :
    hdr.freeDirect = List.range' hdr.nsectors.toNat (numDirect - hdr.nsectors.toNat) := by
  have counted := mapped.counted
  exact if_neg (by omega)

/-- The index sector that a file gets with its first sector past the direct ones. -/
theorem ensureIndex_yields (empty : hdr.dataSector numDirect = 0) (ofDisk : freeMap.OfDisk)
    (positive : 0 < freeMap.numClear) :
    ∃ sector after, freeMap.Takes [sector] after ∧ Fs.Yields disk (hdr.ensureIndex freeMap)
      fun given left => given = (hdr.setDataSector numDirect sector, after) ∧
        left = Function.update disk sector (.ofInts (.replicate numInDirect 0)) := by
  obtain ⟨sector, found, takes⟩ := Bitmap.findAndSet_takes _ positive
  obtain ⟨inRange, clear⟩ := takes.clear sector List.mem_cons_self
  obtain ⟨-, below⟩ := ofDisk.free inRange clear
  refine ⟨sector, _, takes, ?_⟩
  unfold ensureIndex
  rw [if_pos empty]
  refine (Fs.Reads.ofOption disk found).bind ((Fs.Reads.assert disk (by simp)).bind ?_)
  exact Fs.writeSector_bind ⟨by omega, by exact_mod_cast below⟩ (Program.Yields.pure ⟨rfl, rfl⟩)

/-- What the direct part of `Allocate` leaves: the direct slots are full. -/
structure DirectFull (hdr hdr' : FileHeader) (fresh : List Nat) : Prop where
  fields : hdr' = { hdr with dataSectors := hdr'.dataSectors }
  long : fresh.length = numDirect - hdr.nsectors.toNat
  dataSector : ∀ j, hdr'.dataSector j =
    if hdr.nsectors.toNat ≤ j ∧ j < hdr.nsectors.toNat + fresh.length then
      (fresh.getD (j - hdr.nsectors.toNat) 0 : Int) else hdr.dataSector j

/-- Filling the direct slots fills all of them if there are enough sectors to find. -/
theorem directFull (hdr : FileHeader) (fresh : List Nat)
    (long : fresh.length = numDirect - hdr.nsectors.toNat) :
    DirectFull hdr (hdr.setSlots hdr.nsectors.toNat fresh) fresh := by
  refine ⟨setSlots_fields fresh hdr _, long, ?_⟩
  by_cases few : hdr.nsectors.toNat ≤ numDirect
  · exact dataSector_setSlots fresh (by omega)
  · -- There is nothing to fill in a header that has an index sector.
    obtain rfl : fresh = [] := List.eq_nil_of_length_eq_zero (by omega)
    intro j
    rw [if_neg (by simp only [List.length_nil]; omega)]
    rfl

/-- The first sectors past the direct ones come with an index sector. -/
theorem allocateIndex_first (mapped : hdr.Mapped disk) {hdr' : FileHeader} {fresh : List Nat}
    (full : DirectFull hdr hdr' fresh) (ofDisk : freeMap.OfDisk)
    (few : hdr.nsectors.toNat ≤ numDirect) (n wanted : Nat) (some : 0 < n)
    (rest : hdr.nsectors.toNat + wanted = numDirect + n) (fits : n ≤ numInDirect)
    (enough : n + 1 ≤ freeMap.numClear) :
    ∃ later freeMap', freeMap.Takes later freeMap' ∧ later.length = n + 1 ∧
      Fs.Yields disk (hdr'.allocateIndex freeMap n) fun given after =>
        ∃ left, given = (true, left, freeMap') ∧
          Extended disk after hdr (left.grown wanted) wanted (fresh ++ later) := by
  -- The header has no index sector yet, and filling the direct slots gives it none.
  have noIndex : hdr.dataSector numDirect = 0 := by
    by_contra there
    have := mapped.index_used.mp there
    omega
  have stillNone : hdr'.dataSector numDirect = 0 := by
    rw [full.dataSector, if_neg (by have := full.long; omega), noIndex]
  -- One is found, and zeroed on the disk.
  obtain ⟨sector, middle, takes, ensured⟩ : ∃ sector after, freeMap.Takes [sector] after ∧
      Fs.Yields disk (hdr'.ensureIndex freeMap) fun given left =>
        given = (hdr'.setDataSector numDirect sector, after) ∧
          left = Function.update disk sector (.ofInts (.replicate numInDirect 0)) :=
    ensureIndex_yields stillNone ofDisk (by omega)
  obtain ⟨inRange, clear⟩ := takes.clear sector List.mem_cons_self
  obtain ⟨positive, below⟩ := ofDisk.free inRange clear
  have onDisk : OnDisk (sector : Int) := ⟨by omega, by exact_mod_cast below⟩
  have one := takes.numClear
  simp only [List.length_cons, List.length_nil] at one
  -- The new index sector has no entries yet.
  let zeroed := Function.update disk (sector : Int) (.ofInts (.replicate numInDirect 0))
  let empty := (List.range numInDirect).map (zeroed sector).int
  have length : empty.length = numInDirect := by simp [empty]
  -- All its entries are zero.
  have zero : ∀ j, empty.getD j 0 = 0 := by
    intro j
    by_cases inside : j < numInDirect
    · have here := int_written disk sector (.replicate numInDirect 0) (by simp)
        (by intro value member; rw [List.eq_of_mem_replicate member]; decide) inside
      simp only [empty, List.getD_eq_getElem?_getD, List.getElem?_map, List.getElem?_range inside,
        Option.map_some, Option.getD_some, zeroed, here, List.getElem?_replicate, if_pos inside]
    · rw [List.getD_eq_default _ _ (by omega)]
  -- They are filled with the next free sectors.
  obtain ⟨later, freeMap', fills, long, reads⟩ := allocateIndirect_reads zeroed numInDirect
    0 n empty (takes.ofDisk ofDisk) fits (by omega) (by omega)
    fun j _ => zero j
  have laterOnDisk : ∀ sector ∈ later, sector < numSectors := fun s member =>
    ((takes.ofDisk ofDisk).free (fills.clear s member).1 (fills.clear s member).2).2
  refine ⟨sector :: later, freeMap', takes.append fills, by simp only [List.length_cons, long], ?_⟩
  have named : (hdr'.setDataSector numDirect sector).dataSector numDirect = sector := by
    rw [dataSector_setDataSector _ (le_refl _), if_pos rfl]
  -- The code then reads the index sector, fills it, and writes it back.
  unfold allocateIndex
  refine Program.Yields.bind ensured ?_
  rintro _ _ ⟨rfl, rfl⟩
  dsimp only
  rw [named]
  refine (readIndex_reads onDisk).bind ?_
  rw [← List.range_eq_range'] at reads
  refine reads.bind ?_
  dsimp only
  rw [if_pos rfl]
  refine Fs.writeSector_bind onDisk (Program.Yields.pure ⟨_, rfl, ?_⟩)
  -- Now for what the header has in its slots.
  have used : usedSlots hdr.nsectors.toNat = hdr.nsectors.toNat := if_pos few
  have fullLong := full.long
  -- Zero entries are ints.
  have zeroSmall : ∀ value ∈ empty, InInt value := by
    intro value member
    obtain ⟨j, inside, rfl⟩ := List.getElem_of_mem member
    have here := zero j
    rw [List.getD_eq_getElem?_getD, List.getElem?_eq_getElem inside, Option.getD_some] at here
    rw [here]
    decide
  refine extended_indirect ?_ (length_setEntries later empty 0 ▸ length)
    (setEntries_small later (by omega) zeroSmall laterOnDisk) ?_ (fun j direct => ?_)
    (fun i inside => ?_) (by rw [named]; omega) (by rw [named, Function.update_self])
    (fun s other => ?_) ?_
  · -- The fields are those of the old header.
    rw [full.fields]
    rfl
  · -- The new slots reach no further than the last one.
    simp only [List.length_append, List.length_cons, numSlots] at *
    omega
  · -- The direct slots come first, and the index slot is the next one.
    have held : hdr.slot disk j = hdr.dataSector j := if_pos direct
    rw [dataSector_setDataSector _ (le_refl _), full.dataSector, used, held]
    by_cases last : numDirect = j
    · -- The index slot has the new index sector.
      subst last
      rw [if_pos rfl, if_neg (by omega), List.getD_append_right _ _ _ _ (by omega),
        show numDirect - hdr.nsectors.toNat - fresh.length = 0 by omega, List.getD_cons_zero]
    · -- A direct slot is an old one or one that was just filled.
      rw [if_neg last]
      by_cases old : j < hdr.nsectors.toNat
      · rw [if_neg (by omega), if_pos old]
      · rw [if_pos (by omega), if_neg old, List.getD_append _ _ _ _ (by omega)]
  · -- An entry is one that was just filled, or zero.
    have behind : ¬ numDirect + 1 + i < hdr.nsectors.toNat := by omega
    rw [getD_setEntries later (by omega), zero, used, if_neg behind,
      List.getD_append_right _ _ _ _ (by omega),
      show numDirect + 1 + i - hdr.nsectors.toNat - fresh.length = i + 1 by omega,
      List.getD_cons_succ]
    by_cases new : i < later.length
    · rw [if_pos (by omega), Nat.sub_zero]
    · rw [if_neg (by omega), List.getD_eq_default _ _ (by omega)]
      rfl
  · -- Only the index sector has been written.
    rw [named] at other
    rw [Function.update_of_ne other]
    exact Function.update_of_ne other _ _
  · exact mapped.used_le

/-- Later sectors past the direct ones go behind the entries in use. -/
theorem allocateIndex_more (mapped : hdr.Mapped disk) (ofDisk : freeMap.OfDisk)
    (many : numDirect < hdr.nsectors.toNat) {wanted : Nat} (some : 0 < wanted)
    (fits : hdr.nsectors.toNat + wanted ≤ numDirect + numInDirect)
    (enough : wanted ≤ freeMap.numClear) :
    ∃ later freeMap', freeMap.Takes later freeMap' ∧ later.length = wanted ∧
      Fs.Yields disk (hdr.allocateIndex freeMap wanted) fun given after =>
        ∃ left, given = (true, left, freeMap') ∧
          Extended disk after hdr (left.grown wanted) wanted later := by
  -- The header has its index sector.
  have there := mapped.index_used.mpr many
  have onDisk := mapped.index_onDisk there
  have used : usedSlots hdr.nsectors.toNat = hdr.nsectors.toNat + 1 := if_neg (by omega)
  -- The entries in use are the slots behind the index slot.
  have entry : ∀ i < numInDirect,
      ((List.range numInDirect).map (disk (hdr.dataSector numDirect)).int).getD i 0 =
        hdr.slot disk (numDirect + 1 + i) :=
    fun i inside => slot_indirect disk there inside
  have small := mapped.entries_small there
  have length : ((List.range numInDirect).map (disk (hdr.dataSector numDirect)).int).length =
      numInDirect := by simp
  generalize held : (List.range numInDirect).map (disk (hdr.dataSector numDirect)).int = entries
    at entry small length
  -- Behind those in use the entries are empty.
  have empty : ∀ j, hdr.nsectors.toNat - numDirect ≤ j → entries.getD j 0 = 0 := by
    intro j above
    by_cases inside : j < numInDirect
    · rw [entry j inside]
      by_contra held
      have := (mapped.used _).mp held
      omega
    · rw [List.getD_eq_default _ _ (by omega)]
  -- Those in use are not.
  have inUse : ∀ j, 0 ≤ j → j < 0 + (hdr.nsectors.toNat - numDirect) → entries.getD j 0 ≠ 0 := by
    intro j _ below
    rw [entry j (by omega)]
    exact (mapped.used _).mpr (by omega)
  -- So the loop passes over the entries in use, and fills the next ones.
  obtain ⟨later, freeMap', fills, long, reads⟩ := allocateIndirect_reads disk
    (numInDirect - (hdr.nsectors.toNat - numDirect)) (hdr.nsectors.toNat - numDirect) wanted entries
    ofDisk (by omega) enough (by omega) empty
  have laterOnDisk : ∀ sector ∈ later, sector < numSectors := fun s member =>
    (ofDisk.free (fills.clear s member).1 (fills.clear s member).2).2
  refine ⟨later, freeMap', fills, long, ?_⟩
  -- The code reads the index sector, fills it, and writes it back.
  unfold allocateIndex ensureIndex
  rw [if_neg there]
  refine (Fs.Reads.pure disk _).bind ((readIndex_reads onDisk).bind ?_)
  obtain ⟨n, rfl⟩ : ∃ n, wanted = n + 1 := ⟨wanted - 1, by omega⟩
  -- The loop over all entries is one over those in use, and one over the rest.
  have passed : List.range numInDirect = List.range' 0 (hdr.nsectors.toNat - numDirect) ++
      List.range' (hdr.nsectors.toNat - numDirect)
        (numInDirect - (hdr.nsectors.toNat - numDirect)) := by
    have joined := @List.range'_append_1 0 (hdr.nsectors.toNat - numDirect)
      (numInDirect - (hdr.nsectors.toNat - numDirect))
    rw [Nat.zero_add, Nat.add_sub_of_le (by omega)] at joined
    rw [List.range_eq_range', joined]
  dsimp only
  rw [held, passed, allocateIndirect_skip _ inUse]
  refine reads.bind ?_
  dsimp only
  rw [if_pos rfl]
  refine Fs.writeSector_bind onDisk (Program.Yields.pure ⟨_, rfl, ?_⟩)
  refine extended_indirect rfl (length_setEntries later entries _ ▸ length)
    (setEntries_small later (by omega) small laterOnDisk) ?_
    (fun j direct => ?_) (fun i inside => ?_) there (Function.update_self ..)
    (fun s other => Function.update_of_ne other _ _) mapped.used_le
  · -- The new slots reach no further than the last one.
    simp only [numSlots] at *
    omega
  · -- The direct slots are the old ones.
    rw [used, if_pos (by omega)]
    exact (if_pos direct).symm
  · -- An entry is an old one, a new one, or empty.
    rw [getD_setEntries later (by omega), entry i inside, used]
    by_cases old : i < hdr.nsectors.toNat - numDirect
    · rw [if_neg (by omega), if_pos (by omega)]
    · have behind : ¬ numDirect + 1 + i < hdr.nsectors.toNat + 1 := by omega
      rw [if_neg behind, show numDirect + 1 + i - (hdr.nsectors.toNat + 1) =
        i - (hdr.nsectors.toNat - numDirect) by omega]
      by_cases new : i - (hdr.nsectors.toNat - numDirect) < later.length
      · -- A new entry.
        rw [if_pos (by omega)]
      · -- Behind the new ones the entries are as empty as before.
        rw [if_neg (by omega), List.getD_eq_default _ _ (by omega), ← entry i inside]
        exact empty i (by omega)

/-- `Allocate` gives nothing when too few sectors are free. -/
theorem allocate_short {size : Int} (some : 0 < size) (fits : size + hdr.capacity ≤ maxFileSize)
    (nonneg : 0 ≤ hdr.capacity) (short : freeMap.numClear < divRoundUp size.toNat sectorSize) :
    Fs.Reads disk (hdr.allocate freeMap size) (false, hdr, freeMap) := by
  unfold allocate
  rw [if_neg (by omega), if_neg (by omega)]
  dsimp only
  rw [if_pos short]
  exact Fs.Reads.pure disk _

/-- `Allocate` gives nothing when the file would become larger than the largest one. -/
theorem allocate_large {size : Int} (large : maxFileSize < size + hdr.capacity) (some : 0 < size) :
    Fs.Reads disk (hdr.allocate freeMap size) (false, hdr, freeMap) := by
  unfold allocate
  rw [if_neg (by omega), if_pos (.inr (.inl large))]
  exact Fs.Reads.pure disk _

/-- The number of sectors for some bytes that still fit is one that still fits. -/
theorem Mapped.wanted_fits (mapped : hdr.Mapped disk) {size : Int} (some : 0 < size)
    (fits : size + hdr.capacity ≤ maxFileSize) :
    0 < divRoundUp size.toNat sectorSize ∧
      hdr.nsectors.toNat + divRoundUp size.toNat sectorSize ≤ numDirect + numInDirect := by
  have sizes := mapped.sizes
  unfold divRoundUp
  simp only [maxFileSize, numDirect, numInDirect, sectorSize] at *
  split <;> omega

/-- With sectors enough for the bytes, `Allocate` fills the direct slots and then the others. -/
theorem Mapped.allocate_eq (mapped : hdr.Mapped disk) {size : Int} (some : 0 < size)
    (fits : size + hdr.capacity ≤ maxFileSize)
    (enough : divRoundUp size.toNat sectorSize ≤ freeMap.numClear) :
    hdr.allocate freeMap size = (do
      let wanted := divRoundUp size.toNat sectorSize
      let (n, hdr, freeMap) ← allocateDirect
        (List.range' hdr.nsectors.toNat (numDirect - hdr.nsectors.toNat)) wanted hdr freeMap
      if n = 0 then return (true, hdr.grown wanted, freeMap)
      else do
        let (enough, hdr, freeMap) ← hdr.allocateIndex freeMap n
        return (enough, if enough then hdr.grown wanted else hdr, freeMap)) := by
  have sizes := mapped.sizes
  unfold allocate
  -- The size is positive, there is room in the header, and sectors are free.
  rw [if_neg (by omega), if_neg (by omega)]
  dsimp only
  rw [if_neg (by omega), mapped.freeDirect_eq]

/-- `Allocate` finds the sectors when enough of them are free for the file and its index sector. -/
theorem allocate_yields (mapped : hdr.Mapped disk) (ofDisk : freeMap.OfDisk) {size : Int}
    (some : 0 < size) (fits : size + hdr.capacity ≤ maxFileSize)
    (enough : hdr.neededSlots (divRoundUp size.toNat sectorSize) ≤ freeMap.numClear) :
    Fs.Yields disk (hdr.allocate freeMap size) fun given after =>
      ∃ hdr' freeMap' fresh, given = (true, hdr', freeMap') ∧
        Allocated disk after hdr hdr' freeMap freeMap' (divRoundUp size.toNat sectorSize) fresh := by
  have sizes := mapped.sizes
  obtain ⟨positive, room⟩ := mapped.wanted_fits some fits
  -- As many sectors are needed as are wanted, or one more.
  have needed : divRoundUp size.toNat sectorSize ≤
      hdr.neededSlots (divRoundUp size.toNat sectorSize) := by
    unfold neededSlots usedSlots
    split <;> split <;> omega
  rw [mapped.allocate_eq some fits (needed.trans enough)]
  dsimp only
  generalize divRoundUp size.toNat sectorSize = wanted at *
  -- The direct slots come first.
  obtain ⟨fresh, middle, takes, long, reads⟩ := allocateDirect_reads disk
    (numDirect - hdr.nsectors.toNat) hdr.nsectors.toNat wanted hdr ofDisk (by omega)
  refine reads.bind ?_
  dsimp only
  by_cases direct : hdr.nsectors.toNat + wanted ≤ numDirect
  · -- The direct slots suffice.
    rw [if_pos (by omega)]
    refine Program.Yields.pure ⟨_, middle, fresh, rfl, takes, ?_,
      extended_direct mapped direct (by omega)⟩
    unfold neededSlots usedSlots
    rw [if_pos direct, if_pos (by omega)]
    omega
  · -- The direct slots do not suffice, and the rest goes into the index sector.
    rw [if_neg (by omega)]
    have clear := takes.numClear
    by_cases many : numDirect < hdr.nsectors.toNat
    · -- There is an index sector already, and no direct slot to fill.
      obtain rfl : fresh = [] := List.eq_nil_of_length_eq_zero (by omega)
      have same : middle = freeMap := by
        cases takes
        rfl
      subst same
      rw [show wanted - min wanted (numDirect - hdr.nsectors.toNat) = wanted by omega]
      obtain ⟨later, freeMap', fills, long', yields⟩ := allocateIndex_more mapped ofDisk many positive
        room (by omega)
      refine yields.bind ?_
      rintro _ after ⟨left, rfl, extended⟩
      refine Program.Yields.pure ⟨_, freeMap', later, rfl, fills, ?_, extended⟩
      unfold neededSlots usedSlots
      rw [if_neg (by omega), if_neg (by omega)]
      omega
    · -- The index sector is one more that has to be found.
      obtain ⟨later, freeMap', fills, long', yields⟩ := allocateIndex_first mapped
        (directFull hdr fresh (by omega)) (takes.ofDisk ofDisk) (by omega)
        (wanted - min wanted (numDirect - hdr.nsectors.toNat)) wanted (by omega)
        (by omega) (by omega) (by
          unfold neededSlots usedSlots at enough
          rw [if_neg (by omega), if_pos (by omega)] at enough
          omega)
      refine yields.bind ?_
      rintro _ after ⟨left, rfl, extended⟩
      refine Program.Yields.pure ⟨_, freeMap', fresh ++ later, rfl, takes.append fills, ?_,
        extended⟩
      unfold neededSlots usedSlots
      rw [if_neg (by omega), if_pos (by omega), List.length_append]
      omega

/-- `Allocate` aborts when it has just too few sectors to have one for the index sector, too. -/
theorem allocate_refuses (mapped : hdr.Mapped disk) (ofDisk : freeMap.OfDisk) {size : Int}
    (some : 0 < size) (fits : size + hdr.capacity ≤ maxFileSize)
    (enough : divRoundUp size.toNat sectorSize ≤ freeMap.numClear)
    (short : freeMap.numClear < hdr.neededSlots (divRoundUp size.toNat sectorSize)) :
    Fs.Refuses disk (hdr.allocate freeMap size) := by
  have sizes := mapped.sizes
  obtain ⟨positive, room⟩ := mapped.wanted_fits some fits
  -- The map has as many sectors as are wanted, so that the code goes on.
  rw [mapped.allocate_eq some fits enough]
  dsimp only
  generalize divRoundUp size.toNat sectorSize = wanted at *
  -- The file gets its index sector only now, and that is the one sector too many.
  have first : hdr.nsectors.toNat ≤ numDirect ∧ numDirect < hdr.nsectors.toNat + wanted ∧
      freeMap.numClear = wanted := by
    unfold neededSlots usedSlots at short
    split at short <;> split at short <;> omega
  -- The direct slots are filled first.
  obtain ⟨fresh, middle, takes, long, reads⟩ := allocateDirect_reads disk
    (numDirect - hdr.nsectors.toNat) hdr.nsectors.toNat wanted hdr ofDisk (by omega)
  refine reads.bind_refuses ?_
  dsimp only
  rw [if_neg (by omega)]
  refine Program.Refuses.bind_first ?_
  have clear := takes.numClear
  have noIndex : (hdr.setSlots hdr.nsectors.toNat fresh).dataSector numDirect = 0 := by
    rw [dataSector_setSlots fresh (by omega), if_neg (by omega)]
    by_contra there
    have := mapped.index_used.mp there
    omega
  -- The index sector takes one of those that are left.
  obtain ⟨sector, after, taken, ensured⟩ :=
    @ensureIndex_yields disk _ _ noIndex (takes.ofDisk ofDisk) (by omega)
  obtain ⟨inRange, isClear⟩ := taken.clear sector List.mem_cons_self
  obtain ⟨above, below⟩ := (takes.ofDisk ofDisk).free inRange isClear
  have one := taken.numClear
  simp only [List.length_cons, List.length_nil] at one
  unfold allocateIndex
  refine Program.Refuses.bind ensured ?_
  rintro _ _ ⟨rfl, rfl⟩
  dsimp only
  rw [dataSector_setDataSector _ (le_refl _), if_pos rfl]
  refine (readIndex_reads ⟨by omega, by exact_mod_cast below⟩).bind_refuses ?_
  -- So one entry too many is left to fill, and all entries are empty.
  refine Program.Refuses.bind_first ?_
  rw [List.range_eq_range']
  refine allocateIndirect_refuses _ numInDirect (by omega) (by omega) fun j _ => ?_
  by_cases inside : j < numInDirect
  · have here := int_written disk sector (.replicate numInDirect 0) (by simp)
      (by intro value member; rw [List.eq_of_mem_replicate member]; decide) inside
    rw [← List.range_eq_range']
    simp only [List.getD_eq_getElem?_getD, List.getElem?_map, List.getElem?_range inside,
      Option.map_some, Option.getD_some, here, List.getElem?_replicate, if_pos inside]
  · rw [List.getD_eq_default _ _ (by simpa using inside)]

end FileHeader

end Nachos
