import Nachos.Proofs.Filesys.Preserve

/-! A formatted disk: the three system files, and nothing else. -/

namespace Nachos

/-- A disk with the system files only, and the sectors that each of them has. -/
structure SystemOnly (disk : Disk) (given : Int → List Nat) : Prop where
  laid : ∀ s, SystemSector s → (headerAt disk s).Laid disk ∧ (headerAt disk s).selfSector = s
  slots : ∀ s, SystemSector s → ∀ j,
    (headerAt disk s).slot disk j = ((given s).getD j 0 : Nat)
  map : MapFile disk (mapHeader disk)
  directory : DirectoryFile disk directorySector
  empty : ∀ i < numDirEntries, (dirAt disk directorySector).inUse i = false
  takes : (Bitmap.new numSectors).Takes
    ([0, 1, 2] ++ (given freeMapSector ++ given directorySector ++ given pipeSector))
    (freeMapOn disk)

namespace SystemOnly

variable {disk : Disk} {given : Int → List Nat} {sector : Int}

/-- The sectors that are marked, each of them once. -/
abbrev taken (given : Int → List Nat) : List Nat :=
  [0, 1, 2] ++ (given freeMapSector ++ given directorySector ++ given pipeSector)

/-- A sector of a system file is taken. -/
theorem given_taken {s : Int} (system : SystemSector s) {t : Nat} (member : t ∈ given s) :
    t ∈ given freeMapSector ++ given directorySector ++ given pipeSector := by
  cases system with
  | freeMap => simp [member]
  | directory => simp [member]
  | pipe => simp [member]

/-- The root is the only directory. -/
theorem isDirectory (only : SystemOnly disk given) (found : IsDirectory disk sector) :
    sector = directorySector := by
  induction found with
  | root => rfl
  | entry parent named _ ih =>
    rw [ih] at named
    obtain ⟨⟨inside, inUse⟩, -⟩ := entry_eq_some.mp named
    rw [only.empty _ inside] at inUse
    cases inUse

/-- The system headers are the only ones. -/
theorem isHeader (only : SystemOnly disk given) (found : IsHeader disk sector) :
    SystemSector sector := by
  cases found with
  | fixed placed => exact placed
  | entry parent named =>
    rw [only.isDirectory parent] at named
    obtain ⟨⟨inside, inUse⟩, -⟩ := entry_eq_some.mp named
    rw [only.empty _ inside] at inUse
    cases inUse

/-- What owns a sector: its place, or a system file. -/
theorem owns_cases (only : SystemOnly disk given) {owner : Owner Int} {s : Int}
    (owns : Owns disk owner s) : (owner = .fixed s ∧ SystemSector s) ∨
      ∃ record j, SystemSector record ∧ owner = .part record j ∧
        (headerAt disk record).slot disk j = s ∧ s ≠ 0 ∧ ∃ t ∈ given record, s = (t : Int) := by
  -- There is no entry yet, so that only the system headers have parts.
  cases owns with
  | fixed placed => exact .inl ⟨rfl, placed⟩
  -- No entry is in use, so nothing is owned through one.
  | entry parent named =>
    rw [only.isDirectory parent] at named
    obtain ⟨⟨inside, inUse⟩, -⟩ := entry_eq_some.mp named
    rw [only.empty _ inside] at inUse
    cases inUse
  -- A part lies in one of the system headers, and is a sector that was given to it.
  | @part record _ j found used =>
    have system := only.isHeader found
    obtain ⟨same, there⟩ := part_eq_some.mp used
    refine .inr ⟨record, j, system, rfl, same, there, ?_⟩
    rw [only.slots record system] at same
    exact ⟨_, FileSystem.Created.slot_mem (same ▸ there), same.symm⟩

/-- A sector is marked if it is taken. -/
theorem marked_iff (only : SystemOnly disk given) (s : Int) :
    Marked disk s ↔ s.toNat ∈ taken given := by
  unfold Marked
  rw [only.takes.bit, Bitmap.bit_new, Bool.or_false, decide_eq_true_iff]

/-- No sector is given to two of the files. -/
theorem given_inj (only : SystemOnly disk given) {r r' : Int} (system : SystemSector r)
    (also : SystemSector r') {t : Nat} (member : t ∈ given r) (member' : t ∈ given r') :
    r = r' := by
  have nodup := only.takes.nodup
  simp only [List.nodup_append] at nodup
  obtain ⟨-, ⟨⟨-, -, first⟩, -, both⟩, -⟩ := nodup
  have mapRoot := first t
  have other := both t
  -- Nine pairs: three of them are the same file, and the others have no sector in common.
  cases system with
  | freeMap =>
    cases also with
    | freeMap => rfl
    | directory => exact absurd rfl (mapRoot member t member')
    | pipe => exact absurd rfl (other (List.mem_append_left _ member) t member')
  | directory =>
    cases also with
    | freeMap => exact absurd rfl (mapRoot member' t member)
    | directory => rfl
    | pipe => exact absurd rfl (other (List.mem_append_right _ member) t member')
  | pipe =>
    cases also with
    | freeMap => exact absurd rfl (other (List.mem_append_left _ member') t member)
    | directory => exact absurd rfl (other (List.mem_append_right _ member') t member)
    | pipe => rfl

/-- No system header is in a sector that is given to a file. -/
theorem system_ne_given (only : SystemOnly disk given) {s r : Int} (system : SystemSector s)
    (also : SystemSector r) {t : Nat} (member : t ∈ given r) : s ≠ t := by
  obtain ⟨-, -, apart⟩ := List.nodup_append.mp only.takes.nodup
  have other := fun n (first : n ∈ [0, 1, 2]) => apart n first t (given_taken also member)
  -- The headers are in the first three sectors, which are marked before any file gets one.
  have small : s = 0 ∨ s = 1 ∨ s = 2 := by
    cases system with
    | freeMap => exact .inl rfl
    | directory => exact .inr (.inl rfl)
    | pipe => exact .inr (.inr rfl)
  intro same
  exact other t (by simp only [List.mem_cons, List.not_mem_nil, or_false]; omega) rfl

/-- A disk with the system files only is sound. -/
theorem sound (only : SystemOnly disk given) : Sound disk := by
  refine ⟨fun owner other s first second => ?_, fun owner s owns => ?_, fun s found =>
    only.laid s (only.isHeader found), only.map, fun s found => only.isDirectory found ▸
    only.directory⟩
  -- Each owner is a fixed place or a part of a system file.
  · rcases only.owns_cases first with ⟨rfl, fixed⟩ | ⟨r, j, system, rfl, slot, there, t, member, same⟩
    · -- Two places that are fixed are the same.
      rcases only.owns_cases second with ⟨rfl, -⟩ | ⟨r, j, system, -, -, -, t, member, same⟩
      · rfl
      · -- A fixed place was not given to a file.
        exact absurd same (only.system_ne_given fixed system member)
    · rcases only.owns_cases second with
        ⟨-, fixed⟩ | ⟨r', k, system', rfl, slot', -, t', member', same'⟩
      · -- Nor the other way round.
        exact absurd same (only.system_ne_given fixed system member)
      · -- Two parts are given to one file, in the same place of its map.
        obtain rfl : t = t' := by exact_mod_cast same.symm.trans same'
        obtain rfl := only.given_inj system system' member member'
        rw [(only.laid r system).1.apart j k (by rw [slot]; exact there) (by rw [slot, slot'])]
  · -- What was taken is on the disk and marked.
    have inRange : ∀ t ∈ taken given, OnDisk t ∧ Marked disk t := fun t member =>
      ⟨⟨by omega, by exact_mod_cast (only.takes.clear t member).1⟩,
        (only.marked_iff t).mpr member⟩
    rcases only.owns_cases owns with ⟨-, fixed⟩ | ⟨r, j, system, -, -, -, t, member, rfl⟩
    · -- The fixed places are the first three sectors.
      cases fixed with
      | freeMap => exact inRange 0 (by simp)
      | directory => exact inRange 1 (by simp)
      | pipe => exact inRange 2 (by simp)
    · -- The parts are those that were given.
      exact inRange t (List.mem_append_right _ (given_taken system member))

/-- Everything that is marked belongs to the system. -/
theorem exactly (only : SystemOnly disk given) : Exact disk := by
  intro s onDisk marked
  have number : ((s.toNat : Nat) : Int) = s := Int.toNat_of_nonneg onDisk.1
  -- A sector given to a file is one of its parts.
  have own : ∀ r, SystemSector r → s.toNat ∈ given r → ∃ owner, Owns disk owner s := by
    intro r system member
    obtain ⟨j, inside, same⟩ := List.getElem_of_mem member
    refine ⟨.part r j, .part (.fixed system) (part_eq_some.mpr ⟨?_, fun zero => ?_⟩)⟩
    · -- The number that is kept is that of the sector.
      rw [only.slots r system, List.getD_eq_getElem?_getD, List.getElem?_eq_getElem inside,
        Option.getD_some, same, number]
    · -- No part is sector zero, which is the map's header.
      refine only.system_ne_given .freeMap system member ?_
      rw [number]
      exact zero.symm
  have fixed : SystemSector s → ∃ owner, Owns disk owner s := fun system => ⟨_, .fixed system⟩
  have member := (only.marked_iff s).mp marked
  simp only [taken, List.mem_append, List.mem_cons, List.not_mem_nil, or_false] at member
  -- The sector is one of the first three, or one that a system file got.
  rcases member with (zero | one | two) | (map | root) | pipe
  · obtain rfl : s = freeMapSector := by show s = 0; omega
    exact fixed .freeMap
  · obtain rfl : s = directorySector := by show s = 1; omega
    exact fixed .directory
  · obtain rfl : s = pipeSector := by show s = 2; omega
    exact fixed .pipe
  · exact own _ .freeMap map
  · exact own _ .directory root
  · exact own _ .pipe pipe

end SystemOnly

/-- The assertion on `Allocate` is passed for a new file that gets its first sectors. -/
theorem FileHeader.Blank.mustAllocate_yields {disk : Disk} {hdr : FileHeader} {sector : Int}
    {type : FileType} {freeMap : Bitmap} (blank : hdr.Blank sector type) (onDisk : OnDisk sector)
    (ofDisk : freeMap.OfDisk) (taken : freeMap.bit sector.toNat = true) {size : Nat}
    (some : 0 < size) (few : divRoundUp size sectorSize ≤ numDirect)
    (enough : divRoundUp size sectorSize ≤ freeMap.numClear) :
    Fs.Yields disk (hdr.mustAllocate freeMap size) fun given after => after = disk ∧
      ∃ fresh, freeMap.Takes fresh given.2 ∧ fresh.length = divRoundUp size sectorSize ∧
        Filled disk given.1 sector type fresh := by
  unfold FileHeader.mustAllocate
  refine (blank.allocate_yields onDisk ofDisk taken some few enough).bind ?_
  rintro _ _ ⟨rfl, hdr', freeMap', fresh, rfl, takes, long, filled⟩
  refine (Fs.Reads.assert _ rfl).bind ?_
  exact Program.Yields.pure ⟨rfl, fresh, takes, long, filled⟩

/-- The sectors of the system headers are the first ones. -/
theorem Bitmap.takes_system : ∃ first second third : Bitmap,
    (new numSectors).mark freeMapSector = some first ∧ first.mark directorySector = some second ∧
      second.mark pipeSector = some third ∧ (new numSectors).Takes [0, 1, 2] third := by
  -- The marks give the bitmaps that they are made of.
  refine ⟨_, _, _, @mark_inRange _ 0 (by decide), @mark_inRange _ 1 (show 1 < numSectors by decide),
    @mark_inRange _ 2 (show 2 < numSectors by decide), ?_⟩
  have zero := @bit_setBit (new numSectors) 0 (by decide)
  have one := @bit_setBit ((new numSectors).setBit 0) 1 (show 1 < numSectors by decide)
  -- The three bits are set one after the other, each being the first free one.
  refine .cons (by decide) (bit_new _ _) (fun j below => absurd below (Nat.not_lt_zero _)) ?_
  refine .cons (show 1 < numSectors by decide) ?_ (fun j below => ?_) ?_
  · -- The second bit is free after the first is set, and the one before it is taken.
    rw [zero, bit_new]
    rfl
  · obtain rfl : j = 0 := by omega
    rw [zero]
    rfl
  refine .cons (show 2 < numSectors by decide) ?_ (fun j below => ?_) (.nil _)
  · -- So it is with the third.
    rw [one, zero, bit_new]
    rfl
  · rw [one, zero, bit_new]
    have small : j = 0 ∨ j = 1 := by omega
    rcases small with rfl | rfl <;> rfl

namespace FileSystem

variable {disk middle after : Disk} {mapHdr dirHdr pipeHdr : FileHeader} {map : PersistentBitmap}
  {dir : Directory} {mapSectors dirSectors pipeSectors : List Nat}

/-- The sectors of the system files. -/
def systemSectors (mapSectors dirSectors pipeSectors : List Nat) (s : Int) : List Nat :=
  if s = freeMapSector then mapSectors else if s = directorySector then dirSectors
  else pipeSectors

/-- What is written to an empty disk to format it. -/
structure Formats (disk middle after : Disk) (mapHdr dirHdr pipeHdr : FileHeader)
    (map : PersistentBitmap) (dir : Directory) (mapSectors dirSectors pipeSectors : List Nat) :
    Prop where
  mapFilled : mapHdr.Filled disk freeMapSector .file mapSectors
  dirFilled : dirHdr.Filled disk directorySector .dir dirSectors
  pipeFilled : pipeHdr.Filled disk pipeSector .pipe pipeSectors
  lengths : mapSectors.length = 1 ∧ dirSectors.length = 2 ∧ pipeSectors.length = 8
  takes : (Bitmap.new numSectors).Takes
    ([0, 1, 2] ++ (mapSectors ++ dirSectors ++ pipeSectors)) map
  pipeHeader : headerAt disk pipeSector = pipeHdr
  mapWritten : OpenFile.Written disk middle mapHdr (PersistentBitmap.bytes map) 0
  dirWritten : Directory.WroteBack middle after dir dirHdr
  sector : dir.sector = directorySector
  table : dir.table.length = directoryFileSize
  empty : ∀ i < numDirEntries, dir.inUse i = false

namespace Formats

variable (formats : Formats disk middle after mapHdr dirHdr pipeHdr map dir mapSectors dirSectors
  pipeSectors)

include formats

/-- The bytes of the map fill a sector. -/
theorem long : (PersistentBitmap.bytes map).length = 128 := by
  rw [PersistentBitmap.length_bytes, PersistentBitmap.length_map formats.takes.numBits]

/-- None of the system files needs an index sector. -/
theorem few : mapSectors.length ≤ numDirect ∧ dirSectors.length ≤ numDirect ∧
    pipeSectors.length ≤ numDirect := by
  obtain ⟨one, two, eight⟩ := formats.lengths
  rw [one, two, eight]
  decide

/-- The sectors of the system files are not those of their headers, and none is in two files. -/
theorem apart : (∀ t ∈ mapSectors, 2 < t ∧ t ∉ dirSectors) ∧ (∀ t ∈ dirSectors, 2 < t) := by
  have nodup := formats.takes.nodup
  simp only [List.nodup_append] at nodup
  obtain ⟨-, ⟨⟨-, -, first⟩, -, -⟩, front⟩ := nodup
  have behind : ∀ t ∈ mapSectors ++ dirSectors ++ pipeSectors, 2 < t := by
    intro t member
    by_contra small
    refine front t ?_ t member rfl
    simp only [List.mem_cons, List.not_mem_nil, or_false]
    omega
  exact ⟨fun t member => ⟨behind t (by simp [member]), fun also => first t member t also rfl⟩,
    fun t member => behind t (by simp [member])⟩

/-- The map's own file has one sector. -/
theorem mapSectors_eq : ∃ t, mapSectors = [t] := List.length_eq_one_iff.mp formats.lengths.1

/-- Writing the root directory leaves every sector but its header and its own ones. -/
theorem kept {s : Int} (notSelf : s ≠ directorySector) (notSlot : ∀ t ∈ dirSectors, s ≠ (t : Int)) :
    after s = middle s := by
  refine formats.dirWritten.frame s (by rwa [formats.dirFilled.self]) fun n counted => ?_
  have moved := formats.dirFilled.congr formats.few.2.1 middle
  obtain ⟨t, member, same⟩ := moved.block_mem formats.few.2.1 counted
  rw [same]
  exact notSlot t member

/-- The header of the map says that the map fills its sector. -/
theorem mapHeader_eq : mapHeader after = { mapHdr with limit := 128 } := by
  have first : after freeMapSector = middle freeMapSector := by
    refine formats.kept (by decide) fun t member => ?_
    have := formats.apart.2 t member
    show (0 : Int) ≠ t
    omega
  have room : ((0 + (PersistentBitmap.bytes map).length : Nat) : Int) ≤ mapHdr.capacity := by
    rw [formats.long, formats.mapFilled.laid.capacity, formats.mapFilled.count, formats.lengths.1]
    decide
  -- What was written at the start of the file sets its limit.
  have stored := formats.mapWritten.headerAt_stored formats.mapFilled.laid room
    formats.mapFilled.self
  rw [formats.long] at stored
  exact (congrArg FileHeader.ofSector first).trans stored

/-- The map that is stored is the one with the system's sectors. -/
theorem freeMapOn_eq : freeMapOn after = map := by
  obtain ⟨t, one⟩ := formats.mapSectors_eq
  have slot : mapHdr.dataSector 0 = t := by
    rw [← FileHeader.slot_direct disk _ (Nat.zero_le _), formats.mapFilled.slots, one]
    rfl
  have member : t ∈ mapSectors := by simp [one]
  have here := formats.apart.1 t member
  -- The root directory is written after the map, to other sectors.
  have sector : after (mapHdr.dataSector 0) = middle (mapHdr.dataSector 0) := by
    rw [slot]
    refine formats.kept (by show (t : Int) ≠ 1; omega) fun u also same => ?_
    have equal : t = u := by exact_mod_cast same
    exact here.2 (equal ▸ also)
  -- The map is read from the same sector whatever the limit of its file.
  have limited : freeMapOn after = storedMap after mapHdr := by
    unfold freeMapOn
    rw [formats.mapHeader_eq]
    rfl
  rw [limited, MapFile.storedMap_congr mapHdr sector]
  exact MapFile.storedMap_written formats.takes.numBits formats.mapWritten

/-- The root directory is a new one. -/
theorem root : NewHeader after directorySector .dir dirSectors :=
  newHeader_of_wroteBack (formats.dirFilled.congr formats.few.2.1 middle) formats.lengths.2.1
    formats.dirWritten formats.sector formats.table formats.empty

/-- The header of the root directory says how long it is. -/
theorem rootHeader_eq : headerAt after directorySector = { dirHdr with limit := directoryLimit } := by
  have laid := (formats.dirFilled.congr formats.few.2.1 middle).laid
  refine formats.dirWritten.headerAt_eq laid ?_ formats.dirFilled.self
  rw [laid.capacity, formats.dirFilled.count, formats.lengths.2.1]
  decide

/-- The root directory is stored as it was in memory. -/
theorem dirAt_root : dirAt after directorySector = dir :=
  formats.dirWritten.dirAt_eq formats.rootHeader_eq formats.table (by rw [formats.sector]; decide)

/-- The header of the pipe is as it was written. -/
theorem pipeHeader_eq : headerAt after pipeSector = pipeHdr := by
  -- Neither the root directory nor the map is written over it.
  have last : after pipeSector = middle pipeSector := by
    refine formats.kept (by decide) fun t member => ?_
    have := formats.apart.2 t member
    show (2 : Int) ≠ t
    omega
  have before : middle pipeSector = disk pipeSector := by
    refine formats.mapWritten.frame _ (by rw [formats.mapFilled.self]; decide) fun n counted => ?_
    obtain ⟨t, member, same⟩ := formats.mapFilled.block_mem formats.few.1 counted
    have := (formats.apart.1 t member).1
    rw [same]
    show (2 : Int) ≠ t
    omega
  exact (congrArg FileHeader.ofSector (last.trans before)).trans formats.pipeHeader

/-- A formatted disk has the system files only. -/
theorem systemOnly : SystemOnly after (systemSectors mapSectors dirSectors pipeSectors) := by
  have root := formats.root
  -- What was written after the map and the pipe has left their headers as they were made.
  have mapFilled := formats.mapFilled.congr formats.few.1 after
  have pipeFilled := formats.pipeFilled.congr formats.few.2.2 after
  have room : (0 : Int) ≤ 128 ∧ (128 : Int) ≤ mapHdr.capacity := by
    rw [mapFilled.laid.capacity, mapFilled.count, formats.lengths.1]
    decide
  have laid : (mapHeader after).Laid after := by
    rw [formats.mapHeader_eq]
    exact mapFilled.laid.congr rfl rfl rfl rfl room fun _ => rfl
  have header : headerAt after freeMapSector = { mapHdr with limit := 128 } := formats.mapHeader_eq
  have pipe := formats.pipeHeader_eq
  -- The parts are those of one file each.
  refine ⟨fun s system => ?_, fun s system j => ?_, ⟨laid, ?_, ?_, ?_⟩, (root.dir rfl).1,
    (root.dir rfl).2, ?_⟩
  · -- The headers are laid out, each at its own sector.
    cases system with
    | freeMap => exact ⟨laid, by rw [header]; exact mapFilled.self⟩
    | directory => exact ⟨root.laid, root.self⟩
    | pipe => exact pipe ▸ ⟨pipeFilled.laid, pipeFilled.self⟩
  · -- The slots are the sectors that were given.
    cases system with
    | freeMap =>
      rw [header]
      exact mapFilled.slots j
    | directory => exact root.slots j
    | pipe => exact pipe ▸ pipeFilled.slots j
  · -- The map keeps its own sector and limit, and has the sectors it needs.
    rw [formats.mapHeader_eq]
    exact mapFilled.self
  · rw [formats.mapHeader_eq]
  · rw [formats.mapHeader_eq]
    exact mapFilled.count.trans (congrArg Nat.cast formats.lengths.1)
  · -- The map on the disk is the one that was written.
    rw [formats.freeMapOn_eq]
    exact formats.takes

end Formats

/-- What is left when a disk has been formatted. -/
structure Formatted (after : Disk) (fs : FileSystem) : Prop where
  systemOnly : ∃ given, SystemOnly after given
  mounted : fs.Mounted after
  free : (freeMapOn after).numClear = 1010
  pipe : (headerAt after pipeSector).type = .pipe

/-- Formatting makes a new root directory, then the system files, and stores the directory as it is. -/
theorem format_parts : ∃ rest : Directory → Fs FileSystem,
    format = Directory.new directorySector >>= rest ∧
      ∀ disk dir, dir.sector = directorySector → dir.table.length = directoryFileSize →
        (∀ i < numDirEntries, dir.inUse i = false) →
          Fs.Yields disk (rest dir) fun fs after =>
            Formatted after fs ∧ dirAt after directorySector = dir := by
  -- The first three sectors are taken for the headers.
  obtain ⟨first, second, third, marks, marks', marks'', system⟩ := Bitmap.takes_system
  have free := system.numClear
  rw [Bitmap.numClear_new] at free
  have enough : third.numClear = 1021 := Nat.add_right_cancel free
  -- The bitmap covers the disk, and the first sector is marked in it.
  have ofDisk : third.OfDisk := by
    refine ⟨system.numBits, ?_⟩
    rw [system.bit]
    rfl
  have taken : ∀ s ∈ [0, 1, 2], third.bit s = true := fun s member => by
    rw [system.bit, decide_eq_true member, Bool.true_or]
  unfold format
  -- Three headers are made, and the three bits are marked.
  refine ⟨_, rfl, fun disk dir sector table empty => ?_⟩
  refine (FileHeader.new_finds disk freeMapSector .file).bind fun mapHdr mapBlank => ?_
  refine (FileHeader.new_finds disk directorySector .dir).bind fun dirHdr dirBlank => ?_
  refine (FileHeader.new_finds disk pipeSector .pipe).bind fun pipeHdr pipeBlank => ?_
  refine (Fs.Reads.ofOption disk marks).bind ?_
  refine (Fs.Reads.ofOption disk marks').bind ?_
  refine (Fs.Reads.ofOption disk marks'').bind ?_
  -- The map, the root directory and the pipe get their sectors in this order.
  refine Program.Yields.bind (mapBlank.mustAllocate_yields (by decide) ofDisk
    (taken 0 (by decide)) (by decide) (by decide) (by rw [enough]; decide)) ?_
  rintro ⟨mapHdr', first⟩ _ ⟨rfl, mapSectors, takes, one, mapFilled⟩
  dsimp only at takes one mapFilled ⊢
  -- The map took one sector of what is left.
  have count := takes.numClear
  rw [one, enough] at count
  have enough' : first.numClear = 1020 := Nat.add_right_cancel count
  have taken' : ∀ s ∈ [0, 1, 2], first.bit s = true := fun s member => by
    rw [takes.bit, taken s member, Bool.or_true]
  refine Program.Yields.bind (dirBlank.mustAllocate_yields (by decide) (takes.ofDisk ofDisk)
    (taken' 1 (by decide)) (by decide) (by decide) (by rw [enough']; decide)) ?_
  rintro ⟨dirHdr', second⟩ _ ⟨rfl, dirSectors, takes', two, dirFilled⟩
  dsimp only at takes' two dirFilled ⊢
  -- The root took two.
  have count' := takes'.numClear
  rw [two, enough'] at count'
  have enough'' : second.numClear = 1018 := Nat.add_right_cancel count'
  have taken'' : ∀ s ∈ [0, 1, 2], second.bit s = true := fun s member => by
    rw [takes'.bit, taken' s member, Bool.or_true]
  refine Program.Yields.bind (pipeBlank.mustAllocate_yields (by decide)
    (takes'.ofDisk (takes.ofDisk ofDisk)) (taken'' 2 (by decide)) (by decide) (by decide)
    (by rw [enough'']; decide)) ?_
  rintro ⟨pipeHdr', third⟩ disk ⟨rfl, pipeSectors, takes'', eight, pipeFilled⟩
  dsimp only at takes'' eight pipeFilled ⊢
  -- The pipe took eight.
  have count'' := takes''.numClear
  rw [eight, enough''] at count''
  -- All that was taken together.
  have all : (Bitmap.new numSectors).Takes
      ([0, 1, 2] ++ (mapSectors ++ dirSectors ++ pipeSectors)) third := by
    rw [List.append_assoc mapSectors]
    exact system.append (takes.append (takes'.append takes''))
  refine Fs.writeSector_bind (by decide) (Fs.writeSector_bind (by decide)
    (Fs.writeSector_bind (by decide) ?_))
  -- The three headers are written, and then both files are opened.
  generalize written : Function.update (Function.update (Function.update disk freeMapSector
    mapHdr'.toSector) directorySector dirHdr'.toSector) pipeSector pipeHdr'.toSector = start
  have few : mapSectors.length ≤ numDirect ∧ dirSectors.length ≤ numDirect ∧
      pipeSectors.length ≤ numDirect := by
    rw [one, two, eight]
    decide
  -- Each header is read back as it was written.
  have mapHeader : headerAt start freeMapSector = mapHdr' := by
    unfold headerAt
    rw [← written, Function.update_of_ne (by decide), Function.update_of_ne (by decide),
      Function.update_self]
    exact FileHeader.ofSector_toSector mapFilled.laid.small
  have dirHeader : headerAt start directorySector = dirHdr' := by
    unfold headerAt
    rw [← written, Function.update_of_ne (by decide), Function.update_self]
    exact FileHeader.ofSector_toSector dirFilled.laid.small
  have pipeHeader : headerAt start pipeSector = pipeHdr' := by
    unfold headerAt
    rw [← written, Function.update_self]
    exact FileHeader.ofSector_toSector pipeFilled.laid.small
  -- They have no more sectors than the direct ones, so their maps need no other sector.
  have mapFilled := mapFilled.congr few.1 start
  have dirFilled := dirFilled.congr few.2.1 start
  -- The files of the map and of the root are opened.
  refine (OpenFile.new_reads (by decide)).bind ((OpenFile.new_reads (by decide)).bind ?_)
  rw [mapHeader, dirHeader]
  have long : (PersistentBitmap.bytes third).length = 128 := by
    rw [PersistentBitmap.length_bytes, PersistentBitmap.length_map all.numBits]
  -- The map is written as it is in memory, with all that has been taken.
  have stores : Fs.Yields start (PersistentBitmap.writeBack third ⟨mapHdr', 0⟩) fun given after =>
      given.hdr = { mapHdr' with limit := 128 } ∧
        OpenFile.Written start after mapHdr' (PersistentBitmap.bytes third) 0 := by
    have capacity := mapFilled.laid.capacity
    rw [mapFilled.count, one] at capacity
    refine Program.Yields.bind (OpenFile.writeAtNested_within 1 mapFilled.laid
      (PersistentBitmap.bytes third) 0 (by rw [long]; decide) mapFilled.laid.limit.1
      (by rw [long, capacity]; decide)) ?_
    rintro _ middle ⟨rfl, mapWritten⟩
    refine Program.Yields.pure ⟨?_, mapWritten⟩
    rw [long]
    rfl
  refine stores.bind ?_
  rintro mapFile middle ⟨mapGiven, mapWritten⟩
  -- The root has room for its table.
  have room : (directoryLimit : Int) ≤ dirHdr'.capacity := by
    rw [dirFilled.laid.capacity, dirFilled.count, two]
    decide
  refine Program.Yields.bind (Directory.writeBack_yields (dirFilled.congr few.2.1 middle).laid room
    table) ?_
  rintro dirFile after ⟨dirGiven, dirWritten⟩
  -- This is all there is to know of the disk.
  have formats : Formats start middle after mapHdr' dirHdr' pipeHdr' third dir mapSectors dirSectors
      pipeSectors :=
    ⟨mapFilled, dirFilled, pipeFilled.congr few.2.2 start, ⟨one, two, eight⟩, all, pipeHeader,
      mapWritten, dirWritten, sector, table, empty⟩
  refine Program.Yields.pure ⟨⟨⟨_, formats.systemOnly⟩, ⟨?_, ?_⟩, ?_, ?_⟩, ?_⟩
  · -- What is in memory are the headers that are on the disk.
    rw [formats.mapHeader_eq]
    exact mapGiven
  · rw [formats.rootHeader_eq]
    exact dirGiven
  · -- The sectors that are left are counted.
    rw [formats.freeMapOn_eq]
    exact Nat.add_right_cancel count''
  · rw [formats.pipeHeader_eq]
    exact pipeFilled.type
  · exact formats.dirAt_root

/-- Formatting makes the system files, on any disk and with anything in memory. -/
theorem format_yields (disk : Disk) : Fs.Yields disk format fun fs after => Formatted after fs := by
  obtain ⟨rest, parts, yields⟩ := format_parts
  rw [parts]
  refine (Directory.new_finds disk directorySector).bind ?_
  rintro dir ⟨sector, table, empty⟩
  exact (yields disk dir sector table empty).mono fun _ _ => And.left

end FileSystem

end Nachos
