import Nachos.Proofs.Filesys.Contents

/-! The count that `WriteAt` returns, and the requests that it cannot refuse. -/

namespace Nachos

namespace OpenFile

variable {disk after : Disk} {file : OpenFile} {source : List Byte} {position : Nat}

/-- What a call of `WriteAt` leaves that returns this count. -/
structure StoresFirst (disk after : Disk) (file file' : OpenFile) (source : List Byte)
    (position count : Nat) : Prop where
  short : count ≤ source.length
  stored : file'.hdr.bytesAt after position count = source.take count
  -- The bytes are in the file, and nothing else has been added behind its old end.
  ends : ((position + count : Nat) : Int) ≤ file'.hdr.limit ∧
    file'.hdr.limit ≤ max file.hdr.limit (position + count : Nat)
  -- Only a write to the map of free sectors may mark sectors in front of its own bytes.
  front : file.hdr.selfSector ≠ freeMapSector →
    ∀ i < position, file'.hdr.byteAt after i = file.hdr.byteAt disk i
  nothing : count = 0 → file' = file ∧ after = disk

/-- `WriteAt` ends with the count of the bytes that it has stored, and did nothing for none. -/
def WriteAtCounts (disk : Disk) (file : OpenFile) (source : List Byte) (position : Nat) : Prop :=
  Fs.Yields disk (file.writeAt source position) fun (count, file') after =>
    ∃ stored : Nat, count = stored ∧ StoresFirst disk after file file' source position stored

/-- A file that holds all the bytes, and ends behind them, holds as many as are counted. -/
theorem storesFirst_all {hdr' : FileHeader} (some : 0 < source.length)
    (limit : hdr'.limit = (position + source.length : Nat))
    (bytes : ∀ k < source.length, hdr'.byteAt after (position + k) = source.getD k 0)
    (front : file.hdr.selfSector ≠ freeMapSector →
      ∀ i < position, hdr'.byteAt after i = file.hdr.byteAt disk i) :
    StoresFirst disk after file { file with hdr := hdr' } source position source.length := by
  refine ⟨le_refl _, ?_, ⟨limit.ge, limit ▸ le_max_right _ _⟩, front, fun none => by omega⟩
  rw [List.take_length]
  apply List.ext_getElem (by rw [FileHeader.length_bytesAt])
  intro k inside other
  have here := bytes k other
  simp only [FileHeader.bytesAt, List.getElem_map, List.getElem_range, here,
    List.getD_eq_getElem?_getD, List.getElem?_eq_getElem other, Option.getD_some]

/-- A call of `WriteAt` that leaves such a file counts as it should. -/
theorem counts_of_yields {post : FileHeader → Disk → Prop}
    (yields : Fs.Yields disk (file.writeAt source position) fun given after => ∃ hdr',
      given = ((source.length : Int), { file with hdr := hdr' }) ∧ post hdr' after)
    (stores : ∀ hdr' after, post hdr' after →
      StoresFirst disk after file { file with hdr := hdr' } source position source.length) :
    WriteAtCounts disk file source position := by
  unfold WriteAtCounts
  refine yields.mono ?_
  rintro _ after ⟨hdr', rfl, left⟩
  exact ⟨source.length, rfl, stores hdr' after left⟩

/-- `WriteAt` of no bytes returns 0. -/
theorem writeAt_nothing (disk : Disk) (file : OpenFile) (position : Int) :
    Fs.Reads disk (file.writeAt [] position) (0, file) := Fs.Reads.pure disk _

/-- Writing no bytes counts as it should. -/
theorem counts_nothing (started : (position : Int) ≤ file.hdr.limit) :
    WriteAtCounts disk file [] position := by
  unfold WriteAtCounts
  refine (writeAt_nothing disk file position).mono ?_
  rintro _ _ ⟨rfl, rfl⟩
  exact ⟨0, rfl, le_refl _, rfl, ⟨started, le_max_left _ _⟩, fun _ _ _ => rfl, fun _ => ⟨rfl, rfl⟩⟩

/-- Writing to a file that is not the map counts as it should if the sectors are there. -/
theorem counts_other (ready : Ready disk file.hdr) (some : 0 < source.length)
    (started : (position : Int) ≤ file.hdr.limit)
    (affordable : Affordable disk file.hdr (position + source.length)) :
    WriteAtCounts disk file source position := by
  refine counts_of_yields (writeAt_other ready some started affordable) ?_
  rintro hdr' after ⟨fresh, wrote⟩
  exact storesFirst_all some wrote.limit wrote.bytes_written fun _ => wrote.bytes_kept

/-- Writing to the map counts as it should if its file does not grow. -/
theorem counts_map_within (ready : MapReady disk) (same : file.hdr = mapHeader disk)
    (some : 0 < source.length) (started : (position : Int) ≤ file.hdr.limit)
    (within : (position + source.length : Nat) ≤ file.hdr.capacity) :
    WriteAtCounts disk file source position := by
  have laid : file.hdr.Laid disk := same ▸ ready.mapFile.laid
  have self : file.hdr.selfSector = freeMapSector := same ▸ ready.mapFile.self
  refine counts_of_yields (writeAt_within laid some started within) ?_
  rintro _ after ⟨rfl, written⟩
  refine storesFirst_all some rfl (fun k inside => ?_) fun other => absurd self other
  rw [byteAt_limit, written.bytes _ (by omega), if_pos (by omega), Nat.add_sub_cancel_left]

/-- Writing to the map counts as it should if the sectors for its growth are there. -/
theorem counts_map_grows (ready : MapReady disk) (same : file.hdr = mapHeader disk)
    (some : 0 < source.length) (started : (position : Int) ≤ file.hdr.limit)
    (grows : file.hdr.capacity < (position + source.length : Nat))
    (affordable : Affordable disk file.hdr (position + source.length)) :
    WriteAtCounts disk file source position := by
  have self : file.hdr.selfSector = freeMapSector := same ▸ ready.mapFile.self
  refine counts_of_yields (writeAt_mapGrows ready same some started grows affordable) ?_
  rintro _ after ⟨middle, hdr', fresh, freeMap', -, rfl, -, -, written⟩
  refine storesFirst_all some rfl (fun k inside => ?_) fun other => absurd self other
  rw [byteAt_limit, written.bytes _ (by omega), if_pos (by omega), Nat.add_sub_cancel_left]

/-- A call of `WriteAt` that never ends does not count anything. -/
theorem not_counts_of_refuses (refuses : Fs.Refuses disk (file.writeAt source position)) :
    ¬ WriteAtCounts disk file source position := by
  intro counts
  obtain ⟨_, _, ran, -⟩ := counts (World.ofDisk disk) rfl
  rw [refuses _ rfl] at ran
  cases ran

/-- Without the sectors that it takes, a write does not end. -/
theorem OpenOn.refuses (opened : OpenOn disk file.hdr) (some : 0 < source.length)
    (started : (position : Int) ≤ file.hdr.limit)
    (unaffordable : ¬ Affordable disk file.hdr (position + source.length)) :
    Fs.Refuses disk (file.writeAt source position) := by
  generalize same : file.hdr = hdr at opened
  cases opened with
  | freeMap ready =>
    have laid : file.hdr.Laid disk := same ▸ ready.mapFile.laid
    exact writeAt_refuses laid ready.mapFile ready.ofDisk some started unaffordable
  | other ready =>
    subst same
    exact writeAt_refuses ready.laid ready.mapFile ready.ofDisk some started unaffordable

/-- With the sectors that it takes, a write counts as it should. -/
theorem OpenOn.counts (opened : OpenOn disk file.hdr) (some : 0 < source.length)
    (started : (position : Int) ≤ file.hdr.limit)
    (affordable : Affordable disk file.hdr (position + source.length)) :
    WriteAtCounts disk file source position := by
  generalize same : file.hdr = hdr at opened
  cases opened with
  | freeMap ready =>
    by_cases grows : file.hdr.capacity < (position + source.length : Nat)
    · exact counts_map_grows ready same some started grows affordable
    · exact counts_map_within ready same some started (by omega)
  | other ready =>
    subst same
    exact counts_other ready some started affordable

end OpenFile

/-- `WriteAt` counts what it stores exactly if the file can be given the sectors for all of it. -/
theorem writeAt_counts_iff {disk : Disk} {file : OpenFile} {source : List Byte} {position : Nat}
    (opened : OpenFile.OpenOn disk file.hdr) (started : (position : Int) ≤ file.hdr.limit) :
    OpenFile.WriteAtCounts disk file source position ↔
      source = [] ∨ OpenFile.Affordable disk file.hdr (position + source.length) := by
  by_cases none : source = []
  · subst none
    exact iff_of_true (OpenFile.counts_nothing started) (.inl rfl)
  have some : 0 < source.length := List.length_pos_iff.mpr none
  constructor
  · intro counts
    refine .inr ?_
    by_contra unaffordable
    exact OpenFile.not_counts_of_refuses (opened.refuses some started unaffordable) counts
  · exact fun either => opened.counts some started (either.resolve_left none)

/-- The bytes are counted that are written behind a file of two bytes, up into its index sector. -/
theorem writeAt_counts_intoIndex :
    OpenFile.WriteAtCounts (sampleDisk [5] 2) ⟨.ofSectors 4 [5] 2, 0⟩ (.replicate 3300 7) 2 := by
  have ready : Ready (sampleDisk [5] 2) (.ofSectors 4 [5] 2) :=
    sampleDisk_ready (by decide) (by decide) (by decide) (by decide)
  -- The file grows by 25 sectors for the bytes, and one for the index.
  have needed : (FileHeader.ofSectors 4 [5] 2).neededSlots
      (OpenFile.wantedFor (.ofSectors 4 [5] 2) (2 + 3300)) = 26 := by decide
  have clear := @numClear_sampleDisk [5] 2 (by decide) (by decide)
  have affordable : OpenFile.Affordable (sampleDisk [5] 2) (.ofSectors 4 [5] 2)
      (2 + (List.replicate 3300 (7 : Byte)).length) := by
    rw [List.length_replicate]
    refine ⟨by decide, ?_⟩
    rw [needed]
    rw [List.length_singleton] at clear
    omega
  exact (writeAt_counts_iff (.other ready) (by decide)).mpr (.inr affordable)

/-- With a file of two bytes and 7168 bytes more, `WriteAt` aborts. -/
theorem writeAt_aborts :
    OpenFile.OpenOn (sampleDisk [5] 2) (.ofSectors 4 [5] 2) ∧
      ¬ OpenFile.WriteAtCounts (sampleDisk [5] 2) ⟨.ofSectors 4 [5] 2, 0⟩
        (List.replicate 7168 0) 2 := by
  have ready : Ready (sampleDisk [5] 2) (.ofSectors 4 [5] 2) :=
    sampleDisk_ready (by decide) (by decide) (by decide) (by decide)
  have long : (List.replicate 7168 (0 : Byte)).length = 7168 := List.length_replicate
  refine ⟨.other ready, OpenFile.not_counts_of_refuses ?_⟩
  refine OpenFile.OpenOn.refuses (.other ready) (by rw [long]; decide) (by decide)
    fun affordable => ?_
  -- The file would have two bytes more than the largest one.
  have fits := affordable.fits
  rw [long] at fits
  exact absurd fits (by decide)

end Nachos
