import Nachos.Proofs.Filesys.Session
import Nachos.Proofs.Filesys.Sequential

/-! Calls that succeed: creating a file, opening it, and writing to it. -/

namespace Nachos

namespace Directory

variable {dir dir' : Directory} {i : Nat} {last name : List Byte} {newSector : Int}

/-- A name that is found is that of the first entry in use that matches. -/
theorem findIndex_eq_some {i : Nat} : dir.findIndex name = some i ↔
    (dir.inUse i = true ∧ dir.entryName i = cString fileNameMaxLen name) ∧ i < numDirEntries ∧
      ∀ j < i, ¬ (dir.inUse j = true ∧ dir.entryName j = cString fileNameMaxLen name) := by
  unfold findIndex
  rw [List.find?_range_eq_some]
  simp only [Bool.and_eq_true, beq_iff_eq, List.mem_range, Bool.not_eq_true', Bool.and_eq_false_iff,
    beq_eq_false_iff_ne, not_and_or, Bool.not_eq_true]

/-- A name is not found if no entry in use matches it. -/
theorem findIndex_eq_none : dir.findIndex name = none ↔
    ∀ i < numDirEntries, dir.inUse i = true → dir.entryName i ≠ cString fileNameMaxLen name := by
  unfold findIndex
  rw [List.find?_eq_none]
  refine forall_congr' fun i => ?_
  rw [List.mem_range, Bool.and_eq_true, beq_iff_eq, not_and]

namespace Entered

variable (entered : Entered dir dir' i last newSector)

include entered

/-- The name that has been entered is found. -/
theorem findIndex_self (absent : dir.findIndex last = none) : dir'.findIndex last = some i := by
  rw [findIndex_eq_none] at absent
  refine findIndex_eq_some.mpr ⟨⟨?_, ?_⟩, entered.inside, fun j before both => ?_⟩
  · rw [entered.inUse]
    simp
  · rw [entered.entryName, if_pos rfl]
  · -- An entry in front of it was there before.
    have other : j ≠ i := by omega
    rw [entered.inUse, entered.entryName, decide_eq_false other, if_neg other, Bool.false_or] at both
    exact absent j (by have := entered.inside; omega) both.1 both.2

/-- Another name is found where it was. -/
theorem findIndex_other (other : cString fileNameMaxLen name ≠ cString fileNameMaxLen last) :
    dir'.findIndex name = dir.findIndex name := by
  unfold findIndex
  congr 1
  funext j
  rw [entered.inUse, entered.entryName]
  by_cases same : j = i
  · -- The entry was free, and now has a name that is not this one.
    subst same
    rw [entered.free, if_pos rfl, beq_eq_false_iff_ne.mpr (Ne.symm other)]
    simp
  · rw [decide_eq_false same, if_neg same, Bool.false_or]

end Entered

end Directory

variable {disk after : Disk} {fs : FileSystem} {path last : List Byte} {sector parent : Int}
  {i newSector : Nat} {kind : FileType} {fresh : List Nat}

/-- A path leads where it led when a file has been created there. -/
theorem Leads.created (leads : Leads disk sector path parent last)
    (made : FileSystem.Created disk after parent last i newSector kind fresh) (sound : Sound disk)
    (found : IsDirectory disk sector) (absent : (dirAt disk parent).findIndex last = none) :
    Leads after sector path parent last := by
  have parentFound := leads.isDirectory found
  have changed := made.changedAt sound parentFound
  induction leads with
  | last split ends => exact .last split ends
  | @more sector parent path name rest last split goesOn there listing later ih =>
    have next := isDirectory_dirlookup found there listing
    -- A name on the way was there before, so it is not the one that is new.
    have same : (dirAt after sector).dirlookup name = (dirAt disk sector).dirlookup name := by
      by_cases here : sector = parent
      swap
      · rw [changed.dirAt_other sound.tree found here]
      subst here
      obtain ⟨k, search⟩ : ∃ k, (dirAt disk sector).findIndex name = some k := by
        rcases sound.readable.dirlookup_cases found name with ⟨-, none⟩ | ⟨-, some, -⟩
        · exact absurd none there
        · exact Option.ne_none_iff_exists'.mp some
      obtain ⟨inside, inUse, entryName, lookup⟩ := Directory.findIndex_some search
      have apart : cString fileNameMaxLen name ≠ cString fileNameMaxLen last := fun same =>
        Directory.findIndex_eq_none.mp absent k inside inUse (entryName.trans same)
      have kept : k ≠ i := by
        rintro rfl
        rw [made.entered.free] at inUse
        cases inUse
      have still := made.entered.findIndex_other apart
      rw [search] at still
      rw [(Directory.findIndex_some still).2.2.2, lookup, made.entered.entrySector, if_neg kept]
    have header : headerAt after ((dirAt disk sector).dirlookup name) =
        headerAt disk ((dirAt disk sector).dirlookup name) := congrArg FileHeader.ofSector
      (changed.header (isHeader_of_directory next))
    refine .more split goesOn (same ▸ there) ?_ ?_
    · rw [same, header]
      exact listing
    · rw [same]
      exact ih made next absent parentFound changed

namespace FileSystem

/-- `Open` opens the file that a path names. -/
theorem open_reads (sound : Sound disk) (mounted : fs.Mounted disk)
    (leads : Leads disk directorySector path parent last) {k : Nat}
    (named : (dirAt disk parent).findIndex last = some k) :
    Fs.Reads disk (fs.«open» path) (some ⟨headerAt disk ((dirAt disk parent).entrySector k), 0⟩) := by
  obtain ⟨inside, inUse, -, lookup⟩ := Directory.findIndex_some named
  have onDisk := (sound.header_marked (isHeader_of_entry (leads.isDirectory .root) inside inUse)).1
  have finds := Directory.find_leads sound.readable leads
  rw [lookup] at finds
  unfold FileSystem.«open»
  refine (rootDirectory_reads sound.readable mounted).bind (finds.bind ?_)
  rw [if_pos onDisk.1]
  exact (OpenFile.new_reads onDisk).bind (Fs.Reads.pure disk _)

/-- A file that has been created is found and opened by its path. -/
theorem Created.open_reads (made : Created disk after parent last i newSector kind fresh)
    (sound : Sound disk) (mounted : fs.Mounted disk) (creatable : Creatable disk path parent last) :
    Leads after directorySector path parent last ∧
      (dirAt after parent).findIndex last = some i ∧
      (dirAt after parent).entrySector i = newSector ∧
      Fs.Reads after (fs.«open» path) (some ⟨headerAt after newSector, 0⟩) := by
  have found := creatable.leads.isDirectory .root
  have leads := creatable.leads.created made sound .root creatable.absent
  have named := made.entered.findIndex_self creatable.absent
  have sector : (dirAt after parent).entrySector i = newSector := by
    rw [made.entered.entrySector, if_pos rfl]
  have reads := FileSystem.open_reads (made.stillSound sound found)
    (made.stillMounted sound found mounted) leads named
  rw [sector] at reads
  exact ⟨leads, named, sector, reads⟩

/-- An ordinary file that has been created is new when it is opened. -/
theorem Created.newFile (made : Created disk after parent last i newSector .file fresh)
    (sound : Sound disk) (found : IsDirectory disk parent) :
    OpenFile.NewFile after ⟨headerAt after newSector, 0⟩ := by
  have stillSound := made.stillSound sound found
  have adds := (made.gains sound found).adds sound.tree found
  have isHeader : IsHeader after newSector := .entry (adds.directory_kept found) adds.named
  have positive := (sound.ofDisk.free (made.takes.clear _ List.mem_cons_self).1
    (made.takes.clear _ List.mem_cons_self).2).1
  obtain ⟨limit, nsectors, -⟩ := made.new.file rfl
  refine ⟨stillSound.ready isHeader ?_, made.new.type, limit, nsectors, rfl⟩
  show (newSector : Int) ≠ 0
  omega

end FileSystem

namespace Session

variable {session : Session}

/-- A file that can be created is created. -/
theorem create_succeeds (inOrder : InOrder session)
    (creatable : Creatable session.disk path parent last) (provided : Provided session.disk kind) :
    ∃ after i newSector fresh, session.call (.create path kind) = some (1, after) ∧
      FileSystem.Created session.disk after.disk parent last i newSector kind fresh ∧
      after.fs = session.fs ∧ after.handles = session.handles := by
  obtain ⟨⟨success, fs⟩, after, performed, ⟨given, i, newSector, fresh, made⟩, -, handles⟩ :=
    perform_yields (FileSystem.create_yields inOrder.sound inOrder.mounted creatable provided)
  cases given
  refine ⟨{ after with fs := session.fs }, i, newSector, fresh, ?_, made, rfl, handles⟩
  simp only [call, performed]
  rfl

/-- A file that is there is opened. -/
theorem open_succeeds {file : OpenFile}
    (reads : Fs.Reads session.disk (session.fs.«open» path) (some file)) :
    ∃ after, session.call (.«open» path) = some (1, after) ∧ after.disk = session.disk ∧
      after.fs = session.fs ∧ after.handles = session.handles ++ [⟨file, true⟩] := by
  obtain ⟨found, after, performed, ⟨rfl, disk⟩, fs, handles⟩ := perform_yields reads
  refine ⟨{ after with handles := after.handles ++ [⟨file, true⟩] }, ?_, disk, fs, ?_⟩
  · simp only [call, performed]
    rfl
  · rw [← handles]

/-- A file that can be enlarged as far as it takes is written. -/
theorem write_succeeds {handle : Nat} {held : Handle} {source : List Byte} {start : Nat}
    (there : session.handles[handle]? = some held) (ready : Ready session.disk held.file.hdr)
    (position : held.file.seekPosition = start) (some : 0 < source.length)
    (started : (start : Int) ≤ held.file.hdr.limit)
    (affordable : OpenFile.Affordable session.disk held.file.hdr (start + source.length)) :
    ∃ after hdr' fresh, session.call (.write handle source) = .some ((source.length : Int), after) ∧
      OpenFile.Wrote session.disk after.disk held.file.hdr hdr' source start fresh ∧
      after.fs = session.fs ∧ after.handles = (session.wrote handle
        ⟨hdr', held.file.seekPosition + source.length⟩).handles := by
  have writes : Fs.Yields session.disk (held.file.write source) fun given after =>
      ∃ hdr' fresh, given = ((source.length : Int), ⟨hdr', held.file.seekPosition + source.length⟩) ∧
        OpenFile.Wrote session.disk after held.file.hdr hdr' source start fresh := by
    unfold OpenFile.write
    rw [position]
    refine (OpenFile.writeAt_yields ready some started affordable).bind ?_
    rintro _ after ⟨hdr', fresh, rfl, wrote⟩
    exact Program.Yields.pure ⟨hdr', fresh, by rw [position], wrote⟩
  obtain ⟨_, after, performed, ⟨hdr', fresh, rfl, wrote⟩, fs, handles⟩ := perform_yields writes
  -- As many bytes are written as were given, and the result is not zero.
  have count : (source.length : Int) ≠ 0 := by omega
  refine ⟨after.wrote handle ⟨hdr', held.file.seekPosition + source.length⟩, hdr', fresh, ?_, wrote,
    fs, ?_⟩
  · refine Option.bind_eq_some_iff.mpr ⟨held, there, Option.bind_eq_some_iff.mpr ⟨_, performed, ?_⟩⟩
    dsimp only
    unfold written
    rw [if_neg count]
    rfl
  · unfold Session.wrote
    dsimp only
    rw [handles]

end Session

end Nachos
