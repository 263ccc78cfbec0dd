import Nachos.Proofs.Filesys.TreeSystem

/-! The file system is a tree of named files, call by call and over whole runs. -/

namespace Nachos

namespace OpenFile

/-- A handle of an ordinary file, with the header that the file has on the disk. -/
structure Usable (disk : Disk) (file : OpenFile) : Prop where
  current : Current disk file
  type : file.hdr.type = .file

/-- The sectors that a write takes can be found, if it is one that the file takes at all. -/
def RoomFor (disk : Disk) (file : OpenFile) (source : List Byte) (position : Int) : Prop :=
  ∀ start : Nat, position = start → source ≠ [] → start ≤ file.hdr.limit →
    Affordable disk file.hdr (start + source.length)

/-- An open file is the one at its path. -/
structure Shown (disk : Disk) (file : OpenFile) (twin : TreeFile) : Prop where
  found : (naming disk).find directorySector twin.path = some file.hdr.selfSector
  position : twin.position = file.seekPosition

variable {disk : Disk} {file : OpenFile} {source : List Byte} {position numBytes : Int}

/-- `ReadAt` gives the bytes of the file that are asked for. -/
theorem readAt_portion (laid : file.hdr.Laid disk) (small : position + numBytes < 2 ^ 31) :
    Fs.Reads disk (file.readAt numBytes position)
      (TreeSystem.portion (file.hdr.contents disk) position numBytes) := by
  unfold TreeSystem.portion
  by_cases idle : numBytes ≤ 0 ∨ position < 0
  · -- Nothing is read, and no bytes are asked for.
    have nothing : (if position < 0 then [] else
        ((file.hdr.contents disk).drop position.toNat).take numBytes.toNat) = [] := by
      split
      · rfl
      · rw [show numBytes.toNat = 0 by omega, List.take_zero]
    unfold readAt
    rw [nothing, if_pos (by omega)]
    exact Fs.Reads.pure disk []
  · -- Position and number of bytes are natural numbers, and the bytes are those of the file.
    obtain ⟨q, rfl⟩ := Int.eq_ofNat_of_zero_le (show 0 ≤ position by omega)
    obtain ⟨m, rfl⟩ := Int.eq_ofNat_of_zero_le (show 0 ≤ numBytes by omega)
    rw [if_neg (by omega)]
    exact readAt_contents laid (by omega) (by exact_mod_cast small)

/-- `WriteAt` writes what can be written, and else leaves everything as it is. -/
theorem writeAt_stores (ready : Ready disk file.hdr) (room : file.RoomFor disk source position) :
    Fs.Yields disk (file.writeAt source position) fun given after =>
      (TreeSystem.Writable (file.hdr.contents disk) source position ∧
        ∃ (start : Nat) (hdr' : FileHeader) (fresh : List Nat), position = start ∧
          start ≤ file.hdr.limit ∧ given = ((source.length : Int), { file with hdr := hdr' }) ∧
          Wrote disk after file.hdr hdr' source start fresh) ∨
      (¬ TreeSystem.Writable (file.hdr.contents disk) source position ∧
        given = (0, file) ∧ after = disk) := by
  have sizes := ready.laid.limit
  have length := FileHeader.length_contents disk file.hdr
  by_cases able : TreeSystem.Writable (file.hdr.contents disk) source position
  · -- There are bytes to write, and they begin within the file.
    obtain ⟨some, nonneg, within⟩ := able
    obtain ⟨start, rfl⟩ := Int.eq_ofNat_of_zero_le nonneg
    have started : (start : Int) ≤ file.hdr.limit := by omega
    refine (writeAt_yields ready (List.length_pos_iff.mpr some) started
      (room start rfl some started)).mono ?_
    rintro given after ⟨hdr', fresh, same, wrote⟩
    exact .inl ⟨⟨some, nonneg, within⟩, start, hdr', fresh, rfl, started, same, wrote⟩
  · -- There are no bytes, or they would be outside of the file.
    refine (writeAt_idle ?_).mono ?_
    · unfold TreeSystem.Writable at able
      by_contra something
      simp only [not_or, List.length_eq_zero_iff] at something
      exact able ⟨something.1, by omega, by omega⟩
    · rintro given after ⟨same, kept⟩
      exact .inr ⟨able, same, kept⟩

end OpenFile

section Paths

variable {disk : Disk} {fs : FileSystem} {path : List Byte} {sector : Int}

/-- A path that finds something names it. -/
theorem names_of_find (readable : Readable disk) (some : components path ≠ [])
    (found : (naming disk).find directorySector (components path) = .some sector) :
    Session.Names disk path sector := by
  have split := (List.dropLast_append_getLast some).symm
  rw [split, Naming.find_concat] at found
  obtain ⟨parent, led, named⟩ := Option.bind_eq_some_iff.mp found
  have leads := (readable.leads_iff_walk .root).mpr ⟨_, split, led⟩
  rw [lookup_eq leads.cut] at named
  obtain ⟨i, search, entry⟩ := Option.map_eq_some_iff.mp named
  exact ⟨parent, _, i, leads, search, entry⟩

/-- `Open` opens what a path finds. -/
theorem FileSystem.open_found (sound : Sound disk) (mounted : fs.Mounted disk)
    (some : components path ≠ [])
    (found : (naming disk).find directorySector (components path) = .some sector) :
    Fs.Reads disk (fs.«open» path) (.some ⟨headerAt disk sector, 0⟩) := by
  obtain ⟨parent, last, i, leads, search, rfl⟩ := names_of_find sound.readable some found
  exact open_reads sound mounted leads search

/-- A path that finds nothing is looked up in vain. -/
theorem find_absent (readable : Readable disk) (some : components path ≠ [])
    (absent : (naming disk).find directorySector (components path) = none) :
    Fs.Reads disk ((dirAt disk directorySector).find path) (-1) := by
  have reads := (find_treeWalk readable some).1
  rwa [absent, Option.getD_none] at reads

/-- There is something in the tree exactly if something is found. -/
theorem fileTree_eq_none (some : components path ≠ []) : fileTree disk (components path) = none ↔
    (naming disk).find directorySector (components path) = none := by
  unfold fileTree
  rw [Naming.tree_of_ne_nil some, Option.map_eq_none_iff]

end Paths

/-- The machine without a cache, its file system, and all open files. -/
def Session.plain (session : Session) : System World :=
  ⟨session.world, session.fs, session.handles.map Handle.file⟩

namespace System

variable {system : System World}

/-- What an operation yields, it yields on the machine. -/
theorem perform_yields {α : Type} {operation : Fs α} {post : α → Disk → Prop}
    (yields : Fs.Yields system.world.disk operation post) :
    ∃ value world, system.perform World.serve operation = some (value, { system with world }) ∧
      post value world.disk := by
  obtain ⟨value, world, ran, holds⟩ := yields system.world rfl
  exact ⟨value, world, by unfold perform; rw [ran]; rfl, holds⟩

/-- No sector is free. -/
def full (system : System World) : Bool := (freeMapOn system.world.disk).numClear = 0

end System

/--
A call that cannot go wrong.

It creates files and directories, and no directory that there are too few sectors for; it reads and
writes ordinary files, through handles that are up to date, and finds the sectors that it takes; and
it removes nothing that is open, and no file that would take used sectors with it.
-/
def PipeCall.Proper (system : System World) : PipeCall → Prop
  | .call (.create name kind) => components name ≠ [] ∧ (kind = .file ∨ kind = .dir) ∧
      ¬ Session.Tight system.world.disk name kind
  | .call (.«open» name) => components name ≠ []
  | .call (.remove name) => components name ≠ [] ∧
      (∀ sector, Session.Names system.world.disk name sector →
        ¬ (headerAt system.world.disk sector).PartIndexed) ∧
      -- No file is open that is removed.
      ∀ file ∈ system.files, ∀ path, (naming system.world.disk).find directorySector path =
        some file.hdr.selfSector → ¬ components name <+: path
  | .call (.seek handle _) => handle < system.files.length
  | .call (.read handle numBytes) => ∃ file, system.files[handle]? = some file ∧
      file.Usable system.world.disk ∧ file.seekPosition + numBytes < 2 ^ 31
  | .call (.readAt handle numBytes position) => ∃ file, system.files[handle]? = some file ∧
      file.Usable system.world.disk ∧ position + numBytes < 2 ^ 31
  | .call (.write handle source) => ∃ file, system.files[handle]? = some file ∧
      file.Usable system.world.disk ∧ file.RoomFor system.world.disk source file.seekPosition
  | .call (.writeAt handle source position) => ∃ file, system.files[handle]? = some file ∧
      file.Usable system.world.disk ∧ file.RoomFor system.world.disk source position
  | .readPipe => True
  | .writePipe data => OpenFile.RoomFor system.world.disk
      ⟨headerAt system.world.disk pipeSector, 0⟩ data 0

/-- A tree shows what is on the disk, and which files are open. -/
structure Shows (system : System World) (sys : TreeSystem) : Prop where
  sound : Sound system.world.disk
  mounted : system.fs.Mounted system.world.disk
  unique : UniqueNames system.world.disk
  plain : (headerAt system.world.disk pipeSector).type ≠ .dir
  tree : sys.tree = fileTree system.world.disk
  pipe : sys.pipe = (headerAt system.world.disk pipeSector).contents system.world.disk
  files : ∀ handle : Nat, Option.Rel (OpenFile.Shown system.world.disk) system.files[handle]?
    sys.files[handle]?

/-- A call gives the same answer on both sides, and the tree still shows what is there. -/
def Agree (system : System World) (sys : TreeSystem) (call : PipeCall) : Prop :=
  ∃ answer next after, system.use World.serve call = some (answer, next) ∧
    sys.use system.full call = some (answer, after) ∧ Shows next after

/-- Lists whose elements are related have related elements when one more is put behind each. -/
theorem rel_append {α β : Type} {relation : α → β → Prop} {xs : List α} {ys : List β}
    (related : ∀ i : Nat, Option.Rel relation xs[i]? ys[i]?) {x : α} {y : β} (last : relation x y)
    (i : Nat) : Option.Rel relation (xs ++ [x])[i]? (ys ++ [y])[i]? := by
  -- Both lists end at the same place.
  have ends : ∀ i, xs.length ≤ i ↔ ys.length ≤ i := by
    intro i
    rw [← List.getElem?_eq_none_iff, ← List.getElem?_eq_none_iff]
    have here := related i
    generalize xs[i]? = first at here ⊢
    generalize ys[i]? = second at here ⊢
    cases here <;> simp
  -- The lists are equally long, so what is put behind has the same place in both.
  have long : xs.length = ys.length := by
    have first := (ends ys.length).mpr le_rfl
    have second := (ends xs.length).mp le_rfl
    omega
  by_cases inside : i < xs.length
  · -- In front of the new element nothing has changed.
    rw [List.getElem?_append_left inside, List.getElem?_append_left (by omega)]
    exact related i
  · -- The new element, or nothing behind it.
    rw [List.getElem?_append_right (by omega), List.getElem?_append_right (by omega), long]
    by_cases here : i - ys.length = 0
    · rw [here]
      exact .some last
    · rw [List.getElem?_eq_none (by simp; omega), List.getElem?_eq_none (by simp; omega)]
      exact .none

namespace Shows

variable {system : System World} {sys : TreeSystem} (shows : Shows system sys)

include shows

/-- The pipe is a file that can be written. -/
theorem isFile_pipe : IsFile system.world.disk pipeSector :=
  ⟨.fixed .pipe, by decide, shows.plain⟩

/-- The same handles are given out. -/
theorem twin {handle : Nat} {file : OpenFile} (there : system.files[handle]? = some file) :
    ∃ twin, sys.files[handle]? = some twin ∧ file.Shown system.world.disk twin := by
  have related := shows.files handle
  rw [there] at related
  generalize sys.files[handle]? = other at related
  cases related with
  | some shown => exact ⟨_, rfl, shown⟩

/-- What is in a file that is open is what is in the tree at its path. -/
theorem held {handle : Nat} {file : OpenFile} (there : system.files[handle]? = some file)
    (usable : file.Usable system.world.disk) : ∃ twin,
      sys.held handle = some (twin, file.hdr.contents system.world.disk) ∧
      sys.files[handle]? = some twin ∧ file.Shown system.world.disk twin := by
  obtain ⟨twin, also, shown⟩ := shows.twin there
  refine ⟨twin, ?_, also, shown⟩
  have found := shown.found
  -- A path that is found is not the empty one.
  have some : twin.path ≠ [] := by
    intro none
    rw [none] at found
    cases found
  -- The file is not a directory, and its header is the one on the disk.
  have plain : (naming system.world.disk).lists file.hdr.selfSector = false := by
    rw [Bool.eq_false_iff, Ne, naming_lists, usable.current.header, usable.type]
    decide
  -- So the node at its path is a file with the bytes of the file.
  have here : sys.tree twin.path = .some (.file (file.hdr.contents system.world.disk)) := by
    rw [shows.tree]
    unfold fileTree
    rw [Naming.tree_of_ne_nil some, found, Option.map_some, Naming.node, plain,
      if_neg Bool.false_ne_true, usable.current.header]
  -- The tree's handle leads to that node.
  unfold TreeSystem.held ByteTree.fileAt
  rw [also]
  simp only [Option.bind_eq_bind, Option.bind_some, here]
  rfl

/-- A machine on which nothing has changed but its memory is shown by the same tree. -/
theorem idle {world : World} (disk : world.disk = system.world.disk) :
    Shows { system with world } sys := by
  obtain ⟨sound, mounted, unique, plain, tree, pipe, files⟩ := shows
  rw [← disk] at sound mounted unique plain tree pipe files
  exact ⟨sound, mounted, unique, plain, tree, pipe, files⟩

/-- A handle can move in its file, and its header can change. -/
theorem move {handle : Nat} {twin : TreeFile} (also : sys.files[handle]? = some twin)
    (file : OpenFile)
    (found : (naming system.world.disk).find directorySector twin.path =
      some file.hdr.selfSector) :
    Shows { system with files := system.files.set handle file }
      (sys.move handle twin file.seekPosition) := by
  -- Only the clause on the open files has changed.
  refine ⟨shows.sound, shows.mounted, shows.unique, shows.plain, shows.tree, shows.pipe,
    fun other => ?_⟩
  have related := shows.files other
  unfold TreeSystem.move
  dsimp only
  rw [List.getElem?_set', List.getElem?_set']
  by_cases same : handle = other
  · -- The handle still is one of the file at its path.
    subst same
    rw [if_pos rfl, if_pos rfl]
    rw [also] at related ⊢
    cases there : system.files[handle]? with
    | none =>
      rw [there] at related
      cases related
    | some before =>
      simp only [Option.map_eq_map, Option.map_some, Function.const_apply]
      exact .some ⟨found, rfl⟩
  · -- The other handles are as they were.
    rw [if_neg same, if_neg same]
    exact related

/-- `Create` makes a place in the tree a new file, or finds none, or no sector. -/
theorem create {name : List Byte} {kind : FileType}
    (proper : PipeCall.Proper system (.call (.create name kind))) :
    Agree system sys (.call (.create name kind)) := by
  obtain ⟨some, kinds, enough⟩ := proper
  have isFile := shows.isFile_pipe
  obtain ⟨sound, mounted, unique, plain, tree, pipe, files⟩ := shows
  -- The tree has a free place for the name exactly if the disk has.
  have place := vacant_iff sound.readable unique some
  rw [← tree] at place
  by_cases creatable : ∃ parent last, Creatable system.world.disk name parent last
  · -- The disk has a place and a free sector: both create the file.
    obtain ⟨parent, last, able⟩ := creatable
    have addable : Addable system.world.disk name parent last :=
      ⟨able.leads, able.absent, able.room⟩
    have found := able.leads.isDirectory .root
    have free : system.full = false := by
      have := able.free
      exact decide_eq_false (by omega)
    obtain ⟨⟨success, fs⟩, world, performed, given, i, newSector, fresh, created⟩ :=
      System.perform_yields (FileSystem.create_yields sound mounted able
        (Session.provided_of_enough kinds able enough))
    cases given
    have gains := created.gains sound found
    -- The tree afterwards is that of the disk.
    refine ⟨⟨1, []⟩, { system with world },
      { sys with tree := sys.tree.put (components name) (newNode kind) }, ?_, ?_,
      created.stillSound sound found, created.stillMounted sound found mounted,
      gains.uniqueNames sound.tree found unique able.absent, ?_, ?_, ?_, fun handle => ?_⟩
    · -- The call goes through.
      simp only [System.use, performed]
      rfl
    · -- The tree has a place.
      rw [TreeSystem.use, if_pos ⟨free, place.mpr ⟨parent, last, addable⟩⟩]
    · -- The pipe's header is not touched.
      rw [(gains.changed.part (.fixed .pipe)).1]
      exact plain
    · -- The new tree is the tree of the new disk.
      dsimp only
      rw [tree, created.fileTree sound addable kinds]
    · -- The pipe is no directory, so it is not the one that has changed.
      exact pipe.trans (gains.changed.contents sound found isFile).symm
    · -- An open file is still found at its path.
      exact rel_mono (files handle) fun file twin _ shown =>
        ⟨created.find_kept sound addable shown.found, shown.position⟩
  · -- The disk cannot create the file, and neither can the tree.
    obtain ⟨⟨success, fs⟩, world, performed, given, same⟩ := System.perform_yields
      (@FileSystem.create_refused _ _ name kind sound mounted (skipelem_isSome some)
        fun parent last able => creatable ⟨parent, last, able⟩)
    cases given
    refine ⟨⟨0, []⟩, { system with world }, sys, ?_, ?_,
      Shows.idle ⟨sound, mounted, unique, plain, tree, pipe, files⟩ same⟩
    · -- The call returns false.
      simp only [System.use, performed]
      rfl
    · -- The tree is full, or has no place.
      rw [TreeSystem.use, if_neg]
      rintro ⟨free, vacant⟩
      obtain ⟨parent, last, addable⟩ := place.mp vacant
      refine creatable ⟨parent, last, addable.leads, addable.absent, addable.room, ?_⟩
      have := of_decide_eq_false free
      omega

/-- `Open` opens what is in the tree. -/
theorem openFile {name : List Byte} (some : components name ≠ []) :
    Agree system sys (.call (.«open» name)) := by
  have nothing := @fileTree_eq_none system.world.disk name some
  rw [← shows.tree] at nothing
  cases found : (naming system.world.disk).find directorySector (components name) with
  -- There is nothing at the path, on the disk or in the tree.
  | none =>
    obtain ⟨file, world, performed, given, same⟩ := System.perform_yields
      (FileSystem.open_absent shows.sound shows.mounted
        (find_absent shows.sound.readable some found))
    cases given
    refine ⟨⟨0, []⟩, { system with world }, sys, ?_, ?_, shows.idle same⟩
    · simp only [System.use, performed]
      rfl
    · rw [TreeSystem.use, if_pos (nothing.mpr found)]
  -- The path leads to a header, which is opened.
  | some sector =>
    obtain ⟨file, world, performed, given, same⟩ := System.perform_yields
      (FileSystem.open_found shows.sound shows.mounted some found)
    cases given
    have there : ¬ sys.tree (components name) = none := by
      rw [nothing, found]
      exact Option.some_ne_none sector
    obtain ⟨isHeader, -⟩ := shows.sound.tree.header_of_find found
    have self := (shows.sound.laid sector isHeader).2
    refine ⟨⟨1, []⟩,
      { system with world, files := system.files ++ [⟨headerAt system.world.disk sector, 0⟩] },
      { sys with files := sys.files ++ [⟨components name, 0⟩] }, ?_, ?_, ?_⟩
    · -- The call returns the file.
      simp only [System.use, performed]
      rfl
    · -- The tree has a node there.
      rw [TreeSystem.use, if_neg there]
    · -- Both have one more handle, at the start of the same file.
      have kept := shows.idle same
      refine ⟨kept.sound, kept.mounted, kept.unique, kept.plain, kept.tree, kept.pipe, ?_⟩
      dsimp only
      rw [same]
      exact rel_append shows.files ⟨by rw [found, self], rfl⟩

/-- `Remove` takes out of the tree what is there, with all that is below it. -/
theorem remove {name : List Byte} (proper : PipeCall.Proper system (.call (.remove name))) :
    Agree system sys (.call (.remove name)) := by
  obtain ⟨some, whole, closed⟩ := proper
  have nothing := @fileTree_eq_none system.world.disk name some
  rw [← shows.tree] at nothing
  cases there : (naming system.world.disk).find directorySector (components name) with
  -- There is nothing to remove.
  | none =>
    obtain ⟨file, world, performed, given, same⟩ := System.perform_yields
      (FileSystem.remove_absent shows.sound shows.mounted
        (find_absent shows.sound.readable some there))
    cases given
    refine ⟨⟨0, []⟩, { system with world }, sys, ?_, ?_, shows.idle same⟩
    · simp only [System.use, performed]
      rfl
    · rw [TreeSystem.use, if_pos (nothing.mpr there)]
  -- The path leads to a header, which is removed with what is below it.
  | some sector =>
    have absent : ¬ sys.tree (components name) = none := by
      rw [nothing, there]
      exact Option.some_ne_none sector
    have isFile := shows.isFile_pipe
    obtain ⟨sound, mounted, unique, plain, tree, pipe, files⟩ := shows
    have names := names_of_find sound.readable some there
    obtain ⟨parent, last, i, leads, named, entry⟩ := id names
    have found := leads.isDirectory .root
    obtain ⟨inside, inUse, -, -⟩ := Directory.findIndex_some named
    obtain ⟨⟨success, fs⟩, world, performed, given, left⟩ :=
      System.perform_yields (FileSystem.remove_yields sound mounted leads named)
    cases given
    rw [entry] at left
    have loses := left.loses sound found
    have held := entry_eq_some.mpr ⟨⟨inside, inUse⟩, entry⟩
    -- The tree afterwards is that of the disk.
    refine ⟨⟨1, []⟩, { system with world }, { sys with tree := sys.tree.prune (components name) },
      ?_, ?_, left.stillSound sound found held (whole sector names),
      left.stillMounted sound found mounted, loses.uniqueNames inside sound.tree unique, ?_, ?_, ?_,
      fun handle => ?_⟩
    · -- The call goes through.
      simp only [System.use, performed]
      rfl
    · -- The tree has a node there.
      rw [TreeSystem.use, if_neg absent]
    · -- The pipe's header is not touched.
      rw [(loses.changed.part (.fixed .pipe)).1]
      exact plain
    · -- The pruned tree is the tree of the new disk.
      dsimp only
      rw [tree, left.fileTree sound leads named unique]
    · -- Nor are the contents of the pipe.
      exact pipe.trans (loses.changed.contents sound found isFile).symm
    · -- The files that are open are not among those that are removed.
      refine rel_mono (files handle) fun file twin member shown => ⟨?_, shown.position⟩
      have apart := closed file (List.mem_of_getElem? member) twin.path shown.found
      rw [left.find_kept sound leads named unique apart]
      exact shown.found

/-- `Seek` moves an open file, to wherever it is told to. -/
theorem seek {handle : Nat} {position : Int} (inside : handle < system.files.length) :
    Agree system sys (.call (.seek handle position)) := by
  have there := List.getElem?_eq_getElem inside
  obtain ⟨twin, also, shown⟩ := shows.twin there
  have moved := shows.move also (system.files[handle].seek position) shown.found
  refine ⟨⟨1, []⟩, _, _, ?_, ?_, moved⟩
  · simp only [System.use, there]
    rfl
  · simp only [TreeSystem.use, also]
    rfl

/-- `ReadAt` gives what is in the file of the tree. -/
theorem readAt {handle : Nat} {numBytes position : Int}
    (proper : PipeCall.Proper system (.call (.readAt handle numBytes position))) :
    Agree system sys (.call (.readAt handle numBytes position)) := by
  obtain ⟨file, there, usable, small⟩ := proper
  -- The tree has the same bytes at the handle.
  obtain ⟨twin, holds, -, -⟩ := shows.held there usable
  have laid := (usable.current.ready usable.type shows.sound).laid
  -- They are read, and the disk stays as it is.
  obtain ⟨into, world, performed, given, same⟩ :=
    System.perform_yields (OpenFile.readAt_portion laid small)
  subst given
  generalize bytes : TreeSystem.portion (file.hdr.contents system.world.disk) position numBytes
    = portion at performed
  refine ⟨⟨portion.length, portion⟩, { system with world }, sys, ?_, ?_, shows.idle same⟩
  · simp only [System.use, there, Option.bind_eq_bind, Option.bind_some, performed]
    rfl
  · simp only [TreeSystem.use, holds, Option.bind_eq_bind, Option.bind_some, bytes]
    rfl

/-- `Read` gives what is in the file of the tree, and moves on behind it. -/
theorem read {handle : Nat} {numBytes : Int}
    (proper : PipeCall.Proper system (.call (.read handle numBytes))) :
    Agree system sys (.call (.read handle numBytes)) := by
  obtain ⟨file, there, usable, small⟩ := proper
  -- The tree has the same bytes at the handle.
  obtain ⟨twin, holds, also, shown⟩ := shows.held there usable
  have laid := (usable.current.ready usable.type shows.sound).laid
  -- A read is one at the place of the file, which then moves on.
  have reads : Fs.Reads system.world.disk (file.read numBytes) _ :=
    (OpenFile.readAt_portion laid small).bind (Fs.Reads.pure system.world.disk _)
  obtain ⟨⟨into, file'⟩, world, performed, given, same⟩ := System.perform_yields reads
  cases given
  rw [← shown.position] at performed
  generalize bytes : TreeSystem.portion (file.hdr.contents system.world.disk) twin.position numBytes
    = portion at performed
  have kept := (shows.idle same).move also
    { file with seekPosition := twin.position + portion.length } (same ▸ shown.found)
  refine ⟨⟨portion.length, portion⟩, _, _, ?_, ?_, kept⟩
  · simp only [System.use, there, Option.bind_eq_bind, Option.bind_some, performed]
    rfl
  · simp only [TreeSystem.use, holds, Option.bind_eq_bind, Option.bind_some, bytes]
    rfl

/-- A file has been written, and so has the tree or the pipe that shows it. -/
theorem wrote {world : World} {sector : Int} {hdr' : FileHeader} {source : List Byte}
    {start : Nat} {fresh : List Nat} (isFile : IsFile system.world.disk sector)
    (wrote : OpenFile.Wrote system.world.disk world.disk (headerAt system.world.disk sector) hdr'
      source start fresh) (after : TreeSystem) (files : after.files = sys.files)
    (tree : after.tree = fileTree world.disk)
    (pipe : after.pipe = (headerAt world.disk pipeSector).contents world.disk) :
    Shows { system with world } after := by
  -- Each clause is kept by the write to the file.
  have sound := shows.sound
  refine ⟨wrote.stillSound sound isFile, wrote.stillMounted sound isFile shows.mounted,
    wrote.uniqueNames sound isFile shows.unique, ?_, tree, pipe, fun handle => ?_⟩
  · -- The pipe has its kind.
    rw [wrote.type_same sound isFile (.fixed .pipe)]
    exact shows.plain
  · -- The open files are found where they were.
    rw [files]
    refine rel_mono (shows.files handle) fun file twin _ shown => ⟨?_, shown.position⟩
    rw [(wrote.keeps sound isFile).find]
    exact shown.found

/-- Writing to an open file is writing to the file of the tree. -/
theorem stores {handle : Nat} {file : OpenFile} {twin : TreeFile}
    (usable : file.Usable system.world.disk) (also : sys.files[handle]? = some twin)
    (shown : file.Shown system.world.disk twin) {source : List Byte} {position : Int}
    (room : file.RoomFor system.world.disk source position) : ∃ result file' world after,
      system.perform World.serve (file.writeAt source position) =
        some ((result, file'), { system with world }) ∧
      sys.store twin.path (file.hdr.contents system.world.disk) source position =
        (result, after) ∧
      after.files[handle]? = some twin ∧ file'.seekPosition = file.seekPosition ∧
      (naming world.disk).find directorySector twin.path = some file'.hdr.selfSector ∧
      Shows { system with world } after := by
  have ready := usable.current.ready usable.type shows.sound
  -- Either the bytes are written, or nothing is.
  obtain ⟨given, world, performed, outcome⟩ :=
    System.perform_yields (OpenFile.writeAt_stores ready room)
  unfold TreeSystem.store
  rcases outcome with ⟨able, start, hdr', fresh, rfl, started, rfl, wrote⟩ | ⟨unable, rfl, same⟩
  · -- The bytes are written to the file of the tree, too.
    have isFile := usable.current.isFile usable.type shows.sound
    have self : hdr'.selfSector = file.hdr.selfSector := wrote.grew.selfSector
    rw [← usable.current.header] at wrote started
    have tree := wrote.fileTree shows.sound isFile started shown.found
    rw [usable.current.header, ← shows.tree] at tree
    -- The pipe is another file than the one that has been written.
    have pipe : (headerAt world.disk pipeSector).contents world.disk = sys.pipe := by
      rw [shows.pipe]
      exact wrote.contents_other shows.sound isFile.isHeader (.fixed .pipe) (fun same =>
        (shows.sound.tree.header_of_find shown.found).2 (same ▸ .pipe)) (by decide)
    -- The tree accepts the write as well.
    rw [if_pos able]
    have kept := shows.wrote isFile wrote { sys with
      tree := sys.tree.put twin.path
        (.file ((file.hdr.contents system.world.disk).take start ++ source)) } rfl tree.symm
      pipe.symm
    refine ⟨_, _, world, _, performed, rfl, also, rfl, ?_, kept⟩
    rw [(wrote.keeps shows.sound isFile).find, shown.found]
    exact congrArg some self.symm
  · -- The tree does not accept the write either.
    rw [if_neg unable]
    exact ⟨_, _, world, sys, performed, rfl, also, rfl, same ▸ shown.found, shows.idle same⟩

/-- `Write` writes to the file of the tree, and moves on behind what it has written. -/
theorem write {handle : Nat} {source : List Byte}
    (proper : PipeCall.Proper system (.call (.write handle source))) :
    Agree system sys (.call (.write handle source)) := by
  obtain ⟨file, there, usable, room⟩ := proper
  -- The tree has the same file at the handle.
  obtain ⟨twin, holds, also, shown⟩ := shows.held there usable
  obtain ⟨result, file', world, after, performed, stored, still, seek, found, kept⟩ :=
    shows.stores usable also shown room
  have moved := kept.move still
    { file' with seekPosition := file.seekPosition + result } found
  refine ⟨⟨result, []⟩, _, _, ?_, ?_, moved⟩
  · -- What `Write` does is what `WriteAt` does at the place of the file.
    obtain ⟨⟨_, ended⟩, ran, same⟩ := Option.map_eq_some_iff.mp performed
    cases same
    have writes : system.perform World.serve (file.write source) = some
        ((result, { file' with seekPosition := file.seekPosition + result }),
          { system with world }) := by
      unfold System.perform OpenFile.write
      rw [Program.run_bind, ran, ← seek]
      rfl
    simp only [System.use, there, Option.bind_eq_bind, Option.bind_some, writes]
    rfl
  · -- The tree writes at the same place.
    simp only [TreeSystem.use, holds, Option.bind_eq_bind, Option.bind_some]
    rw [shown.position, stored]
    rfl

/-- `WriteAt` writes to the file of the tree, and leaves the place of the file alone. -/
theorem writeAt {handle : Nat} {source : List Byte} {position : Int}
    (proper : PipeCall.Proper system (.call (.writeAt handle source position))) :
    Agree system sys (.call (.writeAt handle source position)) := by
  obtain ⟨file, there, usable, room⟩ := proper
  -- The tree has the same file at the handle.
  obtain ⟨twin, holds, also, shown⟩ := shows.held there usable
  obtain ⟨result, file', world, after, performed, stored, still, seek, found, kept⟩ :=
    shows.stores usable also shown room
  have moved := kept.move still file' found
  -- The handle is put back to where it is.
  have place : after.move handle twin file'.seekPosition = after := by
    obtain ⟨inside, here⟩ := List.getElem?_eq_some_iff.mp still
    have unmoved : after.files.set handle twin = after.files := by
      rw [← here, List.set_getElem_self inside]
    unfold TreeSystem.move
    rw [seek, ← shown.position, unmoved]
  rw [place] at moved
  refine ⟨⟨result, []⟩, _, _, ?_, ?_, moved⟩
  · -- The file system's call.
    simp only [System.use, there, Option.bind_eq_bind, Option.bind_some, performed]
    rfl
  · -- The tree's call.
    simp only [TreeSystem.use, holds, Option.bind_eq_bind, Option.bind_some, stored]
    rfl

/-- `ReadPipe` gives what is in the pipe. -/
theorem readPipe : Agree system sys .readPipe := by
  obtain ⟨into, world, performed, given, same⟩ :=
    System.perform_yields (FileSystem.readPipe_reads shows.sound)
  rw [← shows.pipe] at given
  subst given
  refine ⟨⟨sys.pipe.length, sys.pipe⟩, { system with world }, sys, ?_, rfl, shows.idle same⟩
  simp only [System.use, performed]
  rfl

/-- `WritePipe` replaces what is in the pipe, unless it is told to write nothing. -/
theorem writePipe {data : List Byte} (proper : PipeCall.Proper system (.writePipe data)) :
    Agree system sys (.writePipe data) := by
  have isFile := shows.isFile_pipe
  -- Nothing is written, and nothing changes.
  by_cases none : data = []
  · have onDisk : OnDisk pipeSector := by decide
    have idle : Fs.Reads system.world.disk (FileSystem.writePipe data) () := by
      unfold FileSystem.writePipe
      refine (OpenFile.new_reads onDisk).bind ((OpenFile.writeAt_idle ?_).bind
        (Fs.Reads.pure system.world.disk _))
      exact .inl (by rw [none]; rfl)
    obtain ⟨given, world, performed, -, same⟩ := System.perform_yields idle
    -- Neither side does anything.
    refine ⟨⟨0, []⟩, { system with world }, sys, ?_, ?_, shows.idle same⟩
    · simp only [System.use, performed]
      rfl
    · rw [TreeSystem.use, if_pos none]
  · -- The message goes into the pipe from its start.
    have affordable := proper 0 rfl none (isFile.ready shows.sound).laid.limit.1
    rw [Nat.zero_add] at affordable
    obtain ⟨given, world, performed, hdr', fresh, wrote⟩ := System.perform_yields
      (FileSystem.writePipe_yields shows.sound isFile (List.length_pos_iff.mpr none) affordable)
    -- The tree has no path to the pipe.
    have tree := wrote.fileTree_unnamed shows.sound isFile fun names found =>
      (shows.sound.tree.header_of_find found).2 .pipe
    have self := wrote.header_self shows.sound isFile.isHeader
    have kept := shows.wrote isFile wrote { sys with pipe := data } rfl
      (shows.tree.trans tree.symm) (by rw [self, wrote.contents_start])
    -- Both sides replace what is in the pipe.
    refine ⟨⟨0, []⟩, { system with world }, { sys with pipe := data }, ?_, ?_, kept⟩
    · simp only [System.use, performed]
      rfl
    · rw [TreeSystem.use, if_neg none]

/-- Every proper call gives the answer that the tree gives. -/
theorem agree {call : PipeCall} (proper : call.Proper system) : Agree system sys call := by
  cases call with
  | call made =>
    cases made with
    | create name kind => exact shows.create proper
    | «open» name => exact shows.openFile proper
    | remove name => exact shows.remove proper
    | seek handle position => exact shows.seek proper
    | read handle numBytes => exact shows.read proper
    | readAt handle numBytes position => exact shows.readAt proper
    | write handle source => exact shows.write proper
    | writeAt handle source position => exact shows.writeAt proper
  | readPipe => exact shows.readPipe
  | writePipe data => exact shows.writePipe proper

end Shows

/-- What is seen of a call: what was asked for, whether all sectors were taken, and the answer. -/
structure Seen where
  call : PipeCall
  full : Bool
  answer : Answer

/-- Make a call and go on. A call that aborts the kernel stops the machine. -/
def System.step (system : System World) (call : PipeCall) : Option (System World) :=
  (system.use World.serve call).map Prod.snd

/-- What is seen of one call. -/
def System.seen (system : System World) (call : PipeCall) (_ : System World) : List Seen :=
  ((system.use World.serve call).map fun given => ⟨call, system.full, given.1⟩).toList

namespace TreeSystem

/-- A tree with nothing but its root, and with whatever is in the pipe. -/
def new (pipe : List Byte) : TreeSystem where
  tree path := if path = [] then some .directory else none
  pipe
  files := []

/-- Go on with a call that has got the right answer. -/
noncomputable def follow (sys : TreeSystem) (seen : Seen) : Option TreeSystem :=
  (sys.use seen.full seen.call).bind fun given =>
    if given.1 = seen.answer then some given.2 else none

end TreeSystem

/-- The tree on a disk that has just been formatted has nothing but its root. -/
theorem fileTree_formatted {disk : Disk} {fs : FileSystem}
    (formatted : FileSystem.Formatted disk fs) (pipe : List Byte) :
    fileTree disk = (TreeSystem.new pipe).tree := by
  obtain ⟨given, systemOnly⟩ := formatted.systemOnly
  -- The root has no entries, since all are unused.
  have bare : ∀ name, (naming disk).lookup directorySector name = none := by
    intro name
    rw [Option.eq_none_iff_forall_ne_some]
    intro cell named
    obtain ⟨i, entry, -⟩ := entry_of_lookup named
    obtain ⟨⟨inside, inUse⟩, -⟩ := entry_eq_some.mp entry
    rw [systemOnly.empty i inside] at inUse
    cases inUse
  -- So only the empty path leads anywhere.
  funext path
  unfold TreeSystem.new fileTree
  by_cases root : path = []
  · subst root
    rfl
  · rw [Naming.tree_of_ne_nil root, Naming.find_of_lookup_none bare root]
    exact (if_neg root).symm

/-- A tree with nothing but its root shows a machine whose disk has just been formatted. -/
theorem Shows.formatted {world : World} {started : Session}
    (formats : Session.format world = some started) : Shows started.plain
      (.new ((headerAt started.disk pipeSector).contents started.disk)) := by
  have shelved := Session.Shelved.formatted formats
  have piped := Session.Piped.formatted formats
  obtain ⟨formatted, handles⟩ := Session.formatted formats
  refine ⟨piped.inOrder.sound, piped.inOrder.mounted, shelved.unique, piped.pipe,
    (fileTree_formatted formatted _).symm, rfl, fun handle => ?_⟩
  unfold Session.plain TreeSystem.new
  rw [handles]
  exact .none

/-- The record of a run has its calls, with the answers that they get. -/
theorem System.seen_run {calls : List PipeCall} : ∀ {system final : System World}
    {record seen : List Seen},
    replay (recording System.step System.seen) (system, record) calls = some (final, seen) →
    ∃ more, seen = record ++ more ∧ more.map Seen.call = calls ∧
      system.answers World.serve calls = more.map fun one => some one.answer := by
  -- By induction on the calls, each of which puts one more behind the record.
  induction calls with
  | nil =>
    intro system final record seen ran
    cases ran
    exact ⟨[], by simp, rfl, rfl⟩
  | cons call rest ih =>
    intro system final record seen ran
    obtain ⟨⟨next, longer⟩, stepped, ran⟩ := Option.bind_eq_some_iff.mp ran
    obtain ⟨went, added⟩ := recording_some stepped
    obtain ⟨⟨answer, after⟩, used, same⟩ := Option.map_eq_some_iff.mp went
    obtain rfl : next = after := same.symm
    -- The rest of the run has its own record.
    obtain ⟨more, all, calls, answers⟩ := ih ran
    -- The record of this call is its answer.
    have here : system.seen call next = [⟨call, system.full, answer⟩] := by
      unfold System.seen
      rw [used]
      rfl
    refine ⟨⟨call, system.full, answer⟩ :: more, ?_, ?_, ?_⟩
    · -- The record as a whole.
      dsimp only at added
      rw [all, added, here, List.append_assoc, List.singleton_append]
    · -- The calls are those of the run.
      rw [List.map_cons, calls]
    · -- The answers are those of the file system.
      unfold System.answers
      rw [used]
      simp only [answers, List.map_cons]

/-- A tree has followed what is in a record, and shows what there is now. -/
def Followed (start : TreeSystem) (record : System World × List Seen) : Prop :=
  ∃ sys, replay TreeSystem.follow start record.2 = some sys ∧ Shows record.1 sys

/-- A proper call of a machine whose tree has followed all calls before is followed, too. -/
theorem Followed.step {start : TreeSystem} {record : System World × List Seen} {call : PipeCall}
    (followed : Followed start record) (proper : call.Proper record.1) : ∃ next,
      recording System.step System.seen record call = some next ∧ Followed start next := by
  obtain ⟨sys, ran, shows⟩ := followed
  -- The tree agrees with the call that is made.
  obtain ⟨answer, next, after, used, also, kept⟩ := shows.agree proper
  have stepped : record.1.step call = some next := by
    unfold System.step
    -- So it follows what the machine records.
    rw [used]
    rfl
  have here : record.1.seen call next = [⟨call, record.1.full, answer⟩] := by
    unfold System.seen
    rw [used]
    rfl
  have follows : sys.follow ⟨call, record.1.full, answer⟩ = some after := by
    unfold TreeSystem.follow
    rw [also]
    exact if_pos rfl
  refine ⟨(next, record.2 ++ record.1.seen call next), ?_, after, ?_, kept⟩
  · -- The machine takes its step.
    unfold recording
    rw [stepped]
    rfl
  · -- And the tree one more.
    rw [here, replay_append ran, replay_cons follows]
    rfl

/--
The file system is a tree of named files.

A run of proper calls goes through, from a disk that has just been formatted. Every call gets the
answer that it gets from a tree, which in the end is the one that is on the disk. Behind the cache
of the disk, the answers are the same.
-/
theorem fileSystem_refinesTree {world : World} {started : Session} {calls : List PipeCall}
    (formats : Session.format world = some started)
    (proper : EveryStep System.step (fun system call => call.Proper system) started.plain calls) :
    ∃ final seen sys,
      replay (recording System.step System.seen) (started.plain, []) calls = some (final, seen) ∧
      seen.map Seen.call = calls ∧
      replay TreeSystem.follow
        (.new ((headerAt started.disk pipeSector).contents started.disk)) seen = some sys ∧
      sys.tree = fileTree final.world.disk ∧ sys.tree.Rooted ∧
      ∀ running : CachedWorld, running.Matches started.world →
        (started.cached running).answers CachedWorld.serve calls =
          seen.map fun one => some one.answer := by
  -- The tree starts out as the disk does, and follows the calls one by one.
  have begins : Followed (.new ((headerAt started.disk pipeSector).contents started.disk))
      (started.plain, []) := ⟨_, rfl, Shows.formatted formats⟩
  -- The lemma for one call carries the tree along the run.
  obtain ⟨⟨final, seen⟩, ran, sys, followed, shows⟩ :=
    replay_progress (fun _ _ followed proper => Followed.step followed proper) begins
      proper.recording
  obtain ⟨more, all, made, answers⟩ := System.seen_run ran
  rw [List.nil_append] at all
  subst all
  refine ⟨final, seen, sys, ran, made, followed, shows.tree, ?_, fun running same => ?_⟩
  · -- The tree is that of the disk, with the root at the empty path.
    rw [shows.tree]
    exact Naming.tree_rooted
  · -- With the cache, the answers are the same.
    have alike : Alike CachedWorld.Matches 0 (started.cached running) started.plain :=
      ⟨same, rfl, [], rfl, rfl⟩
    have unshifted : calls.map (PipeCall.shift 0) = calls := by
      rw [List.map_congr_left fun call _ => PipeCall.shift_zero call, List.map_id']
    rw [← answers, ← alike.answers CachedWorld.serve_simulates calls, unshifted]

/-- The pipe of a formatted disk is written, and a file is created and opened. -/
theorem fileSystem_refinesTree_newFile : ∃ started final seen sys,
    Session.format (World.ofDisk fun _ => .ofBytes []) = some started ∧
      replay (recording System.step System.seen) (started.plain, [])
        [.writePipe [7], .call (.create [97] .file), .call (.«open» [97]), .readPipe] =
          some (final, seen) ∧
      seen.map Seen.call =
        [.writePipe [7], .call (.create [97] .file), .call (.«open» [97]), .readPipe] ∧
      replay TreeSystem.follow
        (.new ((headerAt started.disk pipeSector).contents started.disk)) seen = some sys ∧
      sys.tree = fileTree final.world.disk ∧ sys.tree.Rooted ∧
      ∀ running : CachedWorld, running.Matches started.world →
        (started.cached running).answers CachedWorld.serve
          [.writePipe [7], .call (.create [97] .file), .call (.«open» [97]), .readPipe] =
            seen.map fun one => some one.answer := by
  -- The disk is formatted.
  obtain ⟨started, formats⟩ := Session.format_succeeds (World.ofDisk fun _ => .ofBytes [])
  obtain ⟨⟨⟨given, systemOnly⟩, -, free, -⟩, -⟩ := Session.formatted formats
  obtain ⟨laid, -⟩ := systemOnly.sound.laid pipeSector (.fixed .pipe)
  -- Almost all sectors are free, so there is room for a longer message.
  have enough : FileHeader.usedSlots (numDirect + numInDirect) ≤
      (freeMapOn started.disk).numClear := by
    rw [free]
    decide
  have room : PipeCall.Proper started.plain (.writePipe [7]) := by
    intro start here _ _
    obtain rfl : start = 0 := by omega
    exact OpenFile.affordable_free laid (by decide) enough
  -- Each call of the run is proper.
  have proper : EveryStep System.step (fun system call => call.Proper system) started.plain
      [.writePipe [7], .call (.create [97] .file), .call (.«open» [97]), .readPipe] :=
    ⟨room, fun _ _ => ⟨⟨by decide, .inl rfl, fun tight => nomatch tight.1⟩,
      fun _ _ => ⟨(by decide : components [97] ≠ []), fun _ _ => ⟨trivial, fun _ _ => trivial⟩⟩⟩⟩
  obtain ⟨final, seen, sys, all⟩ := fileSystem_refinesTree formats proper
  exact ⟨started, final, seen, sys, formats, all⟩

end Nachos
