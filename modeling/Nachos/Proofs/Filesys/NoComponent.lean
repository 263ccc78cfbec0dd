import Nachos.Filesys.CheckedPath
import Nachos.Proofs.Filesys.CheckedFile
import Nachos.Proofs.Filesys.DirectoryTree
import Nachos.Proofs.Filesys.FailedCreate

/-! Paths without components, and what the operations on paths do with all the others. -/

namespace Nachos

section Null

variable {path : List Byte}

/-- `skipelem` finds nothing exactly where there are no components. -/
theorem skipelem_eq_none : Directory.skipelem path = none ↔ components path = [] := by
  refine ⟨components_of_none, fun empty => ?_⟩
  -- A name that it finds would be a component.
  cases split : Directory.skipelem path with
  | none => rfl
  | some both =>
    rw [components_of_some split] at empty
    cases empty

namespace Directory

/-- On a path with a component, whatever the directory is, no null pointer is followed. -/
theorem checkedNamexWithin_eq (more : Nat) : ∀ (dir : Directory) (path : List Byte)
    (nameparent : Bool), components path ≠ [] →
      checkedNamexWithin more dir path nameparent =
        OptionT.lift (namexWithin more dir path nameparent) := by
  -- The rest of the path is looked up in another directory only if it has a component itself.
  induction more with
  | zero => exact fun _ _ _ _ => rfl
  | succ more ih =>
    intro dir path nameparent some
    obtain ⟨⟨name, rest⟩, split⟩ := Option.isSome_iff_exists.mp (skipelem_isSome some)
    unfold checkedNamexWithin namexWithin
    simp only [split]
    -- At the last component, both are done: with the directory, or with a lookup of the name.
    by_cases ends : rest.headD 0 = 0
    · rw [if_pos ends, if_pos ends]
      rfl
    have following : components rest ≠ [] := fun none => ends ((components_rest split).mp none)
    rw [if_neg ends, if_neg ends]
    -- A name that is not there ends the walk.
    by_cases there : dir.dirlookup name = -1
    · rw [if_pos there, if_pos there]
      rfl
    rw [if_neg there, if_neg there]
    -- The directory of that name is read, and the walk goes on in it.
    simp only [ih _ rest nameparent following, CheckedFs.lift_bind, CheckedFs.lift_ite]
    rfl

/-- A path without components makes `namex` follow a null pointer at once. -/
theorem checkedNamex_failure (none : components path = []) (dir : Directory) (nameparent : Bool) :
    dir.checkedNamex path nameparent = failure := by
  unfold checkedNamex checkedNamexWithin
  rw [skipelem_eq_none.mpr none]

/-- `namex` follows no null pointer exactly if the path has a component. -/
theorem checkedNamex_eq_iff (dir : Directory) (nameparent : Bool) :
    dir.checkedNamex path nameparent = OptionT.lift (dir.namex path nameparent) ↔
      components path ≠ [] := by
  refine ⟨fun same none => ?_, checkedNamexWithin_eq _ dir path nameparent⟩
  rw [checkedNamex_failure none] at same
  -- The one returns, where the other follows the null pointer.
  unfold namex namexWithin at same
  rw [skipelem_eq_none.mpr none] at same
  cases congrArg OptionT.run same

end Directory

end Null

variable {disk : Disk} {fs : FileSystem} {path : List Byte} {kind : FileType}

/--
The operations on a path return, with a failure where it does not lead to what they need.

A directory that would be made of the last two sectors is left out: that can stop the kernel for
another reason.
-/
structure HandlesPath (disk : Disk) (fs : FileSystem) (path : List Byte) : Prop where
  «open» : Fs.Yields disk (fs.«open» path) fun given _ =>
    (∀ sector, ¬ Session.Names disk path sector) → given = none
  create : ∀ kind, ¬ Session.Tight disk path kind → Fs.Yields disk (fs.create path kind)
    fun given _ => (∀ parent last, ¬ Leads disk directorySector path parent last) → given.1 = false
  remove : Fs.Yields disk (fs.remove path) fun given _ =>
    (∀ sector, ¬ Session.Names disk path sector) → given.1 = false
  find : Fs.Yields disk (fs.findPath path) fun given _ =>
    (∀ sector, ¬ Session.Names disk path sector) → given = -1
  add : ∀ newSector, InInt newSector → Fs.Yields disk (fs.directoryCall (.add path newSector))
    fun given _ => (∀ parent last, ¬ Leads disk directorySector path parent last) → given = false
  removeName : Fs.Yields disk (fs.directoryCall (.remove path)) fun given _ =>
    (∀ sector, ¬ Session.Names disk path sector) → given = false

namespace FileSystem

/-- Once its name is in a directory, a file of any further kind gets no header. -/
theorem createHeader_other {middle : Disk} {parent : Int} {dir : Directory} {freeMap : Bitmap}
    {sector : Nat} (sound : Sound disk) (mounted : fs.Mounted disk)
    (found : IsDirectory disk parent) (changed : Directory.Changed disk middle parent dir)
    (takes : (freeMapOn disk).Takes [sector] freeMap) (other : kind ≠ .file ∧ kind ≠ .dir) :
    Fs.Yields middle (fs.createHeader freeMap sector kind) fun _ _ => True := by
  -- Neither an ordinary file nor a directory is made: one sector is asked for, and no more.
  have sets : ∀ hdr, setUp hdr freeMap sector kind = (do
      let success ← Fs.allocate 1
      return (success.getD 0 0 ≠ 0, freeMap)) := by
    intro hdr
    cases kind with
    | file => exact absurd rfl other.1
    | dir => exact absurd rfl other.2
    | _ => rfl
  -- The file of the map is where it was, so the map can be written back.
  have same : mapHeader middle = mapHeader disk :=
    congrArg FileHeader.ofSector (changed.header sound.tree found (.fixed .freeMap))
  have mapFile : MapFile middle (mapHeader middle) := same ▸ sound.map.congr
  unfold createHeader
  refine (FileHeader.new_finds middle sector kind).bind fun hdr _ => ?_
  rw [sets, bind_assoc]
  refine (Fs.Finds.allocate middle 1).bind fun success _ => ?_
  rw [pure_bind]
  refine (PersistentBitmap.writeBack_yields mapFile (mounted.freeMap.trans same.symm)
    takes.numBits).bind fun _ _ _ => ?_
  exact Program.Yields.pure trivial

/-- `Create` returns, unless a directory would be made of the last two sectors. -/
theorem create_returns (sound : Sound disk) (mounted : fs.Mounted disk)
    (component : (Directory.skipelem path).isSome = true)
    (enough : ¬ Session.Tight disk path kind) : Fs.Yields disk (fs.create path kind) fun given _ =>
      given.1 = true → ∃ parent last, Leads disk directorySector path parent last := by
  -- Where nothing can be created, `Create` refuses and returns.
  by_cases creatable : ∃ parent last, Creatable disk path parent last
  swap
  · refine (create_refused sound mounted component fun parent last able =>
      creatable ⟨parent, last, able⟩).mono ?_
    rintro _ _ ⟨rfl, -⟩ created
    cases created
  obtain ⟨parent, last, able⟩ := creatable
  have leads : ∃ parent last, Leads disk directorySector path parent last :=
    ⟨parent, last, able.leads⟩
  -- The name is entered in any case; a kind that is not known only gets no header.
  by_cases ordinary : kind = .file ∨ kind = .dir
  · have provided := Session.provided_of_enough ordinary able enough
    exact (create_yields sound mounted able provided).mono fun _ _ _ _ => leads
  · obtain ⟨i, sector, freeMap, dir, takes, -, goesOn⟩ := create_goesOn sound mounted able kind
    refine goesOn.yields fun middle changed => ?_
    exact (createHeader_other sound mounted (able.leads.isDirectory .root) changed takes
      (not_or.mp ordinary)).mono fun _ _ _ _ => leads

/-- On a sound disk, every operation on a path with a component returns. -/
theorem handlesPath (sound : Sound disk) (mounted : fs.Mounted disk) (some : components path ≠ []) :
    HandlesPath disk fs path := by
  have component := skipelem_isSome some
  have root := rootDirectory_reads sound.readable mounted
  -- What a path does not name is looked up by all of them, and found by none.
  refine ⟨?opens, fun kind enough => ?creates, ?removes, ?finds, fun newSector small => ?adds,
    ?drops⟩
  case opens =>
    rcases sound.readable.find_cases component with ⟨parent, last, i, leads, named⟩ | absent
    · -- A path that does name a file is not what the condition is about.
      exact (open_reads sound mounted leads named).mono fun _ _ _ nameless =>
        absurd ⟨parent, last, i, leads, named, rfl⟩ (nameless _)
    · exact (open_absent sound mounted absent).mono fun _ _ given _ => given.1
  case creates =>
    refine (create_returns sound mounted component enough).mono fun given _ leads nowhere => ?_
    -- A file is only created in a directory that the path leads to.
    rw [← Bool.not_eq_true]
    intro created
    obtain ⟨parent, last, leads⟩ := leads created
    exact nowhere parent last leads
  case removes =>
    rcases sound.readable.find_cases component with ⟨parent, last, i, leads, named⟩ | absent
    · exact (remove_yields sound mounted leads named).mono fun _ _ _ nameless =>
        absurd ⟨parent, last, i, leads, named, rfl⟩ (nameless _)
    · exact (remove_absent sound mounted absent).mono fun _ _ given _ => congrArg Prod.fst given.1
  case finds =>
    refine root.bind ?_
    rcases sound.readable.find_cases component with ⟨parent, last, i, leads, named⟩ | absent
    · exact (Directory.find_leads sound.readable leads).mono fun _ _ _ nameless =>
        absurd ⟨parent, last, i, leads, named, rfl⟩ (nameless _)
    · exact absent.mono fun _ _ given _ => given.1
  case adds =>
    -- Any int may be added, even one that is no sector.
    refine root.bind ((Directory.changeParent_cases sound.tree component
      (Directory.tidy_add small)).mono ?_)
    rintro _ _ (⟨-, parent, last, -, leads, -⟩ | ⟨rfl, -⟩) nowhere
    · exact absurd leads (nowhere parent last)
    · rfl
  case drops =>
    refine root.bind ((Directory.changeParent_cases sound.tree component
      Directory.tidy_remove).mono ?_)
    rintro _ _ (⟨-, parent, last, dir, leads, removes, -⟩ | ⟨rfl, -⟩) nameless
    · obtain ⟨i, named, -⟩ := Option.map_eq_some_iff.mp removes
      exact absurd ⟨parent, last, i, leads, named, rfl⟩ (nameless _)
    · rfl

/-- `Open` does not return for a path without components. -/
theorem components_of_handlesPath (sound : Sound disk) (mounted : fs.Mounted disk)
    (handles : HandlesPath disk fs path) : components path ≠ [] := by
  intro none
  obtain ⟨_, _, ran, -⟩ := handles.«open» (World.ofDisk disk) rfl
  have refuses := (refuses_of_noComponent sound mounted (skipelem_eq_none.mpr none) .file).2.1
  -- It would have to return from a run that does not.
  rw [refuses (World.ofDisk disk) rfl] at ran
  cases ran

end FileSystem

/--
No null pointer of `skipelem` is followed exactly if the path has a component, whatever the
directory and the disk are. In every state of a careful run, these are the paths that are handled.
-/
theorem path_handled_iff (path : List Byte) :
    ((∀ (dir : Directory) (nameparent : Bool), dir.checkedNamex path nameparent =
        OptionT.lift (dir.namex path nameparent)) ↔ components path ≠ []) ∧
      ∀ {world : World} {started session : Session} {calls : List Call},
        Session.format world = some started →
        EveryStep Session.step (fun session call => call.Careful session) started calls →
        replay Session.step started calls = some session →
        (HandlesPath session.disk session.fs path ↔ components path ≠ []) := by
  refine ⟨⟨fun every => ?_, fun some dir nameparent =>
    (Directory.checkedNamex_eq_iff dir nameparent).mpr some⟩, fun formats careful ran => ?_⟩
  · -- Any directory will do, for instance an empty one.
    exact (Directory.checkedNamex_eq_iff ⟨0, []⟩ false).mp (every _ _)
  · -- In a careful run, all that matters of the state is that the disk is sound.
    obtain ⟨sound, mounted⟩ := Session.InOrder.run formats careful ran
    exact ⟨FileSystem.components_of_handlesPath sound mounted,
      FileSystem.handlesPath sound mounted⟩

/-- A path with slashes around its one component is handled after that name was created. -/
theorem path_handled_slashes : ∃ started session,
    Session.format (World.ofDisk fun _ => .ofBytes []) = some started ∧
      replay Session.step started [.create [97] .file] = some session ∧
      HandlesPath session.disk session.fs [47, 97, 47] := by
  obtain ⟨started, session, formats, careful, ran, -⟩ :=
    Session.nesting_succeeds (World.ofDisk fun _ => .ofBytes []) (Nat.zero_le 336)
  exact ⟨started, session, formats, ran,
    ((path_handled_iff [47, 97, 47]).2 formats careful ran).mpr (by decide)⟩

/-- On a disk that has just been formatted, the empty path and that of two slashes are followed. -/
theorem path_followsNull : ∃ started,
    Session.format (World.ofDisk fun _ => .ofBytes []) = some started ∧
      ∀ path ∈ [[], [47, 47]], ¬ HandlesPath started.disk started.fs path ∧
        ∀ (dir : Directory) (nameparent : Bool), dir.checkedNamex path nameparent = failure := by
  obtain ⟨started, formats⟩ := Session.format_succeeds (World.ofDisk fun _ => .ofBytes [])
  have inOrder := (Session.Accounted.formatted formats).inOrder
  refine ⟨started, formats, fun path member => ?_⟩
  have none : components path = [] := by
    rcases List.mem_pair.mp member with rfl | rfl
    · decide
    · decide
  exact ⟨fun handles => FileSystem.components_of_handlesPath inOrder.sound inOrder.mounted handles none,
    fun dir nameparent => Directory.checkedNamex_failure none dir nameparent⟩

end Nachos
