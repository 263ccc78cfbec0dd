import Nachos.Proofs.Filesys.DirectoryTree
import Nachos.Proofs.Filesys.Listing

/-! Stored names: which of them end in their entries, and as what they are shown. -/

namespace Nachos

/-- The components of a path, with all their characters. -/
def texts (path : List Byte) : List (List Byte) :=
  ((path.takeWhile (· ≠ 0)).splitOn slash).filter (· ≠ [])

/-- A name that has been put into an entry of a directory, with all its characters. -/
structure AddedName where
  directory : Int
  entry : Nat
  name : List Byte

/-- The name that a call has added, and where it has been put. -/
def Session.added (session : Session) (call : DirectoryCall) (next : Session) : List AddedName :=
  match call with
  | .add path _ => Option.toList do
    let parent ← (naming session.disk).walk directorySector (components path).dropLast
    let name ← (texts path).getLast?
    let entry ← (dirAt session.disk parent).firstFree
    -- The name has been added exactly if the first free entry is free no longer.
    guard ((dirAt next.disk parent).inUse entry)
    return ⟨parent, entry, name⟩
  | _ => []

/-- The name that was put into an entry last. -/
def nameAdded (history : List AddedName) (sector : Int) (i : Nat) : Option (List Byte) :=
  (history.reverse.find? fun added => added.directory = sector ∧ added.entry = i).map AddedName.name

/-- Each name of a directory ends in its field, and is shown as the front part of what was added. -/
structure NamesEnd (disk : Disk) (history : List AddedName) (sector : Int) : Prop where
  ends : ∀ i ∈ (dirAt disk sector).used, 0 ∈ (dirAt disk sector).nameField i
  shown : ∃ names : Nat → List Byte,
    (∀ i ∈ (dirAt disk sector).used, nameAdded history sector i = some (names i)) ∧
      (dirAt disk sector).list =
        some ((dirAt disk sector).used.map fun i => (names i).take fileNameMaxLen) ∧
      (dirAt disk sector).printEntries = some ((dirAt disk sector).used.map fun i =>
        ((names i).take fileNameMaxLen, (dirAt disk sector).entrySector i))

/-- A call with a header that is new, or a write where it is free. -/
def DirectoryCall.Promised (session : Session) : DirectoryCall → Prop
  | .add _ newSector => FreshHeader session.disk session.disk newSector
  | .remove _ => True
  | .prepare sector _ => ∀ owner, ¬ Owns session.disk owner sector

/-- If a name of the greatest length is to be added, the last byte of the entry for it is 0. -/
def DirectoryCall.EndsName (session : Session) : DirectoryCall → Prop
  | .add path _ => ∀ parent last i, Addable session.disk path parent last →
    (dirAt session.disk parent).firstFree = some i →
      last.length < fileNameMaxLen ∨ (dirAt session.disk parent).lastByte i = 0
  | _ => True

variable {disk after : Disk} {parent : Int} {path last : List Byte} {i : Nat} {newSector : Int}

section Entries

/-- This holds of the name and the last byte of each entry in use, in each directory. -/
def EachEntry (disk : Disk) (property : Int → Nat → List Byte → Byte → Prop) : Prop :=
  ∀ sector, IsDirectory disk sector → ∀ i ∈ (dirAt disk sector).used,
    property sector i ((dirAt disk sector).entryName i) ((dirAt disk sector).lastByte i)

variable {property later : Int → Nat → List Byte → Byte → Prop}
  (each : EachEntry disk property) (tree : Tree disk)

include each tree

/-- One more entry is in use, and the others have the names and last bytes that they had. -/
theorem EachEntry.gains (gains : Gains disk after parent last i newSector)
    (found : IsDirectory disk parent)
    (adds : (dirAt disk parent).addInCurrentDir last newSector = some (dirAt after parent))
    (cut : cString fileNameMaxLen last = last)
    (new : later parent i last ((dirAt disk parent).lastByte i))
    (others : ∀ sector j name byte, ¬ (sector = parent ∧ j = i) →
      property sector j name byte → later sector j name byte) : EachEntry after later := by
  -- One directory has changed, and a new one may have been added to the tree.
  intro sector isDirectory j used
  obtain ⟨inside, inUse⟩ := Directory.mem_used.mp used
  rcases ((gains.adds tree found).directory_iff sector).mp isDirectory with before | ⟨rfl, listing⟩
  swap
  · -- A new directory has no entries in use.
    rw [(gains.fresh.dir listing).2 j inside] at inUse
    cases inUse
  by_cases here : sector = parent
  swap
  · rw [gains.changed.dirAt_other tree before here] at used ⊢
    exact others _ _ _ _ (fun both => here both.1) (each sector before j used)
  subst here
  rw [gains.entered.entryName, Directory.lastByte_addInCurrentDir adds]
  -- In the directory that has changed, the new entry is told from the others.
  by_cases same : j = i
  · subst same
    rw [if_pos rfl, cut]
    exact new
  · -- Every other entry was in use before.
    rw [gains.entered.inUse, decide_eq_false same, Bool.false_or] at inUse
    rw [if_neg same]
    exact others _ _ _ _ (fun both => same both.2)
      (each sector before j (Directory.mem_used.mpr ⟨inside, inUse⟩))

/-- One entry is in use no longer. -/
theorem EachEntry.loses (loses : Loses disk after parent i) (inside : i < numDirEntries) :
    -- What is in use afterwards was in use before.
    EachEntry after property := by
  intro sector isDirectory j used
  have before :=
    (loses.isHeader_old tree inside (isHeader_of_directory isDirectory)).2 sector isDirectory
  -- The entry that was cleared is in the parent.
  by_cases here : sector = parent
  · subst here
    have table := Directory.length_table_dirAt disk sector
    rw [Directory.mem_used, loses.dir, Directory.inUse_setInUse] at used
    rw [loses.dir, Directory.entryName_setInUse table inside, Directory.lastByte_setInUse]
    obtain ⟨within, inUse⟩ := used
    -- The entry that has been cleared is not in use, and the others are as they were.
    by_cases same : j = i
    · rw [if_pos same] at inUse
      cases inUse
    · rw [if_neg same] at inUse
      exact each sector before j (Directory.mem_used.mpr ⟨within, inUse⟩)
  · -- The other directories have not changed.
    rw [loses.changed.dirAt_other tree before here] at used ⊢
    exact each sector before j used

/-- No directory has changed. -/
theorem EachEntry.kept (kept : OwnedKept disk after) : EachEntry after property := by
  intro sector isDirectory j used
  have before := (kept.isDirectory_iff tree sector).mp isDirectory
  rw [kept.dirAt_same tree before] at used ⊢
  exact each sector before j used

end Entries

section Steps

/-- A name has been put into the first free entry of the directory that a path leads into. -/
structure Enters (disk after : Disk) (path : List Byte) (newSector parent : Int) (i : Nat)
    (last : List Byte) : Prop where
  able : Addable disk path parent last
  free : (dirAt disk parent).firstFree = some i
  gains : Gains disk after parent last i newSector
  adds : (dirAt disk parent).addInCurrentDir last newSector = some (dirAt after parent)

/-- The last component of a path is the front part of its last text. -/
theorem text_of_component {names : List (List Byte)} (split : components path = names ++ [last]) :
    ∃ name, (texts path).getLast? = some name ∧ name.take fileNameMaxLen = last := by
  have cut : components path = (texts path).map (·.take fileNameMaxLen) := rfl
  -- Components are texts that have been cut, one by one.
  have ended := List.getLast?_concat (l := names) (a := last)
  rw [← split, cut, List.getLast?_map, Option.map_eq_some_iff] at ended
  exact ended

namespace Session

variable {session next : Session} {call : DirectoryCall}

/-- What has been added is recorded with all its characters. -/
theorem added_of_enters (tree : Tree session.disk)
    (enters : Enters session.disk next.disk path newSector parent i last) :
    ∃ name, (texts path).getLast? = some name ∧ name.take fileNameMaxLen = last ∧
      session.added (.add path newSector) next = [⟨parent, i, name⟩] := by
  obtain ⟨names, split, led⟩ := (tree.readable.leads_iff_walk .root).mp enters.able.leads
  obtain ⟨name, ended, cut⟩ := text_of_component split
  -- The record looks where the path leads, and at the entry that is free there.
  have inUse : (dirAt next.disk parent).inUse i = true := by
    rw [enters.gains.entered.inUse, decide_eq_true rfl, Bool.true_or]
  refine ⟨name, ended, cut, ?_⟩
  simp [added, split, led, ended, enters.free, inUse]

/-- Nothing is recorded if the directories are as they were. -/
theorem added_of_same (same : next.disk = session.disk) : session.added call next = [] := by
  cases call with
  | add path newSector =>
    rw [added, Option.toList_eq_nil_iff, same]
    simp only [Option.bind_eq_bind, Option.bind_eq_none_iff]
    intro parent _ name _ entry first
    -- The first free entry is still free.
    rw [(Directory.firstFree_eq_some.mp first).2.1]
    exact fun _ passed => nomatch passed
  | remove path => rfl
  | prepare sector data => rfl

/-- The path of a call that has ended had a component. -/
theorem Shelved.proper (shelved : session.Shelved) (promised : call.Promised session)
    (stepped : session.directoryStep call = some next) : call.Proper session := by
  obtain ⟨⟨value, ended⟩, performed, rfl⟩ := Option.map_eq_some_iff.mp stepped
  have root := FileSystem.rootDirectory_reads shelved.tree.readable shelved.mounted
  -- Both calls look the path up first, and follow a null pointer if there is no component.
  cases call with
  | add path newSector =>
    refine ⟨components_of_isSome (component_of_performed (fun none => ?_) performed), promised⟩
    exact root.bind_refuses ((Directory.find_refuses _ none).2 _)
  | remove path =>
    refine components_of_isSome (component_of_performed (fun none => ?_) performed)
    exact root.bind_refuses ((Directory.find_refuses _ none).2 _)
  | prepare sector data => exact promised

/-- What a call does: it enters a name, or clears an entry, or leaves all directories as they are. -/
theorem Shelved.step_cases (shelved : session.Shelved) (promised : call.Promised session)
    (stepped : session.directoryStep call = some next) :
    (∃ path newSector parent i last name, call = .add path newSector ∧
        Enters session.disk next.disk path newSector parent i last ∧
        name.take fileNameMaxLen = last ∧ session.added call next = [⟨parent, i, name⟩]) ∨
      (session.added call next = [] ∧ ((∃ parent, ∃ i < numDirEntries,
        Loses session.disk next.disk parent i) ∨ OwnedKept session.disk next.disk)) := by
  have proper := shelved.proper promised stepped
  obtain ⟨tree, -, mounted⟩ := shelved
  obtain ⟨⟨value, ended⟩, performed, rfl⟩ := Option.map_eq_some_iff.mp stepped
  cases call with
  | add path newSector =>
    -- Either the name has been entered, or nothing has changed at all.
    rcases (perform_holds (add_changes tree mounted proper.1 proper.2) performed).1 with
      ⟨-, parent, last, i, able, gains, before, adds⟩ | ⟨-, same, -⟩
    · have free := Directory.firstFree_eq_some.mpr
        ⟨gains.entered.inside, gains.entered.free, before⟩
      -- The entry is the first one that was free.
      have enters : Enters session.disk ended.disk path newSector parent i last :=
        ⟨able, free, gains, adds⟩
      obtain ⟨name, -, cut, recorded⟩ := added_of_enters tree enters
      exact .inl ⟨path, newSector, parent, i, last, name, rfl, enters, cut, recorded⟩
    · -- Where nothing is entered the disk is as it was.
      exact .inr ⟨added_of_same same, .inr fun _ s _ => congrFun same s⟩
  -- A removal adds no name, and clears an entry or nothing.
  | remove path =>
    refine .inr ⟨rfl, ?_⟩
    rcases (perform_holds (remove_yields tree mounted proper) performed).1 with
      ⟨-, parent, last, i, -, named, loses⟩ | ⟨-, same, -⟩
    · exact .inl ⟨parent, i, (Directory.findIndex_some named).1, loses⟩
    · exact .inr fun _ s _ => congrFun same s
  -- A sector that is prepared belongs to no directory.
  | prepare sector data => exact .inr ⟨rfl, .inr (ownedKept_of_prepare proper performed).1⟩

/-- Where there is no such name yet, and an entry for it, `Add` puts it there. -/
theorem Shelved.enters (shelved : session.Shelved)
    (fresh : FreshHeader session.disk session.disk newSector)
    (able : Addable session.disk path parent last)
    (free : (dirAt session.disk parent).firstFree = some i) :
    ∃ next, session.directoryStep (.add path newSector) = some next ∧
      Enters session.disk next.disk path newSector parent i last := by
  obtain ⟨tree, -, mounted⟩ := shelved
  obtain ⟨names, split, -⟩ := (tree.readable.leads_iff_walk .root).mp able.leads
  have some : components path ≠ [] := by simp [split]
  -- The call returns, since the path has a component and the sector is new.
  obtain ⟨added, next, performed, outcome, -⟩ :=
    perform_yields (add_changes tree mounted some fresh)
  refine ⟨next, by rw [directoryStep, performed]; rfl, ?_⟩
  rcases outcome with ⟨-, parent', last', i', able', gains, before, adds⟩ | ⟨-, -, unable⟩
  · -- The path leads to one place only, and one entry is the first that is free.
    obtain ⟨rfl, rfl⟩ := able.leads.unique able'.leads
    have free' := Directory.firstFree_eq_some.mpr ⟨gains.entered.inside, gains.entered.free, before⟩
    cases free.symm.trans free'
    exact ⟨able, free, gains, adds⟩
  · -- It cannot have been refused.
    exact absurd able (unable parent last)

end Session

end Steps

section Runs

/-- The name in an entry is the front part of the one that was added there. -/
def NameRecorded (history : List AddedName) (sector : Int) (i : Nat) (name : List Byte) (_ : Byte) :
    Prop :=
  ∃ full, nameAdded history sector i = some full ∧ full.take fileNameMaxLen = name

/-- The name in an entry ends in its field. -/
def NameEnds (_ : Int) (_ : Nat) (name : List Byte) (last : Byte) : Prop :=
  name.length < fileNameMaxLen ∨ last = 0

/-- What is added to an entry is what was added there last. -/
theorem nameAdded_concat (history : List AddedName) (added : AddedName) (sector : Int) (i : Nat) :
    nameAdded (history ++ [added]) sector i =
      if sector = added.directory ∧ i = added.entry then some added.name
      else nameAdded history sector i := by
  unfold nameAdded
  rw [List.reverse_concat, List.find?_cons]
  -- The last name that was added is looked at first.
  by_cases same : sector = added.directory ∧ i = added.entry
  · rw [if_pos same, decide_eq_true ⟨same.1.symm, same.2.symm⟩]
    rfl
  · rw [if_neg same, decide_eq_false fun both => same ⟨both.1.symm, both.2.symm⟩]

/-- A session that is in order, and the names that have been added in it. -/
structure Labelled (record : Session × List AddedName) : Prop where
  shelved : record.1.Shelved
  recorded : EachEntry record.1.disk (NameRecorded record.2)

/-- The root directory of a formatted disk has no entry of which anything could be wrong. -/
theorem eachEntry_formatted {world : World} {started : Session}
    (formats : Session.format world = some started) (property : Int → Nat → List Byte → Byte → Prop) :
    EachEntry started.disk property := by
  obtain ⟨⟨⟨given, systemOnly⟩, -, -, -⟩, -⟩ := Session.formatted formats
  intro sector isDirectory i used
  obtain ⟨inside, inUse⟩ := Directory.mem_used.mp used
  rw [systemOnly.isDirectory isDirectory, systemOnly.empty i inside] at inUse
  cases inUse

variable {record next : Session × List AddedName} {call : DirectoryCall}

/-- Each call keeps the record. -/
theorem Labelled.step (labelled : Labelled record) (promised : call.Promised record.1)
    (stepped : recording Session.directoryStep Session.added record call = some next) :
    Labelled next := by
  obtain ⟨shelved, recorded⟩ := labelled
  obtain ⟨went, grown⟩ := recording_some stepped
  refine ⟨shelved.step (shelved.proper promised went) went, ?_⟩
  rcases shelved.step_cases promised went with
    ⟨path, newSector, parent, i, last, name, -, enters, cut, added⟩ | ⟨added, removes⟩
  -- The new name is recorded, and hides no name of another entry.
  · rw [grown, added]
    refine recorded.gains shelved.tree enters.gains (enters.able.leads.isDirectory .root) enters.adds
      enters.able.leads.cut ⟨name, ?_, cut⟩ fun sector j short byte apart known => ?_
    · rw [nameAdded_concat, if_pos ⟨rfl, rfl⟩]
    · obtain ⟨full, same, cut⟩ := known
      exact ⟨full, by rw [nameAdded_concat, if_neg apart, same], cut⟩
  -- Where no name was added, the record is the one from before.
  · rw [grown, added, List.append_nil]
    rcases removes with ⟨parent, i, inside, loses⟩ | kept
    · exact recorded.loses shelved.tree loses inside
    · exact recorded.kept shelved.tree kept

/-- As long as a name of the greatest length finds a 0 behind it, all names end in their fields. -/
theorem EachEntry.ended_step {session next : Session} (ended : EachEntry session.disk NameEnds)
    (shelved : session.Shelved) (promised : call.Promised session) (ends : call.EndsName session)
    (stepped : session.directoryStep call = some next) : EachEntry next.disk NameEnds := by
  -- Only the name that is added is new, and the guard is about it.
  rcases shelved.step_cases promised stepped with
    ⟨path, newSector, parent, i, last, name, rfl, enters, -, -⟩ | ⟨-, ⟨parent, i, inside, loses⟩ | kept⟩
  · exact ended.gains shelved.tree enters.gains (enters.able.leads.isDirectory .root) enters.adds
      enters.able.leads.cut (ends parent last i enters.able enters.free)
      fun _ _ _ _ _ before => before
  · exact ended.loses shelved.tree loses inside
  · exact ended.kept shelved.tree kept

/-- A name that ends in the entry that it was put into leaves room for a 0, or has found one. -/
theorem Enters.ended (enters : Enters disk after path newSector parent i last) (tree : Tree disk)
    (ended : EachEntry after NameEnds) :
    last.length < fileNameMaxLen ∨ (dirAt disk parent).lastByte i = 0 := by
  have found := enters.able.leads.isDirectory .root
  have entered := enters.gains.entered
  have still := ((enters.gains.adds tree found).directory_iff parent).mpr (.inl found)
  have used : i ∈ (dirAt after parent).used :=
    Directory.mem_used.mpr ⟨entered.inside, by rw [entered.inUse, decide_eq_true rfl, Bool.true_or]⟩
  -- The entry has this name now, and the last byte that it had before.
  have here := ended parent still i used
  rwa [entered.entryName, if_pos rfl, enters.able.leads.cut,
    Directory.lastByte_addInCurrentDir enters.adds] at here

/-- All names are stored and shown as they should be exactly if each ends in its field. -/
theorem Labelled.namesEnd_iff (labelled : Labelled record) :
    (∀ sector, IsDirectory record.1.disk sector → NamesEnd record.1.disk record.2 sector) ↔
      EachEntry record.1.disk NameEnds := by
  -- Whether a field ends is seen in the entry.
  have field : ∀ sector, ∀ i ∈ (dirAt record.1.disk sector).used,
      (0 ∈ (dirAt record.1.disk sector).nameField i ↔ NameEnds sector i
        ((dirAt record.1.disk sector).entryName i) ((dirAt record.1.disk sector).lastByte i)) :=
    fun sector i used => Directory.zero_mem_nameField
      (Directory.length_table_dirAt record.1.disk sector) (Directory.mem_used.mp used).1
  -- Where names end is a matter of the disk alone, and what they should be of the record.
  constructor
  · -- One way: the fields that end are the entries that end.
    exact fun all sector found i used => (field sector i used).mp ((all sector found).ends i used)
  · -- The other way: the names are listed as they were added, so far as they are stored.
    intro ended sector found
    have ends : ∀ i ∈ (dirAt record.1.disk sector).used, 0 ∈ (dirAt record.1.disk sector).nameField i :=
      fun i used => (field sector i used).mpr (ended sector found i used)
    -- Where the fields end, the list shows the stored names.
    obtain ⟨list, print⟩ :=
      Directory.list_eq (Directory.length_table_dirAt record.1.disk sector) ends
    -- What is compared of a name is the front part of what was added.
    obtain ⟨names, known⟩ : ∃ names : Nat → List Byte, ∀ i ∈ (dirAt record.1.disk sector).used,
        nameAdded record.2 sector i = some (names i) ∧
          (dirAt record.1.disk sector).entryName i = (names i).take fileNameMaxLen := by
      -- The names are taken from the record.
      refine ⟨fun i => (nameAdded record.2 sector i).getD [], fun i used => ?_⟩
      obtain ⟨full, same, cut⟩ := labelled.recorded sector found i used
      dsimp only
      rw [same]
      exact ⟨rfl, cut.symm⟩
    -- The list and the print are those of the names in the record.
    refine ⟨ends, names, fun i used => (known i used).1, ?_, ?_⟩
    · rw [list, List.map_congr_left fun i used => (known i used).2]
    · refine print.trans (congrArg some (List.map_congr_left fun i used => ?_))
      rw [(known i used).2]

/-- Both the record and the ends of the names are kept by calls that leave a 0 behind each name. -/
theorem Labelled.run {world : World} {started : Session} {calls : List DirectoryCall}
    (formats : Session.format world = some started)
    (promised : EveryStep Session.directoryStep (fun session call => call.Promised session) started calls)
    (ran : replay (recording Session.directoryStep Session.added) (started, []) calls = some record) :
    Labelled record ∧ (EveryStep Session.directoryStep (fun session call => call.EndsName session)
      started calls → EachEntry record.1.disk NameEnds) := by
  -- There are no names at first, neither in the record nor in the root directory.
  have labelled : Labelled (started, []) :=
    ⟨Session.Shelved.formatted formats, eachEntry_formatted formats _⟩
  refine ⟨replay_guarded (fun _ _ _ labelled promised stepped => labelled.step promised stepped)
    labelled (EveryStep.recording promised) ran, fun ends => ?_⟩
  -- A step that keeps the record keeps the ends of the names as well.
  have kept : ∀ (record : Session × List AddedName) (call : DirectoryCall) next,
      Labelled record ∧ EachEntry record.1.disk NameEnds →
      call.Promised record.1 ∧ call.EndsName record.1 →
      recording Session.directoryStep Session.added record call = some next →
        Labelled next ∧ EachEntry next.1.disk NameEnds := fun record call next holds guards stepped =>
    ⟨holds.1.step guards.1 stepped,
      holds.2.ended_step holds.1.shelved guards.1 guards.2 (recording_some stepped).1⟩
  have guarded : EveryStep (recording Session.directoryStep Session.added)
      -- Both conditions hold at each step of the recorded run.
      (fun record call => call.Promised record.1 ∧ call.EndsName record.1) (started, []) calls :=
    (EveryStep.recording promised).and (EveryStep.recording ends)
  exact (replay_guarded kept ⟨labelled, eachEntry_formatted formats _⟩ guarded ran).2

end Runs

section FirstFile

/-- A formatted disk has its root directory as memory held it, but that no entry is in use. -/
theorem Session.root_formatted {world : World} {started : Session}
    (formats : Session.format world = some started) : dirAt started.disk directorySector =
      (List.range numDirEntries).foldl (fun dir i => dir.setInUse i false)
        ⟨directorySector, world.surroundings.leftover world.asked directoryFileSize⟩ := by
  obtain ⟨⟨fs, final⟩, ran, rfl⟩ := Option.map_eq_some_iff.mp formats
  obtain ⟨rest, parts, yields⟩ := FileSystem.format_parts
  -- The directory is made in the memory that is handed out first.
  rw [parts, Program.run_bind] at ran
  have fresh := (Directory.new_finds world.disk directorySector).holds rfl
    (show (Directory.new directorySector).run World.serve world = some (_, _) from rfl)
  -- What is in memory then is what the disk has in the end.
  exact ((yields _ _ fresh.2.1 fresh.2.2.1 fresh.2.2.2).holds rfl ran).2

/-- The first file of a formatted disk gets the first entry of the root directory. -/
theorem Session.firstFile {world : World} {started : Session}
    (formats : Session.format world = some started) {name : List Byte}
    (single : texts path = [name]) : ∃ newSector data middle session,
      started.directoryStep (.prepare newSector data) = some middle ∧
      middle.directoryStep (.add path newSector) = some session ∧
      EveryStep Session.directoryStep (fun session call => call.Promised session) started
        [.prepare newSector data, .add path newSector] ∧
      replay (recording Session.directoryStep Session.added) (started, [])
        [.prepare newSector data, .add path newSector] =
          some (session, [⟨directorySector, 0, name⟩]) ∧
      dirAt middle.disk directorySector = dirAt started.disk directorySector ∧
      Enters middle.disk session.disk path newSector directorySector 0 (name.take fileNameMaxLen) := by
  obtain ⟨newSector, middle, prepares, unowned, fresh, kept⟩ := Session.prepare_succeeds formats
  -- The header of the new file is prepared first.
  generalize (FileHeader.ofSectors newSector [] 0).toSector = data at prepares
  have promised : DirectoryCall.Promised started (.prepare newSector data) := unowned
  -- The directories are in order after it as before.
  have begun := Session.Shelved.formatted formats
  have shelved := begun.step (begun.proper promised prepares) prepares
  have same := kept.dirAt_same begun.tree .root
  obtain ⟨⟨⟨given, systemOnly⟩, -, -, -⟩, -⟩ := Session.formatted formats
  -- Writing the header has changed nothing in the root directory, which is empty.
  have empty : ∀ i < numDirEntries, (dirAt middle.disk directorySector).inUse i = false :=
    fun i inside => by rw [same]; exact systemOnly.empty i inside
  -- The path is one name, which leads to the root.
  have split : components path = [] ++ [name.take fileNameMaxLen] := congrArg (List.map _) single
  have able : Addable middle.disk path directorySector (name.take fileNameMaxLen) := by
    refine ⟨(shelved.tree.readable.leads_iff_walk .root).mpr ⟨[], split, rfl⟩,
      -- No entry has the name, and the first one is free.
      Directory.findIndex_eq_none.mpr fun i inside inUse => ?_, 0, by decide, empty 0 (by decide)⟩
    rw [empty i inside] at inUse
    cases inUse
  have free : (dirAt middle.disk directorySector).firstFree = some 0 :=
    Directory.firstFree_eq_some.mpr ⟨by decide, empty 0 (by decide), fun j before => by omega⟩
  -- So the name is entered there.
  obtain ⟨session, stepped, enters⟩ := shelved.enters fresh able free
  have also : DirectoryCall.Promised middle (.add path newSector) := fresh
  -- What is recorded of the call is this name.
  obtain ⟨name', last, -, added⟩ := Session.added_of_enters shelved.tree enters
  rw [single] at last
  cases last
  refine ⟨newSector, data, middle, session, prepares, stepped,
    .cons prepares promised (.cons stepped also trivial), ?_, same, enters⟩
  -- The first call adds no name, and the second one adds this name.
  have first : recording Session.directoryStep Session.added (started, [])
      (.prepare newSector data) = some (middle, []) := by
    rw [recording, prepares]
    rfl
  have second : recording Session.directoryStep Session.added (middle, [])
      (.add path newSector) = some (session, [⟨directorySector, 0, name⟩]) := by
    rw [recording, stepped, Option.map_some, added]
    rfl
  rw [replay_cons first, replay_cons second]
  rfl

end FirstFile

/--
Stored names end in their entries exactly if a 0 is left behind each name of the greatest length.

In a run from a formatted disk, whatever is in memory: each name in use of each directory ends in its
field and is shown as the front part of the name that was added, in every state that is reached, if
and only if wherever `Add` puts a name of the greatest length, the last byte of the entry is 0.
-/
theorem storedNames_end_iff {world : World} {started : Session} {calls : List DirectoryCall}
    (formats : Session.format world = some started)
    (promised : EveryStep Session.directoryStep (fun session call => call.Promised session)
      started calls) :
    EveryStep Session.directoryStep (fun session call => call.EndsName session) started calls ↔
      ∀ front session history, front <+: calls →
        replay (recording Session.directoryStep Session.added) (started, []) front =
          some (session, history) →
        ∀ sector, IsDirectory session.disk sector → NamesEnd session.disk history sector := by
  constructor
  · -- One way: the ends are kept by the run, and with them the names.
    rintro ends front session history ⟨rest, rfl⟩ ran
    obtain ⟨labelled, ended⟩ := Labelled.run formats promised.split.1 ran
    exact labelled.namesEnd_iff.mpr (ended ends.split.1)
  · -- The other way: the names end after each call, that is after the call that is looked at.
    intro all
    refine everyStep_of_after fun front call rest session split ran => ?_
    subst split
    cases call with
    | remove path => trivial
    | prepare sector data => trivial
    | add path newSector =>
      intro parent last i able free
      -- The call puts the name into this entry, and the name ends there afterwards.
      obtain ⟨history, recorded⟩ : ∃ history, replay (recording Session.directoryStep Session.added)
          (started, []) front = some (session, history) := replay_recording ran []
      obtain ⟨labelled, -⟩ := Labelled.run formats promised.split.1 recorded
      have fresh : DirectoryCall.Promised session (.add path newSector) := promised.after ran
      obtain ⟨next, stepped, enters⟩ := labelled.shelved.enters fresh able free
      have added : recording Session.directoryStep Session.added (session, history)
          (.add path newSector) =
            -- The run goes on by this call.
            some (next, history ++ session.added (.add path newSector) next) := by
        rw [recording, stepped]
        rfl
      have further : replay (recording Session.directoryStep Session.added) (started, [])
          (front ++ [.add path newSector]) =
            some (next, history ++ session.added (.add path newSector) next) := by
        rw [replay_append recorded, replay_cons added]
        rfl
      -- The names end after it, and with them the entries.
      have names := all (front ++ [.add path newSector]) next _ ⟨rest, by simp⟩ further
      have ended := (labelled.step fresh added).namesEnd_iff.mp names
      exact enters.ended labelled.shelved.tree ended

/-- A name of twelve letters is cut to nine, and ends in its entry if all memory was zero. -/
theorem storedNames_end_twelveLetters : ∃ started session newSector data,
    Session.format (World.ofDisk fun _ => .ofBytes []) = some started ∧
      replay (recording Session.directoryStep Session.added) (started, [])
        [.prepare newSector data, .add (.replicate 12 97) newSector] =
          some (session, [⟨directorySector, 0, .replicate 12 97⟩]) ∧
      NamesEnd session.disk [⟨directorySector, 0, .replicate 12 97⟩] directorySector := by
  -- A disk is formatted in a memory of zeros.
  obtain ⟨started, formats⟩ := Session.format_succeeds (World.ofDisk fun _ => .ofBytes [])
  obtain ⟨newSector, data, middle, session, prepares, stepped, promised, ran, same, enters⟩ :=
    Session.firstFile formats (show texts (.replicate 12 97) = [.replicate 12 97] by decide)
  -- The path leads to the first entry of the root directory, and that is all zero.
  have zero : DirectoryCall.EndsName middle (.add (.replicate 12 97) newSector) := by
    intro parent last i able free
    obtain ⟨rfl, rfl⟩ := enters.able.leads.unique able.leads
    obtain rfl : 0 = i := Option.some.inj (enters.free.symm.trans free)
    refine .inr ?_
    rw [same, Session.root_formatted formats]
    -- The byte behind the field is zero there.
    decide +kernel
  have ends : EveryStep Session.directoryStep (fun session call => call.EndsName session) started
      [.prepare newSector data, .add (.replicate 12 97) newSector] :=
    .cons prepares trivial (.cons stepped zero trivial)
  -- So the name ends where it should.
  exact ⟨started, session, newSector, data, formats, ran,
    (storedNames_end_iff formats promised).mp ends _ session _ (List.prefix_refl _) ran
      directorySector .root⟩

/-- With all memory full of ones, a name of nine letters goes on behind its entry. -/
theorem storedNames_runOn : ∃ started session newSector data,
    Session.format ⟨fun _ => .ofBytes [], ⟨fun _ _ => 1, fun _ => 0⟩, 0⟩ = some started ∧
      EveryStep Session.directoryStep (fun session call => call.Promised session) started
        [.prepare newSector data, .add (.replicate 9 97) newSector] ∧
      replay (recording Session.directoryStep Session.added) (started, [])
        [.prepare newSector data, .add (.replicate 9 97) newSector] =
          some (session, [⟨directorySector, 0, .replicate 9 97⟩]) ∧
      ¬ NamesEnd session.disk [⟨directorySector, 0, .replicate 9 97⟩] directorySector ∧
      (dirAt session.disk directorySector).list = some [.replicate 9 97 ++ [1, 1, 1]] := by
  -- A disk is formatted in a memory of ones.
  obtain ⟨started, formats⟩ :=
    Session.format_succeeds ⟨fun _ => .ofBytes [], ⟨fun _ _ => 1, fun _ => 0⟩, 0⟩
  obtain ⟨newSector, data, middle, session, -, -, promised, ran, same, enters⟩ :=
    Session.firstFile formats (show texts (.replicate 9 97) = [.replicate 9 97] by decide)
  have root := same.trans (Session.root_formatted formats)
  -- The name is stored in the first entry.
  have stored := Option.some.inj
    ((Directory.addInCurrentDir_eq enters.able.absent enters.free).symm.trans enters.adds)
  rw [root] at stored
  -- All of the table is known but the sector, which is in front of the name.
  have sector : (intBytes newSector).length = 4 := length_intBytes newSector
  have visible : ((dirAt session.disk directorySector).table.drop 8).take 13 =
      .replicate 9 97 ++ [1, 1, 1, 0] := by
    rw [← stored]
    -- What is behind the sector does not depend on it.
    dsimp only
    rw [take_drop_splice_apart (by rw [sector]; decide +kernel) (.inr (by rw [sector]; decide))]
    decide +kernel
  -- The entry of the new name is the only one in use.
  have used : (dirAt session.disk directorySector).used = [0] := by
    -- The other entries are those of an empty directory.
    obtain ⟨⟨⟨given, systemOnly⟩, -, -, -⟩, -⟩ := Session.formatted formats
    have flags : ∀ j ∈ List.range numDirEntries,
        (dirAt session.disk directorySector).inUse j = decide (j = 0) := by
      intro j member
      rw [enters.gains.entered.inUse, same, systemOnly.empty j (List.mem_range.mp member),
        Bool.or_false]
    rw [Directory.used, List.filter_congr flags]
    decide
  -- The name does not end in its field.
  refine ⟨started, session, newSector, data, formats, promised, ran, fun names => ?_, ?_⟩
  · have ends := names.ends 0 (by rw [used]; decide)
    -- The ten bytes of the field are the nine letters and a one.
    have field : (dirAt session.disk directorySector).nameField 0 = .replicate 9 97 ++ [1] := by
      have front := congrArg (List.take 10) visible
      rw [List.take_take] at front
      exact front.trans (by decide)
    rw [field] at ends
    exact absurd ends (by decide)
  -- Three ones are behind the letters, and then comes the flag of the next entry.
  · have shown : (dirAt session.disk directorySector).shownName 0 =
        some (.replicate 9 97 ++ [1, 1, 1]) :=
      (Directory.shownName_of_take visible (by decide)).trans (by decide)
    rw [Directory.list, used, List.mapM_cons, shown]
    rfl

end Nachos
