import Nachos.Proofs.Machine.Tlb
import Nachos.Proofs.Vm.Shape

/-! When processes are isolated: a condition under which no byte passes from one to another. -/

namespace Nachos

/-- Who last wrote each page of each file back. -/
abbrev WriteBacks : Type := FileName → Nat → Option Int

namespace VmKernel

/-- The page that the next page fault writes back, and the thread it belongs to. -/
def writesBack (kernel : VmKernel) : Option (FileName × Nat × Int) :=
  if kernel.Full then
    let owner := kernel.phyMemManager.phyMemPageTable kernel.phyMemManager.swapOnePage
    (kernel.getAddrSpaceOfThread owner.mainThreadId).bind fun space =>
      if (space.pageTable owner.virtualPage.toNat).dirty then
        some (space.exeFileId, owner.virtualPage.toNat, owner.mainThreadId)
      else none
  else none

/-- The record of write-backs after the next page fault. -/
def noteWriteBack (kernel : VmKernel) (wroteBack : WriteBacks) : WriteBacks :=
  match kernel.writesBack with
  | some (file, vpn, threadId) => fun name v =>
    if name = file ∧ v = vpn then some threadId else wroteBack name v
  | none => wroteBack

/-- Is the page of the current thread not in memory? -/
def absent (kernel : VmKernel) (vpn : Nat) : Bool :=
  match kernel.getAddrSpaceOfThread kernel.currentThread with
  | some space => !(space.pageTable vpn).valid
  | none => false

/-- Does the access bring a page in? -/
def pagesIn (kernel : VmKernel) (addr : Word) (size : Nat) (writing : Bool) : Bool :=
  match kernel.translate addr size writing with
  | some (.error .pageFaultException, _) => kernel.absent (addr.toNat / pageSize)
  | _ => false

/-- How far a file reaches after the next page fault, if it is this long now. -/
def reach (kernel : VmKernel) (file : FileName) (length : Nat) : Nat :=
  match kernel.writesBack with
  | some (name, vpn, _) =>
    if name = file then max length (AddrSpace.fileOffset vpn + pageSize) else length
  | none => length

/--
What a page fault brings in for the thread is its own.

No other process has written the page back to the file, and the file has the whole page, unless
what the frame holds beyond it was not another process's.
-/
def BringsOwn (kernel : VmKernel) (wroteBack : WriteBacks) (threadId : Int) (vpn : Nat) : Prop :=
  ∀ space contents, kernel.getAddrSpaceOfThread threadId = some space →
    kernel.files space.exeFileId = some contents →
    (∀ writer, kernel.noteWriteBack wroteBack space.exeFileId vpn = some writer →
      writer = threadId) ∧
    (AddrSpace.fileOffset vpn + pageSize ≤ kernel.reach space.exeFileId contents.length ∨
      ¬ kernel.Full ∨ (kernel.phyMemManager.phyMemPageTable
        kernel.phyMemManager.swapOnePage).mainThreadId = threadId)

/-- An access that the TLB serves goes to the frame that the thread's page table has. -/
def HitsOwn (kernel : VmKernel) (vpn : Nat) : Prop :=
  ∀ way, kernel.tlb.hit vpn = some way →
    kernel.Resident kernel.currentThread vpn (kernel.tlb (TLB.index vpn) way).ppn

instance (kernel : VmKernel) (wroteBack : WriteBacks) (threadId : Int) (vpn : Nat) :
    Decidable (kernel.BringsOwn wroteBack threadId vpn) := by
  unfold BringsOwn
  cases kernel.getAddrSpaceOfThread threadId with
  | none => exact .isTrue fun _ _ live => nomatch live
  | some space =>
    cases opened : kernel.files space.exeFileId with
    | none => exact .isTrue fun _ _ live opens => nomatch opened ▸ Option.some.inj live ▸ opens
    | some contents =>
      refine decidable_of_iff ((∀ writer ∈ kernel.noteWriteBack wroteBack space.exeFileId vpn,
        writer = threadId) ∧ (AddrSpace.fileOffset vpn + pageSize ≤
          kernel.reach space.exeFileId contents.length ∨ ¬ kernel.Full ∨
          (kernel.phyMemManager.phyMemPageTable
            kernel.phyMemManager.swapOnePage).mainThreadId = threadId)) ⟨?_, ?_⟩
      · rintro both _ _ ⟨⟩ opens
        cases opened.symm.trans opens
        exact both
      · exact fun every => every space contents rfl opened

instance (kernel : VmKernel) (vpn : Nat) : Decidable (kernel.HitsOwn vpn) :=
  inferInstanceAs (Decidable (∀ way ∈ kernel.tlb.hit vpn, _))

end VmKernel

/-- A run of several processes, with a record of what was written back and what was read. -/
structure Traced where
  kernel : VmKernel
  wroteBack : WriteBacks
  log : List (Int × Int)

namespace Traced

/-- Before anything has happened. -/
def start (kernel : VmKernel) : Traced :=
  { kernel, wroteBack := fun _ _ => none, log := [] }

/-- The record of write-backs after an access. -/
def noteAccess (traced : Traced) (addr : Word) (size : Nat) (writing : Bool) : WriteBacks :=
  if traced.kernel.pagesIn addr size writing then
    traced.kernel.noteWriteBack traced.wroteBack
  else traced.wroteBack

/-- One event, with the records brought up to date. Faults occur inside of accesses here. -/
def step (traced : Traced) : Int × VmEvent → Option Traced
  | (now, .create threadId filename stack uninitialised) => do
    let (_, kernel) ← traced.kernel.serve now (.create threadId filename stack uninitialised)
    return { traced with kernel }
  | (now, .switchTo threadId) => do
    let (_, kernel) ← traced.kernel.serve now (.switchTo threadId)
    return { traced with kernel }
  | (now, .read threadId addr size) => do
    let (value, kernel) ← traced.kernel.serve now (.read threadId addr size)
    return {
      kernel
      wroteBack := traced.noteAccess addr size false
      log := (threadId, ← value) :: traced.log }
  | (now, .write threadId addr size value) => do
    let (_, kernel) ← traced.kernel.serve now (.write threadId addr size value)
    return { traced with kernel, wroteBack := traced.noteAccess addr size true }
  | _ => none

/-- The values that a thread has read, the last one first. -/
def readsIn (log : List (Int × Int)) (threadId : Int) : List Int :=
  (log.filter fun entry => entry.1 = threadId).map Prod.snd

/-- The values that a thread has read in a run, the last one first. -/
def readsOf (threadId : Int) (traced : Traced) : List Int := readsIn traced.log threadId

end Traced

/-- The same event, except for the value if it is a store of another thread. -/
inductive SameBut (threadId : Int) : Int × VmEvent → Int × VmEvent → Prop
  | same (timed : Int × VmEvent) : SameBut threadId timed timed
  | stored (now : Int) (other : Int) (addr : Word) (size : Nat) (value value' : Word)
    (different : other ≠ threadId) :
    SameBut threadId (now, .write other addr size value) (now, .write other addr size value')

namespace VmKernel

variable {kernel : VmKernel} {threadId : Int} {wroteBack : WriteBacks} {files : UnixFiles}
  {memory : MainMemory}

/-- The same kernel over other files and another memory. -/
def upon (kernel : VmKernel) (files : UnixFiles) (memory : MainMemory) : VmKernel :=
  { kernel with files, mainMemory := memory }

/-- The thread may find out what is in the frame: it is free, or the thread's own. -/
def Visible (kernel : VmKernel) (threadId : Int) (page : Nat) : Prop :=
  kernel.phyMemManager.phyMemoryMap.bit page = true →
    (kernel.phyMemManager.phyMemPageTable page).mainThreadId = threadId

/--
Files and memory of a twin differ only where another process has left its bytes.

In the files these are the pages that another process wrote back, and in memory the frames that
do not count as `mine`.
-/
structure Twin (threadId : Int) (wroteBack : WriteBacks) (mine : Nat → Prop) (kernel : VmKernel)
    (files : UnixFiles) (memory : MainMemory) : Prop where
  opens : ∀ name, (kernel.files name).map List.length = (files name).map List.length
  bytes : ∀ name held held', kernel.files name = some held → files name = some held' → ∀ k,
    held.getD k 0 = held'.getD k 0 ∨ ∃ v writer, wroteBack name v = some writer ∧
      writer ≠ threadId ∧ AddrSpace.fileOffset v ≤ k ∧ k < AddrSpace.fileOffset v + pageSize
  frames : ∀ page, mine page → ∀ i < pageSize,
    kernel.mainMemory (page * pageSize + i) = memory (page * pageSize + i)

/-- A file opens for one twin as it does for the other, and is as long. -/
theorem Twin.opened {mine : Nat → Prop} (twin : Twin threadId wroteBack mine kernel files memory)
    {name : FileName} {held : List Byte} (opened : kernel.files name = some held) :
    ∃ held', files name = some held' ∧ held'.length = held.length := by
  have lengths := twin.opens name
  rw [opened] at lengths
  -- The twin has the file as well, or their lengths would differ.
  cases found : files name with
  | none =>
    rw [found] at lengths
    cases lengths
  | some held' =>
    rw [found] at lengths
    exact ⟨held', rfl, (Option.some.inj lengths).symm⟩

/-- The frame table does not depend on what is in the files and in memory. -/
theorem FrameTable.upon (table : kernel.FrameTable) {mine : Nat → Prop}
    (twin : Twin threadId wroteBack mine kernel files memory) :
    (kernel.upon files memory).FrameTable where
  frames := table.frames
  bits := table.bits
  recorded := table.recorded
  owned := table.owned
  executable other space live := by
    obtain ⟨held, opened⟩ := table.executable other space live
    obtain ⟨held', opened', -⟩ := twin.opened opened
    exact ⟨held', opened'⟩

/-- A translation does not look at files or memory. -/
theorem translate_upon (kernel : VmKernel) (files : UnixFiles) (memory : MainMemory)
    (addr : Word) (size : Nat) (writing : Bool) :
    (kernel.upon files memory).translate addr size writing =
      (kernel.translate addr size writing).map fun result =>
        (result.1, result.2.upon files memory) := by
  -- Neither the alignment nor the TLB looks at files or memory.
  unfold translate
  split
  · rfl
  dsimp only [upon]
  split
  · rfl
  -- The walk takes the same branches on both sides.
  unfold walk
  dsimp only
  split
  · rfl
  -- Nor does the lookup of the page table, or the entry found there.
  cases kernel.pageTable with
  | none => rfl
  | some pointer =>
    simp only [Option.bind_eq_bind, Option.bind_some]
    cases kernel.virtMemManager.virtMemTable pointer with
    | none => rfl
    | some space =>
      simp only [Option.bind_some]
      repeat' split
      all_goals rfl

/-- A translation changes only the TLB and the page tables. -/
theorem translate_keeps {addr : Word} {size : Nat} {writing : Bool}
    {result : Except ExceptionType Int} {next : VmKernel}
    (translated : kernel.translate addr size writing = some (result, next)) :
    next.files = kernel.files ∧ next.mainMemory = kernel.mainMemory ∧
      next.phyMemManager = kernel.phyMemManager ∧ next.currentThread = kernel.currentThread := by
  -- By cases on the outcome: a failed translation changes no more than the TLB.
  cases result with
  | error exception =>
    obtain ⟨tlb, rfl⟩ := translate_error translated
    exact ⟨rfl, rfl, rfl, rfl⟩
  | ok physAddr =>
    rcases translate_cases translated with ⟨-, -, rfl⟩ | ⟨middle, rfl, walked⟩
    · -- The TLB has answered.
      exact ⟨rfl, rfl, rfl, rfl⟩
    · rcases walk_cases walked with ⟨_, -, rfl, -⟩ | ⟨pointer, space, -, -, -, -, -, -, rfl⟩
      · -- The walk has failed.
        exact ⟨rfl, rfl, rfl, rfl⟩
      · -- The walk has added an entry, and marked the page.
        unfold VmKernel.walked
        cases writing <;> exact ⟨rfl, rfl, rfl, rfl⟩

/-- Twins stay twins when neither files nor memory change. -/
theorem Twin.congr {mine : Nat → Prop} (twin : Twin threadId wroteBack mine kernel files memory)
    {next : VmKernel} (sameFiles : next.files = kernel.files)
    (sameMemory : next.mainMemory = kernel.mainMemory) :
    Twin threadId wroteBack mine next files memory where
  opens := by rw [sameFiles]; exact twin.opens
  bytes := by rw [sameFiles]; exact twin.bytes
  frames := by rw [sameMemory]; exact twin.frames

/-- Without a free frame, the next page fault writes back the page chosen, if it is dirty. -/
theorem writesBack_swapped {page : Nat} {owner : Int} {vpn : Nat} {space : AddrSpace}
    (full : kernel.Full) (chosen : page = kernel.phyMemManager.swapOnePage)
    (recorded : kernel.phyMemManager.phyMemPageTable page = ⟨owner, vpn⟩)
    (live : kernel.getAddrSpaceOfThread owner = some space) :
    kernel.writesBack =
      if (space.pageTable vpn).dirty then some (space.exeFileId, vpn, owner) else none := by
  unfold writesBack
  rw [if_pos full, ← chosen, recorded]
  simp [live]

/-- With a free frame, the next page fault writes nothing back. -/
theorem writesBack_free {page : Nat} (inRange : page < numPhysPages)
    (clear : kernel.phyMemManager.phyMemoryMap.bit page = false) : kernel.writesBack = none := by
  unfold writesBack
  rw [if_neg]
  intro full
  have taken := full page inRange
  rw [clear] at taken
  cases taken

/-- A page fault that writes nothing back leaves the record as it is. -/
theorem noteWriteBack_none (nothing : kernel.writesBack = none) :
    kernel.noteWriteBack wroteBack = wroteBack := by
  unfold noteWriteBack
  rw [nothing]

/-- A page fault that writes a page back is recorded for that page. -/
theorem noteWriteBack_some {file : FileName} {vpn : Nat} {owner : Int}
    (something : kernel.writesBack = some (file, vpn, owner)) (name : FileName) (v : Nat) :
    kernel.noteWriteBack wroteBack name v =
      if name = file ∧ v = vpn then some owner else wroteBack name v := by
  unfold noteWriteBack
  rw [something]

/-- Twins take the same frame for a page, and are twins afterwards. -/
theorem Twin.taken {mine : Nat → Prop} (twin : Twin threadId wroteBack mine kernel files memory)
    (mineOf : ∀ page, kernel.Visible threadId page → mine page)
    {page page' : Nat} {middle middle' : VmKernel} (taken : kernel.FrameTaken page middle)
    (taken' : (kernel.upon files memory).FrameTaken page' middle') :
    page' = page ∧ ∃ files', middle' = middle.upon files' memory ∧
      Twin threadId (kernel.noteWriteBack wroteBack) mine middle files' memory := by
  -- Both take the same frame, in the same way.
  obtain rfl : page' = page := taken.unique taken' rfl
  cases taken with
  -- One twin has a free frame.
  | free inRange clear =>
    have nothing : kernel.noteWriteBack wroteBack = wroteBack :=
      noteWriteBack_none (writesBack_free inRange clear)
    cases taken' with
    -- So has the other, and neither writes anything back.
    | free => exact ⟨rfl, files, rfl, by rw [nothing]; exact twin.congr rfl rfl⟩
    | swapped full =>
      -- The other cannot be full, since the same bits are taken.
      have taken := full page' inRange
      rw [show (kernel.upon files memory).phyMemManager.phyMemoryMap.bit page' = false
        from clear] at taken
      cases taken
  | @swapped owner vpn space contents full chosen inRange recorded live below valid frame opened =>
    -- One twin is full, so the other cannot have the frame free.
    cases taken' with
    | free inRange' clear' =>
      have taken := full page' inRange'
      rw [show kernel.phyMemManager.phyMemoryMap.bit page' = false from clear'] at taken
      cases taken
    | @swapped owner' vpn' space' contents' full' chosen' _ recorded' live' _ _ _ opened' =>
      -- Both throw out the same page of the same process.
      have sameOwner := recorded.symm.trans recorded'
      obtain rfl : owner = owner' := congrArg PhyMemPageEntry.mainThreadId sameOwner
      obtain rfl : vpn = vpn' := Int.natCast_inj.mp
        (congrArg PhyMemPageEntry.virtualPage sameOwner)
      obtain rfl : space = space' := Option.some.inj (live.symm.trans live')
      have note := writesBack_swapped full chosen recorded live
      cases dirty : (space.pageTable vpn).dirty with
      | false =>
        -- It is clean, so no file changes.
        refine ⟨rfl, files, by simp [evicted, upon, dirty], ?_⟩
        rw [dirty] at note
        have nothing : kernel.noteWriteBack wroteBack = wroteBack := noteWriteBack_none note
        rw [nothing]
        exact twin.congr (by simp [evicted, dirty]) rfl
      | true =>
        -- It is dirty, and written back to both files.
        have opened' : files space.exeFileId = some contents' := opened'
        rw [dirty, if_pos rfl] at note
        have noted : kernel.noteWriteBack wroteBack = fun name v =>
            if name = space.exeFileId ∧ v = vpn then some owner else wroteBack name v := by
          funext name v
          exact noteWriteBack_some note name v
        -- The two files are as long as each other.
        have lengths : contents.length = contents'.length := by
          have both := twin.opens space.exeFileId
          rw [opened, opened'] at both
          exact Option.some.inj both
        refine ⟨rfl, Function.update files space.exeFileId (some (writeAt contents'
          (MainMemory.frame memory page') (AddrSpace.fileOffset vpn))),
          by simp [evicted, upon, dirty], ?_⟩
        rw [noted]
        refine ⟨fun name => ?_, fun name held held' now now' k => ?_, twin.frames⟩
        · -- The file that is written to grows by as much, and the others stay.
          by_cases same : name = space.exeFileId
          · subst same
            simp [evicted, dirty, writeAt, MainMemory.frame, lengths]
          · simpa [evicted, dirty, same] using twin.opens name
        · by_cases same : name = space.exeFileId
          · subst same
            -- The bytes of the file that is written to.
            simp only [evicted, dirty, if_true, Function.update_self, Option.some.injEq] at now now'
            subst now now'
            unfold writeAt
            rw [getD_splice, getD_splice]
            simp only [MainMemory.frame, MainMemory.length_slice]
            by_cases here : AddrSpace.fileOffset vpn ≤ k ∧ k < AddrSpace.fileOffset vpn + pageSize
            · rw [if_pos here, if_pos here]
              by_cases own : owner = threadId
              · -- The thread's own page holds the same bytes on both sides.
                left
                have visible : kernel.Visible threadId page' := fun _ => by
                  rw [recorded]
                  exact own
                rw [MainMemory.getD_slice _ _ (by omega), MainMemory.getD_slice _ _ (by omega)]
                exact twin.frames page' (mineOf page' visible) _ (by omega)
              · -- Another process's page counts as written back by that process.
                exact .inr ⟨vpn, owner, by simp, own, here⟩
            · -- Outside the page the file is as it was.
              rw [if_neg here, if_neg here]
              -- A byte that differed before still does for the same reason, which is another page.
              rcases twin.bytes _ contents contents' opened opened' k with
                equal | ⟨v, writer, wrote, foreign, inside⟩
              · exact .inl equal
              · refine .inr ⟨v, writer, ?_, foreign, inside⟩
                have different : v ≠ vpn := by
                  rintro rfl
                  exact here inside
                simp [different, wrote]
          · -- In the other files nothing changes.
            simp only [evicted, dirty, if_true, Function.update_of_ne same] at now now'
            rcases twin.bytes name held held' now now' k with
              equal | ⟨v, writer, wrote, foreign, inside⟩
            · exact .inl equal
            · exact .inr ⟨v, writer, by simp [same, wrote], foreign, inside⟩

/-- Getting a frame leaves a file as long as the page written to it makes it. -/
theorem FrameTaken.reach {page : Nat} {middle : VmKernel} (taken : kernel.FrameTaken page middle)
    {name : FileName} {held held' : List Byte} (opened : kernel.files name = some held)
    (now : middle.files name = some held') : held'.length = kernel.reach name held.length := by
  unfold VmKernel.reach
  -- A frame that was free writes nothing back, and one that was taken only if it is dirty.
  cases taken with
  | free inRange clear =>
    rw [writesBack_free inRange clear]
    have same : kernel.files name = some held' := now
    rw [opened] at same
    cases same
    rfl
  -- By whether the page that is thrown out is dirty.
  | @swapped owner vpn space contents full chosen _ recorded live _ _ _ found =>
    have note := writesBack_swapped full chosen recorded live
    cases dirty : (space.pageTable vpn).dirty with
    -- A clean page is not written.
    | false =>
      rw [dirty] at note
      rw [note]
      simp only [evicted, dirty, Bool.false_eq_true, if_false, opened, Option.some.injEq] at now
      rw [now]
      rfl
    | true =>
      rw [dirty, if_pos rfl] at note
      rw [note]
      simp only [evicted, dirty, if_true] at now
      -- A dirty page is written to its own file, and to no other.
      by_cases same : space.exeFileId = name
      · subst same
        rw [opened] at found
        cases found
        rw [Function.update_self] at now
        cases now
        simp [writeAt, MainMemory.frame]
      · rw [Function.update_of_ne (Ne.symm same), opened] at now
        cases now
        simp [same]

/-- Getting a frame frees no other frame and records nothing. -/
theorem FrameTaken.phys {page : Nat} {middle : VmKernel} (taken : kernel.FrameTaken page middle)
    (table : kernel.FrameTable) {other : Nat} (different : other ≠ page) :
    (middle.phyMemManager.phyMemoryMap.bit other =
      kernel.phyMemManager.phyMemoryMap.bit other) ∧
    middle.phyMemManager.phyMemPageTable = kernel.phyMemManager.phyMemPageTable := by
  cases taken with
  | free inRange clear =>
    refine ⟨?_, rfl⟩
    have bounded : page < kernel.phyMemManager.phyMemoryMap.numBits := table.bits ▸ inRange
    simp [claimed, Bitmap.bit_setBit _ bounded, different]
  | swapped => exact ⟨rfl, rfl⟩

/-- A thread that is given a frame of its own, or a free one, could see the frame before. -/
theorem FrameTaken.visible {page : Nat} {middle : VmKernel}
    (taken : kernel.FrameTaken page middle)
    (own : ¬ kernel.Full ∨ (kernel.phyMemManager.phyMemPageTable
      kernel.phyMemManager.swapOnePage).mainThreadId = threadId) :
    kernel.Visible threadId page := by
  intro marked
  -- A free frame anybody sees, and one that is taken is the thread's own, or nothing was taken.
  cases taken with
  | free inRange clear =>
    rw [clear] at marked
    cases marked
  | swapped full chosen =>
    rcases own with roomy | own
    · exact absurd full roomy
    · rw [chosen]
      exact own

/-- Twins bring in a page alike, and are twins afterwards. -/
theorem Twin.loaded {mine : Nat → Prop} (twin : Twin threadId wroteBack mine kernel files memory)
    {after : AddrSpace} {contents contents' : List Byte} {vpn page : Nat} {file : FileName}
    (opened : kernel.files file = some contents) (opened' : files file = some contents')
    (others : ∀ other, other ≠ page → (kernel.phyMemManager.phyMemoryMap.bit other = true →
      (kernel.phyMemManager.phyMemPageTable other).mainThreadId = threadId) → mine other)
    (taken : kernel.phyMemManager.phyMemoryMap.bit page = true)
    (own : kernel.currentThread = threadId →
      (∀ writer, wroteBack file vpn = some writer → writer = threadId) ∧
      (AddrSpace.fileOffset vpn + pageSize ≤ contents.length ∨ mine page)) (now : Int) :
    Twin threadId wroteBack
      ((kernel.loaded now after contents vpn page).Visible threadId)
      (kernel.loaded now after contents vpn page) files
      (MainMemory.store memory (page * pageSize) (pageBytes contents' vpn)) := by
  -- Both twins read as many bytes into the frame.
  have lengths : contents.length = contents'.length := by
    have both := twin.opens file
    rw [opened, opened'] at both
    exact Option.some.inj both
  have short : (pageBytes contents vpn).length ≤ pageSize := by
    simp only [pageBytes, List.length_take]
    omega
  have sameLength : (pageBytes contents' vpn).length = (pageBytes contents vpn).length := by
    simp only [pageBytes, List.length_take, List.length_drop, lengths]
  refine ⟨twin.opens, twin.bytes, fun other visible i small => ?_⟩
  by_cases same : other = page
  · subst same
    -- The frame belongs to the current thread now, so that is the thread that looks at it.
    have current : kernel.currentThread = threadId := by
      have owner := visible taken
      simpa [VmKernel.loaded, PhyMemManager.assign] using owner
    obtain ⟨unwritten, covered⟩ := own current
    change MainMemory.store kernel.mainMemory _ _ _ = _
    by_cases inside : i < (pageBytes contents vpn).length
    · -- What comes from the file is the thread's own.
      rw [MainMemory.store_inside _ inside, MainMemory.store_inside _ (sameLength.symm ▸ inside)]
      -- A byte of the page is the byte of the file at its place.
      have part : ∀ held : List Byte, i < (pageBytes held vpn).length →
          (pageBytes held vpn).getD i 0 = held.getD (AddrSpace.fileOffset vpn + i) 0 := by
        intro held inHeld
        simp only [pageBytes, List.getD_eq_getElem?_getD, List.getElem?_take, List.getElem?_drop,
          if_pos small]
      rw [part contents inside, part contents' (sameLength.symm ▸ inside)]
      -- The files agree at the byte, or it was written back by another process.
      rcases twin.bytes file contents contents' opened opened' (AddrSpace.fileOffset vpn + i) with
        equal | ⟨v, writer, wrote, foreign, low, high⟩
      · exact equal
      · -- Only the page itself has that byte, and no other process has written it.
        have here : v = vpn := by
          simp only [AddrSpace.fileOffset, pageSize] at low high small
          omega
        subst here
        exact absurd (unwritten writer wrote) foreign
    · -- What was in the frame before is the thread's own too.
      rw [MainMemory.store_outside _ (by omega), MainMemory.store_outside _ (by omega)]
      -- The file covers the whole frame, or the thread saw the frame before.
      rcases covered with whole | visibleBefore
      · have full : (pageBytes contents vpn).length = pageSize := by
          simp only [pageBytes, List.length_take, List.length_drop]
          omega
        omega
      · exact twin.frames other visibleBefore i small
  · -- Another frame keeps its bytes and its owner.
    have outside : other * pageSize + i < page * pageSize ∨
        page * pageSize + (pageBytes contents vpn).length ≤ other * pageSize + i := by
      simp only [pageSize] at *
      rcases Nat.lt_or_gt_of_ne same with before | behind <;> omega
    change MainMemory.store kernel.mainMemory _ _ _ = _
    rw [MainMemory.store_outside _ outside, MainMemory.store_outside _ (sameLength.symm ▸ outside)]
    refine twin.frames other (others other same fun marked => ?_) i small
    have owner := visible marked
    simpa [VmKernel.loaded, PhyMemManager.assign, same] using owner

/-- Twins serve a page fault alike, and are twins afterwards. -/
theorem Twin.fault (twin : Twin threadId wroteBack (kernel.Visible threadId) kernel files memory)
    (table : kernel.FrameTable) {vpn : Nat} {space : AddrSpace}
    (live : kernel.getAddrSpaceOfThread kernel.currentThread = some space)
    (below : vpn < space.numPages) (invalid : (space.pageTable vpn).valid = false)
    (brings : kernel.currentThread = threadId → kernel.BringsOwn wroteBack threadId vpn)
    (now : Int) :
    ∃ served files' memory', kernel.pageFaultHandler now vpn = some served ∧
      (kernel.upon files memory).pageFaultHandler now vpn = some (served.upon files' memory') ∧
      Twin threadId (kernel.noteWriteBack wroteBack) (served.Visible threadId) served files'
        memory' := by
  obtain ⟨page, middle, after, contents, taken, lives, -, -, -, opened, served⟩ :=
    pageFaultHandler_loads table live below invalid now
  -- The twin takes the same frame, since both have the same tables.
  obtain ⟨page', middle', after', contents', taken', lives', -, -, -, opened', served'⟩ :=
    pageFaultHandler_loads (table.upon twin) live below invalid now
  -- The frame that is filled, or another one.
  obtain ⟨rfl, files', rfl, emptied⟩ := twin.taken (fun _ visible => visible) taken taken'
  obtain rfl : after = after' := Option.some.inj (lives.symm.trans lives')
  refine ⟨_, files', MainMemory.store memory (page' * pageSize) (pageBytes contents' vpn), served,
    served', ?_⟩
  -- Then both read the page into it.
  refine emptied.loaded opened opened' ?_ (taken.vacant table).taken ?_ now
  · -- The frames of the thread were its own before.
    intro other different owned marked
    obtain ⟨bit, owner⟩ := taken.phys table different
    rw [← owner]
    exact owned (bit ▸ marked)
  · -- What is brought in is the thread's own, if it is the one that runs.
    intro current
    rw [taken.currentThread] at current
    subst current
    obtain ⟨held, heldOpened⟩ := table.executable _ space live
    obtain ⟨own, covered⟩ := brings rfl space held live heldOpened
    refine ⟨own, ?_⟩
    -- The file reaches the end of the page, or the frame was the thread's before.
    rcases covered with whole | mine
    · left
      rw [taken.reach heldOpened opened]
      exact whole
    · exact .inr (taken.visible mine)

/-- Twins translate alike, and are twins afterwards. -/
theorem Twin.translate
    (twin : Twin threadId wroteBack (kernel.Visible threadId) kernel files memory) {addr : Word}
    {size : Nat} {writing : Bool} {result : Except ExceptionType Int} {next : VmKernel}
    (translated : kernel.translate addr size writing = some (result, next)) :
    (kernel.upon files memory).translate addr size writing =
      some (result, next.upon files memory) ∧
    Twin threadId wroteBack (next.Visible threadId) next files memory := by
  -- A translation keeps the files, the memory and the frames.
  obtain ⟨sameFiles, sameMemory, samePhys, -⟩ := translate_keeps translated
  refine ⟨by rw [translate_upon, translated]; rfl, ?_⟩
  -- The frames that the thread sees are the same.
  have seen : next.Visible threadId = kernel.Visible threadId := by
    funext page
    unfold Visible
    rw [samePhys]
  rw [seen]
  exact twin.congr sameFiles sameMemory

/-- Which page is written back next does not depend on the TLB. -/
theorem writesBack_tlb (kernel : VmKernel) (tlb : TLB) :
    VmKernel.writesBack { kernel with tlb } = kernel.writesBack := by
  unfold writesBack
  rfl

/-- The record of write-backs of an access. -/
theorem noteWriteBack_tlb (kernel : VmKernel) (tlb : TLB) (wroteBack : WriteBacks) :
    VmKernel.noteWriteBack { kernel with tlb } wroteBack = kernel.noteWriteBack wroteBack := by
  unfold noteWriteBack
  rw [writesBack_tlb]

/-- Whether a page comes in as the thread's own does not depend on the TLB. -/
theorem BringsOwn.tlb {vpn : Nat} (brings : kernel.BringsOwn wroteBack threadId vpn) (tlb : TLB) :
    VmKernel.BringsOwn { kernel with tlb } wroteBack threadId vpn := by
  intro space contents live opened
  obtain ⟨own, covered⟩ := brings space contents live opened
  refine ⟨by rw [noteWriteBack_tlb]; exact own, ?_⟩
  have reach : VmKernel.reach { kernel with tlb } space.exeFileId contents.length =
      kernel.reach space.exeFileId contents.length := by
    unfold VmKernel.reach
    rw [writesBack_tlb]
  rw [reach]
  exact covered

/-- Twins serve a page fault alike, or both refuse, whether the page is there or not. -/
theorem Twin.handle (twin : Twin threadId wroteBack (kernel.Visible threadId) kernel files memory)
    (table : kernel.FrameTable) {vpn : Nat}
    (brings : kernel.absent vpn = true → kernel.currentThread = threadId →
      kernel.BringsOwn wroteBack threadId vpn) (now : Int) :
    (kernel.pageFaultHandler now vpn = none ∧
      (kernel.upon files memory).pageFaultHandler now vpn = none) ∨
    ∃ served files' memory', kernel.pageFaultHandler now vpn = some served ∧
      (kernel.upon files memory).pageFaultHandler now vpn = some (served.upon files' memory') ∧
      Twin threadId (if kernel.absent vpn then kernel.noteWriteBack wroteBack else wroteBack)
        (served.Visible threadId) served files' memory' := by
  -- The twin has the same address spaces.
  have lookup : (kernel.upon files memory).getAddrSpaceOfThread
      (kernel.upon files memory).currentThread =
      kernel.getAddrSpaceOfThread kernel.currentThread := rfl
  cases live : kernel.getAddrSpaceOfThread kernel.currentThread with
  -- Without an address space both refuse.
  | none =>
    left
    unfold pageFaultHandler
    rw [lookup, live]
    exact ⟨rfl, rfl⟩
  | some space =>
    -- The page is within the space, or both refuse.
    by_cases below : vpn < space.numPages
    · right
      cases valid : (space.pageTable vpn).valid with
      -- A page that is there is left as it is.
      | true =>
        have present : kernel.absent vpn = false := by simp [absent, live, valid]
        rw [present]
        exact ⟨kernel, files, memory, pageFaultHandler_valid live below valid now,
          pageFaultHandler_valid (lookup.trans live) below valid now, twin⟩
      -- A page that is not there is brought in by both.
      | false =>
        have gone : kernel.absent vpn = true := by simp [absent, live, valid]
        rw [gone]
        exact twin.fault table live below valid (brings gone) now
    · left
      unfold pageFaultHandler
      rw [lookup, live]
      simp [below]

/-- Twins find the page of an access alike, and are twins afterwards. -/
theorem Twin.locate (twin : Twin threadId wroteBack (kernel.Visible threadId) kernel files memory)
    (table : kernel.FrameTable) {addr : Word} {size : Nat} {writing : Bool}
    (brings : kernel.pagesIn addr size writing = true → kernel.currentThread = threadId →
      kernel.BringsOwn wroteBack threadId (addr.toNat / pageSize)) (now : Int) :
    (kernel.locate now addr size writing = none ∧
      (kernel.upon files memory).locate now addr size writing = none) ∨
    ∃ physAddr next files' memory', kernel.locate now addr size writing = some (physAddr, next) ∧
      (kernel.upon files memory).locate now addr size writing =
        some (physAddr, next.upon files' memory') ∧
      Twin threadId
        (if kernel.pagesIn addr size writing then kernel.noteWriteBack wroteBack else wroteBack)
        (next.Visible threadId) next files' memory' := by
  unfold VmKernel.locate
  cases translated : kernel.translate addr size writing with
  -- The translation aborts on both sides.
  | none =>
    left
    simp [translate_upon, translated]
  | some pair =>
    obtain ⟨result, next⟩ := pair
    obtain ⟨translated', kept⟩ := twin.translate translated
    rw [translated']
    cases result with
    | ok physAddr =>
      -- No page fault, so nothing is brought in.
      have still : kernel.pagesIn addr size writing = false := by
        unfold pagesIn
        rw [translated]
      rw [still]
      exact .inr ⟨physAddr.toNat, next, files, memory, rfl, rfl, kept⟩
    | error exception =>
      cases exception with
      -- The page fault is served on both sides or on neither.
      | pageFaultException =>
        obtain ⟨tlb, rfl⟩ := translate_error translated
        have raised : kernel.pagesIn addr size writing = kernel.absent (addr.toNat / pageSize) := by
          unfold pagesIn
          rw [translated]
        rw [raised] at brings ⊢
        have aged : FrameTable { kernel with tlb } := table.congr rfl rfl rfl
        rcases kept.handle aged (fun gone current => (brings gone current).tlb tlb) now with
          -- Both refuse.
          ⟨refused, refused'⟩ | ⟨served, files', memory', handled, handled', after⟩
        · left
          simp only [Option.bind_eq_bind, Option.bind_some, refused, refused']
          exact ⟨rfl, rfl⟩
        · rw [noteWriteBack_tlb] at after
          simp only [Option.bind_eq_bind, Option.bind_some, handled, handled']
          -- The second translation succeeds on both sides or on neither.
          cases again : served.translate addr size writing with
          | none =>
            left
            simp [translate_upon, again]
          | some pair =>
            obtain ⟨second, last⟩ := pair
            obtain ⟨again', final⟩ := after.translate again
            rw [again']
            cases second with
            -- The second translation fails again.
            | error => exact .inl ⟨rfl, rfl⟩
            | ok physAddr =>
              -- Both find the page.
              exact .inr ⟨physAddr.toNat, last, files', memory', rfl, rfl, final⟩
      -- No other exception is served.
      | _ => exact .inl ⟨rfl, rfl⟩

/-- The machine's page table is that of a live thread, with its length. -/
def Sized (kernel : VmKernel) : Prop :=
  ∀ pointer, kernel.pageTable = some pointer → ∃ space,
    kernel.getAddrSpaceOfThread pointer = some space ∧ space.numPages = kernel.pageTableSize

/-- The page table in use is as long as before if no address space was made or deleted. -/
theorem Sized.sameThread (sized : kernel.Sized) {after : VmKernel}
    (same : kernel.SameThread after) : after.Sized := by
  intro pointer points
  rw [same.pageTable] at points
  obtain ⟨space, live, pages⟩ := sized pointer points
  obtain ⟨space', live', alike⟩ := same.shape.live live
  exact ⟨space', live', by rw [alike.numPages, pages, same.pageTableSize]⟩

/-- A translation leads to the frame that the thread's own page table has. -/
theorem translate_own (table : kernel.FrameTable) (sized : kernel.Sized)
    (pointer : kernel.pageTable = some kernel.currentThread) {addr : Word} {size : Nat}
    {writing : Bool} {physAddr : Int} {next : VmKernel}
    (hits : kernel.HitsOwn (addr.toNat / pageSize))
    (translated : kernel.translate addr size writing = some (.ok physAddr, next)) :
    ∃ page : Nat, physAddr = (page * pageSize + addr.toNat % pageSize : Nat) ∧
      next.Resident kernel.currentThread (addr.toNat / pageSize) page := by
  obtain ⟨space, live, pages⟩ := sized _ pointer
  -- The TLB has answered, or the walk.
  rcases translate_cases translated with ⟨found, served, rfl⟩ | ⟨middle, rfl, walked⟩
  · cases hit : kernel.tlb.hit (addr.toNat / pageSize) with
    -- A miss does not answer.
    | none =>
      rw [TLB.translate_miss hit] at served
      omega
    -- The entry that answers is the thread's own, by the hypothesis on the TLB.
    | some way =>
      have resident := hits way hit
      obtain ⟨page, frame, -, -, -⟩ := table.recorded _ _ _ resident
      refine ⟨page, ?_, (resident_congr rfl _ _ _).mpr (frame ▸ resident)⟩
      rw [served, TLB.translate_hit hit, frame]
      push_cast
      rfl
  · rcases walk_cases walked with ⟨_, result, -⟩ |
      ⟨threadId, own, points, held, below, valid, -, result, rfl⟩
    · -- A failed walk has no address.
      cases result
    · -- The walk is through the current thread's own page table.
      have same : threadId = kernel.currentThread := Option.some.inj (points.symm.trans pointer)
      subst same
      have heldLive := held_of_live live
      have sameSpace : own = space := Option.some.inj (Eq.trans (Eq.symm held) heldLive)
      subst sameSpace
      -- The entry is in the table, and its page is resident.
      have inTable : addr.toNat / pageSize < own.numPages := pages ▸ below
      have resident : kernel.Resident kernel.currentThread (addr.toNat / pageSize) _ :=
        ⟨own, live, inTable, valid, rfl⟩
      obtain ⟨page, frame, -, -, -⟩ := table.recorded _ _ _ resident
      refine ⟨page, ?_, ?_⟩
      · have address := Except.ok.inj result
        rw [address, frame]
        push_cast
        rfl
      · rw [← frame]
        refine (resident_walked writing ?_ inTable _ _ _).mpr ?_
        · exact live
        · exact (resident_congr rfl _ _ _).mpr resident

/-- A page fault adds no translation to the TLB. -/
theorem FrameTaken.within {page : Nat} {middle : VmKernel} (taken : kernel.FrameTaken page middle) :
    middle.tlb.Within kernel.tlb := by
  cases taken with
  | free => exact .refl _
  | @swapped owner vpn space contents =>
    unfold evicted
    dsimp only
    split
    · exact TLB.invalidEntry_within _ _
    · exact .refl _

/-- The service of a page fault adds no translation to the TLB. -/
theorem pageFaultHandler_within (table : kernel.FrameTable) {now : Int} {vpn : Nat}
    {served : VmKernel} (handled : kernel.pageFaultHandler now vpn = some served) :
    served.tlb.Within kernel.tlb := by
  -- By whether the page is there already.
  obtain ⟨space, live, below⟩ := pageFaultHandler_some handled
  cases valid : (space.pageTable vpn).valid with
  | true =>
    rw [pageFaultHandler_valid live below valid] at handled
    cases handled
    exact .refl _
  -- A page that is brought in has no entry in the TLB yet.
  | false =>
    obtain ⟨page, middle, after, contents, taken, -, -, -, -, -, loads⟩ :=
      pageFaultHandler_loads table live below valid now
    rw [handled] at loads
    cases loads
    exact taken.within

/-- An access leads to the frame that the thread's own page table has, if the TLB does. -/
theorem locate_own (table : kernel.FrameTable) (sized : kernel.Sized)
    (pointer : kernel.pageTable = some kernel.currentThread) {now : Int} {addr : Word}
    {size : Nat} {writing : Bool} {physAddr : Nat} {next : VmKernel}
    (hits : kernel.HitsOwn (addr.toNat / pageSize))
    (located : kernel.locate now addr size writing = some (physAddr, next)) :
    ∃ page : Nat, physAddr = page * pageSize + addr.toNat % pageSize ∧
      next.Resident kernel.currentThread (addr.toNat / pageSize) page := by
  obtain ⟨middle, result, translated, address, rfl | ⟨missed, raised, handled⟩⟩ :=
    locate_cases located
  · -- The page is found at once, or after a page fault.
    obtain ⟨page, same, resident⟩ := translate_own table sized pointer hits translated
    exact ⟨page, by rw [address, same, Int.toNat_natCast], resident⟩
  · obtain ⟨-, negative, rfl, -⟩ := translate_fault raised
    -- An entry for the page would have served the access.
    have none : kernel.tlb.hit (addr.toNat / pageSize) = none := by
      cases hit : kernel.tlb.hit (addr.toNat / pageSize) with
      | none => rfl
      | some way =>
        obtain ⟨page, frame, -, -, -⟩ := table.recorded _ _ _ (hits way hit)
        rw [TLB.translate_hit hit, frame] at negative
        simp only [pageSize] at negative
        omega
    have still : { kernel with tlb := (kernel.tlb.translate addr.toNat).2 } = kernel := by
      rw [TLB.translate_miss none]
    rw [still] at handled
    -- The service keeps the frame table and the thread, and adds no entry to the TLB.
    have filled := table.reaches (.faulted .refl handled)
    have within := pageFaultHandler_within table handled
    have same := pageFaultHandler_sameThread handled
    have current := same.currentThread
    -- So the page has none in the second translation either.
    have misses : middle.HitsOwn (addr.toNat / pageSize) := by
      intro way hit
      obtain ⟨valid, tag⟩ := TLB.hit_some hit
      obtain ⟨wasValid, wasTag, -⟩ := within _ way valid
      have missed := List.find?_eq_none.mp none way (List.mem_finRange way)
      simp [wasValid, ← wasTag, tag] at missed
    obtain ⟨page, found, resident⟩ := translate_own filled (sized.sameThread same)
      (same.pageTable.trans (pointer.trans (congrArg some current.symm))) misses translated
    exact ⟨page, by rw [address, found, Int.toNat_natCast], current ▸ resident⟩

end VmKernel

namespace Traced

/-- Two runs that look the same to one thread. -/
inductive Alike (threadId : Int) : Traced → Traced → Prop
  | intro {kernel : VmKernel} {wroteBack : WriteBacks} {log log' : List (Int × Int)}
    {files : UnixFiles} {memory : MainMemory} (table : kernel.FrameTable) (sized : kernel.Sized)
    (twin : VmKernel.Twin threadId wroteBack (kernel.Visible threadId) kernel files memory)
    (reads : readsIn log' threadId = readsIn log threadId) :
    Alike threadId ⟨kernel, wroteBack, log⟩ ⟨kernel.upon files memory, wroteBack, log'⟩

/-- Processes are created from executables, and access memory once they have been loaded. -/
def Admitted (traced : Traced) : Int × VmEvent → Prop
  | (_, .create threadId filename stack _) =>
    traced.kernel.virtMemManager.InTable threadId ∧
      VmKernel.Runnable traced.kernel.files filename stack
  | (_, .switchTo _) => True
  | (_, .read threadId _ _) => traced.kernel.pageTable = some threadId
  | (_, .write threadId _ _ _) => traced.kernel.pageTable = some threadId
  | _ => False

/--
No byte of another process comes to the thread in this step.

What the thread reads and what others write through the TLB goes to the frame of its own page, and
the pages that are brought in for the thread are its own.
-/
def Isolated (threadId : Int) (traced : Traced) : Int × VmEvent → Prop
  | (_, .read reader addr size) => reader = threadId →
    traced.kernel.HitsOwn (addr.toNat / pageSize) ∧
    (traced.kernel.pagesIn addr size false = true →
      traced.kernel.BringsOwn traced.wroteBack threadId (addr.toNat / pageSize))
  | (_, .write writer addr size _) =>
    (writer ≠ threadId → traced.kernel.HitsOwn (addr.toNat / pageSize)) ∧
    (writer = threadId → traced.kernel.pagesIn addr size true = true →
      traced.kernel.BringsOwn traced.wroteBack threadId (addr.toNat / pageSize))
  | _ => True

instance (traced : Traced) : ∀ timed, Decidable (traced.Admitted timed)
  | (_, .create _ _ _ _) => inferInstanceAs (Decidable (_ ∧ _))
  | (_, .delete _) => .isFalse id
  | (_, .switchTo _) => .isTrue trivial
  | (_, .fault _) => .isFalse id
  | (_, .read threadId _ _) => inferInstanceAs (Decidable (_ = some threadId))
  | (_, .write threadId _ _ _) => inferInstanceAs (Decidable (_ = some threadId))

instance (threadId : Int) (traced : Traced) : ∀ timed, Decidable (traced.Isolated threadId timed)
  | (_, .create _ _ _ _) => .isTrue trivial
  | (_, .delete _) => .isTrue trivial
  | (_, .switchTo _) => .isTrue trivial
  | (_, .fault _) => .isTrue trivial
  | (_, .read _ _ _) => inferInstanceAs (Decidable (_ → _ ∧ (_ → _)))
  | (_, .write _ _ _ _) => inferInstanceAs (Decidable ((_ → _) ∧ (_ → _ → _)))

variable {threadId : Int} {traced other : Traced}

/-- The read of one thread adds one value to what it has read, and nothing to the others. -/
theorem readsIn_cons (reader value : Int) (log : List (Int × Int)) (threadId : Int) :
    readsIn ((reader, value) :: log) threadId =
      if reader = threadId then value :: readsIn log threadId else readsIn log threadId := by
  unfold readsIn
  by_cases same : reader = threadId <;> simp [same]

/-- Twins keep the same record of what is written back. -/
theorem noteAccess_upon (kernel : VmKernel) (wroteBack : WriteBacks) (log log' : List (Int × Int))
    (files : UnixFiles) (memory : MainMemory) (addr : Word) (size : Nat) (writing : Bool) :
    noteAccess ⟨kernel.upon files memory, wroteBack, log'⟩ addr size writing =
      noteAccess ⟨kernel, wroteBack, log⟩ addr size writing := by
  -- Which pages are brought in, and from whom, the tables alone say.
  have paged : (kernel.upon files memory).pagesIn addr size writing =
      kernel.pagesIn addr size writing := by
    unfold VmKernel.pagesIn
    rw [VmKernel.translate_upon]
    -- By cases on the translation, whose outcome is the same.
    cases kernel.translate addr size writing with
    -- An abort brings in nothing.
    | none => rfl
    | some pair =>
      obtain ⟨result, next⟩ := pair
      cases result with
      -- The page is there.
      | ok => rfl
      -- It is a page fault, or the address is refused.
      | error exception => cases exception <;> rfl
  -- What is written back is known from the tables, too.
  have written : (kernel.upon files memory).noteWriteBack wroteBack =
      kernel.noteWriteBack wroteBack := by
    unfold VmKernel.noteWriteBack VmKernel.writesBack
    rfl
  unfold noteAccess
  rw [paged, written]

/-- The header of a file lies before all of its pages, so it is the same for both twins. -/
theorem new_twin {mine : Nat → Prop} {wroteBack : WriteBacks} {kernel : VmKernel}
    {files : UnixFiles} {memory : MainMemory}
    (twin : VmKernel.Twin threadId wroteBack mine kernel files memory) (creator : Int)
    (filename : FileName) (stack : List Byte) (uninitialised : AddrSpace) :
    AddrSpace.new files creator filename stack uninitialised =
      AddrSpace.new kernel.files creator filename stack uninitialised := by
  unfold AddrSpace.new
  -- The file does not exist, or neither constructor finds it.
  cases opened : kernel.files filename with
  | none =>
    have lengths := twin.opens filename
    rw [opened] at lengths
    cases found : files filename with
    | none => rfl
    | some held =>
      rw [found] at lengths
      cases lengths
  -- The file exists for both, and the constructors read its header.
  | some held =>
    obtain ⟨held', opened', length⟩ := twin.opened opened
    rw [opened']
    -- No page begins before the header ends.
    have front : held'.take sizeofNoffHeader = held.take sizeofNoffHeader := by
      apply List.ext_getElem?
      intro k
      rw [List.getElem?_take, List.getElem?_take]
      split
      · -- Within the header the files agree, since a byte of a page lies behind it.
        rename_i small
        rcases twin.bytes filename held held' opened opened' k with equal | ⟨v, _, -, -, low, -⟩
        · rw [List.getD_eq_getElem?_getD, List.getD_eq_getElem?_getD] at equal
          by_cases inside : k < held.length
          · rw [List.getElem?_eq_getElem inside, List.getElem?_eq_getElem (length.symm ▸ inside)]
              at equal ⊢
            exact congrArg some equal.symm
          · rw [List.getElem?_eq_none (by omega), List.getElem?_eq_none (by omega)]
        · simp only [AddrSpace.fileOffset, sizeofNoffHeader] at low small
          omega
      · rfl
    simp only [AddrSpace.header, readAt, List.drop_zero, front]

/-- Creating an address space keeps two runs alike. -/
theorem Alike.create (alike : Alike threadId traced other) {creator : Int} {filename : FileName}
    {stack : List Byte} (inTable : traced.kernel.virtMemManager.InTable creator)
    (runnable : VmKernel.Runnable traced.kernel.files filename stack) (uninitialised : AddrSpace)
    (now : Int) :
    Option.Rel (Alike threadId) (traced.step (now, .create creator filename stack uninitialised))
      (other.step (now, .create creator filename stack uninitialised)) := by
  obtain ⟨table, sized, twin, reads⟩ := alike
  rename_i kernel wroteBack log log' files memory
  -- The constructor sees the same header in both runs.
  have sameResult : kernel.virtMemManager.createAddrSpace files creator filename stack
      uninitialised = kernel.virtMemManager.createAddrSpace kernel.files creator filename stack
      uninitialised := by
    unfold VirtMemManager.createAddrSpace
    rw [new_twin twin]
  -- The other run takes the same step.
  have served' : Traced.step ⟨kernel.upon files memory, wroteBack, log'⟩
      (now, .create creator filename stack uninitialised) =
      (kernel.virtMemManager.createAddrSpace kernel.files creator filename stack
        uninitialised).bind fun virtMemManager =>
      some ⟨VmKernel.upon { kernel with virtMemManager } files memory, wroteBack, log'⟩ := by
    rw [← sameResult]
    simp only [Traced.step, VmKernel.serve, Option.bind_eq_bind, Option.bind_assoc]
    rfl
  have served : Traced.step ⟨kernel, wroteBack, log⟩
      (now, .create creator filename stack uninitialised) =
      (kernel.virtMemManager.createAddrSpace kernel.files creator filename stack
        uninitialised).bind fun virtMemManager =>
      some ⟨{ kernel with virtMemManager }, wroteBack, log⟩ := by
    simp only [Traced.step, VmKernel.serve, Option.bind_eq_bind, Option.bind_assoc]
    rfl
  rw [served, served']
  rcases VmKernel.createAddrSpace_cases inTable runnable uninitialised with
    same | ⟨entry, contents, absent, opened, rfl, built⟩
  · -- The space is not accepted, and nothing changes.
    rw [same]
    exact .some (.intro table sized twin reads)
  · -- The space is new, and its thread had none.
    rw [built]
    refine .some (.intro (table.withEntry inTable absent rfl opened) ?_ (twin.congr rfl rfl) reads)
    -- The machine's page table belongs to a thread that was there before.
    intro pointer points
    obtain ⟨space, live, pages⟩ := sized pointer points
    refine ⟨space, ?_, pages⟩
    have looked := VirtMemManager.getAddrSpaceOfThread_withEntry inTable {
      threadId := creator
      numPages := AddrSpace.pagesOf (AddrSpace.header contents stack)
      exeFileId := filename
      pageTable := AddrSpace.freshEntry } pointer
    -- Had the thread been the creator, it would have had a space.
    rw [if_neg] at looked
    · exact looked.trans live
    · rintro rfl
      rw [VmKernel.getAddrSpaceOfThread, absent] at live
      cases live

/-- Loading a thread keeps two runs alike. -/
theorem Alike.switchTo (alike : Alike threadId traced other) (next : Int) (now : Int) :
    Option.Rel (Alike threadId) (traced.step (now, .switchTo next))
      (other.step (now, .switchTo next)) := by
  obtain ⟨table, sized, twin, reads⟩ := alike
  rename_i kernel wroteBack log log' files memory
  simp only [Traced.step, VmKernel.serve, Option.bind_eq_bind, Option.bind_some, Option.pure_def]
  -- The page table is that of the space, if the thread has one, in both kernels.
  cases live : kernel.getAddrSpaceOfThread next with
  -- The thread has no space, and the machine keeps its page table.
  | none =>
    have loads : kernel.runThread next = { kernel with currentThread := next } := by
      unfold VmKernel.runThread
      change (match kernel.getAddrSpaceOfThread next with | some space => _ | none => _) = _
      rw [live]
    have loads' : (kernel.upon files memory).runThread next =
        VmKernel.upon { kernel with currentThread := next } files memory := by
      unfold VmKernel.runThread
      change (match kernel.getAddrSpaceOfThread next with | some space => _ | none => _) = _
      rw [live]
      rfl
    rw [loads, loads']
    exact .some (.intro (table.congr rfl rfl rfl) sized (twin.congr rfl rfl) reads)
  -- The thread has a space, and its page table is loaded.
  | some space =>
    have loads : kernel.runThread next = { kernel with
        currentThread := next, pageTable := some next, pageTableSize := space.numPages } := by
      unfold VmKernel.runThread
      change (match kernel.getAddrSpaceOfThread next with | some space => _ | none => _) = _
      rw [live]
    have loads' : (kernel.upon files memory).runThread next = VmKernel.upon { kernel with
        currentThread := next, pageTable := some next, pageTableSize := space.numPages }
        files memory := by
      unfold VmKernel.runThread
      change (match kernel.getAddrSpaceOfThread next with | some space => _ | none => _) = _
      rw [live]
      rfl
    rw [loads, loads']
    refine .some (.intro (table.congr rfl rfl rfl) ?_ (twin.congr rfl rfl) reads)
    -- The page table is as long as the space.
    intro pointer points
    obtain rfl := Option.some.inj points
    exact ⟨space, live, rfl⟩

/-- A read keeps two runs alike, and gives the thread that matters the same value in both. -/
theorem Alike.read (alike : Alike threadId traced other) {reader : Int} {addr : Word} {size : Nat}
    {now : Int} (loaded : traced.kernel.pageTable = some reader)
    (isolated : traced.Isolated threadId (now, .read reader addr size)) :
    Option.Rel (Alike threadId) (traced.step (now, .read reader addr size))
      (other.step (now, .read reader addr size)) := by
  obtain ⟨table, sized, twin, reads⟩ := alike
  rename_i kernel wroteBack log log' files memory
  dsimp only at loaded
  -- Only the thread that runs reads.
  simp only [Traced.step, VmKernel.serve]
  by_cases current : kernel.currentThread = reader
  swap
  · have current' : ¬ (kernel.upon files memory).currentThread = reader := current
    rw [if_neg current, if_neg current']
    exact .none
  have current' : (kernel.upon files memory).currentThread = reader := current
  rw [if_pos current, if_pos current']
  -- Both runs note the same write-back.
  have noted : Traced.noteAccess ⟨kernel.upon files memory, wroteBack, log'⟩ addr size false =
      Traced.noteAccess ⟨kernel, wroteBack, log⟩ addr size false :=
    noteAccess_upon kernel wroteBack log log' files memory addr size false
  -- The page is found in both runs or in neither.
  rcases twin.locate table (fun paged mine => (isolated (current ▸ mine)).2 paged) now with
    ⟨refused, refused'⟩ | ⟨physAddr, next, files', memory', located, located', after⟩
  · simp only [VmKernel.readMem, refused, refused']
    exact .none
  simp only [VmKernel.readMem, located, located', noted]
  by_cases ok : size = 1 ∨ size = 2 ∨ size = 4
  swap
  · -- The access is of a size that the machine does not have.
    have bad : VmKernel.valueOf (next.mainMemory.slice physAddr size) = none :=
      VmKernel.valueOf_none (by simpa using ok)
    have bad' : VmKernel.valueOf (MainMemory.slice memory' physAddr size) = none :=
      VmKernel.valueOf_none (by simpa using ok)
    simp only [Option.bind_eq_bind, Option.bind_some, bad, VmKernel.upon, bad']
    exact .none
  -- An access of such a size has a value.
  obtain ⟨value, valued⟩ : ∃ value,
      VmKernel.valueOf (next.mainMemory.slice physAddr size) = some value :=
    VmKernel.valueOf_some (by simpa using ok)
  obtain ⟨value', valued'⟩ : ∃ value',
      VmKernel.valueOf (MainMemory.slice memory' physAddr size) = some value' :=
    VmKernel.valueOf_some (by simpa using ok)
  simp only [Option.bind_eq_bind, Option.bind_some, valued, VmKernel.upon, valued',
    Option.pure_def]
  have complete := table.reaches (VmKernel.locate_reaches located)
  refine .some (.intro complete (sized.sameThread (VmKernel.locate_sameThread located)) after ?_)
  rw [readsIn_cons, readsIn_cons]
  by_cases mine : reader = threadId
  · -- The thread reads its own frame, which is the same in both runs.
    subst mine
    obtain ⟨page, address, resident⟩ := VmKernel.locate_own table sized
      (loaded.trans (congrArg some current.symm)) (isolated rfl).1 located
    obtain ⟨q, frame, -, -, owner⟩ := complete.recorded _ _ _ resident
    obtain rfl : page = q := by exact_mod_cast frame
    have fits := VmKernel.fits_of_located ok located
    have same : next.mainMemory.slice physAddr size = MainMemory.slice memory' physAddr size := by
      apply MainMemory.slice_congr
      intro i small
      rw [address, Nat.add_assoc]
      exact after.frames page (fun _ => by rw [owner]; exact current) _ (by omega)
    rw [same, valued'] at valued
    rw [if_pos rfl, if_pos rfl, Option.some.inj valued, reads]
  · -- What another thread reads is not in the log of this one.
    rw [if_neg mine, if_neg mine]
    exact reads

/-- A store keeps two runs alike, also if it stores different values for another thread. -/
theorem Alike.write (alike : Alike threadId traced other) {writer : Int} {addr : Word} {size : Nat}
    {value value' : Word} {now : Int} (loaded : traced.kernel.pageTable = some writer)
    (isolated : traced.Isolated threadId (now, .write writer addr size value))
    (same : writer = threadId → value = value') :
    Option.Rel (Alike threadId) (traced.step (now, .write writer addr size value))
      (other.step (now, .write writer addr size value')) := by
  obtain ⟨table, sized, twin, reads⟩ := alike
  rename_i kernel wroteBack log log' files memory
  dsimp only at loaded
  -- Only the thread that runs stores.
  simp only [Traced.step, VmKernel.serve]
  by_cases current : kernel.currentThread = writer
  swap
  · have current' : ¬ (kernel.upon files memory).currentThread = writer := current
    rw [if_neg current, if_neg current']
    exact .none
  have current' : (kernel.upon files memory).currentThread = writer := current
  rw [if_pos current, if_pos current']
  -- Both runs note the same write-back.
  have noted : Traced.noteAccess ⟨kernel.upon files memory, wroteBack, log'⟩ addr size true =
      Traced.noteAccess ⟨kernel, wroteBack, log⟩ addr size true :=
    noteAccess_upon kernel wroteBack log log' files memory addr size true
  -- The page is found in both runs or in neither.
  rcases twin.locate table (fun paged mine => isolated.2 (current ▸ mine) paged) now with
    ⟨refused, refused'⟩ | ⟨physAddr, next, files', memory', located, located', after⟩
  · simp only [VmKernel.writeMem, refused, refused']
    exact .none
  simp only [VmKernel.writeMem, located, located', noted]
  by_cases ok : size = 1 ∨ size = 2 ∨ size = 4
  swap
  · -- The access is of a size that the machine does not have.
    simp only [Option.bind_eq_bind, Option.bind_some, if_neg ok]
    exact .none
  simp only [Option.bind_eq_bind, Option.bind_some, if_pos ok, Option.pure_def]
  -- The access has kept the frame table and the sizes of the spaces.
  have complete := table.reaches (VmKernel.locate_reaches located)
  have fitted := sized.sameThread (VmKernel.locate_sameThread located)
  refine .some (.intro (complete.congr rfl rfl rfl) (by exact fitted)
    ⟨after.opens, after.bytes, ?_⟩ reads)
  intro page visible i small
  change MainMemory.store next.mainMemory _ _ _ = _
  by_cases mine : writer = threadId
  · -- The thread's own store is the same in both runs, wherever it goes.
    rw [same mine]
    unfold MainMemory.store
    split
    · rfl
    · exact after.frames page visible i small
  · -- Another thread's store goes to a frame of its own, which the thread cannot see.
    obtain ⟨own, address, resident⟩ := VmKernel.locate_own table sized
      (loaded.trans (congrArg some current.symm)) (isolated.1 mine) located
    obtain ⟨q, frame, -, taken, owner⟩ := complete.recorded _ _ _ resident
    obtain rfl : own = q := by exact_mod_cast frame
    have apart : page ≠ own := by
      rintro rfl
      have seen := visible taken
      dsimp only at seen
      rw [owner] at seen
      exact mine (current.symm.trans seen)
    have fits := VmKernel.fits_of_located ok located
    have outside : page * pageSize + i < physAddr ∨ physAddr + size ≤ page * pageSize + i := by
      rw [address]
      simp only [pageSize] at *
      rcases Nat.lt_or_gt_of_ne apart with before | behind <;> omega
    rw [MainMemory.store_outside _ (by simpa using outside),
      MainMemory.store_outside _ (by simpa using outside)]
    exact after.frames page visible i small

/-- Every admitted step under the condition keeps two runs alike. -/
theorem Alike.step (alike : Alike threadId traced other) {timed timed' : Int × VmEvent}
    (matched : SameBut threadId timed timed') (admitted : traced.Admitted timed)
    (isolated : traced.Isolated threadId timed) :
    Option.Rel (Alike threadId) (traced.step timed) (other.step timed') := by
  -- The same event, or stores of another thread with different values.
  -- By cases on the pair, and then on the event.
  cases matched with
  | same =>
    obtain ⟨now, event⟩ := timed
    cases event with
    | create creator filename stack uninitialised =>
      exact alike.create admitted.1 admitted.2 uninitialised now
    | switchTo next => exact alike.switchTo next now
    | read reader addr size => exact alike.read admitted isolated
    | write writer addr size value => exact alike.write admitted isolated fun _ => rfl
    | delete => exact admitted.elim
    | fault => exact admitted.elim
  -- Only other threads store different values.
  | stored now writer addr size value value' different =>
    exact alike.write admitted isolated fun same => absurd same different

end Traced

/--
Processes are isolated as long as no page of one is reached by another.

Two runs that differ only in what other processes store give the thread the same values to read,
if in each step the TLB leads the accesses to the frames of the pages they are meant for, and what
is brought in for the thread is its own.
-/
theorem processes_isolated (files : UnixFiles) (mainMemory : MainMemory) (tlb : TLB)
    (owners : Nat → PhyMemPageEntry) (currentThread threadId : Int)
    (events others : List (Int × VmEvent)) (matched : List.Forall₂ (SameBut threadId) events others)
    (admitted : EveryStep Traced.step Traced.Admitted
      (.start (.boot files mainMemory tlb owners currentThread)) events)
    (isolated : EveryStep Traced.step (Traced.Isolated threadId)
      (.start (.boot files mainMemory tlb owners currentThread)) events) :
    (replay Traced.step (.start (.boot files mainMemory tlb owners currentThread)) events).map
        (Traced.readsOf threadId) =
      (replay Traced.step (.start (.boot files mainMemory tlb owners currentThread)) others).map
        (Traced.readsOf threadId) := by
  -- What holds at boot is carried along the runs by the lemma for one step.
  have table := VmKernel.frameTable_boot files mainMemory tlb owners currentThread
  -- The two runs start from the same state.
  have start : Traced.Alike threadId (.start (.boot files mainMemory tlb owners currentThread))
      (.start (.boot files mainMemory tlb owners currentThread)) := by
    refine .intro table (fun pointer points => by cases points) (?_ : VmKernel.Twin threadId _ _
      (.boot files mainMemory tlb owners currentThread) files mainMemory) rfl
    refine ⟨fun _ => rfl, fun _ held held' opened opened' k => .inl ?_, fun _ _ _ _ => rfl⟩
    rw [Option.some.inj (opened.symm.trans opened')]
  -- What one step keeps, in the form that the rule for runs asks for.
  have kept : ∀ (traced other : Traced) (timed timed' : Int × VmEvent),
      Traced.Alike threadId traced other → SameBut threadId timed timed' →
      (traced.Admitted timed ∧ traced.Isolated threadId timed) →
      Option.Rel (Traced.Alike threadId) (traced.step timed) (other.step timed') :=
    fun _ _ _ _ alike matched both => alike.step matched both.1 both.2
  have ran := replay_related kept matched start (admitted.and isolated)
  cases first : replay Traced.step (.start (.boot files mainMemory tlb owners currentThread))
      events with
  -- Both runs abort, or both end, with the same values read.
  | none =>
    rw [first] at ran
    generalize second : replay Traced.step _ others = result at ran ⊢
    cases ran
    rfl
  | some final =>
    rw [first] at ran
    generalize second : replay Traced.step _ others = result at ran ⊢
    cases ran with
    | some alike =>
      obtain ⟨-, -, -, reads⟩ := alike
      exact congrArg some reads.symm

/-- A kernel whose files are all the same small executable, with nothing loaded. -/
def sharedBoot : Traced :=
  .start (.boot (fun _ => some emptyProgram) (fun _ => 0) (fun _ _ => ⟨0, 0, true, 0, 0⟩)
    (fun _ => ⟨5, 5⟩) 0)

/-- Two processes of different executables, each of which uses pages that are not in the TLB. -/
def partedEvents (value : Word) : List (Int × VmEvent) :=
  [(1, .create 0 [1] [] ⟨0, 0, [], AddrSpace.freshEntry⟩),
    (2, .create 1 [2] [] ⟨0, 0, [], AddrSpace.freshEntry⟩),
    (3, .switchTo 1), (4, .write 1 0 1 value), (5, .switchTo 0), (6, .read 0 128 1)]

/-- A value stored by a process that uses no page number of the reader makes no difference. -/
theorem processes_isolated_parted :
    (replay Traced.step sharedBoot (partedEvents 7)).map (Traced.readsOf 0) =
      (replay Traced.step sharedBoot (partedEvents 8)).map (Traced.readsOf 0) := by
  refine processes_isolated _ _ _ _ 0 0 (partedEvents 7) (partedEvents 8) ?_ (by decide +kernel)
    (by decide +kernel)
  exact .cons (.same _) (.cons (.same _) (.cons (.same _)
    (.cons (.stored _ _ _ _ _ _ (by decide)) (.cons (.same _) (.cons (.same _) .nil)))))

/-- The same pages in both processes: the reader's access is served by the other's TLB entry. -/
def sharedEvents (value : Word) : List (Int × VmEvent) :=
  [(1, .create 0 [1] [] ⟨0, 0, [], AddrSpace.freshEntry⟩),
    (2, .create 1 [2] [] ⟨0, 0, [], AddrSpace.freshEntry⟩),
    (3, .switchTo 1), (4, .write 1 0 1 value), (5, .switchTo 0), (6, .read 0 0 1)]

/-- The value that one process stores is what the other process reads. -/
theorem processes_leak :
    List.Forall₂ (SameBut 0) (sharedEvents 7) (sharedEvents 8) ∧
      EveryStep Traced.step Traced.Admitted sharedBoot (sharedEvents 7) ∧
      EveryStep Traced.step Traced.Admitted sharedBoot (sharedEvents 8) ∧
      (replay Traced.step sharedBoot (sharedEvents 7)).map (Traced.readsOf 0) = some [7] ∧
      (replay Traced.step sharedBoot (sharedEvents 8)).map (Traced.readsOf 0) = some [8] := by
  refine ⟨?_, by decide +kernel, by decide +kernel, by decide +kernel, by decide +kernel⟩
  exact .cons (.same _) (.cons (.same _) (.cons (.same _)
    (.cons (.stored _ _ _ _ _ _ (by decide)) (.cons (.same _) (.cons (.same _) .nil)))))

end Nachos
