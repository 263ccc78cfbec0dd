import Nachos.Proofs.Machine.Tlb
import Nachos.Proofs.Vm.FrameTable

/-! When a process reads back its own writes: a condition on what each page fault throws out. -/

namespace Nachos

/-- A run of memory accesses, watched from outside. -/
structure Observed where
  kernel : VmKernel
  -- The pages that have been brought in before.
  seen : Nat → Bool
  -- The byte that should be at each virtual address of those pages.
  reference : MainMemory
  -- What each read returned, with what it should have returned.
  log : List (Int × Int)

namespace Observed

/-- Before anything has been accessed. -/
def start (kernel : VmKernel) : Observed :=
  { kernel, seen := fun _ => false, reference := fun _ => 0, log := [] }

/-- The frame that the current thread's page table has for a page. -/
def frameOf (kernel : VmKernel) (vpn : Nat) : Nat :=
  match kernel.getAddrSpaceOfThread kernel.currentThread with
  | some space => (space.pageTable vpn).physicalPage.toNat
  | none => 0

/-- At the first access to a page, note the bytes that the access has brought in for it. -/
def notice (observed : Observed) (kernel : VmKernel) (vpn : Nat) : Observed :=
  if observed.seen vpn then { observed with kernel }
  else { observed with
    kernel
    seen := Function.update observed.seen vpn true
    reference := fun a =>
      if a / pageSize = vpn then kernel.mainMemory (frameOf kernel vpn * pageSize + a % pageSize)
      else observed.reference a }

/-- One access by the kernel, and the same access to the bytes that should be there. -/
def step (observed : Observed) : Int × VmEvent → Option Observed
  | (now, .read threadId addr size) => do
    let (value, kernel) ← observed.kernel.serve now (.read threadId addr size)
    let noticed := observed.notice kernel (addr.toNat / pageSize)
    let expected ← VmKernel.valueOf (noticed.reference.slice addr.toNat size)
    return { noticed with log := (← value, expected) :: noticed.log }
  | (now, .write threadId addr size value) => do
    let (_, kernel) ← observed.kernel.serve now (.write threadId addr size value)
    let noticed := observed.notice kernel (addr.toNat / pageSize)
    return { noticed with
      reference := noticed.reference.store addr.toNat (leBytes size value.toNat) }
  | _ => none

@[simp] theorem notice_kernel (observed : Observed) (kernel : VmKernel) (vpn : Nat) :
    (observed.notice kernel vpn).kernel = kernel := by
  unfold notice
  split <;> rfl

@[simp] theorem notice_log (observed : Observed) (kernel : VmKernel) (vpn : Nat) :
    (observed.notice kernel vpn).log = observed.log := by
  unfold notice
  split <;> rfl

/-- Noting a page makes it one that has been seen. -/
theorem notice_seen (observed : Observed) (kernel : VmKernel) (vpn v : Nat) :
    (observed.notice kernel vpn).seen v = true ↔ v = vpn ∨ observed.seen v = true := by
  unfold notice
  cases seen : observed.seen vpn with
  | false => by_cases same : v = vpn <;> simp [same]
  | true =>
    simp only [if_true]
    exact ⟨.inr, fun either => either.elim (fun same => same ▸ seen) id⟩

/-- Noting a page for the first time takes its bytes from its frame. -/
theorem notice_reference_first {observed : Observed} {vpn : Nat} (kernel : VmKernel)
    (unseen : observed.seen vpn = false) {i : Nat} (small : i < pageSize) :
    (observed.notice kernel vpn).reference (vpn * pageSize + i) =
      kernel.mainMemory (frameOf kernel vpn * pageSize + i) := by
  have quotient : (vpn * pageSize + i) / pageSize = vpn := by simp only [pageSize] at *; omega
  have remainder : (vpn * pageSize + i) % pageSize = i := by simp only [pageSize] at *; omega
  unfold notice
  rw [unseen]
  simp only [Bool.false_eq_true, if_false, quotient, if_true, remainder]

/-- Noting a page that has been seen keeps what is noted. -/
theorem notice_reference_again {observed : Observed} {vpn : Nat} (kernel : VmKernel)
    (seen : observed.seen vpn = true) :
    (observed.notice kernel vpn).reference = observed.reference := by
  unfold notice
  rw [if_pos seen]

/-- Noting a page keeps what is noted for the others. -/
theorem notice_reference_ne {observed : Observed} {vpn v : Nat} (kernel : VmKernel)
    (different : v ≠ vpn) {i : Nat} (small : i < pageSize) :
    (observed.notice kernel vpn).reference (v * pageSize + i) =
      observed.reference (v * pageSize + i) := by
  have quotient : (v * pageSize + i) / pageSize = v := by simp only [pageSize] at *; omega
  unfold notice
  split
  · rfl
  · simp only [quotient, if_neg different]

end Observed

namespace VmKernel

variable {kernel : VmKernel}

/-- The page is neither in the TLB nor in memory. -/
def Faults (kernel : VmKernel) (vpn : Nat) : Prop :=
  kernel.tlb.hit vpn = none ∧ ∀ page, ¬ kernel.Resident kernel.currentThread vpn page

/--
The page that the replacement strategy throws out can come back as it is.

No entry of the TLB maps its frame, and it is either written back, or what its file would bring
back is already what is in its frame.
-/
def KeepsVictim (kernel : VmKernel) : Prop :=
  let page := kernel.phyMemManager.swapOnePage
  let owner := kernel.phyMemManager.phyMemPageTable page
  (∀ set way, (kernel.tlb set way).valid = true → (kernel.tlb set way).ppn ≠ page) ∧
  ∀ space contents, kernel.getAddrSpaceOfThread owner.mainThreadId = some space →
    kernel.files space.exeFileId = some contents →
    (space.pageTable owner.virtualPage.toNat).dirty = true ∨
      pageBytes contents owner.virtualPage.toNat = kernel.mainMemory.frame page

end VmKernel

section PageFile

variable {contents : List Byte}

/-- A page that is written back is what its file then brings back. -/
theorem pageBytes_writeAt (contents bytes : List Byte) (vpn : Nat)
    (whole : bytes.length = pageSize) :
    VmKernel.pageBytes (writeAt contents bytes (AddrSpace.fileOffset vpn)) vpn = bytes := by
  -- The bytes lie at the page's own place of the file.
  apply List.ext_getElem?
  intro i
  unfold VmKernel.pageBytes writeAt splice
  rw [List.getElem?_take]
  -- Each of its bytes is found again behind what lies before it.
  split
  · rename_i inside
    rw [List.getElem?_drop, List.append_assoc, List.append_assoc, ← List.append_assoc,
      List.getElem?_append_right (by simp; omega), List.getElem?_append_left (by simp; omega)]
    congr 1
    simp
    omega
  · rename_i outside
    rw [List.getElem?_eq_none (by omega)]

/-- Writing a page back changes no other page that lies in the file as a whole. -/
theorem pageBytes_writeAt_ne {bytes : List Byte} {vpn other : Nat} (different : other ≠ vpn)
    (whole : bytes.length = pageSize)
    (covered : (VmKernel.pageBytes contents other).length = pageSize) :
    VmKernel.pageBytes (writeAt contents bytes (AddrSpace.fileOffset vpn)) other =
      VmKernel.pageBytes contents other := by
  -- The other page lies in the file.
  have reach : AddrSpace.fileOffset other + pageSize ≤ contents.length := by
    simp only [VmKernel.pageBytes, List.length_take, List.length_drop, pageSize] at covered ⊢
    omega
  -- Every byte of the other page is before the page or after it.
  have apart : ∀ i < pageSize, AddrSpace.fileOffset other + i < AddrSpace.fileOffset vpn ∨
      AddrSpace.fileOffset vpn + pageSize ≤ AddrSpace.fileOffset other + i := by
    intro i inside
    simp only [AddrSpace.fileOffset, pageSize] at inside ⊢
    rcases Nat.lt_or_gt_of_ne different with before | after <;> omega
  -- It does so after the write.
  have written : AddrSpace.fileOffset other + pageSize ≤
      (writeAt contents bytes (AddrSpace.fileOffset vpn)).length := by
    simp only [writeAt, length_splice]
    omega
  apply List.ext_getElem?
  intro i
  -- A byte of the other page is not among those that are written.
  simp only [VmKernel.pageBytes, List.getElem?_take, List.getElem?_drop]
  split
  · rename_i inside
    have same := getD_splice 0 contents (AddrSpace.fileOffset vpn) bytes
      (AddrSpace.fileOffset other + i)
    rw [if_neg (by have := apart i inside; omega)] at same
    rw [List.getD_eq_getElem _ _ (by simp only [writeAt] at written; omega),
      List.getD_eq_getElem _ _ (by omega)] at same
    rw [List.getElem?_eq_getElem (by omega), List.getElem?_eq_getElem (by omega)]
    exact congrArg some same
  · -- Behind the page nothing is looked at.
    rfl

end PageFile

/--
Memory, TLB and executable together hold the bytes that the one process should see.

A page in memory holds them in its frame, and a page that was thrown out left them in the file.
-/
structure Mirror (threadId : Int) (numPages : Nat) (file : FileName) (observed : Observed) :
    Prop where
  bounded : numPages < 2 ^ 32
  current : observed.kernel.currentThread = threadId
  pointer : observed.kernel.pageTable = some threadId
  size : observed.kernel.pageTableSize = numPages
  live : ∃ space, observed.kernel.getAddrSpaceOfThread threadId = some space ∧
    space.numPages = numPages ∧ space.exeFileId = file ∧
    ∀ v, (space.pageTable v).readOnly = false
  alone : ∀ other space, observed.kernel.getAddrSpaceOfThread other = some space →
    other = threadId
  mapped : ∀ set way, (observed.kernel.tlb set way).valid = true → ∃ v, TLB.index v = set ∧
    TLB.tagOf v = (observed.kernel.tlb set way).tag ∧
    observed.kernel.Resident threadId v (observed.kernel.tlb set way).ppn
  inside : ∀ v (page : Nat), observed.kernel.Resident threadId v page → observed.seen v = true ∧
    ∀ i < pageSize, observed.kernel.mainMemory (page * pageSize + i) =
      observed.reference (v * pageSize + i)
  outside : ∀ v < numPages, observed.seen v = true →
    (∀ page, ¬ observed.kernel.Resident threadId v page) →
    ∀ contents, observed.kernel.files file = some contents →
      VmKernel.pageBytes contents v = observed.reference.slice (v * pageSize) pageSize

namespace Mirror

variable {threadId : Int} {numPages : Nat} {file : FileName} {observed : Observed}

/-- All pages may be written still after an entry has been replaced by one like it. -/
theorem setEntry_writable {space : AddrSpace} {vpn : Nat} {entry : TranslationEntry}
    (writable : ∀ v, (space.pageTable v).readOnly = false)
    (same : entry.readOnly = (space.pageTable vpn).readOnly) (v : Nat) :
    ((space.setEntry vpn entry).pageTable v).readOnly = false := by
  by_cases here : v = vpn
  · subst here
    simp [same, writable]
  · simp [here, writable]

/-- A page that the process has in memory is a page of its address space. -/
theorem below (mirror : Mirror threadId numPages file observed) {v : Nat} {page : Int}
    (resident : observed.kernel.Resident threadId v page) : v < numPages := by
  obtain ⟨space, live, pages, -, -⟩ := mirror.live
  obtain ⟨space', live', inTable, -, -⟩ := resident
  rw [live] at live'
  cases live'
  exact pages ▸ inTable

/-- A hit in the TLB is the frame that the page is in. -/
theorem hit (mirror : Mirror threadId numPages file observed) {vpn : Nat} {way : Fin 4}
    (below : vpn < numPages) (found : observed.kernel.tlb.hit vpn = some way) :
    observed.kernel.Resident threadId vpn (observed.kernel.tlb (TLB.index vpn) way).ppn := by
  obtain ⟨valid, tag⟩ := TLB.hit_some found
  obtain ⟨v, set, tagged, resident⟩ := mirror.mapped _ way valid
  -- The set and the tag leave no choice which page the entry maps.
  have bounded := mirror.bounded
  have inTable := mirror.below resident
  have same : v = vpn :=
    TLB.eq_of_tag_index (by omega) (by omega) (tagged.trans tag) set
  exact same ▸ resident

/-- Taking a frame keeps what the process should see, if the page thrown out can come back. -/
theorem taken (mirror : Mirror threadId numPages file observed)
    (keeps : observed.kernel.Full → observed.kernel.KeepsVictim) {page : Nat} {middle : VmKernel}
    (taken : observed.kernel.FrameTaken page middle) :
    Mirror threadId numPages file { observed with kernel := middle } := by
  -- A free frame costs nothing, and else the victim is to come back.
  cases taken with
  | free => exact ⟨mirror.bounded, mirror.current, mirror.pointer, mirror.size, mirror.live,
      mirror.alone, mirror.mapped, mirror.inside, mirror.outside⟩
  | @swapped owner vpn space contents full chosen inRange recorded live below valid frame
      opened =>
    -- The victim can only be a page of the process itself.
    obtain rfl : owner = threadId := mirror.alone owner space live
    obtain ⟨own, ownLive, pages, exe, writable⟩ := mirror.live
    rw [live] at ownLive
    cases ownLive
    have held : observed.kernel.files file = some contents := exe ▸ opened
    have victimHere : observed.kernel.Resident owner vpn page := ⟨space, live, below, valid, frame⟩
    -- By the condition no translation leads to the victim, and its bytes are not lost.
    obtain ⟨unmapped, kept⟩ := keeps full
    rw [← chosen] at unmapped kept
    rw [recorded] at kept
    have saved := kept space contents live opened
    simp only [Int.toNat_natCast] at saved
    have residents := VmKernel.resident_evicted live below contents page
    -- The clauses that speak of files and frames are looked at one by one.
    refine ⟨mirror.bounded, mirror.current, mirror.pointer, mirror.size, ?_, ?_, ?_, ?_, ?_⟩
    · -- The space is the same, but for the entry of the victim.
      have found := observed.kernel.getAddrSpaceOfThread_setEntry owner vpn
        { space.pageTable vpn with valid := false } owner
      rw [if_pos rfl, live] at found
      exact ⟨_, found, pages, exe, setEntry_writable writable rfl⟩
    · -- There is still only one space.
      intro other after lives
      obtain ⟨before, wasLive, -⟩ := VmKernel.evicted_live lives
      exact mirror.alone other before wasLive
    · -- No entry maps the victim, so every entry still maps a page in memory.
      intro set way validEntry
      have within : (observed.kernel.evicted owner vpn space contents page).tlb.Within
          observed.kernel.tlb := by
        cases dirty : (space.pageTable vpn).dirty with
        | false => simpa [VmKernel.evicted, dirty] using TLB.Within.refl _
        | true => simpa [VmKernel.evicted, dirty] using TLB.invalidEntry_within vpn owner.toNat
      obtain ⟨wasValid, tag, ppn⟩ := within set way validEntry
      obtain ⟨v, index, tagged, resident⟩ := mirror.mapped set way wasValid
      refine ⟨v, index, tagged.trans tag.symm, ?_⟩
      dsimp only
      rw [ppn]
      refine (residents owner v _).mpr ⟨?_, resident⟩
      rintro ⟨-, rfl⟩
      exact unmapped set way wasValid (resident.unique victimHere)
    · -- What is still in memory holds what it held.
      intro v frame resident
      exact mirror.inside v frame ((residents owner v frame).mp resident).2
    · intro v inTable seen absent after opened'
      have whole : (observed.kernel.mainMemory.frame page).length = pageSize := by
        simp [MainMemory.frame]
      -- The file after the eviction: written to if the victim was dirty.
      have files : observed.kernel.files file = some after ∧ (space.pageTable vpn).dirty = false ∨
          after = writeAt contents (observed.kernel.mainMemory.frame page)
            (AddrSpace.fileOffset vpn) := by
        cases dirty : (space.pageTable vpn).dirty with
        | false => exact .inl ⟨by simpa [VmKernel.evicted, dirty] using opened', rfl⟩
        | true =>
          right
          simpa [VmKernel.evicted, dirty, exe, eq_comm] using opened'
      by_cases same : v = vpn
      · -- The victim itself: either way its bytes are in the file now.
        subst same
        have frameBytes : observed.kernel.mainMemory.frame page =
            observed.reference.slice (v * pageSize) pageSize :=
          MainMemory.slice_congr (mirror.inside v page victimHere).2
        -- It is clean and as in the file, or has been written back.
        rcases files with ⟨unchanged, clean⟩ | rfl
        · rw [held] at unchanged
          cases unchanged
          rcases saved with dirty | same
          · rw [clean] at dirty
            cases dirty
          · exact same.trans frameBytes
        · exact (pageBytes_writeAt _ _ _ whole).trans frameBytes
      · -- Another page that is in the file stays as it was there.
        have wasAbsent : ∀ page, ¬ observed.kernel.Resident owner v page := fun frame resident =>
          absent frame ((residents owner v frame).mpr ⟨fun both => same both.2, resident⟩)
        have before := mirror.outside v inTable seen wasAbsent contents held
        rcases files with ⟨unchanged, -⟩ | rfl
        · exact mirror.outside v inTable seen wasAbsent after unchanged
        · rw [pageBytes_writeAt_ne same whole (by rw [before]; simp)]
          exact before

/-- The frame that the page table has for a page in memory. -/
theorem frameOf_eq {kernel : VmKernel} {vpn page : Nat}
    (resident : kernel.Resident kernel.currentThread vpn page) :
    Observed.frameOf kernel vpn = page := by
  obtain ⟨space, live, -, -, frame⟩ := resident
  simp [Observed.frameOf, live, frame]

/-- Reading a page into its frame gives the process what it should see of that page. -/
theorem loaded (mirror : Mirror threadId numPages file observed) {page vpn : Nat}
    {space : AddrSpace} {contents : List Byte} (vacant : observed.kernel.Vacant page)
    (live : observed.kernel.getAddrSpaceOfThread threadId = some space)
    (below : vpn < numPages) (invalid : (space.pageTable vpn).valid = false)
    (opened : observed.kernel.files file = some contents) (now : Int) :
    Mirror threadId numPages file
        (observed.notice (observed.kernel.loaded now space contents vpn page) vpn) ∧
      (observed.kernel.loaded now space contents vpn page).Resident threadId vpn page := by
  -- The space of the process is the only one.
  obtain ⟨own, ownLive, pages, exe, writable⟩ := mirror.live
  rw [live] at ownLive
  cases ownLive
  obtain rfl := mirror.current
  have inTable : vpn < space.numPages := pages.symm ▸ below
  have residents := VmKernel.resident_loaded live inTable now contents page
  have resident : (observed.kernel.loaded now space contents vpn page).Resident
      observed.kernel.currentThread vpn page := (residents _ _ _).mpr (by simp)
  have absent : ∀ frame, ¬ observed.kernel.Resident observed.kernel.currentThread vpn frame := by
    rintro frame ⟨found, looked, -, valid, -⟩
    rw [live] at looked
    cases looked
    rw [invalid] at valid
    cases valid
  have short : (VmKernel.pageBytes contents vpn).length ≤ pageSize := by
    simp only [VmKernel.pageBytes, List.length_take]
    omega
  -- The frames that are not filled are left alone.
  -- Other frames keep their bytes.
  have elsewhere : ∀ frame i, frame ≠ page → i < pageSize →
      (observed.kernel.loaded now space contents vpn page).mainMemory (frame * pageSize + i) =
        observed.kernel.mainMemory (frame * pageSize + i) := by
    intro frame i different small
    apply MainMemory.store_outside
    simp only [pageSize] at small short ⊢
    rcases Nat.lt_or_gt_of_ne different with before | after <;> omega
  -- The page itself holds the bytes that are noted for it, or that were noted before.
  have here : ∀ i < pageSize,
      (observed.kernel.loaded now space contents vpn page).mainMemory (page * pageSize + i) =
        (observed.notice (observed.kernel.loaded now space contents vpn page) vpn).reference
          (vpn * pageSize + i) := by
    intro i small
    -- The first time, what is in the frame is what is noted.
    cases seen : observed.seen vpn with
    | false => rw [Observed.notice_reference_first _ seen small, frameOf_eq resident]
    | true =>
      -- It comes back from the file, where its bytes were left.
      have left := mirror.outside vpn below seen absent contents opened
      have length : (VmKernel.pageBytes contents vpn).length = pageSize := by rw [left]; simp
      rw [Observed.notice_reference_again _ seen,
        ← MainMemory.getD_slice observed.reference (vpn * pageSize) small, ← left]
      exact MainMemory.store_inside observed.kernel.mainMemory (by omega)
  have noticed := observed.notice_seen (observed.kernel.loaded now space contents vpn page) vpn
  -- Of other pages nothing is noted anew.
  have others : ∀ v ≠ vpn, ∀ i < pageSize,
      (observed.notice (observed.kernel.loaded now space contents vpn page) vpn).reference
        (v * pageSize + i) = observed.reference (v * pageSize + i) :=
    fun v different i small => Observed.notice_reference_ne _ different small
  -- The clauses of the invariant one by one.
  refine ⟨⟨mirror.bounded, ?_, ?_, ?_, ?_, ?_, ?_, ?_, ?_⟩, resident⟩ <;>
    rw [Observed.notice_kernel]
  · -- The thread, its page table and its size stay.
    rfl
  · exact mirror.pointer
  · exact mirror.size
  · -- The space is the same, but for the entry of the page.
    have found := observed.kernel.getAddrSpaceOfThread_setEntry observed.kernel.currentThread vpn
      { space.pageTable vpn with valid := true, physicalPage := page }
      observed.kernel.currentThread
    rw [if_pos rfl, live] at found
    exact ⟨_, found, pages, exe, setEntry_writable writable rfl⟩
  · -- There is still only one space.
    intro other after lives
    obtain ⟨before, wasLive, -⟩ := VmKernel.live_setEntry (show (observed.kernel.setEntry
      observed.kernel.currentThread vpn { space.pageTable vpn with
        valid := true, physicalPage := page }).getAddrSpaceOfThread other = some after from lives)
    exact mirror.alone other before wasLive
  · -- The new page had no entry in the TLB, and the entries there are stay right.
    intro set way valid
    obtain ⟨v, index, tagged, wasResident⟩ := mirror.mapped set way valid
    refine ⟨v, index, tagged, (residents _ _ _).mpr ?_⟩
    rw [if_neg]
    · exact wasResident
    · rintro ⟨-, rfl⟩
      exact absent _ wasResident
  · -- What is in memory is the page itself, or was there before.
    intro v frame there
    rw [residents] at there
    by_cases same : v = vpn
    · subst same
      simp only [and_self, if_true] at there
      obtain rfl : frame = page := by exact_mod_cast there
      exact ⟨(noticed v).mpr (.inl rfl), here⟩
    · -- The other pages keep their bytes.
      simp only [same, and_false, if_false] at there
      obtain ⟨seen, bytes⟩ := mirror.inside v frame there
      refine ⟨(noticed v).mpr (.inr seen), fun i small => ?_⟩
      -- Its frame was not vacant, so it is another one.
      obtain ⟨q, sameFrame, -, different, -⟩ := vacant.recorded _ v frame there
      obtain rfl : frame = q := by exact_mod_cast sameFrame
      rw [elsewhere frame i different small, others v same i small]
      exact bytes i small
  · -- What is not in memory was not there before either, and its file is unchanged.
    intro v inside seen gone after held
    have different : v ≠ vpn := by
      rintro rfl
      exact gone page resident
    have wasSeen := ((noticed v).mp seen).resolve_left different
    have wasGone : ∀ frame, ¬ observed.kernel.Resident observed.kernel.currentThread v frame :=
      fun frame there => gone frame ((residents _ v frame).mpr (by simp [different, there]))
    rw [mirror.outside v inside wasSeen wasGone after held]
    exact MainMemory.slice_congr fun i small => (others v different i small).symm

/-- A page fault on a page that is not in memory brings it in as the process should see it. -/
theorem fault (mirror : Mirror threadId numPages file observed)
    (table : observed.kernel.FrameTable)
    (keeps : observed.kernel.Full → observed.kernel.KeepsVictim) {vpn : Nat}
    (below : vpn < numPages)
    (absent : ∀ page, ¬ observed.kernel.Resident threadId vpn page) (now : Int) :
    ∃ page served, observed.kernel.pageFaultHandler now vpn = some served ∧ served.FrameTable ∧
      Mirror threadId numPages file (observed.notice served vpn) ∧
      served.Resident threadId vpn (page : Nat) := by
  -- The entry of the page is not valid, or the page would be in memory.
  obtain ⟨space, live, pages, exe, -⟩ := mirror.live
  have current := mirror.current
  have inTable : vpn < space.numPages := pages.symm ▸ below
  have invalid : (space.pageTable vpn).valid = false := by
    by_contra valid
    exact absent _ ⟨space, live, inTable, by simpa using valid, rfl⟩
  obtain ⟨page, middle, after, contents, taken, lives, pages', exe', entry, opened, served⟩ :=
    VmKernel.pageFaultHandler_loads table (current.symm ▸ live) inTable invalid now
  rw [current] at lives
  have vacant := taken.vacant table
  have still := taken.currentThread.trans current
  -- The frame is taken first, and then the page is read into it.
  have emptied := mirror.taken keeps taken
  have filled := emptied.loaded vacant lives below (entry ▸ invalid) (exe ▸ opened) now
  -- The frame table is complete again.
  have complete : (middle.loaded now after contents vpn page).FrameTable :=
    vacant.loaded (still.symm ▸ lives) (pages' ▸ inTable) (entry ▸ invalid) now contents
  exact ⟨page, _, served, complete, filled.1, filled.2⟩

/-- The record of the reads does not matter. -/
theorem congr (mirror : Mirror threadId numPages file observed) {other : Observed}
    (kernel : other.kernel = observed.kernel) (seen : other.seen = observed.seen)
    (reference : other.reference = observed.reference) :
    Mirror threadId numPages file other := by
  obtain ⟨_, _, _, _⟩ := other
  dsimp only at kernel seen reference
  subst kernel seen reference
  exact ⟨mirror.bounded, mirror.current, mirror.pointer, mirror.size, mirror.live, mirror.alone,
    mirror.mapped, mirror.inside, mirror.outside⟩

/-- A TLB with no new translations keeps what the process should see. -/
theorem within (mirror : Mirror threadId numPages file observed) {tlb : TLB}
    (within : tlb.Within observed.kernel.tlb) :
    Mirror threadId numPages file { observed with kernel := { observed.kernel with tlb } } := by
  refine ⟨mirror.bounded, mirror.current, mirror.pointer, mirror.size, mirror.live, mirror.alone,
    ?_, mirror.inside, mirror.outside⟩
  intro set way valid
  obtain ⟨wasValid, tag, ppn⟩ := within set way valid
  obtain ⟨v, index, tagged, resident⟩ := mirror.mapped set way wasValid
  exact ⟨v, index, tagged.trans tag.symm, ppn ▸ resident⟩

/-- A page table walk to a page in memory keeps what the process should see. -/
theorem walked (mirror : Mirror threadId numPages file observed) {virtAddr : Word}
    {space : AddrSpace} {page : Nat} (writing : Bool)
    (live : observed.kernel.getAddrSpaceOfThread threadId = some space)
    (below : virtAddr.toNat / pageSize < space.numPages)
    (valid : (space.pageTable (virtAddr.toNat / pageSize)).valid = true)
    (frame : (space.pageTable (virtAddr.toNat / pageSize)).physicalPage = page) :
    Mirror threadId numPages file
        { observed with kernel := observed.kernel.walked virtAddr writing threadId space } ∧
      (observed.kernel.walked virtAddr writing threadId space).Resident threadId
        (virtAddr.toNat / pageSize) page := by
  have resident : observed.kernel.Resident threadId (virtAddr.toNat / pageSize) page :=
    ⟨space, live, below, valid, frame⟩
  -- The walk adds one translation, which is that of the page table.
  have cached : Mirror threadId numPages file { observed with
      kernel := { observed.kernel with
        tlb := observed.kernel.tlb.update virtAddr.toNat page observed.kernel.currentThread } } := by
    -- Only the clause on the TLB has changed.
    refine ⟨mirror.bounded, mirror.current, mirror.pointer, mirror.size, mirror.live, mirror.alone,
      ?_, mirror.inside, mirror.outside⟩
    intro set way validEntry
    -- The entry is the new one, or was there before.
    rcases TLB.update_entries _ _ _ set way validEntry with
      ⟨index, tag, ppn⟩ | ⟨wasValid, tag, ppn⟩
    · exact ⟨virtAddr.toNat / pageSize, index.symm, tag.symm, by dsimp only; rw [ppn]; exact resident⟩
    · obtain ⟨v, index, tagged, there⟩ := mirror.mapped set way wasValid
      exact ⟨v, index, tagged.trans tag.symm, by dsimp only; rw [ppn]; exact there⟩
  -- A read marks the page as used, and a store also as dirty.
  cases writing with
  | false =>
    unfold VmKernel.walked
    simp only [frame]
    exact ⟨cached, resident⟩
  | true =>
    obtain ⟨own, ownLive, pages, exe, writable⟩ := mirror.live
    rw [live] at ownLive
    cases ownLive
    -- Marking the entry moves no page.
    have residents := VmKernel.resident_walked true live below
    refine ⟨⟨mirror.bounded, mirror.current, mirror.pointer, mirror.size, ?_, ?_, ?_, ?_, ?_⟩,
      (residents _ _ _).mpr resident⟩
    · -- The space is the same, but for the marks.
      have found := observed.kernel.getAddrSpaceOfThread_setEntry threadId
        (virtAddr.toNat / pageSize)
        (VmKernel.marked (space.pageTable (virtAddr.toNat / pageSize)) true) threadId
      rw [if_pos rfl, live] at found
      exact ⟨_, found, pages, exe, setEntry_writable writable rfl⟩
    · -- There is still only one space.
      intro other after lives
      obtain ⟨before, wasLive, -⟩ := VmKernel.live_setEntry (show (observed.kernel.setEntry threadId
        (virtAddr.toNat / pageSize) (VmKernel.marked (space.pageTable (virtAddr.toNat / pageSize))
          true)).getAddrSpaceOfThread other = some after from lives)
      exact mirror.alone other before wasLive
    · -- The entries of the TLB lead where they led.
      intro set way validEntry
      dsimp only [VmKernel.walked] at validEntry ⊢
      simp only [frame] at validEntry ⊢
      obtain ⟨v, index, tagged, there⟩ := cached.mapped set way validEntry
      exact ⟨v, index, tagged, (residents _ _ _).mpr there⟩
    · -- The pages that are in memory are the same, and hold what they held.
      intro v p there
      exact mirror.inside v p ((residents _ _ _).mp there)
    · intro v inTable seen gone
      exact mirror.outside v inTable seen fun p there => gone p ((residents _ _ _).mpr there)

/-- A page in memory is found there, through the TLB or through the page table. -/
theorem translate (mirror : Mirror threadId numPages file observed)
    (table : observed.kernel.FrameTable) {addr : Word} {size page : Nat} (writing : Bool)
    (sized : size = 1 ∨ size = 2 ∨ size = 4) (aligned : addr.toNat % size = 0)
    (resident : observed.kernel.Resident threadId (addr.toNat / pageSize) (page : Nat)) :
    ∃ next, observed.kernel.translate addr size writing = some
        (.ok ((page * pageSize + addr.toNat % pageSize : Nat) : Int), next) ∧
      next.FrameTable ∧ Mirror threadId numPages file { observed with kernel := next } ∧
      next.Resident threadId (addr.toNat / pageSize) (page : Nat) ∧
      next.mainMemory = observed.kernel.mainMemory := by
  -- A translation keeps the frame table.
  have ok : ∀ next, observed.kernel.translate addr size writing = some
      (.ok ((page * pageSize + addr.toNat % pageSize : Nat) : Int), next) → next.FrameTable :=
    fun next translated => table.translate translated
  -- The address is not refused before the page is looked for.
  have straight := VmKernel.misaligned_of_mod aligned
  have below := mirror.below resident
  cases found : observed.kernel.tlb.hit (addr.toNat / pageSize) with
  | some way =>
    -- The TLB has the page, and has it where the page table has it.
    have ppn := (mirror.hit below found).unique resident
    have translated : observed.kernel.translate addr size writing = some
        (.ok ((page * pageSize + addr.toNat % pageSize : Nat) : Int),
          { observed.kernel with tlb := (observed.kernel.tlb.translate addr.toNat).2 }) := by
      unfold VmKernel.translate
      rw [TLB.translate_hit found, ppn]
      simp only [straight, Bool.false_eq_true, if_false]
      rw [if_pos (by simp only [pageSize]; omega)]
      push_cast
      rfl
    -- The TLB is the only thing that may have changed.
    exact ⟨_, translated, ok _ translated, mirror.within (TLB.translate_within addr.toNat),
      resident, rfl⟩
  | none =>
    -- The page table has it.
    have ⟨space, live, inTable, valid, frame⟩ := resident
    obtain ⟨q, same, inRange, -, -⟩ := table.recorded threadId _ page resident
    obtain rfl : page = q := by exact_mod_cast same
    have held := VmKernel.held_of_live live
    obtain ⟨own, ownLive, -, -, writable⟩ := mirror.live
    rw [live] at ownLive
    cases ownLive
    -- So the walk finds it.
    have walk : observed.kernel.walk addr size writing = some
        (.ok ((page * pageSize + addr.toNat % pageSize : Nat) : Int),
          observed.kernel.walked addr writing threadId space) :=
      VmKernel.walk_resident (mirror.size.symm ▸ below) mirror.pointer held valid (writable _)
        frame inRange (VmKernel.fits_of_aligned sized aligned)
    have translated : observed.kernel.translate addr size writing = some
        (.ok ((page * pageSize + addr.toNat % pageSize : Nat) : Int),
          observed.kernel.walked addr writing threadId space) := by
      unfold VmKernel.translate
      rw [TLB.translate_miss found]
      simp only [straight, Bool.false_eq_true, if_false]
      rw [if_neg (by decide)]
      exact walk
    -- The walk keeps the mirror, and does not touch memory.
    have kept := mirror.walked writing live inTable valid frame
    refine ⟨_, translated, ok _ translated, kept.1, kept.2, ?_⟩
    unfold VmKernel.walked
    cases writing <;> rfl

/-- A page that is not in memory is not found, and the attempt changes nothing. -/
theorem translate_absent (mirror : Mirror threadId numPages file observed) {addr : Word}
    {size : Nat} (writing : Bool) (aligned : addr.toNat % size = 0)
    (below : addr.toNat / pageSize < numPages)
    (absent : ∀ page, ¬ observed.kernel.Resident threadId (addr.toNat / pageSize) page) :
    observed.kernel.tlb.hit (addr.toNat / pageSize) = none ∧
    observed.kernel.translate addr size writing =
      some (.error .pageFaultException, observed.kernel) := by
  -- What is in the TLB is in memory.
  have missed : observed.kernel.tlb.hit (addr.toNat / pageSize) = none := by
    cases found : observed.kernel.tlb.hit (addr.toNat / pageSize) with
    | none => rfl
    | some way => exact absurd (mirror.hit below found) (absent _)
  obtain ⟨space, live, pages, -, -⟩ := mirror.live
  -- Nor is its entry valid.
  have invalid : (space.pageTable (addr.toNat / pageSize)).valid = false := by
    by_contra valid
    exact absent _ ⟨space, live, pages.symm ▸ below, by simpa using valid, rfl⟩
  have held := VmKernel.held_of_live live
  -- So the translation misses and the walk raises the page fault.
  refine ⟨missed, ?_⟩
  unfold VmKernel.translate
  rw [TLB.translate_miss missed]
  simp only [VmKernel.misaligned_of_mod aligned, Bool.false_eq_true, if_false]
  rw [if_neg (by decide)]
  exact VmKernel.walk_absent (mirror.size.symm ▸ below) mirror.pointer held invalid

/-- Every access within the address space finds its page, and sees of it what it should see. -/
theorem locate (mirror : Mirror threadId numPages file observed)
    (table : observed.kernel.FrameTable) {addr : Word} {size : Nat} (writing : Bool)
    (sized : size = 1 ∨ size = 2 ∨ size = 4) (aligned : addr.toNat % size = 0)
    (below : addr.toNat / pageSize < numPages)
    (keeps : observed.kernel.Faults (addr.toNat / pageSize) → observed.kernel.Full →
      observed.kernel.KeepsVictim) (now : Int) :
    ∃ page next, observed.kernel.locate now addr size writing =
        some (page * pageSize + addr.toNat % pageSize, next) ∧ next.FrameTable ∧
      Mirror threadId numPages file (observed.notice next (addr.toNat / pageSize)) ∧
      next.Resident threadId (addr.toNat / pageSize) (page : Nat) := by
  -- The page is in memory, or is brought in first.
  by_cases present : ∃ page, observed.kernel.Resident threadId (addr.toNat / pageSize) page
  · obtain ⟨frame, resident⟩ := present
    obtain ⟨page, rfl, -, -, -⟩ := table.recorded _ _ _ resident
    obtain ⟨next, translated, complete, kept, there, -⟩ :=
      mirror.translate table writing sized aligned resident
    refine ⟨page, next, ?_, complete, ?_, there⟩
    · simp only [VmKernel.locate, translated, Option.bind_eq_bind, Option.bind_some]
      rfl
    · -- A page that is in memory has been noted.
      have seen := (mirror.inside _ _ resident).1
      unfold Observed.notice
      rw [if_pos seen]
      exact kept
  · -- The first translation fails, and the handler brings the page in.
    have absent : ∀ page, ¬ observed.kernel.Resident threadId (addr.toNat / pageSize) page :=
      fun page resident => present ⟨page, resident⟩
    obtain ⟨missed, refused⟩ := mirror.translate_absent writing aligned below absent
    obtain ⟨page, served, handled, complete, noted, resident⟩ := mirror.fault table
      (keeps ⟨missed, mirror.current.symm ▸ absent⟩) below absent now
    -- The second translation finds it.
    obtain ⟨next, translated, completed, kept, there, memory⟩ :=
      noted.translate (by rw [Observed.notice_kernel]; exact complete) writing sized aligned
        (by rw [Observed.notice_kernel]; exact resident)
    rw [Observed.notice_kernel] at translated memory
    refine ⟨page, next, ?_, completed, ?_, there⟩
    · simp only [VmKernel.locate, refused, handled, translated, Option.bind_eq_bind,
        Option.bind_some]
      rfl
    · -- The translation has moved neither the page nor its bytes, so the same is noted.
      have current : next.currentThread = threadId := kept.current
      have current' : served.currentThread = threadId := by
        simpa using noted.current
      have same : observed.notice next (addr.toNat / pageSize) =
          { observed.notice served (addr.toNat / pageSize) with kernel := next } := by
        unfold Observed.notice
        split
        · rfl
        · rw [frameOf_eq (current.symm ▸ there), frameOf_eq (current'.symm ▸ resident), memory]
      rw [same]
      exact kept

/-- A store to a page in memory, and to the bytes that should be there, keeps the two alike. -/
theorem store (mirror : Mirror threadId numPages file observed)
    (table : observed.kernel.FrameTable) {vpn page offset : Nat} {bytes : List Byte}
    (resident : observed.kernel.Resident threadId vpn (page : Nat))
    (fits : offset + bytes.length ≤ pageSize) :
    Mirror threadId numPages file { observed with
      kernel := { observed.kernel with
        mainMemory := observed.kernel.mainMemory.store (page * pageSize + offset) bytes }
      reference := observed.reference.store (vpn * pageSize + offset) bytes } := by
  -- Only the clauses that speak of bytes are left.
  refine ⟨mirror.bounded, mirror.current, mirror.pointer, mirror.size, mirror.live, mirror.alone,
    mirror.mapped, ?_, ?_⟩
  · -- A page that is in memory.
    intro v frame there
    have there : observed.kernel.Resident threadId v frame := there
    obtain ⟨seen, same⟩ := mirror.inside v frame there
    refine ⟨seen, fun i small => ?_⟩
    have before := same i small
    by_cases here : v = vpn
    · -- The page itself: the store hits the same bytes on both sides.
      subst here
      obtain rfl : frame = page := by exact_mod_cast there.unique resident
      unfold MainMemory.store
      simp only [pageSize] at *
      split_ifs <;> first | omega | exact before | (congr 1; omega)
    · -- Another page: it lies in another frame, so the store misses it on both sides.
      have apart : frame ≠ page := by
        rintro rfl
        exact here (table.occupant there resident).2
      simp only [pageSize] at *
      rw [MainMemory.store_outside _ (by rcases Nat.lt_or_gt_of_ne apart with h | h <;> omega),
        MainMemory.store_outside _ (by rcases Nat.lt_or_gt_of_ne here with h | h <;> omega)]
      exact before
  · -- A page that is not in memory is another one, and its place is not stored to.
    intro v inTable seen gone contents opened
    have different : v ≠ vpn := by
      rintro rfl
      exact gone page resident
    rw [mirror.outside v inTable seen gone contents opened]
    apply MainMemory.slice_congr
    intro i small
    simp only [pageSize] at *
    rw [MainMemory.store_outside _
      (by rcases Nat.lt_or_gt_of_ne different with h | h <;> omega)]

end Mirror

namespace VmKernel

/-- An access by the current thread, of a size and at an address that its program may use. -/
def InBounds (kernel : VmKernel) (threadId : Int) (addr : Word) (size : Nat) : Prop :=
  threadId = kernel.currentThread ∧ (size = 1 ∨ size = 2 ∨ size = 4) ∧ addr.toNat % size = 0 ∧
    ∃ space, kernel.getAddrSpaceOfThread threadId = some space ∧
      addr.toNat / pageSize < space.numPages

instance (kernel : VmKernel) (threadId : Int) (addr : Word) (size : Nat) :
    Decidable (kernel.InBounds threadId addr size) :=
  have : Decidable (∃ space, kernel.getAddrSpaceOfThread threadId = some space ∧
      addr.toNat / pageSize < space.numPages) :=
    match found : kernel.getAddrSpaceOfThread threadId with
    | some space => decidable_of_iff (addr.toNat / pageSize < space.numPages) (by simp)
    | none => isFalse (by simp)
  inferInstanceAs (Decidable (_ ∧ _))

/-- If the access faults and no frame is free, the page thrown out can come back as it is. -/
def Spares (kernel : VmKernel) (addr : Word) : Prop :=
  kernel.Faults (addr.toNat / pageSize) → kernel.Full → kernel.KeepsVictim

end VmKernel

namespace Observed

/-- Memory accesses of the process within its address space, and nothing else. -/
def OwnAccess (observed : Observed) : Int × VmEvent → Prop
  | (_, .read threadId addr size) => observed.kernel.InBounds threadId addr size
  | (_, .write threadId addr size _) => observed.kernel.InBounds threadId addr size
  | _ => False

instance (observed : Observed) : ∀ timed, Decidable (observed.OwnAccess timed)
  | (_, .read _ _ _) => inferInstanceAs (Decidable (VmKernel.InBounds _ _ _ _))
  | (_, .write _ _ _ _) => inferInstanceAs (Decidable (VmKernel.InBounds _ _ _ _))
  | (_, .create _ _ _ _) | (_, .delete _) | (_, .switchTo _) | (_, .fault _) => isFalse id

/-- The access throws out no page that cannot come back as it is. -/
def Spares (observed : Observed) : Int × VmEvent → Prop
  | (_, .read _ addr _) => observed.kernel.Spares addr
  | (_, .write _ addr _ _) => observed.kernel.Spares addr
  | _ => True

/-- What holds between the accesses: the process has seen and will see the bytes it should. -/
structure Faithful (threadId : Int) (numPages : Nat) (file : FileName) (observed : Observed) :
    Prop where
  table : observed.kernel.FrameTable
  mirror : Mirror threadId numPages file observed
  log : ∀ pair ∈ observed.log, pair.1 = pair.2

/-- The bytes of a page may be noted before or after a store that is then noted as well. -/
theorem notice_store (observed : Observed) (kernel : VmKernel) {vpn page : Nat}
    (frame : frameOf kernel vpn = page) (offset : Nat) (bytes : List Byte) :
    (observed.notice { kernel with
        mainMemory := kernel.mainMemory.store (page * pageSize + offset) bytes }
      vpn).reference.store (vpn * pageSize + offset) bytes =
    (observed.notice kernel vpn).reference.store (vpn * pageSize + offset) bytes := by
  funext a
  unfold MainMemory.store
  split
  · -- Among the stored bytes both sides hold the same.
    rfl
  · -- Outside the stored bytes, the frame holds what it held before the store.
    -- The store is to the same frame as before.
    rename_i outside
    have frame' : frameOf { kernel with
        mainMemory := kernel.mainMemory.store (page * pageSize + offset) bytes } vpn = page := frame
    unfold MainMemory.store at frame'
    unfold notice
    -- The page may have been noted already.
    split
    · rfl
    · simp only [frame, frame']
      split
      · -- A byte of the page is outside of what was stored.
        rw [if_neg]
        simp only [pageSize] at *
        omega
      · -- A byte of another page is not noted.
        rfl

variable {threadId : Int} {numPages : Nat} {file : FileName} {observed : Observed}

/-- Every access is served, and is served with the bytes that it should see. -/
theorem Faithful.step (faithful : Faithful threadId numPages file observed)
    {timed : Int × VmEvent} (own : observed.OwnAccess timed) (spares : observed.Spares timed) :
    ∃ next, observed.step timed = some next ∧ Faithful threadId numPages file next := by
  obtain ⟨table, mirror, log⟩ := faithful
  obtain ⟨space, live, pages, -, -⟩ := mirror.live
  obtain ⟨now, event⟩ := timed
  -- By cases on the event, which is an access of the process itself.
  cases event with
  | read thread addr size =>
    obtain ⟨rfl, sized, aligned, ⟨own, ownLive, below⟩⟩ := own
    obtain rfl := mirror.current
    rw [live] at ownLive
    cases ownLive
    obtain ⟨page, next, located, complete, noted, resident⟩ :=
      mirror.locate table false sized aligned (pages ▸ below) spares now
    -- The page is found, and noted.
    -- The bytes in the frame are those that are noted for the page.
    have same := (noted.inside _ page (by rw [notice_kernel]; exact resident)).2
    rw [notice_kernel] at same
    have fits := VmKernel.fits_of_aligned sized aligned
    have read : next.mainMemory.slice (page * pageSize + addr.toNat % pageSize) size =
        (observed.notice next (addr.toNat / pageSize)).reference.slice addr.toNat size := by
      apply MainMemory.slice_congr
      intro i small
      have bytes := same (addr.toNat % pageSize + i) (by omega)
      have whole : addr.toNat / pageSize * pageSize + (addr.toNat % pageSize + i) =
          addr.toNat + i := by simp only [pageSize]; omega
      rw [whole] at bytes
      rw [← bytes]
      congr 1
      omega
    have length := MainMemory.length_slice next.mainMemory
      (page * pageSize + addr.toNat % pageSize) size
    -- An access of such a size has a value.
    obtain ⟨value, valued⟩ := VmKernel.valueOf_some (length.symm ▸ sized)
    refine ⟨{ observed.notice next (addr.toNat / pageSize) with
      log := (value, value) :: (observed.notice next (addr.toNat / pageSize)).log }, ?_, ?_⟩
    · -- The value read is the one expected, since the bytes are the same.
      have expected := valued
      rw [read] at expected
      simp only [Observed.step, VmKernel.serve, VmKernel.readMem, located, valued, expected,
        Option.bind_eq_bind, Option.bind_some, Option.pure_def, if_true]
    · -- The log has one more pair, whose halves are equal.
      refine ⟨by rw [notice_kernel]; exact complete, ?_, ?_⟩
      · exact noted.congr rfl rfl rfl
      · intro pair member
        rcases List.mem_cons.mp member with rfl | member
        · rfl
        · exact log pair (notice_log observed next _ ▸ member)
  | write thread addr size value =>
    obtain ⟨rfl, sized, aligned, ⟨own, ownLive, below⟩⟩ := own
    obtain rfl := mirror.current
    rw [live] at ownLive
    cases ownLive
    -- The page is found, and noted.
    obtain ⟨page, next, located, complete, noted, resident⟩ :=
      mirror.locate table true sized aligned (pages ▸ below) spares now
    have fits := VmKernel.fits_of_aligned sized aligned
    have whole : addr.toNat / pageSize * pageSize + addr.toNat % pageSize = addr.toNat := by
      simp only [pageSize]
      omega
    -- The store hits the same bytes on both sides.
    have stored := noted.store (by rw [notice_kernel]; exact complete)
      (by rw [notice_kernel]; exact resident)
      (show addr.toNat % pageSize + (leBytes size value.toNat).length ≤ pageSize by simpa using fits)
    rw [notice_kernel, whole] at stored
    have current : next.currentThread = observed.kernel.currentThread := by
      simpa using noted.current
    have same := notice_store observed next (Mirror.frameOf_eq (current.symm ▸ resident))
      (addr.toNat % pageSize) (leBytes size value.toNat)
    rw [whole] at same
    -- The store may be made before the page is noted, or after it.
    let written : VmKernel := { next with
      mainMemory := next.mainMemory.store (page * pageSize + addr.toNat % pageSize)
        (leBytes size value.toNat) }
    have stepped : observed.step (now, .write observed.kernel.currentThread addr size value) =
        some { observed.notice written (addr.toNat / pageSize) with
          reference := (observed.notice written (addr.toNat / pageSize)).reference.store
            addr.toNat (leBytes size value.toNat) } := by
      simp only [Observed.step, VmKernel.serve, VmKernel.writeMem, located, if_pos sized,
        Option.bind_eq_bind, Option.bind_some, Option.pure_def, if_true]
      rfl
    refine ⟨_, stepped, ?_, stored.congr ?_ ?_ ?_, ?_⟩
    · rw [notice_kernel]
      exact complete.congr rfl rfl rfl
    · exact notice_kernel _ _ _
    · unfold notice
      split <;> rfl
    · exact same
    · -- Nothing is added to the log.
      intro pair member
      exact log pair (notice_log observed _ _ ▸ member)
  | _ => exact own.elim

/-- The address space of a process that has just been loaded. -/
def loadedSpace (threadId : Int) (filename : FileName) (contents stack : List Byte) : AddrSpace where
  threadId
  numPages := AddrSpace.pagesOf (AddrSpace.header contents stack)
  exeFileId := filename
  pageTable := AddrSpace.freshEntry

/-- Loading the first process, if the memory manager accepts it, adds its address space. -/
theorem launched_eq {files : UnixFiles} {mainMemory : MainMemory} {tlb : TLB}
    {owners : Nat → PhyMemPageEntry} {threadId created loaded : Int} {filename : FileName}
    {stack : List Byte} {uninitialised : AddrSpace} {kernel : VmKernel}
    (inTable : 0 ≤ threadId ∧ threadId < threadCountMax)
    (runnable : VmKernel.Runnable files filename stack)
    (launched : replay VmKernel.step (.boot files mainMemory tlb owners threadId)
      [(created, .create threadId filename stack uninitialised), (loaded, .switchTo threadId)] =
      some kernel)
    (live : (kernel.getAddrSpaceOfThread threadId).isSome) :
    ∃ contents, files filename = some contents ∧
      kernel = { VmKernel.boot files mainMemory tlb owners threadId with
        virtMemManager := (VirtMemManager.new threadCountMax).withEntry threadId
          (loadedSpace threadId filename contents stack)
        pageTable := some threadId
        pageTableSize := AddrSpace.pagesOf (AddrSpace.header contents stack) } := by
  -- Before it is loaded the thread has no space.
  have nobody : (VmKernel.boot files mainMemory tlb owners threadId).getAddrSpaceOfThread threadId =
    none := ite_self none
  have here : (VmKernel.boot files mainMemory tlb owners threadId).virtMemManager.InTable threadId :=
    inTable
  rcases VmKernel.createAddrSpace_cases here runnable uninitialised with
    same | ⟨entry, contents, -, opened, rfl, built⟩
  · -- The manager did not accept the address space, so the thread has none.
    simp only [replay, VmKernel.step, VmKernel.serve, same, Option.bind_eq_bind, Option.bind_some,
      Option.pure_def, Option.map_some, Option.some.injEq] at launched
    change VmKernel.runThread (VmKernel.boot files mainMemory tlb owners threadId) threadId =
      kernel at launched
    have idle : VmKernel.runThread (VmKernel.boot files mainMemory tlb owners threadId) threadId =
        VmKernel.boot files mainMemory tlb owners threadId := by
      unfold VmKernel.runThread
      change (match VmKernel.getAddrSpaceOfThread (VmKernel.boot files mainMemory tlb owners
        threadId) threadId with | some space => _ | none => _) = _
      rw [nobody]
      rfl
    rw [← launched, idle, nobody] at live
    cases live
  · -- The space is the thread's, and runs on its page table.
    refine ⟨contents, opened, ?_⟩
    -- The manager finds the new space for the thread.
    have looked := VirtMemManager.getAddrSpaceOfThread_withEntry here
      (loadedSpace threadId filename contents stack) threadId
    rw [if_pos rfl] at looked
    simp only [replay, VmKernel.step, VmKernel.serve, built, Option.bind_eq_bind, Option.bind_some,
      Option.pure_def, Option.map_some, Option.some.injEq] at launched
    rw [← launched]
    -- Running the thread loads it.
    unfold VmKernel.runThread VmKernel.getAddrSpaceOfThread
    dsimp only
    change (match VirtMemManager.getAddrSpaceOfThread ((VmKernel.boot files mainMemory tlb owners
      threadId).virtMemManager.withEntry threadId (loadedSpace threadId filename contents stack))
      threadId with | some space => _ | none => _) = _
    rw [looked]
    rfl

/-- A process that has just been loaded has seen nothing, so it has seen nothing wrong. -/
theorem faithful_start {files : UnixFiles} {mainMemory : MainMemory} {tlb : TLB}
    {owners : Nat → PhyMemPageEntry} {threadId created loaded : Int} {filename : FileName}
    {stack : List Byte} {uninitialised : AddrSpace} {kernel : VmKernel}
    (inTable : 0 ≤ threadId ∧ threadId < threadCountMax)
    (runnable : VmKernel.Runnable files filename stack)
    (launched : replay VmKernel.step (.boot files mainMemory tlb owners threadId)
      [(created, .create threadId filename stack uninitialised), (loaded, .switchTo threadId)] =
      some kernel)
    (live : (kernel.getAddrSpaceOfThread threadId).isSome) :
    ∃ numPages, Faithful threadId numPages filename (start kernel) := by
  obtain ⟨contents, opened, rfl⟩ := launched_eq inTable runnable launched live
  -- At boot nobody has a space.
  have empty := VmKernel.frameTable_boot files mainMemory tlb owners threadId
  have here : (VmKernel.boot files mainMemory tlb owners threadId).virtMemManager.InTable threadId :=
    inTable
  have looked := VirtMemManager.getAddrSpaceOfThread_withEntry here
    (loadedSpace threadId filename contents stack)
  have absent : ∀ other,
      (VmKernel.boot files mainMemory tlb owners threadId).getAddrSpaceOfThread other = none :=
    fun _ => ite_self none
  -- The new space leaves the frame table complete, since none of its pages is in memory.
  have filled : VmKernel.FrameTable { VmKernel.boot files mainMemory tlb owners threadId with
      virtMemManager := (VirtMemManager.new threadCountMax).withEntry threadId
        (loadedSpace threadId filename contents stack) } :=
    empty.withEntry here (absent threadId) rfl opened
  -- It is the only space.
  have found : ∀ other space, VmKernel.getAddrSpaceOfThread
      { VmKernel.boot files mainMemory tlb owners threadId with
        virtMemManager := (VirtMemManager.new threadCountMax).withEntry threadId
          (loadedSpace threadId filename contents stack)
        pageTable := some threadId
        pageTableSize := AddrSpace.pagesOf (AddrSpace.header contents stack) } other = some space →
      other = threadId ∧ space = loadedSpace threadId filename contents stack := by
    intro other space live
    have live := (looked other).symm.trans live
    split at live
    · exact ⟨by assumption, (Option.some.inj live).symm⟩
    · rw [show VirtMemManager.getAddrSpaceOfThread _ other = none from absent other] at live
      cases live
  refine ⟨_, filled.congr rfl rfl rfl, ⟨AddrSpace.pagesOf_lt _, rfl, rfl, rfl, ?_, ?_, ?_, ?_, ?_⟩, ?_⟩
  · -- The space of the process.
    exact ⟨loadedSpace threadId filename contents stack, (looked threadId).trans (if_pos rfl),
      rfl, rfl, fun _ => rfl⟩
  · -- There is no other.
    exact fun other space live => (found other space live).1
  · -- The TLB starts out with nothing valid.
    intro set way valid
    cases valid
  · -- No page is in memory.
    rintro v page ⟨space, live, -, valid, -⟩
    obtain ⟨-, rfl⟩ := found _ _ live
    cases valid
  · -- And none has been noted.
    intro v _ seen
    cases seen
  · simp [start]

end Observed

/--
A process reads its own writes as long as no page is thrown out that cannot come back as it is.

The process starts on a machine of its own. Every access is served, and every read returns the
bytes last written there, or those that the page had when it was first brought in.
-/
theorem ownWrites_readBack (files : UnixFiles) (mainMemory : MainMemory) (tlb : TLB)
    (owners : Nat → PhyMemPageEntry) (threadId created loaded : Int) (filename : FileName)
    (stack : List Byte) (uninitialised : AddrSpace) (kernel : VmKernel)
    (inTable : 0 ≤ threadId ∧ threadId < threadCountMax)
    (runnable : VmKernel.Runnable files filename stack)
    (launched : replay VmKernel.step (.boot files mainMemory tlb owners threadId)
      [(created, .create threadId filename stack uninitialised), (loaded, .switchTo threadId)] =
      some kernel)
    (live : (kernel.getAddrSpaceOfThread threadId).isSome)
    (accesses : List (Int × VmEvent))
    (own : EveryStep Observed.step Observed.OwnAccess (.start kernel) accesses)
    (spares : EveryStep Observed.step Observed.Spares (.start kernel) accesses) :
    ∃ final, replay Observed.step (.start kernel) accesses = some final ∧
      ∀ pair ∈ final.log, pair.1 = pair.2 := by
  -- The lemma for one step carries the start along the run.
  obtain ⟨numPages, faithful⟩ := Observed.faithful_start inTable runnable launched live
  -- Each step keeps what the reference has seen.
  obtain ⟨final, ran, faithful⟩ := replay_progress
    (fun _ _ faithful both => Observed.Faithful.step faithful both.1 both.2) faithful
    (own.and spares)
  exact ⟨final, ran, faithful.log⟩

/-- An object file that is all header, with this many pages of uninitialised data. -/
def hollowProgram (pages : Nat) : List Byte :=
  leBytes 4 0xbadfad ++ .replicate 44 0 ++ leBytes 4 (pages * pageSize)

/-- A process with more pages than the machine has frames, on an otherwise empty machine. -/
def hollowLaunch : Option VmKernel :=
  replay VmKernel.step
    (.boot (fun _ => some (hollowProgram 150)) (fun _ => 0) (fun _ _ => ⟨0, 0, true, 0, 0⟩)
      (fun _ => ⟨0, 0⟩) 0)
    [(1, .create 0 [1] [] ⟨0, 0, [], AddrSpace.freshEntry⟩), (2, .switchTo 0)]

/-- Reads and writes of one page, while there are frames enough. -/
def roomyAccesses : List (Int × VmEvent) :=
  [(3, .read 0 640 1), (4, .write 0 641 1 7), (5, .read 0 640 2)]

/-- A page is read, written through the TLB, pushed out by 128 other pages, and read again. -/
def crowdedAccesses : List (Int × VmEvent) :=
  (3, .read 0 0 1) :: (4, .write 0 0 1 7) ::
    (List.range 128).map (fun i : Nat =>
      (((5 + i : Nat) : Int), VmEvent.write 0 (BitVec.ofNat 32 (128 * (i + 1))) 1 0)) ++
    [(200, VmEvent.read 0 0 1)]

/-- With a free frame for every page, what is read is what was written. -/
theorem ownWrites_readBack_roomy :
    ∃ kernel final, hollowLaunch = some kernel ∧
      replay Observed.step (.start kernel) roomyAccesses = some final ∧
      ∀ pair ∈ final.log, pair.1 = pair.2 := by
  -- The launch and the accesses are evaluated.
  obtain ⟨kernel, launched, live, own, roomy⟩ : ∃ kernel, hollowLaunch = some kernel ∧
      (kernel.getAddrSpaceOfThread 0).isSome ∧
      EveryStep Observed.step Observed.OwnAccess (.start kernel) roomyAccesses ∧
      EveryStep Observed.step (fun observed _ => ¬ observed.kernel.Full) (.start kernel)
        roomyAccesses :=
    ⟨_, rfl, by decide +kernel, by decide +kernel, by decide +kernel⟩
  -- While there is a free frame nothing is thrown out.
  have spares : EveryStep Observed.step Observed.Spares (.start kernel) roomyAccesses := by
    refine roomy.mono fun observed timed free => ?_
    obtain ⟨now, event⟩ := timed
    cases event <;> first | exact trivial | exact fun _ full => absurd full free
  obtain ⟨final, ran, same⟩ := ownWrites_readBack _ _ _ _ 0 1 2 [1] [] _ kernel (by decide)
    (by decide +kernel) launched live roomyAccesses own spares
  exact ⟨kernel, final, launched, ran, same⟩

/-- The value that was stored through the TLB is lost with its page. -/
theorem ownWrites_lost :
    ∃ kernel final, hollowLaunch = some kernel ∧
      EveryStep Observed.step Observed.OwnAccess (.start kernel) crowdedAccesses ∧
      replay Observed.step (.start kernel) crowdedAccesses = some final ∧
      final.log = [(0, 7), (0, 0)] := by
  -- The whole run is evaluated at once, with the check that every access is in bounds.
  have evaluated : (hollowLaunch.bind fun kernel =>
      if EveryStep Observed.step Observed.OwnAccess (.start kernel) crowdedAccesses then
        (replay Observed.step (.start kernel) crowdedAccesses).map Observed.log
      else none) = some [(0, 7), (0, 0)] := by decide +kernel
  obtain ⟨kernel, launched, ran⟩ := Option.bind_eq_some_iff.mp evaluated
  -- The accesses were checked to be in bounds.
  split at ran
  · rename_i own
    obtain ⟨final, ran, log⟩ := Option.map_eq_some_iff.mp ran
    exact ⟨kernel, final, launched, own, ran, log⟩
  · cases ran

end Nachos
