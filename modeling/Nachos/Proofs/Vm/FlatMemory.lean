import Nachos.Proofs.Vm.Isolation
import Nachos.Proofs.Vm.OwnWrites

/-! Frames, TLB and executable together are one array of bytes to the only process. -/

namespace Nachos

/-- A byte of a file outside the part that is written over stays where it is. -/
theorem getElem?_writeAt {contents bytes : List Byte} {position k : Nat} {byte : Byte}
    (there : contents[k]? = some byte) (outside : k < position ∨ position + bytes.length ≤ k) :
    (writeAt contents bytes position)[k]? = some byte := by
  -- The byte is within the file, before and after.
  have inside : k < contents.length := by
    by_contra beyond
    rw [List.getElem?_eq_none (by omega)] at there
    cases there
  have reach : k < (writeAt contents bytes position).length := by
    simp only [writeAt, length_splice]
    omega
  have same := getD_splice 0 contents position bytes k
  rw [if_neg (by omega), List.getD_eq_getElem?_getD, List.getD_eq_getElem?_getD, there] at same
  unfold writeAt at reach ⊢
  rw [List.getElem?_eq_getElem reach] at same ⊢
  exact congrArg some same

namespace VmKernel

variable {threadId : Int} {numPages : Nat} {file : FileName} {kernel next : VmKernel}

/-- The machine is that of one process, and its TLB has no translations but those of its pages. -/
structure Single (threadId : Int) (numPages : Nat) (file : FileName) (kernel : VmKernel) :
    Prop where
  table : kernel.FrameTable
  bounded : numPages < 2 ^ 32
  current : kernel.currentThread = threadId
  pointer : kernel.pageTable = some threadId
  size : kernel.pageTableSize = numPages
  live : ∃ space, kernel.getAddrSpaceOfThread threadId = some space ∧
    space.numPages = numPages ∧ space.exeFileId = file ∧
    ∀ v, (space.pageTable v).readOnly = false
  alone : ∀ other space, kernel.getAddrSpaceOfThread other = some space → other = threadId
  mapped : ∀ set way, (kernel.tlb set way).valid = true → ∃ v, TLB.index v = set ∧
    TLB.tagOf v = (kernel.tlb set way).tag ∧ kernel.Resident threadId v (kernel.tlb set way).ppn

/--
The virtual memory stands for a flat one.

A page in memory has its bytes in its frame. Of a page that is not there, the executable says what
it has of it, and the rest is open until the page is brought in.
-/
structure Backs (threadId : Int) (numPages : Nat) (file : FileName) (kernel : VmKernel)
    (memory : MainMemory) : Prop where
  inside : ∀ v (page : Nat), kernel.Resident threadId v page → ∀ i < pageSize,
    kernel.mainMemory (page * pageSize + i) = memory (v * pageSize + i)
  outside : ∀ v < numPages, (∀ page, ¬ kernel.Resident threadId v page) →
    ∀ contents, kernel.files file = some contents → ∀ i < pageSize, ∀ byte,
      contents[AddrSpace.fileOffset v + i]? = some byte → memory (v * pageSize + i) = byte

/-- A machine on which a process sees what it should is a machine of that process. -/
theorem single_of_mirror {observed : Observed} (mirror : Mirror threadId numPages file observed)
    (table : observed.kernel.FrameTable) : observed.kernel.Single threadId numPages file :=
  ⟨table, mirror.bounded, mirror.current, mirror.pointer, mirror.size, mirror.live, mirror.alone,
    mirror.mapped⟩

namespace Single

/-- A process may have seen just the pages that are in memory, with the bytes that they have. -/
theorem mirror (single : kernel.Single threadId numPages file) :
    ∃ observed : Observed, observed.kernel = kernel ∧
      Mirror threadId numPages file observed ∧
      ∀ v, observed.seen v = true ↔ ∃ page : Int, kernel.Resident threadId v page := by
  classical
  refine ⟨{
    kernel
    seen := fun v => decide (∃ page : Int, kernel.Resident threadId v page)
    reference := fun a =>
      kernel.mainMemory (Observed.frameOf kernel (a / pageSize) * pageSize + a % pageSize)
    log := [] }, rfl, ⟨single.bounded, single.current, single.pointer, single.size, single.live,
      single.alone, single.mapped, ?_, ?_⟩, fun v => decide_eq_true_iff⟩
  · -- What is in memory has been seen, with the bytes of its frame.
    intro v page resident
    refine ⟨decide_eq_true ⟨page, resident⟩, fun i small => ?_⟩
    have quotient : (v * pageSize + i) / pageSize = v := by simp only [pageSize] at *; omega
    have remainder : (v * pageSize + i) % pageSize = i := by simp only [pageSize] at *; omega
    dsimp only
    rw [quotient, remainder, Mirror.frameOf_eq (single.current.symm ▸ resident)]
  · -- Every page that has been seen is in memory.
    intro v _ seen absent
    obtain ⟨page, resident⟩ := of_decide_eq_true seen
    exact absurd resident (absent page)

/-- The executable is there. -/
theorem opened (single : kernel.Single threadId numPages file) :
    ∃ contents, kernel.files file = some contents := by
  obtain ⟨space, live, -, exe, -⟩ := single.live
  rw [← exe]
  exact single.table.executable threadId space live

/-- The virtual memory stands for some flat one, as the bytes that are open can be anything. -/
theorem backs_some (single : kernel.Single threadId numPages file) :
    ∃ memory, kernel.Backs threadId numPages file memory := by
  classical
  -- The memory has the bytes that were noted, and elsewhere those of the file.
  obtain ⟨observed, rfl, mirror, seen⟩ := single.mirror
  obtain ⟨contents, opened⟩ := single.opened
  refine ⟨fun a => if ∃ page : Int, observed.kernel.Resident threadId (a / pageSize) page then
    observed.reference a else contents.getD (AddrSpace.fileOffset (a / pageSize) + a % pageSize) 0,
    ?_, ?_⟩
  · -- A page in memory.
    intro v page resident i small
    have quotient : (v * pageSize + i) / pageSize = v := by simp only [pageSize] at *; omega
    rw [quotient, if_pos ⟨_, resident⟩]
    exact (mirror.inside v page resident).2 i small
  · -- A page that is not in memory.
    intro v _ absent held opened' i small byte there
    have quotient : (v * pageSize + i) / pageSize = v := by simp only [pageSize] at *; omega
    have remainder : (v * pageSize + i) % pageSize = i := by simp only [pageSize] at *; omega
    rw [opened] at opened'
    cases opened'
    rw [quotient, remainder, if_neg fun ⟨page, resident⟩ => absent page resident,
      List.getD_eq_getElem?_getD, there, Option.getD_some]

end Single

/-- The bytes that a file has of pages that are not in memory are not written over. -/
def Grows (threadId : Int) (file : FileName) (kernel next : VmKernel) : Prop :=
  ∀ contents, kernel.files file = some contents → ∃ after, next.files file = some after ∧
    ∀ v, (∀ page, ¬ kernel.Resident threadId v page) → ∀ i < pageSize, ∀ byte,
      contents[AddrSpace.fileOffset v + i]? = some byte →
        after[AddrSpace.fileOffset v + i]? = some byte

/-- Taking a frame writes back a page that is in memory, if any. -/
theorem Single.grows_taken (single : kernel.Single threadId numPages file) {page : Nat}
    (taken : kernel.FrameTaken page next) : Grows threadId file kernel next := by
  intro contents opened
  -- A free frame writes nothing back.
  cases taken with
  | free => exact ⟨contents, opened, fun _ _ _ _ _ there => there⟩
  | @swapped owner vpn space held _ _ _ _ live below valid frame opened' =>
    -- The victim is a page of the process itself.
    obtain rfl := single.alone owner space live
    obtain ⟨own, ownLive, -, exe, -⟩ := single.live
    rw [live] at ownLive
    cases ownLive
    rw [exe, opened] at opened'
    cases opened'
    have victim : kernel.Resident owner vpn page := ⟨space, live, below, valid, frame⟩
    -- It is written back if it is dirty.
    cases dirty : (space.pageTable vpn).dirty with
    | false => exact ⟨contents, by simp [evicted, dirty, opened], fun _ _ _ _ _ there => there⟩
    | true =>
      refine ⟨writeAt contents (kernel.mainMemory.frame page) (AddrSpace.fileOffset vpn),
        by simp [evicted, dirty, exe], fun v absent i small byte there => ?_⟩
      have different : v ≠ vpn := by
        rintro rfl
        exact absent page victim
      -- The page that is written back lies apart from one that is not in memory.
      apply getElem?_writeAt there
      simp only [AddrSpace.fileOffset, MainMemory.frame, MainMemory.length_slice,
        pageSize] at small ⊢
      rcases Nat.lt_or_gt_of_ne different with before | after <;> omega

/-- A page fault brings in a page with the bytes that the file has of it. -/
theorem Single.grows_fault (single : kernel.Single threadId numPages file) {vpn : Nat}
    (below : vpn < numPages) (absent : ∀ page, ¬ kernel.Resident threadId vpn page) {now : Int}
    (handled : kernel.pageFaultHandler now vpn = some next) :
    Grows threadId file kernel next ∧
      ∀ page : Nat, next.Resident threadId vpn page → ∀ contents, next.files file = some contents →
        ∀ i < pageSize, ∀ byte, contents[AddrSpace.fileOffset vpn + i]? = some byte →
          next.mainMemory (page * pageSize + i) = byte := by
  -- The space is that of the process, and the page is not valid in it.
  obtain ⟨space, live, pages, exe, -⟩ := single.live
  obtain rfl := single.current
  have invalid : (space.pageTable vpn).valid = false := by
    by_contra valid
    exact absent _ ⟨space, live, pages.symm ▸ below, by simpa using valid, rfl⟩
  obtain ⟨frame, middle, after, held, taken, lives, pages', -, -, opened, served⟩ :=
    pageFaultHandler_loads single.table live (pages.symm ▸ below) invalid now
  rw [handled] at served
  cases served
  -- The file grows by what taking the frame writes back.
  refine ⟨fun contents opened => single.grows_taken taken contents opened,
    fun page resident contents opened' i small byte there => ?_⟩
  -- What is read into the frame are the bytes of the page.
  rw [exe] at opened
  have same : contents = held := Option.some.inj (opened'.symm.trans opened)
  subst same
  rw [← taken.currentThread] at lives resident
  have where' := (resident_loaded lives (by rw [pages', pages]; exact below) now contents frame
    middle.currentThread vpn page).mp resident
  rw [if_pos ⟨rfl, rfl⟩] at where'
  obtain rfl : page = frame := by exact_mod_cast where'
  -- The byte is among those that are read.
  have part : (pageBytes contents vpn)[i]? = some byte := by
    simp [pageBytes, List.getElem?_drop, small, there]
  have inside : i < (pageBytes contents vpn).length := by
    by_contra beyond
    rw [List.getElem?_eq_none (by omega)] at part
    cases part
  calc (middle.loaded now after contents vpn page).mainMemory (page * pageSize + i)
      = (pageBytes contents vpn).getD i 0 := MainMemory.store_inside _ inside
    _ = byte := by rw [List.getD_eq_getElem?_getD, part, Option.getD_some]

/-- An access changes the files and the memory only by a page fault, if its page is not there. -/
theorem Single.grows_locate (single : kernel.Single threadId numPages file) {now : Int}
    {addr : Word} {size physAddr : Nat} {writing : Bool}
    (sized : size = 1 ∨ size = 2 ∨ size = 4) (aligned : addr.toNat % size = 0)
    (below : addr.toNat / pageSize < numPages) (spares : kernel.Spares addr)
    (located : kernel.locate now addr size writing = some (physAddr, next)) :
    Grows threadId file kernel next ∧
      ((∀ page, ¬ kernel.Resident threadId (addr.toNat / pageSize) page) → ∀ page : Nat,
        next.Resident threadId (addr.toNat / pageSize) page → ∀ contents,
        next.files file = some contents → ∀ i < pageSize, ∀ byte,
        contents[AddrSpace.fileOffset (addr.toNat / pageSize) + i]? = some byte →
          next.mainMemory (page * pageSize + i) = byte) := by
  -- The process may have seen just what is in memory.
  obtain ⟨observed, rfl, mirror, -⟩ := single.mirror
  obtain ⟨middle, result, translated, -, ways⟩ := locate_cases located
  obtain ⟨files, memory, -⟩ := translate_keeps translated
  by_cases present : ∃ page, observed.kernel.Resident threadId (addr.toNat / pageSize) page
  · -- The page is there, so that nothing is brought in.
    obtain ⟨frame, resident⟩ := present
    obtain ⟨page, rfl, -⟩ := single.table.recorded _ _ _ resident
    obtain ⟨found, went, -⟩ := mirror.translate single.table writing sized aligned resident
    -- The translation succeeds at once, and changes no byte.
    rcases ways with rfl | ⟨missed, faulted, -⟩
    · refine ⟨fun contents opened => ⟨contents, files ▸ opened, fun _ _ _ _ _ there => there⟩,
        fun absent => absurd resident (absent _)⟩
    · -- A page fault for a page that is there is not raised.
      rw [went] at faulted
      cases faulted
  · -- The page is not there, and the fault is served.
    have absent : ∀ page, ¬ observed.kernel.Resident threadId (addr.toNat / pageSize) page :=
      fun page resident => present ⟨page, resident⟩
    obtain ⟨missed, refused⟩ := mirror.translate_absent writing aligned below absent
    -- Without the fault the translation would have succeeded.
    rcases ways with rfl | ⟨_, faulted, handled⟩
    · rw [refused] at translated
      cases translated
    rw [refused] at faulted
    cases faulted
    obtain ⟨grows, brought⟩ := single.grows_fault below absent handled
    -- What the files are is said by the fault.
    refine ⟨fun contents opened => ?_, fun _ page resident contents opened i small byte there => ?_⟩
    · rw [files]
      exact grows contents opened
    · -- The translation that follows does not move the page.
      obtain ⟨frame, served, handled', complete, noted, inFrame⟩ := mirror.fault single.table
        (spares ⟨missed, single.current.symm ▸ absent⟩) below absent now
      rw [handled] at handled'
      cases handled'
      obtain ⟨after, went, -, -, still, -⟩ :=
        noted.translate (by rw [Observed.notice_kernel]; exact complete) writing sized aligned
          (by rw [Observed.notice_kernel]; exact inFrame)
      rw [Observed.notice_kernel, translated] at went
      cases went
      obtain rfl : page = frame := by exact_mod_cast resident.unique still
      rw [memory]
      exact brought page inFrame contents (files ▸ opened) i small byte there

/--
Every access within the address space finds its page.

Any flat memory that the virtual one stands for afterwards is one that it stood for before.
-/
theorem Single.locate (single : kernel.Single threadId numPages file) {addr : Word} {size : Nat}
    (sized : size = 1 ∨ size = 2 ∨ size = 4) (aligned : addr.toNat % size = 0)
    (below : addr.toNat / pageSize < numPages) (spares : kernel.Spares addr) (writing : Bool)
    (now : Int) :
    ∃ page next, kernel.locate now addr size writing =
        some (page * pageSize + addr.toNat % pageSize, next) ∧
      next.Single threadId numPages file ∧
      next.Resident threadId (addr.toNat / pageSize) (page : Nat) ∧
      ∀ memory, next.Backs threadId numPages file memory →
        kernel.Backs threadId numPages file memory := by
  -- The process may have seen just what is in memory.
  obtain ⟨observed, rfl, mirror, seen⟩ := single.mirror
  obtain ⟨page, next, located, complete, noted, resident⟩ :=
    mirror.locate single.table writing sized aligned below spares now
  obtain ⟨grows, brought⟩ := single.grows_locate sized aligned below spares located
  have noticed := observed.notice_seen next (addr.toNat / pageSize)
  have single' : next.Single threadId numPages file := by
    have := single_of_mirror noted (by rw [Observed.notice_kernel]; exact complete)
    rwa [Observed.notice_kernel] at this
  refine ⟨page, next, located, single', resident, fun memory backs => ⟨?_, ?_⟩⟩
  · -- The pages that were in memory.
    intro v frame before i small
    -- What has been noted for the page is what was in its frame.
    have known : observed.seen v = true := (seen v).mpr ⟨frame, before⟩
    have held : (observed.notice next (addr.toNat / pageSize)).reference (v * pageSize + i) =
        observed.kernel.mainMemory (frame * pageSize + i) := by
      rw [(mirror.inside v frame before).2 i small]
      by_cases here : v = addr.toNat / pageSize
      · rw [Observed.notice_reference_again _ (here ▸ known)]
      · rw [Observed.notice_reference_ne _ here small]
    -- They are still there, or have been thrown out.
    by_cases stays : ∃ other : Int, next.Resident threadId v other
    · obtain ⟨other, after⟩ := stays
      obtain ⟨other, rfl, -⟩ := complete.recorded _ _ _ after
      have same := (noted.inside v other (by rw [Observed.notice_kernel]; exact after)).2 i small
      rw [Observed.notice_kernel, held] at same
      exact same.symm.trans (backs.inside v other after i small)
    · -- The page was thrown out, and is in the file as a whole.
      have gone : ∀ other, ¬ next.Resident threadId v other := fun other after =>
        stays ⟨other, after⟩
      obtain ⟨contents, opened⟩ := single'.opened
      have inTable := mirror.below before
      have saved := noted.outside v inTable ((noticed v).mpr (.inr known))
        (by rw [Observed.notice_kernel]; exact gone) contents
        (by rw [Observed.notice_kernel]; exact opened)
      have there : (pageBytes contents v)[i]? =
          some (observed.kernel.mainMemory (frame * pageSize + i)) := by
        rw [saved, ← held]
        simp [MainMemory.slice, small]
      have part : contents[AddrSpace.fileOffset v + i]? =
          some (observed.kernel.mainMemory (frame * pageSize + i)) := by
        simpa [pageBytes, List.getElem?_take, List.getElem?_drop, small] using there
      exact (backs.outside v inTable gone contents opened i small _ part).symm
  · -- The pages that were not in memory.
    intro v inTable absent contents opened i small byte there
    obtain ⟨after, opened', kept⟩ := grows contents opened
    have there' := kept v absent i small byte there
    by_cases here : v = addr.toNat / pageSize
    · -- The page has been brought in with what the file has of it.
      subst here
      rw [← brought absent page resident after opened' i small byte there']
      exact (backs.inside _ page resident i small).symm
    · -- Another page has not arrived, since it was not noted.
      refine backs.outside v inTable (fun frame arrived => ?_) after opened' i small byte there'
      obtain ⟨frame, rfl, -⟩ := complete.recorded _ _ _ arrived
      obtain ⟨known, -⟩ := noted.inside v frame (by rw [Observed.notice_kernel]; exact arrived)
      rcases (noticed v).mp known with same | known
      · exact here same
      · obtain ⟨frame, before⟩ := (seen v).mp known
        exact absent frame before

/-- An access that is not aligned, or not within the address space, is an address error. -/
theorem Single.refused (single : kernel.Single threadId numPages file) {addr : Word} {size : Nat}
    (sized : size = 1 ∨ size = 2 ∨ size = 4)
    (bad : ¬ (addr.toNat % size = 0 ∧ addr.toNat / pageSize < numPages)) (writing : Bool) :
    kernel.translate addr size writing = some (.error .addressErrorException, kernel) := by
  unfold VmKernel.translate
  -- A misaligned address is refused at once.
  by_cases crooked : misaligned addr size = true
  · rw [if_pos crooked]
  · -- An aligned one is beyond the end of the table.
    have straight : misaligned addr size = false := by simpa using crooked
    have beyond : numPages ≤ addr.toNat / pageSize := by
      by_contra inside
      exact bad ⟨aligned_of_not_misaligned sized straight, by omega⟩
    -- The TLB has no translations of pages that there are not.
    have missed : kernel.tlb.hit (addr.toNat / pageSize) = none := by
      cases found : kernel.tlb.hit (addr.toNat / pageSize) with
      | none => rfl
      | some way =>
        obtain ⟨valid, tag⟩ := TLB.hit_some found
        obtain ⟨v, set, tagged, space, live, inTable, -⟩ := single.mapped _ way valid
        obtain ⟨own, ownLive, pages, -⟩ := single.live
        rw [live] at ownLive
        cases ownLive
        have bounded := single.bounded
        have small := addr.isLt
        have same : v = addr.toNat / pageSize := by
          apply TLB.eq_of_tag_index _ _ (tagged.trans tag) set
          all_goals
            simp only [pageSize] at *
            omega
        omega
    -- So the walk is what refuses it.
    rw [TLB.translate_miss missed]
    simp only [straight, Bool.false_eq_true, if_false]
    rw [if_neg (by decide)]
    unfold VmKernel.walk
    exact if_pos (by rw [single.size]; exact beyond)

/-- What is read from a page in memory is what the flat memory has there. -/
theorem Backs.slice {memory : MainMemory} (backs : kernel.Backs threadId numPages file memory)
    {addr : Word} {size page : Nat}
    (resident : kernel.Resident threadId (addr.toNat / pageSize) (page : Nat))
    (fits : addr.toNat % pageSize + size ≤ pageSize) :
    kernel.mainMemory.slice (page * pageSize + addr.toNat % pageSize) size =
      memory.slice addr.toNat size := by
  -- The bytes are compared one by one.
  apply MainMemory.slice_congr
  intro i small
  have bytes := backs.inside _ page resident (addr.toNat % pageSize + i) (by omega)
  have whole : addr.toNat / pageSize * pageSize + (addr.toNat % pageSize + i) =
      addr.toNat + i := by simp only [pageSize]; omega
  rw [Nat.add_assoc, bytes, whole]

/-- A store to a page in memory is a store to the flat memory. -/
theorem Single.store (single : kernel.Single threadId numPages file) {addr : Word} {page : Nat}
    {bytes : List Byte}
    (resident : kernel.Resident threadId (addr.toNat / pageSize) (page : Nat))
    (fits : addr.toNat % pageSize + bytes.length ≤ pageSize) {memory : MainMemory}
    (backs : Backs threadId numPages file { kernel with
      mainMemory := kernel.mainMemory.store (page * pageSize + addr.toNat % pageSize) bytes }
        memory) :
    ∃ before, kernel.Backs threadId numPages file before ∧
      before.store addr.toNat bytes = memory := by
  -- Before the store, the bytes under it were those in the frame.
  refine ⟨fun a => if addr.toNat ≤ a ∧ a < addr.toNat + bytes.length then
    kernel.mainMemory (page * pageSize + addr.toNat % pageSize + (a - addr.toNat)) else memory a,
    ⟨fun v frame there i small => ?_,
      fun v inTable absent contents opened i small byte found => ?_⟩, ?_⟩
  · -- A page in memory.
    have after := backs.inside v frame there i small
    dsimp only at after ⊢
    -- It is the page that is stored to, or it is in another frame.
    by_cases here : v = addr.toNat / pageSize
    · subst here
      obtain rfl : frame = page := by exact_mod_cast there.unique resident
      split
      · congr 1
        simp only [pageSize] at *
        omega
      · rename_i outside
        rw [← after, MainMemory.store_outside]
        simp only [pageSize] at *
        omega
    · -- In another frame nothing was stored.
      have apart : frame ≠ page := by
        rintro rfl
        exact here (single.table.occupant there resident).2
      simp only [pageSize] at *
      rw [if_neg (by omega), ← after, MainMemory.store_outside]
      rcases Nat.lt_or_gt_of_ne apart with h | h <;> omega
  · -- A page that is not in memory was not stored to.
    have different : v ≠ addr.toNat / pageSize := by
      rintro rfl
      exact absent page resident
    have open' := backs.outside v inTable absent contents opened i small byte found
    simp only [pageSize] at *
    rwa [if_neg (by omega)]
  · -- Storing the bytes again gives the memory that was assumed.
    funext a
    unfold MainMemory.store
    split
    · rename_i inside
      -- What was stored is in the frame now.
      have after := backs.inside _ page resident (addr.toNat % pageSize + (a - addr.toNat))
        (by omega)
      have whole : addr.toNat / pageSize * pageSize +
          (addr.toNat % pageSize + (a - addr.toNat)) = a := by
        simp only [pageSize] at *
        omega
      rw [whole, ← Nat.add_assoc] at after
      have stored : kernel.mainMemory.store (page * pageSize + addr.toNat % pageSize) bytes
          (page * pageSize + addr.toNat % pageSize + (a - addr.toNat)) =
            bytes.getD (a - addr.toNat) 0 :=
        MainMemory.store_inside _ (by omega)
      exact stored.symm.trans after
    · -- Elsewhere nothing has been changed.
      rename_i outside
      exact if_neg outside

/-- A store changes nothing of the page table or the TLB. -/
theorem Single.stored (single : kernel.Single threadId numPages file) (mainMemory : MainMemory) :
    Single threadId numPages file { kernel with mainMemory } :=
  ⟨single.table.congr rfl rfl rfl, single.bounded, single.current, single.pointer, single.size,
    single.live, single.alone, single.mapped⟩

end VmKernel

end Nachos
