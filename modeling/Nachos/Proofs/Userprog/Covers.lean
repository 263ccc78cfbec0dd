import Nachos.Proofs.Coff2noff.Faithful
import Nachos.Proofs.Vm.CreateSpace
import Nachos.Proofs.Vm.DemandPaging

/-! When the page table of an address space has room for all of the program, and for its stack. -/

namespace Nachos

/-- The section takes up an address of the memory. -/
def ScnHdr.Occupies (header : ScnHdr) (address : Word) : Prop :=
  ∃ k : Nat, k < header.size ∧ address = BitVec.ofInt 32 (header.paddr + k)

/-- No address is in both sections. -/
def ScnHdr.Apart (one other : ScnHdr) : Prop :=
  ∀ address, ¬ (one.Occupies address ∧ other.Occupies address)

instance : Std.Symm ScnHdr.Apart := ⟨fun _ _ apart address both => apart address both.symm⟩

namespace Segment

/-- Where a segment begins in memory. The machine's addresses are unsigned. -/
def start (segment : Segment) : Nat := (BitVec.ofInt 32 segment.virtualAddr).toNat

/-- The size of a segment, as the kernel adds it up: unsigned. -/
def extent (segment : Segment) : Nat := (BitVec.ofInt 32 segment.size).toNat

/-- The header holds enough of a segment for both. -/
theorem start_recorded (segment : Segment) : segment.recorded.start = segment.start := by
  unfold start recorded
  dsimp only
  rw [← BitVec.toInt_ofInt, BitVec.ofInt_toInt]

theorem extent_recorded (segment : Segment) : segment.recorded.extent = segment.extent := by
  unfold extent recorded
  dsimp only
  rw [← BitVec.toInt_ofInt, BitVec.ofInt_toInt]

end Segment

namespace NoffLayout

/-- The segments of a header. -/
def segments (layout : NoffLayout) : List Segment :=
  [layout.code, layout.initData, layout.readonlyData, layout.uninitData]

/-- The size of all segments together. -/
def total (layout : NoffLayout) : Nat := (layout.segments.map Segment.extent).sum

/-- The segments end below the sum of their sizes, once that is rounded up to whole pages. -/
structure Packs (layout : NoffLayout) : Prop where
  -- The kernel adds the stack to the sizes as an unsigned int.
  fits : layout.total + userStackSize.toNat < 2 ^ 32
  below : ∀ segment ∈ layout.segments, 0 < segment.extent →
    segment.start + segment.extent ≤ divRoundUp layout.total pageSize * pageSize

end NoffLayout

/-- The page table has an entry for each byte of the segments, and for a stack above them. -/
structure AddrSpace.Covers (space : AddrSpace) (layout : NoffLayout) : Prop where
  entries : ∀ segment ∈ layout.segments, ∀ k < segment.extent,
    segment.start + k < space.numPages * pageSize
  stack : ∀ segment ∈ layout.segments, 0 < segment.extent →
    segment.start + segment.extent + userStackSize.toNat ≤ space.numPages * pageSize
  bare : userStackSize.toNat ≤ space.numPages * pageSize

/-- Three ranges below a bound take up no more than that together, if no two of them overlap. -/
theorem sum_le_of_disjoint {first second third : Segment} {bound : Nat}
    (disjoint : ∀ address : Nat, [first, second, third].Pairwise fun one other =>
      ¬ ((one.start ≤ address ∧ address < one.start + one.extent) ∧
        (other.start ≤ address ∧ address < other.start + other.extent)))
    (below : ∀ segment ∈ [first, second, third], 0 < segment.extent →
      segment.start + segment.extent ≤ bound) :
    first.extent + second.extent + third.extent ≤ bound := by
  -- Of two ranges that are not empty, one ends before the other begins.
  have ordered : ∀ one other : Segment,
      (∀ address : Nat, ¬ ((one.start ≤ address ∧ address < one.start + one.extent) ∧
        (other.start ≤ address ∧ address < other.start + other.extent))) →
      one.extent = 0 ∨ other.extent = 0 ∨ one.start + one.extent ≤ other.start ∨
        other.start + other.extent ≤ one.start := by
    intro one other apart
    -- The first address of either range would be in both of them.
    have lower := apart one.start
    have upper := apart other.start
    omega
  simp only [List.pairwise_cons, List.mem_cons, List.not_mem_nil, or_false, forall_eq_or_imp,
    forall_eq] at disjoint below
  -- What is left is arithmetic, in any of the orders of the three.
  have firstSecond := ordered first second fun address => (disjoint address).1.1
  have firstThird := ordered first third fun address => (disjoint address).1.2
  have secondThird := ordered second third fun address => (disjoint address).2.1
  omega

/-- The three segments with contents do not overlap. -/
def NoffLayout.Apart (layout : NoffLayout) : Prop :=
  ∀ address : Nat, [layout.code, layout.initData, layout.readonlyData].Pairwise fun one other =>
    ¬ ((one.start ≤ address ∧ address < one.start + one.extent) ∧
      (other.start ≤ address ∧ address < other.start + other.extent))

/-- An address space of so many pages has room exactly if the segments are packed closely. -/
theorem AddrSpace.covers_iff {space : AddrSpace} {layout : NoffLayout} (apart : layout.Apart)
    (pages : space.numPages =
      divRoundUp ((layout.total + userStackSize.toNat) % 2 ^ 32) pageSize) :
    space.Covers layout ↔ layout.Packs := by
  have stackSize : userStackSize.toNat = 1024 := rfl
  have total : layout.total = layout.code.extent + layout.initData.extent +
      layout.readonlyData.extent + layout.uninitData.extent := by
    simp [NoffLayout.total, NoffLayout.segments, Nat.add_assoc]
  -- A whole number of pages more is rounded up to as many pages more.
  have rounded : ∀ n, n ≤ divRoundUp n pageSize * pageSize ∧
      divRoundUp n pageSize * pageSize < n + pageSize ∧
      divRoundUp (n + 1024) pageSize * pageSize = divRoundUp n pageSize * pageSize + 1024 := by
    intro n
    unfold divRoundUp
    simp only [pageSize]
    split_ifs <;> omega
  constructor
  · -- One way: the pages cover all the segments, and the stack.
    intro covers
    have below : ∀ segment ∈ layout.segments, 0 < segment.extent →
        segment.start + segment.extent ≤ space.numPages * pageSize - 1024 := by
      intro segment member some
      have stack := covers.stack segment member some
      omega
    -- All four sizes together are at most twice as much as the pages have room for.
    -- Three of them lie apart from one another.
    have three : layout.code.extent + layout.initData.extent + layout.readonlyData.extent ≤
        space.numPages * pageSize - 1024 :=
      sum_le_of_disjoint apart fun segment member some =>
        below segment (by simp only [NoffLayout.segments]; grind) some
    -- The fourth is alone.
    have fourth : layout.uninitData.extent ≤ space.numPages * pageSize - 1024 := by
      rcases Nat.eq_zero_or_pos layout.uninitData.extent with none | some
      · omega
      · have ends := below layout.uninitData (by simp [NoffLayout.segments]) some
        omega
    -- So the sum has not wrapped around: that would have left too few pages.
    have room := (rounded ((layout.total + 1024) % 2 ^ 32)).2.1
    rw [stackSize] at pages
    rw [← pages] at room
    have fits : layout.total + 1024 < 2 ^ 32 := by
      simp only [pageSize] at *
      omega
    -- The number of pages is that of the sum.
    rw [Nat.mod_eq_of_lt fits] at pages
    refine ⟨fits, fun segment member some => ?_⟩
    -- Each segment ends below the stack.
    have stack := covers.stack segment member some
    rw [pages, (rounded layout.total).2.2] at stack
    omega
  · -- The other way: the segments end where the sum does.
    intro packs
    have fits := packs.fits
    -- The pages are those of the segments and, on top of them, those of the stack.
    rw [Nat.mod_eq_of_lt fits, stackSize] at pages
    have room : space.numPages * pageSize = divRoundUp layout.total pageSize * pageSize + 1024 := by
      rw [pages, (rounded layout.total).2.2]
    refine ⟨fun segment member k inside => ?_, fun segment member some => ?_, by omega⟩
    · -- A byte of a segment is below that end.
      have ends := packs.below segment member (by omega)
      omega
    · -- So is the whole segment, with the stack above.
      have ends := packs.below segment member some
      omega

namespace Converter

/-- Each segment with contents is that of a section, or is empty. -/
def Sourced (converter : Converter) (done : List ScnHdr) : Prop :=
  ∀ name ∈ contentNames, (converter.layout.segmentOf name).size = 0 ∨ ∃ header ∈ done,
    header.name = name ∧ (converter.layout.segmentOf name).virtualAddr = header.paddr ∧
      (converter.layout.segmentOf name).size = header.size

/-- A section can only put itself in the place of another one. -/
theorem Sourced.step {coff : List Byte} {converter after : Converter} {done : List ScnHdr}
    {header : ScnHdr} (sourced : converter.Sourced done)
    (added : converter.addSection coff header = some after) : after.Sourced (done ++ [header]) := by
  -- What was found before is found still.
  have before : ∀ other : Converter, (∀ name, other.layout.segmentOf name =
      converter.layout.segmentOf name) → other.Sourced (done ++ [header]) := by
    intro other same name known
    rw [same]
    rcases sourced name known with empty | ⟨earlier, member, found⟩
    · exact .inl empty
    · exact .inr ⟨earlier, List.mem_append_left _ member, found⟩
  -- It is skipped, or copied into the segment for its name, or has no contents.
  rcases addSection_cases added with ⟨-, rfl⟩ |
    ⟨-, known, segment, middle, buffer, copies, rfl⟩ | ⟨-, -, -, added⟩
  · -- It is skipped.
    exact before after fun _ => rfl
  · -- It is copied: the segment for its name is its own.
    intro name otherKnown
    dsimp only
    rw [NoffLayout.segmentOf_setSegment known otherKnown]
    split_ifs with own
    · exact .inr ⟨header, by simp, own.symm, by rw [copies.segment], by rw [copies.segment]⟩
    · -- The segments for the other names are not touched.
      exact before converter (fun _ => rfl) name otherKnown
  · -- It has no contents, and no segment of these is touched.
    exact before after (addUninit_kept added).2.2

end Converter

/-- An address in the segment for a name is in a section of that name. -/
theorem Converter.Sourced.occupied {done : Converter} {sections : List ScnHdr}
    (sourced : done.Sourced sections) {coff : List Byte} (table : sectionsOf coff = some sections)
    (sizes : ∀ header ∈ sections, 0 ≤ header.size) {name : List Byte}
    (known : name ∈ contentNames) {address : Nat}
    (above : (done.layout.segmentOf name).start ≤ address)
    (below : address < (done.layout.segmentOf name).start + (done.layout.segmentOf name).extent) :
    ∃ header ∈ sections, header.name = name ∧ header.Occupies (BitVec.ofNat 32 address) := by
  rcases sourced name known with empty | ⟨header, member, named, paddr, size⟩
  · -- An empty segment has no address.
    unfold Segment.extent at below
    rw [empty] at below
    simp at below
    omega
  refine ⟨header, member, named, address - (done.layout.segmentOf name).start, ?_, ?_⟩
  · -- The size of the section is not negative, so it is the same as an unsigned int.
    have extent : (done.layout.segmentOf name).extent = header.size.toNat := by
      have fits := (inInt_of_sectionsOf table header member).2
      have held := sizes header member
      unfold Segment.extent
      rw [size, BitVec.toNat_ofInt]
      omega
    have nonneg := sizes header member
    omega
  · -- The address counts from the start of the section.
    unfold Segment.start at above ⊢
    rw [BitVec.ofInt_add, BitVec.ofInt_natCast, ← paddr]
    -- Both sides count from where the segment begins, and no address is larger than a word.
    apply BitVec.eq_of_toNat_eq
    simp only [BitVec.toNat_add, BitVec.toNat_ofNat]
    omega

/-- Sections that do not overlap leave segments that do not overlap. -/
theorem NoffFile.apart_of_sections {uninitialised : NoffLayout} {coff : List Byte}
    {noff : NoffFile} (produced : coff2noff uninitialised coff = some noff)
    {sections : List ScnHdr} (table : sectionsOf coff = some sections)
    (apart : sections.Pairwise ScnHdr.Apart)
    (sizes : ∀ header ∈ sections, 0 ≤ header.size) :
    (NoffLayout.ofBytes noff.toBytes).Apart := by
  obtain ⟨found, done, read, converted, rfl⟩ := sections_of_coff2noff produced
  obtain rfl : sections = found := Option.some.inj (table.symm.trans read)
  have start : (Converter.start uninitialised sections.length).Sourced [] := by
    intro name _
    left
    unfold NoffLayout.segmentOf
    split_ifs <;> rfl
  -- Nothing is in the segments at first, and each section keeps them those of sections.
  have sourced : done.Sourced sections := replay_history
    (fun _ _ _ _ sourced added => sourced.step added) start converted
  intro address
  change (contentNames.map (NoffLayout.ofBytes
    (NoffFile.toBytes ⟨done.layout, done.written⟩)).segmentOf).Pairwise _
  rw [List.pairwise_map]
  have distinct : contentNames.Pairwise (· ≠ ·) := by decide
  refine distinct.imp_of_mem fun {name other} known otherKnown different => ?_
  -- The segments start and end where those in memory do.
  simp only [NoffFile.segmentOf_ofBytes, Segment.start_recorded, Segment.extent_recorded]
  rintro ⟨inOne, inOther⟩
  obtain ⟨header, member, named, occupies⟩ := sourced.occupied table sizes known inOne.1 inOne.2
  obtain ⟨header', member', named', occupies'⟩ :=
    sourced.occupied table sizes otherKnown inOther.1 inOther.2
  -- An address in two segments would be in two sections, which are of different names.
  refine apart.forall member member' ?_ _ ⟨occupies, occupies'⟩
  rintro rfl
  exact different (named.symm.trans named')

/-- The header of a NOFF file has its magic number, and the sizes that the kernel adds up. -/
theorem NoffFile.pagesOf_header (noff : NoffFile) (stack : List Byte) :
    (AddrSpace.header noff.toBytes stack).noffMagic = noffMagic ∧
    AddrSpace.pagesOf (AddrSpace.header noff.toBytes stack) =
      divRoundUp (((NoffLayout.ofBytes noff.toBytes).total + userStackSize.toNat) % 2 ^ 32)
        pageSize := by
  -- The file is long enough for a header.
  have long : sizeofNoffHeader ≤ noff.toBytes.length := by
    simp [toBytes]
  rw [AddrSpace.header_of_long long]
  constructor
  · -- The file begins with the ints of the header, of which the magic number is the first.
    have spelled : noff.toBytes = noff.layout.ints.flatMap intBytes ++ noff.segments := by
      simp [toBytes, NoffLayout.toBytes, NoffLayout.ints, Segment.toBytes]
    have magic := intAt_flatMap_intBytes_bmod noff.layout.ints noff.segments 0 (by
      simp [NoffLayout.ints])
    -- The first int is read back.
    rw [← spelled] at magic
    apply BitVec.eq_of_toInt_eq
    exact magic
  · unfold AddrSpace.pagesOf
    dsimp only
    refine congrArg (divRoundUp · pageSize) ?_
    -- The kernel reads the same words as sizes.
    have extent : ∀ offset, (Segment.ofBytes noff.toBytes offset).extent =
        (wordAt noff.toBytes (offset + 8)).toNat := by
      intro offset
      unfold Segment.extent Segment.ofBytes intAt
      dsimp only
      rw [BitVec.ofInt_toInt]
    -- The sum is taken over the four sizes.
    have total : (NoffLayout.ofBytes noff.toBytes).total =
        (wordAt noff.toBytes 12).toNat + ((wordAt noff.toBytes 24).toNat +
          ((wordAt noff.toBytes 36).toNat + (wordAt noff.toBytes 48).toNat)) := by
      simp only [NoffLayout.total, NoffLayout.segments, NoffLayout.ofBytes, List.map_cons,
        List.map_nil, List.sum_cons, List.sum_nil, extent, Nat.add_zero]
    rw [total]
    -- The kernel adds them up in words.
    simp only [NoffHeader.ofBytes, BitVec.toNat_add]
    omega

/--
The page table of a program has an entry for each byte of its segments, and room for the stack
above them, exactly if the segments end below the sum of their sizes in whole pages.
-/
theorem addrSpace_covers_iff (uninitialised : NoffLayout) (coff : List Byte) (noff : NoffFile)
    (produced : coff2noff uninitialised coff = some noff) (sections : List ScnHdr)
    (table : sectionsOf coff = some sections) (apart : sections.Pairwise ScnHdr.Apart)
    (sizes : ∀ header ∈ sections, 0 ≤ header.size) (files : UnixFiles) (threadId : Int)
    (fileName : FileName) (opened : files fileName = some noff.toBytes) (stack : List Byte)
    (memory : AddrSpace) :
    ∃ space, AddrSpace.new files threadId fileName stack memory = some space ∧
      (space.Covers (NoffLayout.ofBytes noff.toBytes) ↔
        (NoffLayout.ofBytes noff.toBytes).Packs) := by
  obtain ⟨magic, pages⟩ := noff.pagesOf_header stack
  -- The file opens and has the magic number, so an address space is built.
  refine ⟨_, by simp only [AddrSpace.new, opened, if_pos magic]; rfl, ?_⟩
  exact AddrSpace.covers_iff (NoffFile.apart_of_sections produced table apart sizes) pages

/-- The header of the program that is all text. -/
theorem textNoff_header : NoffLayout.ofBytes textNoff.toBytes = textNoff.layout := by
  decide +kernel

/-- The page table of a program that is all text has room for it, and for its stack. -/
theorem addrSpace_covers_text :
    ∃ space, AddrSpace.new (fun _ => some textNoff.toBytes) 0 [1] []
        ⟨0, 0, [], AddrSpace.freshEntry⟩ = some space ∧
      space.Covers (NoffLayout.ofBytes textNoff.toBytes) := by
  obtain ⟨space, built, covers⟩ := addrSpace_covers_iff blankLayout textProgram textNoff
    (by decide +kernel) [⟨textName, 0, 4, 116⟩] (by decide +kernel) (List.pairwise_singleton _ _)
    (by decide) (fun _ => some textNoff.toBytes) 0 [1] rfl [] ⟨0, 0, [], AddrSpace.freshEntry⟩
  refine ⟨space, built, covers.mpr ?_⟩
  rw [textNoff_header]
  exact ⟨by decide, by decide⟩

/-- Text and data that do not overlap, with a gap between them, as the linker leaves it. -/
theorem dataSections_apart : dataSections.Pairwise ScnHdr.Apart := by
  refine List.pairwise_pair.mpr ?_
  rintro address ⟨⟨k, below, here⟩, ⟨k', below', there⟩⟩
  -- An address in both would be below 4 and not below 128.
  rw [here] at there
  have same := congrArg BitVec.toNat there
  simp only [BitVec.toNat_ofInt] at same
  dsimp only at below below'
  omega

/-- The page table of a program with data leaves four bytes less above it than a stack takes. -/
theorem addrSpace_coversNoGap :
    coff2noff blankLayout dataProgram = some dataNoff ∧
    sectionsOf dataProgram = some dataSections ∧ dataSections.Pairwise ScnHdr.Apart ∧
    ∃ space, AddrSpace.new (fun _ => some dataNoff.toBytes) 0 [1] []
        ⟨0, 0, [], AddrSpace.freshEntry⟩ = some space ∧
      space.numPages = 9 ∧ ¬ space.Covers (NoffLayout.ofBytes dataNoff.toBytes) := by
  refine ⟨by decide +kernel, by decide +kernel, dataSections_apart, launchedSpace dataNoff, rfl,
    by decide +kernel, fun covers => ?_⟩
  -- The data ends at address 132, which leaves 1020 bytes of 9 pages for the stack.
  have stack := covers.stack ⟨128, 56, 4⟩ (by decide +kernel) (by decide)
  exact absurd stack (by decide +kernel)

end Nachos
