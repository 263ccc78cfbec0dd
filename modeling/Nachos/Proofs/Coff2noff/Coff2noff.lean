import Nachos.Proofs.Coff2noff.Sections

/-! What the converter copies is in the file that it makes. -/

namespace Nachos

/-- The segments whose contents are in the file. -/
def NoffLayout.copied (layout : NoffLayout) : List Segment :=
  [layout.code, layout.initData, layout.readonlyData]

/-- A segment of the header is either the one that was put there, or was there before. -/
theorem NoffLayout.mem_copied_setSegment {layout : NoffLayout} {name : List Byte}
    {segment other : Segment} (member : other ∈ (layout.setSegment name segment).copied) :
    other = segment ∨ other ∈ layout.copied := by
  unfold setSegment at member
  split_ifs at member <;>
  · simp only [copied, List.mem_cons, List.not_mem_nil, or_false] at member ⊢
    grind

namespace Converter

/-- The segment lies in what has been written so far, unless there is nothing of it. -/
abbrev Within (converter : Converter) (segment : Segment) : Prop :=
  segment.size ≤ 0 ∨
    segment.inFileAddr + segment.size ≤ sizeofNoffHeader + converter.written.length

/-- What has been copied so far is in the file, and the next segment goes no further than its end. -/
structure Packed (converter : Converter) : Prop where
  next : converter.inNoffFile ≤ sizeofNoffHeader + converter.written.length
  within : ∀ segment ∈ converter.layout.copied, converter.Within segment

/-- A segment that has been copied is in the file, and nothing before it has been moved. -/
theorem Packed.copies {coff buffer : List Byte} {converter after : Converter} {header : ScnHdr}
    {segment : Segment} (packed : converter.Packed)
    (copies : Copies coff converter header segment after buffer) :
    after.inNoffFile ≤ sizeofNoffHeader + after.written.length ∧ after.Within segment ∧
      ∀ other, converter.Within other → after.Within other := by
  have next := packed.next
  -- The number of bytes read is the size of the section, unless that is negative.
  have count := copies.length
  refine ⟨?_, Or.inr ?_, ?_⟩
  · rw [copies.inNoffFile, copies.written, List.length_append]
    omega
  · rw [copies.written, copies.segment, List.length_append]
    dsimp only
    omega
  · intro other within
    simp only [Within, copies.written, List.length_append] at within ⊢
    omega

/-- One section keeps what has been copied in the file. -/
theorem Packed.addSection {coff : List Byte} {converter after : Converter} {header : ScnHdr}
    (packed : converter.Packed) (added : converter.addSection coff header = some after) :
    after.Packed := by
  rcases addSection_cases added with ⟨-, rfl⟩ |
    ⟨-, -, segment, middle, buffer, copies, rfl⟩ | ⟨-, -, -, added⟩
  · exact packed
  · -- The segment takes its place among those that are in the file.
    obtain ⟨next, within, kept⟩ := packed.copies copies
    refine ⟨next, fun other member => ?_⟩
    rcases NoffLayout.mem_copied_setSegment member with rfl | before
    · exact within
    · exact kept other (packed.within other before)
  · -- Uninitialised data is not copied.
    obtain ⟨next, written, segments⟩ := addUninit_kept added
    have copied : after.layout.copied = converter.layout.copied :=
      List.map_congr_left fun name (_ : name ∈ contentNames) => segments name
    refine ⟨?_, fun segment member => ?_⟩
    · rw [next, written]
      exact packed.next
    · unfold Within
      rw [written]
      exact packed.within segment (copied ▸ member)

end Converter

/-- The header of a NOFF file has its fixed size. -/
@[simp] theorem NoffLayout.length_toBytes (layout : NoffLayout) :
    layout.toBytes.length = sizeofNoffHeader := by
  simp [NoffLayout.toBytes, Segment.toBytes]

/-- A file that is converted is what the loop over its sections makes. -/
theorem sections_of_coff2noff {uninitialised : NoffLayout} {coff : List Byte} {noff : NoffFile}
    (produced : coff2noff uninitialised coff = some noff) :
    ∃ sections done, sectionsOf coff = some sections ∧
      replay (Converter.addSection coff) (.start uninitialised sections.length) sections =
        some done ∧ noff = ⟨done.layout, done.written⟩ := by
  rw [coff2noff_eq] at produced
  obtain ⟨sections, table, produced⟩ := Option.bind_eq_some_iff.mp produced
  obtain ⟨done, converted, rfl⟩ := Option.map_eq_some_iff.mp produced
  exact ⟨sections, done, table, converted, rfl⟩

/-- The file that the converter makes has every segment that it copied. -/
theorem ConvertedFile.within (noff : ConvertedFile) :
    ∀ segment ∈ noff.1.layout.copied,
      segment.size ≤ 0 ∨ segment.inFileAddr + segment.size ≤ noff.1.toBytes.length := by
  obtain ⟨uninitialised, coff, produced⟩ := noff.2
  obtain ⟨sections, done, -, converted, made⟩ := sections_of_coff2noff produced
  have packed : done.Packed := by
    refine replay_invariant (fun _ _ _ packed added => packed.addSection added) ⟨?_, ?_⟩ converted
    · simp [Converter.start]
    · simp [Converter.start, Converter.Within, NoffLayout.cleared, NoffLayout.copied]
  intro segment member
  rw [made] at member ⊢
  have within := packed.within segment member
  simpa [NoffFile.toBytes, Converter.Within] using within

/-- The numbers of a header, in the order in which the header has them. -/
def NoffLayout.ints (layout : NoffLayout) : List Int :=
  noffMagic.toInt :: [layout.code, layout.initData, layout.readonlyData, layout.uninitData].flatMap
    fun segment => [segment.virtualAddr, segment.inFileAddr, segment.size]

/-- A segment as its entry in a header says. -/
def Segment.ofBytes (bytes : List Byte) (offset : Nat) : Segment where
  virtualAddr := intAt bytes offset
  inFileAddr := intAt bytes (offset + 4)
  size := intAt bytes (offset + 8)

/-- The segments as the header of a file says. -/
def NoffLayout.ofBytes (bytes : List Byte) : NoffLayout where
  code := .ofBytes bytes 4
  initData := .ofBytes bytes 16
  readonlyData := .ofBytes bytes 28
  uninitData := .ofBytes bytes 40

/-- What an entry of a header can hold of a segment. -/
def Segment.recorded (segment : Segment) : Segment where
  virtualAddr := segment.virtualAddr.bmod (2 ^ 32)
  inFileAddr := segment.inFileAddr.bmod (2 ^ 32)
  size := segment.size.bmod (2 ^ 32)

/-- The header of a NOFF file says of each segment what it can hold of it. -/
theorem NoffFile.layout_ofBytes (noff : NoffFile) :
    NoffLayout.ofBytes noff.toBytes = {
      code := noff.layout.code.recorded
      initData := noff.layout.initData.recorded
      readonlyData := noff.layout.readonlyData.recorded
      uninitData := noff.layout.uninitData.recorded } := by
  have spelled : noff.toBytes = noff.layout.ints.flatMap intBytes ++ noff.segments := by
    simp [toBytes, NoffLayout.toBytes, NoffLayout.ints, Segment.toBytes]
  -- Each entry takes up three of the numbers.
  have entry : ∀ i, i + 2 < noff.layout.ints.length →
      Segment.ofBytes noff.toBytes (4 * i) = {
        virtualAddr := (noff.layout.ints.getD i 0).bmod (2 ^ 32)
        inFileAddr := (noff.layout.ints.getD (i + 1) 0).bmod (2 ^ 32)
        size := (noff.layout.ints.getD (i + 2) 0).bmod (2 ^ 32) } := by
    intro i inside
    have held := intAt_flatMap_intBytes_bmod noff.layout.ints noff.segments
    rw [spelled]
    simp only [Segment.ofBytes, Segment.mk.injEq]
    exact ⟨held i (by omega), held (i + 1) (by omega), held (i + 2) (by omega)⟩
  have long : noff.layout.ints.length = 13 := rfl
  simp only [NoffLayout.ofBytes, NoffLayout.mk.injEq]
  exact ⟨entry 1 (by omega), entry 4 (by omega), entry 7 (by omega), entry 10 (by omega)⟩

/-- A section header as it is in a COFF file. -/
def ScnHdr.toBytes (header : ScnHdr) : List Byte :=
  header.name ++ .replicate (8 - header.name.length) 0 ++ intBytes header.paddr ++
    intBytes header.paddr ++ intBytes header.size ++ intBytes header.scnptr ++ .replicate 16 0

/-- A COFF file with these section headers, and these contents behind them. -/
def coffFile (headers : List ScnHdr) (contents : List Byte) : List Byte :=
  leBytes 2 mipselMagic ++ leBytes 2 headers.length ++ .replicate 16 0 ++ leBytes 2 omagic ++
    .replicate 54 0 ++ headers.flatMap ScnHdr.toBytes ++ contents

/-- The COFF file of a program that has nothing but four bytes of text. -/
def textProgram : List Byte := coffFile [⟨textName, 0, 4, 116⟩] [1, 2, 3, 4]

/-- The COFF file of a program whose data starts at the next multiple of 128 after its text. -/
def dataProgram : List Byte :=
  coffFile [⟨textName, 0, 4, 156⟩, ⟨dataName, 128, 4, 160⟩] [1, 2, 3, 4, 5, 6, 7, 8]

/-- The header before the converter has set anything of it. -/
def blankLayout : NoffLayout := ⟨⟨0, 0, 0⟩, ⟨0, 0, 0⟩, ⟨0, 0, 0⟩, ⟨0, 0, 0⟩⟩

/-- What the converter makes of the program that is all text. -/
def textNoff : NoffFile := ⟨{ blankLayout with code := ⟨0, 52, 4⟩ }, [1, 2, 3, 4]⟩

/-- What the converter makes of the program with data: its contents are packed. -/
def dataNoff : NoffFile :=
  ⟨{ blankLayout with code := ⟨0, 52, 4⟩, initData := ⟨128, 56, 4⟩ }, [1, 2, 3, 4, 5, 6, 7, 8]⟩

end Nachos
