import Nachos.Coff2noff.Coff2noff
import Nachos.Theory.Run

/-! What the converter does with each section of a COFF file, and what its header holds. -/

namespace Nachos

/-- The names of the sections that have contents. -/
def contentNames : List (List Byte) := [textName, dataName, rdataName]

namespace NoffLayout

/-- The segment for the contents of sections of a name. -/
def segmentOf (layout : NoffLayout) (name : List Byte) : Segment :=
  if name = textName then layout.code
  else if name = dataName then layout.initData
  else layout.readonlyData

/-- Replace the segment for the contents of sections of a name. -/
def setSegment (layout : NoffLayout) (name : List Byte) (segment : Segment) : NoffLayout :=
  if name = textName then { layout with code := segment }
  else if name = dataName then { layout with initData := segment }
  else { layout with readonlyData := segment }

/-- Each name has a segment of its own. -/
theorem segmentOf_setSegment {name other : List Byte} (known : name ∈ contentNames)
    (otherKnown : other ∈ contentNames) (layout : NoffLayout) (segment : Segment) :
    (layout.setSegment name segment).segmentOf other =
      if other = name then segment else layout.segmentOf other := by
  simp only [contentNames, List.mem_cons, List.not_mem_nil, or_false] at known otherKnown
  rcases known with rfl | rfl | rfl <;> rcases otherKnown with rfl | rfl | rfl <;> rfl

@[simp] theorem setSegment_uninitData (layout : NoffLayout) (name : List Byte)
    (segment : Segment) : (layout.setSegment name segment).uninitData = layout.uninitData := by
  unfold setSegment
  split_ifs <;> rfl

end NoffLayout

namespace Converter

/-- What copying a section does: its bytes are read and written, if there are any. -/
structure Copies (coff : List Byte) (converter : Converter) (header : ScnHdr) (segment : Segment)
    (after : Converter) (buffer : List Byte) : Prop where
  segment : segment = ⟨header.paddr, converter.inNoffFile, header.size⟩
  layout : after.layout = converter.layout
  inNoffFile : after.inNoffFile = converter.inNoffFile + header.size
  written : after.written = converter.written ++ buffer
  -- To read less than nothing fails with -1, which is not noticed if it is what was asked for.
  size : -1 ≤ header.size
  length : buffer.length = header.size.toNat
  bytes : 0 ≤ header.scnptr →
    buffer = (coff.drop header.scnptr.toNat).take header.size.toNat

/-- A section that is copied is copied in full. -/
theorem copySegment_copies {coff : List Byte} {converter after : Converter} {header : ScnHdr}
    {segment : Segment} (copied : converter.copySegment coff header = some (segment, after)) :
    ∃ buffer, Copies coff converter header segment after buffer := by
  obtain ⟨buffer, read, made⟩ := Option.bind_eq_some_iff.mp copied
  cases made
  unfold readBytes at read
  simp only [Option.ite_none_right_eq_some, Option.some.injEq] at read
  obtain ⟨counted, rfl⟩ := read
  refine ⟨_, rfl, rfl, rfl, rfl, ?_, ?_, fun placed => ?_⟩
  · -- What read returns is what was asked for, and of negative numbers it returns only -1.
    split at counted <;> omega
  · split at counted
    · have none' : header.size.toNat = 0 := by omega
      rw [none', List.take_zero]
      rfl
    · omega
  · -- A position that is not negative can be sought.
    rw [if_neg (by omega)]

/-- One turn of the loop, with the three sections that have contents taken together. -/
theorem addSection_eq (coff : List Byte) (converter : Converter) (header : ScnHdr) :
    converter.addSection coff header =
      if header.size = 0 then some converter
      else if header.name ∈ contentNames then
        (converter.copySegment coff header).map fun made =>
          { made.2 with layout := made.2.layout.setSegment header.name made.1 }
      else if header.name = bssName then converter.addUninit header
      else none := by
  unfold addSection
  -- The source compares the name with one text after the other.
  by_cases text : header.name = textName
  · simp only [text, contentNames, NoffLayout.setSegment]
    cases converter.copySegment coff header <;> rfl
  by_cases data : header.name = dataName
  · simp only [data, contentNames, NoffLayout.setSegment]
    cases converter.copySegment coff header <;> rfl
  by_cases rdata : header.name = rdataName
  · simp only [rdata, contentNames, NoffLayout.setSegment]
    cases converter.copySegment coff header <;> rfl
  -- None of the three names is the one of the section.
  simp only [contentNames, List.mem_cons, text, data, rdata, List.not_mem_nil, or_false, if_false]

/-- What a section does that is accepted: nothing, a copy, or more uninitialised data. -/
theorem addSection_cases {coff : List Byte} {converter after : Converter} {header : ScnHdr}
    (added : converter.addSection coff header = some after) :
    (header.size = 0 ∧ after = converter) ∨
    (header.size ≠ 0 ∧ header.name ∈ contentNames ∧ ∃ segment middle buffer,
      Copies coff converter header segment middle buffer ∧
      after = { middle with layout := converter.layout.setSegment header.name segment }) ∨
    (header.size ≠ 0 ∧ header.name ∉ contentNames ∧ header.name = bssName ∧
      converter.addUninit header = some after) := by
  rw [addSection_eq] at added
  -- An unknown name is refused, so it does not occur here.
  split_ifs at added with empty known bss
  · -- An empty section is skipped.
    exact .inl ⟨empty, (Option.some.inj added).symm⟩
  · -- The segment is put into the layout from before.
    obtain ⟨⟨segment, middle⟩, copied, rfl⟩ := Option.map_eq_some_iff.mp added
    obtain ⟨buffer, copies⟩ := copySegment_copies copied
    refine .inr (.inl ⟨empty, known, segment, middle, buffer, copies, ?_⟩)
    dsimp only
    rw [copies.layout]
  · -- The data is grown by the section.
    exact .inr (.inr ⟨empty, known, bss, added⟩)

/-- Uninitialised data has nothing to do with what is copied. -/
theorem addUninit_kept {converter after : Converter} {header : ScnHdr}
    (added : converter.addUninit header = some after) :
    after.inNoffFile = converter.inNoffFile ∧ after.written = converter.written ∧
      ∀ name, after.layout.segmentOf name = converter.layout.segmentOf name := by
  unfold addUninit at added
  dsimp only at added
  -- Only `uninitData` changes, whether it is begun or enlarged.
  split_ifs at added
  · cases added
    exact ⟨rfl, rfl, fun _ => rfl⟩
  · cases added
    exact ⟨rfl, rfl, fun _ => rfl⟩

end Converter

/-- The section headers of a COFF file. Nothing stands for a file with a wrong or short header. -/
def sectionsOf (coff : List Byte) : Option (List ScnHdr) := do
  let fileh ← readBytes coff 0 sizeofFileHdr
  if shortAt fileh 0 = mipselMagic then
    let systemh ← readBytes coff sizeofFileHdr sizeofAoutHdr
    if shortAt systemh 0 = omagic then
      let numsections := shortAt fileh 2
      let table ← readBytes coff (sizeofFileHdr + sizeofAoutHdr) (numsections * sizeofScnHdr)
      return (List.range numsections).map (ScnHdr.ofTable table)
    else none
  else none

/-- The converter reads the section headers, and then goes through the sections in order. -/
theorem coff2noff_eq (uninitialised : NoffLayout) (coff : List Byte) :
    coff2noff uninitialised coff = (sectionsOf coff).bind fun sections =>
      (replay (Converter.addSection coff) (.start uninitialised sections.length) sections).map
        fun done => ⟨done.layout, done.written⟩ := by
  unfold coff2noff sectionsOf
  -- Each header is read before the next one, and each of them can be short or wrong.
  cases readBytes coff 0 sizeofFileHdr with
  | none => rfl
  -- The magic number of the file is right or not.
  | some fileh =>
    simp only [Option.bind_eq_bind, Option.bind_some]
    split
    swap
    · rfl
    cases readBytes coff sizeofFileHdr sizeofAoutHdr with
    | none => rfl
    -- So is the one of the other header.
    | some systemh =>
      simp only [Option.bind_some]
      split
      swap
      · rfl
      generalize readBytes coff (sizeofFileHdr + sizeofAoutHdr)
        ((shortAt fileh 2 : Int) * (sizeofScnHdr : Nat)) = read
      cases read with
      | none => rfl
      -- The sections are the headers of the table, one after the other.
      | some table =>
        simp only [Option.bind_some, Option.pure_def, List.length_map, List.length_range,
          foldlM_eq_replay, Option.map_eq_bind]
        rfl

end Nachos
