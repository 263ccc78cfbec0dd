import Mathlib.Algebra.Ring.Int.Defs
import Mathlib.Data.List.Forall2
import Nachos.Proofs.Coff2noff.Coff2noff

/-! When the contents of the sections are in the NOFF file where its header says. -/

namespace Nachos

/-- The byte at a position of a file, if the file has one there. -/
def fileByte (file : List Byte) (position : Int) : Option Byte :=
  if 0 ≤ position then file[position.toNat]? else none

/-- The sections that are copied, in the order of the table. -/
def copiedSections (sections : List ScnHdr) : List ScnHdr :=
  sections.filter fun header => header.size ≠ 0 ∧ header.name ∈ contentNames

/-- The header of a NOFF file, taken as a segment that comes before the others. -/
def headerSegment : Segment := ⟨0, 0, sizeofNoffHeader⟩

/-- The segments that the copied sections have in a NOFF file, after its header. -/
def segmentsOf (noff : List Byte) (sections : List ScnHdr) : List Segment :=
  headerSegment ::
    (copiedSections sections).map ((NoffLayout.ofBytes noff).segmentOf ·.name)

/-- The NOFF file has every section of the COFF file, as its header says. -/
structure FaithfulCopy (coff noff : List Byte) (sections : List ScnHdr) : Prop where
  placed : ∀ header ∈ copiedSections sections,
    ((NoffLayout.ofBytes noff).segmentOf header.name).virtualAddr = header.paddr ∧
    ((NoffLayout.ofBytes noff).segmentOf header.name).size = header.size
  contents : ∀ header ∈ copiedSections sections, ∀ k, 0 ≤ k → k < header.size → ∃ byte,
    fileByte noff (((NoffLayout.ofBytes noff).segmentOf header.name).inFileAddr + k) = some byte ∧
    fileByte coff (header.scnptr + k) = some byte
  absent : ∀ name ∈ contentNames, (∀ header ∈ copiedSections sections, header.name ≠ name) →
    ((NoffLayout.ofBytes noff).segmentOf name).size = 0
  absentUninit : (∀ header ∈ sections, header.name = bssName → header.size = 0) →
    (NoffLayout.ofBytes noff).uninitData.size = 0
  backToBack : (segmentsOf noff sections).IsChain fun segment next =>
    next.inFileAddr = segment.inFileAddr + segment.size
  apart : (segmentsOf noff sections).Pairwise fun segment later =>
    segment.inFileAddr + segment.size ≤ later.inFileAddr

/-- What the sections have to be like for that. -/
structure Transferable (copied : List ScnHdr) : Prop where
  -- A seek to a negative position fails, and the section is read from somewhere else.
  seekable : ∀ header ∈ copied, 0 < header.size → 0 ≤ header.scnptr
  -- A section of size -1 moves the next one back over what comes before.
  sized : copied.Pairwise fun earlier _ => 0 ≤ earlier.size
  -- Where the last section goes has to fit an int.
  fits : sizeofNoffHeader + (copied.dropLast.map (·.size)).sum < 2 ^ 31

/-- The segments of sections that are copied one after another. -/
def packedFrom (next : Int) : List ScnHdr → List Segment
  | [] => []
  | header :: rest =>
    ⟨header.paddr, next, header.size⟩ :: packedFrom (next + header.size) rest

theorem packedFrom_append (front back : List ScnHdr) : ∀ next, packedFrom next (front ++ back) =
    packedFrom next front ++ packedFrom (next + (front.map (·.size)).sum) back := by
  induction front with
  | nil => simp [packedFrom]
  | cons header rest ih => simp [packedFrom, ih, Int.add_assoc]

namespace Converter

/-- These are the bytes of a section, unless they were read from somewhere else. -/
def Buffers (coff : List Byte) (header : ScnHdr) (buffer : List Byte) : Prop :=
  buffer.length = header.size.toNat ∧ (0 ≤ header.scnptr →
    buffer = (coff.drop header.scnptr.toNat).take header.size.toNat)

/-- What the converter has made once it has gone through these sections. -/
structure Copied (coff : List Byte) (converter : Converter) (done : List ScnHdr) : Prop where
  sizes : ∀ header ∈ copiedSections done, -1 ≤ header.size
  next : converter.inNoffFile =
    sizeofNoffHeader + ((copiedSections done).map (·.size)).sum
  segments : (copiedSections done).Pairwise (·.name ≠ ·.name) →
    (copiedSections done).map (converter.layout.segmentOf ·.name) =
      packedFrom sizeofNoffHeader (copiedSections done)
  absent : ∀ name ∈ contentNames, (∀ header ∈ copiedSections done, header.name ≠ name) →
    (converter.layout.segmentOf name).size = 0
  absentUninit : (∀ header ∈ done, header.name = bssName → header.size = 0) →
    converter.layout.uninitData.size = 0
  contents : ∃ buffers, List.Forall₂ (Buffers coff) (copiedSections done) buffers ∧
    converter.written = buffers.flatten

variable {coff : List Byte} {converter after : Converter} {done : List ScnHdr} {header : ScnHdr}

/-- A section that is not copied changes none of it but for the uninitialised data. -/
theorem Copied.skip (copied : Copied coff converter done)
    (skipped : ¬ (header.size ≠ 0 ∧ header.name ∈ contentNames))
    (next : after.inNoffFile = converter.inNoffFile) (written : after.written = converter.written)
    (segments : ∀ name, after.layout.segmentOf name = converter.layout.segmentOf name)
    (uninit : (header.name = bssName → header.size = 0) →
      after.layout.uninitData.size = converter.layout.uninitData.size) :
    Copied coff after (done ++ [header]) := by
  -- What the invariant says is about the sections that are copied, and this is none of them.
  have same : copiedSections (done ++ [header]) = copiedSections done := by
    unfold copiedSections
    rw [List.filter_append, List.append_right_eq_self, List.filter_eq_nil_iff]
    intro other member
    rw [List.mem_singleton.mp member, decide_eq_true_eq]
    exact skipped
  refine ⟨?_, ?_, ?_, ?_, ?_, ?_⟩
  · -- Sizes, place and segments are those of the sections copied before.
    rw [same]
    exact copied.sizes
  · rw [same, next]
    exact copied.next
  · rw [same]
    simp only [segments]
    exact copied.segments
  · rw [same]
    simp only [segments]
    exact copied.absent
  · -- The data counts only where no section has any.
    intro empty
    rw [uninit (empty header (by simp))]
    exact copied.absentUninit fun other member => empty other (by simp [member])
  · rw [same, written]
    exact copied.contents

/-- A section that is copied goes behind what has been written, and into its segment. -/
theorem Copied.copy (copied : Copied coff converter done) (some : header.size ≠ 0)
    (known : header.name ∈ contentNames) {segment : Segment} {middle : Converter}
    {buffer : List Byte} (copies : Copies coff converter header segment middle buffer) :
    Copied coff { middle with layout := converter.layout.setSegment header.name segment }
      (done ++ [header]) := by
  -- The section is the last one of those that are copied.
  have grown : copiedSections (done ++ [header]) = copiedSections done ++ [header] := by
    unfold copiedSections
    rw [List.filter_append, List.append_cancel_left_eq, List.filter_eq_self]
    intro other member
    rw [List.mem_singleton.mp member, decide_eq_true_eq]
    exact ⟨some, known⟩
  -- Those before it have names of their own segments.
  have named : ∀ other ∈ copiedSections done, other.name ∈ contentNames := by
    intro other member
    simp only [copiedSections, List.mem_filter, decide_eq_true_eq] at member
    exact member.2.2
  -- Only the segment of this section has changed.
  have looked := fun name (otherKnown : name ∈ contentNames) =>
    NoffLayout.segmentOf_setSegment known otherKnown converter.layout segment
  refine ⟨?_, ?_, ?_, ?_, ?_, ?_⟩
  · -- The size fits an int, as it did for the others.
    intro other member
    rw [grown] at member
    rcases List.mem_append.mp member with before | last
    · exact copied.sizes other before
    · rw [List.mem_singleton.mp last]
      exact copies.size
  · -- What is written next goes behind this section.
    rw [grown, copies.inNoffFile, copied.next]
    simp [Int.add_assoc]
  · -- The segments are those from before, and the new one behind them.
    rw [grown]
    intro distinct
    obtain ⟨before, -, last⟩ := List.pairwise_append.mp distinct
    -- The segments of the other sections are those of other names.
    have others : (copiedSections done).map
          ((converter.layout.setSegment header.name segment).segmentOf ·.name) =
        (copiedSections done).map (converter.layout.segmentOf ·.name) := by
      apply List.map_congr_left
      intro other member
      rw [looked _ (named other member), if_neg (last other member header (by simp))]
    have own : (converter.layout.setSegment header.name segment).segmentOf header.name =
        segment := by
      rw [looked _ known, if_pos rfl]
    rw [List.map_append, others, copied.segments before, packedFrom_append, ← copied.next,
      List.map_singleton, own, copies.segment]
    rfl
  · -- A name that no section has keeps what its segment was.
    intro name otherKnown missing
    rw [grown] at missing
    have other := missing header (by simp)
    dsimp only
    rw [looked name otherKnown, if_neg (Ne.symm other)]
    exact copied.absent name otherKnown fun early member => missing early (by simp [member])
  · -- The uninitialised data is not touched.
    intro empty
    dsimp only
    rw [NoffLayout.setSegment_uninitData]
    exact copied.absentUninit fun other member => empty other (by simp [member])
  · -- What has been written is that, and the bytes of this section behind it.
    obtain ⟨buffers, held, written⟩ := copied.contents
    refine ⟨buffers ++ [buffer], ?_, ?_⟩
    · rw [grown]
      exact List.rel_append held (.cons ⟨copies.length, copies.bytes⟩ .nil)
    · rw [List.flatten_append, ← written]
      simp [copies.written]

/-- Every section that is accepted takes its place in what the converter makes. -/
theorem Copied.step (copied : Copied coff converter done)
    (added : converter.addSection coff header = some after) :
    Copied coff after (done ++ [header]) := by
  rcases addSection_cases added with ⟨empty, rfl⟩ |
    ⟨some, known, segment, middle, buffer, copies, rfl⟩ | ⟨some, other, bss, added⟩
  · exact copied.skip (by simp [empty]) rfl rfl (fun _ => rfl) fun _ => rfl
  · exact copied.copy some known copies
  · -- The uninitialised data has a segment, but no contents.
    have kept := addUninit_kept added
    exact copied.skip (by simp [other]) kept.1 kept.2.1 kept.2.2 fun empty =>
      absurd (empty bss) some

/-- Before the first section nothing has been made. -/
theorem copied_start (coff : List Byte) (uninitialised : NoffLayout) (numsections : Nat) :
    Copied coff (.start uninitialised numsections) [] := by
  refine ⟨?_, rfl, fun _ => rfl, ?_, fun _ => rfl, [], .nil, rfl⟩
  · intro header member
    cases member
  · intro name _ _
    unfold NoffLayout.segmentOf
    split_ifs <;> rfl

end Converter

section Packed

/-- The ints of a section header fit, and no size is less than -1. -/
def ScnHdr.Fits (header : ScnHdr) : Prop :=
  InInt header.paddr ∧ InInt header.size ∧ -1 ≤ header.size

/-- Each segment begins where the one before ends. -/
theorem packedFrom_backToBack (copied : List ScnHdr) : ∀ {previous : Segment} {next : Int},
    previous.inFileAddr + previous.size = next →
    (previous :: packedFrom next copied).IsChain fun segment next =>
      next.inFileAddr = segment.inFileAddr + segment.size := by
  induction copied with
  | nil => exact fun _ => .singleton _
  | cons header rest ih =>
    intro previous next ends
    exact .cons_cons ends.symm (ih rfl)

/-- Sections of which only the last may have a negative size go forward. -/
theorem le_of_mem_packedFrom {copied : List ScnHdr} : ∀ {next : Int},
    copied.Pairwise (fun earlier _ => 0 ≤ earlier.size) →
    ∀ segment ∈ packedFrom next copied, next ≤ segment.inFileAddr := by
  -- Over the sections: each starts where the one before it ends, or later.
  induction copied with
  | nil => exact fun _ _ member => by cases member
  | cons header rest ih =>
    intro next sized segment member
    -- The first section is followed by others only if its size is not negative.
    obtain ⟨first, sized⟩ := List.pairwise_cons.mp sized
    rcases List.mem_cons.mp member with rfl | later
    · exact Int.le_refl _
    · have beyond := ih sized segment later
      -- Nothing comes later.
      cases rest with
      | nil => cases later
      | cons second rest =>
        have forward := first second List.mem_cons_self
        omega

/-- The segments of such sections do not overlap. -/
theorem packedFrom_apart {copied : List ScnHdr} : ∀ {previous : Segment} {next : Int},
    previous.inFileAddr + previous.size ≤ next →
    copied.Pairwise (fun earlier _ => 0 ≤ earlier.size) →
    (previous :: packedFrom next copied).Pairwise fun segment later =>
      segment.inFileAddr + segment.size ≤ later.inFileAddr := by
  induction copied with
  | nil => exact fun _ _ => List.pairwise_singleton _ _
  | cons header rest ih =>
    intro previous next ends sized
    refine List.pairwise_cons.mpr ⟨fun segment member => ?_, ?_⟩
    · exact Int.le_trans ends (le_of_mem_packedFrom sized segment member)
    · exact ih (Int.le_refl _) (List.pairwise_cons.mp sized).2

/-- The last of such sections goes furthest, so if its place fits an int then so do all. -/
theorem packedFrom_recorded {copied : List ScnHdr} : ∀ {next : Int}, 0 ≤ next →
    (∀ header ∈ copied, header.Fits) →
    copied.Pairwise (fun earlier _ => 0 ≤ earlier.size) →
    next + (copied.dropLast.map (·.size)).sum < 2 ^ 31 →
    next < 2 ^ 31 ∧
      (packedFrom next copied).map Segment.recorded = packedFrom next copied := by
  induction copied with
  -- Nothing is copied, so the start is all there is to fit.
  | nil =>
    intro next _ _ _ fits
    exact ⟨by simpa using fits, rfl⟩
  | cons header rest ih =>
    intro next positive readable sized fits
    -- A section has a size that is not negative, or is the last one.
    obtain ⟨first, sized⟩ := List.pairwise_cons.mp sized
    obtain ⟨paddr, size, -⟩ := readable header List.mem_cons_self
    -- If the start of its segment fits, all of it is recorded.
    have own : next < 2 ^ 31 → Segment.recorded ⟨header.paddr, next, header.size⟩ =
        ⟨header.paddr, next, header.size⟩ := by
      intro small
      simp only [Segment.recorded, bmod_of_inInt paddr, bmod_of_inInt size,
        bmod_of_inInt ⟨by omega, small⟩]
    -- The last section may end past what fits, since only where it starts is recorded.
    cases rest with
    | nil =>
      have small : next < 2 ^ 31 := by simpa using fits
      exact ⟨small, by rw [packedFrom, List.map_cons, own small]; rfl⟩
    -- The others begin behind it, and fit by induction.
    | cons second rest =>
      have forward := first second List.mem_cons_self
      rw [List.dropLast_cons_of_ne_nil (List.cons_ne_nil _ _), List.map_cons, List.sum_cons,
        ← Int.add_assoc] at fits
      obtain ⟨after, recorded⟩ := ih (by omega)
        (fun other member => readable other (List.mem_cons_of_mem _ member)) sized fits
      have small : next < 2 ^ 31 := by omega
      exact ⟨small, by rw [packedFrom, List.map_cons, own small, recorded]⟩

/-- If the segments as they are recorded do not overlap, then the sections go forward and fit. -/
theorem transferable_of_apart {copied : List ScnHdr} : ∀ {previous : Segment} {next : Int},
    previous.inFileAddr + previous.size = next → 0 ≤ next → next < 2 ^ 31 →
    (∀ header ∈ copied, header.Fits) →
    (previous :: (packedFrom next copied).map Segment.recorded).Pairwise (fun segment later =>
      segment.inFileAddr + segment.size ≤ later.inFileAddr) →
    copied.Pairwise (fun earlier _ => 0 ≤ earlier.size) ∧
      next + (copied.dropLast.map (·.size)).sum < 2 ^ 31 := by
  induction copied with
  -- There is no segment, and the start fits already.
  | nil =>
    intro previous next _ _ small _ _
    exact ⟨List.Pairwise.nil, by simpa using small⟩
  | cons header rest ih =>
    intro previous next ends positive small readable apart
    cases rest with
    -- A single section may have any size.
    | nil => exact ⟨List.pairwise_singleton _ _, by simpa using small⟩
    | cons second rest =>
      obtain ⟨paddr, size, least⟩ := readable header List.mem_cons_self
      obtain ⟨fromPrevious, apart⟩ := List.pairwise_cons.mp apart
      obtain ⟨fromFirst, -⟩ := List.pairwise_cons.mp apart
      -- The second section begins behind the first, and behind what comes before that.
      have behind := fromFirst (Segment.recorded ⟨second.paddr, next + header.size, second.size⟩)
        (by simp [packedFrom])
      have before := fromPrevious
        (Segment.recorded ⟨second.paddr, next + header.size, second.size⟩) (by simp [packedFrom])
      have top := (inInt_bmod (next + header.size)).2
      -- It is recorded as it is, since both ends fit.
      have held : InInt next := ⟨by omega, small⟩
      simp only [Segment.recorded, bmod_of_inInt held, bmod_of_inInt size] at behind before
      have fits : InInt (next + header.size) := ⟨by omega, by omega⟩
      rw [bmod_of_inInt fits] at before
      -- The others go on from there.
      obtain ⟨sized, bound⟩ := @ih (Segment.recorded ⟨header.paddr, next, header.size⟩) _
        (by simp only [Segment.recorded, bmod_of_inInt held, bmod_of_inInt size]) (by omega)
        fits.2 (fun other member => readable other (List.mem_cons_of_mem _ member)) apart
      refine ⟨List.pairwise_cons.mpr ⟨fun _ _ => by omega, sized⟩, ?_⟩
      rw [List.dropLast_cons_of_ne_nil (List.cons_ne_nil _ _), List.map_cons, List.sum_cons,
        ← Int.add_assoc]
      exact bound

/-- The segment of a section says where the section belongs and how large it is. -/
theorem packedFrom_placed {copied : List ScnHdr} : ∀ {next : Int},
    ∀ pair ∈ copied.zip (packedFrom next copied),
      pair.2.virtualAddr = pair.1.paddr ∧ pair.2.size = pair.1.size := by
  induction copied with
  | nil => exact fun _ member => by cases member
  | cons header rest ih =>
    intro next pair member
    rcases List.mem_cons.mp member with rfl | later
    · exact ⟨rfl, rfl⟩
    · exact ih pair later

/-- The bytes of such sections are where their segments are. -/
theorem packedFrom_contents {coff : List Byte} {copied : List ScnHdr} {buffers : List (List Byte)}
    (held : List.Forall₂ (Converter.Buffers coff) copied buffers) :
    ∀ {before : List Byte} {next : Int}, before.length = next →
    (∀ header ∈ copied, 0 < header.size → 0 ≤ header.scnptr) →
    copied.Pairwise (fun earlier _ => 0 ≤ earlier.size) →
    ∀ pair ∈ copied.zip (packedFrom next copied), ∀ k, 0 ≤ k → k < pair.1.size → ∃ byte,
      fileByte (before ++ buffers.flatten) (pair.2.inFileAddr + k) = some byte ∧
      fileByte coff (pair.1.scnptr + k) = some byte := by
  -- What has been written grows by one buffer for each section.
  induction held with
  | nil => exact fun _ _ _ _ member => by cases member
  | @cons header buffer rest buffers own held ih =>
    intro before next length seekable sized pair member k positive inside
    obtain ⟨first, sized⟩ := List.pairwise_cons.mp sized
    -- The pair is the section itself and its buffer, or a later one.
    rcases List.mem_cons.mp member with rfl | later
    · obtain ⟨count, bytes⟩ := own
      dsimp only at inside ⊢
      have placed := seekable header List.mem_cons_self (by omega)
      have there : k.toNat < buffer.length := by omega
      -- The byte is there at its place behind what was written before.
      refine ⟨buffer[k.toNat], ?_, ?_⟩
      · have position : (next + k).toNat = before.length + k.toNat := by omega
        unfold fileByte
        rw [if_pos (by omega), position, List.getElem?_append_right (by omega),
          Nat.add_sub_cancel_left, List.flatten_cons, List.getElem?_append_left there,
          List.getElem?_eq_getElem there]
      · -- In the COFF file it was read from the place of the section.
        have position : (header.scnptr + k).toNat = header.scnptr.toNat + k.toNat := by omega
        have found : buffer[k.toNat]? = some buffer[k.toNat] := List.getElem?_eq_getElem there
        unfold fileByte
        rw [if_pos (by omega), position, ← found, bytes placed, List.getElem?_take,
          if_pos (by omega), List.getElem?_drop]
    · -- The later ones are behind this buffer, if there are any.
      cases held with
      | nil => cases later
      | @cons second _ rest buffers _ _ =>
        have forward := first second List.mem_cons_self
        have count := own.1
        have moved := @ih (before ++ buffer) (next + header.size)
          (by rw [List.length_append]; omega)
          (fun other member => seekable other (List.mem_cons_of_mem _ member)) sized pair later k
          positive inside
        rwa [List.append_assoc, ← List.flatten_cons] at moved

end Packed

/-- The ints of a section header fit. -/
theorem inInt_of_sectionsOf {coff : List Byte} {sections : List ScnHdr}
    (table : sectionsOf coff = some sections) :
    ∀ header ∈ sections, InInt header.paddr ∧ InInt header.size := by
  -- Both magic numbers are right, as the headers have been read.
  obtain ⟨fileh, -, table⟩ := Option.bind_eq_some_iff.mp table
  split at table
  swap
  · cases table
  obtain ⟨systemh, -, table⟩ := Option.bind_eq_some_iff.mp table
  split at table
  swap
  · cases table
  obtain ⟨bytes, -, table⟩ := Option.bind_eq_some_iff.mp table
  cases table
  intro header member
  -- Each header of the table is read out of the file, field by field.
  obtain ⟨i, -, rfl⟩ := List.mem_map.mp member
  exact ⟨inInt_intAt _ _, inInt_intAt _ _⟩

/-- What the header of a NOFF file says of a segment is what it can hold of it. -/
theorem NoffFile.segmentOf_ofBytes (noff : NoffFile) (name : List Byte) :
    (NoffLayout.ofBytes noff.toBytes).segmentOf name =
      (noff.layout.segmentOf name).recorded := by
  rw [noff.layout_ofBytes]
  unfold NoffLayout.segmentOf
  split_ifs <;> rfl

/-- The segment of each section that is copied, next to the section. -/
theorem mem_zip_segments {α β : Type} {f : α → β} {items : List α} {images : List β}
    (same : items.map f = images) {item : α} (member : item ∈ items) :
    (item, f item) ∈ items.zip images := by
  rw [← same, ← List.map_prod_left_eq_zip]
  exact List.mem_map_of_mem member

namespace Converter.Copied

variable {coff : List Byte} {done : Converter} {sections : List ScnHdr}
  (copied : Converter.Copied coff done sections) (table : sectionsOf coff = some sections)
  (once : (copiedSections sections).Pairwise (·.name ≠ ·.name))

include copied

/-- What the header of the NOFF file holds of the segments, back to back behind it. -/
theorem segmentsOf_eq (once : (copiedSections sections).Pairwise (·.name ≠ ·.name)) :
    segmentsOf (NoffFile.toBytes ⟨done.layout, done.written⟩) sections =
      headerSegment :: (packedFrom sizeofNoffHeader (copiedSections sections)).map
        Segment.recorded := by
  unfold segmentsOf
  rw [← copied.segments once, List.map_map]
  congr 2
  funext header
  exact NoffFile.segmentOf_ofBytes _ _

include table

/-- The sections that are copied can be read from the COFF file. -/
theorem readable : ∀ header ∈ copiedSections sections, header.Fits := fun header member =>
  have ints := inInt_of_sectionsOf table header (List.mem_of_mem_filter member)
  ⟨ints.1, ints.2, copied.sizes header member⟩

include once

/-- If the NOFF file has the contents of all sections, they could be transferred. -/
theorem transferable
    (faithful : FaithfulCopy coff (NoffFile.toBytes ⟨done.layout, done.written⟩) sections) :
    Transferable (copiedSections sections) := by
  have apart := faithful.apart
  rw [copied.segmentsOf_eq once] at apart
  obtain ⟨sized, fits⟩ :=
    -- The segments do not overlap, so the sections go forward.
    transferable_of_apart rfl (by decide) (by decide) (copied.readable table) apart
  refine ⟨fun header member some => ?_, sized, fits⟩
  -- The first byte of the section is in the COFF file.
  obtain ⟨byte, -, inCoff⟩ := faithful.contents header member 0 (Int.le_refl 0) some
  unfold fileByte at inCoff
  split at inCoff
  · -- The first byte is at a place that is not negative.
    omega
  · cases inCoff

/-- If all sections can be transferred, the NOFF file has their contents. -/
theorem faithful (transferable : Transferable (copiedSections sections)) :
    FaithfulCopy coff (NoffFile.toBytes ⟨done.layout, done.written⟩) sections := by
  -- The buffers are what the sections have in the COFF file.
  obtain ⟨buffers, held, written⟩ := copied.contents
  have packed := copied.segments once
  have segments := copied.segmentsOf_eq once
  -- Every segment is recorded as it was made.
  obtain ⟨-, recorded⟩ := packedFrom_recorded (by decide) (copied.readable table)
    transferable.sized transferable.fits
  rw [recorded] at segments
  -- The file is the header and the buffers behind it.
  have bytes : NoffFile.toBytes ⟨done.layout, done.written⟩ =
      done.layout.toBytes ++ buffers.flatten := by
    rw [← written]
    rfl
  have paired := fun header (member : header ∈ copiedSections sections) =>
    mem_zip_segments packed member
  -- What the header holds of a segment is all of it.
  have whole : ∀ header ∈ copiedSections sections,
      (NoffLayout.ofBytes (NoffFile.toBytes ⟨done.layout, done.written⟩)).segmentOf header.name =
        done.layout.segmentOf header.name := by
    intro header member
    rw [NoffFile.segmentOf_ofBytes]
    have each := List.map_inj_left.mp (recorded.trans (List.map_id _).symm)
    exact each _ (List.of_mem_zip (paired header member)).2
  refine ⟨fun header member => ?_, fun header member => ?_, fun name known missing => ?_,
    fun missing => ?_, ?_, ?_⟩
  · -- Each segment is placed as its section.
    rw [whole header member]
    exact packedFrom_placed _ (paired header member)
  · -- Its bytes are where the header says.
    intro k positive inside
    rw [whole header member, bytes]
    exact packedFrom_contents held (by simp) transferable.seekable transferable.sized _
      (paired header member) k positive inside
  · -- A segment without a section is recorded with size zero.
    rw [NoffFile.segmentOf_ofBytes]
    simp only [Segment.recorded, copied.absent name known missing]
    rfl
  · -- So is the uninitialised data.
    rw [NoffFile.layout_ofBytes]
    simp only [Segment.recorded, copied.absentUninit missing]
    rfl
  · -- The segments lie back to back, and apart from one another.
    rw [segments]
    exact packedFrom_backToBack _ rfl
  · rw [segments]
    exact packedFrom_apart (Int.le_refl _) transferable.sized

end Converter.Copied

/--
The contents of the sections are where the header of the NOFF file says exactly if every section
can be sought, none of size -1 is followed by another, and the offsets fit an int.
-/
theorem coff2noff_faithful_iff (uninitialised : NoffLayout) (coff : List Byte) (noff : NoffFile)
    (produced : coff2noff uninitialised coff = some noff) (sections : List ScnHdr)
    (table : sectionsOf coff = some sections)
    (once : (copiedSections sections).Pairwise (·.name ≠ ·.name)) :
    FaithfulCopy coff noff.toBytes sections ↔ Transferable (copiedSections sections) := by
  obtain ⟨found, done, read, converted, rfl⟩ := sections_of_coff2noff produced
  obtain rfl : sections = found := Option.some.inj (table.symm.trans read)
  -- What one section adds is known, so what all of them leave is.
  have copied : Converter.Copied coff done sections := replay_history
    (fun _ _ _ _ copied added => copied.step added) (Converter.copied_start _ _ _) converted
  exact ⟨copied.transferable table once, copied.faithful table once⟩

/-- The sections of the program whose data does not follow its text in memory. -/
def dataSections : List ScnHdr := [⟨textName, 0, 4, 156⟩, ⟨dataName, 128, 4, 160⟩]

/-- Text and data are copied one behind the other. -/
theorem coff2noff_faithful_data :
    coff2noff blankLayout dataProgram = some dataNoff ∧
    FaithfulCopy dataProgram dataNoff.toBytes dataSections := by
  have produced : coff2noff blankLayout dataProgram = some dataNoff := by decide +kernel
  have table : sectionsOf dataProgram = some dataSections := by decide +kernel
  refine ⟨produced, ?_⟩
  refine (coff2noff_faithful_iff blankLayout dataProgram dataNoff produced dataSections table
    (by decide)).mpr ⟨by decide, by decide, by decide⟩

/-- The sections of a program with a text of size -1 before its data. -/
def backwardSections : List ScnHdr := [⟨textName, 0, -1, 156⟩, ⟨dataName, 128, 4, 156⟩]

/-- The COFF file of that program. -/
def backwardProgram : List Byte := coffFile backwardSections [5, 6, 7, 8]

/-- What the converter makes of it: the data begins one byte behind where the header has it. -/
def backwardNoff : NoffFile :=
  ⟨{ blankLayout with code := ⟨0, 52, -1⟩, initData := ⟨128, 51, 4⟩ }, [5, 6, 7, 8]⟩

/-- The program is accepted, but its data is not where the header of the NOFF file says. -/
theorem coff2noff_movesBack :
    coff2noff blankLayout backwardProgram = some backwardNoff ∧
    sectionsOf backwardProgram = some backwardSections ∧
    (copiedSections backwardSections).Pairwise (·.name ≠ ·.name) ∧
    ¬ FaithfulCopy backwardProgram backwardNoff.toBytes backwardSections := by
  refine ⟨by decide +kernel, by decide +kernel, by decide, fun faithful => ?_⟩
  -- The data section has a byte at its start.
  obtain ⟨byte, inNoff, inCoff⟩ := faithful.contents ⟨dataName, 128, 4, 156⟩ (by decide) 0
    (by decide) (by decide)
  -- The header says the data begins with the last byte of the header, which is 0, and not with 5.
  have last : fileByte backwardNoff.toBytes
      (((NoffLayout.ofBytes backwardNoff.toBytes).segmentOf dataName).inFileAddr + 0) =
        some 0 := by decide +kernel
  have first : fileByte backwardProgram (156 + 0) = some 5 := by decide +kernel
  -- The two bytes would have to be the same.
  rw [last] at inNoff
  rw [first, ← inNoff] at inCoff
  exact absurd inCoff (by decide)

end Nachos
