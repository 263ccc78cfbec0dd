import Nachos.Proofs.Coff2noff.Faithful
import Nachos.Theory.Interval

/-! What the converter makes of several sections of uninitialised data. -/

namespace Nachos

/-- The sections of uninitialised data that are not empty, in the order of the table. -/
def bssSections (sections : List ScnHdr) : List ScnHdr :=
  sections.filter fun header => header.size ≠ 0 ∧ header.name = bssName

/-- What an int holds of the sizes of sections together. -/
def mergedSize (sections : List ScnHdr) : Int :=
  Int.bmod (sections.map (·.size)).sum (2 ^ 32)

/--
Where sections are merged to, given the sum of the sizes before them and where those went.

Whenever the sizes so far add up to nothing, the next section begins the data afresh.
-/
def mergedAddr : Int → Int → List ScnHdr → Int
  | _, address, [] => address
  | sum, address, header :: rest =>
    mergedAddr (sum + header.size) (if sum.bmod (2 ^ 32) = 0 then header.paddr else address) rest

/-- Sections are merged to the address of one of them, unless there are none. -/
theorem inInt_mergedAddr {sections : List ScnHdr} : ∀ {sum address : Int},
    (∀ header ∈ sections, InInt header.paddr) → InInt address →
    InInt (mergedAddr sum address sections) := by
  induction sections with
  | nil => exact fun _ fits => fits
  | cons header rest ih =>
    intro sum address each fits
    -- The address so far is passed on, or replaced by that of this section.
    refine ih (fun other member => each other (List.mem_cons_of_mem _ member)) ?_
    split
    · exact each header List.mem_cons_self
    · exact fits

/-- Each section begins where the one before it ends, and above its beginning. -/
def Contiguous (sections : List ScnHdr) : Prop :=
  sections.IsChain fun header next =>
    header.paddr + header.size = next.paddr ∧ header.paddr < next.paddr

namespace Converter

variable {coff : List Byte} {converter after : Converter}

/-- The converter with other uninitialised data. -/
def withUninit (converter : Converter) (uninitData : Segment) : Converter :=
  { converter with layout := { converter.layout with uninitData } }

/-- Only sections of uninitialised data have to do with it. -/
theorem addSection_withUninit {header : ScnHdr} (other : header.name ≠ bssName)
    (uninitData : Segment) :
    (converter.withUninit uninitData).addSection coff header =
      (converter.addSection coff header).map (·.withUninit uninitData) := by
  -- What is copied does not look at the uninitialised data.
  have copied : (converter.withUninit uninitData).copySegment coff header =
      (converter.copySegment coff header).map fun made =>
        (made.1, made.2.withUninit uninitData) := by
    unfold copySegment
    dsimp only [withUninit]
    cases readBytes coff (if header.scnptr < 0 then converter.position else header.scnptr.toNat)
      header.size <;> rfl
  rw [addSection_eq, addSection_eq, copied]
  -- The cases are those of the source: an empty section, one with contents, and any other.
  split_ifs
  · rfl
  · -- The section has contents, which can be read or not.
    cases converter.copySegment coff header with
    | none => rfl
    | some made =>
      simp only [Option.map_some, withUninit, NoffLayout.setSegment]
      split_ifs <;> rfl
  · rfl

/-- What a section does that is not one of uninitialised data, or is empty. -/
theorem addSection_uninitData {header : ScnHdr}
    (added : converter.addSection coff header = some after)
    (other : ¬ (header.size ≠ 0 ∧ header.name = bssName)) :
    after.layout.uninitData = converter.layout.uninitData := by
  rcases addSection_cases added with ⟨-, rfl⟩ |
    ⟨-, -, segment, middle, buffer, copies, rfl⟩ | ⟨some, -, bss, -⟩
  · rfl
  · -- Contents go to a segment of their own.
    exact NoffLayout.setSegment_uninitData _ _ _
  · exact absurd ⟨some, bss⟩ other

/-- A section of uninitialised data is put where there is nothing yet, or added to what there is. -/
theorem addSection_bss {header : ScnHdr} (some : header.size ≠ 0) (bss : header.name = bssName) :
    converter.addSection coff header = converter.addUninit header := by
  have other : bssName ∉ contentNames := by decide
  rw [addSection_eq, if_neg some, bss, if_neg other, if_pos rfl]

/-- The uninitialised data of sections that have been merged, from what there was of it before. -/
theorem replay_uninitData {sections : List ScnHdr} : ∀ {converter done : Converter} {sum : Int}
    {address : Int}, (∀ header ∈ sections, InInt header.size) →
    converter.layout.uninitData.size = sum.bmod (2 ^ 32) →
    (sum.bmod (2 ^ 32) ≠ 0 → converter.layout.uninitData.virtualAddr = address) →
    replay (addSection coff) converter sections = Option.some done →
    done.layout.uninitData.size =
      (sum + ((bssSections sections).map (·.size)).sum).bmod (2 ^ 32) ∧
    (done.layout.uninitData.size ≠ 0 →
      done.layout.uninitData.virtualAddr = mergedAddr sum address (bssSections sections)) := by
  -- The sum and the address go along with the sections that are merged.
  induction sections with
  -- Nothing is merged, and the data is what it was.
  | nil =>
    intro converter done sum address _ size placed ran
    cases ran
    refine ⟨by simpa [bssSections] using size, fun some => ?_⟩
    exact placed (size ▸ some)
  -- One section, and what the rest makes of it.
  | cons header rest ih =>
    intro converter done sum address fits size placed ran
    obtain ⟨next, added, ran⟩ := Option.bind_eq_some_iff.mp ran
    have later := fun other member => fits other (List.mem_cons_of_mem header member)
    -- A section that is not merged leaves the data, the sum and the address as they are.
    by_cases merged : header.size ≠ 0 ∧ header.name = bssName
    swap
    · have same := addSection_uninitData added merged
      have skipped : bssSections (header :: rest) = bssSections rest :=
        List.filter_cons_of_neg (by simpa using merged)
      rw [skipped]
      exact ih later (by rw [same, size]) (by rw [same]; exact placed) ran
    · -- A section that is merged is the first of those left.
      have kept : bssSections (header :: rest) = header :: bssSections rest :=
        List.filter_cons_of_pos (by simpa using merged)
      rw [kept, List.map_cons, List.sum_cons, ← Int.add_assoc]
      rw [addSection_bss merged.1 merged.2] at added
      unfold addUninit at added
      dsimp only at added
      rw [size] at added
      -- There is data, which grows; or there is none, and the section begins it.
      split_ifs at added with something contiguous
      · -- It grows by the size of the section, and begins where it did.
        cases added
        refine ih later ?_ (fun _ => ?_) ran
        · simp
        · rw [if_neg something]
          exact placed something
      · -- The sizes so far add up to nothing, for instance because there were none.
        have nothing : sum.bmod (2 ^ 32) = 0 := by simpa using something
        cases added
        refine ih later ?_ (fun _ => ?_) ran
        · -- The sum wraps around to nothing, so the data has the size of this section.
          have own := bmod_of_inInt (fits header List.mem_cons_self)
          rw [← Int.bmod_add_bmod, nothing, Int.zero_add, own]
        · -- It begins where this section does.
          rw [if_pos nothing]

/-- Without more than one section of uninitialised data, only the others can be refused. -/
theorem replay_few {sections : List ScnHdr} : ∀ {converter : Converter} {uninitData : Segment},
    (replay (addSection coff) converter (sections.filter (·.name ≠ bssName))).isSome →
    (bssSections sections).length ≤ 1 → (bssSections sections ≠ [] → uninitData.size = 0) →
    (replay (addSection coff) (converter.withUninit uninitData) sections).isSome := by
  induction sections with
  | nil => exact fun _ _ _ => rfl
  | cons header rest ih =>
    intro converter uninitData others few free
    -- The section is one of uninitialised data, or another one.
    by_cases bss : header.name = bssName
    · rw [List.filter_cons_of_neg (by simpa using bss)] at others
      by_cases empty : header.size = 0
      · -- An empty section is skipped before its name is looked at.
        have skipped : bssSections (header :: rest) = bssSections rest :=
          List.filter_cons_of_neg (by simp [empty])
        rw [skipped] at few free
        have added : (converter.withUninit uninitData).addSection coff header =
            some (converter.withUninit uninitData) := by
          rw [addSection_eq, if_pos empty]
        rw [replay_cons added]
        exact ih others few free
      · have kept : bssSections (header :: rest) = header :: bssSections rest :=
          List.filter_cons_of_pos (by simp [empty, bss])
        rw [kept] at few free
        -- No other section has data.
        have last : bssSections rest = [] := List.eq_nil_of_length_eq_zero (by simpa using few)
        -- The one section finds no data, and its own is what there is from then on.
        have added : (converter.withUninit uninitData).addSection coff header =
            some (converter.withUninit
              { uninitData with virtualAddr := header.paddr, size := header.size }) := by
          have nothing : (converter.withUninit uninitData).layout.uninitData.size = 0 :=
            free (List.cons_ne_nil _ _)
          rw [addSection_bss empty bss, addUninit]
          dsimp only
          rw [if_neg (by simpa using nothing)]
          rfl
        rw [replay_cons added]
        exact ih others (by simp [last]) fun more => absurd last more
    · -- Any other section does with this data what it does without it.
      rw [List.filter_cons_of_pos (by simpa using bss)] at others
      have skipped : bssSections (header :: rest) = bssSections rest :=
        List.filter_cons_of_neg (by simp [bss])
      rw [skipped] at few free
      -- It is accepted without the data, and so it is with it.
      obtain ⟨done, ran⟩ := Option.isSome_iff_exists.mp others
      obtain ⟨next, added, ran⟩ := Option.bind_eq_some_iff.mp ran
      have also : (converter.withUninit uninitData).addSection coff header =
          some (next.withUninit uninitData) := by
        rw [addSection_withUninit bss, added, Option.map_some]
      rw [replay_cons also]
      exact ih (Option.isSome_iff_exists.mpr ⟨done, ran⟩) few free

/-- A section that begins where the data ends so far is refused. -/
theorem replay_contiguous {header : ScnHdr} {more : List ScnHdr} {sections : List ScnHdr} :
    ∀ {converter : Converter}, bssSections sections = header :: more →
    converter.layout.uninitData.size ≠ 0 →
    header.paddr = (converter.layout.uninitData.virtualAddr +
      converter.layout.uninitData.size).bmod (2 ^ 32) →
    replay (addSection coff) converter sections = none := by
  induction sections with
  -- There is a section to come.
  | nil => exact fun first => by cases first
  | cons section' rest ih =>
    intro converter first something contiguous
    -- A section before that one may be refused as well, which is just as good.
    cases added : converter.addSection coff section' with
    | none => simp only [replay, added, Option.bind_none]
    | some next =>
      rw [replay_cons added]
      -- This section is the one that is contiguous, or another one.
      by_cases merged : section'.size ≠ 0 ∧ section'.name = bssName
      · have kept : bssSections (section' :: rest) = section' :: bssSections rest :=
          List.filter_cons_of_pos (by simpa using merged)
        rw [kept, List.cons.injEq] at first
        rw [addSection_bss merged.1 merged.2, first.1, addUninit] at added
        dsimp only at added
        -- The test of the source is the wrong way round, so this branch is the refusal.
        rw [if_pos something, if_pos contiguous] at added
        cases added
      · -- Another section leaves the data as it is.
        have skipped : bssSections (section' :: rest) = bssSections rest :=
          List.filter_cons_of_neg (by simpa using merged)
        have same := addSection_uninitData added merged
        exact ih (skipped ▸ first) (by rwa [same]) (by rwa [same])

/-- Two sections that follow one another without a gap are refused. -/
theorem replay_twoContiguous {first second : ScnHdr} {more : List ScnHdr}
    (fits : InInt second.paddr) (contiguous : first.paddr + first.size = second.paddr)
    {sections : List ScnHdr} : ∀ {converter : Converter},
    bssSections sections = first :: second :: more →
    converter.layout.uninitData.size = 0 →
    replay (addSection coff) converter sections = none := by
  induction sections with
  | nil => exact fun two => by cases two
  | cons header rest ih =>
    intro converter two nothing
    -- The first of the two is looked for, and then the second one is refused.
    cases added : converter.addSection coff header with
    | none => simp only [replay, added, Option.bind_none]
    | some next =>
      rw [replay_cons added]
      by_cases merged : header.size ≠ 0 ∧ header.name = bssName
      · have kept : bssSections (header :: rest) = header :: bssSections rest :=
          List.filter_cons_of_pos (by simpa using merged)
        rw [kept, List.cons.injEq] at two
        -- The first section finds no data, and begins it.
        obtain ⟨rfl, two⟩ := two
        rw [addSection_bss merged.1 merged.2, addUninit] at added
        dsimp only at added
        rw [if_neg (by simpa using nothing)] at added
        cases added
        -- The data is that of the first section now.
        refine replay_contiguous two merged.1 ?_
        dsimp only
        rw [contiguous, bmod_of_inInt fits]
      · -- Another section leaves the data empty.
        have skipped : bssSections (header :: rest) = bssSections rest :=
          List.filter_cons_of_neg (by simpa using merged)
        have same := addSection_uninitData added merged
        exact ih (skipped ▸ two) (by rwa [same])

end Converter

/--
The uninitialised data of a file that is accepted is what its sections make up exactly if they
leave no gap from where they are merged to and up to as many bytes above that as they have in all.

Sections that do follow one another without a gap are accepted exactly if there are not two.
-/
theorem coff2noff_mergesBss_iff (uninitialised : NoffLayout) (coff : List Byte)
    (sections : List ScnHdr) (table : sectionsOf coff = some sections) :
    (∀ noff, coff2noff uninitialised coff = some noff →
      ((⋃ header : { header // header ∈ bssSections sections },
          Set.Ico header.1.paddr (header.1.paddr + header.1.size)) =
        Set.Ico (NoffLayout.ofBytes noff.toBytes).uninitData.virtualAddr
          ((NoffLayout.ofBytes noff.toBytes).uninitData.virtualAddr +
            (NoffLayout.ofBytes noff.toBytes).uninitData.size) ↔
      Spans (fun header : { header // header ∈ bssSections sections } => header.1.paddr)
        (fun header => header.1.paddr + header.1.size)
        (mergedAddr 0 0 (bssSections sections))
        (mergedAddr 0 0 (bssSections sections) + mergedSize (bssSections sections)))) ∧
    ((replay (Converter.addSection coff) (.start uninitialised sections.length)
        (sections.filter (·.name ≠ bssName))).isSome →
      Contiguous (bssSections sections) →
      ((coff2noff uninitialised coff).isSome ↔ (bssSections sections).length ≤ 1)) := by
  have fits := inInt_of_sectionsOf table
  -- At first there is no data.
  have nothing : (Converter.start uninitialised sections.length).layout.uninitData.size = 0 := rfl
  refine ⟨fun noff produced => ?_, fun others contiguous => ?_⟩
  · -- The file was made from these sections.
    obtain ⟨found, done, read, converted, rfl⟩ := sections_of_coff2noff produced
    obtain rfl : sections = found := Option.some.inj (table.symm.trans read)
    -- Its data has the size and the address of what was merged.
    obtain ⟨size, placed⟩ := @Converter.replay_uninitData coff sections _ _ 0 0
      (fun header member => (fits header member).2) nothing (fun more => absurd rfl more) converted
    rw [Int.zero_add] at size
    rw [iUnion_Ico_eq_iff, NoffFile.layout_ofBytes]
    dsimp only [Segment.recorded]
    rw [size, Int.bmod_bmod]
    change Spans _ _ _ (_ + mergedSize (bssSections sections)) ↔ _
    -- Data without bytes makes up nothing, wherever it is; other data is where it was merged to.
    by_cases empty : mergedSize (bssSections sections) = 0
    · rw [empty, Int.add_zero, Int.add_zero, spans_empty_iff, spans_empty_iff]
    · have small : InInt (mergedAddr 0 0 (bssSections sections)) := inInt_mergedAddr
        (fun header member => (fits header (List.mem_of_mem_filter member)).1) (by decide)
      rw [placed (size ▸ empty), bmod_of_inInt small]
  · -- The sections are accepted or not, whatever is written.
    rw [coff2noff_eq, table, Option.bind_some, Option.isSome_map]
    constructor
    · -- Of several sections the first two already follow one another.
      intro accepted
      by_contra several
      rcases two : bssSections sections with _ | ⟨first, _ | ⟨second, more⟩⟩
      · exact several (by simp [two])
      · exact several (by simp [two])
      · have member : second ∈ bssSections sections := by simp [two]
        rw [two] at contiguous
        have refused := @Converter.replay_twoContiguous coff _ _ _
          (fits second (List.mem_of_mem_filter member)).1
          (List.isChain_cons_cons.mp contiguous).1.1 _ _ two nothing
        rw [refused] at accepted
        cases accepted
    · -- One section is merged with nothing else.
      intro few
      exact Converter.replay_few others few fun _ => nothing

/-- Three sections of uninitialised data side by side, out of order, and an empty one. -/
def bssShuffled : List ScnHdr :=
  [⟨textName, 0, 4, 276⟩, ⟨bssName, 128, 40, 0⟩, ⟨bssName, 176, 40, 0⟩, ⟨bssName, 168, 8, 0⟩,
    ⟨bssName, 512, 0, 0⟩]

/-- A program with these sections is accepted, and has all of their data and no more. -/
theorem coff2noff_mergesBss_shuffled :
    (coff2noff blankLayout (coffFile bssShuffled [1, 2, 3, 4])).isSome ∧
    ∀ noff, coff2noff blankLayout (coffFile bssShuffled [1, 2, 3, 4]) = some noff →
      (⋃ header : { header // header ∈ bssSections bssShuffled },
          Set.Ico header.1.paddr (header.1.paddr + header.1.size)) =
        Set.Ico (NoffLayout.ofBytes noff.toBytes).uninitData.virtualAddr
          ((NoffLayout.ofBytes noff.toBytes).uninitData.virtualAddr +
            (NoffLayout.ofBytes noff.toBytes).uninitData.size) := by
  -- The three sections are those of the file.
  have table : sectionsOf (coffFile bssShuffled [1, 2, 3, 4]) = some bssShuffled := by
    decide +kernel
  obtain ⟨merged, -⟩ :=
    coff2noff_mergesBss_iff blankLayout (coffFile bssShuffled [1, 2, 3, 4]) bssShuffled table
  refine ⟨by decide +kernel, fun noff produced => (merged noff produced).mpr ?_⟩
  -- What is merged is the three in this order.
  have three : bssSections bssShuffled =
      [⟨bssName, 128, 40, 0⟩, ⟨bssName, 176, 40, 0⟩, ⟨bssName, 168, 8, 0⟩] := by decide +kernel
  have address : mergedAddr 0 0 (bssSections bssShuffled) = 128 := by decide +kernel
  have size : mergedSize (bssSections bssShuffled) = 88 := by decide +kernel
  -- The data is from 128 to 216, where the second one of the sections ends.
  rw [address, size]
  refine ⟨?_, ?_, ?_⟩
  · -- No section reaches below the address or beyond the end.
    rintro ⟨header, member⟩ -
    rw [three] at member
    fin_cases member <;> simp
  · -- One section ends there.
    intro _
    exact ⟨⟨⟨bssName, 176, 40, 0⟩, by simp [three]⟩, by simp, by simp⟩
  · -- The third one ends where the second one begins, and begins where the first one ends.
    rintro ⟨header, member⟩ -
    rw [three] at member
    fin_cases member
    · -- The first one begins at the address.
      exact .inl rfl
    · -- The second one begins where the third one ends.
      exact .inr ⟨⟨⟨bssName, 168, 8, 0⟩, by simp [three]⟩, by simp, by simp⟩
    · -- The third one begins where the first one ends.
      exact .inr ⟨⟨⟨bssName, 128, 40, 0⟩, by simp [three]⟩, by simp, by simp⟩

/-- Two sections of uninitialised data that follow one another. -/
def bssAdjacent : List ScnHdr := [⟨bssName, 0, 4, 0⟩, ⟨bssName, 4, 4, 0⟩]

/-- Two sections of uninitialised data with a gap between them. -/
def bssApart : List ScnHdr := [⟨bssName, 0, 4, 0⟩, ⟨bssName, 100, 4, 0⟩]

/-- Sections that follow one another are refused, and sections with a gap between them merged. -/
theorem coff2noff_mergesApart :
    (sectionsOf (coffFile bssAdjacent []) = some bssAdjacent ∧
      Contiguous (bssSections bssAdjacent) ∧
      bssAdjacent.filter (·.name ≠ bssName) = [] ∧
      coff2noff blankLayout (coffFile bssAdjacent []) = none) ∧
    sectionsOf (coffFile bssApart []) = some bssApart ∧
    ∃ noff, coff2noff blankLayout (coffFile bssApart []) = some noff ∧
      (NoffLayout.ofBytes noff.toBytes).uninitData = ⟨0, 0, 8⟩ ∧
      (⋃ header : { header // header ∈ bssSections bssApart },
        Set.Ico header.1.paddr (header.1.paddr + header.1.size)) ≠ Set.Ico 0 (0 + 8) := by
  -- All of the sections are of uninitialised data.
  have adjacent : bssSections bssAdjacent = bssAdjacent := by decide +kernel
  have parted : bssSections bssApart = bssApart := by decide +kernel
  refine ⟨⟨by decide +kernel, ?_, by decide +kernel, by decide +kernel⟩, by decide +kernel,
    ⟨{ blankLayout with uninitData := ⟨0, 0, 8⟩ }, []⟩, by decide +kernel, by decide +kernel, ?_⟩
  · -- The second section begins at 4, where the first one ends.
    rw [adjacent]
    exact .cons_cons (by decide) (.singleton _)
  · intro same
    -- Address 5 is in the merged data, but in neither section.
    have five : (5 : Int) ∈ Set.Ico (0 : Int) (0 + 8) := by decide
    rw [← same, Set.mem_iUnion] at five
    obtain ⟨⟨header, member⟩, begins, ends⟩ := five
    rw [parted, bssApart, List.mem_cons, List.mem_singleton] at member
    rcases member with rfl | rfl
    · -- It is behind the end of the first one.
      dsimp only at ends
      omega
    · -- It is before the begin of the second one.
      dsimp only at begins
      omega

end Nachos
