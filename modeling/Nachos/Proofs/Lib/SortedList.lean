import Nachos.Proofs.Lib.LinkedList
import Nachos.Proofs.Lib.List

/-! The sorted lists are stable priority queues. -/

namespace Nachos

/-- The comparison of a total preorder: negative if less, zero if equal, positive if greater. -/
structure TotalPreorder {Item : Type} (compare : Item → Item → Int) : Prop where
  swap : ∀ first second, compare first second < 0 ↔ 0 < compare second first
  trans : ∀ {first second third}, compare first second ≤ 0 → compare second third ≤ 0 →
    compare first third ≤ 0

namespace TotalPreorder

variable {Item : Type} {compare : Item → Item → Int} (total : TotalPreorder compare)
include total

/-- An item is equal to itself. -/
theorem refl (item : Item) : compare item item = 0 := by
  have swapped := total.swap item item
  omega

/-- What is not less is not greater the other way round. -/
theorem notLess {first second : Item} (more : ¬ compare first second < 0) :
    compare second first ≤ 0 := by
  have swapped := total.swap first second
  omega

/-- Equal items are equal the other way round. -/
theorem symm {first second : Item} (equal : compare first second = 0) :
    compare second first = 0 := by
  have there := total.swap first second
  have back := total.swap second first
  omega

/-- What is not greater than an item that is less is less. -/
theorem notMore_less {first second third : Item} (notMore : compare first second ≤ 0)
    (less : compare second third < 0) : compare first third < 0 := by
  by_contra notLess
  have back := total.trans (total.notLess notLess) notMore
  have swapped := total.swap second third
  omega

/-- What is less than an item that is not greater is less. -/
theorem less_notMore {first second third : Item} (less : compare first second < 0)
    (notMore : compare second third ≤ 0) : compare first third < 0 := by
  by_contra notLess
  have back := total.trans notMore (total.notLess notLess)
  have swapped := total.swap first second
  omega

end TotalPreorder

section Order

variable {Item : Type} {compare : Item → Item → Int}

/-- The items that are equal to another one, in the order in which they are in the list. -/
abbrev equals (compare : Item → Item → Int) (item : Item) (list : List Item) : List Item :=
  list.filter fun other => compare item other = 0

/-- The items of two lists that are equal to another one are those of the first and the second. -/
theorem equals_append (item : Item) (front back : List Item) :
    equals compare item (front ++ back) = equals compare item front ++ equals compare item back :=
  List.filter_append front back

/--
A sorted list of the items of a queue.

Equal items are in the same order as in the queue.
-/
structure Sorts (compare : Item → Item → Int) (seq queue : List Item) : Prop where
  sorted : seq.Pairwise fun first second => compare first second ≤ 0
  perm : seq.Perm queue
  stable : ∀ item, equals compare item seq = equals compare item queue

/-- Nothing that is greater than an item is equal to one that the item is equal to. -/
theorem equals_greater (total : TotalPreorder compare) {item other : Item} {list : List Item}
    (equal : compare other item = 0) (greater : ∀ later ∈ list, compare item later < 0) :
    equals compare other list = [] := by
  apply List.filter_eq_nil_iff.mpr
  intro later member
  have less := total.notMore_less (Int.le_of_eq equal) (greater later member)
  have different : compare other later ≠ 0 := by omega
  simpa using different

/-- An insertion goes behind the items that are equal to the new one. -/
theorem equals_insertWalk (total : TotalPreorder compare) {item : Item} {seq : List Item}
    (sorted : seq.Pairwise fun first second => compare first second ≤ 0) (other : Item) :
    equals compare other (insertWalk compare item seq) = equals compare other (seq ++ [item]) := by
  -- The induction follows the walk, which passes the items that are not greater.
  induction seq with
  -- At the end of the list the new item is put last.
  | nil => rfl
  | cons first rest ih =>
    obtain ⟨front, tail⟩ := List.pairwise_cons.mp sorted
    rw [insertWalk]
    split
    · -- Everything that follows the new item is greater than it.
      rename_i smaller
      have greater : ∀ later ∈ first :: rest, compare item later < 0 := by
        intro later member
        rcases List.mem_cons.mp member with rfl | behind
        · exact smaller
        · exact total.less_notMore smaller (front later behind)
      -- So none of them is equal to what the new item equals.
      show equals compare other ([item] ++ first :: rest) = _
      rw [equals_append, equals_append]
      by_cases equal : compare other item = 0
      · rw [equals_greater total equal greater, List.append_nil, List.nil_append]
      · have none : equals compare other [item] = [] := by simpa using equal
        rw [none, List.append_nil, List.nil_append]
    · -- The walk goes on behind the first item.
      have later := ih tail
      simp only [equals, List.cons_append, List.filter_cons] at later ⊢
      rw [later]

/-- An empty list sorts an empty queue. -/
theorem sorts_nil : Sorts compare [] [] := ⟨.nil, .refl _, fun _ => rfl⟩

/-- An item that is put into the sorted list joins the queue at its end. -/
theorem Sorts.insert (total : TotalPreorder compare) {seq queue : List Item} (item : Item)
    (sorts : Sorts compare seq queue) :
    Sorts compare (insertWalk compare item seq) (queue ++ [item]) := by
  refine ⟨?_, ?_, fun other => ?_⟩
  · apply @insertWalk_pairwise _ _ _ _ (fun first second => compare first second ≤ 0) total.trans
    · exact fun other _ less => Int.le_of_lt less
    · exact fun other _ more => total.notLess more
    · exact sorts.sorted
  · have added := insertWalk_perm compare item seq
    have joined := (List.perm_append_singleton item queue).symm
    exact added.trans ((sorts.perm.cons item).trans joined)
  · rw [equals_insertWalk total sorts.sorted, equals_append, sorts.stable other, equals_append]

/-- The first of the items of a queue that are not greater than any other. -/
def earliest (compare : Item → Item → Int) (queue : List Item) : Option Item :=
  queue.find? fun item => ∀ other ∈ queue, compare item other ≤ 0

/-- The first item of the sorted list is the earliest one of the queue. -/
theorem Sorts.earliest_eq (total : TotalPreorder compare) {item : Item} {rest queue : List Item}
    (sorts : Sorts compare (item :: rest) queue) : earliest compare queue = some item := by
  -- The first item of a sorted list is not greater than any other.
  have least : ∀ other ∈ queue, compare item other ≤ 0 := by
    intro other member
    rcases List.mem_cons.mp (sorts.perm.mem_iff.mpr member) with rfl | later
    · exact Int.le_of_eq (total.refl other)
    · exact (List.pairwise_cons.mp sorts.sorted).1 other later
  have member : item ∈ queue := sorts.perm.mem_iff.mp List.mem_cons_self
  -- Those that are not greater than any other are those that are equal to the first one.
  have same : ∀ other ∈ queue, (∀ another ∈ queue, compare other another ≤ 0) ↔
      compare item other = 0 := by
    intro other there
    constructor
    · intro notMore
      have swapped := total.swap item other
      have atMost := least other there
      have atLeast := notMore item member
      omega
    · intro equal another elsewhere
      exact total.trans (Int.le_of_eq (total.symm equal)) (least another elsewhere)
  have filtered : queue.filter (fun other => ∀ another ∈ queue, compare other another ≤ 0) =
      equals compare item queue :=
    List.filter_congr fun other there => decide_eq_decide.mpr (same other there)
  -- The first of those is the first item of the list, by stability.
  rw [earliest, ← List.head?_filter, filtered, ← sorts.stable item, equals, List.filter_cons,
    if_pos (by simpa using total.refl item)]
  rfl

/-- What is taken off the front of the sorted list leaves the queue. -/
theorem Sorts.removeFront [DecidableEq Item] {item : Item} {rest queue : List Item}
    (sorts : Sorts compare (item :: rest) queue) : Sorts compare rest (queue.erase item) := by
  refine ⟨(List.pairwise_cons.mp sorts.sorted).2, ?_, fun other => ?_⟩
  · have erased := sorts.perm.erase item
    rwa [List.erase_cons_head] at erased
  -- Erasing an item and taking the equal ones can be done in either order.
  · have erased := congrArg (List.erase · item) (sorts.stable other)
    simpa only [List.erase_filter, List.erase_cons_head] using erased

end Order

namespace SortedList

open Linked LinkedList

variable {Item : Type} {list : LinkedList Item} {cells : List (Nat × Item)}

/-- A new element goes between two others. -/
theorem putBetween_represents {front back : List (Nat × Item)} {address following element : Nat}
    {held after item : Item}
    (represents : list.Represents (front ++ (address, held) :: (following, after) :: back))
    (unused : element ∉ list.heap) :
    ∃ linked result, (list.allocate element item).setNext (some element) (some following) =
        some linked ∧ linked.setNext (some address) (some element) = some result ∧
      Represents { result with numInList := result.numInList + 1 }
        (front ++ (address, held) :: (element, item) :: (following, after) :: back) := by
  -- The new element is at an address of its own.
  have fresh := represents.fresh unused
  have reordered := represents.shift
  obtain ⟨apart, later, -⟩ := represents.apart
  have alone : Chain (list.allocate element item).heap none [(element, item)] :=
    ⟨AList.lookup_insert _, trivial⟩
  have different : element ≠ address := fun same => fresh (by simp [addresses, same])
  -- The new element leads to the one behind it, and the one in front leads to the new one.
  have others := (reordered.allocate unused item).chain.insert (by simpa using fresh)
    ⟨item, some following⟩
  obtain ⟨before, behind⟩ := chain_append.mp others
  have here := (chain_append.mp before).2
  have inserted : (front ++ (address, held) :: (element, item) :: (following, after) :: back) =
      (front ++ [(address, held)]) ++ (element, item) :: (following, after) :: back := by simp
  rw [inserted]
  refine ⟨_, _, setNext_chain alone _, setNext_chain here _, ?_, ?_, ?_, ?_, ?_⟩
  · -- The chain leads through the element in front, the new one and the one behind.
    refine chain_append.mpr ⟨before.relink apart (some element), ?_, behind.insert later _⟩
    rw [AList.lookup_insert_ne different, AList.lookup_insert]
    rfl
  · -- The new address is none of the others.
    rw [addresses, List.map_append, List.map_cons, List.nodup_middle, ← List.map_append]
    exact List.nodup_cons.mpr ⟨by simpa using fresh, reordered.distinct⟩
  · -- The first element is the one from before.
    show list.first = _
    rw [reordered.first, entry_append, List.append_assoc, entry_append, entry_append]
    rfl
  · -- So is the last one.
    show list.last = _
    rw [reordered.last]
    simp [List.getLast?_cons]
  · -- The count is one more.
    simp only [allocate, reordered.count, List.length_append, List.length_cons]
    omega

/-- The search for a greater element ends at the end, or with the new one in front of the first. -/
theorem insertLoop_represents (compare : Item → Item → Int) {element : Nat} (item : Item)
    (unused : element ∉ list.heap) {rest : List (Nat × Item)} :
    ∀ {front : List (Nat × Item)} {address : Nat} {held : Item} {turns : Nat},
      list.Represents (front ++ (address, held) :: rest) → rest.length < turns →
      (insertLoop compare (list.allocate element item) element item turns (some address) =
          some none ∧ insertWalk compare item (items rest) = items rest ++ [item]) ∨
        ∃ after more, insertLoop compare (list.allocate element item) element item turns
            (some address) = some (some after) ∧
          after.Represents (front ++ (address, held) :: more) ∧
          items more = insertWalk compare item (items rest) := by
  -- The loop looks one element ahead, so the induction is on those behind the current one.
  induction rest with
  -- There is no next element.
  | nil =>
    intro front address held turns represents enough
    obtain ⟨turns, rfl⟩ := Nat.exists_eq_succ_of_ne_zero (Nat.ne_of_gt enough)
    have here := deref_chain (chain_append.mp (represents.allocate unused item).chain).2
    exact .inl ⟨by simp [insertLoop, here], rfl⟩
  | cons cell rest ih =>
    intro front address held turns represents enough
    obtain ⟨following, other⟩ := cell
    obtain ⟨turns, rfl⟩ := Nat.exists_eq_succ_of_ne_zero (Nat.ne_of_gt (Nat.zero_lt_of_lt enough))
    have linked := (chain_append.mp (represents.allocate unused item).chain).2
    have here := deref_chain linked
    have next := deref_chain linked.2
    by_cases smaller : compare item other < 0
    -- The next element is greater: the new one goes in front of it.
    · obtain ⟨linked, result, first, second, there⟩ :=
        @putBetween_represents _ _ _ _ _ _ _ _ _ item represents unused
      refine .inr ⟨_, _, ?_, there, ?_⟩
      · simp [insertLoop, here, next, smaller, first, second]
      · simp [insertWalk, smaller]
    -- The next element is not greater, and the loop goes on from there.
    · have turn : insertLoop compare (list.allocate element item) element item (turns + 1)
          (some address) = insertLoop compare (list.allocate element item) element item turns
            (some following) := by
        simp [insertLoop, here, next, smaller]
      have walked : insertWalk compare item (items ((following, other) :: rest)) =
          other :: insertWalk compare item (items rest) := by
        simp [insertWalk, smaller]
      rw [turn, walked]
      -- The new element is put further behind, or the end is reached.
      rcases ih represents.shift (Nat.lt_of_succ_lt_succ enough) with
        ⟨ended, last⟩ | ⟨after, more, put, there, same⟩
      · exact .inl ⟨ended, by rw [last]; rfl⟩
      · exact .inr ⟨after, (following, other) :: more, put, by simpa using there, by simp [same]⟩

/-- The search for a pair that is out of order finds none. -/
theorem sortedLoop_chain {compare : Item → Item → Int} {prev : Item} {turns : Nat}
    (chain : Chain list.heap none cells) (enough : cells.length ≤ turns)
    (sorted : (prev :: items cells).Pairwise fun first second => compare first second ≤ 0) :
    sortedLoop compare list turns prev (entry none cells) = true := by
  induction cells generalizing prev turns with
  | nil => simp [sortedLoop]
  | cons cell rest ih =>
    obtain ⟨turns, rfl⟩ := Nat.exists_eq_succ_of_ne_zero (Nat.ne_of_gt (Nat.zero_lt_of_lt enough))
    obtain ⟨front, tail⟩ := List.pairwise_cons.mp sorted
    have here := deref_chain chain
    have later := ih chain.2 (Nat.le_of_succ_le_succ enough) tail
    have next := front cell.2 List.mem_cons_self
    simp [sortedLoop, here, later, next]

/-- A list of sorted elements passes its sanity check. -/
theorem sane {compare : Item → Item → Int} (represents : list.Represents cells)
    (sorted : (items cells).Pairwise fun first second => compare first second ≤ 0) :
    -- The list itself is sane.
    sanityCheck compare list = true := by
  rw [sanityCheck, represents.sane, Bool.true_and]
  split
  · cases cells with
    -- An empty list has the same first and last element.
    | nil =>
      rename_i several
      exact absurd (represents.first.trans represents.last.symm) several
    -- The loop goes from the first element through the rest.
    | cons cell rest =>
      have here := deref_chain represents.chain
      have first : list.first = some cell.1 := represents.first
      have enough : rest.length ≤ list.heap.keys.length :=
        Nat.le_of_succ_le (represents.chain.length_le represents.distinct)
      rw [first, here]
      exact sortedLoop_chain represents.chain.2 enough sorted
  · rfl

variable [DecidableEq Item]

/-- `Insert` puts a new element in front of the first one that is greater. -/
theorem insert_represents (compare : Item → Item → Int) {element : Nat} {item : Item}
    (represents : list.Represents cells) (unused : element ∉ list.heap)
    (absent : item ∉ items cells) :
    ∃ after more, insert compare list element item = some after ∧ after.Represents more ∧
      items more = insertWalk compare item (items cells) := by
  have search := (represents.allocate unused item).isInList_eq item
  rw [decide_eq_false absent] at search
  -- The four exits: an empty list, the front, the middle and the end.
  cases cells with
  -- There is nothing to compare with.
  | nil =>
    have only := putOnly_represents element item represents
    have filled : (list.allocate element item).IsEmpty := represents.isEmpty_iff.mpr rfl
    refine ⟨_, _, ?_, only, rfl⟩
    simp only [insert, search, if_pos filled]
    exact counted_eq item only (by simp)
  -- The first element is compared before the loop begins.
  | cons cell rest =>
    obtain ⟨address, held⟩ := cell
    have filled : ¬ (list.allocate element item).IsEmpty :=
      mt represents.isEmpty_iff.mp (List.cons_ne_nil _ _)
    have allocated := represents.allocate unused item
    have here := deref_chain allocated.chain
    have first : (list.allocate element item).first = some address := represents.first
    -- The first one is greater, and the new one goes in front of it.
    by_cases smaller : compare item held < 0
    · obtain ⟨after, put, there⟩ :=
        putFirst_represents item represents unused (List.cons_ne_nil _ _)
      refine ⟨_, _, ?_, there, by simp [insertWalk, smaller]⟩
      have counted := counted_eq item there (by simp)
      simp [insert, search, filled, first, here, smaller, put, counted]
    · -- The first one is not greater, and the loop starts from there.
      have walked : insertWalk compare item (items ((address, held) :: rest)) =
          held :: insertWalk compare item (items rest) := by
        simp [insertWalk, smaller]
      -- The loop has a turn for each element.
      have enough : rest.length < (list.allocate element item).heap.keys.length :=
        allocated.chain.length_le allocated.distinct
      rw [walked]
      rcases @insertLoop_represents _ _ compare _ item unused _ [] _ _ _ represents enough with
        ⟨ended, last⟩ | ⟨after, more, put, there, same⟩
      · -- No element is greater, and the new one goes to the end.
        obtain ⟨after, put, there⟩ :=
          putLast_represents item represents unused (List.cons_ne_nil _ _)
        have counted := counted_eq item there (by simp)
        refine ⟨_, _, ?_, there, by simp [last]⟩
        simp [insert, search, filled, first, here, smaller, ended, put, counted]
      · -- The loop has put it in front of a greater one.
        refine ⟨after, _, ?_, there, by simp [same]⟩
        simp [insert, search, filled, first, here, smaller, put]

end SortedList

section Queue

variable {Item : Type} [DecidableEq Item]

/-- What a stable priority queue does: its items in the order of insertion, and what it gave. -/
def PriorityQueue.step (compare : Item → Item → Int) (state : List Item × List Item) :
    SortedEvent Item → Option (List Item × List Item)
  | .insert _ item => some (state.1 ++ [item], state.2)
  | .removeFront =>
    (earliest compare state.1).map fun item => (state.1.erase item, state.2 ++ [item])

/-- The items that are inserted. -/
def SortedEvent.inserted (events : List (SortedEvent Item)) : List Item :=
  events.filterMap fun
    | .insert _ item => some item
    | .removeFront => none

/-- The calls that are allowed: an item is inserted if it is not there, and removed if one is. -/
def SortedList.Allowed (state : LinkedList Item × List Item) : SortedEvent Item → Prop
  | .insert element item => element ∉ state.1.heap ∧ state.1.isInList item = some false
  | .removeFront => ¬ state.1.IsEmpty

instance (state : LinkedList Item × List Item) : ∀ event, Decidable (SortedList.Allowed state event)
  | .insert _ _ => inferInstanceAs (Decidable (_ ∧ _))
  | .removeFront => inferInstanceAs (Decidable (¬ _))

/-- The elements of the list are the items of the queue, sorted, and both gave the same. -/
def SortedList.Follows (compare : Item → Item → Int) (state : LinkedList Item × List Item)
    (twin : List Item × List Item) : Prop :=
  ∃ cells, state.1.Represents cells ∧ Sorts compare (LinkedList.items cells) twin.1 ∧
    state.2 = twin.2

/-- One allowed call of a sorted list does what the queue does. -/
theorem SortedList.step_follows {compare : Item → Item → Int} (total : TotalPreorder compare)
    (state : LinkedList Item × List Item) (twin : List Item × List Item) (event : SortedEvent Item)
    (follows : Follows compare state twin) (allowed : Allowed state event) :
    ∃ after next, step compare state event = some after ∧
      PriorityQueue.step compare twin event = some next ∧ Follows compare after next := by
  obtain ⟨cells, represents, sorts, same⟩ := follows
  cases event with
  -- The item is new, so it is put behind those that are equal.
  | insert element item =>
    obtain ⟨unused, search⟩ := allowed
    rw [represents.isInList_eq item] at search
    have absent : item ∉ LinkedList.items cells := by simpa using search
    obtain ⟨after, more, put, there, walked⟩ := insert_represents compare represents unused absent
    refine ⟨(after, state.2), _, by rw [step, put]; rfl, rfl, more, there, ?_, same⟩
    rw [walked]
    exact sorts.insert total item
  -- The list is sorted, so its first item is the earliest of the queue.
  -- The list is not empty, so its front is taken off.
  | removeFront =>
    have filled : cells ≠ [] := mt represents.isEmpty_iff.mpr allowed
    obtain ⟨cell, rest, rfl⟩ := List.exists_cons_of_ne_nil filled
    obtain ⟨after, removed, there⟩ := LinkedList.removeFront_represents represents
    have first : earliest compare twin.1 = some cell.2 := sorts.earliest_eq total
    refine ⟨(after, state.2 ++ [cell.2]), (twin.1.erase cell.2, twin.2 ++ [cell.2]), ?_, ?_, rest,
      there, sorts.removeFront, by rw [same]⟩
    · rw [step, removed]
      rfl
    · rw [PriorityQueue.step, first]
      rfl

/-- What the queue has been given is what it has given back, and what it still has. -/
theorem PriorityQueue.keeps_items {compare : Item → Item → Int} (state : List Item × List Item)
    (earlier : List (SortedEvent Item)) (event : SortedEvent Item) (next : List Item × List Item)
    (kept : (SortedEvent.inserted earlier).Perm (state.2 ++ state.1))
    (stepped : step compare state event = some next) :
    (SortedEvent.inserted (earlier ++ [event])).Perm (next.2 ++ next.1) := by
  rw [SortedEvent.inserted, List.filterMap_append]
  -- An item that is removed goes from one part of the whole to the other.
  cases event with
  -- An item that is inserted is one of what the queue has.
  | insert element item =>
    cases stepped
    rw [← List.append_assoc]
    exact kept.append_right [item]
  -- One that is taken goes to those that were given.
  | removeFront =>
    obtain ⟨item, first, rfl⟩ := Option.map_eq_some_iff.mp stepped
    have member : item ∈ state.1 := List.mem_of_find?_eq_some first
    have whole := (List.perm_cons_erase member).append_left state.2
    rw [List.append_assoc]
    exact (kept.append_right []).trans (by simpa using whole)

/--
A sorted list is a stable priority queue.

Whatever allowed calls are made on an empty list, for whatever total preorder, and wherever the
elements are put: no assertion fails, the list holds the items of the queue in sorted order, all
that it has given back is what the queue gives, which is always the earliest of the least items, and
no item is lost or duplicated.
-/
theorem sortedList_isPriorityQueue {compare : Item → Item → Int} (total : TotalPreorder compare)
    (heap : Linked.Heap Item) (events : List (SortedEvent Item))
    (allowed : EveryStep (SortedList.step compare) SortedList.Allowed (.new heap, []) events) :
    ∃ list given seq queue,
      replay (SortedList.step compare) (.new heap, []) events = some (list, given) ∧
      replay (PriorityQueue.step compare) ([], []) events = some (queue, given) ∧
      list.Holds seq ∧ SortedList.sanityCheck compare list = true ∧ Sorts compare seq queue ∧
      (SortedEvent.inserted events).Perm (given ++ seq) := by
  -- Both are empty at first.
  have empty : SortedList.Follows compare (.new heap, []) ([], []) :=
    ⟨[], LinkedList.represents_new heap, sorts_nil, rfl⟩
  obtain ⟨⟨list, given⟩, ⟨queue, same⟩, ran, specified, cells, represents, sorts, rfl⟩ :=
    replay_lockstep (SortedList.step_follows total) empty allowed
  -- The items are kept by every step of the queue, so by the whole run.
  have kept : (SortedEvent.inserted ([] ++ events)).Perm (given ++ queue) :=
    @replay_history _ _ _ (fun state earlier =>
      (SortedEvent.inserted earlier).Perm (state.2 ++ state.1)) PriorityQueue.keeps_items _ _ _ _
        (.refl _) specified
  -- The list is sorted, sane, and has the items that were not given back.
  exact ⟨list, given, _, queue, ran, specified, represents.holds,
    SortedList.sane represents sorts.sorted, sorts,
    kept.trans (sorts.perm.symm.append_left given)⟩

/-- Items are compared by their tens: of two that are equal, the one inserted first comes first. -/
theorem sortedList_isPriorityQueue_ties : ∃ list seq,
    replay (SortedList.step fun first second : Nat => (first / 10 : Nat) - (second / 10 : Nat))
      (.new ∅, []) [.insert 1 25, .insert 2 21, .insert 3 10, .removeFront, .removeFront] =
        some (list, [10, 25]) ∧ list.Holds seq ∧ seq.Perm [21] := by
  have total : TotalPreorder fun first second : Nat =>
      ((first / 10 : Nat) - (second / 10 : Nat) : Int) :=
    ⟨fun first second => by omega, fun first second => by omega⟩
  obtain ⟨list, given, seq, queue, ran, specified, holds, -, sorts, -⟩ :=
    sortedList_isPriorityQueue total ∅
      [.insert 1 25, .insert 2 21, .insert 3 10, .removeFront, .removeFront] (by decide)
  cases specified
  exact ⟨list, seq, ran, holds, sorts.perm⟩

end Queue

end Nachos
