import Nachos.Lib.LinkedList
import Nachos.Lib.List
import Nachos.Theory.Run

/-! The linked lists represent sequences: what each call does to the elements and to their order. -/

namespace Nachos

namespace LinkedList

open Linked

variable {Item : Type} {list : LinkedList Item} {cells : List (Nat × Item)}

/-- The items of a chain of elements. -/
abbrev items (cells : List (Nat × Item)) : List Item := cells.map Prod.snd

/-- The addresses of a chain of elements. -/
abbrev addresses (cells : List (Nat × Item)) : List Nat := cells.map Prod.fst

/-- The elements of the list, in order, are those at these addresses and with these items. -/
structure Represents (list : LinkedList Item) (cells : List (Nat × Item)) : Prop where
  chain : Chain list.heap none cells
  distinct : (addresses cells).Nodup
  first : list.first = entry none cells
  last : list.last = cells.getLast?.map Prod.fst
  count : list.numInList = cells.length

/-- A list that has just been made is empty. -/
theorem represents_new (heap : Heap Item) : (new heap).Represents [] :=
  ⟨trivial, List.nodup_nil, rfl, rfl, rfl⟩

/-- A list counts no elements when it has none. -/
theorem Represents.isEmpty_iff (represents : list.Represents cells) :
    list.IsEmpty ↔ cells = [] := by
  rw [IsEmpty, represents.count, ← List.length_eq_zero_iff]
  omega

/-- A pointer into a chain leads to the element there. -/
theorem deref_chain {stop : Option Nat} {address : Nat} {item : Item} {rest : List (Nat × Item)}
    (chain : Chain list.heap stop ((address, item) :: rest)) :
    list.deref (some address) = some (address, ⟨item, entry stop rest⟩) := by
  simp [deref, chain.1]

/-- A new element has an address of its own. -/
theorem Represents.fresh (represents : list.Represents cells) {element : Nat}
    (unused : element ∉ list.heap) : element ∉ addresses cells := fun member =>
  unused (represents.chain.allocated element member)

/-- A new element that nothing leads to changes none of the others. -/
theorem Represents.allocate {element : Nat} (represents : list.Represents cells)
    (unused : element ∉ list.heap) (item : Item) :
    (list.allocate element item).Represents cells :=
  ⟨represents.chain.insert (represents.fresh unused) _, represents.distinct, represents.first,
    represents.last, represents.count⟩

/-- An element is in front of what follows it, or behind what it follows. -/
theorem Represents.shift {front back : List (Nat × Item)} {cell : Nat × Item}
    (represents : list.Represents (front ++ cell :: back)) :
    list.Represents ((front ++ [cell]) ++ back) := by
  rwa [List.append_assoc]

/-- Setting a next pointer writes one element. -/
theorem setNext_chain {stop : Option Nat} {address : Nat} {item : Item} {rest : List (Nat × Item)}
    (chain : Chain list.heap stop ((address, item) :: rest)) (next : Option Nat) :
    list.setNext (some address) next =
      some { list with heap := list.heap.insert address ⟨item, next⟩ } := by
  simp [setNext, deref_chain chain]

/-- A new element is the only one if the list was empty. -/
theorem putOnly_represents (element : Nat) (item : Item) (represents : list.Represents []) :
    Represents { (list.allocate element item).putOnly element with
      numInList := list.numInList + 1 } [(element, item)] := by
  refine ⟨⟨AList.lookup_insert _, trivial⟩, List.nodup_singleton _, rfl, rfl, ?_⟩
  simp [represents.count]

/-- A new element goes in front of the first one. -/
theorem putFirst_represents {element : Nat} (item : Item) (represents : list.Represents cells)
    (unused : element ∉ list.heap) (filled : cells ≠ []) :
    ∃ after, (list.allocate element item).putFirst element = some after ∧
      Represents { after with numInList := after.numInList + 1 } ((element, item) :: cells) := by
  have fresh := represents.fresh unused
  have alone : Chain (list.allocate element item).heap none [(element, item)] :=
    ⟨AList.lookup_insert _, trivial⟩
  have others := (represents.allocate unused item).chain
  -- The new element leads to the one that was first.
  refine ⟨_, by rw [putFirst, setNext_chain alone]; rfl, ?_, ?_, rfl, ?_, ?_⟩
  · refine ⟨?_, others.insert fresh _⟩
    rw [AList.lookup_insert, ← represents.first]
    rfl
  · exact List.nodup_cons.mpr ⟨fresh, represents.distinct⟩
  · -- The last element is still the last one.
    obtain ⟨cell, rest, rfl⟩ := List.exists_cons_of_ne_nil filled
    rw [List.getLast?_cons_cons]
    exact represents.last
  · simp only [allocate, represents.count, List.length_cons]
    omega

/-- An element has another address than those in front of it and those behind it. -/
theorem Represents.apart {front back : List (Nat × Item)} {address : Nat} {item : Item}
    (represents : list.Represents (front ++ (address, item) :: back)) :
    address ∉ addresses front ∧ address ∉ addresses back ∧
      (addresses (front ++ back)).Nodup := by
  have distinct := represents.distinct
  simp only [addresses, List.map_append, List.map_cons, List.nodup_append, List.nodup_cons,
    List.mem_cons] at distinct ⊢
  refine ⟨fun member => distinct.2.2 _ member _ (.inl rfl) rfl, distinct.2.1.1, distinct.1,
    distinct.2.1.2, fun held first other second => distinct.2.2 held first other (.inr second)⟩

/-- A new element goes behind the last one. -/
theorem putLast_represents {element : Nat} (item : Item) (represents : list.Represents cells)
    (unused : element ∉ list.heap) (filled : cells ≠ []) :
    ∃ after, (list.allocate element item).putLast element = some after ∧
      Represents { after with numInList := after.numInList + 1 } (cells ++ [(element, item)]) := by
  -- The address was free, so no element of the list is there.
  have fresh := represents.fresh unused
  obtain ⟨front, ⟨address, other⟩, rfl⟩ := (List.eq_nil_or_concat' cells).resolve_left filled
  have apart := represents.apart.1
  have different : element ≠ address := fun same => fresh (by simp [addresses, same])
  -- The chain does not go through it.
  have others := (represents.allocate unused item).chain
  have pointer : (list.allocate element item).last = some address := by
    show list.last = _
    rw [represents.last]
    simp
  -- The element that was last is linked to the new one.
  have written := setNext_chain (chain_append.mp others).2 (some element)
  refine ⟨_, by rw [putLast, pointer, written]; rfl, ?_, ?_, ?_, ?_, ?_⟩
  · -- The chain leads to the last element, and from there to the new one.
    refine chain_append.mpr ⟨others.relink apart (some element), ?_, trivial⟩
    rw [AList.lookup_insert_ne different]
    exact AList.lookup_insert _
  · -- The new address is another one than those before.
    rw [addresses, List.map_append, List.nodup_append]
    refine ⟨represents.distinct, List.nodup_singleton _, fun held member new single same => ?_⟩
    rw [List.map_singleton, List.mem_singleton] at single
    have here : held = element := same.trans single
    exact fresh (here ▸ member)
  · -- The first element is the one from before.
    show list.first = _
    rw [represents.first, List.append_assoc, entry_append, entry_append]
    rfl
  · simp
  · -- The count is one more.
    simp only [allocate, represents.count, List.length_append, List.length_cons, List.length_nil]
    omega

/-- The element in front of others is not the last one. -/
theorem ne_last {address : Nat} {next : Nat × Item} {rest : List (Nat × Item)}
    (apart : address ∉ addresses (next :: rest)) :
    some address ≠ (next :: rest).getLast?.map Prod.fst := by
  intro same
  obtain ⟨final, ends, there⟩ := Option.map_eq_some_iff.mp same.symm
  have member : final.1 ∈ addresses (next :: rest) :=
    List.mem_map_of_mem (List.mem_of_getLast? ends)
  exact apart (there ▸ member)

/-- The first element is taken off. -/
theorem removeFront_represents {address : Nat} {item : Item}
    (represents : list.Represents ((address, item) :: cells)) :
    ∃ after, list.removeFront = some (item, after) ∧ after.Represents cells := by
  -- The list is not empty, and its first element is read.
  have filled : ¬ list.IsEmpty := by simp [represents.isEmpty_iff]
  have here := deref_chain represents.chain
  have apart := (List.nodup_cons.mp represents.distinct).1
  -- The others form a chain without it.
  have later := represents.chain.2.erase apart
  have count : list.numInList - 1 = cells.length := by
    rw [represents.count, List.length_cons]
    omega
  have first : list.first = some address := represents.first
  have distinct := (List.nodup_cons.mp represents.distinct).2
  cases cells with
  | nil =>
    -- It was the only one.
    have single : list.first = list.last := by
      rw [first, represents.last]
      rfl
    have removed : list.removeFront =
        some (item, ⟨list.heap.erase address, none, none, list.numInList - 1⟩) := by
      rw [removeFront, if_neg filled]
      simp only [if_pos single]
      rw [first, here]
      rfl
    exact ⟨_, removed, later, distinct, rfl, rfl, count⟩
  -- There are others, and the next one becomes the first.
  | cons next rest =>
    have last : list.last = (next :: rest).getLast?.map Prod.fst := by
      rw [represents.last, List.getLast?_cons_cons]
    have several : list.first ≠ list.last := by
      rw [first, last]
      exact ne_last apart
    have removed : list.removeFront =
        some (item, ⟨list.heap.erase address, some next.1, list.last, list.numInList - 1⟩) := by
      rw [removeFront, if_neg filled]
      simp only [if_neg several]
      rw [first, here]
      rfl
    exact ⟨_, removed, later, distinct, rfl, last, count⟩

/-- The element behind another one is unlinked, freed and no longer counted. -/
theorem unlink_represents {front back : List (Nat × Item)} {prev address : Nat}
    {before item : Item}
    (represents : list.Represents (front ++ (prev, before) :: (address, item) :: back)) :
    Represents ⟨(list.heap.insert prev ⟨before, entry none back⟩).erase address, list.first,
      if entry none back = none then some prev else list.last, list.numInList - 1⟩
      (front ++ (prev, before) :: back) := by
  -- The elements on both sides are other ones.
  obtain ⟨first, second, distinct⟩ := represents.shift.apart
  obtain ⟨earlier, later, -⟩ := represents.apart
  obtain ⟨chain, -, rest⟩ := chain_append.mp represents.shift.chain
  have notLater : prev ∉ addresses back := fun member => later (List.mem_cons_of_mem _ member)
  refine ⟨?_, ?_, ?_, ?_, ?_⟩
  · -- What is in front leads on to what is behind.
    have linked := chain_append.mpr ⟨(chain.relink earlier (entry none back)).erase first,
      (rest.insert notLater ⟨before, entry none back⟩).erase second⟩
    simpa using linked
  · -- The addresses are those that are left.
    simpa using distinct
  · rw [represents.first, entry_append, entry_append]
    rfl
  · -- The element may have been the last one.
    cases back with
    | nil => simp
    | cons next rest =>
      simp only [entry_cons, reduceCtorEq, if_false]
      rw [represents.last]
      simp [List.getLast?_cons]
  · -- One less is counted.
    simp only [represents.count, List.length_append, List.length_cons]
    omega

section Calls

variable [DecidableEq Item]

/-- The search goes along the chain to its end, or to the item. -/
theorem findLoop_chain (item : Item) {turns : Nat} (chain : Chain list.heap none cells)
    (enough : cells.length ≤ turns) :
    list.findLoop item turns (entry none cells) = some (decide (item ∈ items cells)) := by
  induction cells generalizing turns with
  | nil => simp [findLoop]
  | cons cell rest ih =>
    obtain ⟨address, other⟩ := cell
    -- Every element takes a turn, so there are turns left at each of them.
    cases turns with
    | zero => simp at enough
    | succ turns =>
      have later := ih chain.2 (by simpa using enough)
      have here := deref_chain chain
      -- The search ends here, or goes on with the rest of the chain.
      by_cases same : item = other
      · simp [findLoop, here, same]
      · simp [findLoop, here, same, later]

/-- The search in a list that is in order. -/
theorem Represents.isInList_eq (represents : list.Represents cells) (item : Item) :
    list.isInList item = some (decide (item ∈ items cells)) := by
  rw [isInList, represents.first]
  exact findLoop_chain item represents.chain (represents.chain.length_le represents.distinct)

/-- An insertion ends with a list that has the item. -/
theorem counted_eq (item : Item)
    (represents : Represents { list with numInList := list.numInList + 1 } cells)
    (member : item ∈ items cells) :
    list.counted item = some { list with numInList := list.numInList + 1 } := by
  simp [counted, represents.isInList_eq item, member]

/-- `Append` always succeeds, and puts the item at the end. -/
theorem append_represents {element : Nat} (item : Item) (represents : list.Represents cells)
    (unused : element ∉ list.heap) :
    ∃ after, list.append element item = some after ∧
      after.Represents (cells ++ [(element, item)]) := by
  -- The insertion differs between an empty list and one that has a last element.
  by_cases empty : cells = []
  · subst empty
    have only := putOnly_represents element item represents
    have filled : (list.allocate element item).IsEmpty := represents.isEmpty_iff.mpr rfl
    exact ⟨_, by rw [append, if_pos filled]; exact counted_eq item only (by simp), only⟩
  · obtain ⟨after, put, there⟩ := putLast_represents item represents unused empty
    have filled : ¬ (list.allocate element item).IsEmpty := mt represents.isEmpty_iff.mp empty
    refine ⟨_, ?_, there⟩
    rw [append, if_neg filled, put]
    exact counted_eq item there (by simp)

/-- `Prepend` puts the item at the front, if it is not in the list. -/
theorem prepend_represents {element : Nat} {item : Item} (represents : list.Represents cells)
    (unused : element ∉ list.heap) (absent : item ∉ items cells) :
    ∃ after, list.prepend element item = some after ∧
      after.Represents ((element, item) :: cells) := by
  -- The search does not see the new element, which is not linked yet.
  have search := (represents.allocate unused item).isInList_eq item
  rw [decide_eq_false absent] at search
  by_cases empty : cells = []
  · subst empty
    have only := putOnly_represents element item represents
    have filled : (list.allocate element item).IsEmpty := represents.isEmpty_iff.mpr rfl
    -- The empty list takes it as its only element.
    refine ⟨_, ?_, only⟩
    simp only [prepend, search, if_pos filled]
    exact counted_eq item only (by simp)
  · -- Otherwise the first element is put behind it.
    obtain ⟨after, put, there⟩ := putFirst_represents item represents unused empty
    have filled : ¬ (list.allocate element item).IsEmpty := mt represents.isEmpty_iff.mp empty
    refine ⟨_, ?_, there⟩
    simp only [prepend, search, if_neg filled, put]
    exact counted_eq item there (by simp)

/-- `Prepend` fails its assertion if the item is in the list. -/
theorem prepend_present {element : Nat} {item : Item} (represents : list.Represents cells)
    (unused : element ∉ list.heap) (present : item ∈ items cells) :
    list.prepend element item = none := by
  -- The search does not see the new element, which is not linked yet.
  have search := (represents.allocate unused item).isInList_eq item
  rw [decide_eq_true present] at search
  simp [prepend, search]

/-- The loop of `Remove` takes off the first element that has the item. -/
theorem removeLoop_represents {item : Item} {middle : List (Nat × Item)} :
    ∀ {front back : List (Nat × Item)} {prev address : Nat} {before : Item} {turns : Nat},
      list.Represents (front ++ (prev, before) :: (middle ++ (address, item) :: back)) →
      item ∉ items middle → middle.length < turns →
      ∃ after, list.removeLoop item turns (some prev)
          (entry none (middle ++ (address, item) :: back)) = some after ∧
        after.Represents (front ++ (prev, before) :: (middle ++ back)) := by
  -- The induction is on the elements that the loop passes before it finds the item.
  induction middle with
  -- The item is in the element that follows.
  | nil =>
    intro front back prev address before turns represents _ enough
    obtain ⟨turns, rfl⟩ := Nat.exists_eq_succ_of_ne_zero (Nat.ne_of_gt enough)
    -- What the loop reads is in the chain.
    have linked := (chain_append.mp represents.chain).2
    have here := deref_chain linked.2
    have written := setNext_chain linked (entry none back)
    -- The next pointer that was written is read back.
    have read : LinkedList.deref { list with
        heap := list.heap.insert prev ⟨before, entry none back⟩ } (some prev) =
          some (prev, ⟨before, entry none back⟩) := by
      simp [deref, AList.lookup_insert]
    refine ⟨_, ?_, unlink_represents represents⟩
    simp only [List.nil_append, entry_cons, removeLoop, here, Option.bind_eq_bind,
      Option.bind_some, if_true, written, read]
    split <;> rfl
  | cons cell middle ih =>
    intro front back prev address before turns represents absent enough
    obtain ⟨other, held⟩ := cell
    obtain ⟨turns, rfl⟩ := Nat.exists_eq_succ_of_ne_zero (Nat.ne_of_gt (Nat.zero_lt_of_lt enough))
    -- The item is further behind.
    have here : list.deref (some other) =
        some (other, ⟨held, entry none (middle ++ (address, item) :: back)⟩) :=
      deref_chain (chain_append.mp represents.chain).2.2
    -- The element here is another one, and becomes the previous one of the next turn.
    have different : item ≠ held := fun same => absent (same ▸ List.mem_cons_self)
    have others : item ∉ items middle := fun member => absent (List.mem_cons_of_mem _ member)
    obtain ⟨after, looped, there⟩ := ih represents.shift others (Nat.lt_of_succ_lt_succ enough)
    refine ⟨after, ?_, by simpa using there⟩
    -- One turn goes over the element.
    simp only [List.cons_append, entry_cons, removeLoop]
    simp only [here, Option.bind_eq_bind, Option.bind_some, if_neg different, looped]

/-- `Remove` takes off the first element that has the item, which must not be there again. -/
theorem remove_represents {item : Item} {front back : List (Nat × Item)} {address : Nat}
    (represents : list.Represents (front ++ (address, item) :: back))
    (absent : item ∉ items front) :
    ∃ after, after.Represents (front ++ back) ∧
      list.remove item = if item ∈ items back then none else some after := by
  have found := represents.isInList_eq item
  rw [decide_eq_true (by simp)] at found
  -- The heap has room for as many turns as there are elements.
  have enough := represents.chain.length_le represents.distinct
  -- What is left is searched once more.
  have search : ∀ after : LinkedList Item, after.Represents (front ++ back) →
      after.isInList item = some (decide (item ∈ items back)) := by
    intro after there
    rw [there.isInList_eq item, items, List.map_append]
    simp [absent]
  -- The item is that of the first element, or the loop finds it behind that.
  cases front with
  | nil =>
    -- The first element is taken off, and then the item is searched for again.
    obtain ⟨after, removed, there⟩ := removeFront_represents represents
    have here := deref_chain represents.chain
    have first : list.first = some address := represents.first
    refine ⟨after, there, ?_⟩
    simp only [remove, found, first, here, removed, search after there, Option.bind_eq_bind,
      Option.bind_some, if_true]
    by_cases again : item ∈ items back <;> simp [again]
  | cons cell middle =>
    obtain ⟨head, held⟩ := cell
    have different : item ≠ held := fun same => absent (same ▸ List.mem_cons_self)
    -- The item is not in the first element.
    have here : list.deref (some head) =
        some (head, ⟨held, entry none (middle ++ (address, item) :: back)⟩) :=
      deref_chain represents.chain
    have first : list.first = some head := represents.first
    have others : item ∉ items middle := fun member => absent (List.mem_cons_of_mem _ member)
    -- The loop has a turn for each element in between.
    have turns : middle.length < list.heap.keys.length := by
      simp only [List.length_append, List.length_cons] at enough
      omega
    obtain ⟨after, looped, there⟩ :=
      @removeLoop_represents _ list _ item middle [] back _ _ _ _ represents others turns
    refine ⟨after, there, ?_⟩
    simp only [remove, found, first, here, if_neg different, looped, search after there,
      Option.bind_eq_bind, Option.bind_some, if_true]
    by_cases again : item ∈ items back <;> simp [again]

end Calls

/-- What is met on the way from a pointer along the next pointers, until there is none. -/
def walk (list : LinkedList Item) : Nat → Option Nat → Option (List (Nat × Item))
  | _, none => some []
  | 0, some _ => none
  | turns + 1, ptr => do
    let (address, element) ← list.deref ptr
    let rest ← list.walk turns element.next
    return (address, element.item) :: rest

/-- A walk meets the elements of a chain. -/
theorem walk_chain (chain : Chain list.heap none cells) :
    list.walk cells.length (entry none cells) = some cells := by
  -- The walk follows the chain element by element.
  induction cells with
  | nil => rfl
  | cons cell rest ih =>
    have here := deref_chain chain
    simp [walk, here, ih chain.2]

/--
The list holds the sequence.

The walk from the first element along the next pointers meets its items, ends at the last element
after so many of them, and finds no next pointer there.
-/
structure Holds (list : LinkedList Item) (seq : List Item) : Prop where
  count : list.numInList = seq.length
  meets : (list.walk seq.length list.first).map items = some seq
  reaches : (list.walk seq.length list.first).map (fun cells => cells.getLast?.map Prod.fst) =
    some list.last
  ends : ∀ address, list.last = some address →
    (list.deref list.last).map (fun found => found.2.next) = some none
  empty : seq = [] → list.first = none ∧ list.last = none

/-- A list that represents elements holds their items. -/
theorem Represents.holds (represents : list.Represents cells) : list.Holds (items cells) := by
  -- The walk from the first element passes through all of them.
  have walked : list.walk (items cells).length list.first = some cells := by
    rw [represents.first, items, List.length_map]
    exact walk_chain represents.chain
  refine ⟨?_, ?_, ?_, fun address last => ?_, fun empty => ?_⟩
  · -- The count is that of the items.
    rw [represents.count, items, List.length_map]
  · rw [walked]
    rfl
  · -- The walk ends at the last element.
    rw [walked, represents.last]
    rfl
  · -- The last element of a chain leads to where the chain stops.
    have final := represents.last.symm.trans last
    obtain ⟨cell, isLast, rfl⟩ := Option.map_eq_some_iff.mp final
    obtain ⟨front, rfl⟩ := List.getLast?_eq_some_iff.mp isLast
    have here := deref_chain (chain_append.mp represents.chain).2
    rw [last, here]
    rfl
  · -- An empty list has no first element and no last one.
    have none : cells = [] := List.map_eq_nil_iff.mp empty
    subst none
    exact ⟨represents.first, represents.last⟩

/-- `SanityCheck` goes from the first element to the last one. -/
theorem sanityLoop_chain (chain : Chain list.heap none cells) (distinct : (addresses cells).Nodup)
    (last : list.last = cells.getLast?.map Prod.fst) {turns : Nat}
    (exactly : cells.length = turns + 1) :
    list.sanityLoop turns (entry none cells) = some 0 := by
  -- By induction on the elements, with the turns that are left.
  induction cells generalizing turns with
  | nil => simp at exactly
  | cons cell rest ih =>
    -- The last element is reached with no turn left, and none before it is the last one.
    cases turns with
    | zero =>
      have single : rest = [] := List.length_eq_zero_iff.mp (by simpa using exactly)
      subst single
      simp [sanityLoop, last]
    -- This is not the last element, and the loop goes on.
    | succ turns =>
      obtain ⟨next, more, rfl⟩ : ∃ next more, rest = next :: more :=
        List.exists_cons_of_ne_nil fun none => by simp [none] at exactly
      rw [List.getLast?_cons_cons] at last
      have here := deref_chain chain
      have several : (some cell.1 : Option Nat) ≠ list.last := by
        rw [last]
        exact ne_last (List.nodup_cons.mp distinct).1
      have later := ih chain.2 (List.nodup_cons.mp distinct).2 last (by simpa using exactly)
      rw [sanityLoop, entry_cons, if_neg several, here]
      exact later

/-- A list that represents elements passes its sanity check. -/
theorem Represents.sane (represents : list.Represents cells) : list.sanityCheck = true := by
  have first := represents.first
  have count := represents.count
  -- The three branches are those of an empty list, of one element, and of more.
  cases cells with
  -- Both ends are null, and the count is zero.
  | nil =>
    have last : list.last = none := represents.last
    simp [sanityCheck, first, last, count]
  | cons cell rest =>
    -- The last element leads nowhere.
    have ends : (list.deref list.last).any (fun found => found.2.next = none) = true := by
      have last := represents.last
      rw [List.getLast?_cons, Option.map_some] at last
      obtain ⟨found, there, stops⟩ := Option.map_eq_some_iff.mp (represents.holds.ends _ last)
      simp [there, stops]
    have filled : list.first ≠ none := by simp [first]
    rw [sanityCheck, if_neg filled]
    cases rest with
    | nil =>
      have single : list.first = list.last := by
        rw [first, represents.last]
        rfl
      simpa [single, count] using ends
    -- The loop passes all but one of the elements.
    | cons next more =>
      have several : list.first ≠ list.last := by
        rw [first, represents.last, List.getLast?_cons_cons]
        exact ne_last (List.nodup_cons.mp represents.distinct).1
      have turns : list.numInList.toNat - 1 = (next :: more).length := by
        rw [count, List.length_cons]
        omega
      have looped : list.sanityLoop (next :: more).length (entry none (cell :: next :: more)) =
          some 0 :=
        sanityLoop_chain represents.chain represents.distinct represents.last rfl
      rw [← first] at looped
      rw [if_neg several, turns, looped, ends]
      rfl

end LinkedList

/-- The element that has an item for the first time. -/
theorem LinkedList.exists_first {Item : Type} {item : Item} {cells : List (Nat × Item)}
    (member : item ∈ items cells) : ∃ front address back,
      cells = front ++ (address, item) :: back ∧ item ∉ items front := by
  induction cells with
  | nil => simp at member
  | cons cell rest ih =>
    obtain ⟨address, held⟩ := cell
    -- Either this element has the item, or the first one in the rest.
    by_cases same : item = held
    · subst same
      exact ⟨[], address, rest, rfl, by simp⟩
    · obtain ⟨front, later, back, rfl, absent⟩ := ih ((List.mem_cons.mp member).resolve_left same)
      exact ⟨(address, held) :: front, later, back, rfl, by simpa [same] using absent⟩

/-- An item is there once if it is not behind the first element that has it. -/
theorem LinkedList.count_first {Item : Type} [DecidableEq Item] {item : Item} {address : Nat}
    {front back : List (Nat × Item)} (absent : item ∉ items front) :
    (items (front ++ (address, item) :: back)).count item = 1 ↔ item ∉ items back := by
  rw [items, List.map_append, List.map_cons, List.count_append, List.count_cons_self,
    List.count_eq_zero_of_not_mem absent, Nat.zero_add, Nat.add_eq_right, List.count_eq_zero]

/-- What the calls of a list are for: the sequence that they leave, where they are allowed. -/
def Sequence.step {Item : Type} [DecidableEq Item] (seq : List Item) :
    ListEvent Item → Option (List Item)
  | .append _ item => some (seq ++ [item])
  | .prepend _ item => if item ∈ seq then none else some (item :: seq)
  | .removeFront => if seq = [] then none else some seq.tail
  | .remove item => if seq.count item = 1 then some (seq.erase item) else none

/-- `new` puts an element where there is none. -/
def LinkedList.Fresh {Item : Type} (list : LinkedList Item) : ListEvent Item → Prop
  | .append element _ | .prepend element _ => element ∉ list.heap
  | .removeFront | .remove _ => True

instance {Item : Type} (list : LinkedList Item) : ∀ event, Decidable (list.Fresh event)
  | .append element _ | .prepend element _ => inferInstanceAs (Decidable (element ∉ list.heap))
  | .removeFront | .remove _ => .isTrue trivial

/-- One call of a list does to its elements what it does to the sequence. -/
theorem LinkedList.step_simulates {Item : Type} [DecidableEq Item] (list : LinkedList Item)
    (seq : List Item) (event : ListEvent Item) (next : List Item)
    (related : ∃ cells, list.Represents cells ∧ items cells = seq) (fresh : list.Fresh event)
    (specified : Sequence.step seq event = some next) :
    ∃ after, list.step event = some after ∧
      ∃ cells, after.Represents cells ∧ items cells = next := by
  obtain ⟨cells, represents, rfl⟩ := related
  cases event with
  -- Appending always goes through.
  | append element item =>
    cases specified
    obtain ⟨after, stepped, there⟩ := append_represents item represents fresh
    exact ⟨after, stepped, _, there, by simp⟩
  -- Prepending asserts that the item is not there.
  | prepend element item =>
    simp only [Sequence.step] at specified
    split at specified
    · cases specified
    · rename_i absent
      cases specified
      obtain ⟨after, stepped, there⟩ := prepend_represents represents fresh absent
      exact ⟨after, stepped, _, there, rfl⟩
  -- Removing the front asserts that the list is not empty.
  | removeFront =>
    simp only [Sequence.step] at specified
    cases cells with
    | nil => cases specified
    | cons cell rest =>
      cases specified
      obtain ⟨after, stepped, there⟩ := removeFront_represents represents
      exact ⟨after, by rw [step, stepped]; rfl, rest, there, rfl⟩
  -- Removing an item asserts that it is there, and afterwards that it is not.
  | remove item =>
    simp only [Sequence.step] at specified
    split at specified
    · rename_i once
      cases specified
      -- The only element with the item, and what is in front of it and behind it.
      have member : item ∈ items cells := List.count_pos_iff.mp (by omega)
      obtain ⟨front, address, back, rfl, before⟩ := exists_first member
      have behind := (count_first before).mp once
      obtain ⟨after, there, stepped⟩ := remove_represents represents before
      refine ⟨after, by rw [step, stepped, if_neg behind], _, there, ?_⟩
      simp [List.erase_append_right _ before]
    · cases specified

/--
A linked list represents a sequence.

Whatever allowed calls are made on an empty list, in any order, and wherever the elements are put,
no assertion fails, and the list holds the sequence that the calls leave.
-/
theorem linkedList_isSequence {Item : Type} [DecidableEq Item] (heap : Linked.Heap Item)
    (events : List (ListEvent Item)) (seq : List Item)
    (allowed : replay Sequence.step [] events = some seq)
    (fresh : EveryStep LinkedList.step LinkedList.Fresh (.new heap) events) :
    ∃ list, replay LinkedList.step (.new heap) events = some list ∧ list.Holds seq ∧
      list.sanityCheck = true := by
  obtain ⟨list, ran, cells, represents, rfl⟩ := replay_simulates LinkedList.step_simulates
    ⟨[], LinkedList.represents_new heap, rfl⟩ fresh allowed
  exact ⟨list, ran, represents.holds, represents.sane⟩

/-- An element in front, others at both ends, one in the middle gone, and its address used again. -/
theorem linkedList_isSequence_again : ∃ list : LinkedList Nat,
    replay LinkedList.step (.new ∅) [.append 1 10, .prepend 2 20, .append 3 30, .remove 10,
      .append 1 30, .removeFront] = some list ∧ list.Holds [30, 30] ∧ list.sanityCheck = true :=
  linkedList_isSequence ∅ _ _ (by decide) (by decide)

/-- Is an item inserted? -/
def ListEvent.Inserts {Item : Type} : ListEvent Item → Prop
  | .append _ _ | .prepend _ _ => True
  | .removeFront | .remove _ => False

instance {Item : Type} : ∀ event : ListEvent Item, Decidable event.Inserts
  | .append _ _ | .prepend _ _ => .isTrue trivial
  | .removeFront | .remove _ => .isFalse id

/-- An insertion fails no assertion exactly if it is allowed, and then does what it should. -/
theorem LinkedList.inserts_related {Item : Type} [DecidableEq Item] (list : LinkedList Item)
    (seq : List Item) (event other : ListEvent Item)
    (related : ∃ cells, list.Represents cells ∧ items cells = seq)
    (alike : event = other ∧ event.Inserts) (fresh : list.Fresh event) :
    Option.Rel (fun list seq => ∃ cells, list.Represents cells ∧ items cells = seq)
      (list.step event) (Sequence.step seq other) := by
  obtain ⟨rfl, inserts⟩ := alike
  -- What the sequence allows is done, and what it does not allow fails an assertion.
  cases specified : Sequence.step seq event with
  | some next =>
    obtain ⟨after, stepped, there⟩ := step_simulates list seq event next related fresh specified
    rw [stepped]
    exact .some there
  | none =>
    -- The insertion is refused: the item is there already.
    obtain ⟨cells, represents, rfl⟩ := related
    cases event with
    | append element item => cases specified
    | prepend element item =>
      have present : item ∈ items cells := by simpa [Sequence.step] using specified
      rw [step, prepend_present represents fresh present]
      exact .none
    -- Removals are no insertions.
    | removeFront => exact inserts.elim
    | remove item => exact inserts.elim

/--
`Remove` copes with an item exactly if the list has it once.

On every list that insertions have built, and for every item there: exactly then the call fails no
assertion, takes out one occurrence, and keeps the other items in order. An item that is there again
fails the assertion at its end.
-/
theorem remove_takesOut_iff {Item : Type} [DecidableEq Item] (heap : Linked.Heap Item)
    (events : List (ListEvent Item)) (list : LinkedList Item)
    (inserts : ∀ event ∈ events, event.Inserts)
    (fresh : EveryStep LinkedList.step LinkedList.Fresh (.new heap) events)
    (built : replay LinkedList.step (.new heap) events = some list) :
    ∃ seq, replay Sequence.step [] events = some seq ∧ list.Holds seq ∧ ∀ item ∈ seq,
      (∃ after front back, list.remove item = some after ∧ seq = front ++ item :: back ∧
        after.Holds (front ++ back)) ↔ seq.count item = 1 := by
  have matched : List.Forall₂ (fun event other => event = other ∧ event.Inserts) events events :=
    List.forall₂_same.mpr fun event member => ⟨rfl, inserts event member⟩
  -- The list starts empty.
  have empty : ∃ cells, (LinkedList.new heap).Represents cells ∧ LinkedList.items cells = [] :=
    ⟨[], LinkedList.represents_new heap, rfl⟩
  -- It goes along with the sequence through all insertions.
  have followed := replay_related LinkedList.inserts_related matched empty fresh
  rw [built] at followed
  generalize left : replay Sequence.step [] events = result at followed
  cases followed with
  | some related =>
    obtain ⟨cells, represents, rfl⟩ := related
    refine ⟨_, rfl, represents.holds, fun item member => ?_⟩
    -- The first element that has the item is the one that the call takes off.
    obtain ⟨front, address, back, rfl, before⟩ := LinkedList.exists_first member
    obtain ⟨after, there, removed⟩ := LinkedList.remove_represents represents before
    rw [removed, LinkedList.count_first before]
    -- If the call returns, the item was not there again.
    constructor
    · intro ⟨_, _, _, succeeded, _⟩ again
      rw [if_pos again] at succeeded
      cases succeeded
    · -- If the item is there once, the call takes it out.
      intro once
      refine ⟨after, LinkedList.items front, LinkedList.items back, if_neg once, ?_, ?_⟩
      · simp
      · simpa using there.holds

/-- An item that is there twice stays, and the other one can be removed. -/
theorem remove_takesOut_other : ∃ list,
    replay LinkedList.step (.new ∅) [.append 1 5, .append 2 5, .prepend 3 7] = some list ∧
      list.Holds [7, 5, 5] ∧ ∀ item ∈ [7, 5, 5],
        (∃ after front back, list.remove item = some after ∧ [7, 5, 5] = front ++ item :: back ∧
          after.Holds (front ++ back)) ↔ [7, 5, 5].count item = 1 := by
  obtain ⟨list, built⟩ : ∃ list, replay LinkedList.step (.new ∅)
    [.append 1 5, .append 2 5, .prepend 3 7] = some list := ⟨_, rfl⟩
  obtain ⟨seq, left, found⟩ := remove_takesOut_iff ∅ _ list (by decide) (by decide) built
  cases left
  exact ⟨list, built, found⟩

/-- Two elements have the same item, and the assertion at the end of `Remove` fails. -/
theorem remove_failsAgain : ∃ list : LinkedList Nat,
    EveryStep LinkedList.step LinkedList.Fresh (.new ∅) [.append 1 5, .append 2 5] ∧
      replay LinkedList.step (.new ∅) [.append 1 5, .append 2 5] = some list ∧
      list.isInList 5 = some true ∧ list.remove 5 = none :=
  ⟨_, by decide, rfl, rfl, rfl⟩

end Nachos
