import Mathlib.Data.List.AList
import Mathlib.Data.List.Perm.Subperm

/-! Nodes on a heap that are linked by their next pointers, and the sequences that they hold. -/

namespace Nachos

namespace Linked

variable {Item : Type}

/-- A node: an item, and the address of the next node, nothing standing for a null pointer. -/
structure Node (Item : Type) where
  item : Item
  next : Option Nat

/-- The nodes that are allocated, by their addresses. -/
abbrev Heap (Item : Type) : Type := AList fun _ : Nat => Node Item

/-- Where a chain of nodes starts that leads on to a pointer. -/
def entry (stop : Option Nat) : List (Nat × Item) → Option Nat
  | [] => stop
  | (address, _) :: _ => some address

@[simp] theorem entry_nil (stop : Option Nat) : entry stop ([] : List (Nat × Item)) = stop := rfl

@[simp] theorem entry_cons (stop : Option Nat) (cell : Nat × Item) (rest : List (Nat × Item)) :
    entry stop (cell :: rest) = some cell.1 := rfl

/-- The nodes are on the heap, at these addresses and with these items, each linked to the next. -/
def Chain (heap : Heap Item) (stop : Option Nat) : List (Nat × Item) → Prop
  | [] => True
  | (address, item) :: rest =>
    heap.lookup address = some ⟨item, entry stop rest⟩ ∧ Chain heap stop rest

/-- A chain starts where its first part does. -/
theorem entry_append (stop : Option Nat) (front back : List (Nat × Item)) :
    entry stop (front ++ back) = entry (entry stop back) front := by
  cases front <;> rfl

/-- A chain is a first part that leads on to a second one. -/
theorem chain_append {heap : Heap Item} {stop : Option Nat} {front back : List (Nat × Item)} :
    Chain heap stop (front ++ back) ↔
      Chain heap (entry stop back) front ∧ Chain heap stop back := by
  induction front with
  | nil => simp [Chain]
  | cons cell front ih => simp [Chain, entry_append, ih, and_assoc]

/-- Only the nodes of a chain matter to it. -/
theorem Chain.congr {heap other : Heap Item} {stop : Option Nat} {cells : List (Nat × Item)}
    (chain : Chain heap stop cells)
    (same : ∀ cell ∈ cells, other.lookup cell.1 = heap.lookup cell.1) :
    Chain other stop cells := by
  -- Each node is read at its own address, and leads on to the rest.
  induction cells with
  | nil => trivial
  | cons cell rest ih =>
    refine ⟨?_, ih chain.2 fun later member => same later (List.mem_cons_of_mem _ member)⟩
    rw [same cell List.mem_cons_self]
    exact chain.1

/-- A node elsewhere can be written. -/
theorem Chain.insert {heap : Heap Item} {stop : Option Nat} {cells : List (Nat × Item)}
    (chain : Chain heap stop cells) {address : Nat} (apart : address ∉ cells.map Prod.fst)
    (node : Node Item) : Chain (heap.insert address node) stop cells := by
  apply chain.congr
  intro cell member
  exact AList.lookup_insert_ne fun same => apart (same ▸ List.mem_map_of_mem member)

/-- A node elsewhere can be freed. -/
theorem Chain.erase {heap : Heap Item} {stop : Option Nat} {cells : List (Nat × Item)}
    (chain : Chain heap stop cells) {address : Nat} (apart : address ∉ cells.map Prod.fst) :
    Chain (heap.erase address) stop cells := by
  apply chain.congr
  intro cell member
  exact AList.lookup_erase_ne fun same => apart (same ▸ List.mem_map_of_mem member)

/-- The nodes of a chain are allocated. -/
theorem Chain.allocated {heap : Heap Item} {stop : Option Nat} {cells : List (Nat × Item)}
    (chain : Chain heap stop cells) : ∀ address ∈ cells.map Prod.fst, address ∈ heap := by
  induction cells with
  | nil => simp
  | cons cell rest ih =>
    intro address member
    rcases List.mem_cons.mp member with rfl | later
    · rw [← AList.lookup_isSome, chain.1]
      rfl
    · exact ih chain.2 address later

/-- The last node of a chain can be linked to somewhere else. -/
theorem Chain.relink {heap : Heap Item} {stop : Option Nat} {front : List (Nat × Item)}
    {address : Nat} {item : Item} (chain : Chain heap stop (front ++ [(address, item)]))
    (apart : address ∉ front.map Prod.fst) (other : Option Nat) :
    Chain (heap.insert address ⟨item, other⟩) other (front ++ [(address, item)]) := by
  -- What leads to the last node is elsewhere, and the last node is written.
  obtain ⟨before, -⟩ := chain_append.mp chain
  exact chain_append.mpr ⟨before.insert apart _, AList.lookup_insert heap, trivial⟩

/-- A chain of different nodes is no longer than the heap. -/
theorem Chain.length_le {heap : Heap Item} {stop : Option Nat} {cells : List (Nat × Item)}
    (chain : Chain heap stop cells) (distinct : (cells.map Prod.fst).Nodup) :
    cells.length ≤ heap.keys.length := by
  have mapped : (cells.map Prod.fst).length = cells.length := List.length_map Prod.fst
  rw [← mapped]
  exact (List.subperm_of_subset distinct chain.allocated).length_le

end Linked

end Nachos
