import Mathlib.Algebra.Group.Nat.Defs
import Mathlib.Logic.Function.Basic

/-! The translation lookaside buffer: four sets of four entries. -/

namespace Nachos

/-- Number of bytes in a page, and in a page frame. -/
abbrev pageSize : Nat := 128

/-- Number of page frames in the simulated machine. -/
abbrev numPhysPages : Nat := 128

/-- Number of bytes of simulated memory. -/
abbrev physicalMemorySize : Nat := numPhysPages * pageSize

/-- One entry of the TLB. Only `valid` and `threadId` are set by the constructor. -/
structure TLBEntry where
  tag : Nat
  ppn : Int
  valid : Bool
  threadId : Int
  lru : Nat
  deriving DecidableEq

/-- The TLB: four sets, each of four entries. -/
abbrev TLB : Type := Fin 4 → Fin 4 → TLBEntry

namespace TLB

/-- The constructor: nothing is valid, and the rest of each entry is left as it was. -/
def new (uninitialised : TLB) : TLB :=
  fun i j => { uninitialised i j with valid := false, threadId := -1 }

/-- The set that a virtual page number selects. -/
def index (vpn : Nat) : Fin 4 := ⟨vpn &&& 0x3, Nat.and_lt_two_pow vpn (by decide : 3 < 2 ^ 2)⟩

/-- The tag that a virtual page number has within its set. -/
def tagOf (vpn : Nat) : Nat := (vpn >>> 2) &&& 0x3FFFFFFF

/-- The first entry that maps the page, looking at its set and tag only. -/
def hit (tlb : TLB) (vpn : Nat) : Option (Fin 4) :=
  (List.finRange 4).find? fun i =>
    (tlb (index vpn) i).valid && (tlb (index vpn) i).tag == tagOf vpn

/-- Replace one entry. -/
def put (tlb : TLB) (set way : Fin 4) (entry : TLBEntry) : TLB :=
  Function.update tlb set (Function.update (tlb set) way entry)

/-- `TLBManager::translate`: the physical address, or -1 when no entry maps the page. -/
def translate (tlb : TLB) (virtAddr : Nat) : Int × TLB :=
  let vpn := virtAddr / pageSize
  let offset := virtAddr % pageSize
  match tlb.hit vpn with
  | some i =>
    let entry := tlb (index vpn) i
    (entry.ppn * pageSize + offset, tlb.put (index vpn) i { entry with lru := 0 })
  | none => (-1, tlb)

/--
The loop of `update` over one set, from the entry chosen so far.

It ages the valid entries it passes and stops at the first one that is not valid.
-/
def ageFrom (set : Fin 4 → TLBEntry) : Fin 4 → List (Fin 4) → (Fin 4 → TLBEntry) × Fin 4
  | chosen, [] => (set, chosen)
  | chosen, i :: rest =>
    if (set i).valid then
      -- The age is an unsigned int, so it wraps.
      let set := Function.update set i { set i with lru := ((set i).lru + 1) % 2 ^ 32 }
      if (set i).lru > (set chosen).lru then ageFrom set i rest else ageFrom set chosen rest
    else (set, i)

/-- `TLBManager::update`: install a translation for the current thread. -/
def update (tlb : TLB) (virtAddr : Nat) (pageFrame : Int) (currentPid : Int) : TLB :=
  let vpn := virtAddr / pageSize
  let (set, chosen) := ageFrom (tlb (index vpn)) 0 (List.finRange 4)
  Function.update tlb (index vpn) (Function.update set chosen
    { tag := tagOf vpn, ppn := pageFrame, valid := true, threadId := currentPid, lru := 0 })

/-- The entry that the loop of `update` chooses in a set. -/
def replaced (set : Fin 4 → TLBEntry) : Fin 4 := (ageFrom set 0 (List.finRange 4)).2

/-- `TLBManager::invalidEntry`: drop what maps this page of this thread. -/
def invalidEntry (tlb : TLB) (threadId : Int) (vpn : Nat) : TLB :=
  Function.update tlb (index vpn) fun i =>
    let entry := tlb (index vpn) i
    if entry.valid && entry.tag == tagOf vpn && entry.threadId == threadId then
      { entry with valid := false }
    else entry

end TLB

end Nachos
