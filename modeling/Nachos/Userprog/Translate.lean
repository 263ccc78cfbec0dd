import Nachos.Machine.Translate

/-! The translation of addresses that an address space offers itself. -/

namespace Nachos

/-- Number of pages that an address space can have, according to `AddrSpace::Translate`. -/
abbrev numVirtualPages : Nat := 1024

/-- `AddrSpace::Translate`: the exception or the physical address, and the space with its bits set. -/
def AddrSpace.translate (space : AddrSpace) (vaddr : Word) (isReadWrite : Bool) :
    Option (Except ExceptionType Word × AddrSpace) :=
  let vpn := vaddr.toNat / pageSize
  let offset := vaddr.toNat % pageSize
  if vpn ≥ numVirtualPages then some (.error .addressErrorException, space)
  -- The page table is indexed without a look at its length, and without a look at the valid bit.
  else if vpn ≥ space.numPages then none
  else
    let pte := space.pageTable vpn
    if isReadWrite && pte.readOnly then some (.error .readOnlyException, space)
    else
      let pfn := pte.physicalPage
      -- The frame is compared as an int, so a negative one passes.
      if pfn ≥ numPhysPages then some (.error .busErrorException, space)
      else
        let space := space.setEntry vpn { pte with use := true, dirty := pte.dirty || isReadWrite }
        let paddr := BitVec.ofInt 32 (pfn * pageSize + offset)
        if paddr.toNat < physicalMemorySize then some (.ok paddr, space) else none

end Nachos
