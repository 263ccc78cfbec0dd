import Nachos.Proofs.Vm.TlbRuns

/-! What the TLB is a shortcut for: the decisions that are taken as if the page table was walked. -/

namespace Nachos

namespace VmKernel

variable {kernel : VmKernel} {virtAddr : Word} {size : Nat} {writing : Bool}

/-- `Machine::Translate` with the look into the TLB left out. -/
def translateWithoutTlb (kernel : VmKernel) (virtAddr : Word) (size : Nat) (writing : Bool) :
    Option (Except ExceptionType Int × VmKernel) :=
  if misaligned virtAddr size then some (.error .addressErrorException, kernel)
  else kernel.walk virtAddr size writing

/-- Each valid entry that an address can match names the frame that the current page table gives. -/
def TlbAgrees (kernel : VmKernel) : Prop :=
  ∀ (virtAddr : Word) (way : Fin 4),
    (kernel.tlb (TLB.index (virtAddr.toNat / pageSize)) way).valid = true →
    (kernel.tlb (TLB.index (virtAddr.toNat / pageSize)) way).tag =
      TLB.tagOf (virtAddr.toNat / pageSize) →
    ∃ threadId space, kernel.pageTable = some threadId ∧
      kernel.virtMemManager.virtMemTable threadId = some space ∧
      virtAddr.toNat / pageSize < kernel.pageTableSize ∧
      (space.pageTable (virtAddr.toNat / pageSize)).valid = true ∧
      (space.pageTable (virtAddr.toNat / pageSize)).physicalPage =
        (kernel.tlb (TLB.index (virtAddr.toNat / pageSize)) way).ppn

end VmKernel

end Nachos
