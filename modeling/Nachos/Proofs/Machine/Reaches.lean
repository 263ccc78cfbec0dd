import Nachos.Proofs.Machine.Mipssim
import Nachos.Proofs.Vm.Translate

/-! What an instruction does to the memory is made of translations, page faults and stores. -/

namespace Nachos

namespace Machine

variable {machine after : Machine} {now : Int} {addr : Word} {size : Nat}

/-- The memory at the end of the switch of an instruction. -/
def Executed.memory : Executed → VmKernel
  | .finished machine _ _ _ | .trapped _ machine => machine.kernel

/-- A handler serves a page fault, or changes registers alone. -/
theorem exceptionHandler_reaches {which : MachineException}
    (handled : machine.exceptionHandler now which = some after) :
    machine.kernel.Reaches after.kernel := by
  unfold exceptionHandler at handled
  split at handled
  · split at handled
    · cases handled
      exact .refl
    · cases handled
  · obtain ⟨kernel, served, handled⟩ := Option.bind_eq_some_iff.mp handled
    cases handled
    exact VmKernel.Reaches.refl.faulted served
  · cases handled

/-- Finding the place of an access, with the exception that may be raised. -/
theorem locate_reaches {writing : Bool} {result : Except MachineException Nat}
    (located : machine.locate now addr size writing = some (result, after)) :
    machine.kernel.Reaches after.kernel := by
  obtain ⟨⟨found, kernel⟩, translated, located⟩ := Option.bind_eq_some_iff.mp located
  -- The translation is a step of the memory.
  have looked : machine.kernel.Reaches kernel := VmKernel.Reaches.refl.translated translated
  cases found with
  -- The place is found at once.
  | ok physAddr =>
    cases located
    exact looked
  | error exception =>
    cases exception with
    | pageFaultException =>
      -- The handler is called, and the translation is made once more.
      obtain ⟨served, handled, located⟩ := Option.bind_eq_some_iff.mp located
      obtain ⟨⟨found, last⟩, again, located⟩ := Option.bind_eq_some_iff.mp located
      have faulted := exceptionHandler_reaches handled
      cases found with
      -- It is found after the fault.
      | ok physAddr =>
        cases located
        exact (looked.trans faulted).translated again
      -- A second fault does not return.
      | error second => cases located
    -- Any other exception leaves it at that.
    | readOnlyException | busErrorException | addressErrorException =>
      cases located
      exact looked

/-- A read leaves the memory as finding its place has left it. -/
theorem readMem_reaches {result : Except MachineException Word}
    (read : machine.readMem now addr size = some (result, after)) :
    machine.kernel.Reaches after.kernel := by
  obtain ⟨⟨found, middle⟩, located, read⟩ := Option.bind_eq_some_iff.mp read
  have reached := locate_reaches located
  cases found with
  | error which =>
    cases read
    exact reached
  | ok physicalAddress =>
    obtain ⟨value, -, read⟩ := Option.bind_eq_some_iff.mp read
    cases read
    exact reached

/-- What is done with a value that is read starts where the read ends. -/
theorem reading_reaches {rest : Word → Machine → Option Executed} {executed : Executed}
    (next : ∀ value middle, rest value middle = some executed →
      middle.kernel.Reaches executed.memory)
    (done : machine.reading now addr size rest = some executed) :
    machine.kernel.Reaches executed.memory := by
  obtain ⟨⟨result, middle⟩, read, done⟩ := Option.bind_eq_some_iff.mp done
  have reached := readMem_reaches read
  cases result with
  | error which =>
    cases done
    exact reached
  | ok value => exact reached.trans (next value middle done)

/-- A write stores its value at the place that has been found. -/
theorem writing_reaches {value pcAfter : Word} {executed : Executed}
    (done : machine.writing now addr size value pcAfter = some executed) :
    machine.kernel.Reaches executed.memory := by
  obtain ⟨⟨result, middle⟩, written, done⟩ := Option.bind_eq_some_iff.mp done
  obtain ⟨⟨found, place⟩, located, written⟩ := Option.bind_eq_some_iff.mp written
  have reached := locate_reaches located
  -- The place was not found, and nothing is stored.
  cases found with
  | error which =>
    cases written
    cases done
    exact reached
  -- The value is stored there.
  | ok physicalAddress =>
    cases written
    cases done
    exact reached.stored _

/-- Registers are written beside the memory. -/
theorem writes_kernel (writes : List (Nat × Word)) : ∀ machine : Machine,
    (writes.foldl (fun machine write => machine.write write.1 write.2) machine).kernel =
      machine.kernel := by
  induction writes with
  | nil => exact fun _ => rfl
  | cons write rest ih => exact fun machine => ih (machine.write write.1 write.2)

/-- An effect reads and writes the memory, or leaves it alone. -/
theorem perform_reaches {effect : Effect} {executed : Executed}
    (performed : effect.perform machine now = some executed) :
    machine.kernel.Reaches executed.memory := by
  -- Only an access to memory has anything to do with the kernel.
  cases effect with
  | stuck => cases performed
  | raise which badVAddr =>
    cases performed
    exact .refl
  -- Registers are no memory.
  | compute writes pcAfter =>
    cases performed
    change machine.kernel.Reaches
      (writes.foldl (fun machine write => machine.write write.1 write.2) machine).kernel
    rw [writes_kernel]
    exact .refl
  | load addr size rt pcAfter value =>
    refine reading_reaches (fun word middle loaded => ?_) performed
    cases loaded
    exact .refl
  -- A store writes after its translation.
  | store addr size value pcAfter => exact writing_reaches performed
  -- A merging store reads, and then it writes.
  | merge addr rt pcAfter value =>
    exact reading_reaches (fun word middle stored => writing_reaches stored) performed

/-- What happens to the machine leads its memory to what accesses lead it to. -/
theorem step_reaches {event : MachineEvent} (stepped : machine.step event = some after) :
    machine.kernel.Reaches after.kernel := by
  -- An interrupt only carries the load out.
  cases event with
  | interrupt =>
    cases stepped
    exact .refl
  -- The instruction is fetched and carried out.
  | instruction now =>
    obtain ⟨executed, fetched, stepped⟩ := Option.bind_eq_some_iff.mp stepped
    have reached : machine.kernel.Reaches executed.memory := by
      refine reading_reaches (fun raw middle run => ?_) fetched
      rw [execute_eq] at run
      exact perform_reaches run
    -- An instruction that trapped is followed by the handler of its exception.
    cases executed with
    | finished middle pcAfter nextLoadReg nextLoadValue =>
      cases stepped
      exact reached
    | trapped which middle => exact reached.trans (exceptionHandler_reaches stepped)

end Machine

end Nachos
