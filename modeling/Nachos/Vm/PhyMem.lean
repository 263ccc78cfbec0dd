import Mathlib.Logic.Function.Basic
import Nachos.Lib.Bitmap

/-! The frame table: which frames are taken, by whom, and which to take away next. -/

namespace Nachos

/-- Who owns a frame, and for which of its pages. -/
structure PhyMemPageEntry where
  mainThreadId : Int
  virtualPage : Int
  deriving DecidableEq

/-- The manager of the page frames, with its least-recently-used replacement strategy. -/
structure PhyMemManager where
  phyPageNums : Nat
  phyMemoryMap : Bitmap
  phyMemPageTable : Nat → PhyMemPageEntry
  lastUsedTimeTable : Nat → Int

namespace PhyMemManager

/-- The constructor: every frame is free and was never used. The owners are left as they were. -/
def new (pageNums : Nat) (uninitialised : Nat → PhyMemPageEntry) : PhyMemManager where
  phyPageNums := pageNums
  phyMemoryMap := .new pageNums
  phyMemPageTable := uninitialised
  lastUsedTimeTable := fun _ => -1

/-- `findOneEmptyPage`: take the first free frame, or answer -1. -/
def findOneEmptyPage (phys : PhyMemManager) : Option (Int × PhyMemManager) := do
  let (page, phyMemoryMap) ← phys.phyMemoryMap.findAndSet
  return (page, { phys with phyMemoryMap })

/-- The loop of `findOneElementToSwap`, from the best frame so far. -/
def oldestFrom (lastUsed : Nat → Int) : Nat → List Nat → Nat
  | target, [] => target
  | target, i :: rest =>
    if lastUsed i < lastUsed target then oldestFrom lastUsed i rest
    else oldestFrom lastUsed target rest

/-- `swapOnePage`: the frame whose recorded time is the least, the first of them on a tie. -/
def swapOnePage (phys : PhyMemManager) : Nat :=
  -- The first pass through the loop takes index 0 whatever its time is.
  oldestFrom phys.lastUsedTimeTable 0 (List.range phys.phyPageNums)

/-- `clearOnePage`: the frame is free again. -/
def clearOnePage (phys : PhyMemManager) (phyPage : Int) : Option PhyMemManager := do
  return { phys with phyMemoryMap := ← phys.phyMemoryMap.clear phyPage }

/-- `getMainThread`: the owner of a frame that is taken, and -1 otherwise. -/
def getMainThread (phys : PhyMemManager) (phyPage : Nat) : Option Int := do
  return if ← phys.phyMemoryMap.test phyPage then (phys.phyMemPageTable phyPage).mainThreadId else -1

/-- `getVirtualPage`: the page in a frame that is taken, and -1 otherwise. -/
def getVirtualPage (phys : PhyMemManager) (phyPage : Nat) : Option Int := do
  return if ← phys.phyMemoryMap.test phyPage then (phys.phyMemPageTable phyPage).virtualPage else -1

/-- Change what is recorded about a frame, if the frame is taken. -/
def whenTaken (phys : PhyMemManager) (phyPage : Nat) (taken : PhyMemManager) :
    Option PhyMemManager := do
  return if ← phys.phyMemoryMap.test phyPage then taken else phys

/-- `setVirtualPage`. -/
def setVirtualPage (phys : PhyMemManager) (phyPage : Nat) (virtualPage : Int) :
    Option PhyMemManager :=
  phys.whenTaken phyPage { phys with
    phyMemPageTable := Function.update phys.phyMemPageTable phyPage
      { phys.phyMemPageTable phyPage with virtualPage } }

/-- `setMainThreadId`. -/
def setMainThreadId (phys : PhyMemManager) (phyPage : Nat) (mainThreadId : Int) :
    Option PhyMemManager :=
  phys.whenTaken phyPage { phys with
    phyMemPageTable := Function.update phys.phyMemPageTable phyPage
      { phys.phyMemPageTable phyPage with mainThreadId } }

/-- `updatePageWeight`: the frame is used now. -/
def updatePageWeight (phys : PhyMemManager) (phyPage : Nat) (totalTicks : Int) :
    Option PhyMemManager :=
  phys.whenTaken phyPage { phys with
    lastUsedTimeTable := Function.update phys.lastUsedTimeTable phyPage totalTicks }

end PhyMemManager

end Nachos
