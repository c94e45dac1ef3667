import Nx.Mapping

/-!
Address ranges and the pages behind them, kernel/source/mm/vmm.cpp, the page fault handler of
kernel/source/mm/page_fault.cpp and the anonymous mappings of kernel/source/syscall/sc_mmap.cpp.
-/

namespace Nx.Vmm

open Words Vmregion Machine Virtmap

def addressSpaces : List (AddressSpaceType × Word × Word) :=
  [(.kernel, 0xFFFFFFFF80000000, 0xFFFFFFFFF7F00000),
    (.kernelHeap, 0xFFFFFF8000000000, 0xFFFFFFFF00000000),
    (.user, 0x400000, 0x7FFFFFFF8000)]

def findAddrSpace (addr num : Word) : Option AddressSpaceType :=
  (addressSpaces.find? fun (_, base, top) =>
    decide (base ≤ addr) && decide (addr + ofsPages num ≤ top)).map Prod.fst

def getAddrSpace (addr num : Word) : Kernel AddressSpaceType :=
  match findAddrSpace addr num with
  | some type => pure type
  | none => throw (.vmmNotInAddrspace addr)

/-- Only called for a page that was allocated just before: then the allocator
has a node for it, and `addExtent` does not ask for memory. -/
def deallocateAddrSpace (addr num : Word) (proc : Option Nat) : Kernel PUnit := do
  assertThat (isPageAligned addr) "addr.isPageAligned()"
  let world ← get
  let proc := proc.getD world.current
  let space := world.procs proc
  let type ← getAddrSpace addr num
  refuse (world.held == some (proc, type)) .mutexDeadlock
  match (space.vmmStates type).deallocate addr num none with
  | .error abort => throw abort
  | .ok st => set (world.setProc proc { space with
      vmmStates := Function.update space.vmmStates type st })

def addRegion (addr num : Word) (proc : Nat) : Kernel PUnit := do
  let world ← get
  match (world.procs proc).addRegion addr num with
  | .error abort => throw abort
  | .ok space => set (world.setProc proc space)

def addPhysicalMapping (virt phys : Word) (proc : Nat) : Kernel PUnit := do
  let world ← get
  match (world.procs proc).addPhysicalMapping world.store virt phys with
  | .error abort => throw abort
  | .ok (_, space, store) => set { world.setProc proc space with store := store }

def allocate (num : Word) (type : AddressSpaceType) (flags : Word) (proc : Option Nat) :
    Kernel Word := do
  let world ← get
  let proc := proc.getD world.current
  let virt ← allocateAddrSpace num type (some proc)
  refuse (virt == 0) .vmmOutOfAddrspace
  mapZeroedCOW virt num (flags &&& ~~~ pageWrite) (some proc)
  addRegion virt num proc
  pure virt

def backingFrame (aligned : Word) (proc : Nat) : Option Word → Kernel Word
  | some ph => pure ph
  | none => do
    let p ← pmmAllocate 1 false
    addPhysicalMapping aligned p proc
    pure p

def lazyFault (aligned flags : Word) : Kernel Bool := do
  let world ← get
  match (world.procs world.current).lookupVirtualMapping world.store aligned with
  | (none, _) => pure false
  | (some _, found) => do
    let ph ← backingFrame aligned world.current found
    mapAddressOverwrite aligned ph 1 ((flags &&& ~~~ pageCopyOnWrite) ||| pagePresent)
      (some world.current)
    onlyIf found.isNone (clearPage aligned)
    pure true

def copyFrame (aligned phys : Word) : Kernel PUnit := do
  let scratch ← allocateAddrSpace 1 .user none
  mapAddress scratch phys 1 (pageNx ||| pageUser ||| pagePresent) none
  copyPage aligned scratch
  unmapAddress scratch 1 false none
  deallocateAddrSpace scratch 1 none

/-- The branch for writes to present pages. The old frame is looked up after
the page has its new one. -/
def cowFault (aligned flags : Word) : Kernel Bool := do
  let phys ← pmmAllocate 1 false
  mapAddressOverwrite aligned phys 1 ((flags &&& ~~~ pageCopyOnWrite) ||| pageWrite) none
  let world ← get
  addPhysicalMapping aligned phys world.current
  let oldPhys ← getPhysAddr aligned none
  if oldPhys != world.pmm.zeroPageAddr then do
    copyFrame aligned oldPhys
    pure true
  else do
    clearPage aligned
    pure true

def handlePageFault (cr2 errorCode : Word) : Kernel Bool := do
  let notPresent := errorCode &&& 0x1 == 0
  let write := errorCode &&& 0x2 != 0
  let reserved := errorCode &&& 0x8 != 0
  if reserved then pure false
  else do
    let aligned := pageAlign cr2
    let flags ← getPageFlags aligned none
    if flags &&& pageCopyOnWrite != 0 then
      if notPresent || !present flags then lazyFault aligned flags
      else if !write then pure false
      else cowFault aligned flags
    else pure false

/-- `addExtent` out of nodes: a page of the kernel process, which the first write
to it makes a real one. What the nodes hold is not modelled. -/
def newNodes : Kernel Word := do
  let newmem ← allocate 1 .kernel pageWrite (some 0)
  let handled ← handlePageFault newmem 0x3
  refuse (!handled) (.unmappedAccess newmem)
  pure newmem

/-- A node for `addExtent`, if `allocateSpecific` will find none. The `mutex` of
the allocator is held meanwhile. -/
def nodesFor (addr num : Word) (proc : Nat) (type : AddressSpaceType) : Kernel (Option Word) := do
  let world ← get
  match ((world.procs proc).vmmStates type).allocateSpecific addr num none with
  | .ok _ => pure none
  | .error _ => do
    set { world with held := some (proc, type) }
    let newmem ← newNodes
    let world ← get
    set { world with held := none }
    pure (some newmem)

def allocateSpecific (addr num : Word) (proc : Option Nat) : Kernel Word := do
  assertThat (isPageAligned addr) "addr.isPageAligned()"
  let world ← get
  let proc := proc.getD world.current
  let type ← getAddrSpace addr num
  refuse (world.held == some (proc, type)) .mutexDeadlock
  let newmem ← nodesFor addr num proc type
  let world ← get
  let space := world.procs proc
  match (space.vmmStates type).allocateSpecific addr num newmem with
  | .error abort => throw abort
  | .ok (virt, st) => do
    set (world.setProc proc { space with
      vmmStates := Function.update space.vmmStates type st })
    onlyIf (virt != 0) (addRegion virt num proc)
    pure virt

def protExec : BitVec 32 := 0x1
def protWrite : BitVec 32 := 0x2
def mapShared : BitVec 32 := 0x1
def mapAnonymous : BitVec 32 := 0x4
def mapFixed : BitVec 32 := 0x8
def mapFixedNoreplace : BitVec 32 := 0x10

def mmapPages (length : Word) : Word := (length + pageSize - 1) / pageSize

def mmapFlags (prot : BitVec 32) : Word :=
  (pagePresent ||| pageUser) ||| (if prot &&& protWrite != 0 then pageWrite else 0) |||
    (if prot &&& protExec == 0 then pageNx else 0)

def requested (reqAddr numPages : Word) : Kernel Word :=
  if reqAddr != 0 then allocateSpecific (pageAlign reqAddr) numPages none else pure 0

def mmapAnon (reqAddr length : Word) (prot flags : BitVec 32) : Kernel (Option Word) :=
  if length == 0 then pure none
  else if flags &&& mapAnonymous == 0 then pure none
  else if flags &&& mapShared != 0 then pure none
  else do
    let numPages := mmapPages length
    let flg := mmapFlags prot
    let virt ← requested reqAddr numPages
    if virt != 0 then do
      mapZeroedCOW virt numPages (flg &&& ~~~ pageWrite) none
      pure (some virt)
    else if reqAddr != 0 && (flags &&& mapFixed != 0 || flags &&& mapFixedNoreplace != 0) then
      pure none
    else do
      let ret ← allocate numPages .user flg none
      pure (if ret == 0 then none else some ret)

end Nx.Vmm
