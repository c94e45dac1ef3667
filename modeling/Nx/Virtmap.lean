import Nx.Machine

/-!
Changing and reading page tables, kernel/source/mm/virtmap.cpp.
-/

namespace Nx.Virtmap

open Words Paging Vmregion Machine

def allocateAddrSpace (num : Word) (type : AddressSpaceType) (proc : Option Nat) : Kernel Word := do
  let world ← get
  let proc := proc.getD world.current
  let space := world.procs proc
  refuse (num != 0 && world.held == some (proc, type)) .mutexDeadlock
  match (space.vmmStates type).allocate num fun _ _ => true with
  | .error abort => throw abort
  | .ok (ret, st) => do
    set (world.setProc proc { space with
      vmmStates := Function.update space.vmmStates type st })
    assertThat (isPageAligned ret) "ret.isPageAligned()"
    pure ret

def allocPhysTracked (proc : Nat) : Kernel Word := do
  let phys ← pmmAllocate 1 false
  assertThat (phys != 0) "x.nonZero()"
  let world ← get
  let space := world.procs proc
  let tracked := { space with allocatedPhysPages := space.allocatedPhysPages ++ [phys] }
  set (if 0 < proc ∨ SchedulerInitPhase.schedulerStarted.rank < world.initPhase.rank then
    world.setProc proc tracked else world)
  pure phys

def ensureTable (virt : Word) (proc : Nat) (defaultFlags : Word) (upper : Word) (index : Index)
    (lower : Word) (level : Level) : Kernel PUnit := do
  let entry ← load upper index
  if present entry then pure ⟨⟩
  else do
    let pp ← allocPhysTracked proc
    assertThat (pp != 0) "pp.nonZero()"
    store upper index (pp ||| defaultFlags)
    clearPage lower
    let now ← load upper index
    refuse (now &&& pageNx != 0) (.mapNxTable virt level pp)

def mapThrough (slot : Index) (virt phys flags : Word) (proc : Nat) (overwrite : Bool) :
    Kernel PUnit := do
  let p4idx := indexPML4 virt
  let p3idx := indexPDPT virt
  let p2idx := indexPageDir virt
  let p1idx := indexPageTable virt
  refuse (p4idx == 510 || p4idx == 509) .mapReservedSlot
  let pml4 := getPML4 slot
  let pdpt := getPDPT slot p4idx
  let pdir := getPDir slot p4idx p3idx
  let ptab := getPTab slot p4idx p3idx p2idx
  let defaultFlags :=
    if 255 < p4idx then pageWrite ||| pagePresent else pageUser ||| pageWrite ||| pagePresent
  refuse (decide (255 < p4idx) && flags &&& pageUser != 0) .mapHighUser
  ensureTable virt proc defaultFlags pml4 p4idx pdpt .pdpt
  ensureTable virt proc defaultFlags pdpt p3idx pdir .pdir
  ensureTable virt proc defaultFlags pdir p2idx ptab .ptab
  let entry ← load ptab p1idx
  refuse (!overwrite && present entry) (.mapAlreadyMapped virt (pageAlign entry))
  store ptab p1idx (phys ||| flags)

def leafThrough (slot : Index) (virt : Word) : Kernel (Except Level Word) := do
  let p4idx := indexPML4 virt
  let p3idx := indexPDPT virt
  let p2idx := indexPageDir virt
  let pml4e ← load (getPML4 slot) p4idx
  if !present pml4e then pure (.error .pdpt)
  else do
    let pdpte ← load (getPDPT slot p4idx) p3idx
    if !present pdpte then pure (.error .pdir)
    else do
      let pde ← load (getPDir slot p4idx p3idx) p2idx
      if !present pde then pure (.error .ptab)
      else do
        let pte ← load (getPTab slot p4idx p3idx p2idx) (indexPageTable virt)
        pure (.ok pte)

def unmapThrough (slot : Index) (base virt : Word) (ignore : Bool) : Kernel PUnit := do
  refuse (indexPML4 virt == 510) .unmapReservedSlot
  let ptab := getPTab slot (indexPML4 virt) (indexPDPT virt) (indexPageDir virt)
  match ← leafThrough slot virt with
  | .error level => refuse (!ignore) (.unmapNotMapped base level)
  | .ok pte =>
    if !present pte then
      if ignore then pure ⟨⟩
      else if pte &&& pageCopyOnWrite != 0 then
        store ptab (indexPageTable virt) (pte &&& ~~~ pageCopyOnWrite)
      else throw (.unmapNotMapped base .page)
    else store ptab (indexPageTable virt) 0

def forPages (body : Word → Kernel PUnit) : Nat → Kernel PUnit
  | 0 => pure ⟨⟩
  | count + 1 => do
    forPages body count
    body (BitVec.ofNat 64 count)

/-- Both halves of `TempMapper` write slot 509 of the current root and, through
a page mapped for the purpose, of the other one. -/
def tempSlots (root value : Word) : Kernel PUnit := do
  store (getPML4 510) 509 value
  let tmp ← allocateAddrSpace 1 .user none
  let world ← get
  assertThat (isPageAligned tmp) "virt.isPageAligned()"
  assertThat (isPageAligned root) "phys.isPageAligned()"
  mapThrough 510 tmp root ((pagePresent ||| pageWrite) ||| pagePresent) world.current false
  store tmp 509 value
  unmapThrough 510 tmp tmp false

/-- A body run on the tables of a process: under a `TempMapper` if it is not
the current one. -/
def withTables (proc : Nat) (body : Index → Kernel α) : Kernel α := do
  let world ← get
  if proc ≠ world.current then do
    let root := (world.procs proc).theCR3
    tempSlots root (root ||| pagePresent ||| pageWrite)
    let result ← body 509
    tempSlots root 0
    pure result
  else body 510

def mapInternal (virt phys flags : Word) (proc : Option Nat) (overwrite : Bool) : Kernel PUnit := do
  let world ← get
  let proc := proc.getD world.current
  assertThat (isPageAligned virt) "virt.isPageAligned()"
  assertThat (isPageAligned phys) "phys.isPageAligned()"
  withTables proc fun slot => mapThrough slot virt phys flags proc overwrite

def mapAddressOverwrite (virt phys num flags : Word) (proc : Option Nat) : Kernel PUnit :=
  forPages (fun i => mapInternal (virt + ofsPages i) (phys + ofsPages i)
    (flags ||| pagePresent) proc true) num.toNat

def mapAddress (virt phys num flags : Word) (proc : Option Nat) : Kernel PUnit :=
  forPages (fun i => mapInternal (virt + ofsPages i) (phys + ofsPages i)
    (flags ||| pagePresent) proc false) num.toNat

def mapZeroedCOW (virt num flags : Word) (proc : Option Nat) : Kernel PUnit := do
  assertThat (isPageAligned virt) "virt.isPageAligned()"
  assertThat (flags &&& pageWrite == 0) "(flags & PAGE_WRITE) == 0"
  let flags := flags &&& ~~~ pageWrite
  forPages (fun i => do
    let world ← get
    mapInternal (virt + ofsPages i) world.pmm.zeroPageAddr
      (flags ||| pagePresent ||| pageCopyOnWrite) proc false) num.toNat

def mapLazy (virt num flags : Word) (proc : Option Nat) : Kernel PUnit := do
  assertThat (isPageAligned virt) "virt.isPageAligned()"
  assertThat (flags &&& pagePresent == 0) "(flags & PAGE_PRESENT) == 0"
  let flags := flags &&& ~~~ pagePresent
  forPages (fun i => do
    let world ← get
    mapInternal (virt + ofsPages i) world.pmm.zeroPageAddr (flags ||| pageCopyOnWrite) proc false)
    num.toNat

def getPageFlags (virt : Word) (proc : Option Nat) : Kernel Word := do
  let world ← get
  assertThat (isPageAligned virt) "virt.isPageAligned()"
  match ← withTables (proc.getD world.current) fun slot => leafThrough slot virt with
  | .error _ => pure 0
  | .ok pte => pure (pte &&& flagMask)

def unmapAddress (virt num : Word) (ignore : Bool) (proc : Option Nat) : Kernel PUnit := do
  let world ← get
  withTables (proc.getD world.current) fun slot => do
    assertThat (isPageAligned virt) "virt.isPageAligned()"
    forPages (fun i => unmapThrough slot virt (virt + ofsPages i) ignore) num.toNat

def getPhysAddr (virt : Word) (proc : Option Nat) : Kernel Word := do
  let world ← get
  withTables (proc.getD world.current) fun slot => do
    assertThat (isPageAligned virt) "virt.isPageAligned()"
    match ← leafThrough slot virt with
    | .error level => throw (.getPhysNotMapped virt level)
    | .ok pte =>
      if present pte then pure (pageAlign pte) else throw (.getPhysNotMapped virt .page)

def allPresent (slot : Index) (virt : Word) : Nat → Kernel Bool
  | 0 => pure true
  | count + 1 => do
    if ← allPresent slot virt count then
      match ← leafThrough slot (virt + ofsPages (BitVec.ofNat 64 count)) with
      | .error _ => pure false
      | .ok pte => pure (present pte)
    else pure false

def isMapped (virt num : Word) (proc : Option Nat) : Kernel Bool := do
  let world ← get
  withTables (proc.getD world.current) fun slot => do
    assertThat (isPageAligned virt) "virt.isPageAligned()"
    allPresent slot virt num.toNat

end Nx.Virtmap
