import Nx.Physical

/-!
Setting up the physical memory manager, `pmm::init` of kernel/source/mm/pmm.cpp.
-/

namespace Nx.PmmInit

open Words Pieces Extmm ExtmmLedger Physical List
open BitVec hiding and_assoc

inductive MemoryType where
  | reserved
  | available
  | acpi
  | mmio
  | faulty
  | nonVolatile
  | framebuffer
  | loadedKernel
  | bootInfo
  | memoryMap
  | initrd
  | kernelElf
  | efiRuntimeCode
  | efiRuntimeData
  | availableAfterUnmap
  deriving DecidableEq

structure MemMapEntry where
  address : Word
  numPages : Word
  memoryType : MemoryType
  deriving DecidableEq

open MemMapEntry

structure BootInfo where
  mmEntries : List MemMapEntry
  maximumIdentityMap : Word

inductive Failure where
  | extmm (abort : Abort)
  | failedToBootstrap
  /-- A node of the allocator lies outside of the page that `bootstrap` has mapped. -/
  | nodeNotMapped
  | failedToAllocateZeroPage
  | inconsistentMemoryMap
  deriving DecidableEq

def numReservedPages : Word := 8

def pmmStackBase : Word := 0xFFFFFFFFF7F00000

def pmmStackEnd : Word := 0xFFFFFFFFF7F10000

def MemMapEntry.withoutReserved (entry : MemMapEntry) : MemMapEntry :=
  { entry with
    address := entry.address + numReservedPages * 0x1000
    numPages := entry.numPages - numReservedPages }

/-- The first loop: where the reserved pages begin, and the map without them. -/
def steal : List MemMapEntry → Option (Word × List MemMapEntry)
  | [] => none
  | entry :: rest =>
    if entry.memoryType = .available ∧ numReservedPages ≤ entry.numPages then
      some (entry.address, entry.withoutReserved :: rest)
    else (steal rest).map fun (base, stolen) => (base, entry :: stolen)

/-- `vmm::bootstrap`, with the number of page tables that are missing on the way: the end of
what it maps. -/
def bootstrap (missing : Fin 4) (virt maxPages : Word) : Except Failure Word :=
  if missing.val + 1 ≤ maxPages.toNat then .ok (virt + 0x1000)
  else .error (.extmm (.assertFailed "bootstrapUsed <= maxPages"))

def addEntry (mapped : Word) (st : State) (entry : MemMapEntry) : Except Failure State :=
  if entry.memoryType = .available ∧ 0 < entry.address then
    match st.deallocate entry.address entry.numPages none with
    | .error abort => .error (.extmm abort)
    | .ok after => if after.bootstrapWatermark ≤ mapped then .ok after else .error .nodeNotMapped
  else .ok st

def addEntries (mapped : Word) (st : State) : List MemMapEntry → Except Failure State
  | [] => .ok st
  | entry :: rest =>
    match addEntry mapped st entry with
    | .error failure => .error failure
    | .ok after => addEntries mapped after rest

def takeZeroPage (maximumIdentityMap : Word) (st : State) : Except Failure Pmm :=
  match st.allocate 1 fun addr len => decide (endOf addr len < maximumIdentityMap) with
  | .error abort => .error (.extmm abort)
  | .ok (zp, after) =>
    if zp = 0 then .error .failedToAllocateZeroPage
    else if zp < maximumIdentityMap then
      if after.checkConsistency then .ok ⟨after, 0, zp⟩ else .error .inconsistentMemoryMap
    else .error (.extmm (.assertFailed "zp < bootinfo->maximumIdentityMap"))

def init (missing : Fin 4) (bootinfo : BootInfo) : Except Failure Pmm :=
  match steal bootinfo.mmEntries with
  | none => .error .failedToBootstrap
  | some (_, entries) =>
    match bootstrap missing pmmStackBase numReservedPages with
    | .error failure => .error failure
    | .ok mapped =>
      match addEntries mapped (State.init "pmm" pmmStackBase pmmStackEnd) entries with
      | .error failure => .error failure
      | .ok st => takeZeroPage bootinfo.maximumIdentityMap st

/-! The map as pages. -/

def MemMapEntry.extent (entry : MemMapEntry) : Extent := ⟨entry.address, entry.numPages⟩

def MemMapEntry.pages (entry : MemMapEntry) : Set Nat := entry.extent.pages

structure WellFormed (entries : List MemMapEntry) : Prop where
  aligned : ∀ entry ∈ entries, entry.address.toNat % 4096 = 0
  nonempty : ∀ entry ∈ entries, entry.numPages ≠ 0
  nonzero : ∀ entry ∈ entries, entry.address ≠ 0
  apart : Apart (entries.map pages)

def blocks (entries : List MemMapEntry) : List Extent :=
  (entries.filter fun entry => entry.memoryType = .available ∧ entry.numPages ≠ 0).map extent

variable {entry : MemMapEntry} {entries stolen : List MemMapEntry} {base limit : Word}
  {st after : State}

structure Ready (entries : List MemMapEntry) : Prop where
  sound : ∀ entry ∈ entries, entry.memoryType = .available → entry.extent.Sound
  nonzero : ∀ entry ∈ entries, entry.memoryType = .available → 0 < entry.address

theorem Ready.tail (ready : Ready (entry :: rest)) : Ready rest :=
  ⟨fun other member => ready.sound other (mem_cons_of_mem _ member),
    fun other member => ready.nonzero other (mem_cons_of_mem _ member)⟩

structure Nodes (st : State) : Prop where
  freeHead : st.freeHead = 0
  top : st.bootstrapEnd = pmmStackEnd
  few : st.numExtents ≤ 170
  mark : st.bootstrapWatermark = pmmStackBase + BitVec.ofNat 64 (24 * st.numExtents)

def needsNode (st : State) (entry : MemMapEntry) : Prop :=
  scan (touches entry.address entry.numPages) st.head = none
  deriving Decidable

theorem Nodes.mark_toNat (nodes : Nodes st) :
    st.bootstrapWatermark.toNat = pmmStackBase.toNat + 24 * st.numExtents := by
  have few := nodes.few
  have base : pmmStackBase.toNat = 0xFFFFFFFFF7F00000 := rfl
  rw [nodes.mark, toNat_add, toNat_ofNat, base]
  omega

theorem Nodes.next_toNat (nodes : Nodes st) :
    (st.bootstrapWatermark + sizeofExtent).toNat =
      pmmStackBase.toNat + 24 * (st.numExtents + 1) := by
  have few := nodes.few
  have base : pmmStackBase.toNat = 0xFFFFFFFFF7F00000 := rfl
  have size : sizeofExtent.toNat = 24 := rfl
  rw [toNat_add, nodes.mark_toNat, base, size]
  omega

theorem Nodes.takeNode (nodes : Nodes st) (newmem : Option Word) :
    st.takeNode newmem = .ok { st with bootstrapWatermark :=
      st.bootstrapWatermark + sizeofExtent } := by
  have few := nodes.few
  have room : st.bootstrapWatermark + sizeofExtent ≤ st.bootstrapEnd := by
    have base : pmmStackBase.toNat = 0xFFFFFFFFF7F00000 := rfl
    have top : pmmStackEnd.toNat = 0xFFFFFFFFF7F10000 := rfl
    rw [le_def, nodes.next_toNat, nodes.top, base, top]
    omega
  unfold State.takeNode
  rw [if_neg (not_not.mpr nodes.freeHead), if_pos room]

theorem Nodes.deallocate (nodes : Nodes st) (addr num newmem : Word) :
    st.deallocate addr num none = st.deallocate addr num (some newmem) := by
  unfold State.deallocate State.addExtent
  rw [nodes.takeNode none, nodes.takeNode (some newmem)]

def pmmStackMapped : Word := pmmStackBase + 0x1000

structure Fits (st : State) (entry : MemMapEntry) : Prop where
  upward : entry.numPages ≠ 0 → st.mergesBelow entry.address entry.numPages = false
  room : needsNode st entry → st.numExtents < 170

/-- Every entry fits when its turn comes, and no extent is empty in the end. -/
def Orderly (st : State) : List MemMapEntry → Prop
  | [] => ∀ extent ∈ st.head, extent.size ≠ 0
  | entry :: rest => (entry.memoryType = .available → Fits st entry) ∧
      match addEntry pmmStackMapped st entry with
      | .error _ => True
      | .ok after => Orderly after rest

instance (st : State) (entry : MemMapEntry) : Decidable (Fits st entry) :=
  decidable_of_iff ((entry.numPages ≠ 0 → st.mergesBelow entry.address entry.numPages = false) ∧
    (needsNode st entry → st.numExtents < 170)) ⟨fun both => ⟨both.1, both.2⟩, fun fits =>
      ⟨fits.upward, fits.room⟩⟩

def decidableOrderly (st : State) : (entries : List MemMapEntry) → Decidable (Orderly st entries)
  | [] => inferInstanceAs (Decidable (∀ extent ∈ st.head, extent.size ≠ 0))
  | entry :: rest =>
    match added : addEntry pmmStackMapped st entry with
    | .error _ => decidable_of_iff (entry.memoryType = .available → Fits st entry)
        (by simp [Orderly, added])
    | .ok after =>
      have := decidableOrderly after rest
      decidable_of_iff ((entry.memoryType = .available → Fits st entry) ∧ Orderly after rest)
        (by simp [Orderly, added])

instance (st : State) (entries : List MemMapEntry) : Decidable (Orderly st entries) :=
  decidableOrderly st entries

def ascending : BootInfo where
  mmEntries := [⟨0x1000, 1, .reserved⟩, ⟨0x2000, 16, .available⟩, ⟨0x12000, 4, .available⟩,
    ⟨0x100000, 32, .available⟩]
  maximumIdentityMap := 0x400000

def spent : BootInfo where
  mmEntries := [⟨0x2000, 8, .available⟩, ⟨0x100000, 32, .available⟩]
  maximumIdentityMap := 0x400000

/-- The lower of two adjacent entries comes second: the upper one moves down, and as many
pages drop off its end. -/
def descending : BootInfo where
  mmEntries := [⟨0x100000, 16, .available⟩, ⟨0x200000, 4, .available⟩, ⟨0x1FF000, 1, .available⟩]
  maximumIdentityMap := 0x400000

end Nx.PmmInit
