import Nx.Allocations
import Nx.CowCopies

/-!
Pages of the kernel process that are handed out copy-on-write, and who serves the first write to
them.
-/

namespace Nx.KernelPages

open Words Radix Paging Physical Vmregion Machine Outcomes PageTables Mapping Evolution Vmm
  PageFault FaultEffects CowCopies Allocations

def InKernelRange (st : Extmm.State) : Prop :=
  ∀ extent ∈ st.head, extent.Sound ∧ 0xFFFFFFFF80000000 ≤ extent.addr.toNat ∧
    extent.addr.toNat + 4096 * extent.size.toNat ≤ 0xFFFFFFFFF7F00000

structure KernelRange (virt num : Word) : Prop where
  above : 0xFFFFFFFF80000000 ≤ virt.toNat
  below : virt.toNat + 4096 * num.toNat ≤ 0xFFFFFFFFF7F00000

theorem InKernelRange.allocates (range : InKernelRange st)
    (allocated : st.allocate num (fun _ _ => true) = .ok (virt, after)) (nonzero : virt ≠ 0) :
    KernelRange virt num := by
  obtain ⟨_, ⟨zero, _, _⟩ | ⟨_, extent, _, shape, ⟨enough, _⟩, _, rfl, _⟩⟩ :=
    Extmm.allocate_cases allocated
  · exact absurd zero nonzero
  · obtain ⟨_, above, _⟩ := range extent (by simp [shape])
    have size : num.toNat ≤ extent.size.toNat := enough
    exact ⟨above, by omega⟩

theorem KernelRange.page_toNat (range : KernelRange virt num) (inside : i < num.toNat) :
    (pageAt virt i).toNat = virt.toNat + 4096 * i := by
  have below := range.below
  rw [pageAt_toNat virt (by omega)]
  exact Nat.mod_eq_of_lt (by omega)

theorem KernelRange.shared (range : KernelRange virt num) (inside : i < num.toNat) :
    indexPML4 (pageAt virt i) = 511 := by
  have above := range.above
  have below := range.below
  apply BitVec.eq_of_toNat_eq
  rw [indexPML4, index_toNat, range.page_toNat inside]
  have last : (511 : Index).toNat = 511 := rfl
  omega

/-- Since the page was handed out nobody has written to it or taken it back, and
there is memory to serve a write. -/
structure Awaits (roots : Set Word) (granted world : World) (page : Word) : Prop where
  tables : Tables roots world
  theCR3 : (world.procs 0).theCR3 = (granted.procs 0).theCR3
  leaf : leafOf (entryAt world.mem (world.procs 0).theCR3 page) =
    leafOf (entryAt granted.mem (granted.procs 0).theCR3 page)
  covered : (∃ vmr ∈ (granted.procs 0).regions, vmr.contains page = true) →
    ∃ vmr ∈ (world.procs 0).regions, vmr.contains page = true
  recorded : Recorded world
  supply : 7 ≤ world.pmm.supply
  scratch : world.held ≠ some (world.current, .user) → ScratchReady world

/-- The write is served, and the kernel process has the page's new frame on
record. -/
def Resolves (world : World) (cr2 errorCode : Word) : Prop :=
  ∃ after frame entry, (handlePageFault cr2 errorCode).run world = .ok (true, after) ∧
    walk after.mem after.cr3 (pageAlign cr2) = some (frame, entry) ∧ entry &&& pageWrite ≠ 0 ∧
    (after.procs 0).backing after.store (pageAlign cr2) = some frame

section Handed

variable {roots : Set Word} {start granted world : World} {num flags virt page : Word}

structure Handed (roots : Set Word) (world : World) (page entry : Word) : Prop where
  tables : Tables roots world
  own : paging.own (indexPML4 page)
  leaf : entryAt world.mem world.cr3 page = entry
  there : present entry = true
  marked : entry &&& pageCopyOnWrite ≠ 0
  private_ : entry &&& pageUser = 0
  region : ∃ vmr ∈ (world.procs 0).regions, vmr.contains page = true
  recorded : Recorded world

theorem handed_of_allocate (tables : Tables roots start)
    (kernelRoot : (start.procs 0).theCR3 ∈ roots)
    (range : InKernelRange ((start.procs 0).vmmStates .kernel))
      (fits : ∀ vmr ∈ (start.procs 0).regions, vmr.Fits)
    (handedOut : (Vmm.allocate num .kernel flags (some 0)).run start = .ok (virt, granted))
      (below : i < num.toNat)
    (awaits : Awaits roots granted world (pageAt virt i)) :
      ∃ entry, Handed roots world (pageAt virt i) entry := by
  have nonzero : num ≠ 0 := by
    rintro rfl
    exact absurd below (by simp)
  have owner : (start.procs ((some 0).getD start.current)).theCR3 = (start.procs 0).theCR3 := rfl
  obtain ⟨grant, virtNonzero, _, allocated⟩ := ends_of_ok
    (allocate_ends tables owner kernelRoot nonzero .kernel flags) handedOut
  have kernelRange := range.allocates allocated virtNonzero
  obtain ⟨own, user, leaf⟩ := grant.mapped i below
  have shared := kernelRange.shared below
  have there := present_cowFlags start.pmm.zeroPageAddr flags
  -- all roots see the entry that the kernel process has
  have isRoot : (world.procs 0).theCR3 ∈ roots := by
    rw [awaits.theCR3, grant.evolves.theCR3]
    exact kernelRoot
  have sameEntry : entryAt world.mem world.cr3 (pageAt virt i) =
      entryAt world.mem (world.procs 0).theCR3 (pageAt virt i) := by
    apply awaits.tables.forest.lookup_shared awaits.tables.current isRoot
    rw [tablePath, shared]
    rfl
  have kernelLeaf := awaits.leaf
  rw [grant.evolves.theCR3, leaf] at kernelLeaf
  obtain ⟨_, entry, _⟩ := leafOf_some (kernelLeaf.trans (if_pos there))
  refine ⟨_, awaits.tables, own, sameEntry.trans entry.symm, there, cow_of_cowFlags _ _, ?_, ?_,
    awaits.recorded⟩
  · rw [or_and_flags tables.pmm.zeroPage (by decide)]
    apply user
    rw [shared]
    decide
  · apply awaits.covered
    obtain ⟨_, sameRegions, added⟩ := grant.added
    have top := kernelRange.below
    have page := kernelRange.page_toNat below
    exact addRegion_covers (sameRegions ▸ fits) (by omega) added (by omega) (by omega)

theorem resolved_by_kernel (handed : Handed roots world page entry) (inPage : pageAlign cr2 = page)
    (fault : WriteFault errorCode) (resolves : Resolves world cr2 errorCode) :
    world.current = 0 ∧ world.held ≠ some (0, .user) := by
  subst inPage
  obtain ⟨_, _, _, ran, walked, _, backed⟩ := resolves
  have walkable := walkable_of_own handed.tables handed.tables.current handed.own
  obtain ⟨_, _, serves⟩ := ends_of_ok
    (write_fault_ends handed.tables walkable handed.leaf (fault.copies handed.there handed.marked))
      ran
  rw [served_walk serves handed.tables (and_within _ _)] at walked
  cases walked
  have byKernel : world.current = 0 := by
    by_contra other
    have regions := serves.others 0 (Ne.symm other)
    rw [AddressSpace.backing, regions] at backed
    obtain ⟨vmr, listed, inside⟩ := handed.region
    cases first : (world.procs 0).regions.find? (VMRegion.contains (pageAlign cr2)) with
    | none => exact List.find?_eq_none.mp first vmr listed inside
    | some owner =>
      rw [first] at backed
      exact (handed.recorded.regions 0 owner (List.mem_of_find?_eq_some first) _ _ backed).2
        serves.wasFree
  exact ⟨byKernel, byKernel ▸ serves.unheld⟩

theorem resolves_of_kernel (handed : Handed roots world page entry) (inPage : pageAlign cr2 = page)
    (fault : WriteFault errorCode) (supply : 7 ≤ world.pmm.supply) (scratch : ScratchReady world)
    (byKernel : world.current = 0) : Resolves world cr2 errorCode := by
  subst inPage
  have ready : CowReady world (pageAlign cr2) (entry &&& flagMask) := by
    constructor
    · rw [handed.leaf]
      exact handed.there
    · exact handed.own
    · intro _
      rw [BitVec.and_assoc, show flagMask &&& pageUser = pageUser from by decide]
      exact handed.private_
    · exact supply
    · rw [byKernel]
      exact .inr handed.region
    · exact scratch
  have walkable := walkable_of_own handed.tables handed.tables.current handed.own
  obtain ⟨_, after, ran, rfl, phys, serves⟩ := ends_exists (ends_mono
    (write_fault_ends handed.tables walkable handed.leaf (fault.copies handed.there handed.marked))
    (fun _ _ done => done) (fun _ notReady => notReady ready))
  have isFrame := handed.tables.pmm.isFrame serves.wasFree
  refine ⟨after, phys, _, ran, served_walk serves handed.tables (and_within _ _),
    (served_entry_rights _ isFrame).1, ?_⟩
  rw [← byKernel]
  exact serves.backing

end Handed

/-- A first write to a page of the kernel is served for the kernel process only,
and not while that process' own allocator of user addresses is locked. -/
theorem kernel_page_resolved_iff {roots : Set Word} {start granted world : World}
    {num flags virt cr2 errorCode : Word} {i : Nat} (tables : Tables roots start)
    (kernelRoot : (start.procs 0).theCR3 ∈ roots)
      (range : InKernelRange ((start.procs 0).vmmStates .kernel))
    (fits : ∀ vmr ∈ (start.procs 0).regions, vmr.Fits)
    (handedOut : (Vmm.allocate num .kernel flags (some 0)).run start = .ok (virt, granted))
    (below : i < num.toNat) (awaits : Awaits roots granted world (pageAt virt i))
    (inPage : pageAlign cr2 = pageAt virt i) (fault : WriteFault errorCode) :
    Resolves world cr2 errorCode ↔ world.current = 0 ∧ world.held ≠ some (0, .user) := by
  obtain ⟨_, handed⟩ := handed_of_allocate tables kernelRoot range fits handedOut below awaits
  constructor
  · exact resolved_by_kernel handed inPage fault
  · rintro ⟨byKernel, unheld⟩
    have scratch := awaits.scratch (byKernel ▸ unheld)
    exact resolves_of_kernel handed inPage fault awaits.supply scratch byKernel

/-! A page for the kernel process of the young world. -/

theorem youngWorld_onePage :
    ∃ st, OnePage (youngWorld 0 0) .kernel 0xFFFFFFFF80000000 pageWrite st := by
  refine ⟨_, ?_, rfl, by decide, by decide, by decide, by decide, ?_, by decide, ?_⟩
  · intro held
    cases held
  · rw [youngWorld_unmapped (youngWorld_tables 0 0).current (by decide)]
    decide
  · intro space regions
    have none : Pieces.scan (VMRegion.touches 0xFFFFFFFF80000000 1) space.regions = none := by
      rw [regions]
      rfl
    rw [AddressSpace.addRegion, if_neg (by decide), none]
    exact ⟨_, rfl⟩

theorem youngWorld_handed (proc : Nat) :
    ∃ granted, (Vmm.allocate 1 .kernel pageWrite (some 0)).run (youngWorld 0 0) =
      .ok (0xFFFFFFFF80000000, granted) ∧
    granted.held = none ∧ Awaits youngRoots granted { granted with current := proc }
      (pageAt 0xFFFFFFFF80000000 0) := by
  have tables := youngWorld_tables 0 0
  have isRoot : ((youngWorld 0 0).procs 0).theCR3 ∈ youngRoots := youngWorld_root 0
  obtain ⟨_, page⟩ := youngWorld_onePage
  have self : (some 0).getD (youngWorld 0 0).current = (youngWorld 0 0).current := rfl
  obtain ⟨_, granted, ran, rfl, supply, _, vmmStates⟩ :=
    ends_exists (allocate_one_ends tables self page)
  have owner : ((youngWorld 0 0).procs ((some 0).getD (youngWorld 0 0).current)).theCR3 = 0x1000 :=
    rfl
  obtain ⟨grant, _⟩ := ends_of_ok (allocate_ends tables owner isRoot (by decide) .kernel pageWrite)
      ran
  have evolves := grant.evolves.switch (youngWorld_root proc)
  refine ⟨granted, ran, grant.evolves.held, evolves.tables, rfl, rfl, id, ?_, ?_, ?_⟩
  · have recorded := grant.recorded youngWorld_recorded
    exact ⟨recorded.regions, recorded.shared⟩
  · have young : (youngWorld 0 0).pmm.supply = 64 := rfl
    rw [young] at supply
    show 7 ≤ granted.pmm.supply
    omega
  · intro _
    have ready : ScratchReady (youngWorld 0 proc) := youngWorld_scratch
    apply ready.keep evolves (youngWorld_tables 0 proc)
    · exact vmmStates proc .user (by decide)
    · rintro virt free ⟨i, first, samePath, _, _⟩
      obtain ⟨_, _⟩ := (youngWorld_freePages proc _).mp free
      cases Nat.lt_one_iff.mp first
      -- user addresses are in the lower half
      have slot : indexPML4 virt = indexPML4 0xFFFFFFFF80000000 := by
        rw [pageAt_zero] at samePath
        exact (List.cons.inj samePath).1
      have number := congrArg BitVec.toNat slot
      rw [indexPML4, indexPML4, index_toNat, index_toNat] at number
      have base : (0xFFFFFFFF80000000 : Word).toNat = 0xFFFFFFFF80000000 := rfl
      omega

theorem youngWorld_kernelRange : InKernelRange (((youngWorld 0 0).procs 0).vmmStates .kernel) := by
  rintro _ (_ | ⟨_, ⟨⟩⟩)
  exact ⟨⟨by decide, by decide, by decide⟩, by decide, by decide⟩

theorem youngWorld_fits : ∀ vmr ∈ ((youngWorld 0 0).procs 0).regions, vmr.Fits := by
  rintro _ (_ | ⟨_, ⟨⟩⟩)
  show (0x600000 : Word).toNat + 4096 * (1 : Word).toNat < 2 ^ 64
  decide

/-- The kernel process itself writes first. -/
theorem kernel_page_resolved_by_kernel : ∃ granted,
    (Vmm.allocate 1 .kernel pageWrite (some 0)).run (youngWorld 0 0) =
      .ok (0xFFFFFFFF80000000, granted) ∧
    Resolves { granted with current := 0 } 0xFFFFFFFF80000000 0x3 := by
  obtain ⟨granted, ran, unheld, awaits⟩ := youngWorld_handed 0
  have inPage : pageAlign 0xFFFFFFFF80000000 = pageAt 0xFFFFFFFF80000000 0 := by decide
  refine ⟨granted, ran, ?_⟩
  apply (kernel_page_resolved_iff (youngWorld_tables 0 0) (youngWorld_root 0) youngWorld_kernelRange
    youngWorld_fits ran (by decide) awaits inPage ⟨by decide, by decide, by decide⟩).mpr
  exact ⟨rfl, by simp [unheld]⟩

/-- Process 1 happens to run when the kernel writes. -/
theorem kernel_page_unresolved_by_user :
    ∃ granted, (Vmm.allocate 1 .kernel pageWrite (some 0)).run (youngWorld 0 0) =
      .ok (0xFFFFFFFF80000000, granted) ∧
    Awaits youngRoots granted { granted with current := 1 } 0xFFFFFFFF80000000 ∧ ScratchReady
    { granted with current := 1 } ∧ ¬ Resolves { granted with current := 1 } 0xFFFFFFFF80000000
      0x3 := by
  obtain ⟨granted, ran, unheld, awaits⟩ := youngWorld_handed 1
  have inPage : pageAlign 0xFFFFFFFF80000000 = pageAt 0xFFFFFFFF80000000 0 := by decide
  obtain ⟨_, handed⟩ := handed_of_allocate (youngWorld_tables 0 0) (youngWorld_root 0)
    youngWorld_kernelRange youngWorld_fits ran (by decide) awaits
  refine ⟨granted, ran, pageAt_zero 0xFFFFFFFF80000000 ▸ awaits, awaits.scratch ?_, ?_⟩
  · simp [unheld]
  · intro resolves
    have byKernel := resolved_by_kernel handed inPage ⟨by decide, by decide, by decide⟩ resolves
    exact Nat.one_ne_zero byKernel.1

end Nx.KernelPages
