import Nx.FaultEffects

/-!
`vmm::allocate` and the other ways of reserving address space, as seen from the
page tables and the records: a range that is handed out is mapped copy-on-write
to the zero page, lies in a region of its owner, and nothing else moves.
-/

namespace Nx.Allocations

open Words Paging Physical Vmregion Machine Virtmap Outcomes PageTables Mapping Evolution Vmm
  PageFault FaultEffects

variable {roots : Set Word} {world : World}

/-! Regions. -/

theorem addRegion_ends (world : World) (addr num : Word) (proc : Nat) :
    Ends (addRegion addr num proc) world
    (fun _ after => ∃ space, (world.procs proc).addRegion addr num = .ok space ∧
      after = world.setProc proc space)
    (fun abort => (world.procs proc).addRegion addr num = .error abort) := by
  apply ends_get
  cases result : (world.procs proc).addRegion addr num with
  | error => exact ends_throw _ rfl
  | ok space => exact ends_set _ ⟨space, rfl, rfl⟩

theorem addRegion_evolves (tables : Tables roots world)
    (added : (world.procs proc).addRegion addr num = .ok space) :
    Evolves roots noLeaf world (world.setProc proc space) := by
  have ⟨theCR3, _⟩ := addRegion_backings added
  have kept : ∀ other, ((world.setProc proc space).procs other).theCR3 =
      (world.procs other).theCR3 := by
    intro other
    by_cases same : other = proc
    · subst same
      rw [World.setProc_self, theCR3]
    · rw [World.setProc_of_ne _ same]
  exact Evolves.ofSameMemory tables rfl rfl kept rfl rfl

theorem addRegion_recorded (recorded : Recorded world)
    (added : (world.procs proc).addRegion addr num = .ok space) :
    Recorded (world.setProc proc space) := by
  have ⟨_, _, _, backings⟩ := addRegion_backings added
  refine ⟨?_, recorded.shared⟩
  intro other vmr listed virt frame backed
  by_cases same : other = proc
  · subst same
    rw [World.setProc_self] at listed
    rcases backings vmr listed with empty | ⟨old, wasListed, sameBacking⟩
    · rw [empty virt] at backed
      cases backed
    · rw [sameBacking] at backed
      exact recorded.regions other old wasListed virt frame backed
  · rw [World.setProc_of_ne _ same] at listed
    exact recorded.regions other vmr listed virt frame backed

/-! Ranges that are handed out. -/

structure Granted (roots : Set Word) (world after : World) (owner : Nat) (root virt num flags :
    Word) : Prop where
  evolves : Evolves roots (leavesOf root virt num.toNat) world after
  mapped : ∀ i < num.toNat, paging.own (indexPML4 (pageAt virt i)) ∧
    (255 < indexPML4 (pageAt virt i) → cowFlags flags &&& pageUser = 0) ∧
    leafOf (entryAt after.mem root (pageAt virt i)) =
      leafOf (world.pmm.zeroPageAddr ||| cowFlags flags)
  added : ∃ space : AddressSpace, space.regions = (world.procs owner).regions ∧
    space.addRegion virt num = .ok (after.procs owner)
  recorded : Recorded world → Recorded after

theorem cowFlags_readOnly (flags : Word) : cowFlags (flags &&& ~~~ pageWrite) = cowFlags flags := by
  rw [cowFlags, cowFlags, BitVec.and_assoc, BitVec.and_self]

theorem cow_of_cowFlags (phys flags : Word) :
    (phys ||| cowFlags flags) &&& pageCopyOnWrite ≠ 0 := by
  rw [cowFlags, ← BitVec.or_assoc, or_and_absorb]
  decide

theorem allocate_ends (tables : Tables roots world) {proc} {root}
    (theCR3 : (world.procs (proc.getD world.current)).theCR3 = root) (isRoot : root ∈ roots) {num}
      (nonzero : num ≠ 0)
    (type : AddressSpaceType) (flags : Word) : Ends (Vmm.allocate num type flags proc) world
      (fun virt after =>
    Granted roots world after (proc.getD world.current) root virt num flags ∧ virt ≠ 0 ∧
    ∃ st, ((world.procs (proc.getD world.current)).vmmStates type).allocate num (fun _ _ => true) =
      .ok (virt, st))
    (fun _ => True) := by
  apply ends_get
  apply ends_call (allocateAddrSpace_ends nonzero type (some (proc.getD world.current)))
    (fun _ _ => trivial)
  rintro virt reserved ⟨_, _, st, allocated, set⟩
  have ⟨toReserved, reservedBooks⟩ := evolves_of_setProc tables set
  apply refuse_then (fun _ => trivial)
  intro someWhere
  have owner : (reserved.procs ((some (proc.getD world.current)).getD reserved.current)).theCR3 =
      root := by
    rw [Option.getD_some, toReserved.theCR3, theCR3]
  apply ends_seq (mapZeroedCOW_evolves toReserved.tables owner isRoot virt num _)
  rintro _ mapped ⟨toMapped, mappedBooks, pages⟩
  apply ends_call (addRegion_ends mapped virt num _) (fun _ _ => trivial)
  rintro _ _ ⟨_, added, rfl⟩
  apply ends_pure
  have books := reservedBooks.trans mappedBooks
  have upTo := toReserved.onwards toMapped
  refine ⟨?_, by simpa using someWhere, st, allocated⟩
  constructor
  · exact upTo.quietly (addRegion_evolves upTo.tables added)
  · intro i below
    rw [← cowFlags_readOnly, ← toReserved.zeroPage]
    exact pages i below
  · refine ⟨_, books.regions _, ?_⟩
    rw [added, World.setProc_self]
  · intro recorded
    exact addRegion_recorded (recorded.keep books upTo.free) added

/-! One page for the current process, with nothing in the way. -/

/-- The allocator has the page `virt`, which the tables and the regions can take. -/
structure OnePage (world : World) (type : AddressSpaceType) (virt flags : Word) (st : Extmm.State) :
    Prop where
  unheld : world.held ≠ some (world.current, type)
  allocated : ((world.procs world.current).vmmStates type).allocate 1 (fun _ _ => true) =
    .ok (virt, st)
  nonzero : virt ≠ 0
  aligned : virt.toNat % 4096 = 0
  own : paging.own (indexPML4 virt)
  user : 255 < indexPML4 virt → cowFlags flags &&& pageUser = 0
  absent : present (entryAt world.mem world.cr3 virt) = false
  supply : 3 ≤ world.pmm.supply
  region : ∀ space : AddressSpace, space.regions = (world.procs world.current).regions →
    ∃ after, space.addRegion virt 1 = .ok after

theorem mapZeroedCOW_one_ends (tables : Tables roots world) {proc}
    (self : proc.getD world.current = world.current)
    {virt flags} (aligned : virt.toNat % 4096 = 0) (readOnly : flags &&& pageWrite = 0) :
    Ends (mapZeroedCOW virt 1 flags proc) world (fun _ after =>
    Rewrites roots (leafOfPage world.cr3 virt) 3 world after) (fun _ =>
    MapRefused world world.cr3 virt (cowFlags flags) false) := by
  apply assertThat_then ((isPageAligned_iff virt).mpr aligned)
  apply assertThat_then (by simpa using readOnly)
  rw [forPages_one]
  apply ends_get
  rw [show virt + ofsPages 0 = virt by simp [ofsPages]]
  have zeroPage := (isFrame_iff _).mp tables.pmm.zeroPage
  exact ends_imp (mapInternal_ends tables self aligned zeroPage.1 (cowFlags flags) false)
    (fun _ _ done => done.1)

theorem allocate_one_ends (tables : Tables roots world) {proc}
    (self : proc.getD world.current = world.current)
    {type : AddressSpaceType} {virt flags} {st} (page : OnePage world type virt flags st) :
    Ends (Vmm.allocate 1 type flags proc) world (fun ret after => ret = virt ∧ world.pmm.supply ≤
      after.pmm.supply + 3 ∧
    (after.procs world.current).vmmStates type = st ∧
    (∀ other kind, kind ≠ type → (after.procs other).vmmStates kind =
      (world.procs other).vmmStates kind)) (fun _ =>
    False) := by
  apply ends_get
  rw [self]
  apply ends_call (allocateAddrSpace_ends (by decide) type (some world.current))
  · rintro _ (held | ⟨ret, other, allocated, misaligned⟩)
    · exact page.unheld held
    · cases page.allocated.symm.trans allocated
      exact misaligned page.aligned
  rintro _ reserved ⟨_, _, other, allocated, set⟩
  cases page.allocated.symm.trans allocated
  have ⟨toReserved, reservedBooks⟩ := evolves_of_setProc tables set
  have readOnly := without_pageWrite flags
  apply refuse_then (fun zero => page.nonzero (by simpa using zero))
  intro _
  have sameMem : reserved.mem = world.mem := by
    rw [set]
    rfl
  have samePmm : reserved.pmm = world.pmm := by
    rw [set]
    rfl
  apply ends_call (mapZeroedCOW_one_ends toReserved.tables _ page.aligned readOnly)
  · intro _ refused
    rw [cowFlags_readOnly, toReserved.cr3] at refused
    cases refused with
    | reserved slot => exact slot page.own
    | highUser high userFlag => exact userFlag (page.user high)
    | mapped _ there =>
      rw [sameMem, page.absent] at there
      cases there
    | exhausted few =>
      rw [samePmm] at few
      have supply := page.supply
      omega
  · rintro _ mapped toMapped
    have books := reservedBooks.trans (SameBooks.ofUndisturbed toMapped.undisturbed)
    obtain ⟨_, added⟩ := page.region (mapped.procs world.current) (books.regions _)
    apply ends_call (addRegion_ends mapped virt 1 world.current)
    · intro _ refused
      cases added.symm.trans refused
    rintro _ _ ⟨_, ran, rfl⟩
    cases added.symm.trans ran
    apply ends_pure
    refine ⟨rfl, ?_, ?_, ?_⟩
    · have spent := toMapped.supply
      rw [samePmm] at spent
      exact spent
    · rw [World.setProc_self, (addRegion_backings ran).2.1, toMapped.undisturbed.vmmStates, set,
        Option.getD_some, World.setProc_self]
      exact Function.update_self _ _ _
    · intro other _ differs
      by_cases mine : other = world.current
      · subst mine
        rw [World.setProc_self, (addRegion_backings ran).2.1, toMapped.undisturbed.vmmStates, set,
          Option.getD_some, World.setProc_self]
        exact Function.update_of_ne differs _ _
      · rw [World.setProc_of_ne _ mine, toMapped.undisturbed.vmmStates, set, Option.getD_some,
          World.setProc_of_ne _ mine]
  · rw [toReserved.current]
    rfl

end Nx.Allocations
