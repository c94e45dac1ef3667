import Nx.PageFault

/-!
What serving a fault does to memory and to the books of the address spaces, for both branches of the
handler: the page gets its frame, other pages and frames in use stay as they are.
-/

namespace Nx.FaultEffects

open Words Radix Pieces Paging Physical Vmregion Machine Virtmap Outcomes PageTables
  Mapping Function
  Evolution Vmm PageFault

/-! The books. -/

structure Recorded (world : World) : Prop where
  regions : ∀ proc, ∀ vmr ∈ (world.procs proc).regions, ∀ virt frame,
    vmr.backingPhysPages virt = some frame → IsFrame frame ∧ ¬ world.pmm.Free frame
  shared : ∀ ticket index frame, world.store ticket index = some frame → IsFrame frame ∧
    ¬ world.pmm.Free frame

variable {before after : World} {proc : Nat} {virt phys ret page flags : Word}

theorem Recorded.keep (recorded : Recorded before) (books : SameBooks before after)
    (free : ∀ frame, after.pmm.Free frame → before.pmm.Free frame) : Recorded after where
  regions := by
    intro proc vmr listed virt frame backed
    rw [books.regions proc] at listed
    have ⟨isFrame, used⟩ := recorded.regions proc vmr listed virt frame backed
    exact ⟨isFrame, fun isFree => used (free frame isFree)⟩
  shared := by
    intro ticket index frame backed
    rw [books.store] at backed
    have ⟨isFrame, used⟩ := recorded.shared ticket index frame backed
    exact ⟨isFrame, fun isFree => used (free frame isFree)⟩

structure Enters (before after : World) (proc : Nat) (virt phys : Word) : Prop where
  mem : after.mem = before.mem
  pmm : after.pmm = before.pmm
  current : after.current = before.current
  held : after.held = before.held
  theCR3 : ∀ other, (after.procs other).theCR3 = (before.procs other).theCR3
  vmmStates : ∀ other, (after.procs other).vmmStates = (before.procs other).vmmStates
  others : ∀ other ≠ proc, after.procs other = before.procs other
  backing : (after.procs proc).backing after.store virt = some phys
  recorded : Recorded before → IsFrame phys → ¬ before.pmm.Free phys → Recorded after

theorem Enters.evolves (enters : Enters before after proc virt phys)
    (tables : Tables roots before) :
    Evolves roots noLeaf before after :=
  Evolves.ofSameMemory tables enters.mem enters.pmm enters.theCR3 enters.current enters.held

theorem addPhysicalMapping_refused {space} {store}
    (refused : space.addPhysicalMapping store virt phys = .error abort) :
    abort = .vmregionNoExtent virt ∧ ¬ Covered space virt := by
  unfold AddressSpace.addPhysicalMapping at refused
  split at refused
  · cases refused
  · rename_i noOwn
    split at refused
    · cases refused
    · rename_i noShared
      cases refused
      refine ⟨rfl, ?_⟩
      rw [List.find?_eq_none] at noShared
      rintro (⟨svmr, listed, inside⟩ | ⟨vmr, listed, inside⟩)
      · exact noShared svmr listed inside
      · rw [(scan_none_iff _ _).mp noOwn vmr listed] at inside
        cases inside

theorem Recorded.enterOwn (recorded : Recorded world)
    (split : (world.procs proc).regions = lower ++ vmr :: upper) (isFrame : IsFrame phys)
    (used : ¬ world.pmm.Free phys) : Recorded (world.setProc proc { world.procs proc with
      regions := lower ++ { vmr with
        backingPhysPages := update vmr.backingPhysPages virt (some phys) } :: upper }) := by
  refine ⟨?_, recorded.shared⟩
  intro other entry listed page frame backed
  by_cases same : other = proc
  · subst same
    simp only [World.setProc, update_self, List.mem_append, List.mem_cons] at listed
    have old : entry ∈ (world.procs other).regions → _ := fun member =>
      recorded.regions other entry member page frame backed
    rw [split] at old
    rcases listed with low | rfl | up
    · exact old (by simp [low])
    · by_cases atPage : page = virt
      · subst atPage
        simp only [update_self, Option.some.injEq] at backed
        subst backed
        exact ⟨isFrame, used⟩
      · simp only [update_of_ne atPage] at backed
        exact recorded.regions other vmr (by simp [split]) page frame backed
    · exact old (by simp [up])
  · simp only [World.setProc, update_of_ne same] at listed
    exact recorded.regions other entry listed page frame backed

theorem Recorded.enterShared (recorded : Recorded world) (isFrame : IsFrame phys)
    (used : ¬ world.pmm.Free phys) :
    Recorded { world with
      store := update world.store ticket (update (world.store ticket) index (some phys)) } := by
  refine ⟨recorded.regions, ?_⟩
  intro other page frame backed
  by_cases sameTicket : other = ticket
  · subst sameTicket
    simp only [update_self] at backed
    by_cases sameIndex : page = index
    · subst sameIndex
      simp only [update_self, Option.some.injEq] at backed
      subst backed
      exact ⟨isFrame, used⟩
    · simp only [update_of_ne sameIndex] at backed
      exact recorded.shared _ page frame backed
  · simp only [update_of_ne sameTicket] at backed
    exact recorded.shared other page frame backed

theorem setProc_self (world : World) (proc : Nat) :
    world.setProc proc (world.procs proc) = world := by
  rw [World.setProc, update_eq_self]

theorem addPhysicalMapping_ends (world : World) (virt phys : Word) (proc : Nat) :
    Ends (addPhysicalMapping virt phys proc) world
      (fun _ after => Enters world after proc virt phys) (fun abort =>
    abort = .vmregionNoExtent virt ∧ ¬ Covered (world.procs proc) virt) := by
  apply ends_get
  cases result : (world.procs proc).addPhysicalMapping world.store virt phys with
  | error => exact ends_throw _ (addPhysicalMapping_refused result)
  | ok triple =>
    obtain ⟨_, space, _⟩ := triple
    apply ends_set
    have here : (world.setProc proc space).procs proc = space := update_self _ _ _
    have elsewhere : ∀ other ≠ proc, (world.setProc proc space).procs other = world.procs other :=
      fun other differs => update_of_ne differs _ _
    have cases := addPhysicalMapping_cases result
    have kept : space.theCR3 = (world.procs proc).theCR3 ∧ space.vmmStates =
        (world.procs proc).vmmStates := by
      rcases cases with ⟨_, _, _, _, _, _, _, rfl⟩ | ⟨_, _, _, rfl, _⟩
      · exact ⟨rfl, rfl⟩
      · exact ⟨rfl, rfl⟩
    constructor
    · rfl
    · rfl
    · rfl
    · rfl
    · intro other
      by_cases same : other = proc
      · subst same
        rw [here]
        exact kept.1
      · rw [elsewhere other same]
    · intro other
      by_cases same : other = proc
      · subst same
        rw [here]
        exact kept.2
      · rw [elsewhere other same]
    · exact elsewhere
    · rw [here]
      exact backing_addPhysicalMapping result
    · intro recorded isFrame used
      rcases cases with ⟨_, _, _, split, _, _, rfl, rfl⟩ | ⟨_, _, _, rfl, rfl⟩
      · exact recorded.enterOwn split isFrame used
      · rw [setProc_self]
        exact recorded.enterShared isFrame used

/-! The scratch page. -/

/-- The current process has a page of user addresses to spare, and the tables
agree that it is not in use. -/
structure ScratchReady (world : World) : Prop where
  unheld : world.held ≠ some (world.current, .user)
  sound : ∀ extent ∈ ((world.procs world.current).vmmStates .user).head, extent.Sound
  apart : Apart (((world.procs world.current).vmmStates .user).head.map Extmm.Extent.pages)
  range : ∀ page ∈ ((world.procs world.current).vmmStates .user).freePages, 0x400 ≤ page ∧
    page < 0x7FFFFFFF8
  spare : ∃ extent ∈ ((world.procs world.current).vmmStates .user).head, 1 ≤ extent.size
  unmapped : ∀ virt : Word, virt.toNat / 4096 ∈
    ((world.procs world.current).vmmStates .user).freePages →
    present (entryAt world.mem world.cr3 virt) = false

structure UserPage (virt : Word) : Prop where
  aligned : virt.toNat % 4096 = 0
  above : 0x400 ≤ virt.toNat / 4096
  below : virt.toNat / 4096 < 0x7FFFFFFF8

theorem UserPage.low (user : UserPage virt) : (indexPML4 virt).toNat < 256 := by
  have below := user.below
  rw [indexPML4, index_toNat]
  omega

theorem own_of_low {index} (low : index.toNat < 256) : paging.own index := by
  constructor
  · rintro rfl
    exact absurd low (by decide)
  · rintro rfl
    exact absurd low (by decide)

theorem UserPage.own (user : UserPage virt) : paging.own (indexPML4 virt) :=
  own_of_low user.low

theorem findAddrSpace_user {num} (above : 0x400000 ≤ virt.toNat)
    (below : virt.toNat + 4096 * num.toNat ≤ 0x7FFFFFFF8000) : Vmm.findAddrSpace virt num =
      some .user := by
  have notKernel : ¬ (0xFFFFFFFF80000000 : Word) ≤ virt := by
    have base : (0xFFFFFFFF80000000 : Word).toNat = 0xFFFFFFFF80000000 := rfl
    rw [BitVec.le_def]
    omega
  have notHeap : ¬ (0xFFFFFF8000000000 : Word) ≤ virt := by
    have base : (0xFFFFFF8000000000 : Word).toNat = 0xFFFFFF8000000000 := rfl
    rw [BitVec.le_def]
    omega
  have fromBase : (0x400000 : Word) ≤ virt := above
  have toTop : endOf virt num ≤ (0x7FFFFFFF8000 : Word) := by
    rw [BitVec.le_def, endOf_toNat _ _ (by omega)]
    exact below
  rw [Vmm.findAddrSpace, addressSpaces, List.find?_cons_of_neg, List.find?_cons_of_neg,
    List.find?_cons_of_pos]
  · rfl
  · rw [Bool.and_eq_true, decide_eq_true_eq, decide_eq_true_eq]
    exact ⟨fromBase, toTop⟩
  · rw [Bool.and_eq_true, decide_eq_true_eq]
    exact fun both => notHeap both.1
  · rw [Bool.and_eq_true, decide_eq_true_eq]
    exact fun both => notKernel both.1

theorem UserPage.findAddrSpace (user : UserPage virt) : findAddrSpace virt 1 = some .user := by
  have above := user.above
  have below := user.below
  have aligned := user.aligned
  have one : (1 : Word).toNat = 1 := rfl
  exact findAddrSpace_user (by omega) (by omega)

theorem ScratchReady.allocates (ready : ScratchReady world)
    (allocated : ((world.procs world.current).vmmStates .user).allocate 1 (fun _ _ => true) =
      .ok (ret, st)) :
    UserPage ret ∧ present (entryAt world.mem world.cr3 ret) = false ∧
    ∃ again, st.deallocate ret 1 none = .ok again := by
  have nonzero : ret ≠ 0 := by
    obtain ⟨_, ⟨_, _, none⟩ | ⟨_, extent, _, shape, ⟨enough, _⟩, _, rfl, _⟩⟩ :=
      Extmm.allocate_cases allocated
    · obtain ⟨extent, listed, fits⟩ := ready.spare
      exact absurd ⟨fits, rfl⟩ (none extent listed)
    · have sound := ready.sound extent (by simp [shape])
      have size : (1 : Word).toNat ≤ extent.size.toNat := enough
      have offZero := sound.offZero (by
        have one : (1 : Word).toNat = 1 := rfl
        omega)
      intro zero
      rw [zero] at offZero
      exact absurd offZero (by decide)
  have ⟨_, _, aligned, wasFree, _⟩ := allocate_one ready.sound ready.apart allocated nonzero
  have ⟨above, below⟩ := ready.range _ wasFree
  exact ⟨⟨aligned, above, below⟩, ready.unmapped ret wasFree,
    deallocate_allocated ready.sound ready.apart allocated nonzero⟩

theorem deallocateAddrSpace_ends (addr num : Word) : Ends (deallocateAddrSpace addr num none) world
      (fun _ after => ∃ states, after = world.setProc world.current
        { world.procs world.current with vmmStates := states })
      (fun _ => addr.toNat % 4096 ≠ 0 ∨ findAddrSpace addr num = none ∨
        ∃ type, findAddrSpace addr num = some type ∧ (world.held = some (world.current, type) ∨
          ∃ abort, ((world.procs world.current).vmmStates type).deallocate addr num none =
            .error abort)) := by
  by_cases aligned : addr.toNat % 4096 = 0
  · apply assertThat_then ((isPageAligned_iff addr).mpr aligned)
    apply ends_get
    cases found : findAddrSpace addr num with
    | none =>
      rw [getAddrSpace, found]
      exact ends_bind (ends_throw _ (.inr (.inl rfl)))
    | some type =>
      rw [getAddrSpace, found]
      apply ends_bind
      apply ends_pure
      apply refuse_then
      · intro held
        exact .inr (.inr ⟨type, rfl, .inl (by simpa using held)⟩)
      intro _
      cases result : ((world.procs world.current).vmmStates type).deallocate addr num none with
      | error abort =>
        simp only [Option.getD_none, result]
        exact ends_throw _ (.inr (.inr ⟨type, rfl, .inr ⟨abort, result⟩⟩))
      | ok =>
        simp only [Option.getD_none, result]
        exact ends_set _ ⟨_, rfl⟩
  · apply ends_read (assertThat_ends fun _ => .inl aligned)
    intro _ passed
    exact absurd ((isPageAligned_iff addr).mp passed) aligned

theorem translate_off_frame (tables : Tables roots world) (own : paging.own (indexPML4 page))
    (notTable : ¬ paging.Reached world.mem roots phys)
    (maps : (leafOf (entryAt world.mem world.cr3 page)).map Prod.fst = some frame)
    (same : ∀ other ≠ phys, mem other = world.mem other) : Paging.translate mem world.cr3 page =
      some frame := by
  rw [translate_firm tables own _, maps]
  intro _ reached
  apply same
  rintro rfl
  exact notTable reached

theorem leafOf_served (isFrame : IsFrame phys) (within : (flags ||| pagePresent) &&& flagMask =
    flags ||| pagePresent) :
    (leafOf (phys ||| (flags ||| pagePresent))).map Prod.fst = some phys := by
  have there : present (phys ||| (flags ||| pagePresent)) = true := by
    rw [← BitVec.or_assoc]
    exact present_marked _
  rw [leafOf, if_pos there, entryFrame_or isFrame within]
  rfl

theorem ScratchReady.maps (ready : ScratchReady world) (enough : 3 ≤ world.pmm.supply)
    (allocated : ((world.procs world.current).vmmStates .user).allocate 1 (fun _ _ => true) =
      .ok (ret, st)) {readied}
    (mem : readied.mem = world.mem) (pmm : readied.pmm = world.pmm) :
    ¬ MapRefused readied world.cr3 ret flags false := by
  have ⟨user, absent, _⟩ := ready.allocates allocated
  intro refused
  cases refused with
  | reserved slot => exact slot user.own
  | highUser high =>
    have low := user.low
    have above : (255 : Index).toNat < (indexPML4 ret).toNat := high
    have limit : (255 : Index).toNat = 255 := rfl
    omega
  | mapped _ there =>
    rw [mem, absent] at there
    cases there
  | exhausted few =>
    rw [pmm] at few
    omega

theorem ScratchReady.frees (ready : ScratchReady world)
    (allocated : ((world.procs world.current).vmmStates .user).allocate 1 (fun _ _ => true) =
      .ok (ret, st)) {later : World} (held : later.held = world.held)
        (current : later.current = world.current)
    (state : (later.procs world.current).vmmStates .user = st) :
      ¬ (ret.toNat % 4096 ≠ 0 ∨ findAddrSpace ret 1 = none ∨
      ∃ type, findAddrSpace ret 1 = some type ∧ (later.held = some (later.current, type) ∨
        ∃ abort, ((later.procs later.current).vmmStates type).deallocate ret 1 none =
          .error abort)) := by
  have ⟨user, _, again, givenBack⟩ := ready.allocates allocated
  rintro (misaligned | outside | ⟨_, found, locked | ⟨_, error⟩⟩)
  · exact misaligned user.aligned
  · rw [user.findAddrSpace] at outside
    cases outside
  · rw [user.findAddrSpace] at found
    cases found
    rw [held, current] at locked
    exact ready.unheld locked
  · rw [user.findAddrSpace] at found
    cases found
    rw [current, state, givenBack] at error
    cases error

theorem other_leaf (maps : (leafOf (entryAt mem root page)).map Prod.fst = some phys)
    (absent : present (entryAt mem root virt) = false) :
    ¬ leafOfPage root virt root (tablePath page) (indexPageTable page) := by
  rintro ⟨samePath, sameIndex, _⟩
  have same : entryAt mem root page = entryAt mem root virt := by
    rw [entryAt, entryAt, samePath, sameIndex]
  rw [same, leafOf_eq_none.mpr absent] at maps
  cases maps

/-- Both addresses lead to one frame, so that the copy changes nothing; the scratch page is gone
then. -/
theorem copyOver_ends (tables : Tables roots world) (own : paging.own (indexPML4 page))
    (scratchOwn : paging.own (indexPML4 virt)) (aligned : virt.toNat % 4096 = 0)
      (isFrame : IsFrame phys)
    (notTable : ¬ paging.Reached world.mem roots phys)
    (maps : (leafOf (entryAt world.mem world.cr3 page)).map Prod.fst = some phys)
    (scratchEntry : entryAt world.mem world.cr3 virt = phys |||
      (pageNx ||| pageUser ||| pagePresent ||| pagePresent)) :
    Ends (copyPage page virt >>= fun _ => unmapAddress virt 1 false none) world (fun _ after =>
      Rewrites roots (leafOfPage world.cr3 virt) 0 world after ∧
        present (entryAt after.mem world.cr3 virt) = false)
      (fun _ => False) := by
  have firm : MapsFirmly world page phys :=
    fun _ same => translate_off_frame tables own notTable maps same
  have scratchPresent : present (entryAt world.mem world.cr3 virt) = true := by
    rw [scratchEntry, ← BitVec.or_assoc]
    exact present_marked _
  have source : ∀ mem : Memory, (∀ other ≠ phys, mem other = world.mem other) →
      Paging.translate mem world.cr3 virt = some phys := by
    intro _ same
    apply translate_off_frame tables scratchOwn notTable _ same
    rw [scratchEntry]
    exact leafOf_served isFrame (by decide)
  apply ends_seq (copyPage_ends firm source)
  intro _ copied copy
  have same : copied = world := by rw [copy, update_eq_self]
  subst same
  apply ends_mono (unmapAddress_one_ends tables (self_none copied) aligned scratchOwn false)
  · exact fun _ _ done => done
  · intro _ missing
    rw [scratchPresent] at missing
    cases missing

theorem copyFrame_ends (tables : Tables roots world) (own : paging.own (indexPML4 page))
    (isFrame : IsFrame phys)
    (notTable : ¬ paging.Reached world.mem roots phys) (notFree : ¬ world.pmm.Free phys)
    (maps : (leafOf (entryAt world.mem world.cr3 page)).map Prod.fst = some phys) :
      Ends (copyFrame page phys) world
    (fun _ after => Evolves roots noLeaf world after ∧ SameBooks world after ∧ after.mem phys =
      world.mem phys ∧
    ¬ paging.Reached after.mem roots phys ∧ entryAt after.mem world.cr3 page =
      entryAt world.mem world.cr3 page ∧
    world.held ≠ some (world.current, .user))
      (fun _ => ¬ (3 ≤ world.pmm.supply ∧ ScratchReady world)) := by
  apply ends_call (allocateAddrSpace_ends (by decide) .user none)
  · rintro _ (held | ⟨_, st, allocated, misaligned⟩) ⟨_, ready⟩
    · exact ready.unheld held
    · exact misaligned (ready.allocates allocated).1.aligned
  rintro scratch readied ⟨unheld, scratchAligned, st, allocated, set⟩
  have ⟨toReadied, readiedBooks⟩ := evolves_of_setProc tables set
  have readiedMem : readied.mem = world.mem := by
    rw [set]
    rfl
  have readiedPmm : readied.pmm = world.pmm := by
    rw [set]
    rfl
  have readiedCr3 := toReadied.cr3
  have inner := toReadied.tables
  rw [mapAddress_one]
  have physAligned : phys.toNat % 4096 = 0 := ((isFrame_iff phys).mp isFrame).1
  apply ends_call (mapInternal_ends inner (self_none readied) scratchAligned physAligned _ false)
  · rintro _ refused ⟨enough, ready⟩
    rw [readiedCr3] at refused
    exact ready.maps enough allocated readiedMem readiedPmm refused
  rintro _ mapped ⟨toMapped, scratchOwn, _, absent, scratchEntry⟩
  rw [readiedMem, readiedCr3] at absent
  rw [readiedCr3] at toMapped scratchEntry
  have mappedCr3 : mapped.cr3 = world.cr3 := toMapped.undisturbed.cr3.trans readiedCr3
  -- the scratch page was not present, so it is another page
  have otherLeaf := other_leaf maps (absent rfl)
  have pageEntry : entryAt mapped.mem world.cr3 page = entryAt world.mem world.cr3 page := by
    rw [← readiedMem]
    exact toMapped.entries world.cr3 tables.current _ (inside_of_own own _) rfl _ otherLeaf
  have notTableNow : ¬ paging.Reached mapped.mem roots phys := by
    intro reached
    have := toMapped.reached phys reached
    rw [readiedMem, readiedPmm] at this
    exact this.elim notTable notFree
  rw [← bind_assoc]
  rw [← mappedCr3] at scratchEntry
  have mappedMaps : (leafOf (entryAt mapped.mem mapped.cr3 page)).map Prod.fst = some phys := by
    rw [mappedCr3, pageEntry]
    exact maps
  apply ends_call (copyOver_ends toMapped.tables own scratchOwn scratchAligned isFrame notTableNow
    mappedMaps scratchEntry)
  · exact fun _ never => never.elim
  rintro _ unmapped ⟨toUnmapped, gone⟩
  rw [mappedCr3] at toUnmapped gone
  have current : unmapped.current = world.current := by
    rw [toUnmapped.undisturbed.current, toMapped.undisturbed.current, toReadied.current]
  apply ends_mono (deallocateAddrSpace_ends scratch 1)
  · rintro _ after ⟨_, final⟩
    have ⟨toAfter, afterBooks⟩ := evolves_of_setProc toUnmapped.tables final
    have afterMem : after.mem = unmapped.mem := by
      rw [final]
      rfl
    have notTableThen : ¬ paging.Reached unmapped.mem roots phys := by
      intro reached
      rcases toUnmapped.reached phys reached with older | free
      · exact notTableNow older
      · have isFree := toMapped.free phys free
        rw [readiedPmm] at isFree
        exact notFree isFree
    have around : Evolves roots noLeaf readied unmapped := by
      have both := (Rewrites.evolves toMapped).both (Rewrites.evolves toUnmapped)
      apply Evolves.settle inner tables.current both _ gone
      rw [readiedMem]
      exact absent rfl
    refine ⟨?_, ?_, ?_, ?_, ?_, unheld⟩
    · exact (toReadied.both around).both toAfter
    · exact readiedBooks.trans ((SameBooks.ofUndisturbed toMapped.undisturbed).trans
        ((SameBooks.ofUndisturbed toUnmapped.undisturbed).trans afterBooks))
    · rw [afterMem, toUnmapped.data phys notTableThen, toMapped.data phys notTableNow, readiedMem]
    · rw [afterMem]
      exact notTableThen
    · rw [afterMem, ← pageEntry]
      exact toUnmapped.entries world.cr3 tables.current _ (inside_of_own own _) rfl _ otherLeaf
  · rintro _ refused ⟨_, ready⟩
    have held : unmapped.held = world.held := by
      rw [toUnmapped.undisturbed.held, toMapped.undisturbed.held, toReadied.held]
    have state : (unmapped.procs world.current).vmmStates .user = st := by
      rw [toUnmapped.undisturbed.vmmStates, toMapped.undisturbed.vmmStates, set]
      simp [World.setProc]
    exact ready.frees allocated held current state refused

/-! Writes to present pages. -/

structure CowReady (world : World) (page flags : Word) : Prop where
  there : present (entryAt world.mem world.cr3 page) = true
  own : paging.own (indexPML4 page)
  user : 255 < indexPML4 page → flags &&& pageUser = 0
  supply : 7 ≤ world.pmm.supply
  covered : Covered (world.procs world.current) page
  scratch : ScratchReady world

theorem CowReady.maps {world taken} (ready : CowReady world page flags)
    (enough : 3 ≤ taken.pmm.supply) :
    ¬ MapRefused taken root page (flags &&& ~~~ pageCopyOnWrite ||| pageWrite ||| pagePresent)
      true := by
  intro refused
  cases refused with
  | reserved slot => exact slot ready.own
  | highUser high userFlag =>
    apply userFlag
    have unprivileged := ready.user high
    rw [BitVec.and_or_distrib_right, BitVec.and_or_distrib_right, BitVec.and_assoc,
      BitVec.and_comm (~~~ pageCopyOnWrite), ← BitVec.and_assoc, unprivileged]
    decide
  | mapped keep => cases keep
  | exhausted => omega

/-- The page has the next free frame, writable, and that frame is on record. What
the page holds now is what the frame held before. -/
structure CowServes (roots : Set Word) (world after : World) (page flags phys : Word) : Prop where
  evolves : Evolves roots (leafOfPage world.cr3 page) world after
  next : phys = world.pmm.nextFrame
  wasFree : world.pmm.Free phys
  taken : ¬ after.pmm.Free phys
  own : paging.own (indexPML4 page)
  entry : entryAt after.mem world.cr3 page = phys |||
    ((flags &&& ~~~ pageCopyOnWrite) ||| pageWrite ||| pagePresent)
  contents : after.mem phys = world.mem phys
  backing : (after.procs world.current).backing after.store page = some phys
  others : ∀ proc ≠ world.current, (after.procs proc).regions = (world.procs proc).regions
  recorded : Recorded world → Recorded after
  unheld : world.held ≠ some (world.current, .user)

theorem covered_congr (books : SameBooks before after) (proc : Nat) (page : Word) :
    Covered (after.procs proc) page ↔ Covered (before.procs proc) page := by
  rw [Covered, Covered, books.regions, books.sharedRegions]

theorem ScratchReady.keep (ready : ScratchReady world)
    (evolves : Evolves roots changed world middle)
    (tables : Tables roots world)
    (vmmStates : (middle.procs world.current).vmmStates .user =
      (world.procs world.current).vmmStates .user)
    (apart : ∀ virt : Word, virt.toNat / 4096 ∈
      ((world.procs world.current).vmmStates .user).freePages →
    ¬ changed world.cr3 (tablePath virt) (indexPageTable virt)) : ScratchReady middle := by
  have current := evolves.current
  constructor
  · rw [evolves.held, current]
    exact ready.unheld
  · rw [current, vmmStates]
    exact ready.sound
  · rw [current, vmmStates]
    exact ready.apart
  · rw [current, vmmStates]
    exact ready.range
  · rw [current, vmmStates]
    exact ready.spare
  · intro virt free
    rw [current, vmmStates] at free
    have absent := ready.unmapped virt free
    have own : paging.own (indexPML4 virt) := by
      have ⟨_, below⟩ := ready.range _ free
      have low : (indexPML4 virt).toNat < 256 := by
        rw [indexPML4, index_toNat]
        omega
      exact own_of_low low
    have same := evolves.leaves world.cr3 tables.current (tablePath virt) (inside_of_own own _) rfl
      (indexPageTable virt) (apart virt free)
    rw [evolves.cr3, ← leafOf_eq_none]
    exact same.trans (leafOf_eq_none.mpr absent)

theorem ScratchReady.still (ready : ScratchReady world)
    (there : present (entryAt world.mem world.cr3 page) = true)
    (evolves : Evolves roots (leafOfPage world.cr3 page) world middle) (tables : Tables roots world)
    (vmmStates : (middle.procs world.current).vmmStates = (world.procs world.current).vmmStates) :
    ScratchReady middle := by
  apply ready.keep evolves tables (congrFun vmmStates .user)
  rintro virt free ⟨samePath, sameIndex, _⟩
  have absent := ready.unmapped virt free
  have sameEntry : entryAt world.mem world.cr3 virt = entryAt world.mem world.cr3 page := by
    rw [entryAt, entryAt, samePath, sameIndex]
  rw [sameEntry, there] at absent
  cases absent

theorem servedFlags_within (within : flags &&& flagMask = flags) :
    (flags &&& ~~~ pageCopyOnWrite ||| pageWrite ||| pagePresent) &&& flagMask =
      flags &&& ~~~ pageCopyOnWrite ||| pageWrite ||| pagePresent := by
  rw [BitVec.and_or_distrib_right, BitVec.and_or_distrib_right, BitVec.and_assoc,
    BitVec.and_comm (~~~ pageCopyOnWrite), ← BitVec.and_assoc, within]
  rfl

/-- By now the page has its new frame, which is what the look-up finds. -/
theorem copyAnew_ends (tables : Tables roots world) (own : paging.own (indexPML4 page))
    (aligned : page.toNat % 4096 = 0) (isFrame : IsFrame phys)
    (within : (flags ||| pagePresent) &&& flagMask = flags ||| pagePresent)
    (notTable : ¬ paging.Reached world.mem roots phys) (notFree : ¬ world.pmm.Free phys)
      (notZero : phys ≠ zeroPage)
    (entry : entryAt world.mem world.cr3 page = phys ||| (flags ||| pagePresent)) :
    Ends (getPhysAddr page none >>= fun oldPhys =>
      if oldPhys != zeroPage then do
        copyFrame page oldPhys
        pure true
      else do
        clearPage page
        pure true) world
    (fun value after => value = true ∧ Evolves roots noLeaf world after ∧ SameBooks world after ∧
      after.mem phys = world.mem phys ∧ entryAt after.mem world.cr3 page =
        entryAt world.mem world.cr3 page ∧
      world.held ≠ some (world.current, .user))
        (fun _ => ¬ (3 ≤ world.pmm.supply ∧ ScratchReady world)) := by
  have isPresent : present (entryAt world.mem world.cr3 page) = true := by
    rw [entry, ← BitVec.or_assoc]
    exact present_marked _
  apply ends_read (ends_mono (getPhysAddr_ends tables (self_none world) aligned own)
    (fun _ _ done => done) _)
  rotate_left
  · intro _ missing
    rw [isPresent] at missing
    cases missing
  rintro oldPhys ⟨_, old⟩
  rw [entry, pageAlign_or isFrame within] at old
  subst old
  rw [if_pos (bne_iff_ne.mpr notZero)]
  have maps : (leafOf (entryAt world.mem world.cr3 page)).map Prod.fst = some oldPhys := by
    rw [entry]
    exact leafOf_served isFrame within
  apply ends_seq (copyFrame_ends tables own isFrame notTable notFree maps)
  rintro _ _ ⟨evolves, books, contents, _, sameEntry, unheld⟩
  exact ends_pure _ ⟨rfl, evolves, books, contents, sameEntry, unheld⟩

theorem cowFault_ends (tables : Tables roots world) (aligned : page.toNat % 4096 = 0)
    (within : flags &&& flagMask = flags) : Ends (cowFault page flags) world
      (fun value after => value = true ∧
    ∃ phys, CowServes roots world after page flags phys)
      (fun _ => ¬ CowReady world page flags) := by
  apply ends_seq (pmmAllocate_ends tables.pmm _)
  rotate_left
  · intro _ _ ready
    have supply := ready.supply
    omega
  rintro phys taken ⟨moved, takes⟩
  have toTaken := Evolves.ofTakes tables takes moved
  have takenMem : taken.mem = world.mem := by rw [moved]
  have isFrame : IsFrame phys := tables.pmm.isFrame takes.wasFree
  have notFree : ¬ taken.pmm.Free phys := fun free => ((takes.free phys).mp free).2 rfl
  have notTable : ¬ paging.Reached taken.mem roots phys := by
    rw [takenMem]
    exact tables.fresh phys takes.wasFree
  rw [mapAddressOverwrite_one]
  apply ends_call (mapInternal_ends toTaken.tables (self_none taken) aligned
    ((isFrame_iff phys).mp isFrame).1 _ true)
  · rintro _ refused ready
    have supply := ready.supply
    have spent := takes.supply
    exact ready.maps (by omega) refused
  rintro _ mapped ⟨toMapped, own, _, _, entry⟩
  rw [toTaken.cr3] at toMapped entry
  have mappedBooks : SameBooks world mapped := by
    have takenBooks : SameBooks world taken := by
      rw [moved]
      exact ⟨rfl, fun _ => rfl, fun _ => rfl⟩
    exact takenBooks.trans (SameBooks.ofUndisturbed toMapped.undisturbed)
  have toPage := toTaken.onwards (Rewrites.evolves toMapped)
  have notTableNow : ¬ paging.Reached mapped.mem roots phys := fun reached =>
    (toMapped.reached phys reached).elim notTable notFree
  have notFreeNow : ¬ mapped.pmm.Free phys := fun free => notFree (toMapped.free phys free)
  apply ends_get
  apply ends_call (addPhysicalMapping_ends mapped page phys mapped.current)
  · rintro _ ⟨_, uncovered⟩ ready
    apply uncovered
    rw [toPage.current, covered_congr mappedBooks]
    exact ready.covered
  intro _ entered enters
  have toEntered := enters.evolves toMapped.tables
  have enteredCr3 : entered.cr3 = world.cr3 := toEntered.cr3.trans toPage.cr3
  have enteredEntry : entryAt entered.mem entered.cr3 page =
      phys ||| (flags &&& ~~~ pageCopyOnWrite ||| pageWrite ||| pagePresent) := by
    rw [enters.mem, enteredCr3, entry]
  have notZero : phys ≠ mapped.pmm.zeroPageAddr := by
    rw [toPage.zeroPage]
    rintro rfl
    exact tables.pmm.zeroTaken takes.wasFree
  have upTo := toPage.quietly toEntered
  have vmmStates : (entered.procs world.current).vmmStates =
      (world.procs world.current).vmmStates := by
    rw [enters.vmmStates, toMapped.undisturbed.vmmStates, moved]
  have enteredTable : ¬ paging.Reached entered.mem roots phys := by
    rw [enters.mem]
    exact notTableNow
  have enteredFree : ¬ entered.pmm.Free phys := by
    rw [enters.pmm]
    exact notFreeNow
  apply ends_mono (copyAnew_ends toEntered.tables own aligned isFrame (servedFlags_within within)
    enteredTable
    enteredFree notZero enteredEntry)
  · rintro _ _ ⟨rfl, toAfter, afterBooks, contents, afterEntry, unheld⟩
    refine ⟨rfl, phys, ?_⟩
    constructor
    · exact upTo.quietly toAfter
    · exact takes.next
    · exact takes.wasFree
    · exact fun free => enteredFree (toAfter.free _ free)
    · exact own
    · rw [enteredCr3] at afterEntry enteredEntry
      exact afterEntry.trans enteredEntry
    · rw [contents, enters.mem, toMapped.data phys notTableNow, takenMem]
    · rw [AddressSpace.backing, afterBooks.regions, afterBooks.sharedRegions, afterBooks.store,
        ← toPage.current]
      exact enters.backing
    · intro proc _
      rw [afterBooks.regions, enters.others proc (by rwa [toPage.current]), mappedBooks.regions]
    · intro recorded
      have before := recorded.keep mappedBooks toPage.free
      have during := enters.recorded before isFrame notFreeNow
      exact during.keep afterBooks toAfter.free
    · rw [← upTo.held, ← upTo.current]
      exact unheld
  · intro _ notReady ready
    apply notReady
    refine ⟨?_, ready.scratch.still ready.there upTo tables vmmStates⟩
    have supply := ready.supply
    have spent := takes.supply
    have spentToo := toMapped.supply
    rw [enters.pmm]
    omega

theorem write_fault_ends (tables : Tables roots world)
    (walkable : Walkable world.mem world.cr3 (pageAlign cr2))
    (leaf : entryAt world.mem world.cr3 (pageAlign cr2) = entry) (copies : Copies errorCode entry) :
    Ends (handlePageFault cr2 errorCode) world (fun value after => value = true ∧
    ∃ phys, CowServes roots world after (pageAlign cr2) (entry &&& flagMask) phys) (fun _ =>
    ¬ CowReady world (pageAlign cr2) (entry &&& flagMask)) := by
  apply handlePageFault_ends tables walkable leaf
  · exact fun ignored => absurd ignored copies.not_ignored
  · exact fun lazy => absurd lazy copies.not_lazy
  · exact fun _ => cowFault_ends tables (pageAlign_aligned cr2) (and_within entry flagMask)

/-! Pages that are not present. -/

section LazyPages

variable {roots : Set Word} {world : World}

structure LazyServes (roots : Set Word) (world after : World) (page flags phys : Word) : Prop where
  evolves : Evolves roots (leafOfPage world.cr3 page) world after
  isFrame : IsFrame phys
  own : paging.own (indexPML4 page)
  entry : entryAt after.mem world.cr3 page = phys |||
    ((flags &&& ~~~ pageCopyOnWrite) ||| pagePresent ||| pagePresent)
  recorded : Recorded after

theorem lookup_isFrame (recorded : Recorded world)
    (found : (world.procs proc).lookupVirtualMapping world.store page = (where_, some frame)) :
      IsFrame frame := by
  unfold AddressSpace.lookupVirtualMapping at found
  split at found
  · exact (recorded.shared _ _ _ (Prod.mk.inj found).2).1
  · split at found
    · rename_i vmr first
      exact (recorded.regions proc vmr (List.mem_of_find?_eq_some first) _ _
        (Prod.mk.inj found).2).1
    · cases (Prod.mk.inj found).2

theorem lazyFault_known (tables : Tables roots world) (recorded : Recorded world)
    (aligned : page.toNat % 4096 = 0)
    (isFrame : IsFrame phys) :
    Ends (mapAddressOverwrite page phys 1 ((flags &&& ~~~ pageCopyOnWrite) ||| pagePresent)
      (some world.current)) world
    (fun _ after => LazyServes roots world after page flags phys) (fun _ => True) := by
  rw [mapAddressOverwrite_one]
  have self : (some world.current).getD world.current = world.current := rfl
  apply ends_mono (mapInternal_ends tables self aligned ((isFrame_iff phys).mp isFrame).1 _ true) _
    (fun _ _ => trivial)
  rintro _ _ ⟨rewrites, own, _, _, entry⟩
  have evolves := Rewrites.evolves rewrites
  exact ⟨evolves, isFrame, own, entry, recorded.keep (SameBooks.ofUndisturbed rewrites.undisturbed)
    evolves.free⟩

structure Obtains (roots : Set Word) (world after : World) (phys : Word) : Prop where
  evolves : Evolves roots noLeaf world after
  recorded : Recorded after
  wasFree : world.pmm.Free phys
  taken : ¬ after.pmm.Free phys
  notTable : ¬ paging.Reached after.mem roots phys

theorem backingFrame_ends (tables : Tables roots world) (recorded : Recorded world) (page : Word)
    (proc : Nat) :
    Ends (backingFrame page proc none) world (fun phys after => Obtains roots world after phys)
      (fun _ => True) := by
  apply ends_seq (pmmAllocate_ends tables.pmm (fun _ _ => trivial))
  rintro phys taken ⟨moved, takes⟩
  have toTaken := Evolves.ofTakes tables takes moved
  have books : SameBooks world taken := by
    rw [moved]
    exact ⟨rfl, fun _ => rfl, fun _ => rfl⟩
  have used : ¬ taken.pmm.Free phys := fun free => ((takes.free phys).mp free).2 rfl
  apply ends_call (addPhysicalMapping_ends taken page phys proc) (fun _ _ => trivial)
  intro _ _ enters
  apply ends_pure
  have toEntered := enters.evolves toTaken.tables
  constructor
  · exact toTaken.both toEntered
  · exact enters.recorded (recorded.keep books toTaken.free) (tables.pmm.isFrame takes.wasFree) used
  · exact takes.wasFree
  · rw [enters.pmm]
    exact used
  · rw [enters.mem, moved]
    exact tables.fresh phys takes.wasFree

theorem clearPage_evolves (evolves : Evolves roots changed before world)
    (own : paging.own (indexPML4 page))
    (isFrame : IsFrame phys) (within : flags &&& flagMask = flags) (wasFree : before.pmm.Free phys)
    (notTable : ¬ paging.Reached world.mem roots phys)
    (entry : entryAt world.mem world.cr3 page = phys ||| (flags ||| pagePresent)) :
      Ends (clearPage page) world
    (fun _ after => Evolves roots changed before after ∧
    entryAt after.mem world.cr3 page = entryAt world.mem world.cr3 page ∧ SameBooks world after ∧
      after.pmm = world.pmm)
    (fun _ => True) := by
  have flagsWithin : (flags ||| pagePresent) &&& flagMask = flags ||| pagePresent := by
    rw [BitVec.and_or_distrib_right, within]
    rfl
  have firm : MapsFirmly world page phys := by
    intro _ same
    apply translate_off_frame evolves.tables own notTable _ same
    rw [entry]
    exact leafOf_served isFrame flagsWithin
  apply ends_imp (clearPage_ends firm)
  intro _ _ cleared
  have ⟨toAfter, agrees⟩ := evolves.fill notTable wasFree _ cleared
  refine ⟨toAfter, ?_, ?_, ?_⟩
  · exact agrees.lookup evolves.tables.current (inside_of_own own _) le_rfl
  · rw [cleared]
    exact ⟨rfl, fun _ => rfl, fun _ => rfl⟩
  · rw [cleared]

theorem lazyFault_ends (tables : Tables roots world) (recorded : Recorded world)
    (aligned : page.toNat % 4096 = 0)
    (within : flags &&& flagMask = flags) : Ends (lazyFault page flags) world
      (fun _ after => after = world ∨
    ∃ phys, LazyServes roots world after page flags phys) (fun _ => True) := by
  apply ends_get
  cases result : (world.procs world.current).lookupVirtualMapping world.store page with
  | mk where_ found =>
    cases where_ with
    | none => exact ends_pure _ (.inl rfl)
    | some =>
      cases found with
      | some phys =>
        apply ends_bind
        apply ends_pure
        apply ends_seq (lazyFault_known tables recorded aligned (lookup_isFrame recorded result))
        intro _ after serves
        apply ends_bind
        apply ends_pure
        exact ends_pure _ (.inr ⟨phys, serves⟩)
      | none =>
        apply ends_seq (backingFrame_ends tables recorded page world.current)
        intro phys entered obtains
        have isFrame := tables.pmm.isFrame obtains.wasFree
        have self : (some world.current).getD entered.current = entered.current :=
          obtains.evolves.current.symm
        rw [mapAddressOverwrite_one]
        apply ends_call (mapInternal_ends obtains.evolves.tables self aligned
          ((isFrame_iff phys).mp isFrame).1 _ true) (fun _ _ => trivial)
        rintro _ mapped ⟨rewrites, own, _, _, entry⟩
        rw [obtains.evolves.cr3] at rewrites entry
        have toMapped := obtains.evolves.onwards (Rewrites.evolves rewrites)
        rw [← toMapped.cr3] at entry
        have rightsWithin : (flags &&& ~~~ pageCopyOnWrite ||| pagePresent) &&& flagMask =
            flags &&& ~~~ pageCopyOnWrite ||| pagePresent := by
          rw [BitVec.and_or_distrib_right, BitVec.and_assoc,
            BitVec.and_comm (~~~ pageCopyOnWrite), ← BitVec.and_assoc, within]
          rfl
        have notTable : ¬ paging.Reached mapped.mem roots phys := fun reached =>
          (rewrites.reached phys reached).elim obtains.notTable obtains.taken
        apply ends_seq (clearPage_evolves toMapped own isFrame rightsWithin obtains.wasFree
          notTable entry)
        rintro _ _ ⟨toAfter, afterEntry, books, pmm⟩
        apply ends_pure
        refine .inr ⟨phys, toAfter, isFrame, own, ?_, ?_⟩
        · rw [← toMapped.cr3, afterEntry, entry]
        · have mappedRecorded := obtains.recorded.keep
              (SameBooks.ofUndisturbed rewrites.undisturbed) rewrites.free
          exact mappedRecorded.keep books (fun _ free => pmm ▸ free)

end LazyPages

theorem youngWorld_freePages (proc page : Nat) :
    page ∈ (((youngWorld stale current).procs proc).vmmStates .user).freePages ↔ 0x400 ≤ page ∧
      page < 0x410 := by
  have single : (((youngWorld stale current).procs proc).vmmStates .user).head = [⟨0x400000, 16⟩] :=
    rfl
  rw [Extmm.State.freePages, single]
  simp [Extmm.Extent.pages]

theorem youngWorld_scratch : ScratchReady (youngWorld stale current) where
  unheld := by
    intro held
    cases held
  sound := by
    rintro _ (_ | ⟨_, ⟨⟩⟩)
    exact ⟨by decide, by decide, by decide⟩
  apart := List.pairwise_singleton _ _
  range := by
    intro _ free
    rw [youngWorld_freePages] at free
    omega
  spare := ⟨⟨0x400000, 16⟩, List.mem_singleton_self _, by decide⟩
  unmapped := by
    intro virt free
    rw [youngWorld_freePages] at free
    have low : (indexPML4 virt).toNat < 256 := by
      rw [indexPML4, index_toNat]
      omega
    rw [youngWorld_unmapped (youngWorld_tables stale current).current (own_of_low low)]
    decide

theorem youngWorld_recorded : Recorded (youngWorld stale current) where
  regions := by
    rintro _ _ (_ | ⟨_, ⟨⟩⟩) _ frame ⟨⟩
  shared := by
    rintro _ _ _ ⟨⟩

end Nx.FaultEffects
