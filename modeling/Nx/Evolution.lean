import Nx.Mapping

/-!
What a longer piece of kernel code leaves as it was: the pages that are present, the frames in use
and the records of the address spaces.
-/

namespace Nx.Evolution

open Words Radix Paging Physical Vmregion Machine Virtmap Outcomes PageTables Mapping Function

/-- Outside `changed` every page that is present stays what it is. Tables are
only added, on free frames, and no frame in use is written to. -/
structure Evolves (roots : Set Word) (changed : Leaves) (before after : World) : Prop where
  tables : Tables roots after
  leaves : ∀ root ∈ roots, ∀ path, paging.Inside path → path.length = 3 → ∀ index,
    ¬ changed root path index →
    leafOf (paging.lookup after.mem root path index) =
      leafOf (paging.lookup before.mem root path index)
  down : ∀ root ∈ roots, ∀ path, paging.Inside path → path.length ≤ 3 → ∀ table,
    paging.descend before.mem root path = some table →
    paging.descend after.mem root path = some table
  data : ∀ frame, ¬ paging.Reached after.mem roots frame → ¬ before.pmm.Free frame →
    after.mem frame = before.mem frame
  free : ∀ frame, after.pmm.Free frame → before.pmm.Free frame
  reached : ∀ frame, paging.Reached after.mem roots frame →
    paging.Reached before.mem roots frame ∨ before.pmm.Free frame
  theCR3 : ∀ proc, (after.procs proc).theCR3 = (before.procs proc).theCR3
  current : after.current = before.current
  held : after.held = before.held
  zeroPage : after.pmm.zeroPageAddr = before.pmm.zeroPageAddr

structure SameBooks (before after : World) : Prop where
  store : after.store = before.store
  regions : ∀ proc, (after.procs proc).regions = (before.procs proc).regions
  sharedRegions : ∀ proc, (after.procs proc).sharedRegions = (before.procs proc).sharedRegions

theorem SameBooks.refl (world : World) : SameBooks world world := ⟨rfl, fun _ => rfl, fun _ => rfl⟩

theorem SameBooks.trans (left : SameBooks first second) (right : SameBooks second third) :
    SameBooks first third where
  store := right.store.trans left.store
  regions := fun proc => (right.regions proc).trans (left.regions proc)
  sharedRegions := fun proc => (right.sharedRegions proc).trans (left.sharedRegions proc)

theorem SameBooks.ofUndisturbed (undisturbed : Undisturbed before after) :
    SameBooks before after where
  store := undisturbed.store
  regions := by
    intro proc
    have same := congrArg AddressSpace.regions (undisturbed.procs proc)
    exact same
  sharedRegions := by
    intro proc
    have same := congrArg AddressSpace.sharedRegions (undisturbed.procs proc)
    exact same

variable {frame root virt : Word}

section Evolves

variable {roots : Set Word} {before after : World}

theorem Evolves.cr3 (evolves : Evolves roots changed before after) : after.cr3 = before.cr3 := by
  rw [World.cr3, World.cr3, evolves.current, evolves.theCR3]

theorem Evolves.still_reached (evolves : Evolves roots changed before after)
    (reached : paging.Reached before.mem roots frame) : paging.Reached after.mem roots frame := by
  obtain ⟨root, isRoot, path, inside, short, there⟩ := reached
  exact ⟨root, isRoot, path, inside, short, evolves.down root isRoot path inside short _ there⟩

theorem Evolves.trans (left : Evolves roots firstChanged before middle)
    (right : Evolves roots secondChanged middle after)
    (covers : ∀ root path index, firstChanged root path index ∨ secondChanged root path index →
      changed root path index) : Evolves roots changed before after where
  tables := right.tables
  leaves := by
    intro root isRoot path inside length index unchanged
    rw [right.leaves root isRoot path inside length index
      (fun touched => unchanged (covers _ _ _ (.inr touched))),
      left.leaves root isRoot path inside length index
        (fun touched => unchanged (covers _ _ _ (.inl touched)))]
  down := by
    intro root isRoot path inside short table there
    exact right.down root isRoot path inside short table
      (left.down root isRoot path inside short table there)
  data := by
    intro frame outside used
    have usedThen : ¬ middle.pmm.Free frame := fun free => used (left.free frame free)
    rw [right.data frame outside usedThen, left.data frame
      (fun reached => outside (right.still_reached reached)) used]
  free := fun frame free => left.free frame (right.free frame free)
  reached := by
    intro frame reached
    rcases right.reached frame reached with older | free
    · exact left.reached frame older
    · exact .inr (left.free frame free)
  theCR3 := fun proc => (right.theCR3 proc).trans (left.theCR3 proc)
  current := right.current.trans left.current
  held := right.held.trans left.held
  zeroPage := right.zeroPage.trans left.zeroPage

theorem Evolves.both (left : Evolves roots changed before middle)
    (right : Evolves roots changed middle after) :
    Evolves roots changed before after := left.trans right fun _ _ _ touched => touched.elim id id

theorem Evolves.onwards (left : Evolves roots noLeaf before middle)
    (right : Evolves roots changed middle after) :
    Evolves roots changed before after := left.trans right fun _ _ _ touched =>
      touched.elim False.elim id

theorem Evolves.quietly (left : Evolves roots changed before middle)
    (right : Evolves roots noLeaf middle after) :
    Evolves roots changed before after := left.trans right fun _ _ _ touched =>
      touched.elim id False.elim

theorem Rewrites.evolves (rewrites : Rewrites roots changed cost before after) :
    Evolves roots changed before after where
  tables := rewrites.tables
  leaves := by
    intro root isRoot path inside length index unchanged
    rw [rewrites.entries root isRoot path inside length index unchanged]
  down := rewrites.down
  data := fun frame outside _ => rewrites.data frame outside
  free := rewrites.free
  reached := rewrites.reached
  theCR3 := rewrites.undisturbed.theCR3
  current := rewrites.undisturbed.current
  held := rewrites.undisturbed.held
  zeroPage := rewrites.undisturbed.zeroPage

section

variable (tables : Tables roots before)
include tables

section

variable (agrees : paging.Agrees before.mem after.mem roots)
  (loops : ∀ root ∈ roots, after.mem root 510 = before.mem root 510)
include agrees loops

theorem tables_ofAgrees (pmm : after.pmm = before.pmm) (cr3 : after.cr3 = before.cr3) :
    Tables roots after where
  forest := agrees.forest tables.forest
  frames := tables.frames
  loops := by
    intro root isRoot
    rw [loops root isRoot]
    exact tables.loops root isRoot
  current := cr3 ▸ tables.current
  pmm := pmm ▸ tables.pmm
  fresh := by
    intro frame free isTable
    rw [pmm] at free
    exact tables.fresh frame free ((agrees.reached frame).mp isTable)

theorem Evolves.ofAgrees (data : ∀ frame, ¬ paging.Reached before.mem roots frame →
    after.mem frame = before.mem frame)
    (pmm : after.pmm = before.pmm) (theCR3 : ∀ proc, (after.procs proc).theCR3 =
      (before.procs proc).theCR3)
    (current : after.current = before.current) (held : after.held = before.held) :
    Evolves roots noLeaf before after where
  tables := by
    apply tables_ofAgrees tables agrees loops pmm
    rw [World.cr3, World.cr3, current, theCR3]
  leaves := by
    intro root isRoot path inside length _ _
    have some : path ≠ [] := by
      rintro rfl
      cases length
    rw [agrees.lookup isRoot ((inside_append some).mpr inside) length.le]
  down := by
    intro _ isRoot _ inside short _ _
    rwa [agrees.descend isRoot inside short]
  data := by
    intro frame outside _
    exact data frame fun reached => outside ((agrees.reached frame).mpr reached)
  free := fun frame free => pmm ▸ free
  reached := fun frame reached => .inl ((agrees.reached frame).mp reached)
  theCR3 := theCR3
  current := current
  held := held
  zeroPage := by rw [pmm]

end

theorem Evolves.ofSameMemory (mem : after.mem = before.mem) (pmm : after.pmm = before.pmm)
    (theCR3 : ∀ proc, (after.procs proc).theCR3 = (before.procs proc).theCR3)
      (current : after.current = before.current)
    (held : after.held = before.held) : Evolves roots noLeaf before after := by
  apply Evolves.ofAgrees tables _ _ _ pmm theCR3 current held
  · intro root _ _ _ _ _ _ _
    rw [mem]
  · intro _ _
    rw [mem]
  · intro _ _
    rw [mem]

theorem Evolves.ofPmm (sound : after.pmm.Sound) (free : ∀ frame, after.pmm.Free frame →
    before.pmm.Free frame)
    (zeroPage : after.pmm.zeroPageAddr = before.pmm.zeroPageAddr)
    (same : after = { before with pmm := after.pmm }) : Evolves roots noLeaf before after := by
  have mem : after.mem = before.mem := by rw [same]
  have procs : after.procs = before.procs := by rw [same]
  have current : after.current = before.current := by rw [same]
  constructor
  · constructor
    · rw [mem]
      exact tables.forest
    · exact tables.frames
    · rw [mem]
      exact tables.loops
    · rw [World.cr3, procs, current]
      exact tables.current
    · exact sound
    · intro other isFree
      rw [mem]
      exact tables.fresh other (free other isFree)
  · intro root isRoot path inside _ _ _
    rw [mem]
  · intro _ _ _ _ _ _ _
    rwa [mem]
  · intro other _ _
    rw [mem]
  · exact free
  · intro _ reached
    rw [mem] at reached
    exact .inl reached
  · intro _
    rw [procs]
  · exact current
  · rw [same]
  · exact zeroPage

theorem Evolves.ofTakes (takes : Takes before.pmm after.pmm frame)
    (same : after = { before with pmm := after.pmm }) : Evolves roots noLeaf before after :=
  Evolves.ofPmm tables takes.sound (fun other free => ((takes.free other).mp free).1)
    takes.zeroPage same

end

theorem lookup_leafOfPage (forest : paging.Forest mem roots) (isRoot : root ∈ roots)
    (isOther : other ∈ roots)
    (touched : leafOfPage root virt other path index) : paging.lookup mem other path index =
      entryAt mem root virt := by
  obtain ⟨rfl, rfl, rfl | shared⟩ := touched
  · rfl
  · apply forest.lookup_shared isOther isRoot
    rw [tablePath, shared]
    rfl

theorem Evolves.settle (tables : Tables roots before) (isRoot : root ∈ roots)
    (evolves : Evolves roots (leafOfPage root virt) before after)
    (absent : present (entryAt before.mem root virt) = false)
    (absentAgain : present (entryAt after.mem root virt) = false) :
      Evolves roots noLeaf before after := by
  refine { evolves with leaves := ?_ }
  intro other isOther path inside length index _
  by_cases touched : leafOfPage root virt other path index
  · rw [lookup_leafOfPage evolves.tables.forest isRoot isOther touched,
      lookup_leafOfPage tables.forest isRoot isOther touched, leafOf_eq_none.mpr absent,
      leafOf_eq_none.mpr absentAgain]
  · exact evolves.leaves other isOther path inside length index touched

theorem Evolves.fill_all (evolves : Evolves roots changed before middle)
    (kept : ∀ frame, paging.Reached middle.mem roots frame ∨ ¬ before.pmm.Free frame →
      mem frame = middle.mem frame)
    (filled : after = { middle with mem := mem }) : Evolves roots changed before after ∧
    paging.Agrees middle.mem after.mem roots := by
  subst filled
  have agrees : paging.Agrees middle.mem mem roots :=
    agrees_of_reached fun other reached => kept other (.inl reached)
  refine ⟨?_, agrees⟩
  constructor
  · apply tables_ofAgrees evolves.tables agrees
    · intro root isRoot
      exact congrFun (kept root (.inl (root_reached _ isRoot))) 510
    · rfl
    · rfl
  · intro root isRoot path inside length index unchanged
    have some : path ≠ [] := by
      rintro rfl
      cases length
    rw [agrees.lookup isRoot ((inside_append some).mpr inside) length.le]
    exact evolves.leaves root isRoot path inside length index unchanged
  · intro root isRoot path inside short table there
    rw [agrees.descend isRoot inside short]
    exact evolves.down root isRoot path inside short table there
  · intro other outside used
    have notReached : ¬ paging.Reached middle.mem roots other :=
      fun reached => outside ((agrees.reached other).mpr reached)
    exact (kept other (.inr used)).trans (evolves.data other notReached used)
  · exact evolves.free
  · intro other reached
    exact evolves.reached other ((agrees.reached other).mp reached)
  · exact evolves.theCR3
  · exact evolves.current
  · exact evolves.held
  · exact evolves.zeroPage

theorem Evolves.fill (evolves : Evolves roots changed before middle)
    (notTable : ¬ paging.Reached middle.mem roots frame) (wasFree : before.pmm.Free frame)
    (contents : Index → Word) (filled : after =
      { middle with mem := update middle.mem frame contents }) :
    Evolves roots changed before after ∧ paging.Agrees middle.mem after.mem roots := by
  refine evolves.fill_all (fun _ kept => update_of_ne ?_ _ _) filled
  rintro rfl
  exact kept.elim notTable fun used => used wasFree

theorem switch_tables (tables : Tables roots world) (isRoot : (world.procs proc).theCR3 ∈ roots) :
    Tables roots { world with current := proc } :=
  { tables with current := isRoot }

theorem Evolves.switch (evolves : Evolves roots changed before after)
    (isRoot : (before.procs proc).theCR3 ∈ roots) :
    Evolves roots changed { before with current := proc } { after with current := proc } :=
  { evolves with
    tables := switch_tables evolves.tables (evolves.theCR3 proc ▸ isRoot)
    current := rfl }

end Evolves

/-! `TempMapper`. -/

theorem translate_firm (tables : Tables roots world) {page} (own : paging.own (indexPML4 page))
    (same : ∀ frame, paging.Reached world.mem roots frame → mem frame = world.mem frame) :
    Paging.translate mem world.cr3 page = (leafOf (entryAt world.mem world.cr3 page)).map
      Prod.fst := by
  have agrees : paging.Agrees world.mem mem roots := agrees_of_reached same
  have entry : entryAt mem world.cr3 page = entryAt world.mem world.cr3 page :=
    agrees.lookup tables.current (inside_of_own own _) le_rfl
  unfold Paging.translate
  rw [walk_eq_leafOf (agrees.forest tables.forest) tables.current tables.isFrame own, entry]

section Temp

variable {roots : Set Word} {world after : World} {num : Word}

theorem not_own_509 : ¬ paging.own 509 := by simp [paging]

theorem slot_evolves (tables : Tables roots world) (isRoot : root ∈ roots)
    (stored : after = { world with mem := update world.mem root (update (world.mem root) 509 value) }) :
    Evolves roots noLeaf world after ∧ after.mem root 509 = value ∧
    ∀ other ≠ root, after.mem other = world.mem other := by
  have elsewhere : ∀ other ≠ root, after.mem other = world.mem other := by
    intro other differs
    rw [stored]
    exact update_of_ne differs _ _
  have inRoot : after.mem root = update (world.mem root) 509 value := by
    rw [stored]
    exact update_self _ _ _
  have same : ∀ table index, (table, index) ≠ (root, 509) → after.mem table index =
      world.mem table index := by
    intro table _ differs
    by_cases here : table = root
    · subst here
      rw [inRoot, update_of_ne fun at509 => differs (by rw [at509])]
    · rw [elsewhere table here]
  refine ⟨?_, ?_, elsewhere⟩
  · apply Evolves.ofAgrees tables (tables.forest.agrees_foreign isRoot not_own_509 same)
    · intro other _
      exact same other 510 (by simp)
    · intro _ outside
      apply elsewhere
      rintro rfl
      exact outside (root_reached _ isRoot)
    · rw [stored]
    · rw [stored]
      exact fun _ => rfl
    · rw [stored]
    · rw [stored]
  · rw [inRoot, update_self]

theorem allocateAddrSpace_ends (nonzero : num ≠ 0) (type : AddressSpaceType) (proc : Option Nat) :
    Ends (allocateAddrSpace num type proc) world
      (fun ret after => world.held ≠ some (proc.getD world.current, type) ∧
        ret.toNat % 4096 = 0 ∧ ∃ st, ((world.procs (proc.getD world.current)).vmmStates
          type).allocate
          num (fun _ _ => true) = .ok (ret, st) ∧ after = world.setProc (proc.getD world.current)
            { world.procs (proc.getD world.current) with
              vmmStates := update (world.procs (proc.getD world.current)).vmmStates type st })
      (fun _ => world.held = some (proc.getD world.current, type) ∨
        ∃ ret st, ((world.procs (proc.getD world.current)).vmmStates type).allocate
          num (fun _ _ => true) = .ok (ret, st) ∧ ret.toNat % 4096 ≠ 0) := by
  apply ends_get
  apply refuse_then
  · intro held
    simp only [Bool.and_eq_true, beq_iff_eq] at held
    exact .inl held.2
  intro unheld
  have free : num ≠ 0 → world.held ≠ some (proc.getD world.current, type) := by
    simpa using unheld
  obtain ⟨ret, st, allocated⟩ := Extmm.allocate_total
    ((world.procs (proc.getD world.current)).vmmStates type) num (fun _ _ => true) nonzero
  rw [allocated]
  apply ends_put
  apply ends_read (assertThat_ends _)
  · intro _ aligned
    exact ends_pure _ ⟨free nonzero, (isPageAligned_iff _).mp aligned, st, rfl, rfl⟩
  · intro misaligned
    refine .inr ⟨ret, st, rfl, fun aligned => ?_⟩
    rw [(isPageAligned_iff ret).mpr aligned] at misaligned
    cases misaligned

theorem evolves_of_space (tables : Tables roots world) {space}
    (theCR3 : space.theCR3 = (world.procs proc).theCR3)
    (regions : space.regions = (world.procs proc).regions)
    (sharedRegions : space.sharedRegions = (world.procs proc).sharedRegions) :
    Evolves roots noLeaf world (world.setProc proc space) ∧
      SameBooks world (world.setProc proc space) := by
  have kept : ∀ {β : Type} (part : AddressSpace → β), part space = part (world.procs proc) →
      ∀ other, part ((world.setProc proc space).procs other) = part (world.procs other) := by
    intro β _ same other
    by_cases here : other = proc
    · subst here
      rw [World.setProc_self, same]
    · rw [World.setProc_of_ne _ here]
  exact ⟨Evolves.ofSameMemory tables rfl rfl (kept AddressSpace.theCR3 theCR3) rfl rfl,
    ⟨rfl, kept AddressSpace.regions regions, kept AddressSpace.sharedRegions sharedRegions⟩⟩

theorem evolves_of_setProc (tables : Tables roots world)
    (set : after = world.setProc proc { world.procs proc with vmmStates := states }) :
    Evolves roots noLeaf world after ∧ SameBooks world after := by
  subst set
  exact evolves_of_space tables rfl rfl rfl

theorem link_temp (isFrame : IsFrame root) : link (root ||| pagePresent ||| pageWrite) =
    some root := by
  rw [BitVec.or_assoc]
  exact TableFlags.link ⟨by decide, by decide, by decide, by decide⟩ isFrame

theorem tempSlots_ends (tables : Tables roots world) (isRoot : root ∈ roots) (value : Word) :
    Ends (tempSlots root value) world (fun _ after => Evolves roots noLeaf world after ∧
      SameBooks world after ∧
    after.mem world.cr3 509 = value ∧ after.mem root 509 = value) (fun _ => True) := by
  have atRoot : paging.descend world.mem world.cr3 [] = some world.cr3 := rfl
  apply ends_seq (store_ends (tables.window.translate_tableAddr tables.isFrame (by simp) atRoot))
  intro _ opened stored
  obtain ⟨toOpened, openedSlot, _⟩ := slot_evolves tables tables.current stored
  have openedBooks : SameBooks world opened := by
    rw [stored]
    exact ⟨rfl, fun _ => rfl, fun _ => rfl⟩
  apply ends_call (allocateAddrSpace_ends (by decide) .user none) (fun _ _ => trivial)
  rintro tmp ready ⟨_, _, _, _, set⟩
  obtain ⟨toReady, readyBooks⟩ := evolves_of_setProc toOpened.tables set
  have readyMem : ready.mem = opened.mem := by
    rw [set]
    rfl
  apply ends_get
  apply assertThat_any
  intro _
  apply assertThat_any
  intro _
  have readyTables := toReady.tables
  apply ends_call (mapThrough_ends readyTables readyTables.current not_own_510 readyTables.window
    tmp root _ ready.current false) (fun _ _ => trivial)
  rintro _ mapped ⟨toMapped, own, _, absent, entry⟩
  have mappedCr3 := toMapped.undisturbed.cr3
  have maps : translate mapped.mem mapped.cr3 tmp = some root := by
    have isFrame := tables.frames root isRoot
    have within : (pagePresent ||| pageWrite ||| pagePresent) &&& flagMask =
        pagePresent ||| pageWrite ||| pagePresent := by decide
    unfold Paging.translate
    rw [walk_entry toMapped.tables own, mappedCr3, entry, leafOf, present_or isFrame,
      entryFrame_or isFrame within]
    rfl
  apply ends_seq (store_ends maps)
  intro _ closed written
  obtain ⟨toClosed, closedSlot, closedElsewhere⟩ := slot_evolves toMapped.tables isRoot written
  have closedBooks : SameBooks mapped closed := by
    rw [written]
    exact ⟨rfl, fun _ => rfl, fun _ => rfl⟩
  have closedTables := toClosed.tables
  apply ends_mono (unmapThrough_ends closedTables closedTables.current closedTables.window tmp own
    false) _ (fun _ _ => trivial)
  rintro _ after ⟨toAfter, gone⟩
  have closedCr3 := toClosed.cr3
  have root509 : after.mem root 509 = value := by
    rw [toAfter.slots root isRoot 509 not_own_509]
    exact closedSlot
  refine ⟨?_, ?_, ?_, root509⟩
  · -- the page that was mapped for the purpose is gone again
    have around : Evolves roots (leafOfPage ready.cr3 tmp) ready after := by
      rw [closedCr3, mappedCr3] at toAfter
      exact ((Rewrites.evolves toMapped).quietly toClosed).both (Rewrites.evolves toAfter)
    have settled : Evolves roots noLeaf ready after := by
      apply Evolves.settle readyTables readyTables.current around (absent rfl)
      rw [closedCr3, mappedCr3] at gone
      exact gone
    exact (toOpened.both toReady).both settled
  · exact openedBooks.trans (readyBooks.trans ((SameBooks.ofUndisturbed toMapped.undisturbed).trans
      (closedBooks.trans (SameBooks.ofUndisturbed toAfter.undisturbed))))
  · by_cases same : world.cr3 = root
    · rw [same]
      exact root509
    · rw [toAfter.slots _ tables.current 509 not_own_509, closedElsewhere _ same,
        toMapped.slots _ tables.current 509 not_own_509, readyMem]
      exact openedSlot

theorem mapInternal_evolves (tables : Tables roots world) {proc}
    (theCR3 : (world.procs (proc.getD world.current)).theCR3 = root) (isRoot : root ∈ roots)
      (virt phys flags : Word) :
    Ends (mapInternal virt phys flags proc false) world (fun _ after =>
    Evolves roots (leafOfPage root virt) world after ∧ SameBooks world after ∧
      paging.own (indexPML4 virt) ∧
    (255 < indexPML4 virt → flags &&& pageUser = 0) ∧
      present (entryAt world.mem root virt) = false ∧
    leafOf (entryAt after.mem root virt) = leafOf (phys ||| flags)) (fun _ => True) := by
  apply ends_get
  apply assertThat_any
  intro _
  apply assertThat_any
  intro _
  apply ends_get
  split
  · rw [theCR3]
    apply ends_seq (tempSlots_ends tables isRoot _)
    rintro _ opened ⟨toOpened, openedBooks, current509, root509⟩
    have window : Window opened.mem opened.cr3 509 root := by
      constructor
      · rw [toOpened.cr3, current509]
        exact link_temp (tables.frames root isRoot)
      · rw [root509]
        exact link_temp (tables.frames root isRoot)
    apply ends_call (mapThrough_ends toOpened.tables isRoot not_own_509 window virt phys flags _
      false) (fun _ _ => trivial)
    rintro _ _ ⟨toMapped, own, user, absent, entry⟩
    apply ends_seq (tempSlots_ends toMapped.tables isRoot 0)
    rintro _ after ⟨toAfter, afterBooks, _, _⟩
    apply ends_pure
    have inside := inside_of_own own [indexPDPT virt, indexPageDir virt]
    refine ⟨?_, ?_, own, user, ?_, ?_⟩
    · exact (toOpened.onwards (Rewrites.evolves toMapped)).quietly toAfter
    · exact openedBooks.trans ((SameBooks.ofUndisturbed toMapped.undisturbed).trans afterBooks)
    · have same := toOpened.leaves root isRoot (tablePath virt) inside rfl (indexPageTable virt) id
      rw [← leafOf_eq_none]
      exact same.symm.trans (leafOf_eq_none.mpr (absent rfl))
    · have same := toAfter.leaves root isRoot (tablePath virt) inside rfl (indexPageTable virt) id
      rw [← entry]
      exact same
  · rename_i self
    have isCr3 : world.cr3 = root := by
      rw [← theCR3, not_not.mp self]
      rfl
    apply ends_mono (mapThrough_ends tables tables.current not_own_510 tables.window virt phys flags
      _ false) _ (fun _ _ => trivial)
    rintro _ _ ⟨toAfter, own, user, absent, entry⟩
    rw [isCr3] at toAfter absent entry
    exact ⟨Rewrites.evolves toAfter, SameBooks.ofUndisturbed toAfter.undisturbed, own, user,
      absent rfl, by rw [entry]⟩

def cowFlags (flags : Word) : Word := flags &&& ~~~ pageWrite ||| pagePresent ||| pageCopyOnWrite

theorem present_cowFlags (phys flags : Word) : present (phys ||| cowFlags flags) = true := by
  have order : phys ||| cowFlags flags = (phys |||
      (flags &&& ~~~ pageWrite ||| pageCopyOnWrite)) ||| pagePresent := by
    rw [cowFlags, BitVec.or_assoc, BitVec.or_assoc, BitVec.or_assoc, BitVec.or_comm pagePresent]
  rw [order]
  exact present_marked _

/-- Pages from `virt` on that were not present have the entries they were to have. -/
structure Covers (roots : Set Word) (root virt flags : Word) (num : Nat) (entry : Nat → Word)
    (before after : World) : Prop where
  evolves : Evolves roots (leavesOf root virt num) before after
  books : SameBooks before after
  own : ∀ i < num, paging.own (indexPML4 (pageAt virt i))
  user : ∀ i < num, 255 < indexPML4 (pageAt virt i) → flags &&& pageUser = 0
  absent : ∀ i < num, present (entryAt before.mem root (pageAt virt i)) = false
  leaf : ∀ i < num, leafOf (entryAt after.mem root (pageAt virt i)) = leafOf (entry i)

section

variable (tables : Tables roots world)
include tables

theorem forPages_covers {flags} {num}
    {entry : Nat → Word} (isRoot : root ∈ roots) (there : ∀ i < num, present (entry i) = true)
    {body : Word → Kernel PUnit} (turn : ∀ i < num, ∀ middle,
      Evolves roots (leavesOf root virt i) world middle →
      Ends (body (BitVec.ofNat 64 i)) middle
        (fun _ after => Evolves roots (leafOfPage root (pageAt virt i)) middle after ∧
          SameBooks middle after ∧ paging.own (indexPML4 (pageAt virt i)) ∧
          (255 < indexPML4 (pageAt virt i) → flags &&& pageUser = 0) ∧
          present (entryAt middle.mem root (pageAt virt i)) = false ∧
          leafOf (entryAt after.mem root (pageAt virt i)) = leafOf (entry i)) (fun _ => True)) :
    Ends (forPages body num) world
      (fun _ after => Covers roots root virt flags num entry world after) (fun _ => True) := by
  apply forPages_ends (fun count after => Covers roots root virt flags count entry world after)
  · refine ⟨?_, SameBooks.refl world, by simp, by simp, by simp, by simp⟩
    exact (Rewrites.evolves (Rewrites.refl tables)).trans (Rewrites.evolves (Rewrites.refl tables))
      (fun _ _ _ touched => (touched.elim id id).elim)
  intro i below middle soFar
  apply ends_mono (turn i below middle soFar.evolves) _ (fun _ _ => trivial)
  rintro _ _ ⟨now, nowBooks, own, user, absent, leaf⟩
  -- the page of this turn was not present, those of earlier turns are
  have earlier : ∀ j < i, tablePath (pageAt virt j) = tablePath (pageAt virt i) →
      indexPageTable (pageAt virt j) = indexPageTable (pageAt virt i) → False := by
    intro j before path index
    have same := soFar.leaf j before
    rw [entryAt, path, index] at same
    have none := leafOf_eq_none.mpr absent
    rw [entryAt, same, leafOf_eq_none, there j (before.trans below)] at none
    cases none
  have split : ∀ {good : Nat → Prop}, (∀ j < i, good j) → good i → ∀ j < i + 1, good j := by
    intro _ before last j upTo
    rcases Nat.lt_succ_iff_lt_or_eq.mp upTo with before' | rfl
    · exact before j before'
    · exact last
  refine ⟨?_, soFar.books.trans nowBooks, split soFar.own own, split soFar.user user,
    split soFar.absent ?_, split ?_ leaf⟩
  · apply soFar.evolves.trans now
    rintro _ path index (⟨j, before, touched⟩ | touched)
    · exact ⟨j, by omega, touched⟩
    · exact ⟨i, by omega, touched⟩
  · rw [← leafOf_eq_none] at absent ⊢
    rw [← absent]
    refine (soFar.evolves.leaves root isRoot _ (inside_of_own own _) rfl _ ?_).symm
    rintro ⟨j, before, path, index, _⟩
    exact earlier j before path.symm index.symm
  · intro j before
    refine Eq.trans ?_ (soFar.leaf j before)
    apply now.leaves root isRoot _ (inside_of_own (soFar.own j before) _) rfl
    rintro ⟨path, index, _⟩
    exact earlier j before path index

theorem mapZeroedCOW_covers (proc : Option Nat)
    (theCR3 : (world.procs (proc.getD world.current)).theCR3 = root)
    (isRoot : root ∈ roots) (virt num flags : Word) : Ends (mapZeroedCOW virt num flags proc) world
      (fun _ after =>
    Covers roots root virt (cowFlags flags) num.toNat
      (fun _ => world.pmm.zeroPageAddr ||| cowFlags flags) world after)
    (fun _ => True) := by
  apply assertThat_any
  intro _
  apply assertThat_any
  intro _
  apply forPages_covers tables isRoot
  · exact fun _ _ => present_cowFlags _ _
  · intro i _ middle soFar
    apply ends_get
    have owner : (middle.procs (proc.getD middle.current)).theCR3 = root := by
      rw [soFar.current, soFar.theCR3, theCR3]
    rw [← soFar.zeroPage]
    exact mapInternal_evolves soFar.tables owner isRoot _ _ _

theorem mapZeroedCOW_evolves {proc} (theCR3 : (world.procs (proc.getD world.current)).theCR3 = root)
    (isRoot : root ∈ roots) (virt num flags : Word) : Ends (mapZeroedCOW virt num flags proc) world
      (fun _ after =>
    Evolves roots (leavesOf root virt num.toNat) world after ∧ SameBooks world after ∧
    ∀ i < num.toNat, paging.own (indexPML4 (pageAt virt i)) ∧
    (255 < indexPML4 (pageAt virt i) → cowFlags flags &&& pageUser = 0) ∧
    leafOf (entryAt after.mem root (pageAt virt i)) =
      leafOf (world.pmm.zeroPageAddr ||| cowFlags flags)) (fun _ =>
    True) := by
  apply ends_mono (mapZeroedCOW_covers tables proc theCR3 isRoot virt num flags) _
    (fun _ _ => trivial)
  intro _ _ covers
  exact ⟨covers.evolves, covers.books, fun i below =>
    ⟨covers.own i below, covers.user i below, covers.leaf i below⟩⟩

end

end Temp

end Nx.Evolution
