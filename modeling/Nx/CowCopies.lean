import Nx.FaultEffects

/-!
What a page holds after a write to it was served. The handler looks the old
frame up when the page already has its new one, and copies that onto itself.
-/

namespace Nx.CowCopies

open Words Radix Paging Physical Machine Virtmap Outcomes PageTables Mapping Evolution Vmm PageFault
  FaultEffects

def InUse (roots : Set Word) (world : World) : Prop :=
  ∀ page, OwnPage page → ∀ frame entry, walk world.mem world.cr3 page = some (frame, entry) →
    ¬ paging.Reached world.mem roots frame ∧ ¬ world.pmm.Free frame

/-- The page has its bytes in a frame of its own, and nothing else that is
mapped has changed. -/
structure Preserved (world after : World) (page old : Word) : Prop where
  moved : ∃ frame entry, walk after.mem after.cr3 page = some (frame, entry) ∧
    entry &&& pageWrite ≠ 0 ∧ entry &&& pageCopyOnWrite = 0 ∧ world.pmm.Free frame ∧
    after.mem frame = world.mem old
  oldFrame : after.mem old = world.mem old
  others : ∀ other, OwnPage other → other ≠ page → ∀ frame entry, walk world.mem world.cr3 other =
    some (frame, entry) →
    walk after.mem after.cr3 other = some (frame, entry) ∧ after.mem frame = world.mem frame

def WriteFault (errorCode : Word) : Prop :=
  errorCode &&& 0x8 = 0 ∧ errorCode &&& 0x1 ≠ 0 ∧ errorCode &&& 0x2 ≠ 0

theorem WriteFault.copies (fault : WriteFault errorCode) (there : present entry = true)
    (marked : entry &&& pageCopyOnWrite ≠ 0) : Copies errorCode entry :=
  ⟨fun reserved => reserved fault.1, marked, fault.2.1, there, fault.2.2⟩

section Serves

variable {world after : World} {page old flags phys : Word}

theorem served_walk (serves : CowServes roots world after page flags phys)
    (tables : Tables roots world) (within : flags &&& flagMask = flags) :
      Paging.walk after.mem after.cr3 page =
      some (phys, phys ||| (flags &&& ~~~ pageCopyOnWrite ||| pageWrite ||| pagePresent)) := by
  have isFrame := tables.pmm.isFrame serves.wasFree
  have there : present (phys ||| (flags &&& ~~~ pageCopyOnWrite ||| pageWrite ||| pagePresent)) =
      true := by
    rw [← BitVec.or_assoc]
    exact present_marked _
  rw [walk_entry serves.evolves.tables serves.own, serves.evolves.cr3, serves.entry, leafOf,
    if_pos there, entryFrame_or isFrame (servedFlags_within within)]

theorem served_keeps (serves : CowServes roots world after page flags phys)
    (inUse : InUse roots world)
    (own : OwnPage other) (mapped : Paging.walk world.mem world.cr3 other = some (frame, entry)) :
    after.mem frame = world.mem frame := by
  have ⟨notTable, notFree⟩ := inUse other own frame entry mapped
  apply serves.evolves.data frame _ notFree
  intro reached
  exact (serves.evolves.reached frame reached).elim notTable notFree

theorem walk_other (evolves : Evolves roots (leafOfPage world.cr3 page) world after)
    (tables : Tables roots world) (ownPage : OwnPage page) (own : OwnPage other)
      (differs : other ≠ page) :
    Paging.walk after.mem after.cr3 other = Paging.walk world.mem world.cr3 other := by
  rw [walk_entry evolves.tables own.own, walk_entry tables own.own, evolves.cr3]
  apply evolves.leaves _ tables.current _ (inside_of_own own.own _) rfl
  rintro ⟨samePath, sameIndex, _⟩
  exact differs (page_unique own.aligned ownPage.aligned own.canonical ownPage.canonical samePath
    sameIndex)

end Serves

theorem served_entry_rights (flags : Word) (isFrame : IsFrame phys) :
    (phys ||| (flags &&& ~~~ pageCopyOnWrite ||| pageWrite ||| pagePresent)) &&& pageWrite ≠ 0 ∧
    (phys ||| (flags &&& ~~~ pageCopyOnWrite ||| pageWrite ||| pagePresent)) &&& pageCopyOnWrite =
      0 := by
  constructor
  · rw [or_and_flags isFrame (by decide), BitVec.and_or_distrib_right, or_and_absorb]
    decide
  · rw [or_and_flags isFrame (by decide), BitVec.and_or_distrib_right, BitVec.and_or_distrib_right,
      BitVec.and_assoc,
      show ~~~ pageCopyOnWrite &&& pageCopyOnWrite = 0#64 from by decide, BitVec.and_zero]
    decide

theorem served_preserved_iff {page old entry flags phys : Word}
    (serves : CowServes roots world after page flags phys)
    (tables : Tables roots world) (ownPage : OwnPage page) (inUse : InUse roots world)
    (mapped : walk world.mem world.cr3 page = some (old, entry))
      (within : flags &&& flagMask = flags) :
    Preserved world after page old ↔ world.mem world.pmm.nextFrame = world.mem old := by
  have walked := served_walk serves tables within
  rw [← serves.next, ← serves.contents]
  constructor
  · intro preserved
    obtain ⟨frame, found, walkedToo, _, _, _, contents⟩ := preserved.moved
    rw [walked] at walkedToo
    cases walkedToo
    exact contents
  · intro contents
    have ⟨writable, unmarked⟩ := served_entry_rights flags (tables.pmm.isFrame serves.wasFree)
    constructor
    · exact ⟨phys, _, walked, writable, unmarked, serves.wasFree, contents⟩
    · exact served_keeps serves inUse ownPage mapped
    · intro _ own differs frame _ mappedOther
      refine ⟨?_, served_keeps serves inUse own mappedOther⟩
      rw [walk_other serves.evolves tables ownPage own differs]
      exact mappedOther

/-- The page keeps its bytes exactly when the frame that it is given happens to
hold them already. -/
theorem cow_fault_preserves_iff {roots : Set Word} {world after : World}
    {cr2 errorCode old entry : Word} (tables : Tables roots world)
      (ownPage : OwnPage (pageAlign cr2))
    (mapped : walk world.mem world.cr3 (pageAlign cr2) = some (old, entry))
    (marked : entry &&& pageCopyOnWrite ≠ 0) (fault : WriteFault errorCode)
      (inUse : InUse roots world)
    (served : (handlePageFault cr2 errorCode).run world = .ok (true, after)) :
    Preserved world after (pageAlign cr2) old ↔ world.mem world.pmm.nextFrame = world.mem old := by
  have leaf := mapped
  rw [walk_entry tables ownPage.own] at leaf
  obtain ⟨there, rfl, _⟩ := leafOf_some leaf
  have walkable := walkable_of_own tables tables.current ownPage.own
  obtain ⟨_, _, serves⟩ :=
    ends_of_ok (write_fault_ends tables walkable rfl (fault.copies there marked)) served
  exact served_preserved_iff serves tables ownPage inUse mapped (and_within _ _)

/-! Process 1 has the page 0x600000, copy-on-write on the zero page. -/

section Young

variable {stale : Word} {world : World}
  (rewrites : Rewrites youngRoots (leafOfPage (youngWorld stale 1).cr3 0x600000) 3
    (youngWorld stale 1) world)
  (entry : entryAt world.mem world.cr3 0x600000 = 0x4205)

include rewrites

theorem youngCow_zeroPage : ¬ paging.Reached world.mem youngRoots 0x4000 ∧
    ¬ world.pmm.Free 0x4000 := by
  have used : ¬ youngPmm.Free 0x4000 := by
    rw [youngPmm_free]
    decide
  refine ⟨fun isTable => ?_, fun free => used (rewrites.free _ free)⟩
  rcases rewrites.reached _ isTable with older | free
  · exact absurd (youngMem_reached older) (by decide)
  · exact used free

theorem youngCow_scratch : ScratchReady world := by
  have evolves := Rewrites.evolves rewrites
  apply youngWorld_scratch.keep evolves (youngWorld_tables stale 1)
  · rw [show (youngWorld stale 1).current = 1 from rfl, rewrites.undisturbed.vmmStates]
  · rintro virt free ⟨samePath, _, _⟩
    have ⟨_, below⟩ := (youngWorld_freePages 1 _).mp free
    -- the spare pages are in another directory entry
    have directory : indexPageDir virt = indexPageDir 0x600000 := by
      simp only [tablePath, List.cons.injEq] at samePath
      exact samePath.2.2.1
    have number := congrArg BitVec.toNat directory
    rw [indexPageDir, indexPageDir, index_toNat, index_toNat] at number
    have base : (0x600000 : Word).toNat = 0x600000 := rfl
    omega

include entry

theorem youngCow_walk : walk world.mem world.cr3 0x600000 = some (0x4000, 0x4205) := by
  rw [walk_entry rewrites.tables (by decide), entry]
  decide

theorem youngCow_inUse : InUse youngRoots world := by
  intro page own _ _ mapped
  by_cases here : page = 0x600000
  · subst here
    rw [youngCow_walk rewrites entry] at mapped
    cases mapped
    exact youngCow_zeroPage rewrites
  · rw [walk_other (Rewrites.evolves rewrites) (youngWorld_tables stale 1)
      ⟨by decide, by decide, by decide⟩ own here, youngWorld_walk own.own] at mapped
    cases mapped

theorem youngCow_ready : CowReady world 0x600000 0x205 where
  there := by
    rw [entry]
    decide
  own := by decide
  user := by decide
  supply := by
    have supply := rewrites.supply
    have young : (youngWorld stale 1).pmm.supply = 64 := rfl
    omega
  covered := by
    have books := SameBooks.ofUndisturbed rewrites.undisturbed
    rw [rewrites.undisturbed.current, covered_congr books]
    exact .inr ⟨⟨0x600000, 1, fun _ => none⟩, List.mem_singleton_self _, by decide⟩
  scratch := youngCow_scratch rewrites

theorem youngCow_served : ∃ after phys, (handlePageFault 0x600000 0x7).run world =
    .ok (true, after) ∧
    CowServes youngRoots world after 0x600000 0x205 phys := by
  have page : pageAlign 0x600000 = 0x600000 := by decide
  have flags : (0x4205 : Word) &&& flagMask = 0x205 := by decide
  have tables := rewrites.tables
  have walkable : Walkable world.mem world.cr3 (pageAlign 0x600000) :=
    walkable_of_own tables tables.current (by decide)
  have ends := write_fault_ends tables walkable (by rw [page, entry])
      (show Copies 0x7 0x4205 by decide)
  rw [page, flags] at ends
  obtain ⟨_, after, served, rfl, phys, serves⟩ := ends_exists (ends_mono ends
    (fun _ _ done => done) (fun _ notReady => notReady (youngCow_ready rewrites entry)))
  exact ⟨after, phys, served, serves⟩

end Young

theorem youngWorld_cow (stale : Word) : ∃ world after phys,
    (mapAddress 0x600000 0x4000 1 (pageUser ||| pageCopyOnWrite) none).run (youngWorld stale 1) =
      .ok (⟨⟩, world) ∧
    Tables youngRoots world ∧ InUse youngRoots world ∧ walk world.mem world.cr3 0x600000 =
      some (0x4000, 0x4205) ∧
    (handlePageFault 0x600000 0x7).run world = .ok (true, after) ∧
    CowServes youngRoots world after 0x600000 0x205 phys ∧
    (world.mem world.pmm.nextFrame = fun _ => stale) ∧ (world.mem 0x4000 = fun _ => 0) := by
  have own : paging.own (indexPML4 0x600000) := by decide
  obtain ⟨world, ran, rewrites, entry⟩ := youngWorld_maps stale 1
    (show (0x600000 : Word).toNat % 4096 = 0 by decide) own
    (show _ → (pageUser ||| pageCopyOnWrite ||| pagePresent) &&& pageUser = 0 by decide)
  have tables := rewrites.tables
  rw [← rewrites.undisturbed.cr3] at entry
  have leaf : entryAt world.mem world.cr3 0x600000 = 0x4205 := entry.trans (by decide)
  obtain ⟨after, phys, served, serves⟩ := youngCow_served rewrites leaf
  refine ⟨world, after, phys, ran, tables, youngCow_inUse rewrites leaf,
    youngCow_walk rewrites leaf, served, serves, ?_, ?_⟩
  · have free := serves.wasFree
    rw [serves.next] at free
    rw [rewrites.data _ (tables.fresh _ free)]
    have ⟨_, above, _⟩ := (youngPmm_free _).mp (rewrites.free _ free)
    exact youngMem_stale above
  · rw [rewrites.data _ (youngCow_zeroPage rewrites).1]
    funext index
    simp [youngWorld, youngMem]

/-- With zeroes in the free frames nothing shows. -/
theorem cow_fault_preserves_zeroes : ∃ world after,
    (mapAddress 0x600000 0x4000 1 (pageUser ||| pageCopyOnWrite) none).run (youngWorld 0 1) =
      .ok (⟨⟩, world) ∧
    (handlePageFault 0x600000 0x7).run world = .ok (true, after) ∧
    Preserved world after (pageAlign 0x600000) 0x4000 := by
  have page : pageAlign 0x600000 = 0x600000 := by decide
  obtain ⟨world, after, _, ran, tables, inUse, walked, served, _, next, old⟩ := youngWorld_cow 0
  have ownPage : OwnPage (pageAlign 0x600000) := ⟨by decide, by decide, by decide⟩
  refine ⟨world, after, ran, served, ?_⟩
  apply (cow_fault_preserves_iff tables ownPage (page ▸ walked) (by decide)
    ⟨by decide, by decide, by decide⟩ inUse served).mpr
  rw [next, old]

/-- The page of zeroes reads as what its new frame held. -/
theorem cow_fault_exposes_stale_frame : ∃ world after,
    (mapAddress 0x600000 0x4000 1 (pageUser ||| pageCopyOnWrite) none).run (youngWorld 1 1) =
      .ok (⟨⟩, world) ∧
    Tables youngRoots world ∧ InUse youngRoots world ∧ OwnPage 0x600000 ∧
    walk world.mem world.cr3 0x600000 = some (0x4000, 0x4205) ∧ (world.mem 0x4000 = fun _ => 0) ∧
      WriteFault 0x7 ∧
    (handlePageFault 0x600000 0x7).run world = .ok (true, after) ∧
      ¬ Preserved world after 0x600000 0x4000 := by
  have ownPage : OwnPage 0x600000 := ⟨by decide, by decide, by decide⟩
  obtain ⟨world, after, _, ran, tables, inUse, walked, served, serves, next, old⟩ :=
    youngWorld_cow 1
  refine ⟨world, after, ran, tables, inUse, ownPage, walked, old, ⟨by decide, by decide, by decide⟩,
    served, ?_⟩
  rw [served_preserved_iff serves tables ownPage inUse walked (by decide), next, old]
  intro same
  exact absurd (congrFun same 0) (by decide)

end Nx.CowCopies
