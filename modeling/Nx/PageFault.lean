import Nx.Evolution
import Nx.Vmm

/-!
Which faults `handlePageFault` serves, and what it does to the pages of the
current process. The handler runs alone.
-/

namespace Nx.PageFault

open Words Radix Paging Vmregion Machine Virtmap Outcomes PageTables Mapping Evolution Vmm List

/-! An error code and a leaf entry decide which branch is taken. -/

def reservedSet (errorCode : Word) : Prop := errorCode &&& 0x8 ≠ 0
  deriving Decidable

def Ignored (errorCode entry : Word) : Prop :=
  reservedSet errorCode ∨ entry &&& pageCopyOnWrite = 0 ∨
    (errorCode &&& 0x1 ≠ 0 ∧ present entry = true ∧ errorCode &&& 0x2 = 0)
  deriving Decidable

def Lazy (errorCode entry : Word) : Prop :=
  ¬ reservedSet errorCode ∧ entry &&& pageCopyOnWrite ≠ 0 ∧
    (errorCode &&& 0x1 = 0 ∨ present entry = false)

def Copies (errorCode entry : Word) : Prop :=
  ¬ reservedSet errorCode ∧ entry &&& pageCopyOnWrite ≠ 0 ∧
    errorCode &&& 0x1 ≠ 0 ∧ present entry = true ∧ errorCode &&& 0x2 ≠ 0
  deriving Decidable

theorem Lazy.not_ignored (lazy : Lazy errorCode entry) : ¬ Ignored errorCode entry := by
  rcases lazy with ⟨unreserved, marked, absent⟩
  rintro (reserved | unmarked | ⟨bit, there, _⟩)
  · exact unreserved reserved
  · exact marked unmarked
  · rcases absent with clear | missing
    · exact bit clear
    · rw [missing] at there
      cases there

theorem Copies.not_ignored (copies : Copies errorCode entry) : ¬ Ignored errorCode entry := by
  rcases copies with ⟨unreserved, marked, _, _, write⟩
  rintro (reserved | unmarked | ⟨_, _, read⟩)
  · exact unreserved reserved
  · exact marked unmarked
  · exact write read

theorem Copies.not_lazy (copies : Copies errorCode entry) : ¬ Lazy errorCode entry := by
  rcases copies with ⟨_, _, bit, there, _⟩
  rintro ⟨_, _, clear | missing⟩
  · exact bit clear
  · rw [missing] at there
    cases there

theorem masked_cow (entry : Word) : entry &&& flagMask &&& pageCopyOnWrite =
    entry &&& pageCopyOnWrite := by
  rw [BitVec.and_assoc, show flagMask &&& pageCopyOnWrite = pageCopyOnWrite from by decide]

theorem walkable_of_closed (tables : Tables roots world)
    (closed : present (world.mem world.cr3 509) = false) (virt : Word) :
      Walkable world.mem world.cr3 virt := by
  have step : ∀ path index table, path.length < 3 → paging.descend world.mem world.cr3 path =
      some table →
      present (world.mem table index) = true →
      ∃ next, paging.descend world.mem world.cr3 (path ++ [index]) = some next := by
    intro path
    induction path with
    | nil =>
      rintro index _ _ ⟨⟩ there
      by_cases own : paging.own index
      · have inside : paging.Inside ([] ++ [index]) := by
          rintro _ ⟨⟩
          exact own
        obtain ⟨next, linked⟩ := tables.forest.linked _ tables.current [] index world.cr3 inside
            (by decide) rfl there
        exact ⟨next, by rw [descend_snoc index rfl, linked]⟩
      · have foreign : index = 509 ∨ index = 510 := by
          by_contra neither
          rw [not_or] at neither
          exact own neither
        rcases foreign with rfl | rfl
        · rw [closed] at there
          cases there
        · exact ⟨world.cr3, by rw [descend_snoc 510 rfl]; exact tables.loops _ tables.current⟩
    | cons first rest ih =>
      intro index table short here there
      by_cases own : paging.own first
      · have inside : paging.Inside (first :: rest ++ [index]) := by
          rintro _ ⟨⟩
          exact own
        obtain ⟨next, linked⟩ := tables.forest.linked _ tables.current (first :: rest) index table
          inside short here there
        exact ⟨next, by rw [descend_snoc index here, linked]⟩
      · -- slot 510 leads back to the root, slot 509 nowhere
        have foreign : first = 509 ∨ first = 510 := by
          by_contra neither
          rw [not_or] at neither
          exact own neither
        rcases foreign with rfl | rfl
        · have unlinked : paging.link (world.mem world.cr3 509) = none := by
            simp only [paging, link, closed, Bool.false_and, Bool.false_eq_true, ↓reduceIte]
          rw [Shape.descend, unlinked] at here
          cases here
        · have back : ∀ path, paging.descend world.mem world.cr3 (510 :: path) =
              paging.descend world.mem world.cr3 path := by
            intro path
            rw [Shape.descend, show paging.link (world.mem world.cr3 510) = some world.cr3 from
              tables.loops _ tables.current]
            rfl
          rw [back] at here
          rw [cons_append, back]
          exact ih index table (by simp at short; omega) here there
  intro path index _ table split here there
  have lengths := congrArg List.length split
  simp only [tablePath, length_append, length_cons, length_nil] at lengths
  exact step path index table (by omega) here there

theorem handlePageFault_ends (tables : Tables roots world)
    (walkable : Walkable world.mem world.cr3 (pageAlign cr2))
    (leaf : entryAt world.mem world.cr3 (pageAlign cr2) = entry)
      (ignored : Ignored errorCode entry → done false world)
    (lazy : Lazy errorCode entry → Ends (lazyFault (pageAlign cr2) (entry &&& flagMask)) world
      done failed)
    (copies : Copies errorCode entry → Ends (cowFault (pageAlign cr2) (entry &&& flagMask)) world
      done failed) :
    Ends (handlePageFault cr2 errorCode) world done failed := by
  unfold handlePageFault
  dsimp only
  split
  · rename_i reserved
    exact ends_pure _ (ignored (.inl (by simpa [reservedSet] using reserved)))
  · rename_i unreserved
    have notReserved : ¬ reservedSet errorCode := by simpa [reservedSet] using unreserved
    apply ends_read (getPageFlags_ends tables (self_none world) (pageAlign_aligned cr2) walkable _)
    rintro _ rfl
    rw [leaf, masked_cow, present_masked]
    split
    · rename_i marked
      have cow : entry &&& pageCopyOnWrite ≠ 0 := by simpa using marked
      split
      · rename_i absent
        apply lazy
        refine ⟨notReserved, cow, ?_⟩
        simpa using absent
      · rename_i there
        have both : errorCode &&& 0x1 ≠ 0 ∧ present entry = true := by simpa using there
        split
        · rename_i read
          exact ends_pure _ (ignored (.inr (.inr ⟨both.1, both.2, by simpa using read⟩)))
        · rename_i write
          exact copies ⟨notReserved, cow, both.1, both.2, by simpa using write⟩
    · rename_i unmarked
      exact ends_pure _ (ignored (.inr (.inl (by simpa using unmarked))))

/-! Faults that are refused. -/

def Covered (space : AddressSpace) (page : Word) : Prop :=
  (∃ svmr ∈ space.sharedRegions, svmr.contains page = true) ∨ ∃ vmr ∈ space.regions,
    vmr.contains page = true

theorem lookupVirtualMapping_cases (space : AddressSpace) (store : SharedStore) (page : Word) :
    (¬ Covered space page ∧ space.lookupVirtualMapping store page = (none, none)) ∨
    (Covered space page ∧ ∃ found, space.lookupVirtualMapping store page = (some page, found)) := by
  unfold AddressSpace.lookupVirtualMapping
  split
  · rename_i svmr shared
    have listed := mem_of_find?_eq_some shared
    exact .inr ⟨.inl ⟨svmr, listed, find?_some shared⟩, _, rfl⟩
  · rename_i noShared
    split
    · rename_i vmr own
      have listed := mem_of_find?_eq_some own
      exact .inr ⟨.inr ⟨vmr, listed, find?_some own⟩, _, rfl⟩
    · rename_i noOwn
      rw [find?_eq_none] at noShared noOwn
      refine .inl ⟨?_, rfl⟩
      rintro (⟨svmr, listed, inside⟩ | ⟨vmr, listed, inside⟩)
      · exact noShared svmr listed inside
      · exact noOwn vmr listed inside

theorem lazyFault_uncovered {world : World} {page flags : Word} {failed : Abort → Prop}
    (outside : ¬ Covered (world.procs world.current) page) :
    Ends (lazyFault page flags) world (fun value after => value = false ∧ after = world)
      failed := by
  apply ends_get
  rcases lookupVirtualMapping_cases (world.procs world.current) world.store page with
    ⟨_, none⟩ | ⟨covered, _⟩
  · rw [none]
    exact ends_pure _ ⟨rfl, rfl⟩
  · exact absurd covered outside

theorem lazyFault_covered {world : World} {page flags : Word}
    (inside : Covered (world.procs world.current) page) :
    Ends (lazyFault page flags) world (fun value _ => value = true) (fun _ => True) := by
  apply ends_get
  rcases lookupVirtualMapping_cases (world.procs world.current) world.store page with
    ⟨outside, _⟩ | ⟨_, found, some⟩
  · exact absurd inside outside
  · rw [some]
    apply ends_seq (ends_any _ _)
    intro _ _ _
    apply ends_seq (ends_any _ _)
    intro _ _ _
    apply ends_seq (ends_any _ _)
    intro _ _ _
    exact ends_pure _ rfl

theorem cowFault_true (world : World) (page flags : Word) :
    Ends (cowFault page flags) world (fun value _ => value = true) (fun _ => True) := by
  apply ends_seq (ends_any _ _)
  intro _ _ _
  apply ends_seq (ends_any _ _)
  intro _ _ _
  apply ends_get
  apply ends_seq (ends_any _ _)
  intro _ _ _
  apply ends_seq (ends_any _ _)
  intro _ _ _
  split
  all_goals
    apply ends_seq (ends_any _ _)
    intro _ _ _
    exact ends_pure _ rfl

/-- The handler returns false and leaves memory, the regions and the free frames
as they were. -/
def Refuses (world : World) (cr2 errorCode : Word) : Prop :=
  ∃ after, (handlePageFault cr2 errorCode).run world = .ok (false, after) ∧
    after.mem = world.mem ∧ after.procs = world.procs ∧ after.store = world.store ∧
    after.pmm = world.pmm

/-- The handler does not look at the user bit of the error code or of the page:
a fault of user code on a page of the kernel is refused when every other fault
with these bits is. -/
theorem user_fault_refused_iff {roots : Set Word} {world : World} {cr2 errorCode entry : Word}
    (tables : Tables roots world) (closed : present (world.mem world.cr3 509) = false)
    (leaf : entryAt world.mem world.cr3 (pageAlign cr2) = entry) : errorCode &&& 0x4 ≠ 0 →
      entry &&& pageUser = 0 →
    (Refuses world cr2 errorCode ↔ Ignored errorCode entry ∨
      Lazy errorCode entry ∧ ¬ Covered (world.procs world.current) (pageAlign cr2)) := by
  intro _ _
  have walkable := walkable_of_closed tables closed (pageAlign cr2)
  constructor
  · rintro ⟨after, ran, _⟩
    by_contra other
    rw [not_or, not_and, not_not] at other
    have ends : Ends (handlePageFault cr2 errorCode) world (fun value _ => value = true)
        (fun _ => True) := by
      apply handlePageFault_ends tables walkable leaf
      · exact fun ignored => absurd ignored other.1
      · exact fun lazy => lazyFault_covered (other.2 lazy)
      · exact fun _ => cowFault_true world _ _
    cases ends_of_ok ends ran
  · intro refused
    have ends : Ends (handlePageFault cr2 errorCode) world
        (fun value after => value = false ∧ after = world) (fun _ => False) := by
      apply handlePageFault_ends tables walkable leaf
      · exact fun _ => ⟨rfl, rfl⟩
      · intro lazy
        apply lazyFault_uncovered
        rcases refused with ignored | uncovered
        · exact absurd ignored lazy.not_ignored
        · exact uncovered.2
      · intro copies
        rcases refused with ignored | uncovered
        · exact absurd ignored copies.not_ignored
        · exact absurd uncovered.1 copies.not_lazy
    obtain ⟨_, after, ran, rfl, rfl⟩ := ends_exists ends
    exact ⟨after, ran, rfl, rfl, rfl, rfl⟩

/-- User code reads a page of the kernel that is not mapped. -/
theorem user_fault_refused_unmapped : Refuses (youngWorld 0 1) 0xFFFFFFFF80000000 0x7 ∧
    Ignored 0x7 0 := by
  have ignored : Ignored 0x7 0 := by decide
  have tables := youngWorld_tables 0 1
  have leaf : entryAt (youngWorld 0 1).mem (youngWorld 0 1).cr3 (pageAlign 0xFFFFFFFF80000000) =
      0 :=
    youngWorld_unmapped tables.current (by decide)
  refine ⟨?_, ignored⟩
  exact (user_fault_refused_iff tables (by decide) leaf (by decide) (by decide)).mpr (.inl ignored)

/-- User code of process 1 writes to a copy-on-write page of the kernel, which
lies in no region of process 1. -/
theorem user_fault_on_kernel_page_served : ∃ world,
    (mapAddress 0xFFFFFFFF80000000 0x4000 1 pageCopyOnWrite none).run (youngWorld 0 1) =
      .ok (⟨⟩, world) ∧
    Tables youngRoots world ∧ present (world.mem world.cr3 509) = false ∧ (0x7 : Word) &&& 0x4 ≠ 0 ∧
    entryAt world.mem world.cr3 (pageAlign 0xFFFFFFFF80000000) &&& pageUser = 0 ∧
    ¬ Refuses world 0xFFFFFFFF80000000 0x7 := by
  have page : pageAlign 0xFFFFFFFF80000000 = 0xFFFFFFFF80000000 := by decide
  obtain ⟨world, ran, rewrites, entry⟩ := youngWorld_maps 0 1
    (show (0xFFFFFFFF80000000 : Word).toNat % 4096 = 0 by decide) (by decide)
    (show _ → (pageCopyOnWrite ||| pagePresent) &&& pageUser = 0 by decide)
  rw [← rewrites.undisturbed.cr3, ← page] at entry
  have closed : present (world.mem world.cr3 509) = false := by
    rw [rewrites.undisturbed.cr3, rewrites.slots _ (youngWorld_tables 0 1).current 509 not_own_509]
    decide
  refine ⟨world, ran, rewrites.tables, closed, by decide, by rw [entry]; decide, ?_⟩
  rintro ⟨_, served, _⟩
  have copies : Copies 0x7 (0x4000 ||| (pageCopyOnWrite ||| pagePresent)) := by decide
  have ends : Ends (handlePageFault 0xFFFFFFFF80000000 0x7) world (fun value _ => value = true)
      (fun _ => True) := by
    apply handlePageFault_ends rewrites.tables (walkable_of_closed rewrites.tables closed _) entry
    · exact fun ignored => absurd ignored copies.not_ignored
    · exact fun lazy => absurd lazy copies.not_lazy
    · exact fun _ => cowFault_true world _ _
  cases ends_of_ok ends served

end Nx.PageFault
