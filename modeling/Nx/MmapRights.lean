import Nx.Allocations
import Nx.CowCopies

/-!
The rights of anonymous mappings: what `mmap_anon` was asked for, and what the page tables grant
after the mapping and after any sequence of faults on its pages.
-/

namespace Nx.MmapRights

open Words Radix Paging Physical Vmregion Machine Outcomes PageTables Mapping Evolution Vmm
  PageFault FaultEffects CowCopies Allocations Transitions

/-- Tables and records are in order, and every process has one of the roots. -/
structure Sane (roots : Set Word) (world : World) : Prop where
  tables : Tables roots world
  recorded : Recorded world
  roots : ∀ proc, (world.procs proc).theCR3 ∈ roots

section Sane

variable {roots : Set Word} {world after : World}

theorem Sane.evolve (sane : Sane roots world) (evolves : Evolves roots changed world after)
    (recorded : Recorded after) : Sane roots after :=
  ⟨evolves.tables, recorded, fun proc => evolves.theCR3 proc ▸ sane.roots proc⟩

theorem Sane.hold (sane : Sane roots world) (held : Option (Nat × AddressSpaceType)) :
    Sane roots { world with held := held } :=
  ⟨⟨sane.tables.forest, sane.tables.frames, sane.tables.loops, sane.tables.current, sane.tables.pmm,
    sane.tables.fresh⟩, ⟨sane.recorded.regions, sane.recorded.shared⟩, sane.roots⟩

def Keeps (roots : Set Word) (world after : World) : Prop :=
  Sane roots after ∧ after.current = world.current

theorem Keeps.trans (first : Keeps roots world middle) (second : Keeps roots middle after) :
    Keeps roots world after :=
  ⟨second.1, second.2.trans first.2⟩

inductive Faulted (roots : Set Word) (world after : World) (page errorCode entry : Word) :
    Prop where
  | refused (same : after = world) (notCopied : ¬ Copies errorCode entry)
  | filled (lazy : Lazy errorCode entry) (phys : Word)
      (serves : LazyServes roots world after page (entry &&& flagMask) phys)
  | copied (copies : Copies errorCode entry) (phys : Word)
      (serves : CowServes roots world after page (entry &&& flagMask) phys)

theorem fault_ends (sane : Sane roots world) (own : paging.own (indexPML4 (pageAlign cr2)))
    (leaf : entryAt world.mem world.cr3 (pageAlign cr2) = entry) :
      Ends (handlePageFault cr2 errorCode) world
    (fun _ after => Faulted roots world after (pageAlign cr2) errorCode entry) (fun _ => True) := by
  apply handlePageFault_ends sane.tables (walkable_of_own sane.tables sane.tables.current own) leaf
  · exact fun ignored => .refused rfl fun copies => copies.not_ignored ignored
  · intro lazy
    apply ends_imp (lazyFault_ends sane.tables sane.recorded (pageAlign_aligned cr2)
      (and_within entry flagMask))
    rintro _ after (same | ⟨phys, serves⟩)
    · exact .refused same fun copies => copies.not_lazy lazy
    · exact .filled lazy phys serves
  · intro copies
    apply ends_mono (cowFault_ends sane.tables (pageAlign_aligned cr2) (and_within entry flagMask))
      _
      (fun _ _ => trivial)
    rintro _ _ ⟨_, phys, serves⟩
    exact .copied copies phys serves

theorem Faulted.keeps {page errorCode entry} (sane : Sane roots world)
    (faulted : Faulted roots world after page errorCode entry) : Keeps roots world after := by
  cases faulted with
  | refused same =>
    rw [same]
    exact ⟨sane, rfl⟩
  | filled _ phys serves =>
    exact ⟨sane.evolve serves.evolves serves.recorded, serves.evolves.current⟩
  | copied _ _ serves =>
    exact ⟨sane.evolve serves.evolves (serves.recorded sane.recorded), serves.evolves.current⟩

end Sane

/-! Reserving address space. -/

theorem indexPML4_pageAlign (addr : Word) : indexPML4 (pageAlign addr) = indexPML4 addr := by
  have masked : ∀ mask : Word, mask >>> 39 &&& 0x1FF = 0x1FF → indexPML4 (addr &&& mask) =
      indexPML4 addr := by
    intro _ whole
    rw [indexPML4, BitVec.ushiftRight_and_distrib, BitVec.and_assoc, whole]
    rfl
  rw [pageAlign]
  split
  · exact masked _ (by decide)
  · exact masked _ (by decide)

section Reserve

variable {roots : Set Word} {world : World}

section

variable (sane : Sane roots world)
include sane

theorem Sane.reserve (proc : Nat) (states : AddressSpaceType → Extmm.State) :
    Sane roots (world.setProc proc { world.procs proc with vmmStates := states }) := by
  obtain ⟨evolves, books⟩ := evolves_of_setProc sane.tables
    (Eq.refl (world.setProc proc { world.procs proc with vmmStates := states }))
  exact sane.evolve evolves (sane.recorded.keep books fun _ free => free)

theorem addRegion_keeps (addr num : Word) (proc : Nat) (wanted : Bool) :
    Ends (onlyIf wanted (addRegion addr num proc)) world (fun _ after => Keeps roots world after)
      (fun _ => True) := by
  cases wanted with
  | false => exact ends_pure _ ⟨sane, rfl⟩
  | true =>
    apply ends_mono (addRegion_ends world addr num proc) _ (fun _ _ => trivial)
    rintro _ _ ⟨_, added, rfl⟩
    exact ⟨sane.evolve (addRegion_evolves sane.tables added)
      (addRegion_recorded sane.recorded added), rfl⟩

theorem newNodes_keeps : Ends newNodes world (fun _ after => Keeps roots world after)
    (fun _ => True) := by
  have owner : (world.procs ((some 0).getD world.current)).theCR3 = (world.procs 0).theCR3 := rfl
  apply ends_seq (allocate_ends sane.tables owner (sane.roots 0) (by decide) .kernel pageWrite)
  rintro newmem _ ⟨grant, _⟩
  have saneNow := sane.evolve grant.evolves (grant.recorded sane.recorded)
  have own : paging.own (indexPML4 (pageAlign newmem)) := by
    obtain ⟨mapped, _⟩ := grant.mapped 0 (by decide)
    rw [pageAt_zero] at mapped
    rw [indexPML4_pageAlign]
    exact mapped
  apply ends_seq (fault_ends saneNow own rfl)
  intro _ _ faulted
  apply refuse_then (fun _ => trivial)
  intro _
  exact ends_pure _ (Keeps.trans ⟨saneNow, grant.evolves.current⟩ (faulted.keeps saneNow))

theorem nodesFor_keeps (addr num : Word) (proc : Nat) (type : AddressSpaceType) :
    Ends (nodesFor addr num proc type) world (fun _ after => Keeps roots world after)
      (fun _ => True) := by
  apply ends_get
  split
  · exact ends_pure _ ⟨sane, rfl⟩
  · apply ends_put
    apply ends_seq (newNodes_keeps (sane.hold _))
    rintro _ _ ⟨saneNow, current⟩
    apply ends_get
    apply ends_put
    exact ends_pure _ ⟨saneNow.hold none, current⟩

theorem allocateSpecific_keeps (addr num : Word) :
    Ends (allocateSpecific addr num none) world (fun _ after => Keeps roots world after)
      (fun _ => True) := by
  apply assertThat_any
  intro _
  apply ends_get
  unfold getAddrSpace
  split
  · rename_i type _
    apply ends_bind
    apply ends_pure
    apply refuse_then (fun _ => trivial)
    intro _
    apply ends_seq (nodesFor_keeps sane addr num _ type)
    rintro _ _ keeps
    apply ends_get
    dsimp only
    split
    · exact ends_throw _ trivial
    · rename_i virt st _
      apply ends_put
      apply ends_seq (addRegion_keeps (keeps.1.reserve _ _) virt num _ _)
      intro _ _ added
      exact ends_pure _ (keeps.trans added)
  · exact ends_bind (ends_throw _ trivial)

end

theorem allocate_zero_ends (type : AddressSpaceType) (flags : Word) (proc : Option Nat) :
    Ends (Vmm.allocate 0 type flags proc) world (fun _ _ => False) (fun _ => True) := by
  apply ends_get
  apply ends_bind
  apply ends_get
  apply refuse_then (fun _ => trivial)
  intro _
  rw [Extmm.State.allocate, if_pos rfl]
  exact ends_throw _ trivial

theorem requested_keeps (sane : Sane roots world) (reqAddr num : Word) :
    Ends (requested reqAddr num) world (fun _ after => Keeps roots world after)
      (fun _ => True) := by
  unfold requested
  split
  · exact allocateSpecific_keeps sane _ num
  · exact ends_pure _ ⟨sane, rfl⟩

end Reserve

/-! The pages of a mapping. -/

def Pages (good : Word → Prop) (virt : Word) (num : Nat) (world : World) : Prop :=
  ∀ i < num, paging.own (indexPML4 (pageAt virt i)) ∧
    present (entryAt world.mem world.cr3 (pageAt virt i)) = true ∧
    good (entryAt world.mem world.cr3 (pageAt virt i))

def Fresh (prot : BitVec 32) (entry : Word) : Prop :=
  ∃ phys, IsFrame phys ∧ entry = phys ||| cowFlags (mmapFlags prot)

variable {i : Nat}

theorem pages_of_leaves {after : World} {virt num root : Word} (isFrame : IsFrame phys)
    (cr3 : after.cr3 = root)
    (mapped : ∀ i < num.toNat, paging.own (indexPML4 (pageAt virt i)) ∧
    (255 < indexPML4 (pageAt virt i) → cowFlags (mmapFlags prot) &&& pageUser = 0) ∧
    leafOf (entryAt after.mem root (pageAt virt i)) = leafOf (phys ||| cowFlags (mmapFlags prot))) :
    Pages (Fresh prot) virt num.toNat after := by
  intro i below
  obtain ⟨own, _, leaf⟩ := mapped i below
  have there := present_cowFlags phys (mmapFlags prot)
  obtain ⟨found, entry, _⟩ := leafOf_some (leaf.trans (if_pos there))
  rw [cr3]
  exact ⟨own, found, phys, isFrame, entry.symm⟩

theorem mmapAnon_ends (sane : Sane roots world) (reqAddr length : Word) (prot flags : BitVec 32) :
    Ends (mmapAnon reqAddr length prot flags) world (fun ret after => ∀ virt, ret = some virt →
    Keeps roots world after ∧ Pages (Fresh prot) virt (mmapPages length).toNat after)
      (fun _ => True) := by
  unfold mmapAnon
  split
  · exact ends_pure _ (fun _ none => by cases none)
  split
  · exact ends_pure _ (fun _ none => by cases none)
  split
  · exact ends_pure _ (fun _ none => by cases none)
  apply ends_seq (requested_keeps sane reqAddr _)
  intro virt ready keeps
  have isFrame := keeps.1.tables.pmm.zeroPage
  split
  · have owner : (ready.procs ((none : Option Nat).getD ready.current)).theCR3 = ready.cr3 := rfl
    apply ends_seq (mapZeroedCOW_evolves keeps.1.tables owner keeps.1.tables.current virt _ _)
    rintro _ after ⟨evolves, books, mapped⟩
    apply ends_pure
    rintro _ ⟨⟩
    rw [cowFlags_readOnly] at mapped
    refine ⟨keeps.trans ⟨?_, evolves.current⟩, pages_of_leaves isFrame evolves.cr3 mapped⟩
    exact keeps.1.evolve evolves (keeps.1.recorded.keep books evolves.free)
  split
  · exact ends_pure _ (fun _ none => by cases none)
  by_cases zero : mmapPages length = 0
  · rw [zero]
    exact ends_seq (allocate_zero_ends _ _ _) (fun _ _ impossible => impossible.elim)
  have owner : (ready.procs ((none : Option Nat).getD ready.current)).theCR3 = ready.cr3 := rfl
  apply ends_seq (allocate_ends keeps.1.tables owner keeps.1.tables.current zero .user _)
  rintro _ _ ⟨grant, nonzero, _⟩
  apply ends_pure
  rw [if_neg (by simpa using nonzero)]
  rintro _ ⟨⟩
  refine ⟨keeps.trans ⟨?_, grant.evolves.current⟩,
    pages_of_leaves isFrame grant.evolves.cr3 grant.mapped⟩
  exact keeps.1.evolve grant.evolves (grant.recorded keeps.1.recorded)

/-! Rights. -/

def WriteOk (prot : BitVec 32) (entry : Word) : Prop :=
  entry &&& pageWrite ≠ 0 → prot &&& protWrite ≠ 0

def NxOk (prot : BitVec 32) (entry : Word) : Prop :=
  entry &&& pageNx ≠ 0 ↔ prot &&& protExec = 0

def Rights (prot : BitVec 32) (entry : Word) : Prop := WriteOk prot entry ∧ NxOk prot entry

theorem Fresh.rights (fresh : Fresh prot entry) : Rights prot entry := by
  obtain ⟨_, isFrame, rfl⟩ := fresh
  constructor
  · intro writable
    refine absurd ?_ writable
    rw [or_and_flags isFrame (by decide)]
    unfold mmapFlags
    split <;> split <;> decide
  · rw [NxOk, or_and_flags isFrame (by decide)]
    unfold mmapFlags
    by_cases exec : prot &&& protExec = 0
    · simp only [exec, beq_self_eq_true, ↓reduceIte, iff_true]
      split <;> decide
    · simp only [beq_eq_false_iff_ne.mpr exec, exec, Bool.false_eq_true, ↓reduceIte, iff_false]
      split <;> decide

theorem served_bit (isFrame : IsFrame phys) (entry extra mask : Word)
    (apart : 0x000FFFFFFFFFF000 &&& mask = 0#64)
    (kept : flagMask &&& (~~~ pageCopyOnWrite &&& mask) = mask) (unset : extra &&& mask = 0#64) :
    (phys ||| (entry &&& flagMask &&& ~~~ pageCopyOnWrite ||| extra)) &&& mask =
      entry &&& mask := by
  rw [or_and_flags isFrame apart, BitVec.and_or_distrib_right, unset, BitVec.or_zero,
    BitVec.and_assoc, BitVec.and_assoc, kept]

section Steps

variable {page errorCode entry virt : Word}

theorem filled_present (serves : LazyServes roots world after page entry phys) :
    present (entryAt after.mem world.cr3 page) = true := by
  rw [serves.entry, ← BitVec.or_assoc]
  exact present_marked _

theorem copied_present (serves : CowServes roots world after page entry phys) :
    present (entryAt after.mem world.cr3 page) = true := by
  rw [serves.entry, ← BitVec.or_assoc]
  exact present_marked _

theorem filled_bit (serves : LazyServes roots world after page (entry &&& flagMask) phys)
    (mask : Word)
    (apart : 0x000FFFFFFFFFF000 &&& mask = 0#64)
      (kept : flagMask &&& (~~~ pageCopyOnWrite &&& mask) = mask)
    (unset : (pagePresent ||| pagePresent) &&& mask = 0#64) :
    entryAt after.mem world.cr3 page &&& mask = entry &&& mask := by
  rw [serves.entry, BitVec.or_assoc (entry &&& flagMask &&& _)]
  exact served_bit serves.isFrame entry _ mask apart kept unset

theorem copied_bit (tables : Tables roots world)
    (serves : CowServes roots world after page (entry &&& flagMask) phys) :
    entryAt after.mem world.cr3 page &&& pageNx = entry &&& pageNx := by
  rw [serves.entry, BitVec.or_assoc (entry &&& flagMask &&& _)]
  exact served_bit (tables.pmm.isFrame serves.wasFree) entry _ pageNx (by decide) (by decide)
    (by decide)

theorem Pages.change (pages : Pages good virt num world) (tables : Tables roots world)
    (evolves : Evolves roots (leafOfPage world.cr3 page) world after)
    (there : present (entryAt after.mem world.cr3 page) = true)
    (now : good (entryAt after.mem world.cr3 page)) : Pages good virt num after := by
  intro i below
  obtain ⟨own, thereBefore, before⟩ := pages i below
  refine ⟨own, ?_⟩
  rw [evolves.cr3]
  by_cases here : tablePath (pageAt virt i) = tablePath page ∧ indexPageTable (pageAt virt i) =
    indexPageTable page
  · have same : entryAt after.mem world.cr3 (pageAt virt i) = entryAt after.mem world.cr3 page := by
      rw [entryAt, entryAt, here.1, here.2]
    rw [same]
    exact ⟨there, now⟩
  · have leaf := evolves.leaves world.cr3 tables.current (tablePath (pageAt virt i))
      (inside_of_own own _) rfl (indexPageTable (pageAt virt i))
      (fun touched => here ⟨touched.1, touched.2.1⟩)
    obtain ⟨thereNow, same, _⟩ := leafOf_some (leaf.trans (if_pos thereBefore))
    have kept : entryAt world.mem world.cr3 (pageAt virt i) = entryAt after.mem world.cr3
        (pageAt virt i) := same
    exact ⟨thereNow, kept ▸ before⟩

theorem fault_keeps_nx (sane : Sane roots world) (pages : Pages (NxOk prot) virt num world)
    (below : i < num) (isPage : page = pageAt virt i)
    (faulted : Faulted roots world after page errorCode (entryAt world.mem world.cr3 page)) :
    Pages (NxOk prot) virt num after := by
  have before : NxOk prot (entryAt world.mem world.cr3 page) := isPage ▸ (pages i below).2.2
  cases faulted with
  | refused same => exact same ▸ pages
  | filled _ phys serves =>
    apply pages.change sane.tables serves.evolves (filled_present serves)
    rw [NxOk, filled_bit serves pageNx (by decide) (by decide) (by decide)]
    exact before
  | copied _ _ serves =>
    apply pages.change sane.tables serves.evolves (copied_present serves)
    rw [NxOk, copied_bit sane.tables serves]
    exact before

theorem fault_keeps_write (sane : Sane roots world) (pages : Pages (WriteOk prot) virt num world)
    (below : i < num) (isPage : page = pageAt virt i)
    (faulted : Faulted roots world after page errorCode (entryAt world.mem world.cr3 page))
    (allowed : prot &&& protWrite ≠ 0 ∨ ¬ Copies errorCode (entryAt world.mem world.cr3 page)) :
    Pages (WriteOk prot) virt num after := by
  have before : WriteOk prot (entryAt world.mem world.cr3 page) := isPage ▸ (pages i below).2.2
  cases faulted with
  | refused same => exact same ▸ pages
  | filled _ phys serves =>
    apply pages.change sane.tables serves.evolves (filled_present serves)
    rw [WriteOk, filled_bit serves pageWrite (by decide) (by decide) (by decide)]
    exact before
  | copied copies _ serves =>
    apply pages.change sane.tables serves.evolves (copied_present serves)
    intro _
    exact allowed.resolve_right fun notCopied => notCopied copies

theorem fault_grants_write (sane : Sane roots world) (below : i < num)
    (isPage : page = pageAt virt i) (pages : Pages (WriteOk prot) virt num after)
    (faulted : Faulted roots world after page errorCode (entryAt world.mem world.cr3 page)) :
    prot &&& protWrite ≠ 0 ∨ ¬ Copies errorCode (entryAt world.mem world.cr3 page) := by
  cases faulted with
  | refused _ notCopied => exact .inr notCopied
  | filled lazy phys serves => exact .inr fun copies => copies.not_lazy lazy
  | copied _ _ serves =>
    left
    obtain ⟨_, _, ok⟩ := pages i below
    rw [← isPage, serves.evolves.cr3] at ok
    apply ok
    rw [serves.entry]
    exact (served_entry_rights _ (sane.tables.pmm.isFrame serves.wasFree)).1

end Steps

/-! Sequences of faults. -/

def FaultStep (virt : Word) (num : Nat) (before : World) (label : Word × Word) (after : World) :
    Prop :=
  (∃ i < num, pageAlign label.1 = pageAt virt i) ∧
    ∃ value, (handlePageFault label.1 label.2).run before = .ok (value, after)

/-- Writing was asked for, or the fault is not a write to a present
copy-on-write page. -/
def Allowed (prot : BitVec 32) (move : Move World (Word × Word)) : Prop :=
  prot &&& protWrite ≠ 0 ∨ ¬ Copies move.label.2
    (entryAt move.before.mem move.before.cr3 (pageAlign move.label.1))

theorem faultStep_faulted (sane : Sane roots before) (pages : Pages good virt num before)
    (step : FaultStep virt num before label after) : ∃ i < num, pageAlign label.1 = pageAt virt i ∧
    Faulted roots before after (pageAlign label.1) label.2
      (entryAt before.mem before.cr3 (pageAlign label.1)) := by
  obtain ⟨⟨i, below, isPage⟩, _, ran⟩ := step
  have own : paging.own (indexPML4 (pageAlign label.1)) := isPage ▸ (pages i below).1
  exact ⟨i, below, isPage, ends_of_ok (fault_ends sane own rfl) ran⟩

theorem Pages.mono (pages : Pages good virt num world) (implies : ∀ entry, good entry →
    better entry) :
    Pages better virt num world := by
  intro i below
  obtain ⟨own, there, holds⟩ := pages i below
  exact ⟨own, there, implies _ holds⟩

/-- The right to execute is what was asked for, always. The right to write is
exceeded as soon as a page that was mapped without it is written to. -/
theorem mmap_rights_kept_iff {roots : Set Word} {world mapped last : World}
    {reqAddr length virt : Word} {prot flags : BitVec 32} {moves : List (Move World (Word × Word))}
    (sane : Sane roots world) (succeeded : (mmapAnon reqAddr length prot flags).run world =
      .ok (some virt, mapped))
    (run : Run (FaultStep virt (mmapPages length).toNat) mapped moves last) :
    (∀ state ∈ visited mapped moves, Pages (NxOk prot) virt (mmapPages length).toNat state) ∧
    ((∀ state ∈ visited mapped moves, Pages (WriteOk prot) virt (mmapPages length).toNat state) ↔
      ∀ move ∈ moves, Allowed prot move) := by
  obtain ⟨keeps, fresh⟩ := ends_of_ok (mmapAnon_ends sane reqAddr length prot flags)
      succeeded virt rfl
  have executable := fresh.mono fun _ new => new.rights.2
  have writable := fresh.mono fun _ new => new.rights.1
  constructor
  · have throughout := run_invariant
      (fun state => Sane roots state ∧ Pages (NxOk prot) virt (mmapPages length).toNat state)
      (by
        rintro _ _ after ⟨saneBefore, pages⟩ step
        obtain ⟨i, below, isPage, faulted⟩ := faultStep_faulted saneBefore pages step
        exact ⟨(faulted.keeps saneBefore).1, fault_keeps_nx saneBefore pages below isPage faulted⟩)
      run ⟨keeps.1, executable⟩
    exact fun state member => (throughout.1 state member).2
  · have exactly := run_exact (fun state => Sane roots state ∧ Pages (WriteOk prot) virt
        (mmapPages length).toNat state)
      (Allowed prot) (fun move => Pages (WriteOk prot) virt (mmapPages length).toNat move.after)
      (by
        rintro move ⟨saneBefore, pages⟩ step allowed
        obtain ⟨i, below, isPage, faulted⟩ := faultStep_faulted saneBefore pages step
        have kept := fault_keeps_write saneBefore pages below isPage faulted allowed
        exact ⟨⟨(faulted.keeps saneBefore).1, kept⟩, kept⟩)
      (by
        rintro _ ⟨saneBefore, pages⟩ step after
        obtain ⟨i, below, isPage, faulted⟩ := faultStep_faulted saneBefore pages step
        exact fault_grants_write saneBefore below isPage after faulted)
      run ⟨keeps.1, writable⟩
    rw [← exactly, visited, List.forall_mem_cons]
    simp only [List.forall_mem_map, writable, true_and]

/-! Process 1 of the young world maps a page and writes to it. -/

section Young

variable (prot : BitVec 32)

theorem youngWorld_userPage : OnePage (youngWorld 0 1) .user 0x400000 (mmapFlags prot)
    { Extmm.State.init "vmm/kernel" 0 0 with head := [⟨0x401000, 15⟩] } := by
  refine ⟨?_, rfl, by decide, by decide, by decide, ?_, ?_, by decide, ?_⟩
  · intro held
    cases held
  · intro high
    exact absurd high (by decide)
  · rw [youngWorld_unmapped (youngWorld_tables 0 1).current (by decide)]
    decide
  · intro space regions
    have none : Pieces.scan (VMRegion.touches 0x400000 1) space.regions = none := by
      rw [regions]
      rfl
    rw [AddressSpace.addRegion, if_neg (by decide), none]
    exact ⟨_, rfl⟩

theorem youngWorld_still_scratch (evolves : Evolves youngRoots (leavesOf 0x2000 0x400000 1)
    (youngWorld 0 1) mapped)
    (states : (mapped.procs 1).vmmStates .user =
      { Extmm.State.init "vmm/kernel" 0 0 with head := [⟨0x401000, 15⟩] }) :
    ScratchReady mapped := by
  have current : mapped.current = 1 := evolves.current
  have freePages : ∀ page, page ∈ ((mapped.procs 1).vmmStates .user).freePages → 0x401 ≤ page ∧
      page < 0x410 := by
    intro page free
    rw [states, Extmm.State.freePages] at free
    simpa [Extmm.Extent.pages] using free
  constructor
  · rw [evolves.held]
    intro held
    cases held
  · rw [current, states]
    rintro _ (_ | ⟨_, ⟨⟩⟩)
    exact ⟨by decide, by decide, by decide⟩
  · rw [current, states]
    exact List.pairwise_singleton _ _
  · rw [current]
    intro page free
    have := freePages page free
    omega
  · rw [current, states]
    exact ⟨⟨0x401000, 15⟩, List.mem_singleton_self _, by decide⟩
  · rw [current]
    intro virt free
    obtain ⟨_, _⟩ := freePages _ free
    have low : (indexPML4 virt).toNat < 256 := by
      rw [indexPML4, index_toNat]
      omega
    have tables := youngWorld_tables 0 1
    have leaf := evolves.leaves _ tables.current (tablePath virt) (inside_of_own (own_of_low low) _)
      rfl (indexPageTable virt) (by
        rintro ⟨i, first, _, sameIndex, _⟩
        cases Nat.lt_one_iff.mp first
        rw [pageAt_zero] at sameIndex
        -- the mapped page has the index 0, these have 1 to 15
        have number := congrArg BitVec.toNat sameIndex
        rw [indexPageTable, indexPageTable, index_toNat, index_toNat] at number
        have base : (0x400000 : Word).toNat = 0x400000 := rfl
        omega)
    have unmapped : entryAt (youngWorld 0 1).mem (youngWorld 0 1).cr3 virt = 0 :=
      youngWorld_unmapped tables.current (own_of_low low)
    rw [← leafOf_eq_none, evolves.cr3]
    apply leaf.trans
    rw [leafOf_eq_none]
    exact congrArg present unmapped

theorem youngWorld_sane : Sane youngRoots (youngWorld 0 1) :=
  ⟨youngWorld_tables 0 1, youngWorld_recorded, youngWorld_root⟩

theorem youngWorld_mmap : ∃ mapped after,
    (mmapAnon 0 0x1000 prot mapAnonymous).run (youngWorld 0 1) = .ok (some 0x400000, mapped) ∧
    Sane youngRoots mapped ∧ paging.own (indexPML4 (pageAlign 0x400000)) ∧
    Copies 0x7 (entryAt mapped.mem mapped.cr3 (pageAlign 0x400000)) ∧
    (handlePageFault 0x400000 0x7).run mapped = .ok (true, after) := by
  have tables := youngWorld_tables 0 1
  have self : (none : Option Nat).getD (youngWorld 0 1).current = (youngWorld 0 1).current := rfl
  obtain ⟨_, mapped, ran, rfl, _, states, _⟩ :=
    ends_exists (allocate_one_ends tables self (youngWorld_userPage prot))
  have owner : ((youngWorld 0 1).procs ((none : Option Nat).getD (youngWorld 0 1).current)).theCR3 =
      0x2000 := rfl
  obtain ⟨grant, _⟩ := ends_of_ok (allocate_ends tables owner tables.current (by decide) .user
      (mmapFlags prot)) ran
  have succeeded : (mmapAnon 0 0x1000 prot mapAnonymous).run (youngWorld 0 1) =
      .ok (some 0x400000, mapped) := by
    have simple : mmapAnon 0 0x1000 prot mapAnonymous = (do
          let ret ← Vmm.allocate 1 .user (mmapFlags prot) none
          pure (if ret == 0 then none else some ret)) := rfl
    rw [simple, StateT.run_bind, ran]
    rfl
  have page : pageAlign 0x400000 = 0x400000 := by decide
  have sane := youngWorld_sane.evolve grant.evolves (grant.recorded youngWorld_recorded)
  obtain ⟨own, _, leaf⟩ := grant.mapped 0 (by decide)
  rw [pageAt_zero] at own leaf
  have there := present_cowFlags 0x4000 (mmapFlags prot)
  obtain ⟨thereNow, entry, _⟩ := leafOf_some (leaf.trans (if_pos there))
  have cr3 : mapped.cr3 = 0x2000 := grant.evolves.cr3
  have copies : Copies 0x7 (entryAt mapped.mem mapped.cr3 0x400000) := by
    rw [cr3, ← entry]
    exact ⟨by decide, cow_of_cowFlags _ _, by decide, there, by decide⟩
  have ready : CowReady mapped 0x400000 (entryAt mapped.mem mapped.cr3 0x400000 &&& flagMask) := by
    refine ⟨cr3 ▸ thereNow, own, ?_, ?_, ?_, ?_⟩
    · intro high
      exact absurd high (by decide)
    · have young : (youngWorld 0 1).pmm.supply = 64 := rfl
      omega
    · right
      obtain ⟨_, regions, added⟩ := grant.added
      rw [grant.evolves.current]
      apply addRegion_covers _ (by decide) added (by decide) (by decide)
      rw [regions]
      rintro _ (_ | ⟨_, ⟨⟩⟩)
      show (0x600000 : Word).toNat + 4096 * (1 : Word).toNat < 2 ^ 64
      decide
    · exact youngWorld_still_scratch grant.evolves states
  have walkable : Walkable mapped.mem mapped.cr3 (pageAlign 0x400000) := by
    rw [page]
    exact walkable_of_own sane.tables sane.tables.current own
  have ends := write_fault_ends sane.tables walkable rfl (page.symm ▸ copies)
  rw [page] at ends
  obtain ⟨_, after, served, rfl, _⟩ := ends_exists (ends_mono ends (fun _ _ done => done)
    (fun _ notReady => notReady ready))
  exact ⟨mapped, after, succeeded, sane, page.symm ▸ own, page.symm ▸ copies, served⟩

end Young

/-- A page that may be written to. -/
theorem mmap_rights_kept_writable : ∃ mapped after,
    (mmapAnon 0 0x1000 protWrite mapAnonymous).run (youngWorld 0 1) = .ok (some 0x400000, mapped) ∧
    (handlePageFault 0x400000 0x7).run mapped = .ok (true, after) ∧
    Pages (NxOk protWrite) 0x400000 (mmapPages 0x1000).toNat after ∧
    Pages (WriteOk protWrite) 0x400000 (mmapPages 0x1000).toNat after := by
  obtain ⟨mapped, after, succeeded, _, _, _, served⟩ := youngWorld_mmap protWrite
  have step : FaultStep 0x400000 (mmapPages 0x1000).toNat mapped (0x400000, 0x7) after :=
    ⟨⟨0, by decide, by decide⟩, true, served⟩
  have run := Run.next step (Run.refl after)
  obtain ⟨executable, writable⟩ := mmap_rights_kept_iff youngWorld_sane succeeded run
  have last := run_last_visited run
  refine ⟨mapped, after, succeeded, served, executable after last, writable.mpr ?_ after last⟩
  intro _ _
  exact .inl (by decide)

/-- A page that was mapped for reading only becomes writable. -/
theorem mmap_read_only_page_written : ∃ mapped after,
    (mmapAnon 0 0x1000 0 mapAnonymous).run (youngWorld 0 1) = .ok (some 0x400000, mapped) ∧
    FaultStep 0x400000 (mmapPages 0x1000).toNat mapped (0x400000, 0x7) after ∧
    ¬ Pages (WriteOk 0) 0x400000 (mmapPages 0x1000).toNat after := by
  obtain ⟨mapped, after, succeeded, sane, own, copies, served⟩ := youngWorld_mmap 0
  refine ⟨mapped, after, succeeded, ⟨⟨0, by decide, by decide⟩, true, served⟩, ?_⟩
  intro pages
  have faulted := ends_of_ok (fault_ends sane own rfl) served
  have first : 0 < (mmapPages 0x1000).toNat := by decide
  have isPage : pageAlign 0x400000 = pageAt 0x400000 0 := by decide
  rcases fault_grants_write sane first isPage pages faulted with asked | notCopied
  · exact asked (by decide)
  · exact notCopied copies

end Nx.MmapRights
