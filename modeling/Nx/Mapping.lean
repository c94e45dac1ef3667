import Nx.PageTables

/-!
Spans of pages of the current process: the loops of `mapAddress`,
`mapAddressOverwrite`, `mapZeroedCOW` and `unmapAddress`, and what
`getPhysAddr`, `getPageFlags` and `isMapped` read, against the hardware's walk.
-/

namespace Nx.Mapping

open Words Radix Paging Physical Vmregion Machine Virtmap Outcomes PageTables

def pageAt (virt : Word) (count : Nat) : Word := virt + ofsPages (BitVec.ofNat 64 count)

structure Span (virt : Word) (num : Nat) : Prop where
  aligned : virt.toNat % 4096 = 0
  canonical : ∀ i < num, Canonical (pageAt virt i)
  own : ∀ i < num, paging.own (indexPML4 (pageAt virt i))

theorem pageAt_toNat (virt : Word) (small : 4096 * count < 2 ^ 64) :
    (pageAt virt count).toNat = (virt.toNat + 4096 * count) % 2 ^ 64 := by
  have exact : (BitVec.ofNat 64 count).toNat = count := by
    rw [BitVec.toNat_ofNat]
    exact Nat.mod_eq_of_lt (by omega)
  rw [pageAt, ofsPages, BitVec.toNat_add, mul_pageSize_toNat _ (by omega), exact]

variable {virt root phys flags entry frame : Word} {num i : Nat}

theorem pageAt_aligned (aligned : virt.toNat % 4096 = 0) (small : 4096 * count < 2 ^ 64) :
    (pageAt virt count).toNat % 4096 = 0 := by
  rw [pageAt_toNat virt small]
  omega

theorem pageAt_zero (virt : Word) : pageAt virt 0 = virt := by
  simp [pageAt, ofsPages]

theorem Span.apart (span : Span virt num) (short : 4096 * num ≤ 2 ^ 52) (first : i < num)
    (second : j < num)
    (path : tablePath (pageAt virt i) = tablePath (pageAt virt j))
    (last : indexPageTable (pageAt virt i) = indexPageTable (pageAt virt j)) : i = j := by
  have same := page_unique (pageAt_aligned span.aligned (by omega))
    (pageAt_aligned span.aligned (by omega)) (span.canonical i first) (span.canonical j second)
    path last
  have numbers := congrArg BitVec.toNat same
  rw [pageAt_toNat virt (by omega), pageAt_toNat virt (by omega)] at numbers
  omega

def leavesOf (root virt : Word) (count : Nat) : Leaves := fun other path index =>
  ∃ i < count, leafOfPage root (pageAt virt i) other path index

theorem forPages_ends (inv : Nat → World → Prop) (start : inv 0 world) (step : ∀ i < num, ∀ middle,
    inv i middle →
    Ends (body (BitVec.ofNat 64 i)) middle (fun _ after => inv (i + 1) after) failed) :
      Ends (forPages body num) world
    (fun _ after => inv num after) failed := by
  induction num with
  | zero => exact ends_pure _ start
  | succ num ih =>
    apply ends_seq (ih fun i _ => step i (by omega))
    intro _ middle holds
    exact step num (Nat.lt_succ_self num) middle holds

theorem forPages_one (body : Word → Kernel PUnit) : forPages body (1 : Word).toNat = body 0 :=
  pure_bind _ _

theorem Span.untouched (span : Span virt num) (short : 4096 * num ≤ 2 ^ 52) (isRoot : root ∈ roots)
    (below : i < num) (rewrites : Rewrites roots (leavesOf root virt i) cost world middle) :
    entryAt middle.mem root (pageAt virt i) = entryAt world.mem root (pageAt virt i) := by
  apply rewrites.entries root isRoot _ (inside_of_own (span.own i below) _) rfl
  rintro ⟨j, earlier, samePath, sameIndex, _⟩
  have := span.apart short below (earlier.trans below) samePath sameIndex
  omega

theorem forPages_rewrites (cost : Nat) (good : Nat → Word → Prop) (tables : Tables roots world)
    (isRoot : root ∈ roots) (span : Span virt num) (short : 4096 * num ≤ 2 ^ 52)
    (each : ∀ i < num, ∀ middle, Rewrites roots (leavesOf root virt i) (cost * i) world middle →
      Ends (body (BitVec.ofNat 64 i)) middle
        (fun _ after => Rewrites roots (leafOfPage root (pageAt virt i)) cost middle after ∧
          good i (entryAt after.mem root (pageAt virt i))) failed) :
    Ends (forPages body num) world (fun _ after => Rewrites roots (leavesOf root virt num)
      (cost * num) world after ∧
        ∀ i < num, good i (entryAt after.mem root (pageAt virt i))) failed := by
  apply forPages_ends (fun count after =>
    Rewrites roots (leavesOf root virt count) (cost * count) world after ∧
      ∀ i < count, good i (entryAt after.mem root (pageAt virt i)))
  · exact ⟨(Rewrites.refl tables).cheaper (by simp) (fun _ _ _ none => none.elim), by simp⟩
  intro i below middle ⟨soFar, goodSoFar⟩
  apply ends_imp (each i below middle soFar)
  rintro _ after ⟨turn, goodNow⟩
  constructor
  · rw [Nat.mul_succ]
    apply soFar.trans turn
    rintro _ _ _ (⟨j, _, leaf⟩ | leaf)
    · exact ⟨j, by omega, leaf⟩
    · exact ⟨i, by omega, leaf⟩
  · intro j _
    by_cases now : j = i
    · rw [now]
      exact goodNow
    · have kept : entryAt after.mem root (pageAt virt j) = entryAt middle.mem root
          (pageAt virt j) := by
        apply turn.entries root isRoot _ (inside_of_own (span.own j (by omega)) _) rfl
        rintro ⟨samePath, sameIndex, _⟩
        exact now (span.apart short (by omega) below samePath sameIndex)
      rw [kept]
      exact goodSoFar j (by omega)

section Current

variable {roots : Set Word} {world : World} {proc : Option Nat}

theorem not_own_510 : ¬ paging.own 510 := by simp [paging]

theorem withTables_current {body : Index → Kernel α} {done : α → World → Prop}
    {failed : Abort → Prop}
    (self : proc.getD world.current = world.current) (rest : Ends (body 510) world done failed) :
    Ends (withTables (proc.getD world.current) body) world done failed := by
  apply ends_get
  rw [self, if_neg (by simp)]
  exact rest

theorem mapInternal_ends (tables : Tables roots world)
    (self : proc.getD world.current = world.current)
    (virtAligned : virt.toNat % 4096 = 0) (physAligned : phys.toNat % 4096 = 0) (flags : Word)
      (overwrite : Bool) :
    Ends (mapInternal virt phys flags proc overwrite) world (fun _ after =>
    Rewrites roots (leafOfPage world.cr3 virt) 3 world after ∧ paging.own (indexPML4 virt) ∧
    (255 < indexPML4 virt → flags &&& pageUser = 0) ∧
    (overwrite = false → present (entryAt world.mem world.cr3 virt) = false) ∧
    entryAt after.mem world.cr3 virt = phys ||| flags)
      (fun _ => MapRefused world world.cr3 virt flags overwrite) := by
  apply ends_get
  apply assertThat_then ((isPageAligned_iff virt).mpr virtAligned)
  apply assertThat_then ((isPageAligned_iff phys).mpr physAligned)
  apply withTables_current self
  exact mapThrough_ends tables tables.current not_own_510 tables.window virt phys flags _ overwrite

theorem mapAddressOverwrite_one (virt phys flags : Word) :
    mapAddressOverwrite virt phys 1 flags proc = mapInternal virt phys (flags ||| pagePresent) proc
      true := by
  rw [mapAddressOverwrite, forPages_one]
  simp [ofsPages]

theorem mapAddress_one (virt phys flags : Word) :
    mapAddress virt phys 1 flags proc = mapInternal virt phys (flags ||| pagePresent) proc
      false := by
  rw [mapAddress, forPages_one]
  simp [ofsPages]

section

variable (tables : Tables roots world)
include tables

section

variable (self : proc.getD world.current = world.current)
include self

theorem unmapAddress_one_ends (aligned : virt.toNat % 4096 = 0) (own : paging.own (indexPML4 virt))
    (ignore : Bool) :
    Ends (unmapAddress virt 1 ignore proc) world (fun _ after =>
    Rewrites roots (leafOfPage world.cr3 virt) 0 world after ∧
      present (entryAt after.mem world.cr3 virt) = false)
    (fun _ => present (entryAt world.mem world.cr3 virt) = false) := by
  apply ends_get
  apply withTables_current self
  apply assertThat_then ((isPageAligned_iff virt).mpr aligned)
  rw [forPages_one, show virt + ofsPages 0 = virt by simp [ofsPages]]
  exact unmapThrough_ends tables tables.current tables.window virt own ignore

theorem leaf_ends (walkable : Walkable world.mem world.cr3 virt) (failed : Abort → Prop) :
    Ends (withTables (proc.getD world.current) fun slot => leafThrough slot virt) world
      (fun found after =>
    Leaf world world.cr3 virt found ∧ after = world) failed :=
  withTables_current self (leafThrough_ends tables.isFrame tables.window walkable failed)

theorem getPageFlags_ends (aligned : virt.toNat % 4096 = 0)
    (walkable : Walkable world.mem world.cr3 virt)
    (failed : Abort → Prop) : Ends (getPageFlags virt proc) world (fun value after =>
    value = entryAt world.mem world.cr3 virt &&& flagMask ∧ after = world) failed := by
  apply ends_get
  apply assertThat_then ((isPageAligned_iff virt).mpr aligned)
  apply ends_read (leaf_ends tables self walkable failed)
  intro found leaf
  cases leaf with
  | missing _ zero =>
    apply ends_pure
    rw [zero]
    exact ⟨rfl, rfl⟩
  | found down =>
    apply ends_pure
    rw [entryAt_of_descend down]
    exact ⟨rfl, rfl⟩

theorem getPhysAddr_ends (aligned : virt.toNat % 4096 = 0) (own : paging.own (indexPML4 virt)) :
    Ends (getPhysAddr virt proc) world (fun value after =>
    (present (entryAt world.mem world.cr3 virt) = true ∧
      value = pageAlign (entryAt world.mem world.cr3 virt)) ∧
    after = world) (fun _ => present (entryAt world.mem world.cr3 virt) = false) := by
  apply ends_get
  apply withTables_current self
  apply assertThat_then ((isPageAligned_iff virt).mpr aligned)
  apply ends_read (leafThrough_ends tables.isFrame tables.window
    (walkable_of_own tables tables.current own) _)
  intro found leaf
  cases leaf with
  | missing _ zero =>
    apply ends_throw
    rw [zero]
    rfl
  | found down =>
    have entry := entryAt_of_descend down
    dsimp only
    split
    · rename_i there
      apply ends_pure
      rw [entry]
      exact ⟨⟨there, rfl⟩, rfl⟩
    · rename_i missing
      apply ends_throw
      rw [entry]
      simpa using missing

end

theorem allPresent_ends (own : ∀ i < num, paging.own (indexPML4 (pageAt virt i)))
    (failed : Abort → Prop) :
    Ends (allPresent 510 virt num) world (fun value after => (value = true ↔
        ∀ i < num, present (entryAt world.mem world.cr3 (pageAt virt i)) = true) ∧ after = world)
          failed := by
  induction num with
  | zero => exact ends_pure _ ⟨by simp, rfl⟩
  | succ num ih =>
    apply ends_read (ih fun i below => own i (by omega))
    intro soFar exactly
    cases soFar with
    | false =>
      have rest : ¬ ∀ i < num + 1, present (entryAt world.mem world.cr3 (pageAt virt i)) =
          true := by
        intro all
        cases exactly.mpr fun i below => all i (by omega)
      exact ends_pure false ⟨⟨fun no => (by cases no), fun all => (rest all).elim⟩, rfl⟩
    | true =>
      have allSoFar := exactly.mp rfl
      have upTo : ∀ {value : Bool}, value = present
          (entryAt world.mem world.cr3 (pageAt virt num)) →
          (value = true ↔ ∀ i < num + 1, present (entryAt world.mem world.cr3 (pageAt virt i)) =
            true) := by
        rintro _ rfl
        constructor
        · intro last i below
          rcases Nat.lt_succ_iff_lt_or_eq.mp below with earlier | rfl
          · exact allSoFar i earlier
          · exact last
        · exact fun all => all num (Nat.lt_succ_self num)
      apply ends_read (leafThrough_ends tables.isFrame tables.window
        (walkable_of_own tables tables.current (own num (Nat.lt_succ_self num))) failed)
      intro found leaf
      cases leaf with
      | missing _ zero =>
        apply ends_pure
        refine ⟨upTo ?_, rfl⟩
        rw [show entryAt world.mem world.cr3 (pageAt virt num) = 0 from zero]
        rfl
      | found down =>
        apply ends_pure
        refine ⟨upTo ?_, rfl⟩
        exact congrArg present (entryAt_of_descend down).symm

section

variable (self : proc.getD world.current = world.current)
include self

theorem isMapped_ends {num} (span : Span virt num.toNat) (failed : Abort → Prop) :
    Ends (isMapped virt num proc) world
    (fun value after => (value = true ↔ ∀ i < num.toNat,
      present (entryAt world.mem world.cr3 (pageAt virt i)) = true) ∧
    after = world) failed := by
  apply ends_get
  apply withTables_current self
  apply assertThat_then ((isPageAligned_iff virt).mpr span.aligned)
  exact allPresent_ends tables span.own failed

theorem mapTurn_ends (span : Span virt num) (short : 4096 * num ≤ 2 ^ 52) (below : i < num)
    (absent : present (entryAt world.mem world.cr3 (pageAt virt i)) = false)
      (user : 255 < indexPML4 (pageAt virt i) →
    flags &&& pageUser = 0) (physAligned : phys.toNat % 4096 = 0)
    (soFar : Rewrites roots (leavesOf world.cr3 virt i) (3 * i) world middle) :
    Ends (mapInternal (pageAt virt i) phys flags proc false) middle (fun _ after =>
    Rewrites roots (leafOfPage world.cr3 (pageAt virt i)) 3 middle after ∧
    entryAt after.mem world.cr3 (pageAt virt i) = phys ||| flags)
      (fun _ => world.pmm.supply < 3 * num) := by
  have selfNow : proc.getD middle.current = middle.current := by
    rw [soFar.undisturbed.current]
    exact self
  have entry := span.untouched short tables.current below soFar
  have virtAligned := pageAt_aligned span.aligned (show 4096 * i < 2 ^ 64 by omega)
  have mapped := mapInternal_ends soFar.tables selfNow virtAligned physAligned flags false
  rw [soFar.undisturbed.cr3] at mapped
  apply ends_mono mapped
  · rintro _ _ ⟨turn, _, _, _, value⟩
    exact ⟨turn, value⟩
  · intro _ refused
    cases refused with
    | reserved slot => exact absurd (span.own i below) slot
    | highUser high userFlag => exact absurd (user high) userFlag
    | mapped _ there =>
      rw [entry, absent] at there
      cases there
    | exhausted =>
      have spent := soFar.supply
      omega

theorem mapAddress_ends {num} (span : Span virt num.toNat) (physAligned : phys.toNat % 4096 = 0)
    (short : 4096 * num.toNat ≤ 2 ^ 52)
    (absent : ∀ i < num.toNat, present (entryAt world.mem world.cr3 (pageAt virt i)) = false)
    (user : ∀ i < num.toNat, 255 < indexPML4 (pageAt virt i) → flags &&& pageUser = 0) :
    Ends (mapAddress virt phys num flags proc) world (fun _ after =>
    Rewrites roots (leavesOf world.cr3 virt num.toNat) (3 * num.toNat) world after ∧
    ∀ i < num.toNat, entryAt after.mem world.cr3 (pageAt virt i) = pageAt phys i |||
      (flags ||| pagePresent)) (fun _ =>
    world.pmm.supply < 3 * num.toNat) := by
  apply forPages_rewrites 3 (fun i entry => entry = pageAt phys i ||| (flags ||| pagePresent))
    tables tables.current span short
  intro i below _ soFar
  refine mapTurn_ends tables self span short below (absent i below) (fun high => ?_)
    (pageAt_aligned physAligned (show 4096 * i < 2 ^ 64 by omega)) soFar
  rw [BitVec.and_or_distrib_right, user i below high]
  rfl

theorem mapZeroPages_ends (span : Span virt num) (short : 4096 * num ≤ 2 ^ 52)
    (absent : ∀ i < num, present (entryAt world.mem world.cr3 (pageAt virt i)) = false)
    (user : ∀ i < num, 255 < indexPML4 (pageAt virt i) → flags &&& pageUser = 0) :
      Ends (forPages (fun i => do
        let world ← get
        mapInternal (virt + ofsPages i) world.pmm.zeroPageAddr flags proc false) num) world
      (fun _ after => Rewrites roots (leavesOf world.cr3 virt num) (3 * num) world after ∧
        ∀ i < num, entryAt after.mem world.cr3 (pageAt virt i) = world.pmm.zeroPageAddr ||| flags)
      (fun _ => world.pmm.supply < 3 * num) := by
  apply forPages_rewrites 3 (fun _ entry => entry = world.pmm.zeroPageAddr ||| flags) tables
    tables.current span short
  intro i below _ soFar
  apply ends_get
  rw [soFar.undisturbed.zeroPage]
  have zeroPage := (isFrame_iff _).mp tables.pmm.zeroPage
  exact mapTurn_ends tables self span short below (absent i below) (user i below) zeroPage.1 soFar

theorem unmapAddress_ends {num} (span : Span virt num.toNat) (short : 4096 * num.toNat ≤ 2 ^ 52)
    (there : ∀ i < num.toNat, present (entryAt world.mem world.cr3 (pageAt virt i)) = true) :
    Ends (unmapAddress virt num false proc) world (fun _ after =>
    Rewrites roots (leavesOf world.cr3 virt num.toNat) 0 world after ∧
    ∀ i < num.toNat, present (entryAt after.mem world.cr3 (pageAt virt i)) = false)
      (fun _ => False) := by
  apply ends_get
  apply withTables_current self
  apply assertThat_then ((isPageAligned_iff virt).mpr span.aligned)
  rw [← Nat.zero_mul num.toNat]
  apply forPages_rewrites 0 (fun _ entry => present entry = false) tables tables.current span short
  intro i below _ soFar
  have entry := span.untouched short tables.current below soFar
  have window := soFar.window tables.current not_own_510 tables.current tables.window
  apply ends_mono (unmapThrough_ends soFar.tables tables.current window virt
    (span.own i below) false)
  · exact fun _ _ done => done
  · intro _ missing
    have still := there i below
    rw [← entry] at still
    exact absurd still (by rw [missing]; decide)

end

end

end Current

/-! The tables are a partial map. -/

structure OwnPage (page : Word) : Prop where
  aligned : page.toNat % 4096 = 0
  canonical : Canonical page
  own : paging.own (indexPML4 page)

theorem Span.page (span : Span virt num) (short : 4096 * num ≤ 2 ^ 52) (below : i < num) :
    OwnPage (pageAt virt i) where
  aligned := pageAt_aligned span.aligned (by omega)
  canonical := span.canonical i below
  own := span.own i below

variable {page : Word}

theorem walk_entry (tables : Tables roots world) (own : paging.own (indexPML4 page)) :
    walk world.mem world.cr3 page = leafOf (entryAt world.mem world.cr3 page) :=
  walk_eq_leafOf tables.forest tables.current tables.isFrame own

theorem leafOf_eq_none : leafOf entry = none ↔ present entry = false := by
  simp [leafOf]

theorem walk_eq_none (tables : Tables roots world) (own : paging.own (indexPML4 page)) :
    walk world.mem world.cr3 page = none ↔ present (entryAt world.mem world.cr3 page) = false := by
  rw [walk_entry tables own, leafOf_eq_none]

theorem walk_outside (tables : Tables roots before) (span : Span virt num)
    (short : 4096 * num ≤ 2 ^ 52)
    (rewrites : Rewrites roots (leavesOf before.cr3 virt num) cost before after)
      (own : OwnPage page)
    (outside : ∀ i < num, page ≠ pageAt virt i) : walk after.mem after.cr3 page =
      walk before.mem before.cr3 page := by
  rw [walk_entry rewrites.tables own.own, walk_entry tables own.own, rewrites.undisturbed.cr3]
  congr 1
  apply rewrites.entries _ tables.current _ (inside_of_own own.own _) rfl
  rintro ⟨i, below, samePath, sameIndex, _⟩
  have other := span.page short below
  exact outside i below (page_unique own.aligned other.aligned own.canonical other.canonical
    samePath sameIndex)

/-- Bits 52 to 62 of the entry are clear, so that `PAGE_ALIGN` finds the frame. -/
def Plain (entry : Word) : Prop := entry &&& 0x7FF0000000000000 = 0

theorem pageAlign_plain (plain : Plain entry) : pageAlign entry = entryFrame entry := by
  have bit : entry &&& 0x4000000000000000 = 0 := by
    have part : (0x4000000000000000 : Word) = 0x7FF0000000000000 &&& 0x4000000000000000 := by decide
    rw [part, ← BitVec.and_assoc, plain]
    exact BitVec.zero_and
  have parts : (0x7FFFFFFFFFFFF000 : Word) = 0x7FF0000000000000 ||| 0x000FFFFFFFFFF000 := by decide
  rw [pageAlign, if_neg (by simpa using bit), parts, BitVec.and_or_distrib_left, plain, entryFrame]
  exact BitVec.zero_or

/-- What the kernel reads from the tables of the current process is what the
hardware finds there. -/
structure ReadersAgree (world : World) : Prop where
  flags : ∀ page, OwnPage page → ∃ value, (getPageFlags page none).run world = .ok (value, world) ∧
    present value = (walk world.mem world.cr3 page).isSome ∧
    ∀ frame entry, walk world.mem world.cr3 page = some (frame, entry) → value = entry &&& flagMask
  phys : ∀ page, OwnPage page → ∀ frame entry, walk world.mem world.cr3 page = some (frame, entry) →
    Plain entry → (getPhysAddr page none).run world = .ok (frame, world)
  unmapped : ∀ page, OwnPage page → walk world.mem world.cr3 page = none →
    ∃ abort, (getPhysAddr page none).run world = .error abort
  mapped : ∀ page num, Span page num.toNat → ∃ value, (isMapped page num none).run world =
    .ok (value, world) ∧
    (value = true ↔ ∀ i < num.toNat, (walk world.mem world.cr3 (pageAt page i)).isSome = true)

theorem leafOf_some (leaf : leafOf entry = some (frame, found)) :
    present entry = true ∧ found = entry ∧ frame = entryFrame entry := by
  unfold leafOf at leaf
  split at leaf
  · rename_i there
    cases leaf
    exact ⟨there, rfl, rfl⟩
  · cases leaf

theorem leafOf_isSome (entry : Word) : (leafOf entry).isSome = present entry := by
  cases there : present entry <;> simp [leafOf, there]

theorem self_none (world : World) : (none : Option Nat).getD world.current = world.current := rfl

theorem readersAgree (tables : Tables roots world) : ReadersAgree world where
  flags := by
    intro page own
    obtain ⟨value, after, ran, read, rfl⟩ :=
      ends_exists (getPageFlags_ends tables (self_none world) own.aligned
        (walkable_of_own tables tables.current own.own) fun _ => False)
    refine ⟨value, ran, ?_, ?_⟩
    · rw [walk_entry tables own.own, leafOf_isSome, read]
      exact present_masked _
    · intro frame entry walked
      rw [walk_entry tables own.own] at walked
      rw [read, (leafOf_some walked).2.1]
  phys := by
    intro page own _ _ walked plain
    rw [walk_entry tables own.own] at walked
    obtain ⟨there, rfl, rfl⟩ := leafOf_some walked
    have ends : Ends (getPhysAddr page none) world _ (fun _ => False) :=
      ends_mono (getPhysAddr_ends tables (self_none world) own.aligned own.own)
        (fun _ _ done => done) (by simp [there])
    obtain ⟨value, after, ran, ⟨_, read⟩, rfl⟩ := ends_exists ends
    rw [ran, read, pageAlign_plain plain]
  unmapped := by
    intro page own walked
    have absent := (walk_eq_none tables own.own).mp walked
    cases getPhysAddr_ends tables (self_none world) own.aligned own.own with
    | normal _ holds => exact absurd holds.1.1 (by simp [absent])
    | aborted ran => exact ⟨_, ran⟩
  mapped := by
    intro _ _ span
    obtain ⟨value, _, ran, read, rfl⟩ :=
      ends_exists (isMapped_ends tables (self_none world) span fun _ => False)
    refine ⟨value, ran, read.trans ?_⟩
    constructor
    · intro all i below
      rw [walk_entry tables (span.own i below), leafOf_isSome]
      exact all i below
    · intro all i below
      rw [← leafOf_isSome, ← walk_entry tables (span.own i below)]
      exact all i below

structure Maps (virt phys num flags : Word) (before after : World) : Prop where
  inside : ∀ i < num.toNat, walk after.mem after.cr3 (pageAt virt i) =
    some (pageAt phys i, pageAt phys i ||| (flags ||| pagePresent))
  outside : ∀ page, OwnPage page → (∀ i < num.toNat, page ≠ pageAt virt i) →
    walk after.mem after.cr3 page = walk before.mem before.cr3 page
  agree : ReadersAgree after
  undone : ∃ final, (unmapAddress virt num false none).run after = .ok (⟨⟩, final) ∧
    ∀ page, OwnPage page → walk final.mem final.cr3 page = walk before.mem before.cr3 page

theorem maps_of_rewrites {num} (tables : Tables roots before) (span : Span virt num.toNat)
    (physAligned : phys.toNat % 4096 = 0) (fits : phys.toNat + 4096 * num.toNat ≤ 2 ^ 52)
    (within : flags &&& flagMask = flags)
    (absent : ∀ i < num.toNat, present (entryAt before.mem before.cr3 (pageAt virt i)) = false)
    (rewrites : Rewrites roots (leavesOf before.cr3 virt num.toNat) (3 * num.toNat) before after)
    (entries : ∀ i < num.toNat, entryAt after.mem before.cr3 (pageAt virt i) =
      pageAt phys i ||| (flags ||| pagePresent)) : Maps virt phys num flags before after := by
  have short : 4096 * num.toNat ≤ 2 ^ 52 := by omega
  have cr3 := rewrites.undisturbed.cr3
  have leafWithin : (flags ||| pagePresent) &&& flagMask = flags ||| pagePresent := by
    rw [BitVec.and_or_distrib_right, within]
    rfl
  have isFrame : ∀ i < num.toNat, IsFrame (pageAt phys i) := by
    intro i below
    rw [isFrame_iff, pageAt_toNat phys (by omega)]
    omega
  have there : ∀ i < num.toNat, present (entryAt after.mem after.cr3 (pageAt virt i)) = true := by
    intro i below
    rw [cr3, entries i below, present_or (isFrame i below)]
    exact present_marked flags
  constructor
  · intro i below
    rw [walk_entry rewrites.tables (span.own i below), leafOf, if_pos (there i below), cr3,
      entries i below, entryFrame_or (isFrame i below) leafWithin]
  · intro page own other
    exact walk_outside tables span short rewrites own other
  · exact readersAgree rewrites.tables
  · obtain ⟨_, final, ran, back, gone⟩ := ends_exists
      (unmapAddress_ends rewrites.tables (self_none after) span short there)
    refine ⟨final, ran, ?_⟩
    intro page own
    by_cases inSpan : ∃ i < num.toNat, page = pageAt virt i
    · obtain ⟨i, below, rfl⟩ := inSpan
      rw [(walk_eq_none tables own.own).mpr (absent i below), walk_eq_none back.tables own.own,
        back.undisturbed.cr3]
      exact gone i below
    · have other : ∀ i < num.toNat, page ≠ pageAt virt i :=
        fun i below same => inSpan ⟨i, below, same⟩
      rw [walk_outside rewrites.tables span short back own other,
        walk_outside tables span short rewrites own other]

/-- `mapAddress` on the current process, with up to three new tables a page. -/
theorem mapAddress_implements_map {roots : Set Word} {world : World} {virt phys num flags : Word}
    (tables : Tables roots world) (span : Span virt num.toNat)
    (physAligned : phys.toNat % 4096 = 0) (fits : phys.toNat + 4096 * num.toNat ≤ 2 ^ 52)
    (within : flags &&& flagMask = flags)
    (user : ∀ i < num.toNat, 255 < indexPML4 (pageAt virt i) → flags &&& pageUser = 0)
    (absent : ∀ i < num.toNat, walk world.mem world.cr3 (pageAt virt i) = none) :
    (3 * num.toNat ≤ world.pmm.supply → ∃ after, (mapAddress virt phys num flags none).run world =
      .ok (⟨⟩, after)) ∧
    ∀ after, (mapAddress virt phys num flags none).run world = .ok (⟨⟩, after) →
      Maps virt phys num flags world after := by
  have free : ∀ i < num.toNat, present (entryAt world.mem world.cr3 (pageAt virt i)) = false :=
    fun i below => (walk_eq_none tables (span.own i below)).mp (absent i below)
  have ends := mapAddress_ends tables (self_none world) span physAligned (by omega) free user
  constructor
  · intro _
    have returns : Ends (mapAddress virt phys num flags none) world _ (fun _ => False) :=
      ends_mono ends (fun _ _ done => done) (by intro _ _; omega)
    obtain ⟨_, after, ran, _⟩ := ends_exists returns
    exact ⟨after, ran⟩
  · intro _ ran
    have ⟨rewrites, entries⟩ := ends_of_ok ends ran
    exact maps_of_rewrites tables span physAligned fits within free rewrites entries

/-! The kernel process 0 and a process 1 that have nothing mapped yet. -/

/-- Two roots and the table that they share; the free frames are full of
`stale` words. -/
def youngMem (stale : Word) : Memory := fun frame index =>
  if frame = 0x1000 ∧ index = 510 then 0x1003
  else if frame = 0x2000 ∧ index = 510 then 0x2003
  else if (frame = 0x1000 ∨ frame = 0x2000) ∧ index = 511 then 0x3003
  else if 0x100000 ≤ frame then stale
  else 0

def youngPmm : Pmm :=
  ⟨{ Extmm.State.init "pmm" 0 0 with head := [⟨0x100000, 64⟩] }, 0, 0x4000⟩

def youngSpace (root : Word) : AddressSpace where
  theCR3 := root
  regions := [⟨0x600000, 1, fun _ => none⟩]
  sharedRegions := []
  vmmStates := fun
    | .kernel => { Extmm.State.init "vmm/user" 0 0 with head := [⟨0xFFFFFFFF80000000, 16⟩] }
    | .kernelHeap => { Extmm.State.init "vmm/heap" 0 0 with head := [⟨0xFFFFFF8000000000, 16⟩] }
    | .user => { Extmm.State.init "vmm/kernel" 0 0 with head := [⟨0x400000, 16⟩] }
  allocatedPhysPages := []

def youngWorld (stale : Word) (current : Nat) : World where
  mem := youngMem stale
  pmm := youngPmm
  store := fun _ _ => none
  procs := fun proc => youngSpace (if proc = 0 then 0x1000 else 0x2000)
  current := current
  initPhase := .schedulerStarted
  held := none

def youngRoots : Set Word := {0x1000, 0x2000}

theorem youngMem_bare : ∀ root ∈ youngRoots, ∀ index, paging.own index →
    index ≠ paging.shared → ¬ paging.live (youngMem stale root index) := by
  intro _ isRoot index own notShared
  have away : ¬ index = 510#9 := own.2
  have other : ¬ index = 511#9 := notShared
  rcases isRoot with rfl | rfl <;> simp [youngMem, away, other, paging, present]

theorem youngMem_joint : ∀ root ∈ youngRoots, paging.link (youngMem stale root paging.shared) =
    some 0x3000 := by
  rintro _ (rfl | rfl)
  · exact congrArg link (show youngMem stale 0x1000 511 = 0x3003 by simp [youngMem])
  · exact congrArg link (show youngMem stale 0x2000 511 = 0x3003 by simp [youngMem])

theorem youngMem_empty (index : Index) : ¬ paging.live (youngMem stale 0x3000 index) := by
  simp [youngMem, paging, present]

theorem youngMem_stale (above : 256 ≤ frame.toNat / 4096) :
    youngMem stale frame = fun _ => stale := by
  have far : (0x100000 : Word) ≤ frame := by
    have base : (0x100000 : Word).toNat = 0x100000 := rfl
    rw [BitVec.le_def]
    omega
  have apart : frame ≠ 0x1000 ∧ frame ≠ 0x2000 := by
    constructor
    · rintro rfl
      exact absurd above (by decide)
    · rintro rfl
      exact absurd above (by decide)
  funext index
  simp only [youngMem, apart, far, false_and, or_self, ↓reduceIte]

theorem youngWorld_root (proc : Nat) :
    ((youngWorld stale current).procs proc).theCR3 ∈ youngRoots := by
  by_cases kernel : proc = 0
  · exact .inl (if_pos kernel)
  · exact .inr (if_neg kernel)

theorem youngPmm_free (frame : Word) : youngPmm.Free frame ↔
    frame.toNat % 4096 = 0 ∧ 256 ≤ frame.toNat / 4096 ∧ frame.toNat / 4096 < 256 + 64 := by
  have single : youngPmm.extmmState.head = [⟨0x100000, 64⟩] := rfl
  exact free_single single frame

theorem youngPmm_sound : youngPmm.Sound := by
  apply sound_of_single rfl ⟨by decide, by decide, by decide⟩ (by decide)
  · exact (isFrame_iff _).mpr (by decide)
  · rw [youngPmm_free]
    decide

theorem youngMem_reached (reached : paging.Reached (youngMem stale) youngRoots frame) :
    frame = 0x1000 ∨ frame = 0x2000 ∨ frame = 0x3000 := by
  obtain ⟨_, isRoot, _, inside, _, down⟩ := reached
  rcases descend_young youngMem_bare youngMem_joint youngMem_empty isRoot inside down with
    ⟨_, rfl⟩ | ⟨_, rfl⟩
  · exact isRoot.imp_right .inl
  · exact .inr (.inr rfl)

theorem youngWorld_tables (stale : Word) (current : Nat) :
    Tables youngRoots (youngWorld stale current) := by
  constructor
  · apply Shape.Forest.young youngMem_bare youngMem_joint youngMem_empty
    simp [youngRoots]
  · rintro root (rfl | rfl)
    · exact (isFrame_iff _).mpr (by decide)
    · exact (isFrame_iff _).mpr (by decide)
  · rintro _ (rfl | rfl)
    · exact congrArg link (show youngMem stale 0x1000 510 = 0x1003 by simp [youngMem])
    · exact congrArg link (show youngMem stale 0x2000 510 = 0x2003 by simp [youngMem])
  · exact youngWorld_root current
  · exact youngPmm_sound
  · intro frame free reached
    have isFree := (youngPmm_free frame).mp free
    rcases youngMem_reached reached with rfl | rfl | rfl <;> exact absurd isFree (by decide)

theorem youngWorld_unmapped (isRoot : root ∈ youngRoots)
    (own : paging.own (indexPML4 page)) : entryAt (youngWorld stale current).mem root page = 0 := by
  cases down : paging.descend (youngMem stale) root (tablePath page) with
  | none =>
    simp only [entryAt, youngWorld, Shape.lookup, down]
    rfl
  | some =>
    -- a path of three indices is longer than any in this forest
    rcases descend_young youngMem_bare youngMem_joint youngMem_empty isRoot
      (inside_of_own own _) down with ⟨path, _⟩ | ⟨path, _⟩ <;>
    exact absurd (congrArg List.length path) (by simp)

theorem youngWorld_walk (own : paging.own (indexPML4 page)) :
    walk (youngWorld stale current).mem (youngWorld stale current).cr3 page = none := by
  have tables := youngWorld_tables stale current
  have zero : entryAt (youngWorld stale current).mem (youngWorld stale current).cr3 page = 0 :=
    youngWorld_unmapped tables.current own
  rw [walk_eq_none tables own, zero]
  rfl

theorem youngWorld_maps (stale : Word) (current : Nat) (aligned : page.toNat % 4096 = 0)
    (own : paging.own (indexPML4 page)) (user : 255 < indexPML4 page →
      (flags ||| pagePresent) &&& pageUser = 0) :
    ∃ after, (mapAddress page 0x4000 1 flags none).run (youngWorld stale current) =
      .ok (⟨⟩, after) ∧
    Rewrites youngRoots (leafOfPage (youngWorld stale current).cr3 page) 3
      (youngWorld stale current) after ∧
    entryAt after.mem (youngWorld stale current).cr3 page = 0x4000 ||| (flags ||| pagePresent) := by
  have tables := youngWorld_tables stale current
  rw [mapAddress_one]
  have granted : ¬ MapRefused (youngWorld stale current) (youngWorld stale current).cr3 page
      (flags ||| pagePresent) false := by
    intro refused
    cases refused with
    | reserved slot => exact slot own
    | highUser high userFlag => exact userFlag (user high)
    | mapped _ there =>
      rw [youngWorld_unmapped tables.current own] at there
      cases there
    | exhausted few => exact absurd few (show ¬ youngPmm.supply < 3 by decide)
  have frame : (0x4000 : Word).toNat % 4096 = 0 := by decide
  obtain ⟨_, after, ran, rewrites, _, _, _, entry⟩ := ends_exists
    (ends_mono (mapInternal_ends tables (self_none _) aligned frame _ false)
      (fun _ _ done => done) (fun _ refused => granted refused))
  exact ⟨after, ran, rewrites, entry⟩

/-- Two pages of a user mapping. -/
theorem mapAddress_implements_map_two_pages : 3 * (2 : Word).toNat ≤ (youngWorld 0 1).pmm.supply ∧
    ∃ after, (mapAddress 0x400000 0x5000 2 pageUser none).run (youngWorld 0 1) = .ok (⟨⟩, after) ∧
    Maps 0x400000 0x5000 2 pageUser (youngWorld 0 1) after := by
  have enough : 3 * (2 : Word).toNat ≤ (youngWorld 0 1).pmm.supply := by decide
  have span : Span 0x400000 (2 : Word).toNat := ⟨by decide, by decide, by decide⟩
  have ⟨returns, maps⟩ := mapAddress_implements_map (youngWorld_tables 0 1) span
    (show (0x5000 : Word).toNat % 4096 = 0 by decide) (by decide)
    (show pageUser &&& flagMask = pageUser by decide) (by decide)
    (fun i below => youngWorld_walk (span.own i below))
  obtain ⟨after, ran⟩ := returns enough
  exact ⟨enough, after, ran, maps after ran⟩

/-- With the last frame below 2^52 as `phys`, the second page gets frame 0. -/
theorem mapAddress_wraps_last_frame : Tables youngRoots (youngWorld 0 1) ∧
    Span 0x400000 (2 : Word).toNat ∧
    (0x000FFFFFFFFFF000 : Word).toNat % 4096 = 0 ∧ (0x000FFFFFFFFFF000 : Word).toNat < 2 ^ 52 ∧
    (∀ i < (2 : Word).toNat, walk (youngWorld 0 1).mem (youngWorld 0 1).cr3
      (pageAt 0x400000 i) = none) ∧
    ∃ after, (mapAddress 0x400000 0x000FFFFFFFFFF000 2 0 none).run (youngWorld 0 1) =
      .ok (⟨⟩, after) ∧
    pageAt 0x000FFFFFFFFFF000 1 = 0x0010000000000000 ∧
    walk after.mem after.cr3 (pageAt 0x400000 1) = some (0, 0x0010000000000001) := by
  have span : Span 0x400000 (2 : Word).toNat := ⟨by decide, by decide, by decide⟩
  have unmapped : ∀ i < (2 : Word).toNat, walk (youngWorld 0 1).mem (youngWorld 0 1).cr3
      (pageAt 0x400000 i) = none :=
    fun i below => youngWorld_walk (span.own i below)
  have ends := mapAddress_ends (youngWorld_tables 0 1) (self_none (youngWorld 0 1)) span
    (show (0x000FFFFFFFFFF000 : Word).toNat % 4096 = 0 by decide) (by decide)
    (fun i below => (walk_eq_none (youngWorld_tables 0 1) (span.own i below)).mp (unmapped i below))
    (show ∀ i < (2 : Word).toNat, 255 < indexPML4 (pageAt 0x400000 i) → (0 : Word) &&& pageUser = 0
      by decide)
  have returns : Ends (mapAddress 0x400000 0x000FFFFFFFFFF000 2 0 none) (youngWorld 0 1) _
      (fun _ => False) :=
    ends_mono ends (fun _ _ done => done) (fun _ few => absurd few (by decide))
  obtain ⟨_, after, ran, rewrites, entries⟩ := ends_exists returns
  refine ⟨youngWorld_tables 0 1, span, by decide, by decide, unmapped, after, ran, by decide, ?_⟩
  rw [walk_entry rewrites.tables (span.own 1 (by decide)), rewrites.undisturbed.cr3,
    entries 1 (by decide)]
  decide

end Nx.Mapping
