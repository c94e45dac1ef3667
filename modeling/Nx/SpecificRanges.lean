import Nx.Vmm

/-!
Requests for a given range: `State::allocateSpecific` of kernel/include/extmm.h and the caller in
kernel/source/mm/vmm.cpp.
-/

namespace Nx.SpecificRanges

open Words Pieces Extmm Vmregion Machine Outcomes Vmm List BitVec
open Extent hiding addr size

structure Placed (extent : Extent) : Prop where
  aligned : extent.addr.toNat % 4096 = 0
  below : extent.addr.toNat + 4096 * extent.size.toNat ≤ 2 ^ 64

/-- The page numbers of `[start, start + num * 4096)`, computed without wrap. -/
def rangePages (start num : Word) : Set Nat := cells (start.toNat / 4096) num.toNat

def Unwrapped (start num : Word) : Prop := start.toNat + 4096 * num.toNat < 2 ^ 64

def InOneSpace (addr num : Word) : Prop :=
  ∃ space ∈ addressSpaces, space.2.1.toNat ≤ addr.toNat ∧ addr.toNat + 4096 * num.toNat ≤
    space.2.2.toNat
  deriving Decidable

variable {extent : Extent}

theorem addExtent_head {st after : State} (added : st.addExtent addr size newmem = .ok after) :
    after.head = ⟨addr, size⟩ :: st.head := by
  unfold State.addExtent State.takeNode at added
  split at added
  · cases added
    rfl
  · split at added
    · cases added
      rfl
    · cases newmem with
      | none => cases added
      | some =>
        cases added
        rfl

theorem endOf_top {start num : Word} (top : start.toNat + 4096 * num.toNat = 2 ^ 64) :
    endOf start num = 0 := by
  apply eq_of_toNat_eq
  rw [endOf, toNat_add, toNat_mul, pageSize_toNat, Nat.add_mod_mod, Nat.mul_comm, top]
  rfl

/-- An extent that passes the test of the loop does hold the range: one that
reaches up to 2^64 has a wrapped end of zero, below the end of any range. -/
theorem Placed.end_of_encloses {start num : Word} (placed : Placed extent)
    (positive : 0 < start.toNat)
    (unwrapped : Unwrapped start num) (encloses : endOf start num ≤ extent.endAddr) :
    extent.addr.toNat + 4096 * extent.size.toNat < 2 ^ 64 ∧
    start.toNat + 4096 * num.toNat ≤ extent.addr.toNat + 4096 * extent.size.toNat := by
  have below := placed.below
  have ends : (endOf start num).toNat ≤ extent.endAddr.toNat := encloses
  rw [endOf_toNat _ _ unwrapped] at ends
  by_cases fits : extent.addr.toNat + 4096 * extent.size.toNat < 2 ^ 64
  · rw [endAddr, endOf_toNat _ _ fits] at ends
    exact ⟨fits, ends⟩
  · rw [endAddr, endOf_top (by omega)] at ends
    have zero : (0 : Word).toNat = 0 := rfl
    omega

theorem cover_replace (apart : Apart (lower ++ piece :: upper)) (inside : gone ⊆ piece)
    (rest : cover fresh = piece \ gone) : gone ⊆ cover (lower ++ piece :: upper) ∧
    cover (fresh ++ (lower ++ upper)) = cover (lower ++ piece :: upper) \ gone := by
  have alone : Disjoint piece (cover (lower ++ upper)) := by
    have swapped := (apart_perm perm_middle).mp apart
    exact ((apart_cons _ _).mp swapped).1
  have whole : cover (lower ++ piece :: upper) = piece ∪ cover (lower ++ upper) := by
    rw [cover_perm perm_middle, cover_cons]
  have away : Disjoint (cover (lower ++ upper)) gone := (alone.mono_left inside).symm
  rw [whole]
  constructor
  · exact inside.trans Set.subset_union_left
  · rw [cover_append, rest, Set.union_sdiff_distrib, away.sdiff_eq_left]

section Grant

variable {st after : State} {start num : Word}

structure Leaves (extent : Extent) (start num : Word) (fresh : List Extent) : Prop where
  inside : rangePages start num ⊆ extent.pages
  rest : cover (fresh.map pages) = extent.pages \ rangePages start num

theorem leaves_back (placed : Placed extent) (atStart : extent.addr = start)
    (ends : start.toNat + 4096 * num.toNat ≤ extent.addr.toNat + 4096 * extent.size.toNat) :
    Leaves extent start num [⟨extent.addr + num * pageSize, extent.size - num⟩] := by
  have aligned := placed.aligned
  have below := placed.below
  subst atStart
  have enough : num ≤ extent.size := by
    rw [le_def]
    omega
  constructor
  · intro page
    simp only [rangePages, pages, mem_cells]
    omega
  · ext page
    simp only [map_cons, map_nil, cover_cons, cover_nil, Set.union_empty, pages,
      rangePages, Set.mem_sdiff, mem_cells, toNat_sub_of_le enough]
    -- nothing is left of an extent that ends at 2^64 with the range
    by_cases unwrapped : Unwrapped extent.addr num
    · have base : (extent.addr + num * pageSize).toNat = extent.addr.toNat + 4096 * num.toNat :=
        endOf_toNat extent.addr num unwrapped
      rw [base]
      omega
    · rw [Unwrapped] at unwrapped
      omega

theorem leaves_front (placed : Placed extent) (startAligned : start.toNat % 4096 = 0)
    (above : extent.addr.toNat ≤ start.toNat)
    (same : start.toNat + 4096 * num.toNat = extent.addr.toNat + 4096 * extent.size.toNat) :
    Leaves extent start num [⟨extent.addr, extent.size - num⟩] := by
  have aligned := placed.aligned
  have enough : num ≤ extent.size := by
    rw [le_def]
    omega
  constructor
  · intro page
    simp only [rangePages, pages, mem_cells]
    omega
  · ext page
    simp only [map_cons, map_nil, cover_cons, cover_nil, Set.union_empty, pages,
      rangePages, Set.mem_sdiff, mem_cells, toNat_sub_of_le enough]
    omega

theorem leaves_both (placed : Placed extent) (unwrapped : Unwrapped start num)
    (startAligned : start.toNat % 4096 = 0) (above : extent.addr ≤ start)
    (fits : extent.addr.toNat + 4096 * extent.size.toNat < 2 ^ 64)
      (encloses : endOf start num ≤ extent.endAddr) :
    Leaves extent start num [⟨endOf start num, (extent.endAddr - endOf start num) / pageSize⟩,
      ⟨extent.addr, (start - extent.addr) / pageSize⟩] := by
  have aligned := placed.aligned
  have aboveNat : extent.addr.toNat ≤ start.toNat := above
  have ends : (endOf start num).toNat ≤ extent.endAddr.toNat := encloses
  have endNat : extent.endAddr.toNat = _ := endOf_toNat _ _ fits
  have front := pages_between above
  have back := pages_between encloses
  rw [endOf_toNat _ _ unwrapped, endNat] at ends back
  constructor
  · intro page
    simp only [rangePages, pages, mem_cells]
    omega
  · ext page
    simp only [map_cons, map_nil, cover_cons, cover_nil, Set.union_empty, pages,
      rangePages, Set.mem_sdiff, Set.mem_union, mem_cells, front, back, endOf_toNat _ _ unwrapped]
    omega

theorem freePages_replace (shape : st.head = lower ++ extent :: upper)
    (apart : Apart (st.head.map pages))
    (leaves : Leaves extent start num fresh) (order : after.head.Perm (fresh ++ (lower ++ upper))) :
    rangePages start num ⊆ st.freePages ∧ after.freePages =
      st.freePages \ rangePages start num := by
  rw [shape, map_append, map_cons] at apart
  have replaced := cover_replace apart leaves.inside leaves.rest
  rw [State.freePages, State.freePages, cover_perm (order.map _), shape]
  simpa only [map_append, map_cons] using replaced

/-- The test of the loop, with its wrapped ends. -/
def passes (start num : Word) (extent : Extent) : Bool :=
  decide (extent.addr ≤ start) && decide (endOf start num ≤ extent.endAddr)

/-- The first extent that passes the test does hold the range. -/
def Held (st : State) (start num : Word) : Prop :=
  ∀ extent, st.head.find? (passes start num) = some extent →
    start.toNat + 4096 * num.toNat ≤ extent.addr.toNat + 4096 * extent.size.toNat

theorem find_of_scan {accept : Extent → Bool} {extents : List Extent}
    (scanned : scan accept extents = some (lower, extent, upper)) : extents.find? accept =
      some extent := by
  obtain ⟨rfl, accepted, passed⟩ := scan_some _ _ _ _ _ scanned
  rw [find?_append, find?_eq_none.mpr (by simpa using passed), find?_cons_of_pos accepted]
  rfl

theorem held_of_unwrapped (placed : ∀ extent ∈ st.head, Placed extent) (positive : 0 < start.toNat)
    (unwrapped : Unwrapped start num) : Held st start num := by
  intro extent first
  have accepted := find?_some first
  simp only [passes, Bool.and_eq_true, decide_eq_true_eq] at accepted
  exact ((placed extent (mem_of_find?_eq_some first)).end_of_encloses positive unwrapped
    accepted.2).2

theorem allocateSpecific_grants (placed : ∀ extent ∈ st.head, Placed extent)
    (apart : Apart (st.head.map pages))
    (startAligned : start.toNat % 4096 = 0) (positive : 0 < start.toNat) (held : Held st start num)
    (done : st.allocateSpecific start num newmem = .ok (ret, after)) (granted : ret ≠ 0) :
      ret = start ∧
    rangePages start num ⊆ st.freePages ∧ after.freePages =
      st.freePages \ rangePages start num := by
  unfold State.allocateSpecific at done
  split at done
  · cases done
    exact absurd rfl granted
  rename_i lower extent upper scanned
  have ends := held extent (find_of_scan scanned)
  have ⟨shape, accepted, _⟩ := scan_some _ _ _ _ _ scanned
  simp only [Bool.and_eq_true, decide_eq_true_eq] at accepted
  obtain ⟨above, encloses⟩ := accepted
  have here := placed extent (by simp [shape])
  have below := here.below
  split at done
  · rename_i atStart
    cases done
    exact ⟨rfl, freePages_replace shape apart (leaves_back here atStart ends) perm_middle⟩
  split at done
  · rename_i atEnd
    cases done
    have same : start.toNat + 4096 * num.toNat = extent.addr.toNat + 4096 * extent.size.toNat := by
      by_cases unwrapped : Unwrapped start num
      · obtain ⟨fits, _⟩ := here.end_of_encloses positive unwrapped encloses
        have bothEnds := congrArg BitVec.toNat atEnd
        rwa [endOf_toNat _ _ unwrapped, endAddr, endOf_toNat _ _ fits] at bothEnds
      · rw [Unwrapped] at unwrapped
        omega
    exact ⟨rfl, freePages_replace shape apart (leaves_front here startAligned above same)
      perm_middle⟩
  · rename_i inner
    simp only [bind, Except.bind] at done
    split at done
    · cases done
    rename_i last added
    cases done
    have head := addExtent_head added
    have unwrapped : Unwrapped start num := by
      by_contra wraps
      rw [Unwrapped] at wraps
      exact inner ((endOf_top (by omega)).trans (endOf_top (by omega)).symm)
    obtain ⟨fits, _⟩ := here.end_of_encloses positive unwrapped encloses
    refine ⟨rfl, freePages_replace shape apart
      (leaves_both here unwrapped startAligned above fits encloses) ?_⟩
    rw [head]
    exact List.Perm.cons _ perm_middle

/-- With a node at hand the range is granted, and the other extents stay. -/
theorem allocateSpecific_takes (scanned : scan (passes start num) st.head =
    some (lower, extent, upper))
    (node : newmem ≠ none ∨ st.freeHead ≠ 0) :
    ∃ after, st.allocateSpecific start num newmem = .ok (start, after) ∧
      ∀ other ∈ lower ++ upper, other ∈ after.head := by
  have others (fresh : Extent) : ∀ other ∈ lower ++ upper, other ∈ lower ++ fresh :: upper := by
    intro other listed
    rcases mem_append.mp listed with front | back
    · exact mem_append_left _ front
    · exact mem_append_right _ (mem_cons_of_mem _ back)
  have found : scan (fun extent => decide (extent.addr ≤ start) &&
      decide (endOf start num ≤ extent.endAddr)) st.head = some (lower, extent, upper) := scanned
  unfold State.allocateSpecific
  rw [found]
  dsimp only
  split
  · exact ⟨_, rfl, others _⟩
  split
  · exact ⟨_, rfl, others _⟩
  · obtain ⟨last, isLast⟩ : ∃ last, State.addExtent { st with
        head := lower ++ ⟨extent.addr, (start - extent.addr) / pageSize⟩ :: upper }
          (endOf start num)
        ((extent.endAddr - endOf start num) / pageSize) newmem = .ok last := by
      unfold State.addExtent State.takeNode
      split
      · exact ⟨_, rfl⟩
      split
      · exact ⟨_, rfl⟩
      · cases newmem with
        | some => exact ⟨_, rfl⟩
        | none => simp_all
    refine ⟨last, by rw [isLast]; rfl, fun other listed => ?_⟩
    rw [addExtent_head isLast]
    exact mem_cons_of_mem _ (others _ other listed)

/-- What the allocator should do, whatever memory for a node it is given. -/
def Grants (st : State) (start num : Word) : Prop :=
  ∀ newmem ret after, st.allocateSpecific start num newmem = .ok (ret, after) → ret ≠ 0 →
    ret = start ∧ rangePages start num ⊆ st.freePages ∧
    after.freePages = st.freePages \ rangePages start num

theorem grants_iff (placed : ∀ extent ∈ st.head, Placed extent) (apart : Apart (st.head.map pages))
    (startAligned : start.toNat % 4096 = 0) (positive : 0 < start.toNat) :
    Grants st start num ↔ Held st start num := by
  refine ⟨fun grants => ?_, fun held _ _ _ =>
    allocateSpecific_grants placed apart startAligned positive held⟩
  intro extent first
  by_contra beyond
  have wraps : ¬ Unwrapped start num := fun unwrapped =>
    beyond (held_of_unwrapped placed positive unwrapped extent first)
  cases scanned : scan (passes start num) st.head with
  | none =>
    have missed := (scan_none_iff _ _).mp scanned extent (mem_of_find?_eq_some first)
    exact absurd (find?_some first) (by simp [missed])
  | some parts =>
    obtain ⟨lower, chosen, upper⟩ := parts
    obtain rfl : chosen = extent := Option.some.inj ((find_of_scan scanned).symm.trans first)
    have node : some (0 : Word) ≠ none ∨ st.freeHead ≠ 0 := .inl (by simp)
    obtain ⟨after, done, others⟩ := allocateSpecific_takes scanned node
    have nonzero : start ≠ 0 := by
      rintro rfl
      simp at positive
    obtain ⟨_, free, left⟩ := grants (some 0) start after done nonzero
    rw [Unwrapped] at wraps
    have low := start.isLt
    -- the last page of the range is free in another extent, and that one stays
    have inRange : start.toNat / 4096 + num.toNat - 1 ∈ rangePages start num := by
      simp only [rangePages, mem_cells]
      omega
    obtain ⟨_, listed, inside⟩ := free inRange
    obtain ⟨other, isOther, rfl⟩ := mem_map.mp listed
    have otherPlaced := placed other isOther
    have otherAligned := otherPlaced.aligned
    simp only [pages, mem_cells] at inside
    have differs : other ≠ chosen := by
      rintro rfl
      omega
    have stays : other ∈ lower ++ upper := by
      rw [(scan_some _ _ _ _ _ scanned).1] at isOther
      simpa [differs] using isOther
    have freeAfter : start.toNat / 4096 + num.toNat - 1 ∈ after.freePages :=
      ⟨_, mem_map_of_mem (others other stays), by simpa only [pages, mem_cells] using inside⟩
    rw [left] at freeAfter
    exact freeAfter.2 inRange

end Grant

theorem findAddrSpace_inOneSpace (unwrapped : Unwrapped addr num)
    (found : findAddrSpace addr num = some type) :
    InOneSpace addr num := by
  rw [findAddrSpace, Option.map_eq_some_iff] at found
  obtain ⟨space, first, _⟩ := found
  have accepted := find?_some first
  simp only [Bool.and_eq_true, decide_eq_true_eq] at accepted
  obtain ⟨above, below⟩ := accepted
  refine ⟨space, mem_of_find?_eq_some first, above, ?_⟩
  have ends : (endOf addr num).toNat ≤ space.2.2.toNat := below
  rwa [endOf_toNat _ _ unwrapped] at ends

def Records (proc : Nat) (addr num : Word) (after : World) : Prop :=
  ∃ before space, (World.procs before proc).addRegion addr num = .ok space ∧
    after = before.setProc proc space

theorem addRegion_records (world : World) (addr num : Word) (proc : Nat) :
    Ends (addRegion addr num proc) world (fun _ after => Records proc addr num after)
      (fun _ => True) := by
  apply ends_get
  cases added : (world.procs proc).addRegion addr num with
  | error => exact ends_throw _ trivial
  | ok space => exact ends_set _ ⟨world, space, added, rfl⟩

theorem allocateSpecific_result {st after : State}
    (done : st.allocateSpecific start num newmem = .ok (ret, after)) : ret = 0 ∨ ret = start := by
  unfold State.allocateSpecific at done
  split at done
  · cases done
    exact .inl rfl
  right
  split at done
  · cases done
    rfl
  split at done
  · cases done
    rfl
  · simp only [bind, Except.bind] at done
    split at done
    · cases done
    · cases done
      rfl

theorem allocateSpecific_records (world : World) (addr num : Word) (proc : Option Nat) :
    Ends (allocateSpecific addr num proc) world (fun virt after => virt = 0 ∨ virt = addr ∧
    (∃ type, findAddrSpace addr num = some type) ∧ Records (proc.getD world.current) addr num after)
      (fun _ =>
    True) := by
  apply assertThat_any
  intro _
  apply ends_get
  unfold getAddrSpace
  cases found : findAddrSpace addr num with
  | none => exact ends_bind (ends_throw _ trivial)
  | some type =>
    apply ends_bind
    apply ends_pure
    apply refuse_then (fun _ => trivial)
    intro _
    apply ends_seq (ends_any _ _)
    intro _ _ _
    apply ends_get
    dsimp only
    split
    · exact ends_throw _ trivial
    rename_i virt st done
    apply ends_put
    -- zero means that the range is not to be had, and nothing is recorded
    rcases allocateSpecific_result done with rfl | rfl
    · apply ends_bind
      exact ends_pure _ (ends_pure _ (.inl rfl))
    · by_cases zero : virt = 0
      · subst zero
        apply ends_bind
        exact ends_pure _ (ends_pure _ (.inl rfl))
      · have wanted : (virt != 0) = true := by simpa using zero
        rw [wanted]
        apply ends_seq (addRegion_records _ virt num _)
        intro _ _ records
        exact ends_pure _ (.inr ⟨rfl, ⟨type, rfl⟩, records⟩)

/-- What `vmm::allocateSpecific` records lies in one address space, in every world. -/
def RecordsInside (start num : Word) : Prop :=
  ∀ (world after : World) (proc : Option Nat) (virt : Word),
    (allocateSpecific start num proc).run world = .ok (virt, after) → virt ≠ 0 →
    virt = start ∧ InOneSpace start num ∧ Records (proc.getD world.current) start num after

/-- A whole address space is free, and there is a node to spare. -/
def openState (base top : Word) : State :=
  { State.init "vmm" 0 0 with head := [⟨base, (top - base) / pageSize⟩], freeHead := 1 }

def openWorld (type : AddressSpaceType) (base top : Word) : World :=
  let world := Mapping.youngWorld 0 0
  world.setProc 0 { world.procs 0 with
    regions := []
    vmmStates := Function.update (world.procs 0).vmmStates type (openState base top) }

theorem addressSpaces_whole : ∀ space ∈ addressSpaces,
    endOf space.2.1 ((space.2.2 - space.2.1) / pageSize) = space.2.2 := by
  decide

theorem addRegion_fresh {world : World} (none_ : (world.procs proc).regions = [])
    (startAligned : isPageAligned start = true) :
    Ends (addRegion start num proc) world (fun _ _ => True) (fun _ => False) := by
  obtain ⟨space, added⟩ : ∃ space, (world.procs proc).addRegion start num = .ok space := by
    simp [AddressSpace.addRegion, startAligned, none_, scan]
  apply ends_get
  rw [added]
  exact ends_set _ trivial

/-- The kernel grants there what passes the test for the address space. -/
theorem openWorld_grants (startAligned : isPageAligned start = true) (nonzero : start ≠ 0)
    (found : addressSpaces.find? (fun (_, base, top) =>
      decide (base ≤ start) && decide (start + ofsPages num ≤ top)) = some (type, base, top)) :
    Ends (allocateSpecific start num (some 0)) (openWorld type base top)
      (fun virt _ => virt = start) (fun _ => False) := by
  have accepted := find?_some found
  simp only [Bool.and_eq_true, decide_eq_true_eq] at accepted
  have whole : endOf base ((top - base) / pageSize) = top :=
    addressSpaces_whole _ (mem_of_find?_eq_some found)
  have passed : passes start num ⟨base, (top - base) / pageSize⟩ = true := by
    simp only [passes, endAddr, whole, Bool.and_eq_true, decide_eq_true_eq]
    exact accepted
  have scanned : scan (passes start num) (openState base top).head =
      some ([], ⟨base, (top - base) / pageSize⟩, []) := by
    simp [openState, scan, passed]
  have node : (none : Option Word) ≠ none ∨ (openState base top).freeHead ≠ 0 :=
    .inr Nat.one_ne_zero
  obtain ⟨st, done, _⟩ := allocateSpecific_takes scanned node
  have states : ((openWorld type base top).procs 0).vmmStates type = openState base top := by
    simp [openWorld, World.setProc]
  have isType : findAddrSpace start num = some type := by
    rw [findAddrSpace, found]
    rfl
  apply assertThat_then startAligned
  apply ends_get
  rw [getAddrSpace, isType]
  apply ends_bind
  apply ends_pure
  apply refuse_then (by simp [openWorld, World.setProc, Mapping.youngWorld])
  intro _
  have nodes : Ends (nodesFor start num 0 type) (openWorld type base top)
      (fun newmem same => newmem = none ∧ same = openWorld type base top) (fun _ => False) := by
    apply ends_get
    rw [states, done]
    exact ends_pure _ ⟨rfl, rfl⟩
  apply ends_seq nodes
  rintro _ _ ⟨rfl, rfl⟩
  apply ends_get
  dsimp only [Option.getD_some]
  rw [states, done]
  apply ends_put
  have wanted : (start != 0) = true := by simpa using nonzero
  rw [wanted]
  have none_ : ((openWorld type base top).procs 0).regions = [] := by
    simp [openWorld, World.setProc]
  apply ends_seq (addRegion_fresh (by simpa [World.setProc] using none_) startAligned)
  intro _ _ _
  exact ends_pure _ rfl

theorem recordsInside_iff (startAligned : start.toNat % 4096 = 0) :
    RecordsInside start num ↔ ((findAddrSpace start num).isSome → InOneSpace start num) := by
  constructor
  · intro records isSome_
    obtain ⟨type, found⟩ := Option.isSome_iff_exists.mp isSome_
    rw [findAddrSpace, Option.map_eq_some_iff] at found
    obtain ⟨⟨_, base, top⟩, found, _⟩ := found
    have positive : ∀ space ∈ addressSpaces, 0 < space.2.1.toNat := by decide
    have nonzero : start ≠ 0 := by
      have above := find?_some found
      simp only [Bool.and_eq_true, decide_eq_true_eq] at above
      have low : base.toNat ≤ start.toNat := above.1
      have high := positive _ (mem_of_find?_eq_some found)
      rintro rfl
      exact absurd (high.trans_le low) (by simp)
    obtain ⟨virt, after, done, rfl⟩ :=
      ends_exists (openWorld_grants ((isPageAligned_iff start).mpr startAligned) nonzero found)
    exact (records _ after (some 0) virt done nonzero).2.1
  · intro inside world _ proc _ done granted
    rcases ends_of_ok (allocateSpecific_records world start num proc) done with
      zero | ⟨same, ⟨type, found⟩, records⟩
    · exact absurd zero granted
    · exact ⟨same, inside (by rw [found]; rfl), records⟩

/-- Only free ranges are granted exactly where the first extent that passes the wrapped test does
hold the range, and recorded only inside one address space exactly where the test for the address
spaces is right about the range. Both are so for every range that does not wrap. -/
theorem specific_ranges_granted_iff (start num : Word) (startAligned : start.toNat % 4096 = 0) :
    (∀ st : State, 0 < start.toNat → (∀ extent ∈ st.head, Placed extent) →
      Apart (st.head.map pages) →
      (Grants st start num ↔ Held st start num) ∧ (Unwrapped start num → Held st start num)) ∧
    (RecordsInside start num ↔ ((findAddrSpace start num).isSome → InOneSpace start num)) ∧
    (Unwrapped start num → (findAddrSpace start num).isSome → InOneSpace start num) := by
  refine ⟨fun _ positive placed apart => ⟨grants_iff placed apart startAligned positive,
    held_of_unwrapped placed positive⟩, recordsInside_iff startAligned, ?_⟩
  intro unwrapped isSome_
  obtain ⟨type, found⟩ := Option.isSome_iff_exists.mp isSome_
  exact findAddrSpace_inOneSpace unwrapped found

def fourFree : State := { State.init "vmm" 0 0 with head := [⟨0x400000, 4⟩] }

theorem fourFree_placed : ∀ extent ∈ fourFree.head, Placed extent := by
  intro _ member
  rw [mem_singleton.mp member]
  exact ⟨by decide, by decide⟩

theorem fourFree_apart : Apart (fourFree.head.map pages) := pairwise_singleton _ _

theorem specific_ranges_granted_two_pages : Unwrapped 0x400000 2 ∧
    (∃ after, fourFree.allocateSpecific 0x400000 2 none = .ok (0x400000, after) ∧
    after.freePages = fourFree.freePages \ rangePages 0x400000 2) ∧ InOneSpace 0x400000 2 := by
  have unwrapped : Unwrapped 0x400000 2 := by
    unfold Unwrapped
    decide
  obtain ⟨grants, records, inside⟩ := specific_ranges_granted_iff 0x400000 2 (by decide)
  obtain ⟨iff, held⟩ := grants fourFree (by decide) fourFree_placed fourFree_apart
  refine ⟨unwrapped, ⟨_, rfl, ?_⟩, ?_⟩
  · exact (iff.mpr (held unwrapped) none 0x400000 _ rfl (by decide)).2.2
  · exact (records.mpr (inside unwrapped) (Mapping.youngWorld 0 1) _ none 0x400000
      rfl (by decide)).2.1

/-- A count of 2^52 pages wraps around to the start of the range. The allocator
grants it from an extent of four pages, and the kernel records it as a region. -/
theorem wrapped_range_granted :
    ((fourFree.allocateSpecific 0x400000 0x10000000000000 none).toOption.map Prod.fst =
      some 0x400000 ∧
      ¬ rangePages 0x400000 0x10000000000000 ⊆ fourFree.freePages) ∧
    ((allocateSpecific 0x400000 0x10000000000000 none).run
        (Mapping.youngWorld 0 1)).toOption.map Prod.fst = some 0x400000 ∧
          ¬ InOneSpace 0x400000 0x10000000000000 := by
  refine ⟨⟨rfl, ?_⟩, rfl, by decide⟩
  intro free
  have fifth : 0x404 ∈ rangePages 0x400000 0x10000000000000 := by
    simp [rangePages]
  simpa [fourFree, State.freePages, pages] using free fifth

end Nx.SpecificRanges
