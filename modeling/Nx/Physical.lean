import Nx.ExtmmLedger

/-!
The physical memory manager, kernel/source/mm/pmm.cpp: an extent allocator of page frames and the
one zero-filled frame that copy-on-write pages share.
-/

namespace Nx.Physical

open Words Pieces Extmm ExtmmLedger List BitVec Extent

structure Pmm where
  extmmState : State
  numAllocatedBytes : Word
  zeroPageAddr : Word
  deriving DecidableEq

def Pmm.allocate (pmm : Pmm) (num : Word) (below4G : Bool) : Except Abort (Word × Pmm) :=
  match pmm.extmmState.allocate num fun addr len =>
      if below4G then decide (endOf addr len < 0xFFFFFFFF) else true with
  | .error abort => .error abort
  | .ok (ret, st) =>
    if ret = 0 then .error (.assertFailed "ret")
    else .ok (ret, { pmm with
      extmmState := st
      numAllocatedBytes := pmm.numAllocatedBytes + num * pageSize })

def Pmm.Free (pmm : Pmm) (frame : Word) : Prop :=
  frame.toNat % 4096 = 0 ∧ frame.toNat / 4096 ∈ pmm.extmmState.freePages

def Pmm.supply (pmm : Pmm) : Nat := (pmm.extmmState.head.map fun extent => extent.size.toNat).sum

/-- The frame to be handed out next: the lowest of the first extent that has one. -/
def Pmm.nextFrame (pmm : Pmm) : Word :=
  ((pmm.extmmState.head.find? fun extent => decide (1 ≤ extent.size)).map addr).getD 0

/-- Extents of existing memory, each frame at most once, the zero page handed
out. -/
structure Pmm.Sound (pmm : Pmm) : Prop where
  extents : ∀ extent ∈ pmm.extmmState.head, extent.Sound
  apart : Apart (pmm.extmmState.head.map pages)
  reach : ∀ page ∈ pmm.extmmState.freePages, page < 2 ^ 40
  zeroPage : IsFrame pmm.zeroPageAddr
  zeroTaken : ¬ pmm.Free pmm.zeroPageAddr

variable {pmm : Pmm} {frame ret : Word} {st : State}

theorem Pmm.Sound.isFrame (sound : pmm.Sound) (free : pmm.Free frame) : IsFrame frame := by
  have reach := sound.reach _ free.2
  rw [isFrame_iff]
  exact ⟨free.1, by omega⟩

theorem Pmm.Sound.ne_zero (sound : pmm.Sound) (free : pmm.Free frame) : frame ≠ 0 := by
  rintro rfl
  obtain ⟨_, member, inside⟩ := free.2
  obtain ⟨extent, listed, rfl⟩ := mem_map.mp member
  exact (sound.extents extent listed).zero_not_mem inside

/-- One frame taken: it was free, it is free no more, and nothing else changes. -/
structure Takes (before after : Pmm) (frame : Word) : Prop where
  sound : after.Sound
  next : frame = before.nextFrame
  wasFree : before.Free frame
  free : ∀ other, after.Free other ↔ before.Free other ∧ other ≠ frame
  zeroPage : after.zeroPageAddr = before.zeroPageAddr
  supply : before.supply = after.supply + 1

structure Cuts (st after : State) (run : Extent) : Prop where
  extents : ∀ extent ∈ after.head, extent.Sound
  apart : Apart (after.head.map pages)
  runSound : run.Sound
  wasFree : run.pages ⊆ st.freePages
  pages : ∀ page, page ∈ after.freePages ↔ page ∈ st.freePages ∧ page ∉ run.pages

theorem allocate_cuts {after : State} (sound : ∀ extent ∈ st.head, extent.Sound)
    (apart : Apart (st.head.map pages)) (allocated : st.allocate num satisfies = .ok (ret, after))
      (nonzero : ret ≠ 0) :
    0 < num.toNat ∧ Cuts st after ⟨ret, num⟩ := by
  have positive : 0 < num.toNat := by
    rw [Nat.pos_iff_ne_zero]
    exact fun zero => (allocate_cases allocated).1 (eq_of_toNat_eq zero)
  rcases allocate_recut sound positive allocated with ⟨zero, _⟩ | ⟨_, everywhere⟩
  · exact absurd zero nonzero
  have recut := everywhere []
  rw [append_nil] at recut
  have sounds := recut.sound sound
  have aparts := recut.apart apart
  have covers := recut.cover
  simp only [map_append, map_cons, map_nil, cover_append, cover_cons, cover_nil,
    Set.union_empty] at covers
  rw [map_append, apart_append] at aparts
  have disjoint := aparts.2.2
  simp only [map_cons, map_nil, cover_cons, cover_nil, Set.union_empty] at disjoint
  have whole : ∀ page, page ∈ st.freePages ↔ page ∈ after.freePages ∨
      page ∈ (⟨ret, num⟩ : Extent).pages := by
    intro page
    rw [State.freePages, ← covers]
    exact Iff.rfl
  refine ⟨positive, fun extent member => sounds extent (by simp [member]), aparts.1,
    sounds ⟨ret, num⟩ (by simp), fun page inside => (whole page).mpr (.inr inside), ?_⟩
  intro _
  rw [whole]
  constructor
  · exact fun free => ⟨.inl free, fun inside => Set.disjoint_left.mp disjoint free inside⟩
  · rintro ⟨free | inside, other⟩
    · exact free
    · exact absurd inside other

theorem mem_single (ret : Word) (page : Nat) :
    page ∈ (⟨ret, 1⟩ : Extent).pages ↔ page = ret.toNat / 4096 := by
  have size : (1 : Word).toNat = 1 := rfl
  simp only [pages, mem_cells, size]
  omega

section

variable {after : State} (sound : ∀ extent ∈ st.head, extent.Sound)
  (apart : Apart (st.head.map pages))
  (allocated : st.allocate 1 satisfies = .ok (ret, after)) (nonzero : ret ≠ 0)
include sound apart allocated nonzero

theorem allocate_one : (∀ extent ∈ after.head, extent.Sound) ∧ Apart (after.head.map pages) ∧
    ret.toNat % 4096 = 0 ∧
    ret.toNat / 4096 ∈ st.freePages ∧ ∀ page, page ∈ after.freePages ↔ page ∈ st.freePages ∧
    page ≠ ret.toNat / 4096 := by
  obtain ⟨_, cuts⟩ := allocate_cuts sound apart allocated nonzero
  refine ⟨cuts.extents, cuts.apart, cuts.runSound.aligned,
    cuts.wasFree ((mem_single ret _).mpr rfl), ?_⟩
  intro page
  rw [cuts.pages, mem_single]

/-- A page that was just allocated can be given back without a new node: the
extent it came from is still there to its right, or has left its node behind. -/
theorem deallocate_allocated : ∃ again, after.deallocate ret 1 none = .ok again := by
  obtain ⟨soundAfter, _, _, _, pages⟩ := allocate_one sound apart allocated nonzero
  unfold State.deallocate
  split
  · rename_i scanned
    obtain ⟨_, ⟨zero, _, _⟩ | ⟨lower, extent, upper, _, _, _, rfl, outcome⟩⟩ :=
      allocate_cases allocated
    · exact absurd zero nonzero
    rcases outcome with ⟨_, rfl⟩ | ⟨_, rfl⟩
    · simp only [State.addExtent, State.takeNode]
      rw [if_pos (Nat.succ_ne_zero _)]
      exact ⟨_, rfl⟩
    · have missed := (scan_none_iff _ _).mp scanned _ (mem_append_right lower (mem_cons_self ..))
      simp [touches, endOf] at missed
  · rename_i lower extent upper scanned
    obtain ⟨shape, touching, _⟩ := scan_some _ _ _ _ _ scanned
    split
    · exact ⟨_, rfl⟩
    · split
      · exact ⟨_, rfl⟩
      · rename_i notBelow notAbove
        -- an extent that starts at the page and is not empty holds the page
        have starts : extent.addr = ret := by
          simp only [touches, Bool.or_eq_true, beq_iff_eq] at touching
          rcases touching with (below | above) | same
          · exact absurd below notBelow
          · exact absurd above notAbove
          · exact same
        have listed : extent ∈ after.head := by simp [shape]
        have nonempty : 0 < extent.size.toNat := by
          rw [Nat.pos_iff_ne_zero]
          intro empty
          apply notAbove
          rw [← starts]
          apply eq_of_toNat_eq
          rw [(soundAfter extent listed).endAddr_toNat, empty]
          rfl
        have inside : ret.toNat / 4096 ∈ after.freePages := by
          refine ⟨extent.pages, mem_map.mpr ⟨extent, listed, rfl⟩, ?_⟩
          rw [Extent.pages, mem_cells, starts]
          omega
        exact absurd rfl ((pages _).mp inside).2

end

theorem allocate_takes {after : Pmm} (sound : pmm.Sound)
    (done : pmm.allocate 1 false = .ok (phys, after)) :
    Takes pmm after phys := by
  unfold Pmm.allocate at done
  split at done
  · cases done
  rename_i ret st allocated
  split at done
  · cases done
  rename_i nonzero
  cases done
  obtain ⟨extents, apart, aligned, wasFree, pages⟩ :=
    allocate_one sound.extents sound.apart allocated nonzero
  have samePage : ∀ other : Word, other.toNat % 4096 = 0 →
      (other.toNat / 4096 = phys.toNat / 4096 ↔ other = phys) := by
    intro other otherAligned
    rw [← toNat_inj]
    omega
  have free : ∀ other, other.toNat % 4096 = 0 ∧ other.toNat / 4096 ∈ st.freePages ↔ pmm.Free other ∧
      other ≠ phys := by
    intro other
    rw [pages, Pmm.Free]
    constructor
    · rintro ⟨otherAligned, inside, differs⟩
      exact ⟨⟨otherAligned, inside⟩, mt (samePage other otherAligned).mpr differs⟩
    · rintro ⟨⟨otherAligned, inside⟩, differs⟩
      exact ⟨otherAligned, inside, mt (samePage other otherAligned).mp differs⟩
  obtain ⟨_, ⟨zero, _, _⟩ | ⟨lower, extent, _, shape, ⟨enough, _⟩, passed, ret, outcome⟩⟩ :=
    allocate_cases allocated
  · exact absurd zero nonzero
  constructor
  · constructor
    · exact extents
    · exact apart
    · intro page inside
      exact sound.reach page ((pages page).mp inside).1
    · exact sound.zeroPage
    · intro zeroFree
      exact sound.zeroTaken ((free _).mp zeroFree).1
  · have none : lower.find? (fun extent => decide (1 ≤ extent.size)) = none := by
      rw [find?_eq_none]
      intro other listed fits
      exact passed other listed ⟨of_decide_eq_true fits, rfl⟩
    rw [Pmm.nextFrame, shape, find?_append, none, Option.none_or,
      find?_cons_of_pos (by simpa using enough)]
    exact ret
  · exact ⟨aligned, wasFree⟩
  · exact free
  · rfl
  · have one : (1 : Word).toNat = 1 := rfl
    rcases outcome with ⟨size, rfl⟩ | ⟨_, rfl⟩
    · simp only [Pmm.supply, shape, size, map_append, map_cons, sum_append, sum_cons, one]
      omega
    · have rest : (extent.size - 1).toNat = extent.size.toNat - 1 := toNat_sub_of_le enough
      have enoughNat : (1 : Word).toNat ≤ extent.size.toNat := enough
      simp only [Pmm.supply, shape, rest, map_append, map_cons, sum_append, sum_cons]
      omega

structure TakesRun (before after : Pmm) (phys num : Word) : Prop where
  sound : after.Sound
  positive : 0 < num.toNat
  nonzero : phys ≠ 0
  cuts : Cuts before.extmmState after.extmmState ⟨phys, num⟩
  zeroPage : after.zeroPageAddr = before.zeroPageAddr

section TakesRun

variable {before after : Pmm} {phys num : Word}

section

variable (takes : TakesRun before after phys num)
include takes

theorem TakesRun.free (isFree : after.Free frame) : before.Free frame :=
  ⟨isFree.1, ((takes.cuts.pages _).mp isFree.2).1⟩

theorem TakesRun.fits (sound : before.Sound) : phys.toNat + 4096 * num.toNat ≤ 2 ^ 52 := by
  have positive := takes.positive
  have aligned := takes.cuts.runSound.aligned
  have last := sound.reach (phys.toNat / 4096 + (num.toNat - 1)) (takes.cuts.wasFree (by
    simp only [pages, mem_cells]
    omega))
  dsimp only at aligned
  omega

theorem TakesRun.taken (below : i < num.toNat) (place : frame.toNat = phys.toNat + 4096 * i) :
    before.Free frame ∧ ¬ after.Free frame := by
  have aligned := takes.cuts.runSound.aligned
  dsimp only at aligned
  have inside : frame.toNat / 4096 ∈ (⟨phys, num⟩ : Extent).pages := by
    simp only [pages, mem_cells]
    omega
  refine ⟨⟨by omega, takes.cuts.wasFree inside⟩, ?_⟩
  exact fun isFree => ((takes.cuts.pages _).mp isFree.2).2 inside

end

end TakesRun

theorem allocate_error (sound : pmm.Sound) (failed : pmm.allocate 1 false = .error abort) :
    pmm.supply = 0 := by
  obtain ⟨ret, _, allocated⟩ := allocate_total pmm.extmmState 1 (fun _ _ => true) (by decide)
  simp only [Pmm.allocate, Bool.false_eq_true, ↓reduceIte, allocated] at failed
  split at failed
  · rename_i zero
    obtain ⟨_, ⟨_, _, none⟩ | ⟨_, found, _, shape, serving, _, ret, _⟩⟩ := allocate_cases allocated
    · simp only [Pmm.supply, sum_eq_zero_iff, mem_map, forall_exists_index, and_imp,
        forall_apply_eq_imp_iff₂]
      intro extent listed
      by_contra some
      apply none extent listed
      refine ⟨?_, rfl⟩
      show (1 : Word).toNat ≤ extent.size.toNat
      have one : (1 : Word).toNat = 1 := rfl
      omega
    · have served : (1 : Word).toNat ≤ found.size.toNat := serving.1
      have one : (1 : Word).toNat = 1 := rfl
      have offZero := (sound.extents found (by simp [shape])).offZero (by omega)
      rw [← ret, zero] at offZero
      exact absurd offZero (by decide)
  · cases failed

theorem free_single (single : pmm.extmmState.head = [extent]) (frame : Word) :
    pmm.Free frame ↔ frame.toNat % 4096 = 0 ∧
    extent.addr.toNat / 4096 ≤ frame.toNat / 4096 ∧
    frame.toNat / 4096 < extent.addr.toNat / 4096 + extent.size.toNat := by
  simp [Pmm.Free, State.freePages, single, pages]

theorem sound_of_single (single : pmm.extmmState.head = [extent])
    (sound : extent.Sound) (reach : extent.addr.toNat / 4096 + extent.size.toNat ≤ 2 ^ 40)
    (zeroPage : IsFrame pmm.zeroPageAddr) (zeroTaken : ¬ pmm.Free pmm.zeroPageAddr) :
      pmm.Sound := by
  constructor
  · simpa [single] using sound
  · simp [single, Apart]
  · intro _ inside
    simp only [State.freePages, single, map_cons, map_nil, cover_cons, cover_nil,
      Set.union_empty, pages, mem_cells] at inside
    omega
  · exact zeroPage
  · exact zeroTaken

end Nx.Physical
