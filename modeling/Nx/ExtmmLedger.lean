import Nx.Extmm
import Nx.Transitions

/-!
The allocator together with the blocks its callers hold. A ledger pairs the state with the list of
live blocks; an operation moves pages between the two sides.
-/

namespace Nx.ExtmmLedger

open Words Pieces Extmm Transitions List BitVec Extent

structure Ledger where
  st : State
  live : List Extent

inductive Op where
  | allocate (num : Word) (satisfies : Word → Word → Bool)
  | allocateSpecific (start num newmem : Word)
  | deallocate (addr num newmem : Word)

/-- A zero result hands out nothing. Nodes for new extents are always there. -/
def step (ledger : Ledger) : Op → Except Abort Ledger
  | .allocate num satisfies => do
    let (ret, st) ← ledger.st.allocate num satisfies
    pure ⟨st, if ret = 0 then ledger.live else ⟨ret, num⟩ :: ledger.live⟩
  | .allocateSpecific start num newmem => do
    let (ret, st) ← ledger.st.allocateSpecific start num (some newmem)
    pure ⟨st, if ret = 0 then ledger.live else ⟨ret, num⟩ :: ledger.live⟩
  | .deallocate addr num newmem => do
    let st ← ledger.st.deallocate addr num (some newmem)
    pure ⟨st, ledger.live.erase ⟨addr, num⟩⟩

/-- Positive sizes, page-aligned requests without wrap, and every deallocation
gives back exactly one block that is still live. -/
def Admissible (ledger : Ledger) : Op → Prop
  | .allocate num _ => 0 < num.toNat
  | .allocateSpecific start num _ =>
    0 < num.toNat ∧ start.toNat % 4096 = 0 ∧ start.toNat + 4096 * num.toNat < 2 ^ 64
  | .deallocate addr num _ => 0 < num.toNat ∧ ⟨addr, num⟩ ∈ ledger.live

def Step (before : Ledger) (op : Op) (after : Ledger) : Prop :=
  Admissible before op ∧ step before op = .ok after

def Ledger.extents (ledger : Ledger) : List Extent := ledger.st.head ++ ledger.live

def Ledger.pages (ledger : Ledger) : Set Nat := cover (ledger.extents.map Extent.pages)

structure Ledger.Sound (ledger : Ledger) : Prop where
  extents : ∀ extent ∈ ledger.extents, extent.Sound
  liveSome : ∀ block ∈ ledger.live, 0 < block.size.toNat
  apart : Apart (ledger.extents.map Extent.pages)

/-- One list of extents describes the same pages as another, still cut into
sound and disjoint pieces. -/
structure Recut (old new : List Extent) : Prop where
  sound : (∀ extent ∈ old, extent.Sound) → ∀ extent ∈ new, extent.Sound
  apart : Apart (old.map pages) → Apart (new.map pages)
  cover : cover (new.map pages) = cover (old.map pages)

open Recut

variable {old new : List Extent} {extent : Extent} {st : State} {num : Word} {ledger : Ledger}

theorem Recut.of_perm (order : old.Perm new) : Recut old new where
  sound := fun sound extent member => sound extent (order.mem_iff.mpr member)
  apart := (apart_perm (order.map _)).mp
  cover := (cover_perm (order.map _)).symm

theorem Recut.trans (left : Recut old middle) (right : Recut middle new) : Recut old new where
  sound := fun sound => right.sound (left.sound sound)
  apart := fun apart => right.apart (left.apart apart)
  cover := right.cover.trans left.cover

theorem Recut.of_cut (rest : List Extent) (cut : Cut extent front back) :
    Recut (extent :: rest) (front :: back :: rest) where
  sound := by
    intro sound other member
    rcases mem_cons.mp member with same | later
    · exact same ▸ cut.frontSound
    · rcases mem_cons.mp later with same | older
      · exact same ▸ cut.backSound
      · exact sound other (mem_cons_of_mem _ older)
  apart := by
    intro apart
    simp only [map_cons] at apart ⊢
    rw [cut.pages] at apart
    exact (apart_split _ _ _ cut.apart).mp apart
  cover := by
    simp only [map_cons, cover_cons, cut.pages, Set.union_assoc]

theorem Recut.cons (extent : Extent) (recut : Recut old new) :
    Recut (extent :: old) (extent :: new) where
  sound := by
    intro sound
    have ⟨first, rest⟩ := forall_mem_cons.mp sound
    exact forall_mem_cons.mpr ⟨first, recut.sound rest⟩
  apart := by
    intro apart
    rw [map_cons, apart_cons] at apart ⊢
    rw [recut.cover]
    exact ⟨apart.1, recut.apart apart.2⟩
  cover := by
    rw [map_cons, map_cons, cover_cons, cover_cons, recut.cover]

theorem Recut.of_glue (rest : List Extent) (cut : Cut extent front back) (sound : extent.Sound) :
    Recut (front :: back :: rest) (extent :: rest) where
  sound := by
    intro older other member
    rcases mem_cons.mp member with same | later
    · exact same ▸ sound
    · exact older other (mem_cons_of_mem _ (mem_cons_of_mem _ later))
  apart := by
    intro apart
    simp only [map_cons] at apart ⊢
    rw [cut.pages]
    exact (apart_split _ _ _ cut.apart).mpr apart
  cover := by
    simp only [map_cons, cover_cons, cut.pages, Set.union_assoc]

theorem Recut.drop_empty (rest : List Extent) (empty : extent.size = 0) :
    Recut (extent :: rest) rest where
  sound := fun sound other member => sound other (mem_cons_of_mem _ member)
  apart := by
    intro apart
    exact ((apart_cons _ _).mp apart).2
  cover := by
    simp [pages, empty]

theorem perm_front (lower upper live : List Extent) (extent : Extent) :
    (lower ++ extent :: upper ++ live).Perm (extent :: (lower ++ upper ++ live)) := by
  simp

theorem perm_back (lower upper live : List Extent) (extent : Extent) :
    (lower ++ upper ++ extent :: live).Perm (extent :: (lower ++ upper ++ live)) :=
  perm_middle

theorem allocate_recut {after} (sound : ∀ extent ∈ st.head, extent.Sound) (positive : 0 < num.toNat)
    (done : st.allocate num satisfies = .ok (ret, after)) :
    (ret = 0 ∧ after = st) ∨ (ret ≠ 0 ∧ ∀ live, Recut (st.head ++ live)
      (after.head ++ ⟨ret, num⟩ :: live)) := by
  obtain ⟨_, ⟨zero, same, _⟩ | ⟨lower, extent, upper, shape, ⟨enough, _⟩, _, atAddr, outcome⟩⟩ :=
    allocate_cases done
  · exact .inl ⟨zero, same⟩
  right
  have extentSound := sound extent (by simp [shape])
  have cut := cut_front extent extentSound num enough
  constructor
  · intro zero
    have offZero := cut.frontSound.offZero positive
    rw [← atAddr, zero] at offZero
    simp at offZero
  intro live
  have taken : Recut (st.head ++ live) (⟨ret, num⟩ :: ⟨extent.addr + num * pageSize, extent.size - num⟩ ::
        (lower ++ upper ++ live)) := by
    rw [shape, atAddr]
    exact (of_perm (perm_front lower upper live extent)).trans (of_cut _ cut)
  rcases outcome with ⟨used, head⟩ | ⟨_, head⟩
  · -- the whole extent went, so the empty remainder leaves the list
    have dropped : Recut (st.head ++ live) (⟨ret, num⟩ :: (lower ++ upper ++ live)) := by
      apply (taken.trans (of_perm (List.Perm.swap _ _ _))).trans
      exact drop_empty _ (by simp [used])
    rw [head]
    exact dropped.trans (of_perm (perm_back lower upper live _).symm)
  · rw [head]
    refine taken.trans (of_perm ?_)
    apply (List.Perm.swap _ _ _).trans
    have outer := perm_front lower upper (⟨ret, num⟩ :: live) ⟨extent.addr + num * pageSize,
        extent.size - num⟩
    exact ((perm_back lower upper live ⟨ret, num⟩).symm.cons _).trans outer.symm

theorem allocateSpecific_recut {after} {start newmem ret} (sound : ∀ extent ∈ st.head, extent.Sound)
    (positive : 0 < num.toNat) (aligned : start.toNat % 4096 = 0)
      (fits : start.toNat + 4096 * num.toNat < 2 ^ 64)
    (done : st.allocateSpecific start num (some newmem) = .ok (ret, after)) :
      (ret = 0 ∧ after = st) ∨ (ret ≠ 0 ∧
    ∀ live, Recut (st.head ++ live) (after.head ++ ⟨ret, num⟩ :: live)) := by
  rcases allocateSpecific_cases st start num newmem with
    ⟨missed, _⟩ | ⟨lower, extent, upper, last, shape, ⟨above, below⟩, granted, outcome⟩
  · rw [missed] at done
    cases done
    exact .inl ⟨rfl, rfl⟩
  rw [granted] at done
  cases done
  right
  have extentSound := sound extent (by simp [shape])
  obtain ⟨_, frontCut, tailCut⟩ := cut_middle extent extentSound start num above below aligned fits
  constructor
  · intro zero
    have offZero := tailCut.frontSound.offZero positive
    rw [zero] at offZero
    simp at offZero
  intro live
  have opened : Recut (st.head ++ live) (extent :: (lower ++ upper ++ live)) := by
    rw [shape]
    exact of_perm (perm_front lower upper live extent)
  have closed (rest : Extent) : (rest :: ⟨start, num⟩ :: (lower ++ upper ++ live)).Perm
        (lower ++ rest :: upper ++ ⟨start, num⟩ :: live) :=
    ((perm_back lower upper live ⟨start, num⟩).symm.cons rest).trans
      (perm_front lower upper (⟨start, num⟩ :: live) rest).symm
  rcases outcome with ⟨atStart, head⟩ | ⟨atEnd, head⟩ | head
  · have enough : num ≤ extent.size := by
      have belowNat : (endOf start num).toNat ≤ extent.endAddr.toNat := below
      rw [endOf_toNat _ _ fits, extentSound.endAddr_toNat, atStart] at belowNat
      show num.toNat ≤ extent.size.toNat
      omega
    have cut := cut_front extent extentSound num enough
    rw [head]
    refine (opened.trans (of_cut _ cut)).trans (of_perm ?_)
    rw [atStart]
    exact (List.Perm.swap _ _ _).trans (closed _)
  · have cut := cut_back extent extentSound start num above aligned fits atEnd
    rw [head]
    exact (opened.trans (of_cut _ cut)).trans (of_perm (closed _))
  · rw [head]
    have split := (opened.trans (of_cut _ frontCut)).trans (of_perm (List.Perm.swap _ _ _))
    refine (split.trans (of_cut _ tailCut)).trans (of_perm ?_)
    apply (List.Perm.swap _ _ _).trans
    apply List.Perm.cons _
    exact (List.Perm.swap _ _ _).trans (closed _)

/-- Giving a live block back never aborts. Unless the scan stops at the extent
right above the block nothing is lost; if it does, as many pages as were given
back drop off the top of that extent. -/
theorem deallocate_live (sound : ledger.Sound) (addr num newmem : Word)
    (member : ⟨addr, num⟩ ∈ ledger.live) :
    ∃ after, ledger.st.deallocate addr num (some newmem) = .ok after ∧
      (ledger.st.mergesBelow addr num = false →
    Recut ledger.extents (after.head ++ ledger.live.erase ⟨addr, num⟩)) ∧
      (ledger.st.mergesBelow addr num = true →
    ∃ lost : Extent, lost.size = num ∧
    Recut ledger.extents (lost :: (after.head ++ ledger.live.erase ⟨addr, num⟩))) := by
  have blockSound : (⟨addr, num⟩ : Extent).Sound := sound.extents _ (mem_append_right _ member)
  have blockSome : 0 < num.toNat := sound.liveSome _ member
  have order : ledger.extents.Perm (⟨addr, num⟩ :: (ledger.st.head ++ ledger.live.erase ⟨addr, num⟩)) :=
    ((perm_cons_erase member).append_left _).trans perm_middle
  have opened := of_perm order
  rcases deallocate_cases ledger.st addr num newmem with
    ⟨apartBelow, after, done, head⟩ | ⟨lower, extent, upper, shape, outcome⟩
  · refine ⟨after, done, ?_, ?_⟩
    · intro _
      rw [head]
      exact opened
    · intro below
      simp [apartBelow] at below
  have extentSound : extent.Sound := sound.extents _ (mem_append_left _ (by simp [shape]))
  have paired : Recut ledger.extents (⟨addr, num⟩ :: extent ::
      (lower ++ upper ++ ledger.live.erase ⟨addr, num⟩)) := by
    refine opened.trans (of_perm (List.Perm.cons _ ?_))
    rw [shape]
    exact perm_front _ _ _ _
  rcases outcome with ⟨below, touch, done⟩ | ⟨notBelow, touch, done⟩ | ⟨same, notEnd, _⟩
  · refine ⟨_, done, ?_, ?_⟩
    · intro apartBelow
      simp [below] at apartBelow
    intro _
    obtain ⟨gluedSound, glued⟩ := glue ⟨addr, num⟩ extent blockSound extentSound touch
    have enough : extent.size ≤ num + extent.size := by
      have blockFits := blockSound.fits
      have extentFits := extentSound.fits
      have touchNat := congrArg BitVec.toNat touch
      rw [endOf_toNat _ _ blockFits] at touchNat
      show extent.size.toNat ≤ (num + extent.size).toNat
      rw [toNat_add, Nat.mod_eq_of_lt (by dsimp only at blockFits; omega)]
      omega
    have cut := cut_front _ gluedSound extent.size enough
    have moved : extent.addr - pageSize * num = addr := by
      rw [← touch, endOf, mul_comm pageSize num]
      exact add_sub_cancel _ _
    have rest : num + extent.size - extent.size = num := add_sub_cancel _ _
    refine ⟨⟨addr + extent.size * pageSize, num + extent.size - extent.size⟩, rest, ?_⟩
    have merged := paired.trans (of_glue _ glued gluedSound)
    apply (merged.trans (of_cut _ cut)).trans
    refine (of_perm (List.Perm.swap _ _ _)).trans (of_perm (List.Perm.cons _ ?_))
    rw [moved]
    exact (perm_front lower upper _ ⟨addr, extent.size⟩).symm
  · refine ⟨_, done, ?_, ?_⟩
    · intro _
      obtain ⟨gluedSound, glued⟩ := glue extent ⟨addr, num⟩ extentSound blockSound touch
      have swapped := paired.trans (of_perm (List.Perm.swap _ _ _))
      refine (swapped.trans (of_glue _ glued gluedSound)).trans (of_perm ?_)
      exact (perm_front lower upper _ ⟨extent.addr, extent.size + num⟩).symm
    · intro below
      simp [notBelow] at below
  · -- an extent that starts at the block and is not empty would overlap it
    exfalso
    have extentSome : 0 < extent.size.toNat := by
      by_contra none
      apply notEnd
      have empty : extent.size = 0 := eq_of_toNat_eq (by simpa using none)
      simp [endAddr, endOf, empty, same]
    have apart := paired.apart sound.apart
    simp only [map_cons, apart_cons, cover_cons, Set.disjoint_union_right] at apart
    have overlap := Set.disjoint_left.mp apart.1.1
    have first : addr.toNat / 4096 ∈ (⟨addr, num⟩ : Extent).pages := by
      simp only [pages, mem_cells]
      omega
    apply overlap first
    simp only [pages, mem_cells, same]
    omega

theorem lost_strict (recut : Recut old (lost :: new)) (apart : Apart (old.map pages))
    (some : 0 < lost.size.toNat) :
    cover (new.map pages) ≠ cover (old.map pages) := by
  intro same
  have split := recut.apart apart
  rw [map_cons, apart_cons] at split
  have page : lost.addr.toNat / 4096 ∈ lost.pages := by
    simp only [pages, mem_cells]
    omega
  apply Set.disjoint_left.mp split.1 page
  rw [same, ← recut.cover, map_cons, cover_cons]
  exact .inl page

theorem Ledger.Sound.of_recut {live} (sound : ledger.Sound)
    (liveSome : ∀ block ∈ live, 0 < block.size.toNat)
    (recut : Recut ledger.extents (st.head ++ live)) : (Ledger.mk st live).Sound where
  extents := recut.sound sound.extents
  liveSome := liveSome
  apart := recut.apart sound.apart

def mergesBelow (ledger : Ledger) : Op → Bool
  | .deallocate addr num _ => ledger.st.mergesBelow addr num
  | _ => false

/-- One admissible operation: it succeeds, leaves the ledger sound, adds no
page, and loses none exactly when it does not merge downwards. -/
theorem step_sound (sound : ledger.Sound) (op : Op) (admissible : Admissible ledger op) :
    ∃ after, step ledger op = .ok after ∧ after.Sound ∧ after.pages ⊆ ledger.pages ∧
      (after.pages = ledger.pages ↔
    mergesBelow ledger op = false) := by
  have headSound : ∀ extent ∈ ledger.st.head, extent.Sound :=
    fun extent member => sound.extents extent (mem_append_left _ member)
  have grown (num ret : Word) (positive : 0 < num.toNat) :
      ∀ block ∈ (⟨ret, num⟩ : Extent) :: ledger.live, 0 < block.size.toNat := by
    intro block member
    rcases mem_cons.mp member with same | older
    · exact same ▸ positive
    · exact sound.liveSome block older
  -- both ways of handing out a block either change nothing or recut the ledger
  have handed (num ret : Word) (st : State) (positive : 0 < num.toNat)
      (outcome : (ret = 0 ∧ st = ledger.st) ∨ (ret ≠ 0 ∧ ∀ live,
        Recut (ledger.st.head ++ live) (st.head ++ ⟨ret, num⟩ :: live))) :
      (Ledger.mk st (if ret = 0 then ledger.live else ⟨ret, num⟩ :: ledger.live)).Sound ∧
      (Ledger.mk st (if ret = 0 then ledger.live else ⟨ret, num⟩ :: ledger.live)).pages =
        ledger.pages := by
    rcases outcome with ⟨zero, same⟩ | ⟨nonzero, recut⟩
    · subst same
      rw [if_pos zero]
      exact ⟨sound, rfl⟩
    · rw [if_neg nonzero]
      exact ⟨sound.of_recut (grown num ret positive) (recut ledger.live), (recut ledger.live).cover⟩
  cases op with
  | allocate num satisfies =>
    have positive : 0 < num.toNat := admissible
    obtain ⟨ret, st, done⟩ := allocate_total ledger.st num satisfies
        (by intro zero; simp [zero] at positive)
    have ⟨after, pages⟩ := handed num ret st positive (allocate_recut headSound positive done)
    refine ⟨_, by rw [step, done]; rfl, after, pages.subset, ?_⟩
    exact ⟨fun _ => rfl, fun _ => pages⟩
  | allocateSpecific start num newmem =>
    obtain ⟨positive, aligned, fits⟩ := admissible
    obtain ⟨ret, st, done⟩ : ∃ ret st, ledger.st.allocateSpecific start num (some newmem) =
        .ok (ret, st) := by
      rcases allocateSpecific_cases ledger.st start num newmem with
        ⟨missed, _⟩ | ⟨_, _, _, after, _, _, granted, _⟩
      · exact ⟨0, ledger.st, missed⟩
      · exact ⟨start, after, granted⟩
    have ⟨after, pages⟩ := handed num ret st positive
        (allocateSpecific_recut headSound positive aligned fits done)
    refine ⟨_, by rw [step, done]; rfl, after, pages.subset, ?_⟩
    exact ⟨fun _ => rfl, fun _ => pages⟩
  | deallocate addr num newmem =>
    obtain ⟨positive, member⟩ := admissible
    obtain ⟨st, done, kept, lost⟩ := deallocate_live sound addr num newmem member
    have remaining : ∀ block ∈ ledger.live.erase ⟨addr, num⟩, 0 < block.size.toNat :=
      fun block left => sound.liveSome block (mem_of_mem_erase left)
    refine ⟨⟨st, ledger.live.erase ⟨addr, num⟩⟩, by rw [step, done]; rfl, ?_⟩
    cases below : ledger.st.mergesBelow addr num with
    | false =>
      have recut := kept below
      refine ⟨sound.of_recut remaining recut, recut.cover.subset, ?_⟩
      exact ⟨fun _ => below, fun _ => recut.cover⟩
    | true =>
      obtain ⟨_, size, recut⟩ := lost below
      have whole := recut.cover
      rw [map_cons, cover_cons] at whole
      refine ⟨⟨?_, remaining, ?_⟩, ?_, ?_⟩
      · intro extent left
        exact recut.sound sound.extents extent (mem_cons_of_mem _ left)
      · exact ((apart_cons _ _).mp (recut.apart sound.apart)).2
      · intro page inside
        show page ∈ cover (ledger.extents.map Extent.pages)
        rw [← whole]
        exact .inr inside
      · simp only [mergesBelow, below, Bool.true_eq_false, iff_false]
        exact lost_strict recut sound.apart (by rw [size]; exact positive)

theorem step_keeps_sound {before after} (sound : before.Sound) (stepped : Step before op after) :
    after.Sound ∧ after.pages ⊆ before.pages ∧
      (after.pages = before.pages ↔ mergesBelow before op = false) := by
  obtain ⟨_, done, outcome⟩ := step_sound sound op stepped.1
  rw [stepped.2] at done
  cases done
  exact outcome

/-- A deallocation adds exactly its block to the free pages if and only if it
does not merge downwards. -/
theorem deallocate_free_iff {before after} {addr newmem} (sound : before.Sound)
    (stepped : Step before (.deallocate addr num newmem) after) :
    after.st.freePages = before.st.freePages ∪ (⟨addr, num⟩ : Extent).pages ↔
    before.st.mergesBelow addr num = false := by
  have ⟨afterSound, _, whole⟩ := step_keeps_sound sound stepped
  have live : after.live = before.live.erase ⟨addr, num⟩ := by
    obtain ⟨_, done, _⟩ := deallocate_live sound addr num newmem stepped.1.2
    have result := stepped.2
    rw [step, done] at result
    cases result
    rfl
  have order := (perm_cons_erase stepped.1.2).map pages
  have blocks : cover (before.live.map pages) = (⟨addr, num⟩ : Extent).pages ∪ cover
      (after.live.map pages) := by
    rw [live, cover_perm order, map_cons, cover_cons]
  have apart := sound.apart
  rw [Ledger.extents, map_append, apart_append] at apart
  have liveApart := (apart_perm order).mp apart.2.1
  rw [map_cons, apart_cons, ← live] at liveApart
  have afterApart := afterSound.apart
  rw [Ledger.extents, map_append, apart_append] at afterApart
  have sides := apart.2.2
  rw [blocks, Set.disjoint_union_right] at sides
  rw [show before.st.mergesBelow addr num = mergesBelow before (.deallocate addr num newmem) from
    rfl, ← whole]
  simp only [Ledger.pages, Ledger.extents, map_append, cover_append]
  rw [blocks, ← Set.union_assoc]
  exact (union_cancel afterApart.2.2 (Set.disjoint_union_left.mpr ⟨sides.2, liveApart.1⟩)).symm

structure Fresh (ledger : Ledger) : Prop where
  noneLive : ledger.live = []
  sound : ∀ extent ∈ ledger.st.head, extent.Sound
  apart : Apart (ledger.st.head.map pages)

theorem Fresh.ledger_sound (fresh : Fresh ledger) : ledger.Sound := by
  refine ⟨?_, ?_, ?_⟩
  · simpa [Ledger.extents, fresh.noneLive] using fresh.sound
  · simp [fresh.noneLive]
  · simpa [Ledger.extents, fresh.noneLive] using fresh.apart

theorem Fresh.pages_eq (fresh : Fresh ledger) : ledger.pages = ledger.st.freePages := by
  simp [Ledger.pages, Ledger.extents, fresh.noneLive, State.freePages]

/-- Along a run the free and the live pages make up the initial page set, and
every deallocation adds exactly its block to the free pages, if and only if no
deallocation of the run merges downwards. -/
theorem loses_no_page_iff {start last : Ledger} {moves : List (Move Ledger Op)}
    (fresh : Fresh start) (run : Run Step start moves last) :
    ((∀ ledger ∈ visited start moves, ledger.pages = start.st.freePages) ∧
      ∀ move ∈ moves, ∀ addr num newmem, move.label = .deallocate addr num newmem →
        move.after.st.freePages =
          move.before.st.freePages ∪ (⟨addr, num⟩ : Extent).pages) ↔
      ∀ move ∈ moves, mergesBelow move.before move.label = false := by
  have ⟨_, steps⟩ := run_invariant Ledger.Sound
    (fun _ _ _ sound stepped => (step_keeps_sound sound stepped).1) run fresh.ledger_sound
  rw [← fresh.pages_eq, observation_constant_iff Ledger.pages run]
  constructor
  · rintro ⟨kept, _⟩ move member
    have ⟨sound, stepped⟩ := steps move member
    exact (step_keeps_sound sound stepped).2.2.mp (kept move member)
  · intro upward
    constructor
    · intro move member
      have ⟨sound, stepped⟩ := steps move member
      exact (step_keeps_sound sound stepped).2.2.mpr (upward move member)
    · intro move member _ _ _ label
      have ⟨sound, stepped⟩ := steps move member
      have notBelow := upward move member
      rw [label] at stepped notBelow
      exact (deallocate_free_iff sound stepped).mpr notBelow

def fourPages : Ledger := ⟨{ State.init "pmm" 0 0 with head := [⟨0x1000, 4⟩] }, []⟩

theorem fourPages_fresh : Fresh fourPages := by
  refine ⟨rfl, ?_, ?_⟩
  · intro extent member
    rw [mem_singleton.mp member]
    exact ⟨by decide, by decide, by decide⟩
  · simp [fourPages, Apart]

/-- The top page taken by address and given back: the scan meets its extent
from below and merges upwards. -/
def topPageMoves : List (Move Ledger Op) :=
  let taken : Ledger := ⟨{ fourPages.st with head := [⟨0x1000, 3⟩] }, [⟨0x4000, 1⟩]⟩
  [⟨fourPages, .allocateSpecific 0x4000 1 0, taken⟩, ⟨taken, .deallocate 0x4000 1 0, fourPages⟩]

theorem topPage_run : Run Step fourPages topPageMoves fourPages := by
  refine .next ⟨⟨by decide, by decide, by decide⟩, rfl⟩ (.next ⟨⟨by decide, ?_⟩, rfl⟩ (.refl _))
  exact mem_singleton.mpr rfl

theorem loses_no_page_top_page : Fresh fourPages ∧ Run Step fourPages topPageMoves fourPages ∧
    ∀ ledger ∈ visited fourPages topPageMoves, ledger.pages = fourPages.st.freePages :=
  ⟨fourPages_fresh, topPage_run, ((loses_no_page_iff fourPages_fresh topPage_run).mpr
    (by decide)).1⟩

/-- The bottom page allocated and given back at once: the remaining extent
moves down over it without growing, and page 4 belongs to nobody. -/
theorem allocate_deallocate_loses_page : ¬ ∀ (start last : Ledger) (moves : List (Move Ledger Op)),
    Fresh start →
    (∀ extent ∈ start.st.head, 0 < extent.size.toNat) → Run Step start moves last →
    ∀ ledger ∈ visited start moves, ledger.pages = start.st.freePages := by
  intro claimed
  let taken : Ledger := ⟨{ fourPages.st with head := [⟨0x2000, 3⟩] }, [⟨0x1000, 1⟩]⟩
  let last : Ledger := ⟨{ fourPages.st with head := [⟨0x1000, 3⟩] }, []⟩
  have run : Run Step fourPages [⟨fourPages, .allocate 1 fun _ _ => true, taken⟩,
      ⟨taken, .deallocate 0x1000 1 0, last⟩]
      last := by
    refine .next ⟨?_, rfl⟩ (.next ⟨⟨by decide, ?_⟩, rfl⟩ (.refl _))
    · show 0 < (1 : Word).toNat
      decide
    · exact mem_singleton.mpr rfl
  have whole := claimed fourPages last _ fourPages_fresh (by decide) run last (run_last_visited run)
  have initially : 4 ∈ fourPages.st.freePages := by
    simp [fourPages, State.freePages, pages]
  rw [← whole] at initially
  simp [last, Ledger.pages, Ledger.extents, pages] at initially

/-- In every state of every run the live blocks are disjoint from each other
and from the extents, they come from the initially free pages, and every
admissible operation, in particular giving a live block back, succeeds. -/
theorem never_double_allocates {start last : Ledger} {moves : List (Move Ledger Op)}
    (fresh : Fresh start) (run : Run Step start moves last) :
    ∀ ledger ∈ visited start moves, Apart (ledger.live.map pages) ∧
      (∀ block ∈ ledger.live, block.pages ⊆ start.st.freePages) ∧ Apart (ledger.st.head.map pages) ∧
      (∀ extent ∈ ledger.st.head, ∀ block ∈ ledger.live, Disjoint extent.pages block.pages) ∧
      (∀ block ∈ ledger.live, ∀ newmem, ∃ after, ledger.st.deallocate block.addr block.size
        (some newmem) = .ok after) ∧
      ∀ op, Admissible ledger op → ∃ after, step ledger op = .ok after := by
  have ⟨states, _⟩ := run_invariant (fun ledger => ledger.Sound ∧ ledger.pages ⊆ start.st.freePages)
    (fun _ _ _ kept stepped =>
      have ⟨sound, fewer, _⟩ := step_keeps_sound kept.1 stepped
      ⟨sound, fewer.trans kept.2⟩) run ⟨fresh.ledger_sound, fresh.pages_eq.subset⟩
  intro ledger reached
  have ⟨sound, inside⟩ := states ledger reached
  have apart := sound.apart
  rw [Ledger.extents, map_append, apart_append] at apart
  refine ⟨apart.2.1, ?_, apart.1, ?_, ?_, ?_⟩
  · intro block member page onBlock
    apply inside
    exact ⟨block.pages, mem_map_of_mem (mem_append_right _ member), onBlock⟩
  · intro extent free block member
    apply apart.2.2.mono
    · exact fun page here => ⟨extent.pages, mem_map_of_mem free, here⟩
    · exact fun _ here => ⟨block.pages, mem_map_of_mem member, here⟩
  · intro block member newmem
    obtain ⟨after, done, _⟩ := deallocate_live sound block.addr block.size newmem member
    exact ⟨after, done⟩
  · intro op admissible
    obtain ⟨after, done, _⟩ := step_sound sound op admissible
    exact ⟨after, done⟩

theorem never_double_allocates_top_page : Fresh fourPages ∧
    Run Step fourPages topPageMoves fourPages ∧
      ∀ ledger ∈ visited fourPages topPageMoves, ∀ extent ∈ ledger.st.head, ∀ block ∈ ledger.live,
          Disjoint extent.pages block.pages :=
  ⟨fourPages_fresh, topPage_run, fun ledger reached =>
    (never_double_allocates fourPages_fresh topPage_run ledger reached).2.2.2.1⟩

end Nx.ExtmmLedger
