import Nx.Words
import Nx.Pieces

/-!
The extent allocator of kernel/include/extmm.h. `State::head` is the list of free extents in link
order. Of the nodes on `freeHead` only their number matters.
-/

namespace Nx.Extmm

open Words Pieces BitVec List

structure Extent where
  addr : Word
  size : Word
  deriving DecidableEq

def Extent.endAddr (extent : Extent) : Word := endOf extent.addr extent.size

structure State where
  owner : String
  head : List Extent
  freeHead : Nat
  extentMemory : List Word
  numExtents : Nat
  bootstrapStart : Word
  bootstrapWatermark : Word
  bootstrapEnd : Word
  deriving DecidableEq

def sizeofExtent : Word := 24

def State.init (owner : String) (base top : Word) : State where
  owner := owner
  head := []
  freeHead := 0
  extentMemory := []
  numExtents := 0
  bootstrapStart := base
  bootstrapWatermark := base
  bootstrapEnd := top

/-- The node that `addExtent` will link in: from the free list, else from the
bootstrap area, else the first of a fresh page cut into nodes. -/
def State.takeNode (st : State) (newmem : Option Word) : Except Abort State :=
  if st.freeHead ≠ 0 then .ok { st with freeHead := st.freeHead - 1 }
  else if st.bootstrapWatermark + sizeofExtent ≤ st.bootstrapEnd then
    .ok { st with bootstrapWatermark := st.bootstrapWatermark + sizeofExtent }
  else match newmem with
    | none => .error .vmmOutOfAddrspace
    | some mem => .ok { st with
        freeHead := (pageSize / sizeofExtent).toNat - 1
        extentMemory := st.extentMemory ++ [mem] }

def State.addExtent (st : State) (addr size : Word) (newmem : Option Word) :
    Except Abort State := do
  let st ← st.takeNode newmem
  pure { st with head := ⟨addr, size⟩ :: st.head, numExtents := st.numExtents + 1 }

/-- First fit, taken from the bottom of the extent. Zero means out of pages. -/
def State.allocate (st : State) (num : Word) (satisfies : Word → Word → Bool) :
    Except Abort (Word × State) :=
  if num = 0 then .error (.extmmZeroPages st.owner)
  else match scan (fun extent => decide (num ≤ extent.size) && satisfies extent.addr num)
    st.head with
    | none => .ok (0, st)
    | some (before, extent, after) =>
      if extent.size - num = 0 then
        .ok (extent.addr, { st with head := before ++ after, freeHead := st.freeHead + 1 })
      else
        .ok (extent.addr, { st with
          head := before ++ ⟨extent.addr + num * pageSize, extent.size - num⟩ :: after })

def State.allocateSpecific (st : State) (start num : Word) (newmem : Option Word) :
    Except Abort (Word × State) :=
  match scan (fun extent => decide (extent.addr ≤ start) &&
      decide (endOf start num ≤ extent.endAddr)) st.head with
  | none => .ok (0, st)
  | some (before, extent, after) =>
    if extent.addr = start then
      .ok (start, { st with
        head := before ++ ⟨extent.addr + num * pageSize, extent.size - num⟩ :: after })
    else if endOf start num = extent.endAddr then
      .ok (start, { st with head := before ++ ⟨extent.addr, extent.size - num⟩ :: after })
    else do
      let numFrontPages := (start - extent.addr) / pageSize
      let numBackPages := (extent.endAddr - endOf start num) / pageSize
      let front : State := { st with head := before ++ ⟨extent.addr, numFrontPages⟩ :: after }
      let st ← front.addExtent (endOf start num) numBackPages newmem
      pure (start, st)

def touches (addr num : Word) (extent : Extent) : Bool :=
  endOf addr num == extent.addr || extent.endAddr == addr || extent.addr == addr

def State.deallocate (st : State) (addr num : Word) (newmem : Option Word) : Except Abort State :=
  match scan (touches addr num) st.head with
  | none => st.addExtent addr num newmem
  | some (before, extent, after) =>
    if endOf addr num = extent.addr then
      .ok { st with head := before ++ ⟨extent.addr - pageSize * num, extent.size⟩ :: after }
    else if extent.endAddr = addr then
      .ok { st with head := before ++ ⟨extent.addr, extent.size + num⟩ :: after }
    else .error (.extmmDoubleFree addr num)

def intersects (a b : Extent) : Bool :=
  (decide (b.addr ≤ a.addr) && decide (a.addr < b.endAddr)) ||
    (decide (a.addr ≤ b.addr) && decide (b.addr < a.endAddr))

def consistent : List Extent → Bool
  | [] => true
  | first :: rest =>
    rest.all (fun second => !intersects first second) && first.size != 0 && consistent rest

def State.checkConsistency (st : State) : Bool := consistent st.head

/-! What an extent stands for: a set of page numbers. -/

structure Extent.Sound (extent : Extent) : Prop where
  aligned : extent.addr.toNat % 4096 = 0
  fits : extent.addr.toNat + 4096 * extent.size.toNat < 2 ^ 64
  offZero : 0 < extent.size.toNat → 0 < extent.addr.toNat

def Extent.pages (extent : Extent) : Set Nat :=
  cells (extent.addr.toNat / 4096) extent.size.toNat

def State.freePages (st : State) : Set Nat := cover (st.head.map Extent.pages)

theorem Extent.Sound.endAddr_toNat {extent : Extent} (sound : extent.Sound) :
    extent.endAddr.toNat = extent.addr.toNat + 4096 * extent.size.toNat :=
  endOf_toNat _ _ sound.fits

theorem Extent.Sound.zero_not_mem {extent : Extent} (sound : extent.Sound) : 0 ∉ extent.pages := by
  intro member
  simp only [Extent.pages, mem_cells] at member
  have aligned := sound.aligned
  have offZero := sound.offZero
  omega

structure Cut (extent front back : Extent) : Prop where
  frontSound : front.Sound
  backSound : back.Sound
  pages : extent.pages = front.pages ∪ back.pages
  apart : Disjoint front.pages back.pages

theorem cut_front (extent : Extent) (sound : extent.Sound) (num : Word)
    (enough : num ≤ extent.size) :
    Cut extent ⟨extent.addr, num⟩ ⟨extent.addr + num * pageSize, extent.size - num⟩ := by
  have aligned := sound.aligned
  have fits := sound.fits
  have enoughNat : num.toNat ≤ extent.size.toNat := enough
  have base : (extent.addr + num * pageSize).toNat = extent.addr.toNat + 4096 * num.toNat :=
    endOf_toNat extent.addr num (by omega)
  have rest : (extent.size - num).toNat = extent.size.toNat - num.toNat := toNat_sub_of_le enough
  have whole : extent.size.toNat = num.toNat + (extent.size.toNat - num.toNat) := by omega
  have start : (extent.addr.toNat + 4096 * num.toNat) / 4096 =
      extent.addr.toNat / 4096 + num.toNat := by
    omega
  have offZero := sound.offZero
  refine ⟨⟨aligned, ?_, ?_⟩, ⟨?_, ?_, ?_⟩, ?_, ?_⟩
  · dsimp only
    omega
  · dsimp only
    omega
  · simp only [base]
    omega
  · simp only [base, rest]
    omega
  · simp only [base, rest]
    omega
  · simp only [Extent.pages, base, rest, start]
    conv_lhs => rw [whole]
    exact cells_split _ _ _
  · simp only [Extent.pages, base, rest, start]
    exact cells_split_disjoint _ _ _

theorem cut_back (extent : Extent) (sound : extent.Sound) (start num : Word)
    (above : extent.addr ≤ start)
    (startAligned : start.toNat % 4096 = 0) (fits : start.toNat + 4096 * num.toNat < 2 ^ 64)
    (ends : endOf start num = extent.endAddr) : Cut extent ⟨extent.addr, extent.size - num⟩
      ⟨start, num⟩ := by
  have aligned := sound.aligned
  have aboveNat : extent.addr.toNat ≤ start.toNat := above
  have endsNat := congrArg BitVec.toNat ends
  rw [endOf_toNat _ _ fits, sound.endAddr_toNat] at endsNat
  have enough : num ≤ extent.size := by
    show num.toNat ≤ extent.size.toNat
    omega
  have rest : (extent.size - num).toNat = extent.size.toNat - num.toNat := toNat_sub_of_le enough
  have shorter : extent.size - num ≤ extent.size := by
    show (extent.size - num).toNat ≤ extent.size.toNat
    omega
  have cut := cut_front extent sound (extent.size - num) shorter
  have sameStart : extent.addr + (extent.size - num) * pageSize = start := by
    apply eq_of_toNat_eq
    have := endOf_toNat extent.addr (extent.size - num) (by rw [rest]; omega)
    rw [endOf] at this
    rw [this, rest]
    omega
  have sameSize : extent.size - (extent.size - num) = num := by
    apply eq_of_toNat_eq
    rw [toNat_sub_of_le shorter, rest]
    omega
  rwa [sameStart, sameSize] at cut

theorem pages_between {low high : Word} (le : low ≤ high) :
    ((high - low) / pageSize).toNat = (high.toNat - low.toNat) / 4096 := by
  rw [toNat_udiv, toNat_sub_of_le le, pageSize_toNat]

theorem cut_middle (extent : Extent) (sound : extent.Sound) (start num : Word)
    (above : extent.addr ≤ start)
    (below : endOf start num ≤ extent.endAddr) (startAligned : start.toNat % 4096 = 0)
    (fits : start.toNat + 4096 * num.toNat < 2 ^ 64) :
    ∃ tail, Cut extent ⟨extent.addr, (start - extent.addr) / pageSize⟩ tail ∧ Cut tail ⟨start, num⟩
    ⟨endOf start num, (extent.endAddr - endOf start num) / pageSize⟩ := by
  have aligned := sound.aligned
  have extentFits := sound.fits
  have aboveNat : extent.addr.toNat ≤ start.toNat := above
  have endNat := endOf_toNat start num fits
  have belowNat : (endOf start num).toNat ≤ extent.endAddr.toNat := below
  rw [endNat, sound.endAddr_toNat] at belowNat
  have front := pages_between above
  have back := pages_between below
  rw [endNat, sound.endAddr_toNat] at back
  have frontFits : (start - extent.addr) / pageSize ≤ extent.size := by
    show ((start - extent.addr) / pageSize).toNat ≤ extent.size.toNat
    omega
  have tailStart : extent.addr + (start - extent.addr) / pageSize * pageSize = start := by
    apply eq_of_toNat_eq
    have := endOf_toNat extent.addr ((start - extent.addr) / pageSize) (by rw [front]; omega)
    rw [endOf] at this
    rw [this, front]
    omega
  have first := cut_front extent sound _ frontFits
  rw [tailStart] at first
  refine ⟨_, first, ?_⟩
  have tailSize : (extent.size - (start - extent.addr) / pageSize).toNat =
      extent.size.toNat - (start.toNat - extent.addr.toNat) / 4096 := by
    rw [toNat_sub_of_le frontFits, front]
  have numFits : num ≤ extent.size - (start - extent.addr) / pageSize := by
    show num.toNat ≤ (extent.size - (start - extent.addr) / pageSize).toNat
    omega
  have second := cut_front _ first.backSound num numFits
  have sameBack : extent.size - (start - extent.addr) / pageSize - num =
      (extent.endAddr - endOf start num) / pageSize := by
    apply eq_of_toNat_eq
    rw [toNat_sub_of_le numFits, tailSize, back]
    omega
  rw [sameBack] at second
  exact second

theorem glue (low high : Extent) (lowSound : low.Sound) (highSound : high.Sound)
    (touch : low.endAddr = high.addr) :
    (⟨low.addr, low.size + high.size⟩ : Extent).Sound ∧
      Cut ⟨low.addr, low.size + high.size⟩ low high := by
  have highFits := highSound.fits
  have touchNat := congrArg BitVec.toNat touch
  rw [lowSound.endAddr_toNat] at touchNat
  have total : (low.size + high.size).toNat = low.size.toNat + high.size.toNat := by
    rw [toNat_add]
    exact Nat.mod_eq_of_lt (by omega)
  have lowZero := lowSound.offZero
  have highZero := highSound.offZero
  have sound : (⟨low.addr, low.size + high.size⟩ : Extent).Sound := by
    refine ⟨lowSound.aligned, ?_, ?_⟩
    · dsimp only
      omega
    · dsimp only
      intro _
      by_contra zero
      have empty : low.size.toNat = 0 := by omega
      omega
  refine ⟨sound, ?_⟩
  have enough : low.size ≤ low.size + high.size := by
    show low.size.toNat ≤ (low.size + high.size).toNat
    omega
  have cut := cut_front _ sound low.size enough
  have upper : low.addr + low.size * pageSize = high.addr := touch
  have rest : low.size + high.size - low.size = high.size := by
    apply eq_of_toNat_eq
    rw [toNat_sub_of_le enough, total]
    omega
  dsimp only at cut
  rwa [upper, rest] at cut

theorem sub_eq_zero_iff {a b : Word} : a - b = 0 ↔ a = b := by
  constructor
  · intro zero
    have := congrArg (· + b) zero
    simpa using this
  · intro same
    simp [same]

def serves (num : Word) (satisfies : Word → Word → Bool) (extent : Extent) : Prop :=
  num ≤ extent.size ∧ satisfies extent.addr num = true

theorem allocate_cases {st after : State} {num ret : Word} {satisfies : Word → Word → Bool}
    (done : st.allocate num satisfies = .ok (ret, after)) : num ≠ 0 ∧
    ((ret = 0 ∧ after = st ∧ ∀ extent ∈ st.head, ¬ serves num satisfies extent) ∨
      ∃ lower extent upper, st.head = lower ++ extent :: upper ∧
        serves num satisfies extent ∧ (∀ other ∈ lower, ¬ serves num satisfies other) ∧
          ret = extent.addr ∧
        ((extent.size = num ∧ after = { st with head := lower ++ upper, freeHead :=
          st.freeHead + 1 }) ∨
          (extent.size ≠ num ∧ after = { st with head :=
              lower ++ ⟨extent.addr + num * pageSize, extent.size - num⟩ :: upper }))) := by
  unfold State.allocate at done
  split at done
  · cases done
  rename_i some
  refine ⟨some, ?_⟩
  split at done
  · rename_i scanned
    cases done
    left
    refine ⟨rfl, rfl, ?_⟩
    intro extent member ⟨enough, pleased⟩
    have refused := (scan_none_iff _ _).mp scanned extent member
    simp [enough, pleased] at refused
  · rename_i lower extent upper scanned
    have ⟨shape, accepted, passed⟩ := scan_some _ _ _ _ _ scanned
    simp only [Bool.and_eq_true, decide_eq_true_eq] at accepted
    right
    refine ⟨lower, extent, upper, shape, accepted, ?_, ?_⟩
    · intro other member ⟨enough, pleased⟩
      have refused := passed other member
      simp [enough, pleased] at refused
    · split at done
      · rename_i used
        cases done
        exact ⟨rfl, .inl ⟨sub_eq_zero_iff.mp used, rfl⟩⟩
      · rename_i left
        cases done
        exact ⟨rfl, .inr ⟨fun same => left (sub_eq_zero_iff.mpr same), rfl⟩⟩

theorem allocate_total (st : State) (num : Word) (satisfies : Word → Word → Bool)
    (some : num ≠ 0) : ∃ ret after, st.allocate num satisfies = .ok (ret, after) := by
  unfold State.allocate
  rw [if_neg some]
  split
  · exact ⟨_, _, rfl⟩
  · split
    · exact ⟨_, _, rfl⟩
    · exact ⟨_, _, rfl⟩

theorem addExtent_some (st : State) (addr size newmem : Word) :
    ∃ after, st.addExtent addr size (some newmem) = .ok after ∧
      after.head = ⟨addr, size⟩ :: st.head := by
  unfold State.addExtent State.takeNode
  split
  · exact ⟨_, rfl, rfl⟩
  · split
    · exact ⟨_, rfl, rfl⟩
    · exact ⟨_, rfl, rfl⟩

def encloses (start num : Word) (extent : Extent) : Prop :=
  extent.addr ≤ start ∧ endOf start num ≤ extent.endAddr

theorem allocateSpecific_cases (st : State) (start num newmem : Word) :
    (st.allocateSpecific start num (some newmem) = .ok (0, st) ∧ ∀ extent ∈ st.head,
      ¬ encloses start num extent) ∨
    ∃ lower extent upper after, st.head = lower ++ extent :: upper ∧ encloses start num extent ∧
      st.allocateSpecific start num (some newmem) = .ok (start, after) ∧
      ((extent.addr = start ∧ after.head = lower ++
        ⟨extent.addr + num * pageSize, extent.size - num⟩ :: upper) ∨
        (endOf start num = extent.endAddr ∧ after.head = lower ++
          ⟨extent.addr, extent.size - num⟩ :: upper) ∨
        after.head = ⟨endOf start num, (extent.endAddr - endOf start num) / pageSize⟩ ::
          (lower ++ ⟨extent.addr, (start - extent.addr) / pageSize⟩ :: upper)) := by
  unfold State.allocateSpecific
  split
  · rename_i scanned
    left
    refine ⟨rfl, ?_⟩
    intro extent member ⟨above, below⟩
    have refused := (scan_none_iff _ _).mp scanned extent member
    simp [above, below] at refused
  · rename_i lower extent upper scanned
    have ⟨shape, accepted, _⟩ := scan_some _ _ _ _ _ scanned
    simp only [Bool.and_eq_true, decide_eq_true_eq] at accepted
    right
    by_cases atStart : extent.addr = start
    · rw [if_pos atStart]
      exact ⟨lower, extent, upper, _, shape, accepted, rfl, .inl ⟨atStart, rfl⟩⟩
    · rw [if_neg atStart]
      by_cases atEnd : endOf start num = extent.endAddr
      · rw [if_pos atEnd]
        exact ⟨lower, extent, upper, _, shape, accepted, rfl, .inr (.inl ⟨atEnd, rfl⟩)⟩
      · rw [if_neg atEnd]
        obtain ⟨after, added, head⟩ := addExtent_some
          { st with head := lower ++ ⟨extent.addr, (start - extent.addr) / pageSize⟩ :: upper }
          (endOf start num) ((extent.endAddr - endOf start num) / pageSize) newmem
        refine ⟨lower, extent, upper, after, shape, accepted, ?_, .inr (.inr head)⟩
        simp only [added]
        rfl

def State.mergesBelow (st : State) (addr num : Word) : Bool :=
  match scan (touches addr num) st.head with
  | none => false
  | some (_, extent, _) => endOf addr num == extent.addr

theorem deallocate_cases (st : State) (addr num newmem : Word) : (st.mergesBelow addr num = false ∧
      ∃ after, st.deallocate addr num (some newmem) = .ok after ∧
        after.head = ⟨addr, num⟩ :: st.head) ∨
    ∃ lower extent upper, st.head = lower ++ extent :: upper ∧
      ((st.mergesBelow addr num = true ∧ endOf addr num = extent.addr ∧
          st.deallocate addr num (some newmem) = .ok { st with
            head := lower ++ ⟨extent.addr - pageSize * num, extent.size⟩ :: upper }) ∨
        (st.mergesBelow addr num = false ∧ extent.endAddr = addr ∧
          st.deallocate addr num (some newmem) = .ok { st with
            head := lower ++ ⟨extent.addr, extent.size + num⟩ :: upper }) ∨
        (extent.addr = addr ∧ extent.endAddr ≠ addr ∧
          st.deallocate addr num (some newmem) = .error (.extmmDoubleFree addr num))) := by
  unfold State.deallocate State.mergesBelow
  cases scanned : scan (touches addr num) st.head with
  | none =>
    left
    exact ⟨rfl, addExtent_some st addr num newmem⟩
  | some found =>
    obtain ⟨lower, extent, upper⟩ := found
    have ⟨shape, accepted, _⟩ := scan_some _ _ _ _ _ scanned
    right
    refine ⟨lower, extent, upper, shape, ?_⟩
    by_cases below : endOf addr num = extent.addr
    · left
      simp [below]
    · right
      by_cases above : extent.endAddr = addr
      · left
        simp [below, above]
      · right
        simp only [touches, Bool.or_eq_true, beq_iff_eq, below, above, false_or] at accepted
        exact ⟨accepted, above, by simp [below, above]⟩

end Nx.Extmm
