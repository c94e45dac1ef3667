import Mathlib

/-!
Machine words, page arithmetic and the ways the kernel gives up, from kernel/include/defs.h.
-/

namespace Nx.Words

open BitVec hiding and_assoc and_self

abbrev Word := BitVec 64

def pageSize : Word := 0x1000

def pagePresent : Word := 0x1
def pageWrite : Word := 0x2
def pageUser : Word := 0x4
def pageCopyOnWrite : Word := 0x200
def pageNx : Word := 0x8000000000000000

/-- `PAGE_ALIGN` looks at bit 62 to decide whether bit 63 belongs to the
address; an entry of a low frame therefore loses its NX bit here. -/
def pageAlign (addr : Word) : Word :=
  if addr &&& 0x4000000000000000 ≠ 0 then addr &&& 0xFFFFFFFFFFFFF000
  else addr &&& 0x7FFFFFFFFFFFF000

def isPageAligned (addr : Word) : Bool := addr == (addr &&& ~~~ 0xFFF)

def ofsPages (pages : Word) : Word := pages * pageSize

/-- The bits 12 to 51 of a page-table entry, in which the hardware finds the
physical frame; a frame is named by its address. -/
def entryFrame (entry : Word) : Word := entry &&& 0x000FFFFFFFFFF000

def flagMask : Word := 0x8000000000000FFF

def present (entry : Word) : Bool := entry &&& pagePresent != 0

def endOf (base num : Word) : Word := base + num * pageSize

inductive Level where
  | pdpt
  | pdir
  | ptab
  | page
  deriving DecidableEq

/-- The reasons for `abort` and for a failed `assert`; none of them returns. -/
inductive Abort where
  | assertFailed (invariant : String)
  | extmmZeroPages (owner : String)
  | extmmDoubleFree (addr num : Word)
  | mutexDeadlock
  | vmmOutOfAddrspace
  | vmmNotInAddrspace (addr : Word)
  | vmregionDuplicateRegion
  | vmregionNoExtent (virt : Word)
  | vmregionDoubleFree (addr num : Word)
  | vmregionDoubleAdd (addr phys num numPages : Word)
  | vmregionNoExtentFor (addr num : Word)
  | mapReservedSlot
  | mapHighUser
  | mapNxTable (virt : Word) (table : Level) (phys : Word)
  | mapAlreadyMapped (virt phys : Word)
  | unmapReservedSlot
  | unmapNotMapped (virt : Word) (missing : Level)
  | getPhysNotMapped (virt : Word) (missing : Level)
  | unmappedAccess (page : Word)
  | eraseOutOfRange (idx size : Nat)
  | eraseTooMany (num idx left : Nat)
  deriving DecidableEq

@[simp] theorem pageSize_toNat : pageSize.toNat = 4096 := rfl

theorem toNat_pos {word : Word} (nonzero : word ≠ 0) : 0 < word.toNat :=
  Nat.pos_of_ne_zero fun zero => nonzero (eq_of_toNat_eq zero)

theorem low_bits_clear_iff (addr : Word) : addr &&& 0xFFF = 0 ↔ addr.toNat % 4096 = 0 := by
  have masked : (addr &&& 0xFFF).toNat = addr.toNat % 4096 := by
    simpa using Nat.and_two_pow_sub_one_eq_mod addr.toNat 12
  rw [← toNat_inj, masked]
  rfl

theorem isPageAligned_iff (addr : Word) : isPageAligned addr = true ↔ addr.toNat % 4096 = 0 := by
  rw [isPageAligned, beq_iff_eq, ← low_bits_clear_iff]
  constructor
  · intro same
    rw [same, BitVec.and_assoc, show (~~~ 0xFFF &&& 0xFFF : Word) = 0 from by decide]
    exact and_zero
  · intro low
    have whole : addr = addr &&& (0xFFF ||| ~~~ 0xFFF) := by
      rw [show (0xFFF ||| ~~~ 0xFFF : Word) = allOnes 64 from by decide]
      exact and_allOnes.symm
    rw [and_or_distrib_left, low] at whole
    simpa using whole

theorem mul_pageSize_toNat (num : Word) (fits : 4096 * num.toNat < 2 ^ 64) :
    (num * pageSize).toNat = 4096 * num.toNat := by
  rw [toNat_mul, pageSize_toNat, Nat.mul_comm]
  exact Nat.mod_eq_of_lt fits

theorem endOf_toNat (base num : Word) (fits : base.toNat + 4096 * num.toNat < 2 ^ 64) :
    (endOf base num).toNat = base.toNat + 4096 * num.toNat := by
  rw [endOf, toNat_add, mul_pageSize_toNat num (by omega)]
  exact Nat.mod_eq_of_lt fits

theorem within_mono {word small large : Word} (within : word &&& small = word)
    (mono : small &&& large = small) : word &&& large = word := by
  rw [← within, BitVec.and_assoc, mono]

theorem and_within (word mask : Word) : word &&& mask &&& mask = word &&& mask := by
  rw [BitVec.and_assoc, BitVec.and_self]

def IsFrame (phys : Word) : Prop := entryFrame phys = phys

theorem isFrame_iff (phys : Word) : IsFrame phys ↔ phys.toNat % 4096 = 0 ∧ phys.toNat < 2 ^ 52 := by
  have low : phys &&& 0xFFFFFFFFFFFFF = phys ↔ phys.toNat < 2 ^ 52 := by
    have masked : (phys &&& 0xFFFFFFFFFFFFF).toNat = phys.toNat % 2 ^ 52 := by
      simpa using Nat.and_two_pow_sub_one_eq_mod phys.toNat 52
    rw [← toNat_inj, masked]
    omega
  have high : phys &&& ~~~ 0xFFF = phys ↔ phys.toNat % 4096 = 0 := by
    rw [← isPageAligned_iff, isPageAligned, beq_iff_eq]
    exact eq_comm
  have both : (0x000FFFFFFFFFF000 : Word) = 0xFFFFFFFFFFFFF &&& ~~~ 0xFFF := by decide
  rw [← low, ← high, IsFrame, entryFrame]
  constructor
  · intro same
    exact ⟨within_mono same (by decide), within_mono same (by decide)⟩
  · rintro ⟨aligned, small⟩
    rw [both, ← BitVec.and_assoc, small, aligned]

theorem IsFrame.and_eq_zero (frame : IsFrame phys) (apart : 0x000FFFFFFFFFF000 &&& mask = 0#64) :
    phys &&& mask = 0#64 := by
  rw [← frame, entryFrame, BitVec.and_assoc, apart]
  exact and_zero

theorem flags_and_eq_zero (within : flags &&& flagMask = flags) (apart : flagMask &&& mask = 0#64) :
    flags &&& mask = 0#64 := by
  rw [← within, BitVec.and_assoc, apart]
  exact and_zero

theorem entryFrame_or (frame : IsFrame phys) (within : flags &&& flagMask = flags) :
    entryFrame (phys ||| flags) = phys := by
  rw [entryFrame, and_or_distrib_right, flags_and_eq_zero within (by decide), or_zero]
  exact frame

theorem pageAlign_or (frame : IsFrame phys) (within : flags &&& flagMask = flags) :
    pageAlign (phys ||| flags) = phys := by
  have high : (phys ||| flags) &&& 0x4000000000000000 = 0 := by
    rw [and_or_distrib_right, frame.and_eq_zero (by decide), flags_and_eq_zero within (by decide)]
    rfl
  rw [pageAlign, if_neg (by simpa using high), and_or_distrib_right, flags_and_eq_zero within
    (by decide), or_zero]
  exact within_mono frame (by decide)

theorem pageAlign_aligned (addr : Word) : (pageAlign addr).toNat % 4096 = 0 := by
  rw [← low_bits_clear_iff, pageAlign]
  split
  · rw [BitVec.and_assoc, show (0xFFFFFFFFFFFFF000 &&& 0xFFF : Word) = 0 from by decide]
    exact and_zero
  · rw [BitVec.and_assoc, show (0x7FFFFFFFFFFFF000 &&& 0xFFF : Word) = 0 from by decide]
    exact and_zero

theorem or_and_flags (frame : IsFrame phys) (apart : 0x000FFFFFFFFFF000 &&& mask = 0#64) :
    (phys ||| flags) &&& mask = flags &&& mask := by
  rw [and_or_distrib_right, frame.and_eq_zero apart, zero_or]

theorem present_or (frame : IsFrame phys) : present (phys ||| flags) = present flags := by
  rw [present, present, or_and_flags frame (by decide)]

theorem present_and (absent : present entry = false) (mask : Word) :
    present (entry &&& mask) = false := by
  simp only [present, bne_eq_false_iff_eq] at absent ⊢
  rw [BitVec.and_assoc, and_comm mask, ← BitVec.and_assoc, absent]
  exact zero_and

theorem present_masked (entry : Word) : present (entry &&& flagMask) = present entry := by
  rw [present, BitVec.and_assoc, show flagMask &&& pagePresent = pagePresent from by decide]
  rfl

theorem or_and_absorb (flags mask : Word) : (flags ||| mask) &&& mask = mask := by
  apply eq_of_getLsbD_eq
  intro i _
  rw [getLsbD_and, getLsbD_or]
  cases mask.getLsbD i <;> simp

theorem without_pageWrite (flags : Word) : flags &&& ~~~ pageWrite &&& pageWrite = 0 := by
  rw [BitVec.and_assoc, show ~~~ pageWrite &&& pageWrite = 0#64 from by decide]
  exact BitVec.and_zero

theorem present_marked (flags : Word) : present (flags ||| pagePresent) = true := by
  rw [present, or_and_absorb]
  decide

end Nx.Words
