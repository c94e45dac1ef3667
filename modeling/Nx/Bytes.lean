import Mathlib

/-!
A memory of bytes, and areas of it.
-/

namespace Nx.Bytes

open List

abbrev Byte := BitVec 8

abbrev Memory := Nat → Byte

section Contents

variable {memory other : Memory} {start count value address : Nat} {byte : Byte}

def fill (memory : Memory) (start count : Nat) (byte : Byte) : Memory :=
  fun address => if start ≤ address ∧ address < start + count then byte else memory address

def store (memory : Memory) (start value : Nat) : Memory :=
  fun address =>
    if start ≤ address ∧ address < start + 8 then
      BitVec.ofNat 8 (value / 256 ^ (address - start))
    else memory address

def load (memory : Memory) (start : Nat) : Nat :=
  ∑ i ∈ Finset.range 8, (memory (start + i)).toNat * 256 ^ i

def copy (memory : Memory) (target source count : Nat) : Memory :=
  fun address =>
    if target ≤ address ∧ address < target + count then memory (source + (address - target))
    else memory address

theorem fill_outside (outside : address < start ∨ start + count ≤ address) :
    fill memory start count byte address = memory address := by
  apply if_neg
  omega

theorem store_outside (outside : address < start ∨ start + 8 ≤ address) :
    store memory start value address = memory address := by
  apply if_neg
  omega

theorem load_congr (same : ∀ i < 8, memory (start + i) = other (start + i)) :
    load memory start = load other start := by
  apply Finset.sum_congr rfl
  intro i small
  rw [same i (Finset.mem_range.mp small)]

theorem load_store (small : value < 2 ^ 64) : load (store memory start value) start = value := by
  have digit : ∀ i < 8, (store memory start value (start + i)).toNat = value / 256 ^ i % 256 := by
    intro i _
    rw [store, if_pos (by omega), Nat.add_sub_cancel_left, BitVec.toNat_ofNat]
  simp only [load, Finset.sum_range_succ, Finset.sum_range_zero]
  rw [digit 0 (by omega), digit 1 (by omega), digit 2 (by omega), digit 3 (by omega),
    digit 4 (by omega), digit 5 (by omega), digit 6 (by omega), digit 7 (by omega)]
  omega

end Contents

structure Area where
  start : Nat
  size : Nat
  deriving DecidableEq

def Area.Holds (area : Area) (byte : Nat) : Prop :=
  area.start ≤ byte ∧ byte < area.start + area.size
  deriving Decidable

def Area.Apart (left right : Area) : Prop :=
  left.start + left.size ≤ right.start ∨ right.start + right.size ≤ left.start
  deriving Decidable

theorem Area.Apart.not_holds {left right : Area} (apart : left.Apart right)
    (held : left.Holds byte) :
    ¬ right.Holds byte := by
  unfold Area.Apart at apart
  unfold Area.Holds at held ⊢
  omega

def covers (areas : List Area) (byte : Nat) : Nat :=
  areas.countP fun area => decide (area.Holds byte)

def one (area : Area) (byte : Nat) : Nat := if area.Holds byte then 1 else 0

@[simp] theorem covers_cons (area : Area) (rest : List Area) (byte : Nat) :
    covers (area :: rest) byte = covers rest byte + one area byte := by
  simp [covers, countP_cons, one]

theorem covers_perm {left right : List Area} (perm : left.Perm right) (byte : Nat) :
    covers left byte = covers right byte := perm.countP_eq _

theorem covers_append (left right : List Area) (byte : Nat) :
    covers (left ++ right) byte = covers left byte + covers right byte :=
  countP_append

theorem covers_eq_zero_iff (areas : List Area) (byte : Nat) :
    covers areas byte = 0 ↔ ∀ area ∈ areas, ¬ area.Holds byte := by
  simp [covers, countP_eq_zero]

variable {area : Area}

theorem covers_eq_zero_of_apart (clear : ∀ run ∈ areas, Area.Apart area run) (byte : Nat)
    (held : area.Holds byte) :
    covers areas byte = 0 :=
  (covers_eq_zero_iff areas byte).mpr fun run listed => (clear run listed).not_holds held

theorem kept_trans {first second third : Memory}
    (left : ∀ byte, 0 < covers areas byte → second byte = first byte)
    (right : ∀ byte, 0 < covers areas byte → third byte = second byte) :
    ∀ byte, 0 < covers areas byte → third byte = first byte :=
  fun byte inside => (right byte inside).trans (left byte inside)

theorem covers_pos (listed : area ∈ areas) (held : area.Holds byte) : 0 < covers areas byte :=
  countP_pos_iff.mpr ⟨area, listed, by simpa using held⟩

theorem covers_erase (listed : area ∈ areas) (byte : Nat) :
    covers (areas.erase area) byte + one area byte = covers areas byte := by
  rw [covers_perm (perm_cons_erase listed), covers_cons]

theorem one_of_holds (held : area.Holds byte) : one area byte = 1 :=
  if_pos held

theorem apart_of_covers (nonempty : ∀ area ∈ areas, 0 < area.size)
    (single : ∀ byte, covers areas byte ≤ 1) : areas.Pairwise Area.Apart := by
  induction areas with
  | nil => exact List.Pairwise.nil
  | cons first _ ih =>
    have ⟨firstSome, restSome⟩ := forall_mem_cons.mp nonempty
    refine pairwise_cons.mpr ⟨?_, ih restSome fun byte => ?_⟩
    · intro other listed
      have otherSome := restSome other listed
      by_contra overlap
      -- the later of the two starts is a byte of both
      have both : first.Holds (max first.start other.start) ∧
          other.Holds (max first.start other.start) := by
        unfold Area.Apart at overlap
        unfold Area.Holds
        omega
      have once := single (max first.start other.start)
      rw [covers_cons, one_of_holds both.1] at once
      have again := covers_pos listed both.2
      omega
    · have once := single byte
      rw [covers_cons] at once
      omega

end Nx.Bytes
