import Mathlib

/-!
`strstr` of libs/libkrt/source/cstuff/strstuff.cpp and libs/libc/source/string/strstr.cpp, which are
the same.
-/

namespace Nx.CStrings

open List

/-- What stands before the terminator. -/
structure Str where
  chars : List (BitVec 8)
  noNul : 0 ∉ chars

/-- Nothing past the terminator. -/
def Str.read (s : Str) (i : Nat) : Option (BitVec 8) := (s.chars ++ [0])[i]?

/-- `(int) s2len` -/
def int (len : Nat) : Int := Int.bmod len (2 ^ 32)

/-- The inner loop with this many rounds left, and whether it returns `s1`. -/
def returns (s2 : Str) (x : BitVec 8) : Nat → Nat → Option Bool
  | 0, _ => some false
  | left + 1, i => do
    let y ← s2.read i
    if y = 0 then some true else if y = x then returns s2 x left (i + 1) else some false

def strstrFrom (s2 : Str) : List (BitVec 8) → Nat → Option (Option Nat)
  | [], _ => some none
  | x :: s1, at_ => do
    if ← returns s2 x (int s2.chars.length).toNat 0 then some (some at_) else strstrFrom s2 s1 (at_ + 1)

def strstr (s1 s2 : Str) : Option (Option Nat) := strstrFrom s2 s1.chars 0

def Occurs (n h : Str) (i : Nat) : Prop := i ≤ h.chars.length ∧ n.chars <+: h.chars.drop i

def First (n h : Str) : Option Nat → Prop
  | some i => Occurs n h i ∧ ∀ j < i, ¬ Occurs n h j
  | none => ∀ i, ¬ Occurs n h i

theorem returns_false {left i : Nat} (s2 : Str) (x : BitVec 8)
    (within : left + i ≤ s2.chars.length) :
    returns s2 x left i = some false := by
  induction left generalizing i with
  | zero => rfl
  | succ _ ih =>
    have inside : i < s2.chars.length := by omega
    have read : s2.read i = some s2.chars[i] := by
      rw [Str.read, getElem?_append_left inside, getElem?_eq_getElem inside]
    -- the loop ends before it comes to the terminator, where alone it would return `s1`
    have notNul : s2.chars[i] ≠ 0 := fun nul => s2.noNul (nul ▸ getElem_mem inside)
    rw [returns, read, Option.bind_eq_bind, Option.bind_some, if_neg notNul, ih (by omega),
      ite_self]

/-- The character of the needle is only compared while it is none: nothing is ever found. -/
theorem strstrFrom_none (s2 : Str) (s1 : List (BitVec 8)) (at_ : Nat) :
    strstrFrom s2 s1 at_ = some none := by
  have short : (int s2.chars.length).toNat + 0 ≤ s2.chars.length := by
    unfold int Int.bmod
    dsimp only
    split <;> omega
  induction s1 generalizing at_ with
  | nil => rfl
  | cons x _ ih =>
    rw [strstrFrom, returns_false s2 x short]
    exact ih (at_ + 1)

theorem strstr_first_iff (h n : Str) : (∃ found, strstr h n = some found ∧ First n h found) ↔ ∀ i,
    ¬ Occurs n h i := by
  constructor
  · rintro ⟨found, ran, first⟩
    obtain rfl : none = found := Option.some.inj ((strstrFrom_none n h.chars 0).symm.trans ran)
    exact first
  · exact fun absent => ⟨none, strstrFrom_none n h.chars 0, absent⟩

/-- "a" is not found in "a". -/
theorem strstr_misses : ∃ s : Str, Occurs s s 0 ∧ strstr s s = some none :=
  ⟨⟨[0x61], by decide⟩, ⟨by decide, by decide⟩, by decide⟩

end Nx.CStrings
