import Mathlib

/-!
Amounts that are spread over the members of a type of any size, all but finitely
many of whom hold nothing.
-/

namespace Nx.Shares

variable {Holder : Type} [DecidableEq Holder]

def Total (share : Holder → Nat) (total : Nat) : Prop :=
  ∃ holders : Finset Holder, (∀ holder ∉ holders, share holder = 0) ∧ ∑ holder ∈ holders,
    share holder = total

omit [DecidableEq Holder] in
theorem total_zero : Total (fun _ : Holder => 0) 0 := ⟨∅, by simp, by simp⟩

theorem Total.holder (held : Total before total) (holder : Holder) :
    ∃ holders : Finset Holder, holder ∉ holders ∧
    (∀ other ∉ holders, other ≠ holder → before other = 0) ∧
    before holder + ∑ other ∈ holders, before other = total := by
  obtain ⟨holders, rest, sum⟩ := held
  refine ⟨holders.erase holder, Finset.notMem_erase holder holders, ?_, ?_⟩
  · intro _ outside different
    apply rest
    intro inside
    exact outside (Finset.mem_erase.mpr ⟨different, inside⟩)
  · by_cases inside : holder ∈ holders
    · rw [Finset.add_sum_erase holders before inside, sum]
    · rw [rest holder inside, Finset.erase_eq_of_notMem inside, zero_add, sum]

theorem Total.le (held : Total before total) (holder : Holder) : before holder ≤ total := by
  obtain ⟨_, _, _, _⟩ := held.holder holder
  omega

theorem Total.add_le (held : Total before total) {holder other : Holder}
    (different : other ≠ holder) :
    before holder + before other ≤ total := by
  obtain ⟨holders, _, rest, _⟩ := held.holder holder
  by_cases inside : other ∈ holders
  · have share := Finset.single_le_sum (fun _ _ => Nat.zero_le _) inside (f := before)
    omega
  · have nothing := rest other inside different
    omega

omit [DecidableEq Holder] in
theorem Total.eq_zero (held : Total before total) (nothing : ∀ holder, before holder = 0) :
    total = 0 := by
  obtain ⟨_, _, sum⟩ := held
  rw [← sum]
  exact Finset.sum_eq_zero fun holder _ => nothing holder

theorem Total.change (held : Total before total) (holder : Holder)
    (others : ∀ other ≠ holder, after other = before other)
    (balance : now + before holder = total + after holder) : Total after now := by
  obtain ⟨holders, absent, rest, _⟩ := held.holder holder
  refine ⟨insert holder holders, ?_, ?_⟩
  · intro other outside
    have ⟨different, notIn⟩ : other ≠ holder ∧ other ∉ holders := by
      simpa [not_or] using outside
    rw [others other different, rest other notIn different]
  · have same : ∑ other ∈ holders, after other = ∑ other ∈ holders, before other := by
      apply Finset.sum_congr rfl
      intro other inside
      exact others other fun equal => absent (equal ▸ inside)
    rw [Finset.sum_insert absent, same]
    omega

end Nx.Shares
