import Nx.Allocations
import Nx.SpecificRanges

/-!
The allocator of the user addresses of a process: what it gives lies in the user space and was free.
-/

namespace Nx.UserSpaces

open Words Pieces Paging Physical Extmm Vmregion Machine Virtmap Outcomes PageTables Mapping
  Evolution Vmm Function
  FaultEffects Allocations SpecificRanges ExtmmLedger

def userState (world : World) : State := (world.procs world.current).vmmStates .user

/-- The allocator of the user addresses is in order, and nobody holds its lock. -/
structure UserSpace (world : World) : Prop where
  unheld : world.held ≠ some (world.current, .user)
  sound : ∀ extent ∈ (userState world).head, extent.Sound
  apart : Apart ((userState world).head.map Extent.pages)
  range : ∀ page ∈ (userState world).freePages, 0x400 ≤ page ∧ page < 0x7FFFFFFF8

structure UserRange (virt : Word) (num : Nat) : Prop where
  aligned : virt.toNat % 4096 = 0
  above : 0x400000 ≤ virt.toNat
  below : virt.toNat + 4096 * num ≤ 0x7FFFFFFF8000

variable {virt num : Word} {st : State}

theorem UserRange.page {num i : Nat} (user : UserRange virt num) (inside : i < num) :
    UserPage (pageAt virt i) := by
  have aligned := user.aligned
  have above := user.above
  have below := user.below
  have at_ := pageAt_toNat virt (show 4096 * i < 2 ^ 64 by omega)
  rw [Nat.mod_eq_of_lt (by omega)] at at_
  constructor
  · omega
  · omega
  · omega

theorem UserRange.span {num : Nat} (user : UserRange virt num) : Span virt num where
  aligned := user.aligned
  canonical := by
    intro i inside
    left
    have below := (user.page inside).below
    omega
  own := fun i inside => (user.page inside).own

theorem UserRange.short {num : Nat} (user : UserRange virt num) : 4096 * num ≤ 2 ^ 52 := by
  have below := user.below
  omega

theorem UserRange.user {flags : Word} {num : Nat} (user : UserRange virt num) :
    ∀ i < num, 255 < indexPML4 (pageAt virt i) → flags &&& pageUser = 0 := by
  intro i inside high
  have low := (user.page inside).low
  have highNat : 255 < (indexPML4 (pageAt virt i)).toNat := high
  omega

section Calls

variable {roots : Set Word} {world : World}

def FreeRange (st : State) (virt : Word) (num : Nat) : Prop :=
  ∀ i < num, virt.toNat / 4096 + i ∈ st.freePages

theorem UserSpace.recut (space : UserSpace world) (positive : 0 < num.toNat)
    (allocated : (userState world).allocate num (fun _ _ => true) = .ok (virt, st))
      (nonzero : virt ≠ 0) :
    Recut (userState world).head (st.head ++ [⟨virt, num⟩]) := by
  rcases allocate_recut space.sound positive allocated with ⟨zero, _⟩ | ⟨_, recut⟩
  · exact absurd zero nonzero
  · simpa using recut []

theorem UserSpace.allocates (space : UserSpace world) (some : num ≠ 0)
    (allocated : (userState world).allocate num (fun _ _ => true) = .ok (virt, st))
      (nonzero : virt ≠ 0) :
    UserRange virt num.toNat ∧ FreeRange (userState world) virt num.toNat := by
  have positive := toNat_pos some
  have recut := space.recut positive allocated nonzero
  have sound := recut.sound space.sound ⟨virt, num⟩ (by simp)
  have free : FreeRange (userState world) virt num.toNat := by
    intro i inside
    rw [State.freePages, ← recut.cover]
    refine ⟨(⟨virt, num⟩ : Extent).pages, by simp, ?_⟩
    rw [Extent.pages, mem_cells]
    exact ⟨Nat.le_add_right _ _, Nat.add_lt_add_left inside _⟩
  refine ⟨?_, free⟩
  have first := space.range _ (free 0 positive)
  have last := space.range _ (free (num.toNat - 1) (by omega))
  have aligned : virt.toNat % 4096 = 0 := sound.aligned
  exact ⟨aligned, by omega, by omega⟩

theorem UserSpace.taken (space : UserSpace world) (after : World) (some : num ≠ 0)
    (allocated : (userState world).allocate num (fun _ _ => true) = .ok (virt, st))
      (nonzero : virt ≠ 0)
    (held : after.held = world.held) (current : after.current = world.current)
      (left : userState after = st) :
    UserSpace after ∧ (userState after).freePages ⊆ (userState world).freePages ∧
    virt.toNat / 4096 ∉ (userState after).freePages := by
  have positive := toNat_pos some
  have recut := space.recut positive allocated nonzero
  have sound := recut.sound space.sound
  have apart := recut.apart space.apart
  have cover := recut.cover
  rw [List.map_append, apart_append] at apart
  rw [List.map_append, cover_append] at cover
  rw [left]
  have fewer : st.freePages ⊆ (userState world).freePages := by
    rw [State.freePages, State.freePages, ← cover]
    exact Set.subset_union_left
  refine ⟨⟨?_, ?_, ?_, ?_⟩, fewer, ?_⟩
  · rw [held, current]
    exact space.unheld
  · rw [left]
    exact fun extent member => sound extent (List.mem_append_left _ member)
  · rw [left]
    exact apart.1
  · rw [left]
    exact fun page free => space.range page (fewer free)
  · intro free
    refine Set.disjoint_left.mp apart.2.2 free ⟨(⟨virt, num⟩ : Extent).pages, by simp, ?_⟩
    rw [Extent.pages, mem_cells]
    exact ⟨le_rfl, Nat.lt_add_of_pos_right positive⟩

end Calls

/-! The number of pages of a request. -/

theorem mmapPages_toNat {length : Word} (fits : length.toNat + 4095 < 2 ^ 64) :
    (mmapPages length).toNat = (length.toNat + 4095) / 4096 := by
  have sum : (length + pageSize - 1).toNat = length.toNat + 4095 := by
    have size : pageSize.toNat = 4096 := rfl
    have one : (1 : Word).toNat = 1 := rfl
    rw [BitVec.toNat_sub, BitVec.toNat_add, size, one]
    omega
  rw [mmapPages, BitVec.toNat_udiv, sum]
  rfl

theorem mmapPages_ne_zero {length : Word} (fits : length.toNat + 4095 < 2 ^ 64)
    (nonempty : length ≠ 0) :
    mmapPages length ≠ 0 := by
  intro zero
  have pages := mmapPages_toNat fits
  have positive : length.toNat ≠ 0 := fun zero => nonempty (BitVec.eq_of_toNat_eq zero)
  have none : (mmapPages length).toNat = 0 := congrArg BitVec.toNat zero
  omega

theorem youngWorld_userSpace (current : Nat) : UserSpace (youngWorld 0 current) := by
  have single : (userState (youngWorld 0 current)).head = [⟨0x400000, 16⟩] := rfl
  refine ⟨nofun, ?_, ?_, ?_⟩
  · rw [single]
    rintro _ (_ | ⟨_, ⟨⟩⟩)
    exact ⟨by decide, by decide, by decide⟩
  · rw [single]
    exact List.pairwise_singleton _ _
  · intro _ free
    rw [State.freePages, single] at free
    simp [Extent.pages] at free
    omega

theorem youngWorld_absent (user : UserRange virt num.toNat) (inside : i < num.toNat) :
    present (entryAt (youngWorld 0 1).mem (youngWorld 0 1).cr3 (pageAt virt i)) = false := by
  rw [youngWorld_unmapped (youngWorld_tables 0 1).current (user.span.own i inside)]
  decide

end Nx.UserSpaces
