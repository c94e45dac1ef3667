import Nx.Extmm

/-!
The bookkeeping of an address space, kernel/source/mm/vmregion.cpp.
-/

namespace Nx.Vmregion

open Words Pieces Function BitVec List

structure VMRegion where
  addr : Word
  numPages : Word
  backingPhysPages : Word → Option Word

open VMRegion

/-- `backingPhysPages` points into the ticket; its id stands for the pointer. -/
structure SharedVMRegion where
  addr : Word
  numPages : Word
  backingPhysPages : Nat
  deriving DecidableEq

abbrev SharedStore := Nat → Word → Option Word

inductive AddressSpaceType where
  | kernel
  | kernelHeap
  | user
  deriving DecidableEq

structure AddressSpace where
  theCR3 : Word
  regions : List VMRegion
  sharedRegions : List SharedVMRegion
  vmmStates : AddressSpaceType → Extmm.State
  allocatedPhysPages : List Word

def VMRegion.endAddr (vmr : VMRegion) : Word := vmr.addr + ofsPages vmr.numPages
def SharedVMRegion.endAddr (svmr : SharedVMRegion) : Word := svmr.addr + ofsPages svmr.numPages

def VMRegion.contains (virt : Word) (vmr : VMRegion) : Bool :=
  decide (vmr.addr ≤ virt) && decide (virt < vmr.endAddr)

def SharedVMRegion.contains (virt : Word) (svmr : SharedVMRegion) : Bool :=
  decide (svmr.addr ≤ virt) && decide (virt < svmr.endAddr)

def SharedVMRegion.pageIdx (svmr : SharedVMRegion) (virt : Word) : Word :=
  (virt - svmr.addr) / pageSize

def VMRegion.growDown (vmr : VMRegion) (count : Word) : VMRegion :=
  { vmr with addr := vmr.addr - ofsPages count, numPages := vmr.numPages + count }

def VMRegion.growUp (vmr : VMRegion) (count : Word) : VMRegion :=
  { vmr with numPages := vmr.numPages + count }

def VMRegion.lookup (vmr : VMRegion) (virt : Word) : Option Word := vmr.backingPhysPages virt

def SharedVMRegion.lookup (svmr : SharedVMRegion) (store : SharedStore) (virt : Word) :
    Option Word :=
  store svmr.backingPhysPages (svmr.pageIdx virt)

def VMRegion.touches (addr num : Word) (vmr : VMRegion) : Bool :=
  endOf addr num == vmr.addr || vmr.endAddr == addr || vmr.addr == addr

def AddressSpace.addRegion (space : AddressSpace) (addr num : Word) : Except Abort AddressSpace :=
  if ¬ isPageAligned addr then .error (.assertFailed "addr.isPageAligned()")
  else match scan (touches addr num) space.regions with
    | none => .ok { space with regions := space.regions ++ [⟨addr, num, fun _ => none⟩] }
    | some (before, vmr, after) =>
      if endOf addr num = vmr.addr then
        .ok { space with regions := before ++ vmr.growDown num :: after }
      else if vmr.endAddr = addr then
        .ok { space with regions := before ++ vmr.growUp num :: after }
      else .error (.vmregionDoubleFree addr num)

/-- Private regions are searched before the shared ones. The previous frame is
returned, zero if there was none. -/
def AddressSpace.addPhysicalMapping (space : AddressSpace) (store : SharedStore)
    (virt phys : Word) : Except Abort (Word × AddressSpace × SharedStore) :=
  match scan (contains virt) space.regions with
  | some (before, vmr, after) =>
    let backing := update vmr.backingPhysPages virt (some phys)
    .ok ((vmr.backingPhysPages virt).getD 0,
      { space with regions := before ++ { vmr with backingPhysPages := backing } :: after },
      store)
  | none =>
    match space.sharedRegions.find? (SharedVMRegion.contains virt) with
    | some svmr =>
      let pages := store svmr.backingPhysPages
      .ok ((pages (svmr.pageIdx virt)).getD 0, space, update store svmr.backingPhysPages
          (update pages (svmr.pageIdx virt) (some phys)))
    | none => .error (.vmregionNoExtent virt)

def AddressSpace.lookupVirtualMapping (space : AddressSpace) (store : SharedStore)
    (addr : Word) : Option Word × Option Word :=
  match space.sharedRegions.find? (SharedVMRegion.contains addr) with
  | some svmr => (some addr, svmr.lookup store addr)
  | none =>
    match space.regions.find? (contains addr) with
    | some vmr => (some addr, vmr.lookup addr)
    | none => (none, none)

def AddressSpace.backing (space : AddressSpace) (store : SharedStore) (virt : Word) : Option Word :=
  match space.regions.find? (contains virt) with
  | some vmr => vmr.lookup virt
  | none =>
    match space.sharedRegions.find? (SharedVMRegion.contains virt) with
    | some svmr => svmr.lookup store virt
    | none => none

variable {space after : AddressSpace} {addr num : Word} {vmr : VMRegion}

/-- Everything `addPhysicalMapping` can do: change the backing of the first
private region around the page, or else the ticket behind the first shared one. -/
theorem addPhysicalMapping_cases (done : space.addPhysicalMapping store virt phys =
    .ok (old, after, storeAfter)) :
    (∃ lower vmr upper, space.regions = lower ++ vmr :: upper ∧ vmr.contains virt = true ∧
      (∀ other ∈ lower, contains virt other = false) ∧ storeAfter = store ∧
      after = { space with regions := lower ++ { vmr with
        backingPhysPages := update vmr.backingPhysPages virt (some phys) } :: upper }) ∨
    ((∀ vmr ∈ space.regions, vmr.contains virt = false) ∧
      ∃ svmr, space.sharedRegions.find? (SharedVMRegion.contains virt) = some svmr ∧ after = space ∧
        storeAfter = update store svmr.backingPhysPages
          (update (store svmr.backingPhysPages) (svmr.pageIdx virt) (some phys))) := by
  unfold AddressSpace.addPhysicalMapping at done
  split at done
  · rename_i lower vmr upper scanned
    have ⟨shape, inside, earlier⟩ := scan_some _ _ _ _ _ scanned
    cases done
    exact .inl ⟨lower, vmr, upper, shape, inside, earlier, rfl, rfl⟩
  · rename_i scanned
    split at done
    · rename_i svmr found
      cases done
      exact .inr ⟨(scan_none_iff _ _).mp scanned, svmr, found, rfl, rfl⟩
    · cases done

theorem find?_rebacked (lower upper : List VMRegion) (vmr : VMRegion) (virt : Word)
    (backing : Word → Option Word)
    (inside : vmr.contains virt = true) (earlier : ∀ other ∈ lower, contains virt other = false) :
      (lower ++
    { vmr with backingPhysPages := backing } :: upper).find? (contains virt) = some
    { vmr with backingPhysPages := backing } := by
  have here : contains virt { vmr with backingPhysPages := backing } = true := inside
  rw [List.find?_append, List.find?_eq_none.mpr (by simpa using earlier), Option.none_or,
    List.find?_cons_of_pos here]

theorem backing_addPhysicalMapping (done : space.addPhysicalMapping store virt phys =
    .ok (old, after, storeAfter)) :
    after.backing storeAfter virt = some phys := by
  rcases addPhysicalMapping_cases done with
    ⟨lower, vmr, upper, _, inside, earlier, _, rfl⟩ | ⟨outside, svmr, found, rfl, rfl⟩
  · simp [AddressSpace.backing, find?_rebacked lower upper vmr virt _ inside earlier,
      VMRegion.lookup]
  · have none : after.regions.find? (contains virt) = none :=
      List.find?_eq_none.mpr (by simpa using outside)
    simp [AddressSpace.backing, none, found, SharedVMRegion.lookup]

/-- Everything `addRegion` can do: append a region, or let the first that touches
the range grow. -/
theorem addRegion_cases (done : space.addRegion addr num = .ok after) :
    after = { space with regions := space.regions ++ [⟨addr, num, fun _ => none⟩] } ∨
    ∃ lower vmr upper grown, space.regions = lower ++ vmr :: upper ∧
    ((endOf addr num = vmr.addr ∧ grown = vmr.growDown num) ∨
      (vmr.endAddr = addr ∧ grown = vmr.growUp num)) ∧
    after = { space with regions := lower ++ grown :: upper } := by
  unfold AddressSpace.addRegion at done
  split at done
  · cases done
  split at done
  · cases done
    exact .inl rfl
  · rename_i lower vmr upper scanned
    have ⟨shape, _, _⟩ := scan_some _ _ _ _ _ scanned
    split at done
    · rename_i below
      cases done
      exact .inr ⟨lower, vmr, upper, _, shape, .inl ⟨below, rfl⟩, rfl⟩
    · split at done
      · rename_i above
        cases done
        exact .inr ⟨lower, vmr, upper, _, shape, .inr ⟨above, rfl⟩, rfl⟩
      · cases done

def VMRegion.Fits (vmr : VMRegion) : Prop := vmr.addr.toNat + 4096 * vmr.numPages.toNat < 2 ^ 64

theorem VMRegion.contains_iff (fits : vmr.Fits) (virt : Word) :
    vmr.contains virt = true ↔ vmr.addr.toNat ≤ virt.toNat ∧
    virt.toNat < vmr.addr.toNat + 4096 * vmr.numPages.toNat := by
  have ends : vmr.endAddr.toNat = vmr.addr.toNat + 4096 * vmr.numPages.toNat :=
    endOf_toNat vmr.addr vmr.numPages fits
  simp only [contains, Bool.and_eq_true, decide_eq_true_eq, le_def, lt_def, ends]

theorem VMRegion.growDown_toNat (fits : vmr.Fits)
    (blockFits : addr.toNat + 4096 * num.toNat < 2 ^ 64) (touches : endOf addr num = vmr.addr) :
    (vmr.growDown num).addr = addr ∧ (vmr.growDown num).numPages.toNat =
      vmr.numPages.toNat + num.toNat := by
  have ends := congrArg BitVec.toNat touches
  rw [endOf_toNat addr num blockFits] at ends
  unfold Fits at fits
  constructor
  · rw [growDown, ← touches, endOf, ofsPages]
    exact add_sub_cancel_right addr (num * pageSize)
  · rw [growDown, toNat_add]
    exact Nat.mod_eq_of_lt (by omega)

theorem VMRegion.growUp_toNat (fits : vmr.Fits) (blockFits : addr.toNat + 4096 * num.toNat < 2 ^ 64)
    (touches : vmr.endAddr = addr) : (vmr.growUp num).numPages.toNat =
      vmr.numPages.toNat + num.toNat ∧
    vmr.addr.toNat + 4096 * vmr.numPages.toNat = addr.toNat := by
  have ends : vmr.endAddr.toNat = vmr.addr.toNat + 4096 * vmr.numPages.toNat :=
    endOf_toNat vmr.addr vmr.numPages fits
  rw [touches] at ends
  refine ⟨?_, ends.symm⟩
  rw [growUp, toNat_add]
  exact Nat.mod_eq_of_lt (by omega)

theorem addRegion_covers {page : Word} (fits : ∀ vmr ∈ space.regions, vmr.Fits)
    (blockFits : addr.toNat + 4096 * num.toNat < 2 ^ 64)
    (done : space.addRegion addr num = .ok after) (above : addr.toNat ≤ page.toNat)
    (below : page.toNat < addr.toNat + 4096 * num.toNat) : ∃ vmr ∈ after.regions,
      vmr.contains page = true := by
  rcases addRegion_cases done with rfl | ⟨_, vmr, _, _, shape, grows, rfl⟩
  · have new : Fits ⟨addr, num, fun _ => none⟩ := blockFits
    exact ⟨_, by simp, (contains_iff new page).mpr ⟨above, below⟩⟩
  · have vmrFits := fits vmr (by simp [shape])
    have bound := vmrFits
    unfold Fits at bound
    rcases grows with ⟨touches, rfl⟩ | ⟨touches, rfl⟩
    · have ⟨addrNow, sizeNow⟩ := growDown_toNat vmrFits blockFits touches
      have ends := congrArg BitVec.toNat touches
      rw [endOf_toNat addr num blockFits] at ends
      have grownFits : (vmr.growDown num).Fits := by
        rw [Fits, addrNow, sizeNow]
        omega
      refine ⟨_, by simp, (contains_iff grownFits page).mpr ?_⟩
      rw [addrNow, sizeNow]
      omega
    · have ⟨sizeNow, start⟩ := growUp_toNat vmrFits blockFits touches
      have addrNow : (vmr.growUp num).addr = vmr.addr := rfl
      have grownFits : (vmr.growUp num).Fits := by
        rw [Fits, addrNow, sizeNow]
        omega
      refine ⟨_, by simp, (contains_iff grownFits page).mpr ?_⟩
      rw [addrNow, sizeNow]
      omega

theorem addRegion_backings (done : space.addRegion addr num = .ok after) :
    after.theCR3 = space.theCR3 ∧
    after.vmmStates = space.vmmStates ∧ after.sharedRegions = space.sharedRegions ∧
    ∀ vmr ∈ after.regions, (∀ virt, vmr.backingPhysPages virt = none) ∨
    ∃ old ∈ space.regions, vmr.backingPhysPages = old.backingPhysPages := by
  rcases addRegion_cases done with rfl | ⟨_, vmr, _, _, shape, grows, rfl⟩
  · refine ⟨rfl, rfl, rfl, ?_⟩
    intro vmr listed
    rcases mem_append.mp listed with old | new
    · exact .inr ⟨vmr, old, rfl⟩
    · cases mem_singleton.mp new
      exact .inl fun _ => rfl
  · refine ⟨rfl, rfl, rfl, ?_⟩
    intro other listed
    rw [shape]
    rcases mem_append.mp listed with low | rest
    · exact .inr ⟨other, by simp [low], rfl⟩
    · rcases mem_cons.mp rest with rfl | up
      · refine .inr ⟨vmr, by simp, ?_⟩
        rcases grows with ⟨_, rfl⟩ | ⟨_, rfl⟩ <;> rfl
      · exact .inr ⟨other, by simp [up], rfl⟩

theorem SharedVMRegion.contains_iff (svmr : SharedVMRegion) (virt : Word)
    (fits : svmr.addr.toNat + 4096 * svmr.numPages.toNat < 2 ^ 64) : svmr.contains virt = true ↔
    svmr.addr.toNat ≤ virt.toNat ∧ virt.toNat < svmr.addr.toNat + 4096 * svmr.numPages.toNat := by
  have ends : svmr.endAddr.toNat = svmr.addr.toNat + 4096 * svmr.numPages.toNat :=
    endOf_toNat svmr.addr svmr.numPages fits
  simp only [SharedVMRegion.contains, Bool.and_eq_true, decide_eq_true_eq, le_def, lt_def, ends]

theorem SharedVMRegion.page_index {svmr : SharedVMRegion}
    (fits : svmr.addr.toNat + 4096 * svmr.numPages.toNat < 2 ^ 64) (below : index < svmr.numPages) :
    svmr.contains (svmr.addr + ofsPages index) = true ∧ svmr.pageIdx (svmr.addr + ofsPages index) =
      index := by
  have belowNat : index.toNat < svmr.numPages.toNat := below
  have page : (svmr.addr + ofsPages index).toNat = svmr.addr.toNat + 4096 * index.toNat :=
    endOf_toNat svmr.addr index (by omega)
  constructor
  · rw [svmr.contains_iff _ fits, page]
    omega
  · apply eq_of_toNat_eq
    rw [SharedVMRegion.pageIdx, toNat_udiv, toNat_sub_of_le, page, pageSize_toNat]
    · omega
    · show svmr.addr.toNat ≤ (svmr.addr + ofsPages index).toNat
      omega

end Nx.Vmregion
