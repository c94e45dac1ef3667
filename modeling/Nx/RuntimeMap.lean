import Nx.Words

/-!
`setEFIMemoryMap` of efx/source/support/memory.cpp: the descriptors that efx gives to
`SetVirtualAddressMap`.
-/

namespace Nx.RuntimeMap

open Words Function List

inductive MemoryType where
  | reserved | available | acpi | mmio | faulty | nonVolatile | framebuffer | loadedKernel | bootInfo
  | memoryMap | initrd | kernelElf | efiRuntimeCode | efiRuntimeData | availableAfterUnmap
  deriving DecidableEq

structure MemMapEntry where
  address : Word
  numPages : Word
  memoryType : MemoryType
  efiAttributes : Word
  deriving DecidableEq

/-- A type that is none of the two for runtime services is whatever the scratch page held. -/
inductive EfiType where
  | runtimeServicesCode | runtimeServicesData | other (type : BitVec 32)
  deriving DecidableEq

structure Descriptor where
  type : EfiType
  physicalStart : Word
  virtualStart : Word
  numberOfPages : Word
  efiAttribute : Word
  deriving DecidableEq

def efiRuntimeServicesBase : Word := 0xFFFF800000000000

def MemMapEntry.describe (entry : MemMapEntry) (type : EfiType) : Descriptor :=
  ⟨type, entry.address, entry.address + efiRuntimeServicesBase, entry.numPages, entry.efiAttributes⟩

/-- What the loop body stores for an entry, if anything. -/
def stored (entry : MemMapEntry) : Option Descriptor :=
  match entry.memoryType with
  | .efiRuntimeCode => some (entry.describe .runtimeServicesCode)
  | .efiRuntimeData => some (entry.describe .runtimeServicesData)
  | _ => none

/-- The loop, with the page as an array of descriptors and the index `entries` points to. -/
def fill : List MemMapEntry → (Nat → Descriptor) → Nat → (Nat → Descriptor) × Nat
  | [], page, entries => (page, entries)
  | entry :: rest, page, entries =>
    match stored entry with
    | some descriptor => fill rest (update page entries descriptor) (entries + 1)
    | none => fill rest page (entries + 1)

/-- The array given to the firmware: all up to where `entries` points in the end. -/
def setEFIMemoryMap (mmEntries : List MemMapEntry) (scratch : Nat → Descriptor) : List Descriptor :=
  let (page, entries) := fill mmEntries scratch 0
  (range entries).map page

variable {mmEntries : List MemMapEntry} {page : Nat → Descriptor}

theorem fill_count (mmEntries : List MemMapEntry) (page : Nat → Descriptor) (entries : Nat) :
    (fill mmEntries page entries).2 = entries + mmEntries.length := by
  induction mmEntries generalizing page entries with
  | nil => rfl
  | cons _ _ ih =>
    rw [fill, length_cons]
    split <;> rw [ih] <;> omega

theorem fill_before (below : i < entries) : (fill mmEntries page entries).1 i = page i := by
  induction mmEntries generalizing page entries with
  | nil => rfl
  | cons entry _ ih =>
    rw [fill]
    split
    · rw [ih (Nat.lt_succ_of_lt below), update_of_ne below.ne]
    · exact ih (Nat.lt_succ_of_lt below)

/-- Where every entry is stored, none is skipped over. -/
theorem fill_stored (all : ∀ entry ∈ mmEntries, (stored entry).isSome) (entries : Nat) :
    (range mmEntries.length).map (fun i => (fill mmEntries page entries).1 (entries + i)) =
      mmEntries.filterMap stored := by
  induction mmEntries generalizing page entries with
  | nil => rfl
  | cons _ _ ih =>
    obtain ⟨isStored, later⟩ := forall_mem_cons.mp all
    obtain ⟨descriptor, found⟩ := Option.isSome_iff_exists.mp isStored
    have tail := @ih (update page entries descriptor) later (entries + 1)
    simp only [length_cons, range_succ_eq_map, map_cons, map_map, filterMap_cons, fill, found]
    refine congrArg₂ cons ?_ ?_
    · exact (fill_before (Nat.lt_add_one entries)).trans (update_self entries descriptor page)
    · rw [← tail]
      simp [comp_def, Nat.add_comm, Nat.add_left_comm]

/-! What the firmware should be given, entry by entry. -/

def Runtime (entry : MemMapEntry) : Prop :=
  entry.memoryType = .efiRuntimeCode ∨ entry.memoryType = .efiRuntimeData

instance decidableRuntime (entry : MemMapEntry) : Decidable (Runtime entry) :=
  inferInstanceAs (Decidable (_ ∨ _))

structure Describes (entry : MemMapEntry) (descriptor : Descriptor) : Prop where
  physical : descriptor.physicalStart = entry.address
  virtual : descriptor.virtualStart = entry.address + 0xFFFF800000000000
  pages : descriptor.numberOfPages = entry.numPages
  attributes : descriptor.efiAttribute = entry.efiAttributes
  code : entry.memoryType = .efiRuntimeCode → descriptor.type = .runtimeServicesCode
  data : entry.memoryType = .efiRuntimeData → descriptor.type = .runtimeServicesData

theorem stored_isSome_iff (entry : MemMapEntry) : (stored entry).isSome ↔ Runtime entry := by
  cases type : entry.memoryType <;> simp [stored, Runtime, type]

theorem stored_describes (found : stored entry = some descriptor) : Describes entry descriptor := by
  rw [stored] at found
  split at found
  · obtain rfl := Option.some.inj found
    exact ⟨rfl, rfl, rfl, rfl, fun _ => rfl, by simp [*]⟩
  · obtain rfl := Option.some.inj found
    exact ⟨rfl, rfl, rfl, rfl, by simp [*], fun _ => rfl⟩
  · cases found

theorem stored_in_order (mmEntries : List MemMapEntry) :
    Forall₂ Describes (mmEntries.filter (Runtime ·)) (mmEntries.filterMap stored) := by
  induction mmEntries with
  | nil => exact .nil
  | cons entry rest ih =>
    have isStored := stored_isSome_iff entry
    cases found : stored entry with
    | none =>
      have other : ¬ Runtime entry := by simpa [found] using isStored
      rwa [filter_cons_of_neg (by simpa using other), filterMap_cons_none found]
    | some descriptor =>
      have isRuntime : Runtime entry := by simpa [found] using isStored
      rw [filter_cons_of_pos (by simpa using isRuntime), filterMap_cons_some found]
      exact .cons (stored_describes found) ih

/-- The array describes the runtime regions in their order, and nothing else, exactly if the memory
map has no other regions. -/
theorem runtime_only_iff (mmEntries : List MemMapEntry) (scratch : Nat → Descriptor) :
    Forall₂ Describes (mmEntries.filter (Runtime ·)) (setEFIMemoryMap mmEntries scratch) ↔
      ∀ entry ∈ mmEntries, Runtime entry := by
  constructor
  · intro same
    have lengths := same.length_eq
    rw [setEFIMemoryMap, length_map, length_range, fill_count, Nat.zero_add] at lengths
    simpa using length_filter_eq_length_iff.mp lengths
  · intro all
    have filled := @fill_stored mmEntries scratch (fun entry listed =>
      (stored_isSome_iff entry).mpr (all entry listed)) 0
    have same : setEFIMemoryMap mmEntries scratch = mmEntries.filterMap stored := by
      simpa [setEFIMemoryMap, fill_count] using filled
    rw [same]
    exact stored_in_order mmEntries

/-- One free region, and the firmware is given what happens to be in the page. -/
theorem runtime_only_fails :
    setEFIMemoryMap [⟨0x1000, 1, .available, 0⟩] (fun _ => ⟨.other 0, 0, 0, 0, 0⟩) =
      [⟨.other 0, 0, 0, 0, 0⟩] ∧
    [⟨0x1000, 1, .available, 0⟩].filter (fun entry => Runtime entry) = [] := ⟨rfl, by decide⟩

end Nx.RuntimeMap
