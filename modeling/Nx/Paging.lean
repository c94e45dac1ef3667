import Nx.Words
import Nx.Radix

/-!
Four-level page tables.
-/

namespace Nx.Paging

open Words Radix BitVec Option

abbrev Index := BitVec 9

abbrev Memory := Word → Index → Word

def indexPML4 (addr : Word) : Index := (addr >>> 39 &&& 0x1FF).setWidth 9
def indexPDPT (addr : Word) : Index := (addr >>> 30 &&& 0x1FF).setWidth 9
def indexPageDir (addr : Word) : Index := (addr >>> 21 &&& 0x1FF).setWidth 9
def indexPageTable (addr : Word) : Index := (addr >>> 12 &&& 0x1FF).setWidth 9

def large (entry : Word) : Bool := entry &&& 0x80 != 0

def walk (mem : Memory) (cr3 addr : Word) : Option (Word × Word) :=
  let pml4e := mem (entryFrame cr3) (indexPML4 addr)
  if !present pml4e || large pml4e then none
  else
    let pdpte := mem (entryFrame pml4e) (indexPDPT addr)
    if !present pdpte then none
    else if large pdpte then
      some ((pdpte &&& 0x000FFFFFC0000000) ||| (addr &&& 0x3FFFF000), pdpte)
    else
      let pde := mem (entryFrame pdpte) (indexPageDir addr)
      if !present pde then none
      else if large pde then
        some ((pde &&& 0x000FFFFFFFE00000) ||| (addr &&& 0x1FF000), pde)
      else
        let pte := mem (entryFrame pde) (indexPageTable addr)
        if !present pte then none else some (entryFrame pte, pte)

def higherHalfBase : Word := 0xFFFF000000000000
def pdptSize : Word := 0x8000000000
def pdirSize : Word := 0x40000000
def ptabSize : Word := 0x200000

/-! `RecursiveAddr<p4idx>`. -/

def recursivePml4 (p4idx : Word) : Word :=
  higherHalfBase + p4idx * pdptSize + p4idx * pdirSize + p4idx * ptabSize + p4idx * pageSize
def recursivePdpt (p4idx : Word) : Word :=
  higherHalfBase + p4idx * pdptSize + p4idx * pdirSize + p4idx * ptabSize
def recursivePdir (p4idx : Word) : Word := higherHalfBase + p4idx * pdptSize + p4idx * pdirSize
def recursivePtab (p4idx : Word) : Word := higherHalfBase + p4idx * pdptSize

def getPML4 (recursiveIdx : Index) : Word := recursivePml4 (recursiveIdx.setWidth 64)

def getPDPT (recursiveIdx p4idx : Index) : Word :=
  recursivePdpt (recursiveIdx.setWidth 64) + pageSize * p4idx.setWidth 64

def getPDir (recursiveIdx p4idx p3idx : Index) : Word :=
  recursivePdir (recursiveIdx.setWidth 64) + ptabSize * p4idx.setWidth 64 +
    pageSize * p3idx.setWidth 64

def getPTab (recursiveIdx p4idx p3idx p2idx : Index) : Word :=
  recursivePtab (recursiveIdx.setWidth 64) + pdirSize * p4idx.setWidth 64 +
    ptabSize * p3idx.setWidth 64 + pageSize * p2idx.setWidth 64

theorem index_toNat (addr : Word) (shift : Nat) :
    ((addr >>> shift &&& 0x1FF).setWidth 9 : Index).toNat = addr.toNat / 2 ^ shift % 512 := by
  have masked : (addr >>> shift &&& 0x1FF).toNat = (addr >>> shift).toNat % 512 := by
    simpa using Nat.and_two_pow_sub_one_eq_mod (addr >>> shift).toNat 9
  rw [toNat_setWidth, masked, toNat_ushiftRight, Nat.shiftRight_eq_div_pow]
  omega

variable {addr frame root : Word} {mem : Memory}

theorem indices_of_toNat {p4idx p3idx p2idx p1idx : Index}
    (sum : addr.toNat = 0xFFFF000000000000 + 549755813888 * p4idx.toNat +
      1073741824 * p3idx.toNat + 2097152 * p2idx.toNat + 4096 * p1idx.toNat) :
    indexPML4 addr = p4idx ∧ indexPDPT addr = p3idx ∧ indexPageDir addr = p2idx ∧
      indexPageTable addr = p1idx := by
  refine ⟨?_, ?_, ?_, ?_⟩
  · apply eq_of_toNat_eq
    rw [indexPML4, index_toNat, sum]
    omega
  · apply eq_of_toNat_eq
    rw [indexPDPT, index_toNat, sum]
    omega
  · apply eq_of_toNat_eq
    rw [indexPageDir, index_toNat, sum]
    omega
  · apply eq_of_toNat_eq
    rw [indexPageTable, index_toNat, sum]
    omega

theorem scaled_toNat (index : Index) (size : Word) (small : size.toNat ≤ 549755813888) :
    (size * index.setWidth 64).toNat = size.toNat * index.toNat := by
  have below := index.isLt
  have wide : (index.setWidth 64 : Word).toNat = index.toNat := by
    rw [toNat_setWidth]
    exact Nat.mod_eq_of_lt (by omega)
  have product : size.toNat * index.toNat < 2 ^ 64 := by
    calc size.toNat * index.toNat ≤ 549755813888 * 511 := Nat.mul_le_mul small (by omega)
      _ < 2 ^ 64 := by norm_num
  rw [toNat_mul, wide]
  exact Nat.mod_eq_of_lt product

theorem getPTab_toNat (recursiveIdx p4idx p3idx p2idx : Index) :
    (getPTab recursiveIdx p4idx p3idx p2idx).toNat =
      0xFFFF000000000000 + 549755813888 * recursiveIdx.toNat + 1073741824 * p4idx.toNat +
        2097152 * p3idx.toNat + 4096 * p2idx.toNat := by
  have r := recursiveIdx.isLt
  have p4 := p4idx.isLt
  have p3 := p3idx.isLt
  have p2 := p2idx.isLt
  have base : higherHalfBase.toNat = 18446462598732840960 := by decide
  have first : (pdptSize * recursiveIdx.setWidth 64 : Word).toNat =
      549755813888 * recursiveIdx.toNat := scaled_toNat _ pdptSize (by decide)
  have second : (pdirSize * p4idx.setWidth 64 : Word).toNat = 1073741824 * p4idx.toNat :=
    scaled_toNat _ pdirSize (by decide)
  have third : (ptabSize * p3idx.setWidth 64 : Word).toNat = 2097152 * p3idx.toNat :=
    scaled_toNat _ ptabSize (by decide)
  have fourth : (pageSize * p2idx.setWidth 64 : Word).toNat = 4096 * p2idx.toNat :=
    scaled_toNat _ pageSize (by decide)
  rw [getPTab, recursivePtab, mul_comm _ pdptSize, toNat_add, toNat_add,
    toNat_add, toNat_add, base, first, second, third, fourth]
  omega

/-! Every table address is one of a page table, as seen through slot r. -/

theorem getPML4_eq (recursiveIdx : Index) :
    getPML4 recursiveIdx = getPTab recursiveIdx recursiveIdx recursiveIdx recursiveIdx := by
  simp only [getPML4, getPTab, recursivePml4, recursivePtab, mul_comm]

theorem getPDPT_eq (recursiveIdx p4idx : Index) :
    getPDPT recursiveIdx p4idx = getPTab recursiveIdx recursiveIdx recursiveIdx p4idx := by
  simp only [getPDPT, getPTab, recursivePdpt, recursivePtab, mul_comm]

theorem getPDir_eq (recursiveIdx p4idx p3idx : Index) :
    getPDir recursiveIdx p4idx p3idx = getPTab recursiveIdx recursiveIdx p4idx p3idx := by
  simp only [getPDir, getPTab, recursivePdir, recursivePtab, mul_comm]

/-! Page tables as radix trees: slots 509 and 510 of a root are not part of the
tree, slot 511 is the kernel's and the same for all processes. -/

def link (entry : Word) : Option Word :=
  if present entry && !large entry then some (entryFrame entry) else none

theorem link_some (linked : link entry = some frame) :
    present entry = true ∧ large entry = false ∧ entryFrame entry = frame := by
  unfold link at linked
  split at linked
  · rename_i both
    simp only [Bool.and_eq_true, Bool.not_eq_true'] at both
    exact ⟨both.1, both.2, Option.some.inj linked⟩
  · cases linked

def paging : Shape Word Index Word where
  link := link
  live := fun entry => present entry = true
  zero := 0
  own := fun index => index ≠ 509 ∧ index ≠ 510
  shared := 511
  shared_own := by decide
  depth := 3
  deep := by decide
  live_of_link := fun _ _ linked => (link_some linked).1
  zero_dead := by decide

instance (index : Index) : Decidable (paging.own index) :=
  inferInstanceAs (Decidable (index ≠ 509 ∧ index ≠ 510))

def tablePath (addr : Word) : List Index := [indexPML4 addr, indexPDPT addr, indexPageDir addr]

def entryAt (mem : Memory) (root addr : Word) : Word :=
  paging.lookup mem root (tablePath addr) (indexPageTable addr)

def leafOf (pte : Word) : Option (Word × Word) :=
  if present pte then some (entryFrame pte, pte) else none

theorem walk_of_descend (isFrame : IsFrame root) (down : paging.descend mem root (tablePath addr) =
    some table) :
    walk mem root addr = leafOf (mem table (indexPageTable addr)) := by
  simp only [tablePath, Shape.descend, paging, bind_eq_some_iff] at down
  obtain ⟨_, first, _, second, _, third, same⟩ := down
  cases same
  obtain ⟨firstPresent, firstSmall, firstFrame⟩ := link_some first
  obtain ⟨secondPresent, secondSmall, secondFrame⟩ := link_some second
  obtain ⟨thirdPresent, thirdSmall, thirdFrame⟩ := link_some third
  have atRoot : entryFrame root = root := isFrame
  simp only [walk, atRoot, firstPresent, firstSmall, firstFrame, secondPresent, secondSmall,
    secondFrame, thirdPresent, thirdSmall, thirdFrame, leafOf, Bool.not_true, Bool.or_self,
    Bool.false_eq_true, ↓reduceIte]
  cases present (mem table (indexPageTable addr)) <;> rfl

theorem leafOf_zero : leafOf 0 = none := by decide

theorem walk_eq_leafOf (forest : paging.Forest mem roots) (isRoot : root ∈ roots)
    (isFrame : IsFrame root)
    (own : paging.own (indexPML4 addr)) : walk mem root addr = leafOf (entryAt mem root addr) := by
  have inside : ∀ rest, paging.Inside (indexPML4 addr :: rest) := by
    intro _ _ head
    cases head
    exact own
  cases down : paging.descend mem root (tablePath addr) with
  | some table =>
    rw [walk_of_descend isFrame down]
    simp only [entryAt, Shape.lookup, down]
  | none =>
    have atRoot : entryFrame root = root := isFrame
    have missing : entryAt mem root addr = 0 := by
      simp only [entryAt, Shape.lookup, down]
      rfl
    rw [missing, leafOf_zero]
    -- A table is missing on the way down; there the walk ends as well.
    by_cases firstPresent : present (mem root (indexPML4 addr)) = true
    · obtain ⟨pdpt, first⟩ := forest.linked root isRoot [] _ root (inside [])
          (by decide) rfl firstPresent
      obtain ⟨_, firstSmall, firstFrame⟩ := link_some first
      by_cases secondPresent : present (mem pdpt (indexPDPT addr)) = true
      · have toPdpt : paging.descend mem root [indexPML4 addr] = some pdpt := by
          simp [Shape.descend, first]
        obtain ⟨pdir, second⟩ := forest.linked root isRoot [indexPML4 addr] _ pdpt
          (inside _) (by simp [paging]) toPdpt secondPresent
        obtain ⟨_, secondSmall, secondFrame⟩ := link_some second
        by_cases thirdPresent : present (mem pdir (indexPageDir addr)) = true
        · have toPdir : paging.descend mem root [indexPML4 addr, indexPDPT addr] = some pdir := by
            simp [Shape.descend, first, second]
          obtain ⟨_, third⟩ := forest.linked root isRoot
            [indexPML4 addr, indexPDPT addr] _ pdir (inside _) (by simp [paging]) toPdir
            thirdPresent
          simp [tablePath, Shape.descend, first, second, third] at down
        · simp [walk, atRoot, firstPresent, firstSmall, firstFrame, secondPresent, secondSmall,
            secondFrame, thirdPresent]
      · simp [walk, atRoot, firstPresent, firstSmall, firstFrame, secondPresent]
    · simp [walk, atRoot, firstPresent]

def translate (mem : Memory) (cr3 addr : Word) : Option Word :=
  (walk mem cr3 addr).map Prod.fst

theorem translate_of_descend (isFrame : IsFrame root)
    (down : paging.descend mem root (tablePath addr ++ [indexPageTable addr]) = some frame) :
    translate mem root addr = some frame := by
  rw [descend_append, bind_eq_some_iff] at down
  obtain ⟨_, above, last⟩ := down
  simp only [Shape.descend, bind_eq_some_iff, Option.some.injEq] at last
  obtain ⟨_, linked, rfl⟩ := last
  obtain ⟨isPresent, _, atFrame⟩ := link_some linked
  simp [translate, walk_of_descend isFrame above, leafOf, isPresent, atFrame]

structure Window (mem : Memory) (current : Word) (slot : Index) (root : Word) : Prop where
  opens : link (mem current slot) = some root
  loops : link (mem root slot) = some root

def tableAddr (slot : Index) : List Index → Word
  | [] => getPML4 slot
  | [p4idx] => getPDPT slot p4idx
  | [p4idx, p3idx] => getPDir slot p4idx p3idx
  | p4idx :: p3idx :: p2idx :: _ => getPTab slot p4idx p3idx p2idx

theorem translate_getPTab (isFrame : IsFrame current) (opens : link (mem current slot) = some root)
    (down : paging.descend mem root [p4idx, p3idx, p2idx] = some frame) :
    translate mem current (getPTab slot p4idx p3idx p2idx) = some frame := by
  obtain ⟨first, second, third, fourth⟩ := indices_of_toNat (getPTab_toNat slot p4idx p3idx p2idx)
  apply translate_of_descend isFrame
  simp only [tablePath, first, second, third, fourth, List.cons_append, List.nil_append]
  rw [Shape.descend, show paging.link (mem current slot) = some root from opens]
  exact down

theorem Window.translate_tableAddr (window : Window mem current slot root)
    (isFrame : IsFrame current)
    {path : List Index} (short : path.length ≤ 3)
      (down : paging.descend mem root path = some table) :
    translate mem current (tableAddr slot path) = some table := by
  have around : ∀ rest, paging.descend mem root (slot :: rest) = paging.descend mem root rest := by
    intro _
    rw [Shape.descend, show paging.link (mem root slot) = some root from window.loops]
    rfl
  obtain _ | ⟨_, _ | ⟨_, _ | ⟨_, _ | _⟩⟩⟩ := path
  · rw [tableAddr, getPML4_eq]
    apply translate_getPTab isFrame window.opens
    rwa [around, around, around]
  · rw [tableAddr, getPDPT_eq]
    apply translate_getPTab isFrame window.opens
    rwa [around, around]
  · rw [tableAddr, getPDir_eq]
    apply translate_getPTab isFrame window.opens
    rwa [around]
  · exact translate_getPTab isFrame window.opens down
  · simp only [List.length_cons] at short
    omega

/-! Canonical page addresses are their indices. -/

def Canonical (addr : Word) : Prop := addr.toNat < 2 ^ 47 ∨ 2 ^ 64 - 2 ^ 47 ≤ addr.toNat
  deriving Decidable

theorem page_unique {left right : Word} (leftAligned : left.toNat % 4096 = 0)
    (rightAligned : right.toNat % 4096 = 0)
    (leftCanonical : Canonical left) (rightCanonical : Canonical right)
      (path : tablePath left = tablePath right)
    (last : indexPageTable left = indexPageTable right) : left = right := by
  simp only [tablePath, List.cons.injEq, and_true] at path
  have first := congrArg BitVec.toNat path.1
  have second := congrArg BitVec.toNat path.2.1
  have third := congrArg BitVec.toNat path.2.2
  have fourth := congrArg BitVec.toNat last
  simp only [indexPML4, indexPDPT, indexPageDir, indexPageTable, index_toNat]
    at first second third fourth
  unfold Canonical at leftCanonical rightCanonical
  apply eq_of_toNat_eq
  omega

end Nx.Paging
