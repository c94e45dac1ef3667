import Mathlib

/-!
Lists of pairwise disjoint pieces of a space, and the first-match scan that picks one element of a
list out of its surroundings.
-/

namespace Nx.Pieces

universe u

section Scan

variable {α : Type u}

/-- The first element that `hit` accepts, with what stands before and after. -/
def scan (hit : α → Bool) : List α → Option (List α × α × List α)
  | [] => none
  | first :: rest =>
    if hit first then some ([], first, rest)
    else (scan hit rest).map fun found => (first :: found.1, found.2.1, found.2.2)

theorem scan_none_iff (hit : α → Bool) (items : List α) :
    scan hit items = none ↔ ∀ item ∈ items, hit item = false := by
  induction items with
  | nil => simp [scan]
  | cons first _ ih =>
    by_cases accepted : hit first = true
    · simp [scan, accepted]
    · simp [scan, accepted, ih]

theorem scan_some (hit : α → Bool) (items before after : List α) (found : α)
    (scanned : scan hit items = some (before, found, after)) :
    items = before ++ found :: after ∧ hit found = true ∧ ∀ item ∈ before, hit item = false := by
  induction items generalizing before with
  | nil => simp [scan] at scanned
  | cons first _ ih =>
    by_cases accepted : hit first = true
    · simp only [scan, accepted, ↓reduceIte, Option.some.injEq, Prod.mk.injEq] at scanned
      rcases scanned with ⟨rfl, rfl, rfl⟩
      simp [accepted]
    · simp only [scan, accepted, Bool.false_eq_true, ↓reduceIte, Option.map_eq_some_iff] at scanned
      rcases scanned with ⟨⟨older, same, later⟩, tail, equal⟩
      simp only [Prod.mk.injEq] at equal
      rcases equal with ⟨rfl, rfl, rfl⟩
      have ⟨shape, hitSame, passed⟩ := ih older tail
      refine ⟨by simp [shape], hitSame, ?_⟩
      intro item member
      rcases List.mem_cons.mp member with same | later
      · simpa [same] using accepted
      · exact passed item later

end Scan

variable {α : Type u}

def cover (pieces : List (Set α)) : Set α := {x | ∃ piece ∈ pieces, x ∈ piece}

def Apart (pieces : List (Set α)) : Prop := pieces.Pairwise Disjoint

@[simp] theorem cover_nil : cover ([] : List (Set α)) = ∅ := by
  ext x
  simp [cover]

@[simp] theorem cover_cons (piece : Set α) (rest : List (Set α)) :
    cover (piece :: rest) = piece ∪ cover rest := by
  ext x
  simp [cover]

@[simp] theorem cover_append (left right : List (Set α)) :
    cover (left ++ right) = cover left ∪ cover right := by
  induction left with
  | nil => simp
  | cons _ _ ih => simp [ih, Set.union_assoc]

theorem cover_perm {left right : List (Set α)} (order : left.Perm right) :
    cover left = cover right := by
  ext x
  simp [cover, order.mem_iff]

theorem disjoint_cover_iff (piece : Set α) (rest : List (Set α)) :
    Disjoint piece (cover rest) ↔ ∀ other ∈ rest, Disjoint piece other := by
  induction rest with
  | nil => simp
  | cons _ _ ih => simp [ih]

theorem apart_cons (piece : Set α) (rest : List (Set α)) :
    Apart (piece :: rest) ↔ Disjoint piece (cover rest) ∧ Apart rest := by
  rw [Apart, List.pairwise_cons, disjoint_cover_iff, Apart]

theorem apart_perm {left right : List (Set α)} (order : left.Perm right) :
    Apart left ↔ Apart right :=
  order.pairwise_iff fun touching => touching.symm

theorem apart_append (left right : List (Set α)) :
    Apart (left ++ right) ↔ Apart left ∧ Apart right ∧
    Disjoint (cover left) (cover right) := by
  induction left with
  | nil => simp [Apart]
  | cons piece _ ih =>
    rw [List.cons_append, apart_cons, apart_cons, ih, cover_append, cover_cons]
    simp only [Set.disjoint_union_right, Set.disjoint_union_left]
    tauto

/-- Cutting one piece in two disjoint parts keeps the pieces apart, and gluing
the parts together again does too. -/
theorem apart_split (left right : Set α) (rest : List (Set α)) (cut : Disjoint left right) :
    Apart ((left ∪ right) :: rest) ↔ Apart (left :: right :: rest) := by
  rw [apart_cons, apart_cons, apart_cons, cover_cons]
  simp only [Set.disjoint_union_right, Set.disjoint_union_left]
  tauto

theorem union_cancel {left right common : Set α} (leftApart : Disjoint left common)
    (rightApart : Disjoint right common) : left ∪ common = right ∪ common ↔ left = right := by
  constructor
  · intro same
    rw [← sdiff_eq_left.mpr leftApart, ← Set.union_sdiff_right, same, Set.union_sdiff_right,
      sdiff_eq_left.mpr rightApart]
  · intro same
    rw [same]

def cells (start len : Nat) : Set Nat := Set.Ico start (start + len)

@[simp] theorem mem_cells (start len cell : Nat) :
    cell ∈ cells start len ↔ start ≤ cell ∧ cell < start + len := Iff.rfl

theorem cells_split (start left right : Nat) :
    cells start (left + right) = cells start left ∪ cells (start + left) right := by
  ext cell
  simp only [mem_cells, Set.mem_union]
  omega

theorem cells_split_disjoint (start left right : Nat) :
    Disjoint (cells start left) (cells (start + left) right) := by
  rw [Set.disjoint_left]
  intro _ low high
  simp only [mem_cells] at low high
  omega

@[simp] theorem cells_zero (start : Nat) : cells start 0 = ∅ := by
  ext cell
  simp

end Nx.Pieces
