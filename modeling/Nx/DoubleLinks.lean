import Nx.Cells

/-!
Doubly linked segments in a memory of cells. A segment is given by its items, each an address with
the value there, and by what comes before and after it.
-/

namespace Nx.DoubleLinks

open Outcomes Cells List

variable {Ptr T β : Type}

structure Node (Ptr T : Type) where
  value : T
  prev : Option Ptr
  next : Option Ptr
  deriving DecidableEq

def first : List (Ptr × T) → Option Ptr → Option Ptr
  | [], after => after
  | item :: _, _ => some item.1

def last : Option Ptr → List (Ptr × T) → Option Ptr
  | before, [] => before
  | _, item :: rest => last (some item.1) rest

def addrs (items : List (Ptr × T)) : List Ptr := items.map Prod.fst

def values (items : List (Ptr × T)) : List T := items.map Prod.snd

def Linked (cells : Ptr → Option (Node Ptr T)) : Option Ptr → List (Ptr × T) → Option Ptr → Prop
  | _, [], _ => True
  | before, item :: rest, after =>
    cells item.1 = some ⟨item.2, before, first rest after⟩ ∧ Linked cells (some item.1) rest after

section Segments

variable {before after : Option Ptr}

@[simp] theorem first_cons : first (item :: xs) after = some item.1 := rfl

@[simp] theorem last_nil : last before ([] : List (Ptr × T)) = before := rfl

@[simp] theorem last_cons : last before (item :: xs) = last (some item.1) xs := rfl

@[simp] theorem first_append : first (xs ++ ys) after = first xs (first ys after) := by
  cases xs <;> rfl

@[simp] theorem last_append : last before (xs ++ ys) = last (last before xs) ys := by
  induction xs generalizing before with
  | nil => rfl
  | cons _ _ ih => exact ih

@[simp] theorem addrs_nil : addrs ([] : List (Ptr × T)) = [] := rfl

@[simp] theorem addrs_cons : addrs (item :: xs) = item.1 :: addrs xs := rfl

@[simp] theorem addrs_append : addrs (xs ++ ys) = addrs xs ++ addrs ys := map_append

@[simp] theorem values_nil : values ([] : List (Ptr × T)) = [] := rfl

@[simp] theorem values_cons : values (item :: xs) = item.2 :: values xs := rfl

@[simp] theorem values_append : values (xs ++ ys) = values xs ++ values ys := map_append

@[simp] theorem values_length : (values xs).length = xs.length := length_map _

@[simp] theorem linked_nil : Linked cells before [] after := trivial

@[simp] theorem linked_cons : Linked cells before (item :: xs) after ↔
    cells item.1 = some ⟨item.2, before, first xs after⟩ ∧ Linked cells (some item.1) xs after :=
  Iff.rfl

theorem linked_append : Linked cells before (xs ++ ys) after ↔
    Linked cells before xs (first ys after) ∧ Linked cells (last before xs) ys after := by
  induction xs generalizing before with
  | nil => simp
  | cons _ _ ih => simp [ih, and_assoc]

theorem linked_congr (same : ∀ addr ∈ addrs items, other addr = cells addr)
    (linked : Linked cells before items after) : Linked other before items after := by
  induction items generalizing before with
  | nil => trivial
  | cons item _ ih =>
    refine ⟨?_, ih (fun addr member => same addr (mem_cons_of_mem _ member)) linked.2⟩
    rw [same item.1 mem_cons_self]
    exact linked.1

theorem linked_within {mem relinked : Memory Ptr (Node Ptr T)}
    (linked : Linked mem.cells before items after)
    (within : Within changed mem relinked) (apart : ∀ addr ∈ addrs items, ¬ changed addr) :
    Linked relinked.cells before items after :=
  linked_congr (fun addr member => within.cells addr (apart addr member)) linked

theorem last_mem (before : Option Ptr) (nonempty : xs ≠ []) :
    ∃ item ∈ xs, last before xs = some item.1 := by
  induction xs generalizing before with
  | nil => exact absurd rfl nonempty
  | cons item rest ih =>
    cases rest with
    | nil => exact ⟨item, mem_cons_self, rfl⟩
    | cons =>
      obtain ⟨found, member, same⟩ := ih (some item.1) (cons_ne_nil _ _)
      exact ⟨found, mem_cons_of_mem _ member, same⟩

theorem linked_split (linked : Linked cells before (xs ++ item :: ys) after) :
    cells item.1 = some ⟨item.2, last before xs, first ys after⟩ := (linked_append.mp linked).2.1

theorem linked_live (linked : Linked cells before items after) (member : addr ∈ addrs items) :
    ∃ node, cells addr = some node := by
  obtain ⟨_, listed, rfl⟩ := mem_map.mp member
  obtain ⟨_, _, rfl⟩ := append_of_mem listed
  exact ⟨_, linked_split linked⟩

variable [DecidableEq Ptr] {mem : Memory Ptr (Node Ptr T)} {following : Option Ptr}
variable {next : PUnit → Program (Memory Ptr (Node Ptr T)) Fault β}

theorem ends_setNext (linked : Linked mem.cells none xs after) (nodup : (addrs xs).Nodup)
    (rest : ∀ relinked : Memory Ptr (Node Ptr T), Linked relinked.cells none xs following →
    Within (· ∈ addrs xs) mem relinked → Ends (next ⟨⟩) relinked done failed) :
    Ends (modifyIf (last none xs) ({ · with next := following }) >>= next) mem done failed := by
  rcases eq_nil_or_concat xs with rfl | ⟨front, item, rfl⟩
  · exact ends_bind (ends_pure _ (rest mem trivial (within_refl _ _)))
  · rw [concat_eq_append] at *
    have there := linked_split linked
    rw [addrs_append] at nodup
    have apart : ∀ addr ∈ addrs front, addr ≠ item.1 := by
      intro addr member same
      exact (nodup_append'.mp nodup).2.2 member (by simp [same])
    rw [last_append]
    refine ends_modify there (rest _ ?_ ⟨?_, le_refl _⟩)
    · refine linked_append.mpr ⟨?_, put_self, trivial⟩
      exact linked_congr (fun addr member => put_other (apart addr member))
        (linked_append.mp linked).1
    · intro _ outside
      apply put_other
      rintro rfl
      exact outside (by simp)

theorem ends_setPrev (linked : Linked mem.cells before xs none) (nodup : (addrs xs).Nodup)
    (rest : ∀ relinked : Memory Ptr (Node Ptr T), Linked relinked.cells preceding xs none →
    Within (· ∈ addrs xs) mem relinked → Ends (next ⟨⟩) relinked done failed) :
    Ends (modifyIf (first xs none) ({ · with prev := preceding }) >>= next) mem done failed := by
  cases xs with
  | nil => exact ends_bind (ends_pure _ (rest mem trivial (within_refl _ _)))
  | cons =>
    refine ends_modify linked.1 (rest _ ⟨put_self, ?_⟩ ⟨?_, le_refl _⟩)
    · refine linked_congr (fun _ member => put_other ?_) linked.2
      rintro rfl
      exact (nodup_cons.mp nodup).1 member
    · intro _ outside
      apply put_other
      rintro rfl
      exact outside (by simp)

end Segments

end Nx.DoubleLinks
