import Nx.AvlHeights

/-!
Where a new leaf is after the tree above it was rebalanced: below the node under which it was put,
unless that node or the leaf comes up in a double rotation.
-/

namespace Nx.AvlTrees

open List
open Marked hiding mark

variable {α : Type} {tree part near far leaf : Marked α} {label : α} {mark : Mark} {side : Side}
  {frame parent grand next : Frame α} {way rest : List (Frame α)}

/-- A part of a tree, as many steps below the root. -/
inductive Below (part : Marked α) : Nat → Marked α → Prop where
  | here : Below part 0 part
  | left {steps left label mark right} (below : Below part steps left) :
      Below part (steps + 1) (.node left label mark right)
  | right {steps left label mark right} (below : Below part steps right) :
      Below part (steps + 1) (.node left label mark right)

theorem Below.plug (below : Below part steps tree) : ∃ way, tree = plug way part := by
  induction below with
  | here => exact ⟨[], rfl⟩
  | @left _ _ label mark right _ ih =>
    obtain ⟨way, rfl⟩ := ih
    refine ⟨way ++ [⟨.left, label, mark, right⟩], ?_⟩
    rw [plug_append]
    rfl
  | @right _ left label mark _ _ ih =>
    obtain ⟨way, rfl⟩ := ih
    refine ⟨way ++ [⟨.right, label, mark, left⟩], ?_⟩
    rw [plug_append]
    rfl

theorem isEmpty_toList {tree : Marked α} : tree.toList.isEmpty = true ↔ tree = .nil := by
  cases tree <;> simp [toList]

instance decidableNil (tree : Marked α) : Decidable (tree = .nil) :=
  decidable_of_iff (tree.toList.isEmpty = true) isEmpty_toList

instance decidableAvl : (tree : Marked α) → Decidable (Avl tree)
  | .nil => .isTrue trivial
  | .node left _ _ right =>
    have := decidableAvl left
    have := decidableAvl right
    inferInstanceAs (Decidable (_ ∧ _ ∧ _ ∧ _))

instance decidableNearly : (tree : Marked α) → Decidable (Nearly tree)
  | .nil => .isTrue trivial
  | .node _ _ _ _ => inferInstanceAs (Decidable (_ ∧ _ ∧ _))

/-! One node. -/

theorem Avl.sane (avl : Avl tree) : tree.Sane := by
  induction tree with
  | nil => trivial
  | node left _ _ right ihLeft ihRight =>
    have bound := depth_ge left
    refine ⟨?_, ihLeft avl.2.2.1, ihRight avl.2.2.2⟩
    rw [avl.1]
    omega

/-- The heights on the way to a new leaf with which it does not stay below its parent: it is the
only child, and it is on the inner side of a node without another child, or its parent is on the
inner side of one whose children were leaves. -/
def Moved : List (Frame α) → Prop
  | parent :: grand :: rest => parent.sibling.height = -1 ∧
      (grand.sibling.height = -1 ∧ grand.side ≠ parent.side ∨ grand.sibling.height = 0 ∧
        ∃ next ∈ rest.head?, next.sibling.height = 0 ∧ next.side ≠ grand.side)
  | _ => False

instance decidableMoved : (way : List (Frame α)) → Decidable (Moved way)
  | [] | [_] => .isFalse id
  | _ :: _ :: _ => inferInstanceAs (Decidable (_ ∧ (_ ∨ _)))

section Leaf

variable (avl : Avl leaf) (flat : depth leaf = 0)
include avl flat

omit avl flat

section Higher

variable {low sibling beside : Marked α} {above : α} (avlLow : Avl low) (deep : depth low = 1)
  (avlSibling : Avl sibling) (lone : depth sibling = 0) (avlBeside : Avl beside)
    (short : depth beside = 0)
  (fits : AvlWay rest 2)
include avlLow deep avlSibling lone avlBeside short

include fits

end Higher

variable {low sibling beside : Marked α} {above : α}

end Leaf

end Nx.AvlTrees
