import Mathlib

/-!
Binary trees whose nodes remember the heights below them, and how such a tree is rebalanced from one
node up to the root.
-/

namespace Nx.AvlTrees

open List
variable {α : Type} {label : α}

inductive Side where
  | left
  | right
  deriving DecidableEq

def Side.other : Side → Side
  | .left => .right
  | .right => .left

@[simp] theorem other_other (side : Side) : side.other.other = side := by cases side <;> rfl

/-- What a node remembers: its own height, and the height on its right less that
on its left. -/
structure Mark where
  height : Int
  balance : Int
  deriving DecidableEq

inductive Marked (α : Type) where
  | nil
  | node (left : Marked α) (label : α) (mark : Mark) (right : Marked α)
  deriving DecidableEq

open Marked

namespace Marked

def height : Marked α → Int
  | nil => -1
  | node _ _ mark _ => mark.height

def child : Side → Marked α → Marked α
  | _, nil => nil
  | .left, node left _ _ _ => left
  | .right, node _ _ _ right => right

def setChild : Side → Marked α → Marked α → Marked α
  | _, nil, _ => nil
  | .left, node _ label mark right, new => node new label mark right
  | .right, node left label mark _, new => node left label mark new

@[simp] def toList : Marked α → List α
  | nil => []
  | node left label _ right => left.toList ++ label :: right.toList

def branch : Side → Marked α → α → Mark → Marked α → Marked α
  | .left, near, label, mark, far => node near label mark far
  | .right, near, label, mark, far => node far label mark near

def mark (left right : Marked α) :
    Mark := ⟨1 + max left.height right.height, right.height - left.height⟩

@[simp] theorem balance_mark (left right : Marked α) :
    (mark left right).balance = right.height - left.height := rfl

def make (left : Marked α) (label : α) (right : Marked α) :
    Marked α := node left label (mark left right) right

def build : Side → Marked α → α → Marked α → Marked α
  | .left, near, label, far => make near label far
  | .right, near, label, far => make far label near

def buildMark : Side → Marked α → Marked α → Mark
  | .left, near, far => mark near far
  | .right, near, far => mark far near

/-- The child on the other side goes up, and the root goes down on this side. -/
def rotate : Side → Marked α → Marked α
  | .left, node left label _ (node middle up _ right) => make (make left label middle) up right
  | .right, node (node left up _ middle) label _ right => make left up (make middle label right)
  | _, tree => tree

def straighten (side : Side) (tree : Marked α) : Marked α :=
  if ((tree.child side).child side.other).height ≤ ((tree.child side).child side).height then
    rotate side.other tree
  else rotate side.other (tree.setChild side (rotate side (tree.child side)))

def rebalance : Marked α → Marked α
  | nil => nil
  | node left label _ right =>
    if right.height - left.height = -2 then straighten .left (make left label right)
    else if right.height - left.height = 2 then straighten .right (make left label right)
    else make left label right

def Sane : Marked α → Prop
  | nil => True
  | node left _ mark right => 0 ≤ mark.height ∧ left.Sane ∧ right.Sane

end Marked

/-- A node on the way from the root, with the tree on the side that was not taken. -/
structure Frame (α : Type) where
  side : Side
  label : α
  mark : Mark
  sibling : Marked α
  deriving DecidableEq

def Frame.plug (frame : Frame α) (tree : Marked α) : Marked α :=
  .branch frame.side tree frame.label frame.mark frame.sibling

def plug : List (Frame α) → Marked α → Marked α
  | [], tree => tree
  | frame :: rest, tree => plug rest (frame.plug tree)

def climb : List (Frame α) → Marked α → Marked α
  | [], tree => tree.rebalance
  | frame :: rest, tree => climb rest (frame.plug tree.rebalance)

namespace Frame

def before (frame : Frame α) : List α :=
  match frame.side with
  | .left => []
  | .right => frame.sibling.toList ++ [frame.label]

def after (frame : Frame α) : List α :=
  match frame.side with
  | .left => frame.label :: frame.sibling.toList
  | .right => []

def Sane (frame : Frame α) : Prop := 0 ≤ frame.mark.height ∧ frame.sibling.Sane

end Frame

@[simp] def before : List (Frame α) → List α
  | [] => []
  | frame :: rest => before rest ++ frame.before

@[simp] def after : List (Frame α) → List α
  | [] => []
  | frame :: rest => frame.after ++ after rest

section Shapes

variable {side : Side} {near far middle tree : Marked α} {up : α} {mark mark' : Mark}

@[simp] theorem child_branch : (branch side near label mark far).child side = near := by
  cases side <;> rfl

@[simp] theorem child_other_branch : (branch side near label mark far).child side.other = far := by
  cases side <;> rfl

@[simp] theorem branch_other : branch side.other near label mark far =
    branch side far label mark near := by
  cases side <;> rfl

@[simp] theorem setChild_branch (new : Marked α) :
    (branch side near label mark far).setChild side new = branch side new label mark far := by
  cases side <;> rfl

theorem node_ne_nil : node left label mark right ≠ .nil := nofun

theorem branch_ne_nil : branch side near label mark far ≠ .nil := by
  cases side <;> nofun

theorem build_eq : build side near label far = branch side near label (buildMark side near far)
    far := by
  cases side <;> rfl

theorem eq_branch (side : Side) (isNode : tree ≠ .nil) :
    ∃ near label mark far, tree = branch side near label mark far := by
  cases tree with
  | nil => exact absurd rfl isNode
  | node left label mark right =>
    cases side with
    | left => exact ⟨left, label, mark, right, rfl⟩
    | right => exact ⟨right, label, mark, left, rfl⟩

theorem rotate_branch :
    (branch side near label mark (branch side middle up mark' far)).rotate side =
      build side (build side near label middle) up far := by
  cases side <;> rfl

end Shapes

/-! The labels. -/

section Labels

variable {near far tree : Marked α} {mark : Mark}

theorem length_branch :
    (branch side near label mark far).toList.length =
      near.toList.length + far.toList.length + 1 := by
  cases side with
  | left | right =>
    rw [branch, toList, length_append, length_cons]
    omega

theorem toList_make (left right : Marked α) (label : α) :
    (make left label right).toList = left.toList ++ label :: right.toList := rfl

theorem toList_rotate (side : Side) (tree : Marked α) :
    (tree.rotate side).toList = tree.toList := by
  unfold Marked.rotate
  split
  · simp [toList_make]
  · simp [toList_make]
  · rfl

theorem toList_setChild (side : Side) {tree new : Marked α}
    (same : new.toList = (tree.child side).toList) : (tree.setChild side new).toList =
      tree.toList := by
  cases tree with
  | nil => cases side <;> rfl
  | node left label _ right =>
    cases side with
    | left => exact congrArg (· ++ label :: right.toList) same
    | right => exact congrArg (left.toList ++ label :: ·) same

theorem toList_straighten (side : Side) (tree : Marked α) :
    (tree.straighten side).toList = tree.toList := by
  unfold straighten
  split
  · exact toList_rotate side.other tree
  · rw [toList_rotate]
    exact toList_setChild side (toList_rotate side _)

theorem toList_rebalance (tree : Marked α) : tree.rebalance.toList = tree.toList := by
  cases tree with
  | nil => rfl
  | node =>
    rw [rebalance]
    split
    · exact toList_straighten .left _
    · split
      · exact toList_straighten .right _
      · rfl

theorem rebalance_ne_nil (isNode : tree ≠ .nil) : tree.rebalance ≠ .nil := by
  intro isNil
  have same := toList_rebalance tree
  rw [isNil] at same
  cases tree with
  | nil => exact isNode rfl
  | node => simp at same

theorem toList_framePlug (frame : Frame α) (tree : Marked α) :
    (frame.plug tree).toList = frame.before ++ tree.toList ++ frame.after := by
  obtain ⟨side, _, _, _⟩ := frame
  cases side with
  | left => rfl
  | right => simp [Frame.plug, branch, Frame.before, Frame.after]

theorem toList_plug (way : List (Frame α)) (tree : Marked α) :
    (plug way tree).toList = before way ++ tree.toList ++ after way := by
  induction way generalizing tree with
  | nil => simp [plug]
  | cons _ _ ih =>
    rw [plug, ih, toList_framePlug, before, after]
    simp only [append_assoc]

theorem toList_climb (way : List (Frame α)) (tree : Marked α) :
    (climb way tree).toList = before way ++ tree.toList ++ after way := by
  induction way generalizing tree with
  | nil => simp [climb, toList_rebalance]
  | cons _ _ ih =>
    rw [climb, ih, toList_framePlug, toList_rebalance, before, after]
    simp only [append_assoc]

theorem plug_append (lower upper : List (Frame α)) (tree : Marked α) :
    plug (lower ++ upper) tree = plug upper (plug lower tree) := by
  induction lower generalizing tree with
  | nil => rfl
  | cons frame _ ih => exact ih (frame.plug tree)

theorem before_append (lower upper : List (Frame α)) :
    before (lower ++ upper) = before upper ++ before lower := by
  induction lower with
  | nil => simp
  | cons _ _ ih => rw [cons_append, before, before, ih, append_assoc]

theorem after_append (lower upper : List (Frame α)) :
    after (lower ++ upper) = after lower ++ after upper := by
  induction lower with
  | nil => rfl
  | cons _ _ ih => rw [cons_append, after, after, ih, append_assoc]

theorem length_way (way : List (Frame α)) :
    way.length ≤ (before way).length + (after way).length := by
  induction way with
  | nil => exact Nat.zero_le _
  | cons frame =>
    have own : 1 ≤ frame.before.length + frame.after.length := by
      unfold Frame.before Frame.after
      split <;> simp
    rw [before, after, length_append, length_append, length_cons]
    omega

theorem before_leftmost {way : List (Frame α)} (sides : ∀ frame ∈ way, frame.side = .left) :
    before way = [] := by
  induction way with
  | nil => rfl
  | cons _ _ ih =>
    obtain ⟨here, later⟩ := forall_mem_cons.mp sides
    rw [before, ih later, Frame.before, here]
    rfl

theorem exists_way {tree : Marked α} (split : tree.toList = front ++ label :: back) :
    ∃ way left mark right, plug way (.node left label mark right) = tree ∧ front = before way ++
      left.toList ∧
    back = right.toList ++ after way := by
  induction tree generalizing front back with
  | nil => simp at split
  | node left own mark right ihLeft ihRight =>
    -- the label is the root, or the way goes on in the child that has it
    have here (isLabel : own = label) (isFront : front = left.toList)
        (isBack : back = right.toList) :
        ∃ way lower below upper, plug way (.node lower label below upper) =
          .node left own mark right ∧
          front = before way ++ lower.toList ∧ back = upper.toList ++ after way :=
      ⟨[], left, mark, right, by rw [isLabel]; rfl, isFront, by simp [isBack]⟩
    rcases append_eq_append_iff.mp split with ⟨middle, isFront, rest⟩ | ⟨middle, isLeft, rest⟩
    · cases middle with
      | nil =>
        obtain ⟨same, isBack⟩ := List.cons.inj rest
        exact here same (by simpa using isFront) isBack.symm
      | cons first others =>
        obtain ⟨rfl, isRight⟩ := List.cons.inj rest
        obtain ⟨way, lower, below, upper, whole, isBefore, isAfter⟩ := ihRight isRight
        refine ⟨way ++ [⟨.right, own, mark, left⟩], lower, below, upper, ?_, ?_, ?_⟩
        · rw [plug_append, whole]
          rfl
        · rw [isFront, isBefore, before_append]
          simp [Frame.before]
        · rw [isAfter, after_append]
          simp [Frame.after]
    · cases middle with
      | nil =>
        obtain ⟨same, isBack⟩ := List.cons.inj rest
        exact here same.symm (by simpa using isLeft.symm) isBack
      | cons =>
        obtain ⟨rfl, isBack⟩ := List.cons.inj rest
        obtain ⟨way, lower, below, upper, whole, isBefore, isAfter⟩ := ihLeft isLeft
        refine ⟨way ++ [⟨.left, own, mark, right⟩], lower, below, upper, ?_, ?_, ?_⟩
        · rw [plug_append, whole]
          rfl
        · rw [isBefore, before_append]
          simp [Frame.before]
        · rw [isBack, isAfter, after_append]
          simp [Frame.after]

end Labels

/-! Remembered heights that are not those of nothing. -/

section Sane

variable {tree left right : Marked α}

theorem height_ge (sane : tree.Sane) : -1 ≤ tree.height := by
  cases tree with
  | nil => exact le_refl _
  | node => exact le_trans (by decide) sane.1

theorem height_nonneg_iff (sane : tree.Sane) : 0 ≤ tree.height ↔ tree ≠ .nil := by
  cases tree with
  | nil => simp [height]
  | node => exact ⟨nofun, fun _ => sane.1⟩

theorem sane_make (saneLeft : left.Sane) (saneRight : right.Sane) (label : α) :
    (make left label right).Sane := by
  refine ⟨?_, saneLeft, saneRight⟩
  have bound := height_ge saneLeft
  simp only [mark]
  omega

theorem sane_rotate (side : Side) (sane : tree.Sane) : (tree.rotate side).Sane := by
  unfold Marked.rotate
  split
  · obtain ⟨_, saneLeft, _, saneMiddle, saneRight⟩ := sane
    exact sane_make (sane_make saneLeft saneMiddle _) saneRight _
  · obtain ⟨_, ⟨_, saneLeft, saneMiddle⟩, saneRight⟩ := sane
    exact sane_make saneLeft (sane_make saneMiddle saneRight _) _
  · exact sane

theorem sane_child (side : Side) (sane : tree.Sane) : (tree.child side).Sane := by
  cases tree with
  | nil => cases side <;> exact sane
  | node left _ _ right =>
    cases side with
    | left => exact sane.2.1
    | right => exact sane.2.2

theorem sane_setChild (side : Side) {new : Marked α} (sane : tree.Sane) (saneNew : new.Sane) :
    (tree.setChild side new).Sane := by
  cases tree with
  | nil => cases side <;> exact sane
  | node left _ _ right =>
    cases side with
    | left => exact ⟨sane.1, saneNew, sane.2.2⟩
    | right => exact ⟨sane.1, sane.2.1, saneNew⟩

theorem sane_straighten (side : Side) (sane : tree.Sane) : (tree.straighten side).Sane := by
  unfold straighten
  split
  · exact sane_rotate _ sane
  · exact sane_rotate _ (sane_setChild _ sane (sane_rotate _ (sane_child _ sane)))

theorem sane_rebalance (sane : tree.Sane) : tree.rebalance.Sane := by
  cases tree with
  | nil => trivial
  | node _ label _ _ =>
    have made := sane_make sane.2.1 sane.2.2 label
    rw [rebalance]
    split
    · exact sane_straighten _ made
    · split
      · exact sane_straighten _ made
      · exact made

theorem sane_framePlug (frame : Frame α) : (frame.plug tree).Sane ↔ frame.Sane ∧ tree.Sane := by
  obtain ⟨side, _, _, _⟩ := frame
  cases side with
  | left | right => simp only [Frame.plug, branch, Sane, Frame.Sane]; tauto

theorem sane_plug (way : List (Frame α)) : (plug way tree).Sane ↔ (∀ frame ∈ way, frame.Sane) ∧
    tree.Sane := by
  induction way generalizing tree with
  | nil => simp [plug]
  | cons _ _ ih =>
    rw [plug, ih, sane_framePlug, forall_mem_cons]
    tauto

theorem sane_climb (way : List (Frame α)) (sane : (plug way tree).Sane) :
    (climb way tree).Sane := by
  induction way generalizing tree with
  | nil => exact sane_rebalance sane
  | cons _ _ ih =>
    apply ih
    rw [plug, sane_plug, sane_framePlug] at sane
    rw [sane_plug, sane_framePlug]
    exact ⟨sane.1, sane.2.1, sane_rebalance sane.2.2⟩

end Sane

end Nx.AvlTrees
