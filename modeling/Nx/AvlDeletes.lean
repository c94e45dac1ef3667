import Nx.AvlTrees

/-!
Deletion from a marked tree: the contents of a neighbour take the place of the label that goes,
until a leaf can be unlinked.
-/

namespace Nx.AvlTrees

open List
open Marked hiding mark
variable {α β : Type}

def outermost : Side → List (Frame α) → Marked α → List (Frame α) × Marked α
  | _, way, .nil => (way, .nil)
  | .left, way, .node .nil label mark far => (way, .node .nil label mark far)
  | .left, way, .node (.node left next nextMark right) label mark far =>
    outermost .left (⟨.left, label, mark, far⟩ :: way) (.node left next nextMark right)
  | .right, way, .node far label mark .nil => (way, .node far label mark .nil)
  | .right, way, .node far label mark (.node left next nextMark right) =>
    outermost .right (⟨.right, label, mark, far⟩ :: way) (.node left next nextMark right)

def taken (take : α → α → α) (label : α) : Marked α → α
  | .nil => label
  | .node _ heir _ _ => take label heir

/-- The neighbour on a side, after it gave its contents to the root of a tree. -/
def heirWay (take : α → α → α) (side : Side) (way : List (Frame α)) (near : Marked α) (label : α)
    (mark : Mark)
    (far : Marked α) : List (Frame α) × Marked α :=
  let low := outermost side.other [] near
  (low.1 ++ ⟨side, taken take label low.2, mark, far⟩ :: way, low.2)

def sink (take : α → α → α) : Nat → List (Frame α) → Marked α → List (Frame α)
  | _, way, .nil => way
  | 0, way, _ => way
  | _ + 1, way, .node .nil _ _ .nil => way
  | fuel + 1, way, .node .nil label mark (.node left next nextMark right) =>
    let low := heirWay take .right way (.node left next nextMark right) label mark .nil
    sink take fuel low.1 low.2
  | fuel + 1, way, .node (.node left next nextMark right) label mark far =>
    let low := heirWay take .left way (.node left next nextMark right) label mark far
    sink take fuel low.1 low.2

def unlink : List (Frame α) → Marked α
  | [] => .nil
  | [frame] => frame.plug .nil
  | frame :: above :: rest => climb rest (above.plug (frame.plug .nil))

def around (way : List (Frame α)) (tree : Marked α) : List α :=
  before way ++ (tree.child .left).toList ++ (tree.child .right).toList ++ after way

theorem outermost_end (side : Side) (way : List (Frame α)) :
    outermost side way (.branch side .nil label mark far) =
      (way, .branch side .nil label mark far) := by
  cases side with
  | left | right => rw [branch, outermost]

theorem outermost_step (isNode : near ≠ .nil) (way : List (Frame α)) :
    outermost side way (.branch side near label mark far) = outermost side
      (⟨side, label, mark, far⟩ :: way) near := by
  cases near with
  | nil => exact absurd rfl isNode
  | node left _ _ right =>
    cases side with
    | left | right => rw [branch, outermost]

theorem plug_outermost (side : Side) (way : List (Frame α)) (tree : Marked α) :
    plug (outermost side way tree).1 (outermost side way tree).2 = plug way tree := by
  fun_induction outermost with
  | case1 | case2 | case4 => rfl
  | case3 _ _ _ _ _ _ _ _ ih => exact ih
  | case5 _ _ _ _ _ _ _ _ ih => exact ih

theorem side_outermost (side : Side) (way : List (Frame α)) (tree : Marked α)
    (sides : ∀ frame ∈ way, frame.side = side) : ∀ frame ∈ (outermost side way tree).1, frame.side =
      side := by
  fun_induction outermost with
  | case1 | case2 | case4 => exact sides
  | case3 _ _ _ _ _ _ _ _ ih => exact ih (forall_mem_cons.mpr ⟨rfl, sides⟩)
  | case5 _ _ _ _ _ _ _ _ ih => exact ih (forall_mem_cons.mpr ⟨rfl, sides⟩)

theorem last_outermost (side : Side) (way : List (Frame α)) (isNode : tree ≠ .nil) :
    ∃ label mark far, (outermost side way tree).2 = .branch side .nil label mark far := by
  fun_induction outermost with
  | case1 => exact absurd rfl isNode
  | case2 | case4 => exact ⟨_, _, _, rfl⟩
  | case3 _ _ _ _ _ _ _ _ ih | case5 _ _ _ _ _ _ _ _ ih => exact ih nofun

theorem toList_outermost (side : Side) (tree : Marked α) :
    before (outermost side [] tree).1 ++ (outermost side [] tree).2.toList ++
      after (outermost side [] tree).1 =
      tree.toList := by
  rw [← toList_plug, plug_outermost]
  rfl

theorem length_outermost (side : Side) (tree : Marked α) :
    (outermost side [] tree).2.toList.length ≤ tree.toList.length := by
  rw [← toList_outermost side tree, length_append, length_append]
  omega

theorem after_rightmost {way : List (Frame α)} (sides : ∀ frame ∈ way, frame.side = .right) :
    after way = [] := by
  induction way with
  | nil => rfl
  | cons _ _ ih =>
    obtain ⟨here, later⟩ := forall_mem_cons.mp sides
    rw [after, ih later, Frame.after, here]
    rfl

section Sink

variable {take : α → α → α} {way : List (Frame α)}

theorem heirWay_ne_nil (isNode : near ≠ .nil) :
    (heirWay take side way near label mark far).2 ≠ .nil := by
  obtain ⟨_, _, _, isLast⟩ := last_outermost side.other [] isNode
  rw [heirWay, isLast]
  exact branch_ne_nil

theorem around_heirWay (takes : ∀ old new, view (take old new) = view new) (isNode : near ≠ .nil) :
    (around (heirWay take side way near label mark far).1
      (heirWay take side way near label mark far).2).map
        view = (around way (.branch side near label mark far)).map view := by
  have labels := toList_outermost side.other near
  have sides := side_outermost side.other [] near (by simp)
  obtain ⟨_, _, _, isLast⟩ := last_outermost side.other [] isNode
  rw [isLast] at labels
  cases side with
  | left =>
    rw [after_rightmost sides] at labels
    simp only [Side.other, branch, toList] at isLast labels sides
    rw [around, around, heirWay, Side.other, isLast, before_append, after_append,
      after_rightmost sides,
      branch, child, child, child, child, ← labels]
    simp [Frame.before, Frame.after, taken, takes]
  | right =>
    rw [before_leftmost sides] at labels
    simp only [Side.other, branch, toList] at isLast labels sides
    rw [around, around, heirWay, Side.other, isLast, before_append, after_append,
      before_leftmost sides,
      branch, child, child, child, child, ← labels]
    simp [Frame.before, Frame.after, taken, takes]

theorem plug_heirWay :
    plug (heirWay take side way near label mark far).1
      (heirWay take side way near label mark far).2 =
      plug way (.branch side near (taken take label (outermost side.other [] near).2) mark
        far) := by
  rw [heirWay, plug_append, plug_outermost]
  rfl

theorem sane_heirWay (sane : (plug way (.branch side near label mark far)).Sane) :
    (plug (heirWay take side way near label mark far).1
      (heirWay take side way near label mark far).2).Sane := by
  rw [sane_plug] at sane
  rw [plug_heirWay, sane_plug]
  exact ⟨sane.1, (sane_framePlug ⟨side, _, mark, far⟩).mpr
    ((sane_framePlug ⟨side, label, mark, far⟩).mp sane.2)⟩

theorem length_heirWay (enough : (branch side near label mark far).toList.length ≤ fuel + 1) :
    (heirWay take side way near label mark far).2.toList.length ≤ fuel := by
  have shorter : (heirWay take side way near label mark far).2.toList.length ≤ near.toList.length :=
    length_outermost side.other near
  rw [length_branch] at enough
  omega

/-- What holds of the node with the label that goes, and goes on to the neighbour that
gives its contents, holds of the leaf in the end. -/
theorem sink_rule (holds : List (Frame α) → Marked α → Prop) (step : ∀ side way near label mark far,
    near ≠ .nil →
    holds way (.branch side near label mark far) →
    holds (heirWay take side way near label mark far).1
      (heirWay take side way near label mark far).2)
    (isNode : tree ≠ .nil) (enough : tree.toList.length ≤ fuel) (start : holds way tree) :
    ∃ label mark, holds (sink take fuel way tree) (.node .nil label mark .nil) := by
  fun_induction sink take fuel way tree with
  | case1 => exact absurd rfl isNode
  | case2 way tree =>
    cases tree with
    | nil => exact absurd rfl isNode
    | node left label mark right => simp at enough
  | case3 => exact ⟨_, _, start⟩
  | case4 fuel way label mark left next nextMark right low ih =>
    exact ih (heirWay_ne_nil node_ne_nil) (length_heirWay enough)
      (step .right _ _ _ _ _ node_ne_nil start)
  | case5 _ _ left next nextMark right _ _ _ low ih =>
    exact ih (heirWay_ne_nil node_ne_nil) (length_heirWay enough)
      (step .left _ _ _ _ _ node_ne_nil start)

theorem around_sink (takes : ∀ old new, view (take old new) = view new) (isNode : tree ≠ .nil)
    (enough : tree.toList.length ≤ fuel) :
    (before (sink take fuel way tree) ++ after (sink take fuel way tree)).map view =
      (around way tree).map view := by
  obtain ⟨label, mark, same⟩ := sink_rule (fun lower below => (around lower below).map view =
      (around way tree).map view)
    (fun _ _ _ _ _ _ isNode same => (around_heirWay takes isNode).trans same) isNode enough rfl
  rw [← same, around]
  simp [child]

theorem sane_sink (isNode : tree ≠ .nil) (enough : tree.toList.length ≤ fuel)
    (sane : (plug way tree).Sane) :
    ∀ frame ∈ sink take fuel way tree, frame.Sane := by
  obtain ⟨label, mark, saneLeaf⟩ := sink_rule (fun lower below => (plug lower below).Sane)
    (fun _ _ _ _ _ _ isNode sane => sane_heirWay sane) isNode enough sane
  exact ((sane_plug _).mp saneLeaf).1

theorem toList_unlink (way : List (Frame α)) : (unlink way).toList = before way ++ after way := by
  match way with
  | [] => rfl
  | [frame] => simp [unlink, toList_framePlug]
  | frame :: above :: rest =>
    rw [unlink, toList_climb, toList_framePlug, toList_framePlug, before, after, before, after]
    simp

theorem sane_unlink (sane : ∀ frame ∈ way, frame.Sane) : (unlink way).Sane := by
  match way with
  | [] => trivial
  | [frame] => exact (sane_framePlug frame).mpr ⟨sane frame mem_cons_self, trivial⟩
  | frame :: above :: rest =>
    exact sane_climb rest ((sane_plug (frame :: above :: rest)).mpr ⟨sane, trivial⟩)

end Sink

end Nx.AvlTrees
