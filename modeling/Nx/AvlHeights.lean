import Nx.AvlDeletes

/-!
Real heights of marked trees, next to those that the nodes remember.
-/

namespace Nx.AvlTrees

open List
open Marked hiding mark

variable {α : Type} {tree left right near far : Marked α} {label : α} {mark : Mark} {side : Side}
  {way : List (Frame α)}

def depth : Marked α → Int
  | .nil => -1
  | .node left _ _ right => 1 + max (depth left) (depth right)

def Near (bound : Nat) (first second : Int) :
    Prop := first ≤ second + bound ∧ second ≤ first + bound
  deriving Decidable

def Balanced : Marked α → Prop
  | .nil => True
  | .node left _ _ right => Near 1 (depth left) (depth right) ∧ Balanced left ∧ Balanced right

instance decidableBalanced : (tree : Marked α) → Decidable (Balanced tree)
  | .nil => .isTrue trivial
  | .node left _ _ right =>
    have := decidableBalanced left
    have := decidableBalanced right
    inferInstanceAs (Decidable (_ ∧ _ ∧ _))

def Avl : Marked α → Prop
  | .nil => True
  | .node left _ mark right =>
    mark.height = 1 + max (depth left) (depth right) ∧ Near 1 (depth left) (depth right) ∧
      Avl left ∧ Avl right

def Nearly : Marked α → Prop
  | .nil => True
  | .node left _ _ right => Near 1 (depth left) (depth right) ∧ Avl left ∧ Avl right

section Depths

variable {other : α}

theorem depth_ge (tree : Marked α) : -1 ≤ depth tree := by
  induction tree with
  | nil => exact le_refl _
  | node =>
    rw [depth]
    omega

theorem Avl.height (avl : Avl tree) : tree.height = depth tree := by
  cases tree with
  | nil => rfl
  | node => exact avl.1

theorem Avl.nearly (avl : Avl tree) : Nearly tree := by
  cases tree with
  | nil => trivial
  | node => exact avl.2

theorem Avl.balanced (avl : Avl tree) : Balanced tree := by
  induction tree with
  | nil => trivial
  | node _ _ _ _ ihLeft ihRight => exact ⟨avl.2.1, ihLeft avl.2.2.1, ihRight avl.2.2.2⟩

theorem Nearly.balanced (nearly : Nearly tree) : Balanced tree := by
  cases tree with
  | nil => trivial
  | node => exact ⟨nearly.1, nearly.2.1.balanced, nearly.2.2.balanced⟩

theorem depth_branch : depth (.branch side near label mark far) = 1 + max (depth near)
    (depth far) := by
  cases side with
  | left => rfl
  | right => rw [branch, depth, max_comm]

theorem near_refl (bound : Nat) (first : Int) : Near bound first first := by
  unfold Near
  omega

theorem near_comm : Near bound first second ↔ Near bound second first := by
  unfold Near
  omega

theorem nearly_branch :
    Nearly (.branch side near label mark far) ↔ Near 1 (depth near) (depth far) ∧ Avl near ∧
      Avl far := by
  cases side with
  | left => rfl
  | right =>
    rw [branch, Nearly, near_comm]
    tauto

theorem avl_branch : Avl (.branch side near label mark far) ↔
    mark.height = 1 + max (depth near) (depth far) ∧ Near 1 (depth near) (depth far) ∧ Avl near ∧
      Avl far := by
  cases side with
  | left => rfl
  | right =>
    rw [branch, Avl, near_comm, max_comm]
    tauto

theorem height_buildMark (avlNear : Avl near) (avlFar : Avl far) :
    (buildMark side near far).height = 1 + max (depth near) (depth far) := by
  cases side with
  | left => rw [buildMark, Marked.mark, avlNear.height, avlFar.height]
  | right => rw [buildMark, Marked.mark, avlNear.height, avlFar.height, max_comm]

theorem avl_build (avlNear : Avl near) (avlFar : Avl far)
    (close : Near 1 (depth near) (depth far)) :
    Avl (.build side near label far) := by
  rw [build_eq, avl_branch]
  exact ⟨height_buildMark avlNear avlFar, close, avlNear, avlFar⟩

theorem depth_build : depth (.build side near label far) = 1 + max (depth near) (depth far) := by
  rw [build_eq, depth_branch]

end Depths

/-! Rebalancing. -/

section Straighten

variable {outer inner middle low : Marked α} {up top : α} {upMark topMark : Mark}

theorem straighten_single (leaning : inner.height ≤ outer.height) :
    (branch side (.branch side outer up upMark inner) label mark far).straighten side =
      .build side.other (.build side.other far label inner) up outer := by
  have isTurned : (branch side.other far label mark (.branch side.other inner up upMark outer)).rotate
      side.other = _ := rotate_branch
  rw [branch_other, branch_other] at isTurned
  rw [straighten, child_branch, child_branch, child_other_branch, if_pos leaning, isTurned]

theorem straighten_double (bent : ¬ (branch side middle top topMark low).height ≤ outer.height) :
    (branch side (.branch side outer up upMark (.branch side middle top topMark low)) label mark
      far).straighten side =
      .build side.other (.build side.other far label low) top (.build side outer up middle) := by
  have isTurned : (branch side.other far label mark (.branch side.other low top
      (buildMark side (.build side outer up middle) low) (.build side outer up middle))).rotate
      side.other = _ := rotate_branch
  rw [branch_other, branch_other, ← build_eq] at isTurned
  rw [straighten, child_branch, child_branch, child_other_branch, if_neg bent, rotate_branch,
    setChild_branch, isTurned]

end Straighten

/-- The height of a tree that was rebalanced over children of these heights. -/
def Settles (first second result : Int) : Prop :=
  (Near 1 first second → result = 1 + max first second) ∧
    (result = max first second ∨ result = 1 + max first second)

theorem avl_straighten (avlNear : Avl near) (avlFar : Avl far) (high : depth near = depth far + 2) :
    Avl ((branch side near label mark far).straighten side) ∧ Settles (depth near) (depth far)
    (depth ((branch side near label mark far).straighten side)) := by
  have bound := depth_ge far
  have isNode : near ≠ .nil := by
    rintro rfl
    rw [depth] at high
    omega
  obtain ⟨outer, up, _, inner, rfl⟩ := eq_branch side isNode
  obtain ⟨_, close, avlOuter, avlInner⟩ := avl_branch.mp avlNear
  rw [depth_branch] at high ⊢
  unfold Near at close
  by_cases leaning : inner.height ≤ outer.height
  · -- the inner child goes to the other side
    rw [straighten_single leaning]
    rw [avlInner.height, avlOuter.height] at leaning
    have low : Avl (.build side.other far label inner) :=
      avl_build avlFar avlInner (by unfold Near; omega)
    have lowDepth : depth (.build side.other far label inner) = 1 + max (depth far) (depth inner) :=
      depth_build
    refine ⟨avl_build low avlOuter (by unfold Near; omega), ?_⟩
    rw [depth_build, lowDepth]
    unfold Settles Near
    omega
  · -- the inner child comes up, and its children go to both sides
    have isNodeToo : inner ≠ .nil := by
      rintro rfl
      rw [avlOuter.height, height] at leaning
      exact leaning (depth_ge outer)
    obtain ⟨middle, _, _, low, rfl⟩ := eq_branch side isNodeToo
    rw [straighten_double leaning]
    rw [avlInner.height, avlOuter.height, depth_branch] at leaning
    rw [depth_branch] at close high ⊢
    obtain ⟨_, closeToo, avlMiddle, avlLow⟩ := avl_branch.mp avlInner
    unfold Near at closeToo
    have first : Avl (.build side.other far label low) :=
      avl_build avlFar avlLow (by unfold Near; omega)
    have second : Avl (.build side outer up middle) :=
      avl_build avlOuter avlMiddle (by unfold Near; omega)
    have firstDepth : depth (.build side.other far label low) = 1 + max (depth far) (depth low) :=
      depth_build
    have secondDepth : depth (.build side outer up middle) = 1 + max (depth outer) (depth middle) :=
      depth_build
    refine ⟨avl_build first second (by unfold Near; omega), ?_⟩
    rw [depth_build, firstDepth, secondDepth]
    unfold Settles Near
    omega

theorem avl_rebalance (avlLeft : Avl left) (avlRight : Avl right)
    (close : Near 2 (depth left) (depth right)) :
    Avl (node left label mark right).rebalance ∧ Settles (depth left) (depth right)
    (depth (node left label mark right).rebalance) := by
  unfold Near at close
  rw [rebalance, avlLeft.height, avlRight.height]
  split
  next isLow =>
    have turned : Avl ((branch .left left label (Marked.mark left right) right).straighten .left) ∧
        _ :=
      avl_straighten avlLeft avlRight (by omega)
    exact turned
  next notLow =>
    split
    next isHigh =>
      have turned : Avl ((branch .right right label (Marked.mark left right) left).straighten
          .right) ∧ _ :=
        avl_straighten avlRight avlLeft (by omega)
      refine ⟨turned.1, ?_⟩
      have settles := turned.2
      unfold Settles at settles ⊢
      rw [near_comm, max_comm]
      exact settles
    next notHigh =>
      have made : Avl (.build .left left label right) :=
        avl_build avlLeft avlRight (by unfold Near; omega)
      refine ⟨made, fun _ => rfl, .inr rfl⟩

theorem avl_rebalance_branch (avlNear : Avl near) (avlFar : Avl far)
    (close : Near 2 (depth near) (depth far)) :
    Avl (branch side near label mark far).rebalance ∧ Settles (depth near) (depth far)
    (depth (branch side near label mark far).rebalance) := by
  cases side with
  | left => exact avl_rebalance avlNear avlFar close
  | right =>
    have turned : Avl (node far label mark near).rebalance ∧ _ :=
      avl_rebalance avlFar avlNear (near_comm.mp close)
    have settles := turned.2
    refine ⟨turned.1, ?_⟩
    unfold Settles at settles ⊢
    rw [near_comm, max_comm]
    exact settles

/-! Ways. -/

/-- The nodes of a way fit a tree of some height in the hole; the last of them is the
root, which may remember any height. -/
def AvlWay : List (Frame α) → Int → Prop
  | [], _ => True
  | frame :: rest, hole =>
    Avl frame.sibling ∧ Near 1 hole (depth frame.sibling) ∧
      (rest ≠ [] → frame.mark.height = 1 + max hole (depth frame.sibling)) ∧
      AvlWay rest (1 + max hole (depth frame.sibling))

section Ways

variable {rest : List (Frame α)} {frame : Frame α}

theorem nearly_plug (way : List (Frame α)) (tree : Marked α) :
    Nearly (plug way tree) ↔ AvlWay way (depth tree) ∧ (way = [] → Nearly tree) ∧
      (way ≠ [] → Avl tree) := by
  induction way generalizing tree with
  | nil => simp [plug, AvlWay]
  | cons _ rest ih =>
    rw [plug, ih, Frame.plug, depth_branch, nearly_branch, avl_branch, AvlWay]
    by_cases last : rest = []
    · subst last
      simp [AvlWay]
      tauto
    · simp [last]
      tauto

theorem avl_climb (fits : AvlWay way hole) (avlNear : Avl near) (avlFar : Avl far)
    (close : Near 2 (depth near) (depth far))
      (change : ∀ result, Settles (depth near) (depth far) result →
    Near 1 result hole) : Avl (climb way (.branch side near label mark far)) := by
  induction way generalizing hole side near far mark label with
  | nil => exact (avl_rebalance_branch avlNear avlFar close).1
  | cons _ _ ih =>
    have turned : Avl (branch side near label mark far).rebalance ∧ _ :=
      avl_rebalance_branch avlNear avlFar close
    obtain ⟨avl, settles⟩ := turned
    obtain ⟨avlSibling, fitted, _, fitsRest⟩ := fits
    have changed := change _ settles
    unfold Near at changed fitted
    apply ih fitsRest avl avlSibling (by unfold Near; omega)
    intro _ settlesToo
    unfold Settles Near at settlesToo
    unfold Near
    omega

theorem avl_grown (fits : AvlWay (frame :: rest) (-1)) (avlLeaf : Avl leaf)
    (isLeaf : depth leaf = 0) :
    Avl (climb rest (frame.plug leaf)) := by
  obtain ⟨avlSibling, fitted, _, fitsRest⟩ := fits
  have bound := depth_ge frame.sibling
  unfold Near at fitted
  apply avl_climb fitsRest avlLeaf avlSibling (by unfold Near; omega)
  intro _ settles
  unfold Settles Near at settles
  unfold Near
  omega

def besideLeaf : List (Frame α) → Bool
  | ⟨_, _, _, .node .nil _ _ .nil⟩ :: _ => true
  | _ => false

theorem depth_besideLeaf (beside : besideLeaf way = true) :
    ∃ frame rest, way = frame :: rest ∧ depth frame.sibling = 0 := by
  unfold besideLeaf at beside
  split at beside
  · exact ⟨_, _, rfl, rfl⟩
  · cases beside

theorem nearly_unlink_beside (fits : AvlWay way 0) (beside : besideLeaf way = true) :
    Nearly (unlink way) := by
  obtain ⟨frame, rest, rfl, isLeaf⟩ := depth_besideLeaf beside
  obtain ⟨avlSibling, _, exact, fitsRest⟩ := fits
  rw [isLeaf] at exact fitsRest
  have close : Near 1 (depth (.nil : Marked α)) (depth frame.sibling) := by
    rw [isLeaf, depth]
    decide
  have kept : depth (frame.plug .nil) = 1 := by
    rw [Frame.plug, depth_branch, isLeaf]
    rfl
  cases rest with
  | nil => exact nearly_branch.mpr ⟨close, trivial, avlSibling⟩
  | cons =>
    -- the parent still has the height that it remembers
    have avl : Avl (frame.plug .nil) := by
      refine avl_branch.mpr ⟨?_, close, trivial, avlSibling⟩
      rw [exact (cons_ne_nil _ _), isLeaf]
      rfl
    obtain ⟨avlAbove, fitted, _, fitsHigher⟩ := fitsRest
    unfold Near at fitted
    refine Avl.nearly (avl_climb fitsHigher avl avlAbove ?_ ?_)
    · rw [kept]
      unfold Near
      omega
    · intro _ settles
      rw [kept] at settles
      unfold Settles Near at settles
      unfold Near
      omega

theorem nearly_unlink_short (short : (before way ++ after way).length ≤ 1) :
    Nearly (unlink way) := by
  match way with
  | [] => trivial
  | [⟨side, label, mark, sibling⟩] =>
    have isNil : sibling = .nil := by
      cases sibling with
      | nil => rfl
      | node left other otherMark right =>
        have length : (before [⟨side, label, mark, .node left other otherMark right⟩] ++
            after [⟨side, label, mark, .node left other otherMark right⟩]).length =
            left.toList.length + right.toList.length + 2 := by
          cases side <;> simp [Frame.before, Frame.after] <;> omega
        omega
    subst isNil
    refine nearly_branch.mpr ⟨?_, trivial, trivial⟩
    dsimp only [depth]
    decide
  | first :: second :: rest =>
    have length := length_way (first :: second :: rest)
    rw [length_append] at short
    rw [length_cons, length_cons] at length
    omega

variable {take : α → α → α} {fuel : Nat}

theorem avlWay_sink (nearly : Nearly (plug way tree)) (isNode : tree ≠ .nil)
    (enough : tree.toList.length ≤ fuel) : AvlWay (sink take fuel way tree) 0 := by
  have step (side : Side) (way : List (Frame α)) (near : Marked α) (label : α) (mark : Mark)
      (far : Marked α)
      (_ : near ≠ .nil) (holds : Nearly (plug way (.branch side near label mark far))) :
      Nearly (plug (heirWay take side way near label mark far).1
        (heirWay take side way near label mark far).2) := by
    rw [nearly_plug, depth_branch, nearly_branch, avl_branch] at holds
    rwa [plug_heirWay, nearly_plug, depth_branch, nearly_branch, avl_branch]
  obtain ⟨_, _, leaf⟩ := sink_rule (fun lower below => Nearly (plug lower below)) step isNode
      enough nearly
  exact ((nearly_plug _ _).mp leaf).1

end Ways

/-! The number of labels. -/

theorem length_ge_of_balanced {tree : Marked α} (balanced : Balanced tree) {levels : Nat}
    (high : 2 * (levels : Int) ≤ depth tree + 1) : 2 ^ levels ≤ tree.toList.length + 1 := by
  induction tree generalizing levels with
  | nil =>
    rw [depth] at high
    have none : levels = 0 := by omega
    rw [none]
    exact le_refl _
  | node _ _ _ _ ihLeft ihRight =>
    cases levels with
    | zero => simp
    | succ levels =>
      obtain ⟨close, balancedLeft, balancedRight⟩ := balanced
      unfold Near at close
      rw [depth] at high
      have lower : 2 ^ levels ≤ _ := ihLeft balancedLeft (by omega)
      have upper : 2 ^ levels ≤ _ := ihRight balancedRight (by omega)
      rw [toList, length_append, length_cons, Nat.pow_succ]
      omega

theorem depth_le_log {tree : Marked α} (balanced : Balanced tree) :
    depth tree ≤ 2 * Nat.log 2 (tree.toList.length + 1) := by
  have bound := depth_ge tree
  have big : 2 ^ ((depth tree + 1) / 2).toNat ≤ _ := length_ge_of_balanced balanced (by omega)
  have logs := Nat.le_log_of_pow_le (by decide) big
  omega

end Nx.AvlTrees
