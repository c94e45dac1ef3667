import Nx.AvlHeights
import Nx.TreeRuns

/-!
The heights of a tree map over runs.
-/

namespace Nx.TreeBalance

open Outcomes Cells AvlTrees TreeMaps TreeLinks TreeOps TreeDeletes FiniteMaps Transitions
  TreeRuns List

variable {Ptr K V : Type}

def readTree (cells : Ptr → Option (Node Ptr K V)) :
    Nat → Option Ptr → Option (Marked (Entry Ptr K V))
  | _, none => some .nil
  | 0, some _ => none
  | fuel + 1, some addr => do
    let node ← cells addr
    let left ← readTree cells fuel node.left
    let right ← readTree cells fuel node.right
    some (.node left ⟨addr, node.key, node.value⟩ ⟨node.height, node.balance⟩ right)

def treeOf (world : World Ptr K V) : Option (Marked (Entry Ptr K V)) :=
  readTree world.mem.cells world.mem.made world.map.root

theorem readTree_rep (rep : Rep cells parent tree) (enough : tree.toList.length ≤ fuel) :
    readTree cells fuel (rootOf tree) = some tree := by
  induction tree generalizing parent fuel with
  | nil =>
    rw [rootOf_nil, readTree]
  | node _ _ _ _ ihLeft ihRight =>
    rw [Marked.toList, length_append, length_cons] at enough
    cases fuel with
    | zero => omega
    | succ =>
      obtain ⟨node, repLeft, repRight⟩ := rep
      rw [rootOf_node, readTree, node]
      dsimp only [link, Option.bind_eq_bind, Option.bind_some]
      rw [ihLeft repLeft (by omega), ihRight repRight (by omega)]
      rfl

section Runs

variable [LinearOrder K]

theorem treeOf_holds {world : World Ptr K V} (holds : Holds world.map world.mem tree) :
    treeOf world = some tree := by
  rw [treeOf, holds.root]
  exact readTree_rep holds.nodes.below holds.bound

/-- No height is wrong after the removal of a key: the key is not there, there are at most
two keys, or the leaf that is unlinked has a leaf next to it. -/
def gentleRemoval (world : World Ptr K V) (key : K) : Bool :=
  match treeOf world with
  | none => false
  | some tree =>
    match (place key tree).2 with
    | .nil => true
    | found =>
      decide (tree.toList.length ≤ 2) || besideLeaf
        (sink take world.mem.made (place key tree).1 found)

def Gentle (world : World Ptr K V) : Op K V → Prop
  | .remove key | .erase key => gentleRemoval world key = true
  | .insert _ _ | .find _ | .size | .iterate => True

instance (world : World Ptr K V) (op : Op K V) : Decidable (Gentle world op) := by
  unfold Gentle
  split <;> infer_instance

inductive Changes (made : Nat) (tree : Marked (Entry Ptr K V)) :
    Op K V → Marked (Entry Ptr K V) → Prop where
  | same {op} : Changes made tree op tree
  | grown {op} (entry : Entry Ptr K V) (absent : (place entry.key tree).2 = .nil) :
      Changes made tree op (grown (place entry.key tree).1 entry)
  | removed {key} (found : (place key tree).2 ≠ .nil) : Changes made tree (.remove key)
      (shrunk made key tree)
  | erased {key} (found : (place key tree).2 ≠ .nil) :
      Changes made tree (.erase key) (shrunk made key tree)

section Steps

variable [DecidableEq Ptr] {mem : Heap Ptr K V} {self : TreeMap Ptr} {tree : Marked (Entry Ptr K V)}

theorem perform_changes (holds : Holds self mem tree) (op : Op K V) :
    Ends (perform self op) mem (fun out after =>
    ∃ tree', Changes mem.made tree op tree' ∧ Holds out.2 after tree') (fun _ => True) := by
  cases op with
  | insert key value =>
    apply ends_call (insert_ends holds) (fun _ _ => trivial)
    rintro ⟨_, self'⟩ after (⟨same, rfl, _⟩ | ⟨rfl, absent, addr, _, grows⟩)
    · cases same
      exact ends_pure _ ⟨tree, .same, holds⟩
    · exact ends_pure _ ⟨_, .grown ⟨addr, key, value⟩ absent, grows⟩
  | remove key =>
    apply ends_seq (remove_ends holds)
    rintro ⟨_, self'⟩ after (⟨same, rfl, _⟩ | ⟨rfl, found, shrinks⟩)
    · cases same
      exact ends_pure _ ⟨tree, .same, holds⟩
    · exact ends_pure _ ⟨_, .removed found, shrinks⟩
  | erase key =>
    apply ends_read (find_ends key holds)
    rintro it rfl
    apply ends_seq (erase_ends holds)
    rintro _ _ (⟨rfl, rfl, _⟩ | ⟨found, shrinks⟩)
    · exact ends_pure _ ⟨tree, .same, holds⟩
    · exact ends_pure _ ⟨_, .erased found, shrinks⟩
  | find key =>
    apply ends_read (find_ends key holds)
    rintro _ rfl
    have cut := holds.cut key
    cases isPlace : (place key tree).2 with
    | nil => exact ends_pure _ ⟨tree, .same, holds⟩
    | node =>
      rw [isPlace] at cut
      exact ends_load cut.below.1 (ends_pure _ ⟨tree, .same, holds⟩)
  | size => exact ends_pure _ ⟨tree, .same, holds⟩
  | iterate =>
    apply ends_read (iterate_ends holds.nodes holds.root holds.bound)
    rintro _ rfl
    exact ends_pure _ ⟨tree, .same, holds⟩

omit [DecidableEq Ptr] in
theorem nearly_grown (nearly : Nearly tree) (entry : Entry Ptr K V)
    (absent : (place entry.key tree).2 = .nil) :
    Nearly (grown (place entry.key tree).1 entry) := by
  have isAvl : Avl (leaf entry) := ⟨rfl, near_refl 1 _, trivial, trivial⟩
  rw [← plug_place entry.key tree, nearly_plug, absent] at nearly
  cases isWay : (place entry.key tree).1 with
  | nil => exact isAvl.nearly
  | cons =>
    rw [isWay] at nearly
    exact (avl_grown nearly.1 isAvl rfl).nearly

omit [DecidableEq Ptr] in
theorem nearly_shrunk (holds : Holds self mem tree) (nearly : Nearly tree)
    (found : (place key tree).2 ≠ .nil)
    (gentle : gentleRemoval ⟨self, mem⟩ key = true) : Nearly (shrunk mem.made key tree) := by
  have enough := (length_place key tree).trans holds.bound
  rw [← plug_place key tree] at nearly
  have fits : AvlWay (sink take mem.made (place key tree).1 (place key tree).2) 0 :=
    avlWay_sink nearly found enough
  have fewer := congrArg List.length (content_shrunk found holds.bound)
  obtain ⟨_, _, _, _, isNode⟩ := eq_branch .left found
  have whole := congrArg List.length (content_place isNode)
  rw [content_around isNode] at fewer
  simp only [length_map, length_append, length_cons] at fewer whole
  rw [gentleRemoval, treeOf_holds holds] at gentle
  dsimp only at gentle
  rw [isNode] at gentle
  rcases Bool.or_eq_true_iff.mp gentle with short | beside
  · apply nearly_unlink_short
    rw [← toList_unlink]
    have two := of_decide_eq_true short
    change (shrunk mem.made key tree).toList.length ≤ 1
    omega
  · rw [← isNode] at beside
    exact nearly_unlink_beside fits beside

end Steps

def InBalance (world : World Ptr K V) : Prop :=
  ∃ tree, Holds world.map world.mem tree ∧ Nearly tree

variable [DecidableEq Ptr]

theorem step_inBalance (move : Move (World Ptr K V) (Op K V × Result K V))
    (inBalance : InBalance move.before)
    (step : Step move.before move.label move.after) (gentle : Gentle move.before move.label.1) :
    InBalance move.after := by
  obtain ⟨tree, holds, nearly⟩ := inBalance
  obtain ⟨tree', changes, holdsToo⟩ := ends_of_ok (perform_changes holds move.label.1) step
  refine ⟨tree', holdsToo, ?_⟩
  generalize move.label.1 = op at changes gentle
  cases changes with
  | same => exact nearly
  | grown entry absent => exact nearly_grown nearly entry absent
  | removed found | erased found => exact nearly_shrunk holds nearly found gentle

/-- As long as every removal is gentle, the heights of the children of a node differ by at
most one, and the height of the tree is logarithmic. -/
theorem treemap_balanced (mem : Heap Ptr K V) {last : World Ptr K V}
    {moves : List (Move (World Ptr K V) (Op K V × Result K V))}
      (run : Run Step ⟨{}, mem⟩ moves last)
    (gentle : ∀ move ∈ moves, Gentle move.before move.label.1) :
    ∀ world ∈ visited ⟨{}, mem⟩ moves, ∃ tree, treeOf world = some tree ∧
      tree.toList.length = world.map.cnt ∧ Balanced tree ∧ depth tree ≤ 2 * Nat.log 2
        (world.map.cnt + 1) := by
  have begins : InBalance (⟨{}, mem⟩ : World Ptr K V) := ⟨.nil, holds_empty mem, trivial⟩
  intro world visits
  obtain ⟨tree, holds, nearly⟩ :=
    run_guarded InBalance (fun move => Gentle move.before move.label.1) step_inBalance run begins
      gentle world visits
  have logarithmic := depth_le_log nearly.balanced
  rw [← holds.cnt] at logarithmic
  exact ⟨tree, treeOf_holds holds, holds.cnt.symm, nearly.balanced, logarithmic⟩

end Runs

def gentleRun : List (Op Nat Nat × Result Nat Nat) :=
  [(.insert 1 0, .inserted true), (.insert 2 0, .inserted true), (.insert 3 0, .inserted true),
    (.insert 4 0, .inserted true), (.insert 5 0, .inserted true), (.remove 5, .removed true),
    (.insert 5 0, .inserted true), (.remove 4, .removed true), (.remove 9, .removed false)]

theorem treemap_balanced_gentleRun : let ran := trace next? ⟨{}, noNodes⟩ gentleRun
    ran.1.length = 9 ∧ ∀ world ∈ visited ⟨{}, noNodes⟩ ran.1, ∃ tree, treeOf world = some tree ∧
      tree.toList.length = world.map.cnt ∧ Balanced tree ∧ depth tree ≤ 2 * Nat.log 2
        (world.map.cnt + 1) := by
  intro ran
  have gentle : ∀ move ∈ ran.1, Gentle move.before move.label.1 := by decide +kernel
  exact ⟨by decide +kernel, treemap_balanced noNodes (trace_run next? step_of_next? _ _) gentle⟩

def lopsided : List (Op Nat Nat × Result Nat Nat) :=
  [(.insert 2 0, .inserted true), (.insert 1 0, .inserted true), (.insert 3 0, .inserted true),
    (.insert 4 0, .inserted true), (.remove 1, .removed true)]

def unbalanced? (world : World Nat Nat Nat) : Bool :=
  match treeOf world with
  | none => false
  | some tree => !decide (Balanced tree)

/-- Nothing is to the left of the root, and two nodes to its right. -/
theorem treemap_not_balanced : let ran := trace next? ⟨{}, noNodes⟩ lopsided
    ran.1.length = 5 ∧ unbalanced? ran.2 = true := by decide +kernel

end Nx.TreeBalance
