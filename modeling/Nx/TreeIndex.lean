import Nx.AvlInserts
import Nx.TreeBalance

/-!
`operator []` of a tree map, with reads and assignments through the reference it gives.
-/

namespace Nx.TreeIndex

open Outcomes Cells AvlTrees SearchTrees TreeMaps TreeLinks TreeOps TreeDeletes FiniteMaps
  Transitions TreeRuns
open TreeBalance Option
open List hiding after

variable {Ptr K V : Type}

inductive Call (K V : Type) where
  | op (op : Op K V)
  /-- A read through `operator []`. -/
  | index (key : K)
  /-- An assignment through `operator []`. -/
  | assign (key : K) (value : V)
  deriving DecidableEq

section Programs

variable [DecidableEq Ptr] [LinearOrder K] [Inhabited V]

def call (self : TreeMap Ptr) : Call K V → Program (Heap Ptr K V) Fault (Result K V × TreeMap Ptr)
  | .op op => perform self op
  | .index key => do
    let out ← findOrInsertDefault self key
    let here ← load out.1
    pure (.found (some here.value), out.2)
  | .assign key value => do
    let out ← findOrInsertDefault self key
    modify out.1 ({ · with value := value })
    pure (.done, out.2)

end Programs

/-- The key is in the map, or the heights on the way to its place are not such that a rotation takes
its node away from the one above it. -/
def Settled [LinearOrder K] (key : K) (tree : Marked (Entry Ptr K V)) : Prop :=
  (place key tree).2 = .nil → ¬ Moved (place key tree).1

instance [LinearOrder K] (key : K) (tree : Marked (Entry Ptr K V)) :
    Decidable (Settled key tree) :=
  inferInstanceAs (Decidable (_ → ¬ _))

section Nodes

variable [LinearOrder K] {mem : Heap Ptr K V} {self : TreeMap Ptr} {tree : Marked (Entry Ptr K V)}

section

variable (holds : Holds self mem tree)
include holds

theorem Holds.found (member : entry ∈ tree.toList) :
    ∃ left mark right, (place entry.key tree).2 = .node left entry mark right := by
  cases isPlace : (place entry.key tree).2 with
  | nil =>
    obtain ⟨low, high, split⟩ := locate_absent holds.sorted isPlace
    rw [split] at member
    rcases mem_append.mp member with isLow | isHigh
    · exact absurd rfl (low entry isLow).ne
    · exact absurd rfl (high entry isHigh).ne
  | node left other mark right =>
    have isKey : other.key = entry.key := key_locate tree isPlace
    have otherMember : other ∈ tree.toList := by
      rw [toList_place entry.key tree, isPlace, Marked.toList]
      simp
    have distinct : (tree.toList.map Entry.key).Nodup := by
      rw [List.Nodup, pairwise_map]
      exact holds.sorted.imp fun less => less.ne
    rw [inj_on_of_nodup_map distinct otherMember member isKey]
    exact ⟨left, mark, right, rfl⟩

theorem Holds.at_entry (member : entry ∈ tree.toList) :
    ∃ left mark right, (place entry.key tree).2 = .node left entry mark right ∧
    At mem (place entry.key tree).1 (.node left entry mark right) := by
  obtain ⟨left, mark, right, isNode⟩ := Holds.found holds member
  have cut := holds.cut entry.key
  rw [isNode] at cut
  exact ⟨left, mark, right, isNode, cut⟩

theorem Holds.child (member : entry ∈ tree.toList) (live : mem.cells entry.addr = some node)
    (isChild : node.child side = some addr) : ∃ lower ∈ tree.toList, lower.addr = addr ∧
    ∃ there, mem.cells addr = some there ∧ there.parent = some entry.addr := by
  obtain ⟨left, _, right, isNode, cut⟩ := Holds.at_entry holds member
  have whole := toList_place entry.key tree
  rw [isNode, Marked.toList] at whole
  cases live.symm.trans cut.below.1
  cases side with
  | left =>
    cases left with
    | nil => cases isChild
    | node lower next nextMark upper =>
      cases isChild
      refine ⟨next, ?_, rfl, _, cut.below.2.1.1, rfl⟩
      rw [whole, Marked.toList]
      simp
  | right =>
    cases right with
    | nil => cases isChild
    | node _ next _ _ =>
      cases isChild
      refine ⟨next, ?_, rfl, _, cut.below.2.2.1, rfl⟩
      rw [whole, Marked.toList]
      simp

end

end Nodes

section Assign

variable [DecidableEq Ptr] [LinearOrder K] {entry : Entry Ptr K V}

theorem Holds.revalued {mark} (holds : Holds self mem tree)
    (isNode : (place entry.key tree).2 = .node left entry mark right) (value : V) :
    Holds self (mem.put entry.addr (link .left (rootOf left) (rootOf right)
      (top (place entry.key tree).1)
        { entry with value := value } mark))
      (plug (place entry.key tree).1 (.node left { entry with value := value } mark right)) := by
  have cut := holds.cut entry.key
  have isTree := plug_place entry.key tree
  rw [isNode] at cut isTree
  have keys : (plug (place entry.key tree).1
      (.node left { entry with value := value } mark right)).toList.map Entry.key =
        tree.toList.map Entry.key := by
    have whole := toList_place entry.key tree
    rw [isNode] at whole
    rw [whole, toList_plug]
    simp
  have length := congrArg length keys
  rw [length_map, length_map] at length
  have sane := holds.sane
  rw [← isTree, sane_plug] at sane
  refine ⟨?_, (cut.relabel { entry with value := value } mark rfl).whole, ?_, ?_, ?_, ?_⟩
  · have same : rootOf (plug _ (.node left { entry with value := value } mark right)) =
        rootOf (plug (place entry.key tree).1 (.node left entry mark right)) := rootOf_plug rfl
    rw [same, isTree, holds.root]
  · rw [length, holds.cnt]
  · rw [length]
    exact holds.bound
  · exact (sane_plug _).mpr ⟨sane.1, sane.2⟩
  · have sorted := holds.sorted
    rw [Sorted, ← pairwise_map] at sorted
    rw [Sorted, ← pairwise_map, keys]
    exact sorted

theorem Represents.assign (represents : Represents self mem tree finite)
    (member : entry ∈ tree.toList) (value : V)
    (live : mem.cells entry.addr = some node) : ∃ tree', Represents self (mem.put entry.addr
    { node with value := value }) tree' (finite.insert entry.key value) := by
  obtain ⟨_, _, _, isNode, cut⟩ := Holds.at_entry represents.holds member
  cases live.symm.trans cut.below.1
  refine ⟨_, Holds.revalued represents.holds isNode value, ?_⟩
  have lists := represents.lists
  rw [content_place isNode] at lists
  have assigned : Lists ((entry.key, value) :: _) (finite.insert entry.key value) :=
    (lists.perm perm_middle.symm).assign
  apply assigned.perm
  rw [toList_plug, Marked.toList, append_assoc, append_assoc, cons_append, ← append_assoc,
    map_append, map_cons]
  exact perm_middle

end Assign

/-! References. -/

section References

variable [DecidableEq Ptr] [LinearOrder K] [Inhabited V] {after : Heap Ptr K V}

variable {mem : Heap Ptr K V} {finite : FiniteMap K V} {key : K}

end References

def settled : List (Call Nat Nat × Result Nat Nat) :=
  [(.op (.insert 5 50), .inserted true), (.op (.insert 2 20), .inserted true),
    (.assign 7 70, .done),
    (.index 7, .found (some 70)), (.op (.remove 2), .removed true)]

/-- The double rotation that 4 causes takes its node from below 3, and 5 comes there. -/
def rotated : List (Call Nat Nat × Result Nat Nat) :=
  [(.op (.insert 5 50), .inserted true), (.op (.insert 2 20), .inserted true),
    (.op (.insert 6 60), .inserted true),
    (.op (.insert 1 10), .inserted true), (.op (.insert 3 30), .inserted true),
      (.assign 4 40, .done),
    (.op (.find 4), .found (some 0)), (.op (.find 5), .found (some 40))]

def leaning : List (Call Nat Nat × Result Nat Nat) :=
  [(.op (.insert 3 30), .inserted true), (.op (.insert 1 10), .inserted true)]

end Nx.TreeIndex
