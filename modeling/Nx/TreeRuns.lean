import Nx.FiniteMaps
import Nx.Transitions
import Nx.TreeDeletes

/-!
Runs of a tree map from the empty one, next to a finite map whose entries are listed
by their keys. Only a new node can fail, for lack of memory.
-/

namespace Nx.TreeRuns

open Outcomes Cells AvlTrees SearchTrees TreeMaps TreeLinks TreeOps TreeDeletes FiniteMaps
  Transitions List

variable {Ptr K V : Type}

/-! Commands. -/

inductive Op (K V : Type) where
  | insert (key : K) (value : V)
  | remove (key : K)
  /-- `erase(find(key))`. -/
  | erase (key : K)
  | find (key : K)
  | size
  /-- From `begin` to `end`. -/
  | iterate
  deriving DecidableEq

def Op.inserts : Op K V → Prop
  | .insert _ _ => True
  | .remove _ | .erase _ | .find _ | .size | .iterate => False

inductive Result (K V : Type) where
  | inserted (inserted : Bool)
  | removed (removed : Bool)
  | done
  | found (value : Option V)
  | count (count : Nat)
  | entries (entries : List (K × V))
  deriving DecidableEq

structure World (Ptr K V : Type) where
  map : TreeMap Ptr
  mem : Heap Ptr K V

section Programs

variable [DecidableEq Ptr] [LinearOrder K]

def perform (self : TreeMap Ptr) : Op K V → Program (Heap Ptr K V) Fault (Result K V × TreeMap Ptr)
  | .insert key value => do
    let out ← TreeMaps.insert self key value
    pure (.inserted out.1, out.2)
  | .remove key => do
    let out ← remove self key
    pure (.removed out.1, out.2)
  | .erase key => do
    let it ← find self key
    let self ← erase self it
    pure (.done, self)
  | .find key => do
    let it ← find self key
    match it with
    | none => pure (.found none, self)
    | some node => do
      let here ← load (some node)
      pure (.found (some here.value), self)
  | .size => pure (.count self.cnt, self)
  | .iterate => do
    let entries ← iterate self
    pure (.entries entries, self)

def Step (before : World Ptr K V) (label : Op K V × Result K V) (after : World Ptr K V) : Prop :=
  (perform before.map label.1).run before.mem = .ok ((label.2, after.map), after.mem)

end Programs

inductive Does [LinearOrder K] (map : FiniteMap K V) :
    Op K V × Result K V → FiniteMap K V → Prop where
  | insert {key value} (absent : key ∉ map) :
      Does map (.insert key value, .inserted true) (map.insert key value)
  | refuse {key value} (present : key ∈ map) : Does map (.insert key value, .inserted false) map
  | remove {key} : Does map (.remove key, .removed (decide (key ∈ map))) (map.erase key)
  | erase {key} : Does map (.erase key, .done) (map.erase key)
  | find {key} : Does map (.find key, .found (map.lookup key)) map
  | size : Does map (.size, .count map.keys.card) map
  | iterate {entries} (lists : Lists entries map) (sorted : Sorted Prod.fst entries) :
      Does map (.iterate, .entries entries) map

/-- The nodes of the map are a search tree with the entries of a finite map. -/
structure Represents [LinearOrder K] (map : TreeMap Ptr) (mem : Heap Ptr K V)
    (tree : Marked (Entry Ptr K V))
    (finite : FiniteMap K V) : Prop where
  holds : Holds map mem tree
  lists : Lists (tree.toList.map content) finite

section Refinement

variable [LinearOrder K] {mem : Heap Ptr K V} {self : TreeMap Ptr}
variable {tree : Marked (Entry Ptr K V)} {finite : FiniteMap K V} {key : K} {value : V}
  {after : Heap Ptr K V}

section

variable (represents : Represents self mem tree finite)
include represents

theorem Represents.absent (absent : (place key tree).2 = .nil) : key ∉ finite := by
  obtain ⟨low, high, split⟩ := locate_absent represents.holds.sorted absent
  rw [represents.lists.mem_iff, map_map]
  intro member
  obtain ⟨entry, isEntry, isKey⟩ := mem_map.mp member
  rw [split] at isEntry
  rcases mem_append.mp isEntry with isLow | isHigh
  · exact (low entry isLow).ne isKey
  · exact (high entry isHigh).ne' isKey

theorem Represents.lookup {mark : Mark} (found : (place key tree).2 = .node left entry mark right) :
    finite.lookup key = some entry.value := by
  have isKey : entry.key = key := key_locate tree found
  apply represents.lists.lookup_eq_some.mpr
  rw [content_place found, ← isKey]
  exact mem_append_right _ mem_cons_self

theorem Represents.present (found : (place key tree).2 ≠ .nil) : key ∈ finite := by
  obtain ⟨_, _, _, _, isNode⟩ := eq_branch .left found
  exact Finmap.mem_of_lookup_eq_some (represents.lookup isNode)

end

theorem Represents.grown (entry : Entry Ptr K V) (represents : Represents self mem tree finite)
    (absent : (place entry.key tree).2 = .nil)
      (holds : Holds self' after (grown (place entry.key tree).1 entry)) :
    Represents self' after (grown (place entry.key tree).1 entry)
      (finite.insert entry.key entry.value) := by
  obtain ⟨_, _, split⟩ := locate_absent represents.holds.sorted absent
  refine ⟨holds, (represents.lists.insert (represents.absent absent)).perm ?_⟩
  rw [split, toList_grown]
  exact perm_middle.map content

theorem Represents.shrunk (represents : Represents self mem tree finite)
    (found : (place key tree).2 ≠ .nil)
    (enough : tree.toList.length ≤ fuel) (holds : Holds self' after (shrunk fuel key tree)) :
    Represents self' after (shrunk fuel key tree) (finite.erase key) := by
  obtain ⟨_, entry, _, _, isNode⟩ := eq_branch .left found
  have isKey : entry.key = key := key_locate tree isNode
  have lists := represents.lists
  rw [content_place isNode] at lists
  have front := lists.perm perm_middle.symm
  rw [content, isKey] at front
  refine ⟨holds, ?_⟩
  rw [content_shrunk found enough, content_around isNode]
  exact front.erase

variable [DecidableEq Ptr]

def Refined (self : TreeMap Ptr) (mem : Heap Ptr K V) (finite : FiniteMap K V) (op : Op K V) :
    Prop :=
  Ends (perform self op) mem
    (fun out after => ∃ finite' tree', Does finite (op, out.1) finite' ∧
      Represents out.2 after tree' finite')
    (fun fault => mem.OutOf fault ∧ op.inserts)

section

variable (represents : Represents self mem tree finite)
include represents

theorem insert_refined : Refined self mem finite (.insert key value) := by
  apply ends_call (insert_ends represents.holds) (fun _ outOf => ⟨outOf, trivial⟩)
  rintro ⟨_, _⟩ _ (⟨same, rfl, found⟩ | ⟨rfl, absent, addr, _, holds⟩)
  · cases same
    exact ends_pure _ ⟨_, _, .refuse (represents.present found), represents⟩
  · exact ends_pure _ ⟨_, _, .insert (represents.absent absent),
      represents.grown ⟨addr, key, value⟩ absent holds⟩

theorem remove_refined : Refined self mem finite (.remove key) := by
  apply ends_seq (remove_ends represents.holds)
  rintro ⟨_, _⟩ _ (⟨same, rfl, absent⟩ | ⟨rfl, found, holds⟩)
  · cases same
    have notMem := represents.absent absent
    rw [← decide_eq_false notMem]
    refine ends_pure _ ⟨_, tree, .remove, ?_⟩
    rw [erase_absent notMem]
    exact represents
  · rw [← decide_eq_true (represents.present found)]
    exact ends_pure _ ⟨_, _, .remove, represents.shrunk found represents.holds.bound holds⟩

theorem erase_refined : Refined self mem finite (.erase key) := by
  apply ends_read (find_ends key represents.holds)
  rintro _ rfl
  apply ends_seq (erase_ends represents.holds)
  rintro _ _ (⟨rfl, rfl, absent⟩ | ⟨found, holds⟩)
  · refine ends_pure _ ⟨_, tree, .erase, ?_⟩
    rw [erase_absent (represents.absent absent)]
    exact represents
  · exact ends_pure _ ⟨_, _, .erase, represents.shrunk found represents.holds.bound holds⟩

theorem find_refined : Refined self mem finite (.find key) := by
  apply ends_read (find_ends key represents.holds)
  rintro _ rfl
  have cut := represents.holds.cut key
  cases isPlace : (place key tree).2 with
  | nil =>
    rw [← Finmap.lookup_eq_none.mpr (represents.absent isPlace)]
    exact ends_pure _ ⟨_, _, .find, represents⟩
  | node =>
    rw [isPlace] at cut
    refine ends_load cut.below.1 (ends_pure _ ⟨_, _, ?_, represents⟩)
    rw [value_link, ← represents.lookup isPlace]
    exact .find

theorem perform_refined (op : Op K V) : Refined self mem finite op := by
  cases op with
  | insert key => exact insert_refined represents
  | remove key => exact remove_refined represents
  | erase key => exact erase_refined represents
  | find => exact find_refined represents
  | size =>
    refine ends_pure _ ⟨_, _, ?_, represents⟩
    have count : self.cnt = finite.keys.card := by
      rw [represents.lists.card_keys, length_map, represents.holds.cnt]
    rw [count]
    exact .size
  | iterate =>
    have holds := represents.holds
    apply ends_read (iterate_ends holds.nodes holds.root holds.bound)
    rintro _ rfl
    exact ends_pure _ ⟨_, _, .iterate represents.lists ((sorted_content _).mp holds.sorted),
      represents⟩

end

end Refinement

/-! Runs. -/

section Runs

variable [DecidableEq Ptr] [LinearOrder K]

def InOrder (world : World Ptr K V) (finite : FiniteMap K V) : Prop :=
  ∃ tree, Represents world.map world.mem tree finite

omit [DecidableEq Ptr] in
theorem inOrder_start (mem : Heap Ptr K V) : InOrder ⟨{}, mem⟩ (∅ : FiniteMap K V) :=
  ⟨.nil, holds_empty mem, lists_nil⟩

theorem step_inOrder (move : Move (World Ptr K V) (Op K V × Result K V)) (finite : FiniteMap K V)
    (inOrder : InOrder move.before finite) (step : Step move.before move.label move.after) :
    ∃ next, Does finite move.label next ∧ InOrder move.after next := by
  obtain ⟨tree, represents⟩ := inOrder
  obtain ⟨finite', tree', does, representsToo⟩ :=
    ends_of_ok (perform_refined represents move.label.1) step
  exact ⟨finite', does, tree', representsToo⟩

/-- Every run from the empty map is one of a finite map with the same results. In the end
the nodes are a search tree with its entries, and every operation goes on so: a new node
can fail for lack of memory, but nothing else goes wrong. -/
theorem treemap_refines_sorted_map (mem : Heap Ptr K V) {last : World Ptr K V}
    {moves : List (Move (World Ptr K V) (Op K V × Result K V))}
      (run : Run Step ⟨{}, mem⟩ moves last) :
    ∃ finiteMoves finite tree, Run Does (∅ : FiniteMap K V) finiteMoves finite ∧
      finiteMoves.map Move.label = moves.map Move.label ∧ Represents last.map last.mem tree finite ∧
      ∀ op, Refined last.map last.mem finite op := by
  obtain ⟨finiteMoves, finite, finiteRun, labels, tree, represents⟩ :=
    run_simulated InOrder (fun _ => True) (fun move finite inOrder step _ =>
      step_inOrder move finite inOrder step)
      run (fun _ _ => trivial) (inOrder_start mem)
  exact ⟨finiteMoves, finite, tree, finiteRun, labels, represents, perform_refined represents⟩

def next? [DecidableEq V] (world : World Ptr K V) (label : Op K V × Result K V) :
    Option (World Ptr K V) :=
  answered (fun ((result, map), mem) => (result, World.mk map mem))
    ((perform world.map label.1).run world.mem) label.2

theorem step_of_next? [DecidableEq V] (world : World Ptr K V) (label : Op K V × Result K V)
    (after : World Ptr K V) (moved : next? world label = some after) : Step world label after := by
  obtain ⟨_, _⟩ := label
  obtain ⟨⟨⟨_, _⟩, _⟩, done, ⟨⟩⟩ := ok_of_answered moved
  exact done

end Runs

def noNodes : Heap Nat Nat Nat := ⟨fun _ => none, List.range 20, 0⟩

def turning : List (Op Nat Nat × Result Nat Nat) :=
  [(.insert 5 50, .inserted true), (.insert 1 10, .inserted true), (.insert 3 30, .inserted true),
    (.insert 3 31, .inserted false), (.insert 7 70, .inserted true), (.insert 9 90, .inserted true),
    (.iterate, .entries [(1, 10), (3, 30), (5, 50), (7, 70), (9, 90)]), (.remove 3, .removed true),
    (.remove 3, .removed false), (.erase 9, .done), (.erase 9, .done), (.find 7, .found (some 70)),
    (.find 3, .found none), (.size, .count 3), (.iterate, .entries [(1, 10), (5, 50), (7, 70)])]

theorem treemap_refines_sorted_map_turning : let ran := trace next? ⟨{}, noNodes⟩ turning
    ran.1.length = 15 ∧ ∃ finiteMoves finite tree,
      Run Does (∅ : FiniteMap Nat Nat) finiteMoves finite ∧
      finiteMoves.map Move.label = ran.1.map Move.label ∧
        Represents ran.2.map ran.2.mem tree finite ∧
      ∀ op, Refined ran.2.map ran.2.mem finite op := by
  intro _
  exact ⟨by decide +kernel, treemap_refines_sorted_map noNodes (trace_run next? step_of_next? _ _)⟩

end Nx.TreeRuns
