import Nx.AvlDeletes
import Nx.TreeLinks

/-!
What the operations of a map do to its tree.
-/

namespace Nx.TreeOps

open Outcomes Cells AvlTrees SearchTrees TreeMaps TreeLinks
open List hiding after

variable {Ptr K V : Type}
variable {mem : Heap Ptr K V} {tree : Marked (Entry Ptr K V)} {way : List (Frame (Entry Ptr K V))}
  {fuel : Nat}
variable {failed : Fault → Prop} {frame : Frame (Entry Ptr K V)} {self : TreeMap Ptr}

/-! Ways down. -/

section Down

theorem extreme_ends (side : Side) (way : List (Frame (Entry Ptr K V)))
    (rep : Rep mem.cells parent tree)
    (isNode : tree ≠ .nil) (enough : tree.toList.length ≤ fuel) :
      Ends (extreme side fuel (rootOf tree)) mem
    (fun ptr same => ptr = rootOf (outermost side way tree).2 ∧ same = mem) failed := by
  induction fuel generalizing tree parent way with
  | zero =>
    cases tree with
    | nil => exact absurd rfl isNode
    | node left _ _ right => simp at enough
  | succ _ ih =>
    obtain ⟨near, _, _, _, rfl⟩ := eq_branch side isNode
    obtain ⟨node, repNear, _⟩ := rep_branch.mp rep
    rw [rootOf_branch]
    apply ends_load node
    rw [child_link]
    rw [length_branch] at enough
    cases near with
    | nil =>
      rw [outermost_end, rootOf_branch]
      exact ends_pure _ ⟨rfl, rfl⟩
    | node =>
      rw [outermost_step node_ne_nil]
      exact ih _ repNear node_ne_nil (by omega)

theorem sizes_le {left right : Marked α} (enough :
    (Marked.node left entry mark right).toList.length ≤ fuel + 1) :
    left.toList.length ≤ fuel ∧ right.toList.length ≤ fuel := by
  rw [Marked.toList, length_append, length_cons] at enough
  omega

theorem eq_cons_of_top (isTop : top way = some addr) :
    ∃ frame above, way = frame :: above ∧ frame.label.addr = addr := by
  cases way with
  | nil => cases isTop
  | cons frame above => exact ⟨frame, above, rfl, Option.some.inj isTop⟩

variable [LinearOrder K]

theorem findFrom_ends (rep : Rep mem.cells parent tree) (enough : tree.toList.length ≤ fuel) :
    Ends (findFrom key fuel (rootOf tree)) mem
      (fun ptr same => ptr = rootOf (locate Entry.key key way tree).2 ∧
    same = mem) failed := by
  induction tree generalizing parent way fuel with
  | nil =>
    cases fuel with
    | zero | succ fuel => exact ends_pure _ ⟨rfl, rfl⟩
  | node _ _ _ _ ihLeft ihRight =>
    cases fuel with
    | zero => simp at enough
    | succ =>
      have sizes := sizes_le enough
      apply ends_load rep.1
      rw [key_link, locate]
      split
      · exact ends_pure _ ⟨rfl, rfl⟩
      · rw [sideOf]
        split
        · exact ihLeft rep.2.1 sizes.1
        · exact ihRight rep.2.2 sizes.2

theorem search_ends {root} (rep : Rep mem.cells parent tree) (isRoot : rootOf tree = some root)
    (enough : tree.toList.length ≤ fuel) : Ends (search key fuel root) mem
      (fun out same => ((out.1 = true ∧ rootOf (locate Entry.key key way tree).2 = some out.2) ∨
        (out.1 = false ∧ (locate Entry.key key way tree).2 = .nil ∧
          top (locate Entry.key key way tree).1 = some out.2)) ∧ same = mem) failed := by
  induction tree generalizing parent way fuel root with
  | nil => cases isRoot
  | node left entry _ right ihLeft ihRight =>
    cases isRoot
    cases fuel with
    | zero => simp at enough
    | succ =>
      have sizes := sizes_le enough
      apply ends_load rep.1
      rw [key_link, locate]
      split
      · exact ends_pure _ ⟨.inl ⟨rfl, rfl⟩, rfl⟩
      · by_cases less : key < entry.key
        · simp only [sideOf, if_pos less]
          cases left with
          | nil => exact ends_pure _ ⟨.inr ⟨rfl, rfl, rfl⟩, rfl⟩
          | node => exact ihLeft rep.2.1 rfl sizes.1
        · simp only [sideOf, if_neg less]
          cases right with
          | nil => exact ends_pure _ ⟨.inr ⟨rfl, rfl, rfl⟩, rfl⟩
          | node => exact ihRight rep.2.2 rfl sizes.2

theorem removeFrom_ends [DecidableEq Ptr] {self} {done : Bool × TreeMap Ptr → Heap Ptr K V → Prop}
    (way : List (Frame (Entry Ptr K V))) (rep : Rep mem.cells parent tree)
      (enough : tree.toList.length ≤ fuel)
    (absent : (locate Entry.key key way tree).2 = .nil → done (false, self) mem)
    (present : ∀ left entry mark right, (locate Entry.key key way tree).2 =
      .node left entry mark right →
    Ends (deleteNode mem.made self (some entry.addr)) mem
      (fun self after => done (true, self) after) failed) :
    Ends (removeFrom key self fuel (rootOf tree)) mem done failed := by
  induction tree generalizing parent way fuel with
  | nil =>
    cases fuel with
    | zero | succ fuel => exact ends_pure _ (absent rfl)
  | node _ entry _ _ ihLeft ihRight =>
    cases fuel with
    | zero => simp at enough
    | succ =>
      have sizes := sizes_le enough
      apply ends_load rep.1
      rw [key_link]
      rw [locate] at absent present
      by_cases same : key = entry.key
      · rw [if_pos same]
        rw [if_pos same.symm] at present
        refine ends_get (ends_seq (present _ _ _ _ rfl) ?_)
        exact fun _ _ holds => ends_pure _ holds
      · rw [if_neg same, sideOf]
        rw [if_neg fun isSame => same isSame.symm] at absent present
        split
        next less =>
          rw [if_pos less] at absent present
          exact ihLeft _ rep.2.1 sizes.1 absent present
        next notLess =>
          rw [if_neg notLess] at absent present
          exact ihRight _ rep.2.2 sizes.2 absent present

end Down

/-! Iteration. -/

def content (entry : Entry Ptr K V) : K × V := (entry.key, entry.value)

section Iteration

variable [DecidableEq Ptr] {left right : Marked (Entry Ptr K V)} {entry : Entry Ptr K V}
  {mark : Mark} {root : Ptr}

def first (entries : List (Entry Ptr K V)) : Option Ptr := entries.head?.map Entry.addr

omit [DecidableEq Ptr] in
theorem first_leftmost (isNode : tree ≠ .nil) (others : List (Entry Ptr K V)) :
    rootOf (outermost .left [] tree).2 = first (tree.toList ++ others) := by
  have labels := toList_outermost .left tree
  obtain ⟨_, _, _, isLast⟩ := last_outermost .left [] isNode
  rw [isLast, before_leftmost (side_outermost .left [] tree (by simp))] at labels
  rw [isLast, ← labels]
  rfl

omit [DecidableEq Ptr] in
theorem At.off_sibling (isAt : At mem (frame :: way) tree) (isRoot : rootOf tree = some root) :
    rootOf frame.sibling ≠ some root := by
  intro same
  refine (nodup_append'.mp isAt.nodup).2.2 (rootOf_mem isRoot) ?_
  exact mem_cons_of_mem _ (mem_append_left _ (rootOf_mem same))

theorem ascend_ends (isAt : At mem way tree) (isRoot : rootOf tree = some root)
    (enough : way.length < fuel) :
    Ends (ascend fuel root) mem (fun ptr same => ptr = first (after way) ∧ same = mem) failed := by
  induction way generalizing tree root fuel with
  | nil =>
    cases tree with
    | nil => cases isRoot
    | node left entry mark right =>
      cases isRoot
      cases fuel with
      | zero => cases enough
      | succ fuel => exact ends_load isAt.below.1 (ends_pure _ ⟨rfl, rfl⟩)
  | cons frame _ ih =>
    have off := At.off_sibling isAt isRoot
    obtain ⟨node, _, _⟩ := isAt.above
    have up := at_up.mp isAt
    rw [isRoot] at node
    cases tree with
    | nil => cases isRoot
    | node left _ _ right =>
      cases isRoot
      cases fuel with
      | zero => cases enough
      | succ =>
        refine ends_load isAt.below.1 (ends_load node ?_)
        obtain ⟨side, _, _, _⟩ := frame
        cases side with
        | left => exact if_neg off ▸ ends_pure _ ⟨rfl, rfl⟩
        | right => exact if_pos rfl ▸ ih up rfl (Nat.lt_of_succ_lt_succ enough)

theorem successor_ends (isAt : At mem way (.node left entry mark right))
    (bound : (plug way (.node left entry mark right)).toList.length ≤ mem.made) :
      Ends (successor (some entry.addr)) mem
    (fun ptr same => ptr = first (right.toList ++ after way) ∧ same = mem) failed := by
  have length := length_way way
  rw [toList_plug, Marked.toList] at bound
  simp only [length_append, length_cons] at bound
  apply ends_load isAt.below.1
  cases right with
  | node =>
    rw [← first_leftmost node_ne_nil]
    exact ends_get (extreme_ends .left [] isAt.below.2.2 node_ne_nil (by omega))
  | nil =>
    cases way with
    | nil => exact ends_pure _ ⟨rfl, rfl⟩
    | cons frame =>
      have off := At.off_sibling isAt rfl
      obtain ⟨node, _, _⟩ := isAt.above
      apply ends_load node
      obtain ⟨side, _, _, _⟩ := frame
      cases side with
      | left => exact if_pos rfl ▸ ends_pure _ ⟨rfl, rfl⟩
      | right => exact if_neg off ▸ ends_get (ascend_ends isAt rfl (by omega))

theorem collect_ends {front rest} (isAt : At mem [] tree)
    (bound : tree.toList.length ≤ mem.made) (split : tree.toList = front ++ rest)
      (enough : rest.length ≤ fuel) :
    Ends (collect fuel (first rest)) mem (fun entries same => entries = rest.map content ∧
      same = mem) failed := by
  induction rest generalizing front fuel with
  | nil =>
    cases fuel with
    | zero | succ fuel => exact ends_pure _ ⟨rfl, rfl⟩
  | cons _ _ ih =>
    cases fuel with
    | zero => cases enough
    | succ =>
      obtain ⟨_, _, _, _, rfl, _, isBack⟩ := exists_way split
      have cut := at_plug.mp isAt
      rw [append_nil] at cut
      refine ends_load cut.below.1 (ends_read (successor_ends cut bound) ?_)
      rintro _ rfl
      rw [← isBack]
      rw [append_cons] at split
      apply ends_read (ih split (Nat.le_of_succ_le_succ enough))
      rintro _ rfl
      exact ends_pure _ ⟨rfl, rfl⟩

theorem iterate_ends {self} (isAt : At mem [] tree) (isRoot : self.root = rootOf tree)
    (bound : tree.toList.length ≤ mem.made) :
    Ends (iterate self) mem (fun entries same => entries = tree.toList.map content ∧ same = mem)
      failed := by
  have begins : Ends (begin self) mem (fun ptr same => ptr = first tree.toList ∧ same = mem)
      failed := by
    rw [begin, isRoot]
    cases tree with
    | nil => exact ends_pure _ ⟨rfl, rfl⟩
    | node =>
      rw [← append_nil (Marked.toList _), ← first_leftmost node_ne_nil]
      exact ends_get (extreme_ends .left [] isAt.below nofun bound)
  have whole : tree.toList = [] ++ tree.toList := rfl
  apply ends_read begins
  rintro _ rfl
  exact ends_get (collect_ends isAt bound whole bound)

end Iteration

/-! Insertion. -/

def leaf (entry : Entry Ptr K V) : Marked (Entry Ptr K V) := .node .nil entry ⟨0, 0⟩ .nil

def grown (way : List (Frame (Entry Ptr K V))) (entry : Entry Ptr K V) : Marked (Entry Ptr K V) :=
  match way with
  | [] => leaf entry
  | frame :: above => climb above (frame.plug (leaf entry))

theorem toList_grown (way : List (Frame (Entry Ptr K V))) (entry : Entry Ptr K V) :
    (grown way entry).toList = before way ++ entry :: after way := by
  cases way with
  | nil => rfl
  | cons =>
    rw [grown, toList_climb, toList_framePlug, before, after]
    simp [leaf]

theorem sane_grown (sane : ∀ frame ∈ way, frame.Sane) (entry : Entry Ptr K V) :
    (grown way entry).Sane := by
  have saneLeaf : (leaf entry).Sane := ⟨le_refl _, trivial, trivial⟩
  cases way with
  | nil => exact saneLeaf
  | cons frame above => exact sane_climb above ((sane_plug (frame :: above)).mpr ⟨sane, saneLeaf⟩)

section Insertion

variable [DecidableEq Ptr] {above : List (Frame (Entry Ptr K V))} {node : Node Ptr K V}

theorem rep_extend (free : mem.cells addr = none) (rep : Rep mem.cells parent tree) :
    Rep (mem.extend addr node supply).cells parent tree := by
  refine rep_congr (fun _ member => extend_other ?_) rep
  rintro rfl
  obtain ⟨_, live⟩ := rep_live rep member
  cases live.symm.trans free

theorem repWay_extend (free : mem.cells addr = none) (rep : RepWay mem.cells hole way) :
    RepWay (mem.extend addr node supply).cells hole way := by
  refine repWay_congr (fun _ member => extend_other ?_) rep
  rintro rfl
  obtain ⟨_, live⟩ := repWay_live rep member
  cases live.symm.trans free

theorem At.grow (entry : Entry Ptr K V) (supply : List Ptr) (isAt : At mem (frame :: above) .nil)
    (free : mem.cells entry.addr = none) :
    At ((mem.extend entry.addr (link .left none none (some frame.label.addr) entry ⟨0, 0⟩)
      supply).put
      frame.label.addr (link frame.side (some entry.addr) (rootOf frame.sibling)
        (top above) frame.label
        frame.mark)) (frame :: above) (leaf entry) := by
  obtain ⟨node, sibling, rest⟩ := isAt.above
  have differs : entry.addr ≠ frame.label.addr := by
    intro same
    rw [same, node] at free
    cases free
  have nodup := isAt.nodup
  rw [addrs_nil, nil_append] at nodup
  have off := nodup_cons.mp nodup
  rw [mem_append, not_or] at off
  refine ⟨⟨?_, trivial, trivial⟩, ⟨put_self, ?_, ?_⟩, ?_⟩
  · rw [put_other differs]
    exact extend_self
  · exact rep_put off.1.1 (rep_extend free sibling)
  · exact repWay_put off.1.2 (repWay_extend free rest)
  · refine nodup_cons.mpr ⟨?_, nodup⟩
    intro member
    obtain ⟨_, live⟩ := repWay_live isAt.above member
    cases live.symm.trans free

variable [LinearOrder K]

theorem attach_ends (isAt : At mem (frame :: above) .nil)
    (isSide : frame.side = sideOf key frame.label.key)
    (sane : ∀ other ∈ frame :: above, other.Sane) (enough : above.length ≤ mem.made) :
    Ends (attach self key value frame.label.addr) mem (fun self' after =>
      ∃ addr, mem.cells addr = none ∧
    self' = { self with root := rootOf (grown (frame :: above) ⟨addr, key, value⟩) } ∧
    At after [] (grown (frame :: above) ⟨addr, key, value⟩) ∧ after.made = mem.made + 1)
      mem.OutOf := by
  have node := isAt.above.1
  refine ends_load node (ends_allocate (fun exhausted => ⟨rfl, exhausted⟩) ?_)
  intro addr supply free
  have differs : frame.label.addr ≠ addr := by
    rintro rfl
    cases node.symm.trans free
  refine ends_modify ((extend_other differs).trans node) (ends_get ?_)
  rw [key_link, ← isSide, setChild_link]
  have linked := At.grow ⟨addr, key, value⟩ supply isAt free
  have whole : (plug above (frame.plug (leaf (⟨addr, key, value⟩ : Entry Ptr K V)))).Sane :=
    (sane_plug (frame :: above)).mpr ⟨sane, le_refl _, trivial, trivial⟩
  have climbs : Ends (rebalance _ self _) _ _ mem.OutOf :=
    rebalance_ends (at_up.mp linked) branch_ne_nil whole (Nat.lt_succ_of_le enough)
  rw [Frame.plug, rootOf_branch] at climbs
  apply ends_imp climbs
  rintro _ _ ⟨isSelf, isAtToo, made⟩
  exact ⟨addr, free, isSelf, isAtToo, made⟩

end Insertion

structure Holds [LinearOrder K] (map : TreeMap Ptr) (mem : Heap Ptr K V)
    (tree : Marked (Entry Ptr K V)) : Prop where
  root : map.root = rootOf tree
  nodes : At mem [] tree
  cnt : map.cnt = tree.toList.length
  bound : tree.toList.length ≤ mem.made
  sane : tree.Sane
  sorted : Sorted Entry.key tree.toList

theorem holds_empty [LinearOrder K] (mem : Heap Ptr K V) : Holds {} mem .nil :=
  ⟨rfl, ⟨trivial, trivial, nodup_nil⟩, rfl, Nat.zero_le _, trivial, .nil⟩

section Insert

variable [LinearOrder K] {key : K}

def place (key : K) (tree : Marked (Entry Ptr K V)) :
    List (Frame (Entry Ptr K V)) × Marked (Entry Ptr K V) :=
  locate Entry.key key [] tree

theorem plug_place (key : K) (tree : Marked (Entry Ptr K V)) :
    plug (place key tree).1 (place key tree).2 = tree := plug_locate Entry.key key [] tree

theorem Holds.cut (holds : Holds self mem tree) (key : K) :
    At mem (place key tree).1 (place key tree).2 := by
  have whole := holds.nodes
  rw [← plug_place key tree] at whole
  have cut := at_plug.mp whole
  rwa [append_nil] at cut

theorem Holds.grown {self'} {after} (entry : Entry Ptr K V) (holds : Holds self mem tree)
    (absent : (place entry.key tree).2 = .nil)
      (isRoot : self'.root = rootOf (grown (place entry.key tree).1 entry))
    (count : self'.cnt = self.cnt + 1) (nodes : At after [] (grown (place entry.key tree).1 entry))
    (made : after.made = mem.made + 1) : Holds self' after
      (grown (place entry.key tree).1 entry) := by
  obtain ⟨low, high, split⟩ := locate_absent holds.sorted absent
  rw [← place] at low high split
  have length : (TreeOps.grown (place entry.key tree).1 entry).toList.length =
      tree.toList.length + 1 := by
    rw [toList_grown, split, length_append, length_append, length_cons]
    omega
  have sane := holds.sane
  rw [← plug_place entry.key tree] at sane
  have sorted := holds.sorted
  rw [split] at sorted
  refine ⟨isRoot, nodes, ?_, ?_, sane_grown ((sane_plug _).mp sane).1 entry, ?_⟩
  · rw [count, holds.cnt, length]
  · rw [length, made]
    exact Nat.succ_le_succ holds.bound
  · rw [toList_grown]
    exact sorted_insert sorted low high

theorem fits_place (key : K) (tree : Marked (Entry Ptr K V)) :
    Fits Entry.key key (place key tree).1 :=
  fits_locate tree (by simp [Fits])

theorem Holds.length_way (holds : Holds self mem tree) (key : K) :
    (place key tree).1.length ≤ mem.made := by
  have whole := congrArg (fun other : Marked (Entry Ptr K V) => other.toList.length)
      (plug_place key tree)
  simp only [toList_plug, length_append] at whole
  have way := AvlTrees.length_way (place key tree).1
  have bound := holds.bound
  omega

theorem Holds.sane_way (holds : Holds self mem tree) (key : K) :
    ∀ frame ∈ (place key tree).1, frame.Sane := by
  have sane := holds.sane
  rw [← plug_place key tree] at sane
  exact ((sane_plug _).mp sane).1

theorem search_place (key : K) (holds : Holds self mem tree) (isRoot : rootOf tree = some root) :
    Ends (search key mem.made root) mem (fun out same =>
      ((out.1 = true ∧ rootOf (place key tree).2 = some out.2) ∨
        (out.1 = false ∧ (place key tree).2 = .nil ∧ top (place key tree).1 = some out.2)) ∧
          same = mem) failed :=
  search_ends holds.nodes.below isRoot holds.bound

variable [DecidableEq Ptr]

theorem firstNode_ends (holds : Holds self mem .nil) {β : Type}
    {next : Ptr → Program (Heap Ptr K V) Fault β}
    {done : β → Heap Ptr K V → Prop} (rest : ∀ addr after, mem.cells addr = none → Holds
    { self with root := some addr, cnt := self.cnt + 1 } after (grown [] ⟨addr, key, value⟩) →
    Ends (next addr) after done mem.OutOf) : Ends (createNode key value none >>= next) mem done
    mem.OutOf := by
  refine ends_allocate (fun exhausted => ⟨rfl, exhausted⟩) ?_
  intro addr _ free
  apply rest addr _ free
  refine Holds.grown ⟨addr, key, value⟩ holds rfl rfl rfl ⟨⟨?_, trivial, trivial⟩, trivial, ?_⟩ rfl
  · exact extend_self
  · exact nodup_singleton addr

theorem attached_ends (holds : Holds self mem tree) (absent : (place key tree).2 = .nil)
    (isWay : (place key tree).1 = frame :: above) :
      Ends (attach counted key value frame.label.addr) mem
    (fun self' after => self'.cnt = counted.cnt ∧ ∃ addr, mem.cells addr = none ∧
    Holds { self' with cnt := self.cnt + 1 } after (grown (place key tree).1 ⟨addr, key, value⟩))
      mem.OutOf := by
  have cut := holds.cut key
  have fits := fits_place key tree
  have sane := holds.sane_way key
  have length := holds.length_way key
  rw [isWay] at cut fits sane length
  rw [absent] at cut
  have isSide := (forall_mem_cons.mp fits).1.2
  apply ends_imp (attach_ends cut isSide sane (Nat.le_of_succ_le length))
  rintro _ _ ⟨addr, free, rfl, isAt, made⟩
  refine ⟨rfl, addr, free, ?_⟩
  rw [← isWay] at isAt
  refine Holds.grown ⟨addr, key, value⟩ holds absent ?_ rfl isAt made
  rw [isWay]

theorem insert_ends (holds : Holds self mem tree) : Ends (insert self key value) mem
      (fun out after => (out = (false, self) ∧ after = mem ∧ (place key tree).2 ≠ .nil) ∨
        (out.1 = true ∧ (place key tree).2 = .nil ∧ ∃ addr, mem.cells addr = none ∧
          Holds out.2 after (grown (place key tree).1 ⟨addr, key, value⟩))) mem.OutOf := by
  rw [TreeMaps.insert, holds.root]
  cases isTree : tree with
  | nil =>
    rw [isTree] at holds
    apply firstNode_ends holds
    intro addr after free grows
    exact ends_pure _ (.inr ⟨rfl, rfl, addr, free, grows⟩)
  | node _ entry _ _ =>
    have isRoot : rootOf tree = some entry.addr := by rw [isTree, rootOf_node]
    rw [← isTree, isRoot]
    refine ends_get (ends_read (search_place key holds isRoot) ?_)
    rintro ⟨_, _⟩ (⟨rfl, isFound⟩ | ⟨rfl, absent, isParent⟩)
    · refine ends_pure _ (.inl ⟨rfl, rfl, ?_⟩)
      intro isNil
      rw [isNil] at isFound
      cases isFound
    · obtain ⟨_, _, isWay, rfl⟩ := eq_cons_of_top isParent
      apply ends_seq (attached_ends holds absent isWay)
      rintro _ _ ⟨count, addr, free, grows⟩
      refine ends_pure _ (.inr ⟨rfl, absent, addr, free, ?_⟩)
      rw [count]
      exact grows

end Insert

end Nx.TreeOps
