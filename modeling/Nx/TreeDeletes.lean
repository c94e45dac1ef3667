import Nx.TreeOps

/-!
Deletion from a map: `deleteNode` does to the nodes what `sink` and `unlink` do to the tree.
-/

namespace Nx.TreeDeletes

open Outcomes Cells AvlTrees SearchTrees TreeMaps TreeLinks TreeOps List

variable {Ptr K V : Type} {way : List (Frame (Entry Ptr K V))} {tree : Marked (Entry Ptr K V)}
  {mem : Heap Ptr K V}
variable {entry : Entry Ptr K V} {mark : Mark} {failed : Fault → Prop} {self : TreeMap Ptr}
  {fuel : Nat}

def take (entry heir : Entry Ptr K V) : Entry Ptr K V := { heir with addr := entry.addr }

@[simp] theorem content_take (entry heir : Entry Ptr K V) :
    content (take entry heir) = content heir := rfl

section Roots

variable {other : Marked (Entry Ptr K V)}

theorem rootOf_plug (same : rootOf tree = rootOf other) :
    rootOf (plug way tree) = rootOf (plug way other) := by
  induction way generalizing tree other with
  | nil => exact same
  | cons _ _ ih =>
    apply ih
    rw [Frame.plug, Frame.plug, rootOf_branch, rootOf_branch]

end Roots

section Heir

variable [DecidableEq Ptr] {side : Side} {near far : Marked (Entry Ptr K V)}

theorem At.renamed (new : Entry Ptr K V) (isAt : At mem way (.branch side near entry mark far))
    (sameAddr : new.addr = entry.addr) :
    At (mem.put entry.addr (link side (rootOf near) (rootOf far) (top way) new mark)) way
      (.branch side near new mark far) := by
  cases side with
  | left | right => exact isAt.relabel new mark sameAddr

omit [DecidableEq Ptr] in
theorem at_outermost (isAt : At mem way near) (side : Side) :
    At mem ((outermost side [] near).1 ++ way) (outermost side [] near).2 := by
  apply at_plug.mp
  rw [plug_outermost]
  exact isAt

theorem heir_ends {child} (isAt : At mem way (.branch side near entry mark far))
    (isChild : rootOf near = some child)
    (bound : near.toList.length ≤ mem.made) : Ends (heir side entry.addr child) mem
      (fun ptr after =>
    ptr = rootOf (heirWay take side way near entry mark far).2 ∧
    At after (heirWay take side way near entry mark far).1
      (heirWay take side way near entry mark far).2 ∧
    after.made = mem.made) failed := by
  have isNode : near ≠ .nil := by
    rintro rfl
    cases isChild
  obtain ⟨node, repNear, _⟩ := rep_branch.mp isAt.below
  obtain ⟨last, _, _, isLast⟩ := last_outermost side.other [] isNode
  have down := at_outermost (at_up.mpr (show At mem way (Frame.plug ⟨side, entry, mark, far⟩ near) from isAt))
    side.other
  rw [isLast] at down
  obtain ⟨lastNode, _, _⟩ := rep_branch.mp down.below
  rw [heir, ← isChild]
  refine ends_get (ends_read (extreme_ends side.other [] repNear isNode bound) ?_)
  rintro _ rfl
  rw [isLast, rootOf_branch]
  refine ends_load lastNode (ends_modify node (ends_pure _ ?_))
  have renamed := At.renamed (take entry last) isAt rfl
  have moved : taken take entry (outermost side.other [] near).2 = take entry last := by
    rw [isLast]
    cases side <;> rfl
  rw [heirWay, moved, isLast, rootOf_branch]
  refine ⟨rfl, ?_, rfl⟩
  have cut := at_outermost (at_up.mpr (show At _ way (Frame.plug ⟨side, _, mark, far⟩ near) from renamed)) side.other
  rw [isLast] at cut
  have written : ({ link side (rootOf near) (rootOf far) (top way) entry mark with
      key := last.key, value := last.value } : Node Ptr K V) =
      link side (rootOf near) (rootOf far) (top way) (take entry last) mark := by
    cases side <;> rfl
  rw [key_link, value_link, written]
  exact cut

variable {above : List (Frame (Entry Ptr K V))}

theorem destroyLeaf_ends {parent} {fuel}
    (live : mem.cells entry.addr = some (link .left none none parent entry mark))
      (enough : 0 < fuel) :
    Ends (destroyNode fuel (some entry.addr)) mem (fun _ after => after = mem.drop entry.addr)
      failed := by
  match fuel with
  | 1 | fuel + 2 =>
    exact ends_load live
      (ends_bind (ends_pure _ (ends_bind (ends_pure _ (ends_deallocate_last live rfl)))))

theorem At.cutLeaf (isAt : At mem (frame :: above) (.node .nil entry mark .nil)) :
    At ((mem.drop entry.addr).put frame.label.addr
      (link frame.side none (rootOf frame.sibling) (top above) frame.label frame.mark))
        (frame :: above) .nil := by
  obtain ⟨_, sibling, rest⟩ := isAt.above
  obtain ⟨off, nodup⟩ := nodup_cons.mp isAt.nodup
  obtain ⟨offFrame, _⟩ := nodup_cons.mp nodup
  change entry.addr ∉ wayAddrs (frame :: above) at off
  rw [wayAddrs, mem_cons, mem_append, not_or, not_or] at off
  rw [mem_append, not_or] at offFrame
  have keptSibling : ∀ addr ∈ addrs frame.sibling, (mem.drop entry.addr).cells addr =
      mem.cells addr :=
    fun addr member => drop_other fun same => off.2.1 (same ▸ member)
  have keptRest : ∀ addr ∈ wayAddrs above, (mem.drop entry.addr).cells addr = mem.cells addr :=
    fun _ member => drop_other fun same => off.2.2 (same ▸ member)
  refine ⟨trivial, ⟨put_self, ?_, ?_⟩, nodup⟩
  · exact rep_put offFrame.1 (rep_congr keptSibling sibling)
  · exact repWay_put offFrame.2 (repWay_congr keptRest rest)

theorem detach_ends (isAt : At mem (frame :: above) (.node .nil entry mark .nil))
    (positive : 0 < mem.made) :
    Ends (detach frame.label.addr entry.addr) mem (fun _ after => At after (frame :: above) .nil ∧
    after.made = mem.made) failed := by
  have off := At.off_sibling isAt rfl
  have cut := At.cutLeaf isAt
  have differs : frame.label.addr ≠ entry.addr := by
    intro same
    apply (nodup_cons.mp isAt.nodup).1
    rw [← same]
    exact mem_cons_self
  have leaf := isAt.below.1
  obtain ⟨side, label, frameMark, sibling⟩ := frame
  cases side with
  | left =>
    have node : mem.cells label.addr = some ⟨label.key, label.value, some entry.addr,
        rootOf sibling, top above,
      frameMark.height, frameMark.balance⟩ := isAt.above.1
    refine ends_load node (ends_get ?_)
    rw [if_pos rfl]
    apply ends_seq (destroyLeaf_ends leaf positive)
    rintro _ _ rfl
    exact ends_modify_last ((drop_other differs).trans node) ⟨cut, rfl⟩
  | right =>
    have node : mem.cells label.addr = some ⟨label.key, label.value, rootOf sibling,
        some entry.addr, top above,
      frameMark.height, frameMark.balance⟩ := isAt.above.1
    refine ends_load node (ends_get ?_)
    rw [if_neg off, if_pos (Option.some_ne_none _)]
    apply ends_seq (destroyLeaf_ends leaf positive)
    rintro _ _ rfl
    exact ends_modify_last ((drop_other differs).trans node) ⟨cut, rfl⟩

theorem deleteLeaf_ends {self} (isAt : At mem way (.node .nil entry mark .nil))
    (isRoot : self.root = rootOf (plug way (.node .nil entry mark .nil)))
      (sane : ∀ frame ∈ way, frame.Sane)
    (enough : way.length < mem.made) : Ends (deleteLeaf self entry.addr (top way)) mem
      (fun self' after =>
    self' = { self with root := rootOf (unlink way) } ∧ At after [] (unlink way) ∧
      after.made = mem.made) failed := by
  have positive : 0 < mem.made := Nat.zero_lt_of_lt enough
  match way with
  | [] =>
    unfold deleteLeaf
    rw [isRoot]
    refine ends_get (ends_seq (destroyLeaf_ends isAt.below.1 positive) ?_)
    rintro _ _ rfl
    exact ends_pure _ ⟨rfl, ⟨trivial, trivial, nodup_nil⟩, rfl⟩
  | [frame] =>
    apply ends_seq (detach_ends isAt positive)
    rintro _ after ⟨cut, made⟩
    refine ends_load cut.above.1 (ends_get ?_)
    rw [parent_link, top]
    have stays : rebalance after.made self none = (pure self : Program (Heap Ptr K V) Fault _) := by
      rw [rebalance]
    rw [stays]
    refine ends_pure _ ⟨?_, at_up.mp cut, made⟩
    rw [plug, plug, Frame.plug, rootOf_branch] at isRoot
    rw [unlink, Frame.plug, rootOf_branch, ← isRoot]
  | frame :: higher :: rest =>
    apply ends_seq (detach_ends isAt positive)
    rintro _ after ⟨cut, made⟩
    refine ends_load cut.above.1 (ends_get ?_)
    have whole : (plug rest (higher.plug (frame.plug .nil))).Sane :=
      (sane_plug (frame :: higher :: rest)).mpr ⟨sane, trivial⟩
    have short : rest.length < after.made := by
      rw [length_cons, length_cons] at enough
      omega
    have climbs : Ends (rebalance after.made self _) _ _ failed :=
      rebalance_ends (at_up.mp (at_up.mp cut)) branch_ne_nil whole short
    rw [Frame.plug, rootOf_branch, ← Frame.plug] at climbs
    rw [parent_link, top]
    apply ends_imp climbs
    rintro _ _ ⟨isSelf, isAt, madeToo⟩
    exact ⟨isSelf, isAt, madeToo.trans made⟩

end Heir

section Delete

variable [DecidableEq Ptr]
  {entry : Entry Ptr K V} {mark : Mark}

structure Doomed (map : TreeMap Ptr) (mem : Heap Ptr K V) (way : List (Frame (Entry Ptr K V)))
    (tree : Marked (Entry Ptr K V)) : Prop where
  nodes : At mem way tree
  isNode : tree ≠ .nil
  root : map.root = rootOf (plug way tree)
  sane : (plug way tree).Sane
  bound : (plug way tree).toList.length ≤ mem.made

theorem Doomed.heir_ends {child} (doomed : Doomed self mem way (.branch side near entry mark far))
    (isChild : rootOf near = some child) : Ends (heir side entry.addr child) mem (fun ptr after =>
    ptr = rootOf (heirWay take side way near entry mark far).2 ∧
    Doomed self after (heirWay take side way near entry mark far).1
      (heirWay take side way near entry mark far).2 ∧
    after.made = mem.made) failed := by
  have isNode : near ≠ .nil := by
    rintro rfl
    cases isChild
  have bound := doomed.bound
  have near_le : near.toList.length ≤ mem.made := by
    rw [toList_plug, length_append, length_append, length_branch] at bound
    omega
  apply ends_imp (TreeDeletes.heir_ends doomed.nodes isChild near_le)
  rintro _ _ ⟨isPtr, nodes, made⟩
  refine ⟨isPtr, ⟨nodes, heirWay_ne_nil isNode, ?_, sane_heirWay doomed.sane, ?_⟩, made⟩
  · rw [plug_heirWay, doomed.root]
    apply rootOf_plug
    rw [rootOf_branch, rootOf_branch]
    cases (outermost side.other [] near).2 <;> rfl
  · rw [plug_heirWay, made, toList_plug, length_append, length_append, length_branch]
    rwa [toList_plug, length_append, length_append, length_branch] at bound

theorem Doomed.leaf_ends (doomed : Doomed self mem way (.node .nil entry mark .nil)) :
    Ends (deleteLeaf
    { self with cnt := self.cnt - 1 } entry.addr (top way)) mem (fun self' after =>
    self' = ⟨rootOf (unlink way), self.cnt - 1⟩ ∧ At after [] (unlink way) ∧ after.made = mem.made)
      failed := by
  have bound := doomed.bound
  have length := length_way way
  have short : way.length < mem.made := by
    rw [toList_plug, length_append, length_append] at bound
    simp only [Marked.toList, length_append, length_cons] at bound
    omega
  exact deleteLeaf_ends doomed.nodes doomed.root ((sane_plug way).mp doomed.sane).1 short

theorem deleteNode_ends (doomed : Doomed self mem way tree) (enough : tree.toList.length ≤ fuel) :
    Ends (deleteNode fuel self (rootOf tree)) mem (fun self' after =>
    self' = ⟨rootOf (unlink (sink take fuel way tree)), self.cnt - 1⟩ ∧
      At after [] (unlink (sink take fuel way tree)) ∧
    after.made = mem.made) failed := by
  induction fuel generalizing mem way tree with
  | zero =>
    cases tree with
    | nil => exact absurd rfl doomed.isNode
    | node _ entry mark _ => simp at enough
  | succ fuel ih =>
    -- the neighbour is the next to go, in a smaller tree
    have further {mem after : Heap Ptr K V}
        {lower : List (Frame (Entry Ptr K V)) × Marked (Entry Ptr K V)}
        (next : Doomed self after lower.1 lower.2) (made : after.made = mem.made)
        (shorter : lower.2.toList.length ≤ fuel) :
        Ends (deleteNode fuel self (rootOf lower.2)) after
          (fun self' last => self' = ⟨rootOf (unlink (sink take fuel lower.1 lower.2)),
            self.cnt - 1⟩ ∧
            At last [] (unlink (sink take fuel lower.1 lower.2)) ∧ last.made = mem.made)
              failed := by
      apply ends_imp (ih next shorter)
      rintro _ last ⟨isSelf, nodes, same⟩
      exact ⟨isSelf, nodes, same.trans made⟩
    cases tree with
    | nil => exact absurd rfl doomed.isNode
    | node near entry mark far =>
      cases near with
      | nil =>
        cases far with
        | nil => exact ends_load doomed.nodes.below.1 doomed.leaf_ends
        | node lower next nextMark upper =>
          apply ends_load doomed.nodes.below.1
          have given : Doomed self mem way (.branch .right (.node lower next nextMark upper) entry
              mark .nil) := doomed
          apply ends_seq (given.heir_ends rfl)
          rintro ptr after ⟨rfl, doomedToo, made⟩
          exact further doomedToo made (length_heirWay enough)
      | node lower next nextMark upper =>
        apply ends_load doomed.nodes.below.1
        have given : Doomed self mem way (.branch .left (.node lower next nextMark upper) entry mark
            far) := doomed
        apply ends_seq (given.heir_ends rfl)
        rintro _ _ ⟨rfl, doomedToo, made⟩
        exact further doomedToo made (length_heirWay enough)

end Delete

section Keys

variable [LinearOrder K] {last : Heap Ptr K V} {key : K}

def shrunk (fuel : Nat) (key : K) (tree : Marked (Entry Ptr K V)) : Marked (Entry Ptr K V) :=
  unlink (sink take fuel (place key tree).1 (place key tree).2)

theorem toList_place (key : K) (tree : Marked (Entry Ptr K V)) :
    tree.toList = before (place key tree).1 ++ (place key tree).2.toList ++
      after (place key tree).1 := by
  rw [← toList_plug, plug_place]

theorem length_place (key : K) (tree : Marked (Entry Ptr K V)) :
    (place key tree).2.toList.length ≤ tree.toList.length := by
  rw [toList_place key tree, length_append, length_append]
  omega

theorem content_shrunk (found : (place key tree).2 ≠ .nil) (enough : tree.toList.length ≤ fuel) :
    (shrunk fuel key tree).toList.map content = (around (place key tree).1 (place key tree).2).map
      content := by
  rw [shrunk, toList_unlink]
  exact around_sink content_take found ((length_place key tree).trans enough)

theorem sorted_content (entries : List (Entry Ptr K V)) :
    Sorted Entry.key entries ↔ Sorted Prod.fst (entries.map content) := by
  rw [Sorted, Sorted, pairwise_map]
  rfl

theorem content_place (found : (place key tree).2 = .node left entry mark right) :
    tree.toList.map content = (before (place key tree).1 ++ left.toList).map content ++
      content entry :: (right.toList ++ after (place key tree).1).map content := by
  rw [toList_place key tree, found, Marked.toList]
  simp

theorem content_around (found : (place key tree).2 = .node left entry mark right) :
    (around (place key tree).1 (place key tree).2).map content =
      (before (place key tree).1 ++ left.toList).map content ++
        (right.toList ++ after (place key tree).1).map content := by
  rw [around, found, Marked.child, Marked.child]
  simp

theorem Holds.shrunk (holds : Holds self mem tree) (found : (place key tree).2 ≠ .nil)
    (enough : tree.toList.length ≤ fuel) (nodes : At last [] (shrunk fuel key tree))
      (made : last.made = mem.made) :
    Holds ⟨rootOf (shrunk fuel key tree), self.cnt - 1⟩ last (shrunk fuel key tree) := by
  have contents := content_shrunk found enough
  obtain ⟨_, _, _, _, isNode⟩ := eq_branch .left found
  have whole := content_place isNode
  have rest := content_around isNode
  have length : (TreeDeletes.shrunk fuel key tree).toList.length + 1 = tree.toList.length := by
    have lengths := congrArg List.length (contents.trans rest)
    have lengthsToo := congrArg List.length whole
    simp only [length_map, length_append, length_cons] at lengths lengthsToo
    omega
  have sane := holds.sane
  rw [← plug_place key tree] at sane
  refine ⟨rfl, nodes, ?_, ?_, ?_, ?_⟩
  · have count := holds.cnt
    dsimp only
    omega
  · have bound := holds.bound
    omega
  · exact sane_unlink (sane_sink found ((length_place key tree).trans enough) sane)
  · rw [sorted_content, contents, rest]
    have sorted := (sorted_content _).mp holds.sorted
    rw [whole] at sorted
    exact sorted.sublist ((sublist_cons_self _ _).append_left _)

theorem Holds.doomed (holds : Holds self mem tree) (found : (place key tree).2 ≠ .nil) :
    Doomed self mem (place key tree).1 (place key tree).2 := by
  refine ⟨holds.cut key, found, ?_, ?_, ?_⟩
  · rw [plug_place, holds.root]
  · rw [plug_place]
    exact holds.sane
  · rw [plug_place]
    exact holds.bound

variable [DecidableEq Ptr]

theorem deletes (holds : Holds self mem tree) (found : (place key tree).2 ≠ .nil) :
    Ends (deleteNode mem.made self (rootOf (place key tree).2)) mem (fun self' after =>
    Holds self' after (shrunk mem.made key tree)) failed := by
  have enough := (length_place key tree).trans holds.bound
  apply ends_imp (deleteNode_ends (Holds.doomed holds found) enough)
  rintro _ _ ⟨rfl, nodes, made⟩
  exact Holds.shrunk holds found holds.bound nodes made

omit [DecidableEq Ptr] in
theorem find_ends (key : K) (holds : Holds self mem tree) :
    Ends (find self key) mem (fun ptr same => ptr = rootOf (place key tree).2 ∧ same = mem)
      failed := by
  rw [find, holds.root]
  exact ends_get (findFrom_ends holds.nodes.below holds.bound)

theorem remove_ends (holds : Holds self mem tree) : Ends (remove self key) mem (fun out after =>
    (out = (false, self) ∧ after = mem ∧ (place key tree).2 = .nil) ∨
    (out.1 = true ∧ (place key tree).2 ≠ .nil ∧ Holds out.2 after (shrunk mem.made key tree)))
      failed := by
  rw [remove, holds.root]
  refine ends_get (removeFrom_ends [] holds.nodes.below holds.bound ?_ ?_)
  · exact fun absent => .inl ⟨rfl, rfl, absent⟩
  · intro _ _ _ _ isNode
    have found : (place key tree).2 ≠ .nil := by
      rw [place, isNode]
      exact node_ne_nil
    have ends : Ends _ _ _ failed := deletes holds found
    rw [place, isNode, rootOf_node] at ends
    apply ends_imp ends
    exact fun _ _ shrinks => .inr ⟨rfl, found, shrinks⟩

theorem erase_ends (holds : Holds self mem tree) :
    Ends (erase self (rootOf (place key tree).2)) mem (fun self' after =>
    (self' = self ∧ after = mem ∧ (place key tree).2 = .nil) ∨
    ((place key tree).2 ≠ .nil ∧ Holds self' after (shrunk mem.made key tree))) failed := by
  apply ends_get
  by_cases absent : (place key tree).2 = .nil
  · rw [absent, rootOf_nil, deleteNode]
    exact ends_pure _ (.inl ⟨rfl, rfl, rfl⟩)
  · apply ends_imp (deletes holds absent)
    exact fun _ _ shrinks => .inr ⟨absent, shrinks⟩

end Keys

end Nx.TreeDeletes
