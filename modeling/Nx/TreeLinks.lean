import Nx.TreeMaps

/-!
The tree that the nodes of a map form, with the memory cut at one of its nodes: the subtree below,
and the way up to the root.
-/

namespace Nx.TreeLinks

open Outcomes Cells AvlTrees TreeMaps List Marked

variable {Ptr K V : Type}
variable {side : Side} {parent : Option Ptr} {mark : Mark} {mem : Heap Ptr K V} {β : Type}
  {failed : Fault → Prop}

structure Entry (Ptr K V : Type) where
  addr : Ptr
  key : K
  value : V

variable {entry : Entry Ptr K V} {tree : Marked (Entry Ptr K V)}
  {way : List (Frame (Entry Ptr K V))}

def rootOf : Marked (Entry Ptr K V) → Option Ptr
  | .nil => none
  | .node _ entry _ _ => some entry.addr

@[simp] theorem rootOf_nil : rootOf (.nil : Marked (Entry Ptr K V)) = none := rfl

@[simp] theorem rootOf_node (left right : Marked (Entry Ptr K V)) (entry : Entry Ptr K V)
    (mark : Mark) :
    rootOf (.node left entry mark right) = some entry.addr := rfl

@[simp] theorem rootOf_branch (side : Side) (near far : Marked (Entry Ptr K V))
    (entry : Entry Ptr K V)
    (mark : Mark) : rootOf (.branch side near entry mark far) = some entry.addr := by
  cases side <;> rfl

def link (side : Side) (near far parent : Option Ptr) (entry : Entry Ptr K V) (mark : Mark) :
    Node Ptr K V :=
  match side with
  | .left => ⟨entry.key, entry.value, near, far, parent, mark.height, mark.balance⟩
  | .right => ⟨entry.key, entry.value, far, near, parent, mark.height, mark.balance⟩

section Link

variable {near far : Option Ptr}

@[simp] theorem child_link : (link side near far parent entry mark).child side = near := by
  cases side <;> rfl

@[simp] theorem child_other_link : (link side near far parent entry mark).child side.other =
    far := by
  cases side <;> rfl

@[simp] theorem setChild_link (new : Option Ptr) :
    (link side near far parent entry mark).setChild side new =
      link side new far parent entry mark := by
  cases side <;> rfl

@[simp] theorem setChild_other_link (new : Option Ptr) :
    (link side near far parent entry mark).setChild side.other new =
      link side near new parent entry mark := by
  cases side <;> rfl

@[simp] theorem parent_link : (link side near far parent entry mark).parent = parent := by
  cases side <;> rfl

@[simp] theorem setParent_link (new : Option Ptr) :
    { link side near far parent entry mark with parent := new } =
      link side near far new entry mark := by
  cases side <;> rfl

@[simp] theorem key_link : (link side near far parent entry mark).key = entry.key := by
  cases side <;> rfl

@[simp] theorem value_link : (link side near far parent entry mark).value = entry.value := by
  cases side <;> rfl

@[simp] theorem balance_link : (link side near far parent entry mark).balance = mark.balance := by
  cases side <;> rfl

end Link

def Rep (cells : Ptr → Option (Node Ptr K V)) : Option Ptr → Marked (Entry Ptr K V) → Prop
  | _, .nil => True
  | parent, .node left entry mark right =>
    cells entry.addr = some (link .left (rootOf left) (rootOf right) parent entry mark) ∧
      Rep cells (some entry.addr) left ∧ Rep cells (some entry.addr) right

def addrs (tree : Marked (Entry Ptr K V)) : List Ptr := tree.toList.map Entry.addr

def top : List (Frame (Entry Ptr K V)) → Option Ptr
  | [] => none
  | frame :: _ => some frame.label.addr

def RepWay (cells : Ptr → Option (Node Ptr K V)) : Option Ptr → List (Frame (Entry Ptr K V)) → Prop
  | _, [] => True
  | hole, frame :: rest =>
    cells frame.label.addr = some (link frame.side hole (rootOf frame.sibling)
      (top rest) frame.label frame.mark) ∧
      Rep cells (some frame.label.addr) frame.sibling ∧ RepWay cells (some frame.label.addr) rest

def wayAddrs : List (Frame (Entry Ptr K V)) → List Ptr
  | [] => []
  | frame :: rest => frame.label.addr :: (addrs frame.sibling ++ wayAddrs rest)

section Addrs

variable {near far : Marked (Entry Ptr K V)} {cells other : Ptr → Option (Node Ptr K V)}
  {hole : Option Ptr}

@[simp] theorem addrs_nil : addrs (.nil : Marked (Entry Ptr K V)) = [] := rfl

theorem addrs_node (left right : Marked (Entry Ptr K V)) :
    addrs (.node left entry mark right) = addrs left ++ entry.addr :: addrs right := by
  simp [addrs]

theorem addrs_branch : (addrs (.branch side near entry mark far)).Perm
    (entry.addr :: (addrs near ++ addrs far)) := by
  cases side with
  | left =>
    rw [branch, addrs_node]
    exact perm_middle
  | right =>
    rw [branch, addrs_node]
    exact perm_middle.trans (perm_append_comm.cons _)

theorem rep_branch : Rep cells parent (.branch side near entry mark far) ↔
    cells entry.addr = some (link side (rootOf near) (rootOf far) parent entry mark) ∧
    Rep cells (some entry.addr) near ∧ Rep cells (some entry.addr) far := by
  cases side with
  | left => rfl
  | right =>
    rw [branch, Rep, and_comm (b := Rep cells (some entry.addr) far)]
    rfl

theorem rep_congr (same : ∀ addr ∈ addrs tree, other addr = cells addr)
    (rep : Rep cells parent tree) :
    Rep other parent tree := by
  induction tree generalizing parent with
  | nil => trivial
  | node _ entry _ _ ihLeft ihRight =>
    rw [addrs_node] at same
    refine ⟨?_, ihLeft ?_ rep.2.1, ihRight ?_ rep.2.2⟩
    · rw [same entry.addr (by simp)]
      exact rep.1
    · exact fun addr member => same addr (mem_append_left _ member)
    · exact fun addr member => same addr (mem_append_right _ (mem_cons_of_mem _ member))

theorem repWay_congr (same : ∀ addr ∈ wayAddrs way, other addr = cells addr)
    (rep : RepWay cells hole way) : RepWay other hole way := by
  induction way generalizing hole with
  | nil => trivial
  | cons _ _ ih =>
    refine ⟨?_, rep_congr ?_ rep.2.1, ih ?_ rep.2.2⟩
    · rw [same _ mem_cons_self]
      exact rep.1
    · exact fun addr member => same addr (mem_cons_of_mem _ (mem_append_left _ member))
    · exact fun addr member => same addr (mem_cons_of_mem _ (mem_append_right _ member))

theorem rep_live (rep : Rep cells parent tree) (member : addr ∈ addrs tree) :
    ∃ node, cells addr = some node := by
  induction tree generalizing parent with
  | nil => cases member
  | node _ _ _ _ ihLeft ihRight =>
    rw [addrs_node, mem_append, mem_cons] at member
    rcases member with inLeft | same | inRight
    · exact ihLeft rep.2.1 inLeft
    · exact ⟨_, same ▸ rep.1⟩
    · exact ihRight rep.2.2 inRight

theorem repWay_live (rep : RepWay cells hole way) (member : addr ∈ wayAddrs way) :
    ∃ node, cells addr = some node := by
  induction way generalizing hole with
  | nil => cases member
  | cons _ _ ih =>
    rw [wayAddrs, mem_cons, mem_append] at member
    rcases member with same | inSibling | above
    · exact ⟨_, same ▸ rep.1⟩
    · exact rep_live rep.2.1 inSibling
    · exact ih rep.2.2 above

theorem rootOf_mem (isRoot : rootOf tree = some root) : root ∈ addrs tree := by
  cases tree with
  | nil => cases isRoot
  | node =>
    cases isRoot
    rw [addrs_node]
    simp

end Addrs

/-! The cut. -/

structure At (mem : Heap Ptr K V) (way : List (Frame (Entry Ptr K V)))
    (tree : Marked (Entry Ptr K V)) : Prop where
  below : Rep mem.cells (top way) tree
  above : RepWay mem.cells (rootOf tree) way
  nodup : (addrs tree ++ wayAddrs way).Nodup

section Cut

variable {lower : List (Frame (Entry Ptr K V))}

theorem at_up : At mem (frame :: way) tree ↔ At mem way (frame.plug tree) := by
  have perm : (addrs (frame.plug tree) ++ wayAddrs way).Perm
      (addrs tree ++ wayAddrs (frame :: way)) := by
    apply (addrs_branch.append_right _).trans
    rw [wayAddrs, cons_append, append_assoc]
    exact perm_middle.symm
  constructor
  · rintro ⟨rep, ⟨node, sibling, above⟩, nodup⟩
    refine ⟨rep_branch.mpr ⟨node, rep, sibling⟩, ?_, perm.nodup_iff.mpr nodup⟩
    rw [Frame.plug, rootOf_branch]
    exact above
  · rintro ⟨rep, above, nodup⟩
    obtain ⟨node, lower, sibling⟩ := rep_branch.mp rep
    rw [Frame.plug, rootOf_branch] at above
    exact ⟨lower, ⟨node, sibling, above⟩, perm.nodup_iff.mp nodup⟩

theorem at_plug : At mem way (plug lower tree) ↔ At mem (lower ++ way) tree := by
  induction lower generalizing tree with
  | nil => rfl
  | cons _ _ ih => exact ih.trans at_up.symm

theorem At.whole (isAt : At mem way tree) : At mem [] (plug way tree) := by
  apply at_plug.mpr
  rw [append_nil]
  exact isAt

end Cut

/-! Heights. -/

section Heights

variable {done : β → Heap Ptr K V → Prop} {parent' up : Option Ptr} {node : Node Ptr K V}

theorem ends_height {next : Int → Program (Heap Ptr K V) Fault β} (rep : Rep mem.cells parent tree)
    (rest : Ends (next tree.height) mem done failed) :
      Ends (height (rootOf tree) >>= next) mem done failed := by
  cases tree with
  | nil => exact ends_bind (ends_pure _ rest)
  | node => exact ends_bind (ends_load rep.1 (ends_pure _ rest))

variable [DecidableEq Ptr]

theorem rep_put (off : addr ∉ addrs tree) (rep : Rep mem.cells parent tree) :
    Rep (mem.put addr node).cells parent tree :=
  rep_congr (fun _ member => put_other fun same => off (same ▸ member)) rep

theorem repWay_put (off : addr ∉ wayAddrs way) (rep : RepWay mem.cells parent way) :
    RepWay (mem.put addr node).cells parent way :=
  repWay_congr (fun _ member => put_other fun same => off (same ▸ member)) rep

theorem setBalance_ends {left right} {done : PUnit → Heap Ptr K V → Prop}
    (live : mem.cells entry.addr = some (link .left (rootOf left) (rootOf right) up entry mark))
    (repLeft : Rep mem.cells parent left) (repRight : Rep mem.cells parent' right)
    (offLeft : entry.addr ∉ addrs left) (offRight : entry.addr ∉ addrs right)
    (holds : done ⟨⟩ (mem.put entry.addr (link .left (rootOf left) (rootOf right) up entry
      (Marked.mark left right)))) :
    Ends (setBalance (some entry.addr)) mem done failed := by
  have reads {tree : Marked (Entry Ptr K V)} {above : Option Ptr} {node : Node Ptr K V}
      (off : entry.addr ∉ addrs tree) (rep : Rep mem.cells above tree) :
      Rep (mem.put entry.addr node).cells above tree := rep_put off rep
  refine ends_bind (ends_load live (ends_height repLeft (ends_height repRight ?_)))
  refine ends_modify_last live (ends_load put_self ?_)
  refine ends_height (reads offRight repRight) (ends_height (reads offLeft repLeft) ?_)
  apply ends_modify_last put_self
  rw [put_put]
  exact holds

theorem ends_setBalance {next : PUnit → Program (Heap Ptr K V) Fault β}
    (live : mem.cells entry.addr = some (link side (rootOf near) (rootOf far) up entry mark))
    (repNear : Rep mem.cells parent near) (repFar : Rep mem.cells parent' far)
    (offNear : entry.addr ∉ addrs near) (offFar : entry.addr ∉ addrs far)
      (rest : Ends (next ⟨⟩) (mem.put entry.addr
      (link side (rootOf near) (rootOf far) up entry (buildMark side near far))) done failed) :
    Ends (setBalance (some entry.addr) >>= next) mem done failed := by
  cases side with
  | left => exact ends_bind (setBalance_ends live repNear repFar offNear offFar rest)
  | right => exact ends_bind (setBalance_ends live repFar repNear offFar offNear rest)

end Heights

/-! Rotations. -/

structure Parts (mem : Heap Ptr K V) (a b : Ptr) (nodeA nodeB : Node Ptr K V)
    (upMiddle hole : Option Ptr)
    (near middle far : Marked (Entry Ptr K V)) (way : List (Frame (Entry Ptr K V))) : Prop where
  atA : mem.cells a = some nodeA
  atB : mem.cells b = some nodeB
  near : Rep mem.cells (some a) near
  middle : Rep mem.cells upMiddle middle
  far : Rep mem.cells (some b) far
  way : RepWay mem.cells hole way

structure Apart (a b : Ptr) (near middle far : Marked (Entry Ptr K V))
    (way : List (Frame (Entry Ptr K V))) : Prop where
  ne : a ≠ b
  offA : a ∉ addrs near ∧ a ∉ addrs middle ∧ a ∉ addrs far ∧ a ∉ wayAddrs way
  offB : b ∉ addrs near ∧ b ∉ addrs middle ∧ b ∉ addrs far ∧ b ∉ wayAddrs way
  offMiddle : (addrs middle).Nodup ∧ (∀ addr ∈ addrs middle, addr ∉ addrs near) ∧
    (∀ addr ∈ addrs middle, addr ∉ addrs far) ∧ ∀ addr ∈ addrs middle, addr ∉ wayAddrs way
  offWay : (wayAddrs way).Nodup ∧ (∀ addr ∈ wayAddrs way, addr ∉ addrs near) ∧
    (∀ addr ∈ wayAddrs way, addr ∉ addrs middle) ∧ ∀ addr ∈ wayAddrs way, addr ∉ addrs far

variable {old : Option Ptr} {entryA entryB : Entry Ptr K V} {markA markB : Mark}

section Rotation

variable {a b : Ptr} {near middle far : Marked (Entry Ptr K V)}

theorem apart_of_nodup
    (nodup : (a :: b :: (addrs near ++ (addrs middle ++ (addrs far ++ wayAddrs way)))).Nodup) :
    Apart a b near middle far way := by
  simp only [nodup_cons, nodup_append', mem_cons, mem_append, not_or, disjoint_left] at nodup
  obtain ⟨⟨ne, aNear, aMiddle, aFar, aWay⟩, ⟨bNear, bMiddle, bFar, bWay⟩, _,
      ⟨nodupMiddle, ⟨_, nodupWay, farWay⟩, middleRest⟩,
    nearRest⟩ := nodup
  refine ⟨ne, ⟨aNear, aMiddle, aFar, aWay⟩, ⟨bNear, bMiddle, bFar, bWay⟩, ⟨nodupMiddle, ?_, ?_, ?_⟩,
    nodupWay, ?_, ?_, ?_⟩
  · exact fun addr member inNear => (nearRest inNear).1 member
  · exact fun addr member => (middleRest member).1
  · exact fun addr member => (middleRest member).2
  · exact fun addr member inNear => (nearRest inNear).2.2 member
  · exact fun addr member inMiddle => (middleRest inMiddle).2 member
  · exact fun _ member inFar => farWay inFar member

variable [DecidableEq Ptr]

def reparent (mem : Heap Ptr K V) (parent : Option Ptr) : Marked (Entry Ptr K V) → Heap Ptr K V
  | .nil => mem
  | .node left entry mark right =>
    mem.put entry.addr (link .left (rootOf left) (rootOf right) parent entry mark)

def rehang (mem : Heap Ptr K V) (child : Option Ptr) : List (Frame (Entry Ptr K V)) → Heap Ptr K V
  | [] => mem
  | frame :: rest => mem.put frame.label.addr
      (link frame.side child (rootOf frame.sibling) (top rest) frame.label frame.mark)

theorem reparent_other (off : addr ∉ addrs tree) :
    (reparent mem parent tree).cells addr = mem.cells addr := by
  cases tree with
  | nil => rfl
  | node =>
    apply put_other
    rintro rfl
    exact off (by simp [addrs_node])

theorem rehang_other {child} (off : addr ∉ wayAddrs way) :
    (rehang mem child way).cells addr = mem.cells addr := by
  cases way with
  | nil => rfl
  | cons =>
    apply put_other
    rintro rfl
    exact off mem_cons_self

theorem rep_reparent (new : Option Ptr) (nodup : (addrs tree).Nodup)
    (rep : Rep mem.cells old tree) : Rep (reparent mem new tree).cells new tree := by
  cases tree with
  | nil => trivial
  | node =>
    rw [addrs_node, nodup_middle, nodup_cons, mem_append, not_or] at nodup
    exact ⟨put_self, rep_put nodup.1.1 rep.2.1, rep_put nodup.1.2 rep.2.2⟩

theorem repWay_rehang (new : Option Ptr) (nodup : (wayAddrs way).Nodup)
    (rep : RepWay mem.cells old way) : RepWay (rehang mem new way).cells new way := by
  cases way with
  | nil => trivial
  | cons =>
    rw [wayAddrs, nodup_cons, mem_append, not_or] at nodup
    exact ⟨put_self, rep_put nodup.1.1 rep.2.1, repWay_put nodup.1.2 rep.2.2⟩

theorem rehang_made (child : Option Ptr) : (rehang mem child way).made = mem.made := by
  cases way <;> rfl

theorem reparent_made (parent : Option Ptr) (tree : Marked (Entry Ptr K V)) :
    (reparent mem parent tree).made = mem.made := by
  cases tree <;> rfl

section

variable (apart : Apart a b near middle far way)
include apart

theorem Parts.putA (parts : Parts mem a b nodeA nodeB upMiddle hole near middle far way)
    (node : Node Ptr K V) :
    Parts (mem.put a node) a b node nodeB upMiddle hole near middle far way := by
  obtain ⟨offNear, offMiddle, offFar, offWay⟩ := apart.offA
  exact ⟨put_self, (put_other apart.ne.symm).trans parts.atB, rep_put offNear parts.near,
    rep_put offMiddle parts.middle, rep_put offFar parts.far, repWay_put offWay parts.way⟩

theorem Parts.putB (parts : Parts mem a b nodeA nodeB upMiddle hole near middle far way)
    (node : Node Ptr K V) :
    Parts (mem.put b node) a b nodeA node upMiddle hole near middle far way := by
  obtain ⟨offNear, offMiddle, offFar, offWay⟩ := apart.offB
  exact ⟨(put_other apart.ne).trans parts.atA, put_self, rep_put offNear parts.near,
    rep_put offMiddle parts.middle, rep_put offFar parts.far, repWay_put offWay parts.way⟩

theorem Parts.reparent (parts : Parts mem a b nodeA nodeB upMiddle hole near middle far way)
    (parent : Option Ptr) :
    Parts (reparent mem parent middle) a b nodeA nodeB parent hole near middle far way := by
  obtain ⟨nodup, notNear, notFar, notWay⟩ := apart.offMiddle
  refine ⟨?_, ?_, ?_, rep_reparent parent nodup parts.middle, ?_, ?_⟩
  · exact (reparent_other apart.offA.2.1).trans parts.atA
  · exact (reparent_other apart.offB.2.1).trans parts.atB
  · exact rep_congr (fun addr member => reparent_other fun inMiddle => notNear addr inMiddle member)
      parts.near
  · exact rep_congr (fun addr member => reparent_other fun inMiddle => notFar addr inMiddle member)
      parts.far
  · exact repWay_congr (fun addr member => reparent_other fun inMiddle =>
      notWay addr inMiddle member) parts.way

theorem Parts.rehang (parts : Parts mem a b nodeA nodeB upMiddle hole near middle far way)
    (child : Option Ptr) :
    Parts (rehang mem child way) a b nodeA nodeB upMiddle child near middle far way := by
  obtain ⟨nodup, notNear, notMiddle, notFar⟩ := apart.offWay
  refine ⟨?_, ?_, ?_, ?_, ?_, repWay_rehang child nodup parts.way⟩
  · exact (rehang_other apart.offA.2.2.2).trans parts.atA
  · exact (rehang_other apart.offB.2.2.2).trans parts.atB
  · exact rep_congr (fun addr member => rehang_other fun inWay => notNear addr inWay member)
      parts.near
  · exact rep_congr (fun addr member => rehang_other fun inWay => notMiddle addr inWay member)
      parts.middle
  · exact rep_congr (fun addr member => rehang_other fun inWay => notFar addr inWay member)
      parts.far

end

section Steps

variable {done : β → Heap Ptr K V → Prop}
  {next : PUnit → Program (Heap Ptr K V) Fault β}

theorem ends_reparent (rep : Rep mem.cells old tree)
    (rest : Ends (next ⟨⟩) (reparent mem new tree) done failed) :
    Ends (modifyIf (rootOf tree) ({ · with parent := new }) >>= next) mem done failed := by
  cases tree with
  | nil => exact ends_bind (ends_pure _ rest)
  | node => exact ends_modify rep.1 rest

theorem ends_relink {old new} (rep : RepWay mem.cells (some old) way)
    (off : old ∉ wayAddrs way) (rest : Ends (next ⟨⟩) (rehang mem (some new) way) done failed) :
    Ends (relink (top way) (some old) (some new) >>= next) mem done failed := by
  cases way with
  | nil => exact ends_bind (ends_pure _ rest)
  | cons frame =>
    obtain ⟨side, _, _, sibling⟩ := frame
    rw [wayAddrs, mem_cons, mem_append, not_or, not_or] at off
    refine ends_bind (ends_load rep.1 ?_)
    cases side with
    | left =>
      -- the other child is another node
      have differs : rootOf sibling ≠ some old := fun same => off.2.1 (rootOf_mem same)
      exact if_neg differs ▸ ends_modify_last rep.1 rest
    | right => exact if_pos rfl ▸ ends_modify_last rep.1 rest

end Steps

omit [DecidableEq Ptr] in
theorem addrs_build : (addrs (.build side near entry far)).Perm
    (entry.addr :: (addrs near ++ addrs far)) := by
  rw [build_eq]
  exact addrs_branch

omit [DecidableEq Ptr] in
@[simp] theorem rootOf_build : rootOf (.build side near entry far) = some entry.addr := by
  rw [build_eq, rootOf_branch]

omit [DecidableEq Ptr] in
theorem rep_build : Rep cells parent (.build side near entry far) ↔
    cells entry.addr = some (link side (rootOf near) (rootOf far) parent entry
      (buildMark side near far)) ∧
    Rep cells (some entry.addr) near ∧ Rep cells (some entry.addr) far := by
  rw [build_eq]
  exact rep_branch

omit [DecidableEq Ptr] in
theorem addrs_high :
    (addrs (.branch side near entryA markA (.branch side middle entryB markB far)) ++
      wayAddrs way).Perm
      (entryA.addr :: entryB.addr :: (addrs near ++
        (addrs middle ++ (addrs far ++ wayAddrs way)))) := by
  refine (addrs_branch.append_right _).trans (List.Perm.cons _ ?_)
  apply ((addrs_branch.append_left _).append_right _).trans
  rw [append_assoc, cons_append, append_assoc]
  exact perm_middle

omit [DecidableEq Ptr] in
theorem addrs_rotated :
    (addrs (.build side (.build side near entryA middle) entryB far) ++ wayAddrs way).Perm
      (entryA.addr :: entryB.addr :: (addrs near ++
        (addrs middle ++ (addrs far ++ wayAddrs way)))) := by
  apply (addrs_build.append_right _).trans
  apply (((addrs_build.append_right _).cons _).append_right _).trans
  simp only [cons_append, append_assoc]
  exact List.Perm.swap ..

theorem marked_ends (nodup : (entryA.addr :: entryB.addr ::
      (addrs near ++ (addrs middle ++ (addrs far ++ wayAddrs way)))).Nodup)
    (parts : Parts mem entryA.addr entryB.addr
      (link side (rootOf near) (rootOf middle) (some entryB.addr) entryA markA)
      (link side (some entryA.addr) (rootOf far) (top way) entryB markB)
      (some entryA.addr) (some entryB.addr) near middle far way) :
    Ends (do setBalance (some entryA.addr); setBalance (some entryB.addr); pure (some entryB.addr))
      mem
      (fun ptr after => ptr = some entryB.addr ∧
        At after way (.build side (.build side near entryA middle) entryB far) ∧
          after.made = mem.made) failed := by
  have apart := apart_of_nodup nodup
  apply ends_setBalance parts.atA parts.near parts.middle apart.offA.1 apart.offA.2.1
  have markedA := parts.putA apart (link side (rootOf near) (rootOf middle) (some entryB.addr) entryA
    (buildMark side near middle))
  have offB : entryB.addr ∉ addrs (.build side near entryA middle) := by
    rw [addrs_build.mem_iff, mem_cons, mem_append, not_or, not_or]
    exact ⟨apart.ne.symm, apart.offB.1, apart.offB.2.1⟩
  have atB (node : Node Ptr K V) : (mem.put entryA.addr node).cells entryB.addr = some (link side
      (rootOf (.build side near entryA middle)) (rootOf far) (top way) entryB markB) := by
    rw [rootOf_build, put_other apart.ne.symm]
    exact parts.atB
  refine ends_setBalance (atB _) (rep_build.mpr ⟨markedA.atA, markedA.near, markedA.middle⟩)
    markedA.far offB
    apart.offB.2.2.1 ?_
  have markedB := markedA.putB apart (link side (some entryA.addr) (rootOf far) (top way) entryB
    (buildMark side (.build side near entryA middle) far))
  rw [rootOf_build]
  refine ends_pure _ ⟨rfl, ⟨rep_build.mpr ⟨?_, ?_, markedB.far⟩, ?_,
    addrs_rotated.nodup_iff.mpr nodup⟩, rfl⟩
  · rw [rootOf_build]
    exact markedB.atB
  · exact rep_build.mpr ⟨markedB.atA, markedB.near, markedB.middle⟩
  · rw [rootOf_build]
    exact markedB.way

theorem rotate_ends (isAt : At mem way (.branch side near entryA markA
    (.branch side middle entryB markB far)))
    {failed : Fault → Prop} : Ends (rotate side (some entryA.addr)) mem
      (fun ptr after => ptr = some entryB.addr ∧
    At after way (.build side (.build side near entryA middle) entryB far) ∧ after.made = mem.made)
      failed := by
  have nodup := addrs_high.nodup_iff.mp isAt.nodup
  have apart := apart_of_nodup nodup
  obtain ⟨atA, repNear, repB⟩ := rep_branch.mp isAt.below
  obtain ⟨atB, repMiddle, repFar⟩ := rep_branch.mp repB
  have above := isAt.above
  rw [rootOf_branch] at above atA
  have parts : Parts mem entryA.addr entryB.addr _ _ _ _ near middle far way :=
    ⟨atA, atB, repNear, repMiddle, repFar, above⟩
  -- the six writes, one after the other
  apply ends_load atA
  rw [child_other_link]
  apply ends_modify atB
  have parts := parts.putB apart (link side (rootOf middle) (rootOf far) (top way) entryB markB)
  rw [setParent_link, parent_link]
  apply ends_load parts.atB
  rw [child_link]
  apply ends_modify parts.atA
  have parts := parts.putA apart (link side (rootOf near) (rootOf middle) (top way) entryA markA)
  rw [setChild_other_link]
  apply ends_reparent parts.middle
  have parts := parts.reparent apart (some entryA.addr)
  apply ends_modify parts.atB
  have parts := parts.putB apart (link side (some entryA.addr) (rootOf far) (top way) entryB markB)
  rw [setChild_link]
  apply ends_modify parts.atA
  have parts := parts.putA apart (link side (rootOf near) (rootOf middle) (some entryB.addr) entryA markA)
  rw [setParent_link, parent_link]
  apply ends_relink parts.way apart.offA.2.2.2
  have parts := parts.rehang apart (some entryB.addr)
  apply ends_imp (marked_ends nodup parts)
  rintro _ _ ⟨isRoot, rotated, made⟩
  refine ⟨isRoot, rotated, made.trans ?_⟩
  simp only [put_made, rehang_made, reparent_made]

end Rotation

/-! Rebalancing. -/

section Rebalancing

variable [DecidableEq Ptr] {left right : Marked (Entry Ptr K V)} {self : TreeMap Ptr} {fuel : Nat}

/-- The memory is that of another tree, with its root where the old one was. -/
def Turned (mem : Heap Ptr K V) (way : List (Frame (Entry Ptr K V))) (tree : Marked (Entry Ptr K V))
    (ptr : Option Ptr) (after : Heap Ptr K V) : Prop :=
  ptr = rootOf tree ∧ At after way tree ∧ after.made = mem.made

theorem rotate_turned (side : Side) (isAt : At mem way tree)
    (child : tree.child side.other ≠ .nil) :
    Ends (rotate side (rootOf tree)) mem (Turned mem way (tree.rotate side)) failed := by
  have isNode : tree ≠ .nil := by
    rintro rfl
    exact child rfl
  obtain ⟨_, _, _, _, rfl⟩ := eq_branch side isNode
  rw [child_other_branch] at child
  obtain ⟨_, _, _, _, rfl⟩ := eq_branch side child
  rw [rotate_branch, rootOf_branch]
  apply ends_imp (rotate_ends isAt)
  rintro _ _ ⟨isRoot, rotated, made⟩
  exact ⟨isRoot.trans rootOf_build.symm, rotated, made⟩

theorem rotateTwice_turned (side : Side) (isAt : At mem way tree)
    (inner : (tree.child side).child side.other ≠ .nil) :
    Ends (rotateTwice side (rootOf tree)) mem
      (Turned mem way ((tree.setChild side ((tree.child side).rotate side)).rotate side.other))
        failed := by
  have isNode : tree ≠ .nil := by
    rintro rfl
    cases side <;> exact inner rfl
  obtain ⟨lower, entry, mark, far, rfl⟩ := eq_branch side isNode
  rw [child_branch] at inner ⊢
  rw [setChild_branch, rootOf_branch]
  have node := (rep_branch.mp isAt.below).1
  apply ends_load node
  rw [child_link]
  have cut : At mem (⟨side, entry, mark, far⟩ :: way) lower := at_up.mpr isAt
  apply ends_seq (rotate_turned side cut inner)
  rintro _ middle ⟨rfl, rotated, made⟩
  have whole : At middle way (.branch side (lower.rotate side) entry mark far) := at_up.mp rotated
  have nodeNow := (rep_branch.mp whole.below).1
  apply ends_modify nodeNow
  rw [setChild_link, put_same nodeNow]
  have risen : (branch side (lower.rotate side) entry mark far).child side.other.other ≠ .nil := by
    rw [other_other, child_branch]
    obtain ⟨_, _, _, _, rfl⟩ := eq_branch side (show lower ≠ .nil from by
      rintro rfl
      exact inner rfl)
    rw [child_other_branch] at inner
    obtain ⟨_, _, _, _, rfl⟩ := eq_branch side inner
    rw [rotate_branch, build_eq]
    exact branch_ne_nil
  have second : Ends _ _ _ failed := rotate_turned side.other whole risen
  rw [rootOf_branch] at second
  apply ends_imp second
  rintro _ _ ⟨isRoot, turned, madeToo⟩
  exact ⟨isRoot, turned, madeToo.trans made⟩

theorem straighten_turned (side : Side) (isAt : At mem way tree) (child : tree.child side ≠ .nil)
    (sane : tree.Sane) :
    Ends (straighten side (rootOf tree)) mem (Turned mem way (tree.straighten side)) failed := by
  have isNode : tree ≠ .nil := by
    rintro rfl
    exact child rfl
  obtain ⟨_, _, _, _, rfl⟩ := eq_branch side isNode
  have saneLower := sane_child side sane
  rw [child_branch] at child saneLower
  obtain ⟨outer, _, _, inner, rfl⟩ := eq_branch side child
  obtain ⟨node, repLower, _⟩ := rep_branch.mp isAt.below
  obtain ⟨nodeC, repOuter, repInner⟩ := rep_branch.mp repLower
  rw [rootOf_branch] at node ⊢
  apply ends_load node
  rw [child_link]
  apply ends_load nodeC
  rw [child_link, child_other_link]
  refine ends_height repOuter (ends_height repInner ?_)
  rw [Marked.straighten, child_branch, child_branch, child_other_branch]
  by_cases smaller : inner.height ≤ outer.height
  · rw [if_pos smaller, if_pos smaller]
    have turned : Ends _ _ _ failed :=
      rotate_turned side.other isAt (by rw [other_other, child_branch]; exact branch_ne_nil)
    rwa [rootOf_branch] at turned
  · rw [if_neg smaller, if_neg smaller]
    -- the inner child is higher than something, so it is there
    have isInner : inner ≠ .nil := by
      have saneOuter := sane_child side saneLower
      have saneInner := sane_child side.other saneLower
      rw [child_branch] at saneOuter
      rw [child_other_branch] at saneInner
      apply (height_nonneg_iff saneInner).mp
      have bound := height_ge saneOuter
      omega
    have turned : Ends _ _ _ failed :=
      rotateTwice_turned side isAt (by rw [child_branch, child_other_branch]; exact isInner)
    rwa [rootOf_branch, child_branch] at turned

theorem At.relabel (new : Entry Ptr K V) (newMark : Mark)
    (isAt : At mem way (.node left entry mark right))
    (sameAddr : new.addr = entry.addr) :
    At (mem.put entry.addr (link .left (rootOf left) (rootOf right) (top way) new newMark)) way
      (.node left new newMark right) := by
  have nodup := isAt.nodup
  have same : addrs (.node left new newMark right) = addrs (.node left entry mark right) := by
    rw [addrs_node, addrs_node, sameAddr]
  have off := nodup
  rw [addrs_node, append_assoc, cons_append, nodup_middle, nodup_cons, mem_append, mem_append,
    not_or, not_or] at off
  refine ⟨⟨?_, ?_, ?_⟩, ?_, same ▸ nodup⟩
  · rw [sameAddr]
    exact put_self
  · rw [sameAddr]
    exact rep_put off.1.1 isAt.below.2.1
  · rw [sameAddr]
    exact rep_put off.1.2.1 isAt.below.2.2
  · rw [rootOf_node, sameAddr]
    exact repWay_put off.1.2.2 isAt.above

theorem restore_turned (isAt : At mem way (.node left entry mark right)) (saneLeft : left.Sane)
    (saneRight : right.Sane) :
    Ends (restore (some entry.addr)) mem (Turned mem way (node left entry mark right).rebalance)
      failed := by
  have off := isAt.nodup
  rw [addrs_node, append_assoc, cons_append, nodup_middle, nodup_cons, mem_append, mem_append,
    not_or, not_or] at off
  have marked := isAt.relabel entry (Marked.mark left right) rfl
  have sane := sane_make saneLeft saneRight entry
  refine ends_bind (setBalance_ends isAt.below.1 isAt.below.2.1 isAt.below.2.2 off.1.1 off.1.2.1 ?_)
  apply ends_load put_self
  rw [balance_link, Marked.balance_mark, Marked.rebalance]
  have boundLeft := height_ge saneLeft
  have boundRight := height_ge saneRight
  by_cases low : right.height - left.height = -2
  · rw [if_pos low, if_pos low]
    have isLeft : left ≠ .nil := (height_nonneg_iff saneLeft).mp (by omega)
    exact straighten_turned .left marked isLeft sane
  · rw [if_neg low, if_neg low]
    by_cases high : right.height - left.height = 2
    · rw [if_pos high, if_pos high]
      have isRight : right ≠ .nil := (height_nonneg_iff saneRight).mp (by omega)
      exact straighten_turned .right marked isRight sane
    · rw [if_neg high, if_neg high]
      exact ends_pure _ ⟨rfl, marked, rfl⟩

theorem rebalance_step {done : TreeMap Ptr → Heap Ptr K V → Prop} (isAt : At mem way tree)
    (isNode : tree ≠ .nil) (sane : tree.Sane)
    (rest : ∀ after, At after way tree.rebalance → after.made = mem.made → Ends (match top way with
        | some parent => rebalance fuel self (some parent)
        | none => pure { self with root := rootOf tree.rebalance }) after done failed) :
    Ends (rebalance (fuel + 1) self (rootOf tree)) mem done failed := by
  have isNodeToo := rebalance_ne_nil isNode
  cases tree with
  | nil => exact absurd rfl isNode
  | node left entry mark right =>
    apply ends_seq (restore_turned isAt sane.2.1 sane.2.2)
    rintro _ middle ⟨rfl, turned, made⟩
    have next := rest middle turned made
    cases isTree : (node left entry mark right).rebalance with
    | nil => exact absurd isTree isNodeToo
    | node =>
      rw [isTree] at turned next
      apply ends_load turned.below.1
      rw [parent_link]
      exact next

theorem rebalance_ends (isAt : At mem way tree) (isNode : tree ≠ .nil) (sane : (plug way tree).Sane)
    (enough : way.length < fuel) : Ends (rebalance fuel self (rootOf tree)) mem (fun self' after =>
    self' = { self with root := rootOf (climb way tree) } ∧ At after [] (climb way tree) ∧
    after.made = mem.made) failed := by
  induction way generalizing mem tree fuel with
  | nil =>
    cases fuel with
    | zero => cases enough
    | succ fuel =>
      apply rebalance_step isAt isNode sane
      intro after turned made
      exact ends_pure _ ⟨rfl, turned, made⟩
  | cons frame above ih =>
    cases fuel with
    | zero => cases enough
    | succ =>
      obtain ⟨saneWay, saneTree⟩ := (sane_plug _).mp sane
      apply rebalance_step isAt isNode saneTree
      intro _ turned made
      have higher : (plug above (frame.plug tree.rebalance)).Sane :=
        (sane_plug (frame :: above)).mpr ⟨saneWay, sane_rebalance saneTree⟩
      have climbed := ih (at_up.mp turned) branch_ne_nil higher (Nat.lt_of_succ_lt_succ enough)
      rw [Frame.plug, rootOf_branch] at climbed
      apply ends_imp climbed
      rintro _ _ ⟨isSelf, whole, madeToo⟩
      exact ⟨isSelf, whole, madeToo.trans made⟩

end Rebalancing

end Nx.TreeLinks
