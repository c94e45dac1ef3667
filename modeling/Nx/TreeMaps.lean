import Nx.Cells
import Nx.SearchTrees

/-!
`treelike_impl` of libs/libkrt/include/krt/types/impl/treelike.h with `treemap` of
libs/libkrt/include/krt/types/treemap.h.
-/

namespace Nx.TreeMaps

open Outcomes Cells AvlTrees SearchTrees

variable {Ptr K V : Type}

structure Node (Ptr K V : Type) where
  key : K
  value : V
  left : Option Ptr
  right : Option Ptr
  parent : Option Ptr
  height : Int
  balance : Int

def Node.child (side : Side) (node : Node Ptr K V) : Option Ptr :=
  match side with
  | .left => node.left
  | .right => node.right

def Node.setChild (side : Side) (child : Option Ptr) (node : Node Ptr K V) : Node Ptr K V :=
  match side with
  | .left => { node with left := child }
  | .right => { node with right := child }

abbrev Heap (Ptr K V : Type) := Memory Ptr (Node Ptr K V)

structure TreeMap (Ptr : Type) where
  root : Option Ptr := none
  cnt : Nat := 0
  deriving DecidableEq

def createNode [DecidableEq Ptr] (key : K) (value : V) (parent : Option Ptr) :
    Program (Heap Ptr K V) Fault Ptr :=
  allocate ⟨key, value, none, none, parent, 0, 0⟩

def destroyNode [DecidableEq Ptr] : Nat → Option Ptr → Program (Heap Ptr K V) Fault PUnit
  | _, none => pure ⟨⟩
  | 0, some _ => throw .unbounded
  | fuel + 1, some n => do
    let here ← load (some n)
    destroyNode fuel here.left
    destroyNode fuel here.right
    deallocate (some n)

/-! Heights and rotations. -/

def height (n : Option Ptr) : Program (Heap Ptr K V) Fault Int :=
  match n with
  | none => pure (-1)
  | some addr => do
    let here ← load (some addr)
    pure here.height

section Rotations

variable [DecidableEq Ptr]

def setHeight (n : Option Ptr) : Program (Heap Ptr K V) Fault PUnit :=
  match n with
  | none => pure ⟨⟩
  | some addr => do
    let here ← load (some addr)
    let left ← height here.left
    let right ← height here.right
    modify (some addr) ({ · with height := 1 + max left right })

def setBalance (n : Option Ptr) : Program (Heap Ptr K V) Fault PUnit := do
  setHeight n
  let here ← load n
  let right ← height here.right
  let left ← height here.left
  modify n ({ · with balance := right - left })

def relink (parent a b : Option Ptr) : Program (Heap Ptr K V) Fault PUnit :=
  match parent with
  | none => pure ⟨⟩
  | some addr => do
    let above ← load (some addr)
    if above.right = a then modify (some addr) ({ · with right := b })
    else modify (some addr) ({ · with left := b })

def rotate (side : Side) (a : Option Ptr) : Program (Heap Ptr K V) Fault (Option Ptr) := do
  let nodeA ← load a
  let b := nodeA.child side.other
  modify b ({ · with parent := nodeA.parent })
  let nodeB ← load b
  modify a (·.setChild side.other (nodeB.child side))
  modifyIf (nodeB.child side) ({ · with parent := a })
  modify b (·.setChild side a)
  modify a ({ · with parent := b })
  relink nodeB.parent a b
  setBalance a
  setBalance b
  pure b

def rotateLeft (a : Option Ptr) : Program (Heap Ptr K V) Fault (Option Ptr) := rotate .left a

def rotateRight (a : Option Ptr) : Program (Heap Ptr K V) Fault (Option Ptr) := rotate .right a

def rotateTwice (side : Side) (n : Option Ptr) : Program (Heap Ptr K V) Fault (Option Ptr) := do
  let here ← load n
  let child ← rotate side (here.child side)
  modify n (·.setChild side child)
  rotate side.other n

def rotateLeftThenRight (n : Option Ptr) : Program (Heap Ptr K V) Fault (Option Ptr) :=
  rotateTwice .left n

def rotateRightThenLeft (n : Option Ptr) : Program (Heap Ptr K V) Fault (Option Ptr) :=
  rotateTwice .right n

def straighten (side : Side) (n : Option Ptr) : Program (Heap Ptr K V) Fault (Option Ptr) := do
  let here ← load n
  let child ← load (here.child side)
  let outer ← height (child.child side)
  let inner ← height (child.child side.other)
  if inner ≤ outer then rotate side.other n else rotateTwice side n

def restore (n : Option Ptr) : Program (Heap Ptr K V) Fault (Option Ptr) := do
  setBalance n
  let here ← load n
  if here.balance = -2 then straighten .left n
  else if here.balance = 2 then straighten .right n
  else pure n

def rebalance : Nat → TreeMap Ptr → Option Ptr → Program (Heap Ptr K V) Fault (TreeMap Ptr)
  | _, self, none => pure self
  | 0, _, some _ => throw .unbounded
  | fuel + 1, self, some addr => do
    let n ← restore (some addr)
    let here ← load n
    match here.parent with
    | some parent => rebalance fuel self (some parent)
    | none => pure { self with root := n }

end Rotations

/-! Iteration. -/

def extreme (side : Side) : Nat → Option Ptr → Program (Heap Ptr K V) Fault (Option Ptr)
  | 0, _ => throw .unbounded
  | fuel + 1, node => do
    let here ← load node
    match here.child side with
    | none => pure node
    | some next => extreme side fuel (some next)

section Successor

variable [DecidableEq Ptr]

def ascend : Nat → Ptr → Program (Heap Ptr K V) Fault (Option Ptr)
  | 0, _ => throw .unbounded
  | fuel + 1, succ => do
    let here ← load (some succ)
    match here.parent with
    | none => pure none
    | some parent => do
      let above ← load (some parent)
      if above.right = some succ then ascend fuel parent else pure (some parent)

def successor (n : Option Ptr) : Program (Heap Ptr K V) Fault (Option Ptr) :=
  match n with
  | none => pure none
  | some addr => do
    let here ← load (some addr)
    match here.right with
    | some right => do
      let mem ← get
      extreme .left mem.made (some right)
    | none =>
      match here.parent with
      | none => pure none
      | some parent => do
        let above ← load (some parent)
        if above.left = some addr then pure (some parent)
        else do
          let mem ← get
          ascend mem.made addr

def begin (self : TreeMap Ptr) : Program (Heap Ptr K V) Fault (Option Ptr) :=
  match self.root with
  | none => pure none
  | some root => do
    let mem ← get
    extreme .left mem.made (some root)

def collect : Nat → Option Ptr → Program (Heap Ptr K V) Fault (List (K × V))
  | _, none => pure []
  | 0, some _ => throw .unbounded
  | fuel + 1, some addr => do
    let here ← load (some addr)
    let next ← successor (some addr)
    let rest ← collect fuel next
    pure ((here.key, here.value) :: rest)

def iterate (self : TreeMap Ptr) : Program (Heap Ptr K V) Fault (List (K × V)) := do
  let node ← begin self
  let mem ← get
  collect mem.made node

end Successor

/-! Keys. -/

section Keys

variable [LinearOrder K]

def findFrom (key : K) : Nat → Option Ptr → Program (Heap Ptr K V) Fault (Option Ptr)
  | _, none => pure none
  | 0, some _ => throw .unbounded
  | fuel + 1, some n => do
    let here ← load (some n)
    if here.key = key then pure (some n) else findFrom key fuel (here.child (sideOf key here.key))

def find (self : TreeMap Ptr) (key : K) : Program (Heap Ptr K V) Fault (Option Ptr) := do
  let mem ← get
  findFrom key mem.made self.root

/-- The loop of `insert` and `findOrInsertDefault`: the node of the key, or the last
one on the way to where it would be. -/
def search (key : K) : Nat → Ptr → Program (Heap Ptr K V) Fault (Bool × Ptr)
  | 0, _ => throw .unbounded
  | fuel + 1, n => do
    let here ← load (some n)
    if here.key = key then pure (true, n)
    else
      match here.child (sideOf key here.key) with
      | none => pure (false, n)
      | some next => search key fuel next

variable [DecidableEq Ptr]

def attach (self : TreeMap Ptr) (key : K) (value : V) (parent : Ptr) :
    Program (Heap Ptr K V) Fault (TreeMap Ptr) := do
  let above ← load (some parent)
  let newnode ← createNode key value (some parent)
  modify (some parent) (·.setChild (sideOf key above.key) (some newnode))
  let mem ← get
  rebalance mem.made self (some parent)

def insert (self : TreeMap Ptr) (key : K) (value : V) :
    Program (Heap Ptr K V) Fault (Bool × TreeMap Ptr) :=
  match self.root with
  | none => do
    let root ← createNode key value none
    pure (true, { self with root := some root, cnt := self.cnt + 1 })
  | some root => do
    let mem ← get
    let (found, parent) ← search key mem.made root
    if found then pure (false, self)
    else do
      let self ← attach self key value parent
      pure (true, { self with cnt := self.cnt + 1 })

/-- The node that `operator []` refers to. It is read from where the search ended,
after the rebalancing. -/
def findOrInsertDefault [Inhabited V] (self : TreeMap Ptr) (key : K) :
    Program (Heap Ptr K V) Fault (Option Ptr × TreeMap Ptr) :=
  match self.root with
  | none => do
    let root ← createNode key default none
    pure (some root, { self with root := some root, cnt := self.cnt + 1 })
  | some root => do
    let mem ← get
    let (found, p) ← search key mem.made root
    if found then pure (some p, self)
    else do
      let above ← load (some p)
      let self ← attach { self with cnt := self.cnt + 1 } key default p
      let here ← load (some p)
      pure (here.child (sideOf key above.key), self)

end Keys

/-! Deletion. -/

section Deletion

variable [DecidableEq Ptr]

def detach (parent node : Ptr) : Program (Heap Ptr K V) Fault PUnit := do
  let above ← load (some parent)
  let mem ← get
  if above.left = some node then do
    destroyNode mem.made above.left
    modify (some parent) ({ · with left := none })
  else if above.right ≠ none then do
    destroyNode mem.made above.right
    modify (some parent) ({ · with right := none })
  else pure ⟨⟩

def deleteLeaf (self : TreeMap Ptr) (node : Ptr) (parent : Option Ptr) :
    Program (Heap Ptr K V) Fault (TreeMap Ptr) :=
  match parent with
  | none => do
    let mem ← get
    destroyNode mem.made self.root
    pure { self with root := none }
  | some parent => do
    detach parent node
    let above ← load (some parent)
    let mem ← get
    rebalance mem.made self above.parent

/-- The node that takes the place of one with a child on `side`: the next one there. -/
def heir (side : Side) (node child : Ptr) : Program (Heap Ptr K V) Fault (Option Ptr) := do
  let mem ← get
  let child ← extreme side.other mem.made (some child)
  let taken ← load child
  modify (some node) ({ · with key := taken.key, value := taken.value })
  pure child

def deleteNode : Nat → TreeMap Ptr → Option Ptr → Program (Heap Ptr K V) Fault (TreeMap Ptr)
  | _, self, none => pure self
  | 0, _, some _ => throw .unbounded
  | fuel + 1, self, some node => do
    let here ← load (some node)
    match here.left with
    | some left => do
      let child ← heir .left node left
      deleteNode fuel self child
    | none =>
      match here.right with
      | some right => do
        let child ← heir .right node right
        deleteNode fuel self child
      | none => deleteLeaf { self with cnt := self.cnt - 1 } node here.parent

variable [LinearOrder K]

def removeFrom (key : K) (self : TreeMap Ptr) :
    Nat → Option Ptr → Program (Heap Ptr K V) Fault (Bool × TreeMap Ptr)
  | _, none => pure (false, self)
  | 0, some _ => throw .unbounded
  | fuel + 1, some node => do
    let here ← load (some node)
    if key = here.key then do
      let mem ← get
      let self ← deleteNode mem.made self (some node)
      pure (true, self)
    else removeFrom key self fuel (here.child (sideOf key here.key))

def remove (self : TreeMap Ptr) (key : K) : Program (Heap Ptr K V) Fault (Bool × TreeMap Ptr) := do
  let mem ← get
  removeFrom key self mem.made self.root

omit [LinearOrder K] in
def erase (self : TreeMap Ptr) (node : Option Ptr) :
    Program (Heap Ptr K V) Fault (TreeMap Ptr) := do
  let mem ← get
  deleteNode mem.made self node

end Deletion

end Nx.TreeMaps
