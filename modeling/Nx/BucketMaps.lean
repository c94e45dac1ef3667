import Nx.Cells

/-!
`bucket_hashmap` of libs/libkrt/include/krt/types/impl/bucket_hashmap.h.
-/

namespace Nx.BucketMaps

open Outcomes Cells

variable {Ptr K V : Type}

structure Bucket (Ptr K V : Type) where
  key : K
  value : V
  next : Option Ptr

/-- What the allocator is asked for: a node, or an array of pointers to nodes. -/
inductive Cell (Ptr K V : Type) where
  | bucket (node : Bucket Ptr K V)
  | table (slots : List (Option Ptr))

abbrev Heap (Ptr K V : Type) := Memory Ptr (Cell Ptr K V)

structure HashMap (Ptr : Type) where
  ptr : Option Ptr := none
  cnt : Nat := 0
  numBuckets : Nat := 0
  deriving DecidableEq

structure Iterator (Ptr : Type) where
  node : Option Ptr
  bucketIdx : Nat
  deriving DecidableEq

def startingSize : Nat := 16

/-! Access. -/

def loadBucket (ptr : Option Ptr) : Program (Heap Ptr K V) Fault (Bucket Ptr K V) := do
  let cell ← load ptr
  match cell with
  | .bucket node => pure node
  | .table _ => throw .access

def loadSlot (array : Option Ptr) (idx : Nat) : Program (Heap Ptr K V) Fault (Option Ptr) := do
  let cell ← load array
  match cell with
  | .bucket _ => throw .access
  | .table slots =>
    match slots[idx]? with
    | some slot => pure slot
    | none => throw .access

section Writes

variable [DecidableEq Ptr]

def storeBucket (ptr : Option Ptr) (change : Bucket Ptr K V → Bucket Ptr K V) :
    Program (Heap Ptr K V) Fault PUnit := do
  let node ← loadBucket ptr
  modify ptr fun _ => .bucket (change node)

def storeSlot (array : Option Ptr) (idx : Nat) (node : Option Ptr) :
    Program (Heap Ptr K V) Fault PUnit := do
  let cell ← load array
  match cell with
  | .bucket _ => throw .access
  | .table slots =>
    if idx < slots.length then modify array fun _ => .table (slots.set idx node)
    else throw .access

def allocateTable (num : Nat) : Program (Heap Ptr K V) Fault (Option Ptr) :=
  if num = 0 then pure none
  else do
    let ptr ← allocate (.table (List.replicate num none))
    pure (some ptr)

end Writes

section Maps

variable (hash : K → Nat)

def indexForKey (key : K) (len : Nat) : Program (Heap Ptr K V) Fault Nat :=
  if len = 0 then throw .division else pure (hash key % len)

section Maps

variable (self : HashMap Ptr)

def nextSize : Nat :=
  if self.numBuckets = 0 then startingSize else self.numBuckets * 2

def prevSize : Nat := self.numBuckets / 2

def beginFrom : Nat → Nat → Program (Heap Ptr K V) Fault (Iterator Ptr)
  | 0, _ => pure ⟨none, self.numBuckets⟩
  | left + 1, i => do
    let slot ← loadSlot self.ptr i
    match slot with
    | some node => pure ⟨some node, i⟩
    | none => beginFrom left (i + 1)

def begin : Program (Heap Ptr K V) Fault (Iterator Ptr) :=
  if self.ptr = none then pure ⟨none, self.numBuckets⟩
  else beginFrom self self.numBuckets 0

def nextBucket : Nat → Nat → Program (Heap Ptr K V) Fault (Iterator Ptr)
  | 0, bucketIdx => pure ⟨none, bucketIdx⟩
  | left + 1, bucketIdx => do
    let slot ← loadSlot self.ptr (bucketIdx + 1)
    match slot with
    | some node => pure ⟨some node, bucketIdx + 1⟩
    | none => nextBucket left (bucketIdx + 1)

def increment (it : Iterator Ptr) : Program (Heap Ptr K V) Fault (Iterator Ptr) := do
  let here ← loadBucket it.node
  match here.next with
  | some node => pure ⟨some node, it.bucketIdx⟩
  | none => nextBucket self (self.numBuckets - (it.bucketIdx + 1)) it.bucketIdx

end Maps

section Finds

variable [DecidableEq K]

def findFrom (self : HashMap Ptr) (key : K) (idx : Nat) :
    Nat → Option Ptr → Program (Heap Ptr K V) Fault (Iterator Ptr)
  | _, none => pure ⟨none, self.numBuckets⟩
  | 0, some _ => throw .unbounded
  | fuel + 1, some node => do
    let here ← loadBucket (some node)
    if here.key = key then pure ⟨some node, idx⟩ else findFrom self key idx fuel here.next

def find (self : HashMap Ptr) (key : K) : Program (Heap Ptr K V) Fault (Iterator Ptr) :=
  if self.ptr = none then pure ⟨none, self.numBuckets⟩
  else do
    let idx ← indexForKey hash key self.numBuckets
    let node ← loadSlot self.ptr idx
    let mem ← get
    findFrom self key idx mem.made node

end Finds

variable [DecidableEq Ptr]

def insertInternal (nodeArray : Option Ptr) (cap : Nat) (newnode : Option Ptr) :
    Program (Heap Ptr K V) Fault (Iterator Ptr) := do
  let here ← loadBucket newnode
  let idx ← indexForKey hash here.key cap
  storeBucket newnode ({ · with next := none })
  let slot ← loadSlot nodeArray idx
  match slot with
  | some node => do
    storeSlot nodeArray idx newnode
    storeBucket newnode ({ · with next := some node })
    pure ⟨newnode, idx⟩
  | none => do
    storeSlot nodeArray idx newnode
    pure ⟨newnode, idx⟩

section Maps

variable (self : HashMap Ptr)

def rehash (newptr : Option Ptr) (newcap : Nat) :
    Nat → Iterator Ptr → Program (Heap Ptr K V) Fault PUnit
  | 0, it => if it.node = none then pure ⟨⟩ else throw .unbounded
  | fuel + 1, it =>
    match it.node with
    | none => pure ⟨⟩
    | some node => do
      let next ← increment self it
      let _ ← insertInternal hash newptr newcap (some node)
      rehash newptr newcap fuel next

def newCapacity : Nat :=
  if self.numBuckets * 2 / 3 ≤ self.cnt then nextSize self
  else if startingSize < self.numBuckets ∧ self.cnt ≤ self.numBuckets * 1 / 5 then prevSize self
  else self.numBuckets

def ensureSize : Program (Heap Ptr K V) Fault (HashMap Ptr) :=
  let newcap := newCapacity self
  if newcap = self.numBuckets then pure self
  else do
    let newptr ← allocateTable newcap
    let it ← begin self
    let mem ← get
    rehash hash self newptr newcap mem.made it
    deallocate self.ptr
    pure { self with numBuckets := newcap, ptr := newptr }

def insert (key : K) (value : V) : Program (Heap Ptr K V) Fault (Iterator Ptr × HashMap Ptr) := do
  let self ← ensureSize hash self
  let node ← allocate (.bucket ⟨key, value, none⟩)
  let it ← insertInternal hash self.ptr self.numBuckets (some node)
  pure (it, { self with cnt := self.cnt + 1 })

def eraseFrom (node : Option Ptr) : Nat → Option Ptr → Program (Heap Ptr K V) Fault (Option Ptr)
  | 0, _ => throw .unbounded
  | fuel + 1, current => do
    let here ← loadBucket current
    if here.next = node then pure current else eraseFrom node fuel here.next

def eraseFirst (bucketIdx : Nat) (node : Ptr) :
    Program (Heap Ptr K V) Fault (Iterator Ptr × HashMap Ptr) := do
  let here ← loadBucket (some node)
  storeSlot self.ptr bucketIdx here.next
  deallocate (some node)
  pure (⟨here.next, bucketIdx⟩, { self with cnt := self.cnt - 1 })

/-- The node comes after `first`. What is tested after the loop has been the
condition of the loop. -/
def eraseLater (it : Iterator Ptr) (first : Ptr) :
    Program (Heap Ptr K V) Fault (Iterator Ptr × HashMap Ptr) := do
  let mem ← get
  let node ← eraseFrom it.node mem.made (some first)
  let here ← loadBucket it.node
  storeBucket node ({ · with next := here.next })
  deallocate it.node
  pure (⟨here.next, it.bucketIdx⟩, { self with cnt := self.cnt - 1 })

def erase (it : Iterator Ptr) : Program (Heap Ptr K V) Fault (Iterator Ptr × HashMap Ptr) :=
  if it.node = none ∨ self.numBuckets ≤ it.bucketIdx then
    throw (.abort "bucket_hashmap::erase(): trying to erase invalid iterator (node = %p, bucket = %zu)")
  else do
    let slot ← loadSlot self.ptr it.bucketIdx
    match slot with
    | none => throw (.abort "bucket_hashmap::erase(): no node at bucket = %zu")
    | some node =>
      if some node = it.node then eraseFirst self it.bucketIdx node else eraseLater self it node

end Maps

section Keys

variable [DecidableEq K]

def index [Inhabited V] (self : HashMap Ptr) (key : K) :
    Program (Heap Ptr K V) Fault (Option Ptr × HashMap Ptr) := do
  let it ← find hash self key
  if it.node = none then
    let (it, self) ← insert hash self key default
    pure (it.node, self)
  else pure (it.node, self)

def remove (self : HashMap Ptr) (key : K) : Program (Heap Ptr K V) Fault (Bool × HashMap Ptr) := do
  let it ← find hash self key
  if it.node = none then pure (false, self)
  else
    let (_, self) ← erase self it
    pure (true, self)

end Keys

def clearChain : Nat → Option Ptr → Program (Heap Ptr K V) Fault PUnit
  | _, none => pure ⟨⟩
  | 0, some _ => throw .unbounded
  | fuel + 1, some node => do
    let here ← loadBucket (some node)
    deallocate (some node)
    clearChain fuel here.next

section Maps

variable (self : HashMap Ptr)

def clearFrom : Nat → Nat → Program (Heap Ptr K V) Fault PUnit
  | 0, _ => pure ⟨⟩
  | left + 1, i => do
    let node ← loadSlot self.ptr i
    let mem ← get
    clearChain mem.made node
    storeSlot self.ptr i none
    clearFrom left (i + 1)

def clear : Program (Heap Ptr K V) Fault (HashMap Ptr) := do
  clearFrom self self.numBuckets 0
  ensureSize hash { self with cnt := 0 }

def cloneChain : Nat → Ptr → Program (Heap Ptr K V) Fault Ptr
  | 0, _ => throw .unbounded
  | fuel + 1, node => do
    let here ← loadBucket (some node)
    let ret ← allocate (.bucket ⟨here.key, here.value, none⟩)
    match here.next with
    | none => pure ret
    | some next => do
      let copy ← cloneChain fuel next
      storeBucket (some ret) ({ · with next := some copy })
      pure ret

def copyFrom (ptr otherPtr : Option Ptr) : Nat → Nat → Program (Heap Ptr K V) Fault PUnit
  | 0, _ => pure ⟨⟩
  | left + 1, i => do
    let node ← loadSlot otherPtr i
    let copy ←
      match node with
      | none => pure none
      | some node => do
        let mem ← get
        let copy ← cloneChain mem.made node
        pure (some copy)
    storeSlot ptr i copy
    copyFrom ptr otherPtr left (i + 1)

def copy (other : HashMap Ptr) : Program (Heap Ptr K V) Fault (HashMap Ptr) := do
  let ptr ← allocateTable other.numBuckets
  copyFrom ptr other.ptr other.numBuckets 0
  pure { ptr := ptr, cnt := other.cnt, numBuckets := other.numBuckets }

def collect : Nat → Iterator Ptr → Program (Heap Ptr K V) Fault (List (K × V))
  | 0, it => if it.node = none then pure [] else throw .unbounded
  | fuel + 1, it =>
    match it.node with
    | none => pure []
    | some node => do
      let here ← loadBucket (some node)
      let next ← increment self it
      let rest ← collect fuel next
      pure ((here.key, here.value) :: rest)

def iterate : Program (Heap Ptr K V) Fault (List (K × V)) := do
  let it ← begin self
  let mem ← get
  collect self mem.made it

end Maps

end Maps

end Nx.BucketMaps
