import Nx.DoubleLinks

/-!
`list` of libs/libkrt/include/krt/types/list.h over `listlike_impl` of impl/listlike.h.
-/

namespace Nx.LinkedLists

open Outcomes Cells DoubleLinks

variable {Ptr T : Type}

structure Container (Ptr : Type) where
  head : Option Ptr := none
  tail : Option Ptr := none
  cnt : Nat := 0
  deriving DecidableEq

abbrev Nodes (Ptr T : Type) := Memory Ptr (Node Ptr T)

section Containers

variable (self : Container Ptr)

def Container.begin : Option Ptr := self.head

def Container.size : Nat := self.cnt

def increment (it : Option Ptr) : Program (Nodes Ptr T) Fault (Option Ptr) :=
  match it with
  | none => throw (.abort "out of range!")
  | some node => do
    let here ← load (some node)
    pure here.next

def advance : Nat → Option Ptr → Program (Nodes Ptr T) Fault (Option Ptr)
  | 0, it => pure it
  | steps + 1, it => do
    let it ← increment it
    advance steps it

def collect : Nat → Option Ptr → Program (Nodes Ptr T) Fault (List T)
  | _, none => pure []
  | 0, some _ => throw .unbounded
  | fuel + 1, some node => do
    let here ← load (some node)
    let it ← increment (some node)
    let rest ← collect fuel it
    pure (here.value :: rest)

def iterate (it : Option Ptr) : Program (Nodes Ptr T) Fault (List T) := do
  let mem ← get
  collect mem.made it

def front : Program (Nodes Ptr T) Fault T := do
  if self.cnt = 0 then throw (.abort "front(): empty list")
  let first ← load self.head
  pure first.value

def back : Program (Nodes Ptr T) Fault T := do
  if self.cnt = 0 then throw (.abort "back(): empty list")
  let final ← load self.tail
  pure final.value

end Containers

section Changes

variable [DecidableEq Ptr]

section Containers

variable (self : Container Ptr)

def popFront : Program (Nodes Ptr T) Fault (T × Container Ptr) := do
  if self.cnt = 0 then throw (.abort "popFront(): empty list")
  let old ← load self.head
  let links ←
    match old.next with
    | some head => do
      modify (some head) ({ · with prev := none })
      let here ← load (some head)
      pure (some head, if here.next = none then some head else self.tail)
    | none => pure (none, none)
  deallocate self.head
  pure (old.value, ⟨links.1, links.2, self.cnt - 1⟩)

def popBack : Program (Nodes Ptr T) Fault (T × Container Ptr) := do
  if self.cnt = 0 then throw (.abort "popBack(): empty list")
  let old ← load self.tail
  let links ←
    match old.prev with
    | some tail => do
      modify (some tail) ({ · with next := none })
      let here ← load (some tail)
      pure (if here.prev = none then some tail else self.head, some tail)
    | none => pure (none, none)
  deallocate self.tail
  pure (old.value, ⟨links.1, links.2, self.cnt - 1⟩)

def clearLoop : Nat → Option Ptr → Program (Nodes Ptr T) Fault PUnit
  | _, none => pure ⟨⟩
  | 0, some _ => throw .unbounded
  | fuel + 1, some node => do
    let here ← load (some node)
    deallocate (some node)
    clearLoop fuel here.next

def clear : Program (Nodes Ptr T) Fault (Container Ptr) := do
  let mem ← get
  clearLoop mem.made self.head
  pure { self with cnt := 0 }

def deleteNode (node : Option Ptr) : Program (Nodes Ptr T) Fault (Option Ptr × Container Ptr) :=
  match node with
  | none => pure (none, self)
  | some node => do
    let here ← load (some node)
    modifyIf here.prev ({ · with next := here.next })
    let here ← load (some node)
    modifyIf here.next ({ · with prev := here.prev })
    let here ← load (some node)
    deallocate (some node)
    pure (here.next,
      { head := if self.head = some node then here.next else self.head
        tail := if self.tail = some node then here.prev else self.tail
        cnt := self.cnt - 1 })

def linkLast (node : Ptr) : Program (Nodes Ptr T) Fault (Container Ptr) :=
  match self.head with
  | some head => do
    let last := self.tail.getD head
    modify (some node) ({ · with prev := some last })
    modify (some last) ({ · with next := some node })
    modify (some node) ({ · with next := none })
    pure ⟨some head, some node, self.cnt + 1⟩
  | none => do
    modify (some node) ({ · with next := none })
    modify (some node) ({ · with prev := none })
    pure ⟨some node, some node, self.cnt + 1⟩

def linkBefore (position : Option Ptr) (node : Ptr) : Program (Nodes Ptr T) Fault (Container Ptr) :=
  match position with
  | none => linkLast self node
  | some position => do
    let there ← load (some position)
    modify (some node) ({ · with prev := there.prev })
    modify (some node) ({ · with next := some position })
    modify (some position) ({ · with prev := some node })
    modifyIf there.prev ({ · with next := some node })
    pure ⟨if there.prev = none then some node else self.head, self.tail, self.cnt + 1⟩

def insertBefore (position : Option Ptr) (val : T) :
    Program (Nodes Ptr T) Fault (Container Ptr) := do
  let node ← allocate ⟨val, none, none⟩
  linkBefore self position node

def linkAfter (position : Option Ptr) (node : Ptr) : Program (Nodes Ptr T) Fault (Container Ptr) :=
  match position with
  | none => throw (.abort "insertAfter(): cannot insert after end!")
  | some position => do
    let there ← load (some position)
    modify (some node) ({ · with next := there.next })
    modify (some node) ({ · with prev := some position })
    modify (some position) ({ · with next := some node })
    modifyIf there.next ({ · with prev := some node })
    pure ⟨self.head, if self.tail = some position then some node else self.tail, self.cnt + 1⟩

def insertAfter (position : Option Ptr) (val : T) :
    Program (Nodes Ptr T) Fault (Container Ptr) := do
  let node ← allocate ⟨val, none, none⟩
  linkAfter self position node

def append (val : T) : Program (Nodes Ptr T) Fault (Container Ptr) :=
  insertBefore self none val

def prepend (val : T) : Program (Nodes Ptr T) Fault (Container Ptr) :=
  insertBefore self self.begin val

def erase (it : Option Ptr) :
    Program (Nodes Ptr T) Fault (Option Ptr × Container Ptr) := deleteNode self it

end Containers

/-- The loop of `clone`: `src` goes through the other list, `dst` is the last node
made so far. -/
def cloneLoop : Nat → Option Ptr → Option Ptr → Option Ptr → Program (Nodes Ptr T) Fault
    (Option Ptr × Option Ptr)
  | _, none, dst, front => pure (dst, front)
  | 0, some _, _, _ => throw .unbounded
  | fuel + 1, some src, dst, front => do
    let here ← load (some src)
    let nd ← allocate ⟨here.value, none, none⟩
    let front ←
      match dst with
      | some last => do
        modify (some last) ({ · with next := some nd })
        modify (some nd) ({ · with prev := some last })
        pure front
      | none => pure dst
    let here ← load (some src)
    cloneLoop fuel here.next (some nd) front

def clone (other : Container Ptr) : Program (Nodes Ptr T) Fault (Container Ptr) := do
  let mem ← get
  let ends ← cloneLoop mem.made other.head none none
  pure ⟨ends.2, ends.1, other.cnt⟩

end Changes

/-! What callers do. An element is named by how far it is from `begin()`. -/

inductive Op (T : Type) where
  | append (val : T)
  | prepend (val : T)
  | insertBefore (index : Nat) (val : T)
  | insertAfter (index : Nat) (val : T)
  | popFront
  | popBack
  | erase (index : Nat)
  | front
  | back
  | iterate
  | size
  deriving DecidableEq

def Op.Allocates : Op T → Prop
  | .append _ | .prepend _ | .insertBefore _ _ | .insertAfter _ _ => True
  | .popFront | .popBack | .erase _ | .front | .back | .iterate | .size => False

/-- What a caller gets to see. Of the iterator that `erase` returns, it is what
follows from there. -/
inductive Result (T : Type) where
  | done
  | value (val : T)
  | values (vals : List T)
  | count (size : Nat)
  deriving DecidableEq

def perform [DecidableEq Ptr] (self : Container Ptr) :
    Op T → Program (Nodes Ptr T) Fault (Result T × Container Ptr)
  | .append val => do
    let self ← append self val
    pure (.done, self)
  | .prepend val => do
    let self ← prepend self val
    pure (.done, self)
  | .insertBefore index val => do
    let it ← advance index self.begin
    let self ← insertBefore self it val
    pure (.done, self)
  | .insertAfter index val => do
    let it ← advance index self.begin
    let self ← insertAfter self it val
    pure (.done, self)
  | .popFront => do
    let popped ← popFront self
    pure (.value popped.1, popped.2)
  | .popBack => do
    let popped ← popBack self
    pure (.value popped.1, popped.2)
  | .erase index => do
    let it ← advance index self.begin
    let erased ← erase self it
    let rest ← iterate erased.1
    pure (.values rest, erased.2)
  | .front => do
    let val ← front self
    pure (.value val, self)
  | .back => do
    let val ← back self
    pure (.value val, self)
  | .iterate => do
    let vals ← iterate self.begin
    pure (.values vals, self)
  | .size => pure (.count self.size, self)

/-! The same for a sequence. -/

namespace Sequence

def insertBefore (index : Nat) (val : T) (seq : List T) : Except Fault (Result T × List T) :=
  if seq.length < index then .error (.abort "out of range!") else .ok
    (.done, seq.insertIdx index val)

def insertAfter (index : Nat) (val : T) (seq : List T) : Except Fault (Result T × List T) :=
  if seq.length < index then .error (.abort "out of range!")
  else if seq.length = index then .error (.abort "insertAfter(): cannot insert after end!")
  else .ok (.done, seq.insertIdx (index + 1) val)

def popFront : List T → Except Fault (Result T × List T)
  | [] => .error (.abort "popFront(): empty list")
  | val :: rest => .ok (.value val, rest)

def popBack (seq : List T) : Except Fault (Result T × List T) :=
  match seq.getLast? with
  | none => .error (.abort "popBack(): empty list")
  | some val => .ok (.value val, seq.dropLast)

def erase (index : Nat) (seq : List T) : Except Fault (Result T × List T) :=
  if seq.length < index then .error (.abort "out of range!")
  else .ok (.values (seq.drop (index + 1)), seq.eraseIdx index)

def front (seq : List T) : Except Fault (Result T × List T) :=
  match seq.head? with
  | none => .error (.abort "front(): empty list")
  | some val => .ok (.value val, seq)

def back (seq : List T) : Except Fault (Result T × List T) :=
  match seq.getLast? with
  | none => .error (.abort "back(): empty list")
  | some val => .ok (.value val, seq)

def perform (seq : List T) : Op T → Except Fault (Result T × List T)
  | .append val => .ok (.done, seq ++ [val])
  | .prepend val => .ok (.done, val :: seq)
  | .insertBefore index val => insertBefore index val seq
  | .insertAfter index val => insertAfter index val seq
  | .popFront => popFront seq
  | .popBack => popBack seq
  | .erase index => erase index seq
  | .front => front seq
  | .back => back seq
  | .iterate => .ok (.values seq, seq)
  | .size => .ok (.count seq.length, seq)

end Sequence

end Nx.LinkedLists
