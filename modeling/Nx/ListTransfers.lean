import Nx.ListRuns

/-!
Several lists that are copied, moved, cleared and destroyed: the constructors,
the assignments and the destructor of list.h, with `clone` and `clear` of
impl/listlike.h.
-/

namespace Nx.ListTransfers

open Outcomes Cells LinkedLists Function

variable {Name Ptr T α : Type}

structure World (Name Ptr T : Type) where
  mem : Nodes Ptr T
  lists : Name → Option (Container Ptr)

inductive Command (Name T : Type) where
  | construct (target : Name)
  | copyConstruct (target source : Name)
  | moveConstruct (target source : Name)
  | copyAssign (target source : Name)
  | moveAssign (target source : Name)
  | clear (target : Name)
  | destroy (target : Name)
  | perform (target : Name) (op : Op T)
  deriving DecidableEq

def onNodes (program : Program (Nodes Ptr T) Fault α) : Program (World Name Ptr T) Fault α := do
  let world ← get
  match program.run world.mem with
  | .ok (value, mem) => do
    set { world with mem := mem }
    pure value
  | .error fault => throw fault

def getList (name : Name) : Program (World Name Ptr T) Fault (Container Ptr) := do
  let world ← get
  match world.lists name with
  | some list => pure list
  | none => throw .access

section Commands

variable [DecidableEq Name]

def World.put (world : World Name Ptr T) (name : Name) (list : Container Ptr) : World Name Ptr T :=
  { world with lists := update world.lists name (some list) }

def World.drop (world : World Name Ptr T) (name : Name) : World Name Ptr T :=
  { world with lists := update world.lists name none }

def setList (name : Name) (list : Container Ptr) : Program (World Name Ptr T) Fault PUnit := do
  let world ← get
  set (world.put name list)

def newList (name : Name) : Program (World Name Ptr T) Fault PUnit := do
  let world ← get
  match world.lists name with
  | some _ => throw .access
  | none => pure ⟨⟩

def emptied (source : Container Ptr) : Container Ptr := { source with head := none, cnt := 0 }

variable [DecidableEq Ptr]

def run : Command Name T → Program (World Name Ptr T) Fault (Result T)
  | .construct target => do
    newList target
    setList target {}
    pure .done
  | .copyConstruct target source => do
    newList target
    let other ← getList source
    let list ← onNodes (clone other)
    setList target list
    pure .done
  | .moveConstruct target source => do
    newList target
    let other ← getList source
    -- `tail` has the default of its declaration
    setList target { head := other.head, cnt := other.cnt }
    setList source (emptied other)
    pure .done
  | .copyAssign target source => do
    let list ← getList target
    let other ← getList source
    if target = source then pure .done
    else do
      -- a temporary copy, moved from and destroyed
      let copy ← onNodes (clone other)
      onNodes (deallocate list.head)
      setList target { list with head := copy.head, cnt := copy.cnt }
      pure .done
  | .moveAssign target source => do
    let list ← getList target
    let other ← getList source
    if target = source then pure .done
    else do
      onNodes (deallocate list.head)
      setList target { list with head := other.head, cnt := other.cnt }
      setList source (emptied other)
      pure .done
  | .clear target => do
    let list ← getList target
    let list ← onNodes (clear list)
    setList target list
    pure .done
  | .destroy target => do
    let list ← getList target
    onNodes (deallocate list.head)
    let world ← get
    set (world.drop target)
    pure .done
  | .perform target op => do
    let list ← getList target
    let out ← onNodes (perform list op)
    setList target out.2
    pure out.1

def Step (before : World Name Ptr T) (label : Command Name T × Result T)
    (after : World Name Ptr T) : Prop :=
  (run label.1).run before = .ok (label.2, after)

end Commands

/-! Sequences that are copied, moved and cleared. -/

namespace Sequences

variable [DecidableEq Name]

abbrev Named (Name T : Type) := Name → Option (List T)

def lookup (seqs : Named Name T) (name : Name) : Except Fault (List T) :=
  match seqs name with
  | some seq => .ok seq
  | none => .error .access

def absent (seqs : Named Name T) (name : Name) : Except Fault PUnit :=
  match seqs name with
  | some _ => .error .access
  | none => .ok ⟨⟩

def put (seqs : Named Name T) (name : Name) (seq : List T) : Named Name T :=
  update seqs name (some seq)

def run (seqs : Named Name T) : Command Name T → Except Fault (Result T × Named Name T)
  | .construct target => do
    absent seqs target
    pure (.done, put seqs target [])
  | .copyConstruct target source => do
    absent seqs target
    let seq ← lookup seqs source
    pure (.done, put seqs target seq)
  | .moveConstruct target source => do
    absent seqs target
    let seq ← lookup seqs source
    pure (.done, put (put seqs target seq) source [])
  | .copyAssign target source => do
    let _ ← lookup seqs target
    let seq ← lookup seqs source
    pure (.done, put seqs target seq)
  | .moveAssign target source => do
    let _ ← lookup seqs target
    let seq ← lookup seqs source
    if target = source then pure (.done, seqs)
    else pure (.done, put (put seqs target seq) source [])
  | .clear target => do
    let _ ← lookup seqs target
    pure (.done, put seqs target [])
  | .destroy target => do
    let _ ← lookup seqs target
    pure (.done, update seqs target none)
  | .perform target op => do
    let seq ← lookup seqs target
    let out ← Sequence.perform seq op
    pure (out.1, put seqs target out.2)

def Step (before : Named Name T) (label : Command Name T × Result T) (after : Named Name T) :
    Prop :=
  run before label.1 = .ok (label.2, after)

end Sequences

end Nx.ListTransfers
