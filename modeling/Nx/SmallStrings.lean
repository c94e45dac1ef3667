import Nx.Outcomes
import Nx.Transitions

/-!
The strings of libs/libkrt/include/krt/types/str.h, over the parts of impl/arraylike.h they use,
with the inline buffer of `sso_buf_size` bytes.
-/

namespace Nx.SmallStrings

open Outcomes Function

abbrev Byte := Int8

abbrev Obj := Option Nat

inductive Ptr where
  | null
  | inlineBuffer (owner : Obj)
  | heap (addr : Nat)
  deriving DecidableEq

structure Str where
  ptr : Ptr
  cnt : Nat
  cap : Nat
  deriving DecidableEq

structure Buffer where
  size : Nat
  bytes : Nat → Byte

structure State where
  strs : Obj → Option Str
  inlineBytes : Obj → Nat → Byte
  heap : Nat → Option Buffer
  /-- The next address that the allocator gives. -/
  next : Nat

inductive Fault where
  | noString (obj : Obj)
  | alreadyThere (obj : Obj)
  | allocReturnedNull
  | outOfBounds
  | dangling
  | badFree
  deriving DecidableEq

def Fault.memory : Fault → Bool
  | .outOfBounds => true
  | .dangling => true
  | .badFree => true
  | _ => false

abbrev Code (α : Type) := Program State Fault α

def ssoBufSize : Nat := 24

def wrap (num : Nat) : Nat := num % 2 ^ 64

def State.buffer (st : State) : Ptr → Option Buffer
  | .null => none
  | .inlineBuffer owner => (st.strs owner).map fun _ => ⟨ssoBufSize, st.inlineBytes owner⟩
  | .heap addr => st.heap addr

def State.setStr (st : State) (obj : Obj) (str : Str) : State :=
  { st with strs := update st.strs obj (some str) }

def State.drop (st : State) (obj : Obj) : State :=
  { st with strs := update st.strs obj none }

def State.setBytes (st : State) (ptr : Ptr) (bytes : Nat → Byte) : State :=
  match ptr with
  | .null => st
  | .inlineBuffer owner => { st with inlineBytes := update st.inlineBytes owner bytes }
  | .heap addr => { st with heap := update st.heap addr ((st.heap addr).map fun buffer =>
    { buffer with bytes := bytes }) }

section Objects

variable (obj : Obj)

def getStr : Code Str := do
  let st ← get
  match st.strs obj with
  | some str => pure str
  | none => throw (.noString obj)

def setStr (str : Str) : Code PUnit := do
  let st ← get
  set (st.setStr obj str)

def allocate (size : Nat) : Code Ptr := do
  let st ← get
  if 2 ^ 63 ≤ size then throw .allocReturnedNull
  set { st with
    heap := update st.heap st.next (some ⟨size, fun _ => 0⟩)
    next := st.next + 1 }
  pure (.heap st.next)

def deallocate (ptr : Ptr) : Code PUnit := do
  let st ← get
  match ptr with
  | .heap addr =>
    match st.heap addr with
    | some _ => set { st with heap := update st.heap addr none }
    | none => throw .badFree
  | _ => throw .badFree

def readBytes (ptr : Ptr) (num : Nat) : Code (List Byte) := do
  let st ← get
  match st.buffer ptr with
  | none => throw .dangling
  | some buffer =>
    if num ≤ buffer.size then pure ((List.range num).map buffer.bytes) else throw .outOfBounds

def patch (old : Nat → Byte) (ofs : Nat) (bytes : List Byte) (index : Nat) : Byte :=
  if ofs ≤ index then (bytes[index - ofs]?).getD (old index) else old index

def writeBytes (ptr : Ptr) (ofs : Nat) (bytes : List Byte) : Code PUnit := do
  let st ← get
  match st.buffer ptr with
  | none => throw .dangling
  | some buffer =>
    if ofs + bytes.length ≤ buffer.size then set (st.setBytes ptr (patch buffer.bytes ofs bytes))
    else throw .outOfBounds

def release (ptr : Ptr) : Code PUnit :=
  if ptr ≠ .null ∧ ptr ≠ .inlineBuffer obj then deallocate ptr else pure ⟨⟩

def newSize (cap atleast : Nat) : Nat := max 16 (max atleast (wrap (cap * 3) / 2))

def implReserve (atleast : Nat) : Code Bool := do
  let atleast := wrap (atleast + 1)
  let self ← getStr obj
  if atleast ≤ self.cap then pure false
  else do
    let newsz := newSize self.cap atleast
    let newptr ← allocate newsz
    let bytes ← readBytes self.ptr self.cnt
    writeBytes newptr 0 bytes
    setStr obj { self with ptr := newptr, cap := newsz }
    pure true

def reserve (atleast : Nat) : Code PUnit := do
  let self ← getStr obj
  let dealloc ← implReserve obj atleast
  if dealloc then release obj self.ptr else pure ⟨⟩

def newObject (str : Str) : Code PUnit := do
  let st ← get
  match st.strs obj with
  | some _ => throw (.alreadyThere obj)
  | none => set { st.setStr obj str with
      inlineBytes := update st.inlineBytes obj fun _ => 0 }

def construct (text : List Byte) : Code PUnit := do
  newObject obj ⟨.inlineBuffer obj, 0, ssoBufSize⟩
  if text = [] then pure ⟨⟩
  else do
    reserve obj text.length
    let self ← getStr obj
    setStr obj { self with cnt := text.length }
    writeBytes self.ptr 0 text
    writeBytes self.ptr text.length [0]

def copyConstruct (obj other : Obj) : Code PUnit := do
  let source ← getStr other
  let text ← readBytes source.ptr source.cnt
  construct obj text

def moveContents (dst src : Obj) : Code PUnit := do
  let source ← getStr src
  let target ← getStr dst
  setStr src { source with cnt := 0 }
  if source.cnt < ssoBufSize then do
    setStr dst { target with ptr := .inlineBuffer dst, cnt := source.cnt }
    let bytes ← readBytes source.ptr source.cnt
    writeBytes (.inlineBuffer dst) 0 bytes
    writeBytes (.inlineBuffer dst) source.cnt [0]
    setStr src ⟨.inlineBuffer src, 0, ssoBufSize⟩
  else do
    setStr dst ⟨source.ptr, source.cnt, source.cap⟩
    setStr src ⟨.inlineBuffer src, 0, ssoBufSize⟩

def moveConstruct (obj other : Obj) : Code PUnit := do
  let _ ← getStr other
  newObject obj ⟨.null, 0, 0⟩
  moveContents obj other

def moveAssign (obj other : Obj) : Code PUnit :=
  if obj ≠ other then do
    let self ← getStr obj
    release obj self.ptr
    moveContents obj other
  else pure ⟨⟩

def destroy : Code PUnit := do
  let self ← getStr obj
  release obj self.ptr
  let st ← get
  set (st.drop obj)

def copyAssign (obj other : Obj) : Code PUnit :=
  if obj ≠ other then do
    copyConstruct none other
    moveAssign obj none
    destroy none
  else pure ⟨⟩

/-- What every append does once the bytes are known: room, the bytes, the new
count and the final zero. -/
def appendBytes (count : Nat) (source : Code (List Byte)) : Code PUnit := do
  let self ← getStr obj
  reserve obj (wrap (self.cnt + count))
  let self ← getStr obj
  let bytes ← source
  writeBytes self.ptr self.cnt bytes
  setStr obj { self with cnt := wrap (self.cnt + count) }
  writeBytes self.ptr (wrap (self.cnt + count)) [0]

def appendElement (c : Byte) : Code PUnit := appendBytes obj 1 (pure [c])

def appendText (text : List Byte) : Code PUnit :=
  appendBytes obj text.length (pure text)

end Objects

/-- Both for `const string&` and `string&&`. The two may be one object: the
source is looked at again after `reserve`. -/
def append (obj other : Obj) : Code PUnit := do
  let source ← getStr other
  appendBytes obj source.cnt do
    let source ← getStr other
    readBytes source.ptr source.cnt

abbrev Text := {text : List Byte // text.length < 2 ^ 63}

inductive Op where
  | construct (obj : Nat) (text : Text)
  | copyConstruct (obj other : Nat)
  | moveConstruct (obj other : Nat)
  | copyAssign (obj other : Nat)
  | moveAssign (obj other : Nat)
  | reserve (obj : Nat) (atleast : BitVec 64)
  | appendElement (obj : Nat) (c : Byte)
  | append (obj other : Nat)
  | appendText (obj : Nat) (text : Text)

def exec : Op → Code PUnit
  | .construct obj text => construct obj text
  | .copyConstruct obj other => copyConstruct obj other
  | .moveConstruct obj other => moveConstruct obj other
  | .copyAssign obj other => copyAssign obj other
  | .moveAssign obj other => moveAssign obj other
  | .reserve obj atleast => reserve obj atleast.toNat
  | .appendElement obj c => appendElement obj c
  | .append obj other => append obj other
  | .appendText obj text => appendText obj text

def noStrings : State := ⟨fun _ => none, fun _ _ => 0, fun _ => none, 0⟩

def Step (before : State) (op : Op) (after : State) : Prop :=
  (exec op).run before = .ok (⟨⟩, after)

def State.sizes (st : State) (addr : Nat) : Option Nat := (st.heap addr).map Buffer.size

def State.sizeAt (st : State) (ptr : Ptr) : Option Nat := (st.buffer ptr).map Buffer.size

/-- The capacity on record is not more than the real size of the buffer, and the
string fits with its final zero. -/
def Represented (st : State) : Prop :=
  ∀ obj str, st.strs obj = some str → ∃ size, st.sizeAt str.ptr = some size ∧ str.cap ≤ size ∧
    str.cnt + 1 ≤ size

/-- The operation does not leave the memory of the strings, and the strings are
represented as they should afterwards. -/
def Safe (st : State) (op : Op) : Prop :=
  match (exec op).run st with
  | .ok (_, after) => Represented after
  | .error fault => fault.memory = false

/-- A short text is assigned only to a string whose capacity is that of the inline
buffer; a request for more room asks for no less than is in use. -/
def Careful (st : State) : Op → Prop
  | .copyAssign obj other => obj ≠ other → ∀ target source, st.strs obj = some target →
      st.strs other = some source → source.cnt < ssoBufSize → target.cap ≤ ssoBufSize
  | .moveAssign obj other => obj ≠ other → ∀ target source, st.strs obj = some target →
      st.strs other = some source → source.cnt < ssoBufSize → target.cap ≤ ssoBufSize
  | .reserve obj atleast => ∀ self, st.strs obj = some self →
      self.cap < wrap (atleast.toNat + 1) →
      self.cnt + 1 ≤ newSize self.cap (wrap (atleast.toNat + 1))
  | _ => True

end Nx.SmallStrings
