import Nx.Outcomes

/-!
Programs on a memory of cells: an address holds a cell or nothing. A null pointer is `none`.
-/

namespace Nx.Cells

open Outcomes Function

variable {Ptr Cell β : Type}

structure Memory (Ptr Cell : Type) where
  cells : Ptr → Option Cell
  supply : List Ptr
  /-- How many cells were ever allocated, which bounds every walk along the cells. -/
  made : Nat

/-- The next address of the supply, if there is one, is still in use. -/
def Memory.Exhausted (mem : Memory Ptr Cell) :
    Prop := ∀ addr ∈ mem.supply.head?, mem.cells addr ≠ none

inductive Fault where
  /-- Access to null, or to memory that is not allocated. -/
  | access
  | noMemory
  /-- A loop that meets more cells than there are. -/
  | unbounded
  /-- Division by zero. -/
  | division
  | abort (text : String)
  deriving DecidableEq

/-- How a call that makes one node can fail. -/
def Memory.OutOf (mem : Memory Ptr Cell) (fault : Fault) : Prop := fault = .noMemory ∧ mem.Exhausted

def load (ptr : Option Ptr) : Program (Memory Ptr Cell) Fault Cell := do
  let mem ← get
  match ptr.bind mem.cells with
  | some cell => pure cell
  | none => throw .access

section Writes

variable [DecidableEq Ptr]

def Memory.put (mem : Memory Ptr Cell) (ptr : Ptr) (cell : Cell) : Memory Ptr Cell :=
  { mem with cells := update mem.cells ptr (some cell) }

def Memory.drop (mem : Memory Ptr Cell) (ptr : Ptr) : Memory Ptr Cell :=
  { mem with cells := update mem.cells ptr none }

def Memory.extend (mem : Memory Ptr Cell) (ptr : Ptr) (cell : Cell) (supply : List Ptr) :
    Memory Ptr Cell :=
  { cells := update mem.cells ptr (some cell), supply := supply, made := mem.made + 1 }

def modify (ptr : Option Ptr) (change : Cell → Cell) : Program (Memory Ptr Cell) Fault PUnit := do
  let mem ← get
  match ptr with
  | none => throw .access
  | some addr =>
    match mem.cells addr with
    | none => throw .access
    | some cell => set (mem.put addr (change cell))

def modifyIf (ptr : Option Ptr) (change : Cell → Cell) : Program (Memory Ptr Cell) Fault PUnit :=
  match ptr with
  | none => pure ⟨⟩
  | some addr => modify (some addr) change

def allocate (cell : Cell) : Program (Memory Ptr Cell) Fault Ptr := do
  let mem ← get
  match mem.supply with
  | [] => throw .noMemory
  | addr :: rest =>
    match mem.cells addr with
    | some _ => throw .noMemory
    | none =>
      set (mem.extend addr cell rest)
      pure addr

def deallocate (ptr : Option Ptr) : Program (Memory Ptr Cell) Fault PUnit := do
  let mem ← get
  match ptr with
  | none => pure ⟨⟩
  | some addr =>
    match mem.cells addr with
    | none => throw .access
    | some _ => set (mem.drop addr)

end Writes

structure Within (addrs : Ptr → Prop) (before after : Memory Ptr Cell) : Prop where
  cells : ∀ addr, ¬ addrs addr → after.cells addr = before.cells addr
  made : before.made ≤ after.made

/-- What one owner does to the memory: only its own cells changed, and those that
are new to it belonged to nobody. -/
structure Changed (owned owned' : Ptr → Prop) (before after : Memory Ptr Cell) : Prop where
  kept : ∀ addr, ¬ owned addr → before.cells addr ≠ none → after.cells addr = before.cells addr
  gained : ∀ addr, owned' addr → owned addr ∨ before.cells addr = none
  made : before.made ≤ after.made

structure Spared (before after : Memory Ptr Cell) : Prop where
  cells : ∀ addr, before.cells addr ≠ none → after.cells addr = before.cells addr
  made : before.made ≤ after.made

section Rules

variable {mem : Memory Ptr Cell}

theorem within_refl (addrs : Ptr → Prop) (mem : Memory Ptr Cell) : Within addrs mem mem :=
  ⟨fun _ _ => rfl, le_refl _⟩

theorem Within.mono {more : Ptr → Prop} {after : Memory Ptr Cell}
    (within : Within addrs before after) (larger : ∀ addr, addrs addr → more addr) :
      Within more before after :=
  ⟨fun addr outside => within.cells addr fun inside => outside (larger addr inside), within.made⟩

theorem Within.trans {after : Memory Ptr Cell} (one : Within addrs before middle)
    (two : Within addrs middle after) : Within addrs before after :=
  ⟨fun addr outside => (two.cells addr outside).trans (one.cells addr outside),
    one.made.trans two.made⟩

theorem changed_refl (owned : Ptr → Prop) (mem : Memory Ptr Cell) : Changed owned owned mem mem :=
  ⟨fun _ _ _ => rfl, fun _ => .inl, le_refl _⟩

theorem Changed.trans {first second third : Ptr → Prop} {after : Memory Ptr Cell}
    (one : Changed first second before middle) (two : Changed second third middle after) :
    Changed first third before after := by
  refine ⟨?_, ?_, one.made.trans two.made⟩
  · intro addr outside live
    have same := one.kept addr outside live
    have still : ¬ second addr := fun inside => (one.gained addr inside).elim outside live
    rw [two.kept addr still (same ▸ live), same]
  · intro addr inside
    rcases two.gained addr inside with before | free
    · exact one.gained addr before
    · -- a cell of somebody else would have been kept
      by_contra neither
      rw [not_or] at neither
      exact neither.2 ((one.kept addr neither.1 neither.2).symm.trans free)

theorem spared_refl (mem : Memory Ptr Cell) : Spared mem mem := ⟨fun _ _ => rfl, le_refl _⟩

theorem Spared.trans {after : Memory Ptr Cell} (one : Spared before middle)
    (two : Spared middle after) : Spared before after := by
  refine ⟨?_, one.made.trans two.made⟩
  intro addr live
  have same := one.cells addr live
  rw [two.cells addr (same ▸ live), same]

theorem Spared.free (spared : Spared start mem) (free : mem.cells addr = none) :
    start.cells addr = none := by
  by_contra live
  exact live ((spared.cells addr live).symm.trans free)

theorem ends_load {next : Cell → Program (Memory Ptr Cell) Fault β}
    (live : mem.cells addr = some cell)
    (rest : Ends (next cell) mem after failed) :
      Ends (load (some addr) >>= next) mem after failed := by
  refine ends_bind (ends_get ?_)
  rw [Option.bind_some, live]
  exact ends_pure _ rest

theorem ends_load_dead {next : Cell → Program (Memory Ptr Cell) Fault β} {ptr : Option Ptr}
    (dead : ptr.bind mem.cells = none) (access : failed .access) :
      Ends (load ptr >>= next) mem after failed := by
  refine ends_bind (ends_get ?_)
  rw [dead]
  exact ends_throw _ access

variable [DecidableEq Ptr]

@[simp] theorem put_self : (mem.put addr cell).cells addr = some cell :=
  update_self _ _ _

theorem put_other (differs : other ≠ addr) : (mem.put addr cell).cells other = mem.cells other :=
  update_of_ne differs _ _

@[simp] theorem put_made : (mem.put addr cell).made = mem.made := rfl

@[simp] theorem drop_self : (mem.drop addr).cells addr = none := update_self _ _ _

theorem drop_other (differs : other ≠ addr) : (mem.drop addr).cells other = mem.cells other :=
  update_of_ne differs _ _

@[simp] theorem extend_self : (mem.extend addr cell supply).cells addr = some cell :=
  update_self _ _ _

theorem extend_other (differs : other ≠ addr) :
    (mem.extend addr cell supply).cells other = mem.cells other :=
  update_of_ne differs _ _

theorem put_put : (mem.put addr cell).put addr new = mem.put addr new := by
  simp only [Memory.put, update_idem]

theorem put_same (live : mem.cells addr = some cell) : mem.put addr cell = mem := by
  rw [Memory.put, ← live, update_eq_self]

theorem within_put (inside : addrs addr) : Within addrs mem (mem.put addr cell) :=
  ⟨fun _ outside => put_other fun same => outside (same ▸ inside), le_refl _⟩

theorem within_drop (inside : addrs addr) : Within addrs mem (mem.drop addr) :=
  ⟨fun _ outside => drop_other fun same => outside (same ▸ inside), le_refl _⟩

theorem within_extend (inside : addrs addr) : Within addrs mem (mem.extend addr cell supply) :=
  ⟨fun _ outside => extend_other fun same => outside (same ▸ inside), Nat.le_succ _⟩

theorem Spared.put (spared : Spared start mem) (free : start.cells addr = none) :
    Spared start (mem.put addr cell) := by
  refine ⟨?_, spared.made⟩
  intro other live
  have differs : other ≠ addr := by
    rintro rfl
    exact live free
  rw [put_other differs, spared.cells other live]

theorem Spared.extend (spared : Spared start mem) (free : start.cells addr = none) :
    Spared start (mem.extend addr cell supply) := by
  have written : Spared start (mem.put addr cell) := spared.put free
  exact ⟨written.cells, spared.made.trans (Nat.le_succ _)⟩

theorem ends_modify_last (live : mem.cells addr = some cell)
    (holds : done ⟨⟩ (mem.put addr (change cell))) :
    Ends (modify (some addr) change) mem done failed := by
  apply ends_get
  simp only [live]
  exact ends_set _ holds

theorem ends_modify (live : mem.cells addr = some cell)
    (rest : Ends (next ⟨⟩) (mem.put addr (change cell)) after failed) :
    Ends (modify (some addr) change >>= next) mem after failed :=
  ends_bind (ends_modify_last live rest)

theorem ends_allocate {next : Ptr → Program (Memory Ptr Cell) Fault β}
    (noMemory : mem.Exhausted → failed .noMemory)
    (rest : ∀ addr supply, mem.cells addr = none →
      Ends (next addr) (mem.extend addr cell supply) after failed) :
    Ends (allocate cell >>= next) mem after failed := by
  refine ends_bind (ends_get ?_)
  cases left : mem.supply with
  | nil => exact ends_throw _ (noMemory (by simp [Memory.Exhausted, left]))
  | cons addr supply =>
    dsimp only
    cases taken : mem.cells addr with
    | some => exact ends_throw _ (noMemory (by simp [Memory.Exhausted, left, taken]))
    | none => exact ends_bind (ends_set _ (ends_pure _ (rest addr supply taken)))

theorem ends_deallocate_last (live : mem.cells addr = some cell) (holds : done ⟨⟩ (mem.drop addr)) :
    Ends (deallocate (some addr)) mem done failed := by
  apply ends_get
  simp only [live]
  exact ends_set _ holds

theorem ends_deallocate (live : mem.cells addr = some cell)
    (rest : Ends (next ⟨⟩) (mem.drop addr) after failed) :
    Ends (deallocate (some addr) >>= next) mem after failed :=
  ends_bind (ends_deallocate_last live rest)

theorem ends_deallocate_null (rest : Ends (next ⟨⟩) mem after failed) :
    Ends (deallocate none >>= next) mem after failed :=
  ends_bind (ends_get (ends_pure _ rest))

end Rules

end Nx.Cells
