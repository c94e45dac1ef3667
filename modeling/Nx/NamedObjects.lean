import Nx.Cells

/-!
Objects with names over one memory of cells. Every object owns some cells, and no
two objects own the same; an operation on one object leaves the others alone.
-/

namespace Nx.NamedObjects

open Outcomes Cells Function

variable {Name Ptr Cell Object Shape α β : Type} {object : Object}

structure World (Name Ptr Cell Object : Type) where
  mem : Memory Ptr Cell
  objects : Name → Option Object

def onMemory (program : Program (Memory Ptr Cell) Fault α) :
    Program (World Name Ptr Cell Object) Fault α := do
  let world ← get
  match program.run world.mem with
  | .ok (value, mem) => do
    set { world with mem := mem }
    pure value
  | .error fault => throw fault

def getObject (name : Name) : Program (World Name Ptr Cell Object) Fault Object := do
  let world ← get
  match world.objects name with
  | some object => pure object
  | none => throw .access

def newObject (name : Name) : Program (World Name Ptr Cell Object) Fault PUnit := do
  let world ← get
  match world.objects name with
  | some _ => throw .access
  | none => pure ⟨⟩

section Writes

variable [DecidableEq Name]

def World.put (world : World Name Ptr Cell Object) (name : Name) (object : Object) :
    World Name Ptr Cell Object :=
  { world with objects := update world.objects name (some object) }

@[simp] theorem objects_put (world : World Name Ptr Cell Object) (name : Name) (object : Object) :
    (world.put name object).objects = update world.objects name (some object) := rfl

def setObject (name : Name) (object : Object) :
    Program (World Name Ptr Cell Object) Fault PUnit := do
  let world ← get
  set (world.put name object)

end Writes

section Rules

variable {world : World Name Ptr Cell Object} {name : Name}

theorem ends_onMemory {program : Program (Memory Ptr Cell) Fault α}
    {next : α → Program (World Name Ptr Cell Object) Fault β}
    (ends : Ends program world.mem (fun value mem =>
      Ends (next value) { world with mem := mem } done failed) failed) :
    Ends (onMemory program >>= next) world done failed := by
  refine ends_bind (ends_get ?_)
  cases ends with
  | normal result rest =>
    rw [result]
    exact ends_bind (ends_set _ (ends_pure _ rest))
  | aborted result fault =>
    rw [result]
    exact ends_throw _ fault

theorem ends_getObject {next : Object → Program (World Name Ptr Cell Object) Fault β}
    (absent : world.objects name = none → failed .access)
      (rest : ∀ object, world.objects name = some object →
    Ends (next object) world done failed) : Ends (getObject name >>= next) world done failed := by
  refine ends_bind (ends_get ?_)
  cases there : world.objects name with
  | none => exact ends_throw _ (absent there)
  | some object => exact ends_pure _ (rest object there)

theorem ends_newObject (taken : world.objects name ≠ none → failed .access)
    (rest : world.objects name = none →
    Ends (next ⟨⟩) world done failed) : Ends (newObject name >>= next) world done failed := by
  refine ends_bind (ends_get ?_)
  cases there : world.objects name with
  | none => exact ends_pure _ (rest there)
  | some => exact ends_throw _ (taken (there ▸ Option.some_ne_none _))

theorem ends_setObject [DecidableEq Name] (rest :
    Ends (next ⟨⟩) (world.put name object) done failed) :
    Ends (setObject name object >>= next) world done failed :=
  ends_bind (ends_get (ends_set _ rest))

end Rules

/-! Ownership. -/

section Ownership

structure Framed (Holds : Object → Memory Ptr Cell → Shape → Prop) (Owns : Object → Shape → Ptr →
    Prop) : Prop where
  live : ∀ {object mem shape addr}, Holds object mem shape → Owns object shape addr →
    mem.cells addr ≠ none
  kept : ∀ {object before after shape}, Holds object before shape →
    (∀ addr, Owns object shape addr → after.cells addr = before.cells addr) →
    before.made ≤ after.made → Holds object after shape

variable (Holds : Object → Memory Ptr Cell → Shape → Prop) (Owns : Object → Shape → Ptr → Prop)

structure Good (world : World Name Ptr Cell Object) (shapes : Name → Shape) : Prop where
  holds : ∀ name object, world.objects name = some object → Holds object world.mem (shapes name)
  apart : ∀ name other object second, name ≠ other → world.objects name = some object →
    world.objects other = some second →
    ∀ addr, Owns object (shapes name) addr → ¬ Owns second (shapes other) addr

def Has (world : World Name Ptr Cell Object) (shapes : Name → Shape) (name : Name) (addr : Ptr) :
    Prop :=
  ∃ object, world.objects name = some object ∧ Owns object (shapes name) addr

variable {Holds Owns} {world : World Name Ptr Cell Object} {shapes : Name → Shape} {target : Name}
variable {shape : Shape} {mem : Memory Ptr Cell}

theorem good_start (mem : Memory Ptr Cell) (shapes : Name → Shape) :
    Good Holds Owns (⟨mem, fun _ => none⟩ : World Name Ptr Cell Object) shapes := by
  refine ⟨?_, ?_⟩
  · intro name object there
    cases there
  · intro _ _ _ _ _ there
    cases there

theorem Good.other (framed : Framed Holds Owns) (good : Good Holds Owns world shapes)
    (changed : Changed (Has Owns world shapes target) owned world.mem mem) (differs : name ≠ target)
    (there : world.objects name = some second) :
    Holds second mem (shapes name) ∧ ∀ addr, owned addr → ¬ Owns second (shapes name) addr := by
  have holds := good.holds name second there
  have elsewhere {addr : Ptr} (owns : Owns second (shapes name) addr) :
      ¬ Has Owns world shapes target addr := by
    rintro ⟨object, isTarget, mine⟩
    exact good.apart name target second object differs there isTarget addr owns mine
  constructor
  · refine framed.kept holds ?_ changed.made
    intro addr owns
    exact changed.kept addr (elsewhere owns) (framed.live holds owns)
  · intro addr mine owns
    rcases changed.gained addr mine with before | free
    · exact elsewhere owns before
    · exact framed.live holds owns free

variable [DecidableEq Name]

theorem Good.update (framed : Framed Holds Owns) (good : Good Holds Owns world shapes)
    (holds : Holds object mem shape)
    (changed : Changed (Has Owns world shapes target) (Owns object shape) world.mem mem) :
    Good Holds Owns ({ world with mem := mem }.put target object) (update shapes target shape) := by
  refine ⟨?_, ?_⟩
  · intro name second there
    by_cases same : name = target
    · subst same
      rw [objects_put, update_self] at there
      cases there
      rw [update_self]
      exact holds
    · rw [objects_put, update_of_ne same] at there
      rw [update_of_ne same]
      exact (good.other framed changed same there).1
  · intro name other first second differs there thereToo addr
    rw [objects_put] at there thereToo
    by_cases same : name = target
    · subst same
      rw [update_self] at there
      rw [update_of_ne differs.symm] at thereToo
      cases there
      rw [update_self, update_of_ne differs.symm]
      exact (good.other framed changed differs.symm thereToo).2 addr
    · rw [update_of_ne same] at there
      rw [update_of_ne same]
      by_cases isTarget : other = target
      · subst isTarget
        rw [update_self] at thereToo
        cases thereToo
        rw [update_self]
        exact fun owns mine => (good.other framed changed same there).2 addr mine owns
      · rw [update_of_ne isTarget] at thereToo
        rw [update_of_ne isTarget]
        exact good.apart name other first second differs there thereToo addr

end Ownership

end Nx.NamedObjects
