import Nx.Transitions
import Nx.Words

/-!
`__cxa_atexit` and `__cxa_finalize` of libs/libc/source/platform/support/cxa.cpp. The table is a
list, the last registration first.
-/

namespace Nx.ExitHandlers

open List Transitions Words

structure AtexitFuncEntry where
  destructorFunc : Word
  objPtr : Word
  dsoHandle : Word
  /-- How often the function was called for this entry; the code has no such field. -/
  invoked : Nat := 0
  deriving DecidableEq

abbrev AtexitFuncs := List AtexitFuncEntry

def cxaAtexit (f objptr dso : Word) (funcs : AtexitFuncs) : Option AtexitFuncs :=
  if 128 ≤ funcs.length then none else some (⟨f, objptr, dso, 0⟩ :: funcs)

/-- `while(i--)`: the entries whose function is called on their object, in this order, and the table
with those marked. -/
def scan (hit : AtexitFuncEntry → Bool) (mark : AtexitFuncEntry → AtexitFuncEntry) :
    AtexitFuncs → List AtexitFuncEntry × AtexitFuncs
  | [] => ([], [])
  | entry :: earlier =>
    let rest := scan hit mark earlier
    if hit entry then (entry :: rest.1, { mark entry with invoked := entry.invoked + 1 } :: rest.2)
    else (rest.1, entry :: rest.2)

def cxaFinalize (f : Word) (funcs : AtexitFuncs) : List AtexitFuncEntry × AtexitFuncs :=
  if f = 0 then scan (fun entry => entry.destructorFunc != 0) id funcs
  else scan (fun entry => entry.destructorFunc == f)
    (fun entry => { entry with destructorFunc := 0 }) funcs

inductive Op where
  | atexit (f : { f : Word // f ≠ 0 }) (objptr dso : Word)
  | finalize (d : Word)

def Step (before : AtexitFuncs) : Op → AtexitFuncs → Prop
  | .atexit f objptr dso, after => cxaAtexit f objptr dso before = some after
  | .finalize d, after => (cxaFinalize d before).2 = after

def due (d : Word) (entry : AtexitFuncEntry) :
    Bool := (d == 0 || entry.dsoHandle == d) && entry.invoked == 0

def RunsDue (move : Move AtexitFuncs Op) : Prop :=
  (∀ entry ∈ move.after, entry.invoked ≤ 1) ∧
    ∀ d, move.label = .finalize d → (cxaFinalize d move.before).1 = move.before.filter (due d)

/-- The handle, where there is one, is the function of exactly those entries that are registered
with it, and it meets no entry that was called for a null handle. -/
def Apt (d : Word) (entry : AtexitFuncEntry) : Prop :=
  entry.destructorFunc ≠ 0 →
    if entry.invoked = 0 then d = 0 ∨ (entry.destructorFunc = d ↔ entry.dsoHandle = d)
    else d ≠ 0 ∧ entry.destructorFunc ≠ d

def FinalizesApt (move : Move AtexitFuncs Op) : Prop :=
  ∀ d, move.label = .finalize d → ∀ entry ∈ move.before, Apt d entry

theorem scan_eq (hit : AtexitFuncEntry → Bool) (mark : AtexitFuncEntry → AtexitFuncEntry)
    (funcs : AtexitFuncs) :
    scan hit mark funcs = (funcs.filter hit, funcs.map fun entry =>
      if hit entry then { mark entry with invoked := entry.invoked + 1 } else entry) := by
  induction funcs with
  | nil => rfl
  | cons entry _ ih => cases hits : hit entry <;> simp [scan, ih, hits]

def Sound (funcs : AtexitFuncs) : Prop :=
  ∀ entry ∈ funcs, entry.invoked ≤ 1 ∧ (entry.destructorFunc = 0 → entry.invoked = 1)

variable {funcs : AtexitFuncs}

theorem filter_eq_iff {p q : AtexitFuncEntry → Bool} :
    funcs.filter p = funcs.filter q ↔ ∀ entry ∈ funcs, p entry = q entry := by
  refine ⟨fun same entry member => ?_, filter_congr⟩
  have both : entry ∈ funcs.filter p ↔ entry ∈ funcs.filter q := by rw [same]
  rw [Bool.eq_iff_iff]
  simpa [member] using both

theorem calls_due_iff (sound : Sound funcs) (d : Word) :
    (cxaFinalize d funcs).1 = funcs.filter (due d) ↔ ∀ entry ∈ funcs, Apt d entry := by
  unfold cxaFinalize
  split
  all_goals
    rw [scan_eq, filter_eq_iff]
    refine forall₂_congr fun entry member => ?_
    obtain ⟨_, _⟩ := sound entry member
    rw [Bool.eq_iff_iff]
    simp only [due, Apt, bne_iff_ne, beq_iff_eq, Bool.and_eq_true, Bool.or_eq_true]
    grind

theorem finalize_sound (sound : Sound funcs) {d : Word} (apt : ∀ entry ∈ funcs, Apt d entry) :
    Sound (cxaFinalize d funcs).2 := by
  unfold cxaFinalize Sound
  split
  all_goals
    rw [scan_eq, forall_mem_map]
    intro entry member
    have := sound entry member
    have := apt entry member
    simp only [Apt, bne_iff_ne, beq_iff_eq] at *
    grind

theorem step_sound (move : Move AtexitFuncs Op) (sound : Sound move.before)
    (step : Step move.before move.label move.after) (apt : FinalizesApt move) : Sound move.after ∧
      RunsDue move := by
  obtain ⟨_, op, after⟩ := move
  dsimp only at sound step
  have kept : Sound after := by
    cases op with
    | atexit f =>
      obtain ⟨_, added⟩ := Option.ite_none_left_eq_some.mp step
      cases added
      exact forall_mem_cons.mpr ⟨⟨Nat.zero_le 1, fun null => absurd null f.2⟩, sound⟩
    | finalize d =>
      cases step
      exact finalize_sound sound (apt d rfl)
  exact ⟨kept, fun entry member => (kept entry member).1, fun d same =>
    (calls_due_iff sound d).mpr (apt d same)⟩

theorem finalize_due_iff {moves : List (Move AtexitFuncs Op)} {last : AtexitFuncs}
    (run : Run Step [] moves last) :
    (∀ move ∈ moves, RunsDue move) ↔ ∀ move ∈ moves, FinalizesApt move := by
  refine run_exact Sound FinalizesApt RunsDue step_sound ?_ run (by simp [Sound])
  intro _ sound _ runs d same
  exact (calls_due_iff sound d).mp (runs.2 d same)

/-- Of three functions, each its own handle, the first is called for its handle, and the others, in
the reverse order, when there is none. -/
theorem finalize_due_null :
    RunsDue ⟨[⟨4, 6, 4, 0⟩, ⟨3, 2, 3, 0⟩, ⟨7, 1, 7, 0⟩], .finalize 7,
      [⟨4, 6, 4, 0⟩, ⟨3, 2, 3, 0⟩, ⟨0, 1, 7, 1⟩]⟩ ∧
      RunsDue ⟨[⟨4, 6, 4, 0⟩, ⟨3, 2, 3, 0⟩, ⟨0, 1, 7, 1⟩], .finalize 0,
        [⟨4, 6, 4, 1⟩, ⟨3, 2, 3, 1⟩, ⟨0, 1, 7, 1⟩]⟩ := by
  have run : Run Step [] [⟨_, .atexit ⟨7, by decide⟩ 1 7, _⟩, ⟨_, .atexit ⟨3, by decide⟩ 2 3, _⟩,
      ⟨_, .atexit ⟨4, by decide⟩ 6 4, _⟩,
      ⟨_, .finalize 7, [⟨4, 6, 4, 0⟩, ⟨3, 2, 3, 0⟩, ⟨0, 1, 7, 1⟩]⟩,
      ⟨_, .finalize 0, [⟨4, 6, 4, 1⟩, ⟨3, 2, 3, 1⟩, ⟨0, 1, 7, 1⟩]⟩] _ :=
    .next rfl (.next rfl (.next rfl (.next rfl (.next rfl (.refl _)))))
  have runs := (finalize_due_iff run).mpr (by simp [FinalizesApt, Apt])
  simp only [forall_mem_cons] at runs
  exact ⟨runs.2.2.2.1, runs.2.2.2.2.1⟩

/-- A destructor that is registered with the handle 7 does not run when 7 is finalised. -/
theorem finalize_skips : Run Step [] [⟨[], .atexit ⟨5, by decide⟩ 6 7, [⟨5, 6, 7, 0⟩]⟩,
      ⟨[⟨5, 6, 7, 0⟩], .finalize 7, [⟨5, 6, 7, 0⟩]⟩] [⟨5, 6, 7, 0⟩] ∧
    ¬ RunsDue ⟨[⟨5, 6, 7, 0⟩], .finalize 7, [⟨5, 6, 7, 0⟩]⟩ := by
  refine ⟨.next rfl (.next rfl (.refl _)), ?_⟩
  rintro ⟨_, calls⟩
  exact absurd (calls 7 rfl) (by decide)

end Nx.ExitHandlers
