import Nx.SignalNesting

/-!
`user_signal_leave` from any number of threads, in any state: the next switch into a
thread finds a saved state if a handler was entered, and only then.
-/

namespace Nx.SignalLeaves

open Words Transitions Signals SignalNesting Function

variable {Tid Cv : Type}

abbrev System (Tid Cv : Type) := Tid → Running Cv

def SystemStep [DecidableEq Tid] (stub : Word) (before : System Tid Cv) (label : Tid × Event Cv)
    (after : System Tid Cv) : Prop :=
  ∃ run, Step stub (before label.1) label.2 run ∧ after = update before label.1 run

def Survives (stub : Word) (system : System Tid Cv) : Prop :=
  ∀ tid panic, setupSignalledStack stub (system tid).thread ≠ .error panic

structure Sound (run : Running Cv) : Prop where
  inRange : InRange run
  saved : run.thread.pendingSignalRestore = true → run.thread.savedSignalStateStack ≠ []

theorem Sound.survives (sound : Sound run) (panic : Panic) :
    setupSignalledStack stub run.thread ≠ .error panic := by
  intro fails
  obtain ⟨_, pending, empty⟩ := setup_panics sound.inRange fails
  exact sound.saved pending empty

theorem step_sound (sound : Sound run) (step : Step stub run event after)
    (leaves : LeavesLast run event) :
    Sound after := by
  refine ⟨step_inRange run event after sound.inRange step, ?_⟩
  cases step with
  | signal signals => rcases signal_cases signals with ⟨_, rfl⟩ | ⟨_, _, rfl⟩ <;> exact sound.saved
  | setHandler =>
    obtain ⟨_, isThread⟩ := setHandler_cases run.thread _ _
    rw [isThread]
    exact sound.saved
  | enter | ret | switchOut => exact sound.saved
  | leave => exact fun _ => leaves rfl
  | switchIn _ sets =>
    rcases setup_cases sets with ⟨_, _, _, _, _, rfl⟩ | ⟨_, _, rfl⟩ | ⟨_, _, settled, _, _, _, rfl⟩
    · nofun
    · exact sound.saved
    · intro pending
      exact absurd (settled.symm.trans pending) nofun

section Systems

variable [DecidableEq Tid] {stub : Word}

theorem step_keeps (move : Move (System Tid Cv) (Tid × Event Cv))
    (sound : ∀ tid, Sound (move.before tid))
    (step : SystemStep stub move.before move.label move.after)
    (leaves : LeavesLast (move.before move.label.1) move.label.2) :
    (∀ tid, Sound (move.after tid)) ∧ Survives stub move.after := by
  obtain ⟨_, step, isAfter⟩ := step
  have kept : ∀ tid, Sound (move.after tid) := by
    intro tid
    rw [isAfter]
    by_cases same : tid = move.label.1
    · rw [same, update_self]
      exact step_sound (sound move.label.1) step leaves
    · rw [update_of_ne same]
      exact sound tid
  exact ⟨kept, fun tid => (kept tid).survives⟩

theorem step_exact (move : Move (System Tid Cv) (Tid × Event Cv))
    (_ : ∀ tid, Sound (move.before tid))
    (step : SystemStep stub move.before move.label move.after)
      (survives : Survives stub move.after) :
    LeavesLast (move.before move.label.1) move.label.2 := by
  obtain ⟨_, step, isAfter⟩ := step
  intro isLeave empty
  rw [isLeave] at step
  apply survives move.label.1 .noSavedState
  rw [isAfter, update_self]
  cases step with
  | leave => simp [setupSignalledStack, userSignalLeave, empty]

/-- For any number of threads, system calls, signals and switches: no assertion of a
switch fails exactly if every `user_signal_leave` is called in a handler. -/
theorem leave_survives_iff (ids : Tid → Word) (regs : Tid → InterruptedState) {last : System Tid Cv}
    {moves : List (Move (System Tid Cv) (Tid × Event Cv))}
    (run : Run (SystemStep stub) (fun tid => fresh (ids tid) (regs tid)) moves last) :
    (∀ system ∈ visited (fun tid => fresh (ids tid) (regs tid)) moves, Survives stub system) ↔
      ∀ move ∈ moves, LeavesLast (move.before move.label.1) move.label.2 := by
  have start : ∀ tid, Sound (fresh (ids tid) (regs tid) : Running Cv) := fun _ => ⟨nofun, nofun⟩
  have startSurvives : Survives stub (fun tid => (fresh (ids tid) (regs tid) : Running Cv)) :=
    fun tid => (start tid).survives
  rw [← run_exact (fun system => ∀ tid, Sound (system tid)) _ (fun move => Survives stub move.after)
    step_keeps step_exact run start]
  simp only [visited, List.forall_mem_cons, List.forall_mem_map]
  exact ⟨fun survives => survives.2, fun survives => ⟨startSurvives, survives⟩⟩

def nextSystem? [DecidableEq Cv] (stub : Word) (system : System Tid Cv) (label : Tid × Event Cv) :
    Option (System Tid Cv) :=
  (next? stub (system label.1) label.2).map (update system label.1)

theorem step_of_nextSystem? [DecidableEq Cv] (stub : Word) (system : System Tid Cv)
    (label : Tid × Event Cv)
    (after : System Tid Cv) (moved : nextSystem? stub system label = some after) :
    SystemStep stub system label after := by
  obtain ⟨run, ran, isAfter⟩ := Option.map_eq_some_iff.mp moved
  exact ⟨run, step_of_next? stub _ _ run ran, isAfter.symm⟩

end Systems

def threads : System (Fin 2) Nat := fun _ => fresh 1 (userRegs 0)

local instance neZero_two : NeZero 2 := ⟨by decide⟩

/-- The second thread enters a handler and leaves it; the first one is switched to meanwhile. -/
def leaving : List (Fin 2 × Event Nat) :=
  [(1, .switchIn (.resumed (userRegs 0)) []), (1, .enter), (1, .setHandler 0 0x4000), (1, .ret),
    (1, .signal 5 0 body none true), (1, .switchOut (userRegs 0x100) []),
      (0, .switchIn (.resumed (userRegs 0)) []),
    (0, .switchOut (userRegs 8) []), (1, .switchIn
      (.delivered ⟨5, 1, 1, body, none⟩ (userRegs 0x100)) []), (1, .enter),
    (1, .leave), (1, .switchOut kernelRegs []), (1, .switchIn (.restored (userRegs 0x100) none) [])]

theorem leave_survives_iff_leaving : let ran := trace (nextSystem? 0x9000) threads leaving
    ran.1.length = 13 ∧ (∀ move ∈ ran.1, LeavesLast (move.before move.label.1) move.label.2) ∧
      ((∀ system ∈ visited threads ran.1, Survives 0x9000 system) ↔
        ∀ move ∈ ran.1, LeavesLast (move.before move.label.1) move.label.2) := by
  intro ran
  have leaves : ∀ move ∈ ran.1, LeavesLast (move.before move.label.1) move.label.2 :=
    by decide +kernel
  exact ⟨by decide +kernel, leaves, leave_survives_iff (fun _ => 1) (fun _ => userRegs 0)
    (trace_run _ (step_of_nextSystem? 0x9000) _ _)⟩

def forging : List (Fin 2 × Event Nat) :=
  [(0, .switchIn (.resumed (userRegs 0)) []), (0, .enter), (0, .leave),
    (0, .switchOut kernelRegs [])]

def panicOf (run : Running Nat) : Option Panic :=
  match setupSignalledStack 0x9000 run.thread with
  | .ok _ => none
  | .error panic => some panic

theorem leave_panics_forging : let ran := trace (nextSystem? 0x9000) threads forging
    ran.1.length = 4 ∧ (ran.2 0).mode = .out ∧ panicOf (ran.2 0) = some .noSavedState :=
      by decide +kernel

end Nx.SignalLeaves
