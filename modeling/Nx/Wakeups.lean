import Nx.Words
import Nx.Transitions
import Nx.Blocking

/-!
Mutexes and condition variables, kernel/source/scheduler/synchro.cpp and kernel/include/synchro.h,
over any number of threads.
-/

namespace Nx.Wakeups


open Words Transitions Blocking Option
open Function (update update_self update_of_ne)

variable {Thread Mutex Condvar Value : Type}
  [DecidableEq Thread] [DecidableEq Mutex] [DecidableEq Condvar] [DecidableEq Value]

inductive Cond (Mutex Condvar : Type) where
  | mutex (mtx : Mutex)
  | condvar (cv : Condvar)
  deriving DecidableEq

inductive Wait (Mutex Condvar Value : Type) where
  | lock (mtx : Mutex)
  | equal (cv : Condvar) (x : Value)
  deriving DecidableEq

def Wait.cond : Wait Mutex Condvar Value → Cond Mutex Condvar
  | .lock mtx => .mutex mtx
  | .equal cv _ => .condvar cv

inductive Pc (Mutex Condvar Value : Type) where
  | idle
  | test (wait : Wait Mutex Condvar Value)
  | block (wait : Wait Mutex Condvar Value)
  | blocked (wait : Wait Mutex Condvar Value)
  | storeHolder (mtx : Mutex)
  | clearHolder (mtx : Mutex)
  | notify (cond : Cond Mutex Condvar)
  deriving DecidableEq

structure Kernel (Thread Mutex Condvar Value : Type) where
  sched : Sched Thread (Cond Mutex Condvar)
  value : Mutex → Word
  holder : Mutex → Option Thread
  cell : Condvar → Value
  pc : Thread → Pc Mutex Condvar Value

open Kernel

def Kernel.init (cell : Condvar → Value) : Kernel Thread Mutex Condvar Value :=
  ⟨.init, fun _ => 0, fun _ => none, cell, fun _ => .idle⟩

section Kernels

variable (kernel : Kernel Thread Mutex Condvar Value)

def Kernel.goto (thr : Thread) (pc : Pc Mutex Condvar Value) : Kernel Thread Mutex Condvar Value :=
  { kernel with pc := update kernel.pc thr pc }

def Kernel.cas (mtx : Mutex) : Bool × Kernel Thread Mutex Condvar Value :=
  if kernel.value mtx = 0 then
    (true, { kernel with value := update kernel.value mtx 1 })
  else (false, kernel)

/-- The test of a loop: the `cas` of `mutex::lock`, the locked comparison of
`condvar::wait`. -/
def Kernel.test (thr : Thread) :
    Wait Mutex Condvar Value → Kernel Thread Mutex Condvar Value
  | .lock mtx =>
    let tried := kernel.cas mtx
    tried.2.goto thr (if tried.1 then .storeHolder mtx else .block (.lock mtx))
  | .equal cv x => kernel.goto thr (if kernel.cell cv = x then .idle else .block (.equal cv x))

def Kernel.block (thr : Thread) (wait : Wait Mutex Condvar Value) :
    Kernel Thread Mutex Condvar Value :=
  { kernel with sched := kernel.sched.block wait.cond thr }.goto thr (.blocked wait)

def Kernel.notifyOne (thr : Thread) (cond : Cond Mutex Condvar) :
    Kernel Thread Mutex Condvar Value :=
  { kernel with sched := kernel.sched.notify cond false }.goto thr .idle

inductive Call (Mutex Condvar Value : Type) where
  | lock (mtx : Mutex)
  | trylock (mtx : Mutex)
  | unlock (mtx : Mutex)
  | wait (cv : Condvar) (x : Value)
  | set (cv : Condvar) (x : Value)
  deriving DecidableEq

/-- A thread that is in none of the functions calls one and makes its first
step. `mutex::lock` aborts for a thread that holds the mutex. -/
def Kernel.call (thr : Thread) :
    Call Mutex Condvar Value → Option (Kernel Thread Mutex Condvar Value)
  | .lock mtx =>
    if kernel.holder mtx = some thr then none else some (kernel.goto thr (.test (.lock mtx)))
  | .trylock mtx =>
    let tried := kernel.cas mtx
    some (tried.2.goto thr (if tried.1 then .storeHolder mtx else .idle))
  | .unlock mtx =>
    some ({ kernel with value := update kernel.value mtx 0 }.goto thr (.clearHolder mtx))
  | .wait cv x => some (kernel.goto thr (.test (.equal cv x)))
  | .set cv x =>
    some ({ kernel with cell := update kernel.cell cv x }.goto thr (.notify (.condvar cv)))

def Kernel.advance (thr : Thread) : Option (Kernel Thread Mutex Condvar Value) :=
  match kernel.pc thr with
  | .idle => none
  | .test wait => some (kernel.test thr wait)
  | .block wait => some (kernel.block thr wait)
  | .blocked wait =>
    -- `block` returns when the thread is scheduled again
    if kernel.sched.state thr = .blockedOnCondition then none
    else some (kernel.goto thr (.test wait))
  | .storeHolder mtx =>
    some ({ kernel with holder := update kernel.holder mtx (some thr) }.goto thr .idle)
  | .clearHolder mtx =>
    some ({ kernel with holder := update kernel.holder mtx none }.goto thr (.notify (.mutex mtx)))
  | .notify cond => some (kernel.notifyOne thr cond)

inductive Op (Thread Mutex Condvar Value : Type) where
  | call (thr : Thread) (function : Call Mutex Condvar Value)
  | advance (thr : Thread)

def Kernel.next :
    Op Thread Mutex Condvar Value → Option (Kernel Thread Mutex Condvar Value)
  | .call thr function => if kernel.pc thr = .idle then kernel.call thr function else none
  | .advance thr => kernel.advance thr

def Step (before : Kernel Thread Mutex Condvar Value) (op : Op Thread Mutex Condvar Value)
    (after : Kernel Thread Mutex Condvar Value) : Prop :=
  before.next op = some after

/-! Lost wake-ups. -/

@[simp] def Kernel.Notifies (thr : Thread) : Cond Mutex Condvar → Prop
  | .mutex mtx => kernel.pc thr = .clearHolder mtx ∨ kernel.pc thr = .notify (.mutex mtx)
  | .condvar cv => kernel.pc thr = .notify (.condvar cv)

structure NoLostWakeup (kernel : Kernel Thread Mutex Condvar Value) : Prop where
  mutex : ∀ thr ∈ kernel.sched.blockedThreads, ∀ mtx, kernel.sched.state thr = .blockedOnCondition →
      kernel.sched.blockedOn thr = some (.mutex mtx) →
        kernel.value mtx = 1 ∨ ∃ unlocker, kernel.Notifies unlocker (.mutex mtx)
  condvar : ∀ thr ∈ kernel.sched.blockedThreads, ∀ cv x,
    kernel.sched.state thr = .blockedOnCondition → kernel.pc thr = .blocked (.equal cv x) →
      kernel.cell cv ≠ x ∨ ∃ setter, kernel.Notifies setter (.condvar cv)

@[simp] def Kernel.Passes : Wait Mutex Condvar Value → Prop
  | .lock mtx => kernel.value mtx = 0
  | .equal cv x => kernel.cell cv = x

def Kernel.Ready : Pc Mutex Condvar Value → Prop
  | .blocked wait => kernel.Passes wait
  | _ => False

/-- A thread blocks only while its test fails or somebody still has to notify,
and whoever notifies leaves no other thread behind whose test would succeed,
unless somebody else still has to notify. -/
def Kernel.Attends (thr : Thread) : Pc Mutex Condvar Value → Prop
  | .block wait => kernel.Passes wait → ∃ other, kernel.Notifies other wait.cond
  | .notify cond =>
    ∀ waiter ∈ kernel.sched.waiters cond, waiter ∉ kernel.sched.woken cond false →
      kernel.Ready (kernel.pc waiter) → ∃ other, other ≠ thr ∧ kernel.Notifies other cond
  | _ => True

end Kernels

def Attended (move : Move (Kernel Thread Mutex Condvar Value) (Op Thread Mutex Condvar Value)) :
    Prop :=
  match move.label with
  | .call _ _ => True
  | .advance thr => move.before.Attends thr (move.before.pc thr)

section Decisions

variable (kernel : Kernel Thread Mutex Condvar Value) (thr : Thread)

instance (cond : Cond Mutex Condvar) : Decidable (kernel.Notifies thr cond) := by
  unfold Kernel.Notifies
  split <;> infer_instance

instance (wait : Wait Mutex Condvar Value) : Decidable (kernel.Passes wait) := by
  unfold Kernel.Passes
  split <;> infer_instance

instance (pc : Pc Mutex Condvar Value) : Decidable (kernel.Ready pc) := by
  unfold Kernel.Ready
  split <;> infer_instance

instance [Fintype Thread] (pc : Pc Mutex Condvar Value) : Decidable (kernel.Attends thr pc) := by
  unfold Kernel.Attends
  split <;> infer_instance

instance [Fintype Thread] (move : Move (Kernel Thread Mutex Condvar Value)
    (Op Thread Mutex Condvar Value)) :
    Decidable (Attended move) := by
  unfold Attended
  split <;> infer_instance

end Decisions

/-! What holds in every state. -/

structure WellFormed (kernel : Kernel Thread Mutex Condvar Value) : Prop where
  valid : kernel.sched.Valid
  binary : ∀ mtx, kernel.value mtx = 0 ∨ kernel.value mtx = 1
  placed : ∀ thr, kernel.sched.state thr = .blockedOnCondition →
    ∃ wait, kernel.pc thr = .blocked wait ∧ kernel.sched.blockedOn thr = some wait.cond

def Awake (kernel : Kernel Thread Mutex Condvar Value) : Prop :=
  ∀ thr wait, thr ∈ kernel.sched.waiters wait.cond → kernel.pc thr = .blocked wait →
    kernel.Passes wait → ∃ other, kernel.Notifies other wait.cond

omit [DecidableEq Value] [DecidableEq Thread] [DecidableEq Mutex] [DecidableEq Condvar] in
theorem init_wellFormed (cell : Condvar → Value) :
    WellFormed (init cell : Kernel Thread Mutex Condvar Value) where
  valid := init_valid
  binary _ := .inl rfl
  placed := by
    rintro _ ⟨⟩

omit [DecidableEq Thread] [DecidableEq Value] in
theorem init_awake (cell : Condvar → Value) :
    Awake (init cell : Kernel Thread Mutex Condvar Value) := by
  intro thr wait waits
  simp [init, Sched.init, Sched.waiters] at waits

section States

variable {kernel : Kernel Thread Mutex Condvar Value} {thr : Thread}
  {wait : Wait Mutex Condvar Value} {cond : Cond Mutex Condvar}

omit [DecidableEq Thread] [DecidableEq Mutex] [DecidableEq Condvar] [DecidableEq Value] in
theorem WellFormed.running (wf : WellFormed kernel)
    (elsewhere : ∀ wait, kernel.pc thr ≠ .blocked wait) :
    kernel.sched.state thr ≠ .blockedOnCondition := by
  intro blocked
  obtain ⟨wait, here, _⟩ := wf.placed thr blocked
  exact elsewhere wait here

omit [DecidableEq Value] [DecidableEq Thread] in
theorem WellFormed.waiter (wf : WellFormed kernel) (waits : thr ∈ kernel.sched.waiters cond) :
    ∃ wait, kernel.pc thr = .blocked wait ∧ wait.cond = cond := by
  have ⟨_, blocked, on⟩ := mem_waiters.mp waits
  obtain ⟨wait, here, same⟩ := wf.placed thr blocked
  exact ⟨wait, here, Option.some.inj (same.symm.trans on)⟩

omit [DecidableEq Thread] in
theorem noLostWakeup_iff (wf : WellFormed kernel) : NoLostWakeup kernel ↔ Awake kernel := by
  constructor
  · intro heard thr wait waits here passes
    have ⟨member, blocked, on⟩ := mem_waiters.mp waits
    cases wait with
    | lock mtx =>
      apply (heard.mutex thr member mtx blocked on).resolve_left
      intro held
      exact absurd (passes.symm.trans held) (by decide)
    | equal cv x => exact (heard.condvar thr member cv x blocked here).resolve_left (· passes)
  · intro awake
    constructor
    · intro thr member mtx blocked on
      have waits := mem_waiters.mpr ⟨member, blocked, on⟩
      obtain ⟨wait, here, same⟩ := wf.waiter waits
      -- only `mutex::lock` blocks on a mutex
      cases wait with
      | equal cv x => cases same
      | lock other =>
        obtain rfl : other = mtx := by simpa [Wait.cond] using same
        rcases wf.binary other with free | held
        · exact .inr (awake thr (.lock other) waits here free)
        · exact .inl held
    · intro thr member cv x blocked here
      obtain ⟨wait, there, on⟩ := wf.placed thr blocked
      obtain rfl : Wait.equal cv x = wait := by simpa [here] using there
      by_cases equal : kernel.cell cv = x
      · exact .inr (awake thr _ (mem_waiters.mpr ⟨member, blocked, on⟩) here equal)
      · exact .inl equal

end States

/-! Steps that leave the blocked threads alone. -/

section Local

variable {before after : Kernel Thread Mutex Condvar Value} {thr other : Thread} {mtx : Mutex}

structure Local (thr : Thread) (before after : Kernel Thread Mutex Condvar Value) : Prop where
  running : before.sched.state thr ≠ .blockedOnCondition
  sched : after.sched = before.sched
  others : ∀ other ≠ thr, after.pc other = before.pc other
  binary : ∀ mtx, after.value mtx = 0 ∨ after.value mtx = 1
  kept : ∀ cond, before.Notifies thr cond → after.Notifies thr cond
  tests : ∀ wait, after.Passes wait → before.Passes wait ∨ after.Notifies thr wait.cond

omit [DecidableEq Thread] [DecidableEq Mutex] [DecidableEq Condvar] [DecidableEq Value] in
theorem notifies_congr (same : after.pc other = before.pc other) (cond : Cond Mutex Condvar) :
    after.Notifies other cond ↔ before.Notifies other cond := by
  cases cond with
  | mutex mtx | condvar cv => simp only [Notifies, same]

omit [DecidableEq Thread] [DecidableEq Mutex] [DecidableEq Condvar] [DecidableEq Value] in
theorem passes_congr (value : after.value = before.value) (cell : after.cell = before.cell)
    (wait : Wait Mutex Condvar Value) : after.Passes wait ↔ before.Passes wait := by
  cases wait with
  | lock => simp only [Passes, value]
  | equal _ x => simp only [Passes, cell]

omit [DecidableEq Thread] [DecidableEq Mutex] [DecidableEq Condvar] [DecidableEq Value] in
theorem Local.wellFormed (step : Local thr before after) (wf : WellFormed before) :
    WellFormed after where
  valid := step.sched ▸ wf.valid
  binary := step.binary
  placed := by
    intro other blocked
    rw [step.sched] at blocked ⊢
    have different : other ≠ thr := fun same => step.running (same ▸ blocked)
    rw [step.others other different]
    exact wf.placed other blocked

omit [DecidableEq Value] in
theorem Local.awake (step : Local thr before after) (awake : Awake before) : Awake after := by
  intro waiter wait waits here passes
  rw [step.sched] at waits
  have different : waiter ≠ thr := by
    intro same
    exact step.running (same ▸ (mem_waiters.mp waits).2.1)
  rw [step.others waiter different] at here
  rcases step.tests wait passes with before | now
  · obtain ⟨other, notifies⟩ := awake waiter wait waits here before
    refine ⟨other, ?_⟩
    by_cases same : other = thr
    · exact same ▸ step.kept _ (same ▸ notifies)
    · exact (notifies_congr (step.others other same) _).mpr notifies
  · exact ⟨thr, now⟩

omit [DecidableEq Mutex] [DecidableEq Condvar] [DecidableEq Value] in
@[simp] theorem goto_self (kernel : Kernel Thread Mutex Condvar Value)
    (pc : Pc Mutex Condvar Value) :
    (kernel.goto thr pc).pc thr = pc := update_self ..

omit [DecidableEq Mutex] [DecidableEq Condvar] [DecidableEq Value] in
theorem goto_other (kernel : Kernel Thread Mutex Condvar Value) (pc : Pc Mutex Condvar Value)
    (different : other ≠ thr) : (kernel.goto thr pc).pc other = kernel.pc other :=
  update_of_ne different ..

section

variable (wf : WellFormed before)
include wf

omit [DecidableEq Mutex] [DecidableEq Condvar] [DecidableEq Value] in
theorem local_goto (running : before.sched.state thr ≠ .blockedOnCondition)
    (silent : ∀ cond, ¬ before.Notifies thr cond) (pc : Pc Mutex Condvar Value) :
    Local thr before (before.goto thr pc) where
  running := running
  sched := rfl
  others _ different := goto_other before pc different
  binary := wf.binary
  kept cond notifies := absurd notifies (silent cond)
  tests wait passes := .inl ((passes_congr rfl rfl wait).mp passes)

omit [DecidableEq Condvar] [DecidableEq Value] in
theorem local_cas (running : before.sched.state thr ≠ .blockedOnCondition)
    (silent : ∀ cond, ¬ before.Notifies thr cond)
    (mtx : Mutex) (pc : Pc Mutex Condvar Value) :
      Local thr before ((before.cas mtx).2.goto thr pc) := by
  unfold cas
  split
  · refine ⟨running, rfl, fun _ different => goto_other _ pc different, ?_,
      fun cond notifies => absurd notifies (silent cond), ?_⟩
    · intro other
      by_cases same : other = mtx
      · right
        simp [goto, same]
      · simpa [goto, same] using wf.binary other
    · intro wait passes
      left
      cases wait with
      | equal _ x => exact passes
      | lock other =>
        by_cases same : other = mtx
        · -- this mutex is taken now
          simp [goto, same] at passes
        · simpa [goto, same] using passes
  · exact local_goto wf running silent pc

omit [DecidableEq Condvar] in
theorem local_test (here : before.pc thr = .test wait) :
    Local thr before (before.test thr wait) := by
  have running : before.sched.state thr ≠ .blockedOnCondition := wf.running (by simp [here])
  have silent (cond) : ¬ before.Notifies thr cond := by
    cases cond <;> simp [here]
  cases wait with
  | lock mtx => exact local_cas wf running silent mtx _
  | equal _ x => exact local_goto wf running silent _

omit [DecidableEq Condvar] [DecidableEq Value] in
theorem local_storeHolder (here : before.pc thr = .storeHolder mtx) : Local thr before
      ({ before with holder := update before.holder mtx (some thr) }.goto thr .idle) where
  running := wf.running (by simp [here])
  sched := rfl
  others _ different := goto_other _ _ different
  binary := wf.binary
  kept cond notifies := by
    cases cond <;> simp [here] at notifies
  tests wait passes := .inl ((passes_congr rfl rfl wait).mp passes)

omit [DecidableEq Condvar] [DecidableEq Value] in
theorem local_clearHolder (here : before.pc thr = .clearHolder mtx) :
    Local thr before ({ before with holder := update before.holder mtx none }.goto thr
      (.notify (.mutex mtx))) where
  running := wf.running (by simp [here])
  sched := rfl
  others _ different := goto_other _ _ different
  binary := wf.binary
  kept cond notifies := by
    cases cond with
    | mutex other =>
      obtain rfl : mtx = other := by simpa [here] using notifies
      exact .inr (goto_self ..)
    | condvar => simp [here] at notifies
  tests wait passes := .inl ((passes_congr rfl rfl wait).mp passes)

omit [DecidableEq Condvar] [DecidableEq Value] in
theorem local_unlock (here : before.pc thr = .idle) (mtx : Mutex) : Local thr before
      ({ before with value := update before.value mtx 0 }.goto thr (.clearHolder mtx)) where
  running := wf.running (by simp [here])
  sched := rfl
  others _ different := goto_other _ _ different
  binary other := by
    by_cases same : other = mtx
    · left
      simp [goto, same]
    · simpa [goto, same] using wf.binary other
  kept cond notifies := by
    cases cond <;> simp [here] at notifies
  tests wait passes := by
    cases wait with
    | equal _ x => exact .inl passes
    | lock other =>
      by_cases same : other = mtx
      · right
        exact .inl (same ▸ goto_self ..)
      · left
        simpa [goto, same] using passes

omit [DecidableEq Mutex] [DecidableEq Value] in
theorem local_set (here : before.pc thr = .idle) (cv : Condvar) (x : Value) : Local thr before
      ({ before with cell := update before.cell cv x }.goto thr (.notify (.condvar cv))) where
  running := wf.running (by simp [here])
  sched := rfl
  others _ different := goto_other _ _ different
  binary := wf.binary
  kept cond notifies := by
    cases cond <;> simp [here] at notifies
  tests wait passes := by
    cases wait with
    | lock => exact .inl passes
    | equal other y =>
      by_cases same : other = cv
      · right
        exact same ▸ goto_self ..
      · left
        simpa [goto, same] using passes

omit [DecidableEq Value] in
theorem local_call (idle : before.pc thr = .idle) (called : before.call thr function = some after) :
    Local thr before after := by
  have running : before.sched.state thr ≠ .blockedOnCondition := wf.running (by simp [idle])
  have silent (cond) : ¬ before.Notifies thr cond := by
    cases cond <;> simp [idle]
  cases function with
  | lock mtx =>
    simp only [call, ite_none_left_eq_some, Option.some.injEq] at called
    exact called.2 ▸ local_goto wf running silent _
  | trylock mtx => exact Option.some.inj called ▸ local_cas wf running silent mtx _
  | unlock mtx => exact Option.some.inj called ▸ local_unlock wf idle mtx
  | wait cv x => exact Option.some.inj called ▸ local_goto wf running silent _
  | set cv x => exact Option.some.inj called ▸ local_set wf idle cv x

theorem advance_cases (advanced : before.advance thr = some after) : (Local thr before after ∧
    before.Attends thr (before.pc thr)) ∨ (∃ wait, before.pc thr = .block wait ∧
      before.block thr wait = after) ∨
    ∃ cond, before.pc thr = .notify cond ∧ before.notifyOne thr cond = after := by
  unfold advance at advanced
  generalize here : before.pc thr = place at advanced ⊢
  cases place with
  | idle => cases advanced
  | test wait =>
    cases advanced
    exact .inl ⟨local_test wf here, trivial⟩
  | block wait => exact .inr (.inl ⟨wait, rfl, Option.some.inj advanced⟩)
  | blocked wait =>
    obtain ⟨woken, ⟨⟩⟩ := ite_none_left_eq_some.mp advanced
    refine .inl ⟨local_goto wf woken ?_ _, trivial⟩
    intro cond
    cases cond <;> simp [here]
  | storeHolder mtx =>
    cases advanced
    exact .inl ⟨local_storeHolder wf here, trivial⟩
  | clearHolder =>
    cases advanced
    exact .inl ⟨local_clearHolder wf here, trivial⟩
  | notify cond => exact .inr (.inr ⟨cond, rfl, Option.some.inj advanced⟩)

end

end Local

/-! Blocking and notifying. -/

section Queue

variable {before after : Kernel Thread Mutex Condvar Value} {thr : Thread}
  {wait : Wait Mutex Condvar Value} {cond want : Cond Mutex Condvar}

omit [DecidableEq Mutex] [DecidableEq Condvar] [DecidableEq Value] in
theorem block_wellFormed (wf : WellFormed before) (here : before.pc thr = .block wait) :
    WellFormed (before.block thr wait) where
  valid := block_valid wf.valid (wf.running (by simp [here]))
  binary := wf.binary
  placed := by
    intro other blocked
    by_cases same : other = thr
    · subst same
      exact ⟨wait, goto_self .., update_self ..⟩
    · simp only [block, goto, Sched.block, update_of_ne same] at blocked ⊢
      exact wf.placed other blocked

omit [DecidableEq Mutex] [DecidableEq Condvar] [DecidableEq Value] in
theorem block_notifies (here : before.pc thr = .block wait) (other : Thread) :
    (before.block thr wait).Notifies other cond ↔ before.Notifies other cond := by
  by_cases same : other = thr
  · subst same
    cases cond <;> simp [block, here]
  · exact notifies_congr (goto_other _ _ same) cond

omit [DecidableEq Value] in
theorem block_awake_iff (here : before.pc thr = .block wait) (awake : Awake before) :
    Awake (before.block thr wait) ↔ before.Attends thr (.block wait) := by
  have waiters (waiter : Thread) (cond : Cond Mutex Condvar) :
      waiter ∈ (before.block thr wait).sched.waiters cond ↔
        (waiter = thr ∧ cond = wait.cond) ∨ (waiter ≠ thr ∧ waiter ∈ before.sched.waiters cond) :=
    mem_block_waiters
  constructor
  · intro later passes
    obtain ⟨other, notifies⟩ := later thr wait ((waiters thr _).mpr (.inl ⟨rfl, rfl⟩))
      (goto_self ..) ((passes_congr rfl rfl wait).mpr passes)
    exact ⟨other, (block_notifies here other).mp notifies⟩
  · intro attended waiter want waits at_ passes
    have open_ : before.Passes want := (passes_congr rfl rfl want).mp passes
    have found : ∃ other, before.Notifies other want.cond := by
      rcases (waiters waiter _).mp waits with ⟨rfl, _⟩ | ⟨different, old⟩
      · obtain rfl : wait = want := by simpa [block] using at_
        exact attended open_
      · have earlier : before.pc waiter = .blocked want := (goto_other _ _ different).symm.trans at_
        exact awake waiter want old earlier open_
    obtain ⟨other, notifies⟩ := found
    exact ⟨other, (block_notifies here other).mpr notifies⟩

omit [DecidableEq Value] in
theorem notifyOne_pc (here : before.pc thr = .notify cond) {waiter}
    (blocked : before.pc waiter = .blocked wait) :
    (before.notifyOne thr cond).pc waiter = .blocked wait := by
  have different : waiter ≠ thr := by
    intro same
    rw [same, here] at blocked
    cases blocked
  exact (goto_other _ _ different).trans blocked

omit [DecidableEq Value] in
theorem notifyOne_wellFormed (wf : WellFormed before) (here : before.pc thr = .notify cond) :
    WellFormed (before.notifyOne thr cond) where
  valid := notify_valid wf.valid
  binary := wf.binary
  placed := by
    intro other blocked
    have state : (if other ∈ before.sched.woken cond false then ThreadState.stopped
        else before.sched.state other) = .blockedOnCondition :=
      (notify_state wf.valid).symm.trans blocked
    split at state
    · cases state
    · next still =>
      obtain ⟨wait, earlier, on⟩ := wf.placed other state
      refine ⟨wait, notifyOne_pc here earlier, ?_⟩
      have kept : (before.notifyOne thr cond).sched.blockedOn other =
          before.sched.blockedOn other := (notify_blockedOn wf.valid).trans (if_neg still)
      exact kept.trans on

omit [DecidableEq Value] in
theorem notifyOne_notifies :
    (before.notifyOne thr cond).Notifies other want ↔ other ≠ thr ∧ before.Notifies other want := by
  by_cases same : other = thr
  · subst same
    cases want <;> simp [notifyOne]
  · have kept : (before.notifyOne thr cond).pc other = before.pc other := goto_other _ _ same
    rw [notifies_congr kept want]
    simp [same]

omit [DecidableEq Thread] [DecidableEq Mutex] [DecidableEq Condvar] [DecidableEq Value] in
theorem notifies_only (here : before.pc thr = .notify cond) (notifies : before.Notifies thr want) :
    want = cond := by
  cases want with
  | mutex mtx | condvar cv => simpa [here, eq_comm] using notifies

omit [DecidableEq Value] in
theorem notifyOne_awake_iff (wf : WellFormed before) (here : before.pc thr = .notify cond)
    (awake : Awake before) :
    Awake (before.notifyOne thr cond) ↔ before.Attends thr (.notify cond) := by
  have waiters (waiter : Thread) (want : Cond Mutex Condvar) :
      waiter ∈ (before.notifyOne thr cond).sched.waiters want ↔
        waiter ∈ before.sched.waiters want ∧ waiter ∉ before.sched.woken cond false :=
    mem_notify_waiters wf.valid
  constructor
  · intro later waiter waits still ready
    obtain ⟨wait, blocked, on⟩ := wf.waiter waits
    have passes : before.Passes wait := by simpa [blocked, Ready] using ready
    have left_ := (waiters waiter wait.cond).mpr ⟨on.symm ▸ waits, still⟩
    obtain ⟨other, notifies⟩ := later waiter wait left_ (notifyOne_pc here blocked)
      ((passes_congr rfl rfl wait).mpr passes)
    exact ⟨other, on ▸ notifyOne_notifies.mp notifies⟩
  · intro attended waiter wait waits blocked passes
    have ⟨earlier, still⟩ := (waiters waiter wait.cond).mp waits
    have open_ : before.Passes wait := (passes_congr rfl rfl wait).mp passes
    have blockedBefore : before.pc waiter = .blocked wait := by
      obtain ⟨_, again, _⟩ := wf.waiter earlier
      rw [notifyOne_pc here again] at blocked
      exact again.trans blocked
    by_cases same : wait.cond = cond
    · have ready : before.Ready (before.pc waiter) := blockedBefore.symm ▸ open_
      obtain ⟨other, notifies⟩ := attended waiter (same ▸ earlier) still ready
      exact ⟨other, notifyOne_notifies.mpr (same ▸ notifies)⟩
    · -- somebody else has to notify this waiter
      obtain ⟨other, notifies⟩ := awake waiter wait earlier blockedBefore open_
      refine ⟨other, notifyOne_notifies.mpr ⟨?_, notifies⟩⟩
      rintro rfl
      exact same (notifies_only here notifies)

end Queue

variable {op : Op Thread Mutex Condvar Value}

theorem step_wellFormed (wf : WellFormed before) (step : Step before op after) :
    WellFormed after := by
  cases op with
  | call thr =>
    have ⟨idle, called⟩ := ite_none_right_eq_some.mp step
    exact (local_call wf idle called).wellFormed wf
  | advance =>
    rcases advance_cases wf step with ⟨local_, _⟩ | ⟨_, here, rfl⟩ | ⟨_, here, rfl⟩
    · exact local_.wellFormed wf
    · exact block_wellFormed wf here
    · exact notifyOne_wellFormed wf here

theorem step_awake_iff (wf : WellFormed before) (awake : Awake before)
    (step : Step before op after) :
    Awake after ↔ Attended ⟨before, op, after⟩ := by
  cases op with
  | call thr =>
    have ⟨idle, called⟩ := ite_none_right_eq_some.mp step
    exact iff_of_true ((local_call wf idle called).awake awake) trivial
  | advance thr =>
    have attended : Attended ⟨before, .advance thr, after⟩ = before.Attends thr (before.pc thr) :=
      rfl
    rcases advance_cases wf step with ⟨local_, quiet⟩ | ⟨_, here, rfl⟩ | ⟨_, here, rfl⟩
    · exact iff_of_true (local_.awake awake) (attended ▸ quiet)
    · rw [attended, here]
      exact block_awake_iff here awake
    · rw [attended, here]
      exact notifyOne_awake_iff wf here awake

/-- No thread sleeps through its wake-up if and only if every thread that blocks
and every thread that is left behind by a notification has one still to come. -/
theorem no_lost_wakeup_iff (cell : Condvar → Value) {last : Kernel Thread Mutex Condvar Value}
    {moves : List (Move (Kernel Thread Mutex Condvar Value) (Op Thread Mutex Condvar Value))}
    (run : Run Step (init cell) moves last) :
    (∀ kernel ∈ visited (init cell) moves, NoLostWakeup kernel) ↔ ∀ move ∈ moves,
      Attended move := by
  have start : NoLostWakeup (init cell : Kernel Thread Mutex Condvar Value) :=
    (noLostWakeup_iff (init_wellFormed cell)).mpr (init_awake cell)
  have exactly := run_exact (fun kernel => WellFormed kernel ∧ Awake kernel) Attended
    (fun move => NoLostWakeup move.after) ?_ ?_ run ⟨init_wellFormed cell, init_awake cell⟩
  · rw [← exactly, visited, List.forall_mem_cons]
    simp only [List.forall_mem_map, start, true_and]
  · rintro move ⟨wf, awake⟩ step attended
    have after := step_wellFormed wf step
    have now := (step_awake_iff wf awake step).mpr attended
    exact ⟨⟨after, now⟩, (noLostWakeup_iff after).mpr now⟩
  · rintro _ ⟨wf, awake⟩ step heard
    exact (step_awake_iff wf awake step).mp ((noLostWakeup_iff (step_wellFormed wf step)).mp heard)

def handedOver : List (Op Bool Unit Unit Bool) :=
  [.call true (.lock ()), .advance true, .advance true, .call false (.lock ()), .advance false,
    .advance false, .call true (.unlock ()), .advance true, .advance true, .advance false,
    .advance false, .advance false]

theorem no_lost_wakeup_handed_over : let start : Kernel Bool Unit Unit Bool := .init fun _ => false
    let trail := trace next start handedOver
    trail.1.length = 12 ∧ trail.2.holder () = some false ∧ ∀ kernel ∈ visited start trail.1,
      NoLostWakeup kernel := by
  have run : Run Step (.init fun _ => false) _ _ :=
    trace_run next (fun _ _ _ => id) _ handedOver
  refine ⟨by decide, by decide, (no_lost_wakeup_iff _ run).mpr ?_⟩
  decide

/-- The holder unlocks, or the value is set, between the failed test and the
blocking of another thread. -/
theorem wakeup_lost :
    (∃ moves last, Run Step (.init fun _ => false : Kernel Bool Unit Unit Bool) moves last ∧
    last.value () = 0 ∧ last.sched.blockedThreads = [false] ∧ ¬ NoLostWakeup last) ∧
    ∃ moves last, Run Step (.init fun _ => false : Kernel Bool Unit Unit Bool) moves last ∧
    last.pc true = .blocked (.equal () true) ∧ last.cell () = true ∧ ¬ NoLostWakeup last := by
  constructor
  · let trail := trace next (.init fun _ => false : Kernel Bool Unit Unit Bool)
      [.call true (.lock ()), .advance true, .advance true, .call false (.lock ()), .advance false,
        .call true (.unlock ()), .advance true, .advance true, .advance false]
    refine ⟨trail.1, trail.2, trace_run _ (fun _ _ _ => id) _ _, by decide, by decide, ?_⟩
    intro heard
    have silent : ¬ ∃ unlocker, trail.2.Notifies unlocker (.mutex ()) := by decide
    have held := (heard.mutex false (by decide) () (by decide) (by decide)).resolve_right silent
    exact absurd held (by decide)
  · let trail := trace next (.init fun _ => false : Kernel Bool Unit Unit Bool)
      [.call true (.wait () true), .advance true, .call false (.set () true), .advance false,
        .advance true]
    refine ⟨trail.1, trail.2, trace_run _ (fun _ _ _ => id) _ _, by decide, by decide, ?_⟩
    intro heard
    have silent : ¬ ∃ setter, trail.2.Notifies setter (.condvar ()) := by decide
    have differs := (heard.condvar true (by decide) () true (by decide) (by decide)).resolve_right
        silent
    exact absurd differs (by decide)

end Nx.Wakeups
