import Mathlib

/-!
Threads that block on a condition, kernel/source/scheduler/scheduler.cpp: the locked bodies of
`block` and `notify` on the list of blocked threads.
-/

namespace Nx.Blocking


open Function List
inductive ThreadState where
  | stopped
  | running
  | blockedOnCondition
  | blockedOnSleep
  | aboutToExit
  deriving DecidableEq

structure Sched (Thread Cond : Type) where
  blockedThreads : List Thread
  state : Thread → ThreadState
  blockedOn : Thread → Option Cond

open Sched

variable {Thread Cond : Type} [DecidableEq Thread] [DecidableEq Cond]

def Sched.init : Sched Thread Cond := ⟨[], fun _ => .running, fun _ => none⟩

section Scheds

variable (ss : Sched Thread Cond)

def Sched.block (cv : Cond) (thr : Thread) : Sched Thread Cond where
  blockedThreads := ss.blockedThreads ++ [thr]
  state := update ss.state thr .blockedOnCondition
  blockedOn := update ss.blockedOn thr (some cv)

def Sched.blockedAt (cv : Cond) (thr : Thread) : Bool :=
  ss.state thr = .blockedOnCondition ∧ ss.blockedOn thr = some cv

def Sched.wake (thr : Thread) : Sched Thread Cond :=
  { ss with
    state := update ss.state thr .stopped
    blockedOn := update ss.blockedOn thr none }

/-- The loop of `notify`: what stays in the list, and the woken threads' state. -/
def notifyLoop (cv : Cond) (all : Bool) : List Thread → Sched Thread Cond →
    List Thread × Sched Thread Cond
  | [], ss => ([], ss)
  | thr :: rest, ss =>
    if ss.blockedAt cv thr then
      if all then notifyLoop cv all rest (ss.wake thr) else (rest, ss.wake thr)
    else
      let later := notifyLoop cv all rest ss
      (thr :: later.1, later.2)

def Sched.notify (cv : Cond) (all : Bool) : Sched Thread Cond :=
  let swept := notifyLoop cv all ss.blockedThreads ss
  { swept.2 with blockedThreads := swept.1 }

/-! Waiters. -/

def Sched.waiters (cv : Cond) : List Thread :=
  ss.blockedThreads.filter (ss.blockedAt cv)

def Sched.woken (cv : Cond) (all : Bool) : List Thread :=
  if all then ss.waiters cv else (ss.waiters cv).take 1

end Scheds

structure Sched.Valid (ss : Sched Thread Cond) : Prop where
  nodup : ss.blockedThreads.Nodup
  blocked : ∀ thr ∈ ss.blockedThreads, ss.state thr = .blockedOnCondition

omit [DecidableEq Thread] in
theorem mem_waiters {ss : Sched Thread Cond} : thr ∈ ss.waiters cv ↔ thr ∈ ss.blockedThreads ∧
    ss.state thr = .blockedOnCondition ∧ ss.blockedOn thr = some cv := by
  simp [waiters, blockedAt]

omit [DecidableEq Thread] [DecidableEq Cond] in
theorem init_valid : (init : Sched Thread Cond).Valid := ⟨nodup_nil, by simp [init]⟩

section Block

variable {ss : Sched Thread Cond}

omit [DecidableEq Cond] in
theorem block_valid (valid : ss.Valid) (awake : ss.state thr ≠ .blockedOnCondition) :
    (ss.block cv thr).Valid := by
  have absent : thr ∉ ss.blockedThreads := fun member => awake (valid.blocked thr member)
  constructor
  · rw [block, nodup_append]
    refine ⟨valid.nodup, nodup_singleton thr, ?_⟩
    intro old member new same
    rw [mem_singleton.mp same]
    intro equal
    exact absent (equal ▸ member)
  · intro blocked member
    rcases mem_append.mp member with old | new
    · simp only [block, update_apply]
      split
      · rfl
      · exact valid.blocked blocked old
    · rw [mem_singleton.mp new]
      exact update_self ..

theorem mem_block_waiters : waiter ∈ (ss.block cv thr).waiters other ↔ (waiter = thr ∧ other = cv) ∨
    (waiter ≠ thr ∧
    waiter ∈ ss.waiters other) := by
  rw [mem_waiters, mem_waiters]
  by_cases same : waiter = thr
  · subst same
    simp [block, eq_comm]
  · simp [block, same]

variable {all : Bool} {thr : Thread}

def Sched.wakeAll (ss : Sched Thread Cond) (woken : List Thread) : Sched Thread Cond where
  blockedThreads := ss.blockedThreads
  state thr := if thr ∈ woken then .stopped else ss.state thr
  blockedOn thr := if thr ∈ woken then none else ss.blockedOn thr

omit [DecidableEq Cond] in
theorem wakeAll_cons (woken : List Thread) : (ss.wake thr).wakeAll woken = ss.wakeAll
    (thr :: woken) := by
  unfold wakeAll wake
  congr
  all_goals
    funext later
    by_cases same : later = thr
    · simp [same]
    · simp [same]

omit [DecidableEq Cond] in
theorem wakeAll_nil : ss.wakeAll [] = ss := by
  simp [wakeAll]

variable {threads : List Thread}

theorem filter_skip {woken : List Thread} (absent : thr ∉ threads) :
    (thr :: threads).filter (· ∉ thr :: woken) = threads.filter (· ∉ woken) := by
  rw [filter_cons_of_neg (by simp)]
  apply filter_congr
  intro later member
  have different : later ≠ thr := fun same => absent (same ▸ member)
  simp [different]

theorem notifyLoop_eq (nodup : threads.Nodup) : let waiting := threads.filter (ss.blockedAt cv)
    let woken := if all then waiting else waiting.take 1
    notifyLoop cv all threads ss = (threads.filter (· ∉ woken), ss.wakeAll woken) := by
  induction threads generalizing ss with
  | nil => simp [notifyLoop, wakeAll_nil]
  | cons thr rest ih =>
    have ⟨absent, tail⟩ := nodup_cons.mp nodup
    by_cases here : ss.blockedAt cv thr
    · have others : rest.filter ((ss.wake thr).blockedAt cv) = rest.filter (ss.blockedAt cv) := by
        apply filter_congr
        intro later member
        have different : later ≠ thr := fun same => absent (same ▸ member)
        simp [wake, blockedAt, different]
      cases all with
      | true =>
        have later := @ih (ss.wake thr) tail
        simp only [if_true, others] at later
        simp only [notifyLoop, here, if_true, filter_cons_of_pos, later, filter_skip absent,
          wakeAll_cons]
      | false =>
        have rest_ : rest.filter (· ∉ ([] : List Thread)) = rest := by simp
        simp only [notifyLoop, here, if_true, Bool.false_eq_true, if_false,
          filter_cons_of_pos, take_succ_cons, take_zero, filter_skip absent, rest_]
        rw [← wakeAll_cons, wakeAll_nil]
    · have later := @ih ss tail
      simp only [notifyLoop, here, Bool.false_eq_true, if_false, later, not_false_eq_true,
        filter_cons_of_neg]
      congr 1
      -- the thread is none of those that are woken further down
      rw [filter_cons_of_pos]
      simp only [decide_eq_true_eq]
      intro woken
      apply absent
      split at woken
      · exact mem_of_mem_filter woken
      · exact mem_of_mem_filter (mem_of_mem_take woken)

section

variable (valid : ss.Valid)
include valid

theorem notify_eq : ss.notify cv all = { ss.wakeAll (ss.woken cv all) with
        blockedThreads := ss.blockedThreads.filter (· ∉ ss.woken cv all) } := by
  unfold notify
  rw [notifyLoop_eq valid.nodup]
  rfl

theorem notify_state : (ss.notify cv all).state thr =
      if thr ∈ ss.woken cv all then .stopped else ss.state thr := by
  rw [notify_eq valid]
  rfl

theorem notify_blockedOn : (ss.notify cv all).blockedOn thr =
      if thr ∈ ss.woken cv all then none else ss.blockedOn thr := by
  rw [notify_eq valid]
  rfl

theorem mem_notify : thr ∈ (ss.notify cv all).blockedThreads ↔ thr ∈ ss.blockedThreads ∧
    thr ∉ ss.woken cv all := by
  rw [notify_eq valid]
  simp

theorem notify_valid : (ss.notify cv all).Valid := by
  constructor
  · rw [notify_eq valid]
    exact valid.nodup.filter _
  · intro thr member
    have ⟨old, still⟩ := (mem_notify valid).mp member
    rw [notify_state valid, if_neg still]
    exact valid.blocked thr old

theorem mem_notify_waiters : thr ∈ (ss.notify cv all).waiters other ↔ thr ∈ ss.waiters other ∧
    thr ∉ ss.woken cv all := by
  rw [mem_waiters, mem_waiters, mem_notify valid, notify_state valid, notify_blockedOn valid]
  by_cases woken : thr ∈ ss.woken cv all
  · simp [woken]
  · simp [woken]

end

end Block

end Nx.Blocking
