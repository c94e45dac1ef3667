import Nx.SignalNesting

/-!
`ipc_signal_block` of kernel/source/syscall/sc_ipc.cpp with `signalBlocking` of
kernel/source/ipc/signal.cpp, next to the thread that it signals.
-/

namespace Nx.SignalBlocking

open Words Transitions Signals SignalNesting Option

variable {Cv : Type}

inductive Pc where
  | start
  /-- The message is in the queue. -/
  | queued
  /-- After `cv->set(true)`, in `cv->wait(false)`. -/
  | waiting
  | returned
  /-- There was nobody to signal. -/
  | failed
  deriving DecidableEq

structure Exchange (Cv : Type) where
  target : Running Cv
  pc : Pc
  /-- The value of the condition variable. -/
  value : Bool

inductive Act (Cv : Type) where
  | send (sender sigType : Word) (body : SignalBody) (answer : Bool)
  | raise
  /-- The locked test of `wait`. -/
  | test
  | target (event : Event Cv)
  deriving DecidableEq

def reset [DecidableEq Cv] (cv : Cv) (value : Bool) : Event Cv → Bool
  | .switchIn (.restored _ (some other)) _ => if other = cv then false else value
  | _ => value

def Foreign (cv : Cv) : Event Cv → Prop
  | .signal _ _ _ (some other) _ => other ≠ cv
  | _ => True

instance [DecidableEq Cv] (cv : Cv) (event : Event Cv) : Decidable (Foreign cv event) := by
  unfold Foreign
  split <;> infer_instance

inductive Exchange.Step [DecidableEq Cv] (stub : Word) (cv : Cv) :
    Exchange Cv → Act Cv → Exchange Cv → Prop where
  | send {state sender sigType body thread} (start : state.pc = .start)
      (signals : internalSignal sender state.target.thread sigType body (some cv) =
        (true, thread)) :
      Step stub cv state (.send sender sigType body true)
        { state with target := { state.target with thread := thread }, pc := .queued }
  | refused {state sender sigType body thread} (start : state.pc = .start)
      (signals : internalSignal sender state.target.thread sigType body (some cv) =
        (false, thread)) :
      Step stub cv state (.send sender sigType body false) { state with pc := .failed }
  | raise {state} (queued : state.pc = .queued) :
      Step stub cv state .raise { state with pc := .waiting, value := true }
  | sleep {state} (waiting : state.pc = .waiting) (isSet : state.value = true) :
      Step stub cv state .test state
  | done {state} (waiting : state.pc = .waiting) (isReset : state.value = false) :
      Step stub cv state .test { state with pc := .returned }
  | target {state event run} (foreign : Foreign cv event)
      (step : Signals.Step stub state.target event run) :
      Step stub cv state (.target event)
        { state with target := run, value := reset cv state.value event }

/-- The message is in the queue of the target, or its handler has not returned. -/
def Unfinished (cv : Cv) (thr : Thread Cv) : Prop :=
  (∃ msg ∈ thr.pendingSignalQueue, msg.blockingCv = some cv) ∨ ∃ saved ∈ thr.savedSignalStateStack,
    saved.cond = some cv

def Waits (cv : Cv) (state : Exchange Cv) : Prop :=
  (state.pc = .waiting ∨ state.pc = .returned) → state.value = true →
    Unfinished cv state.target.thread

section Steps

variable {stub : Word} {cv : Cv} {run after : Running Cv} {event : Event Cv} {value : Bool}

theorem unfinished_step [DecidableEq Cv] (unfinished : Unfinished cv run.thread)
    (step : Signals.Step stub run event after) (isSet : reset cv value event = true) :
      Unfinished cv after.thread := by
  cases step with
  | signal signals =>
    rcases signal_cases signals with ⟨_, rfl⟩ | ⟨_, _, rfl⟩
    · exact unfinished
    · apply unfinished.imp_left
      rintro ⟨msg, member, isCv⟩
      exact ⟨msg, List.mem_append_left _ member, isCv⟩
  | setHandler =>
    obtain ⟨_, isThread⟩ := setHandler_cases run.thread _ _
    rw [isThread]
    exact unfinished
  | enter | ret | leave | switchOut => exact unfinished
  | switchIn _ sets =>
    rcases setup_cases sets with ⟨_, _, _, isStack, rfl, rfl⟩ | ⟨_, _, rfl⟩ | ⟨_, _, _, isQueue,
      _, _, rfl⟩
    · apply unfinished.imp_right
      rintro ⟨saved, member, isCv⟩
      rw [isStack] at member
      rcases List.mem_cons.mp member with rfl | older
      · rw [isCv, reset, if_pos rfl] at isSet
        cases isSet
      · exact ⟨saved, older, isCv⟩
    · exact unfinished
    · rcases unfinished with ⟨other, member, isCv⟩ | ⟨saved, member, isCv⟩
      · rw [isQueue] at member
        rcases List.mem_cons.mp member with rfl | behind
        · exact .inr ⟨_, List.mem_cons_self, isCv⟩
        · exact .inl ⟨other, behind, isCv⟩
      · exact .inr ⟨saved, List.mem_cons_of_mem _ member, isCv⟩

theorem set_before_reset [DecidableEq Cv] (isSet : reset cv value event = true) : value = true := by
  unfold reset at isSet
  split at isSet
  · split at isSet
    · cases isSet
    · exact isSet
  · exact isSet

variable [DecidableEq Cv]

theorem step_waits (waits : Waits cv before) (step : Exchange.Step stub cv before act last)
    (inTime : act = .raise → Unfinished cv before.target.thread) : Waits cv last := by
  cases step with
  | send | refused => exact fun passed => absurd passed nofun
  | raise => exact fun _ _ => inTime rfl
  | sleep => exact waits
  | done _ isReset => exact fun _ isSet => absurd (isReset.symm.trans isSet) nofun
  | target _ step =>
    intro passed isSet
    exact unfinished_step (waits passed (set_before_reset isSet)) step isSet

theorem raise_waits (step : Exchange.Step stub cv before .raise last) (waits : Waits cv last) :
    Unfinished cv before.target.thread := by
  cases step with
  | raise => exact waits (.inl rfl) rfl

/-- For every order of the steps of a sender and its target: whenever the sender is past its
`set(true)` and the condition variable is set, its signal is unfinished, exactly if the
signal was unfinished when the variable was set. -/
theorem blocked_sender_waits_iff (target : Running Cv) {last : Exchange Cv}
    {moves : List (Move (Exchange Cv) (Act Cv))}
      (run : Run (Exchange.Step stub cv) ⟨target, .start, false⟩ moves last) :
    (∀ state ∈ visited ⟨target, .start, false⟩ moves, Waits cv state) ↔
      ∀ move ∈ moves, move.label = .raise → Unfinished cv move.before.target.thread := by
  have start : Waits cv ⟨target, .start, false⟩ := fun passed => absurd passed nofun
  have exact := run_exact (Waits cv) (fun move => move.label = .raise →
      Unfinished cv move.before.target.thread)
    (fun move => Waits cv move.after)
    (fun _ waits step inTime => ⟨step_waits waits step inTime, step_waits waits step inTime⟩)
    (fun _ _ step waits isRaise => raise_waits (isRaise ▸ step) waits) run start
  rw [← exact]
  simp only [visited, List.forall_mem_cons, List.forall_mem_map]
  exact ⟨fun waits => waits.2, fun waits => ⟨start, waits⟩⟩

def nextAct? (stub : Word) (cv : Cv) (state : Exchange Cv) : Act Cv → Option (Exchange Cv)
  | .send sender sigType body answer =>
    let out := internalSignal sender state.target.thread sigType body (some cv)
    if state.pc = .start ∧ out.1 = answer then
      if answer then some
        { state with target := { state.target with thread := out.2 }, pc := .queued }
      else some { state with pc := .failed }
    else none
  | .raise => if state.pc = .queued then some { state with pc := .waiting, value := true } else none
  | .test =>
    if state.pc = .waiting then if state.value then some state else some
      { state with pc := .returned } else none
  | .target event =>
    if Foreign cv event then
      (Signals.next? stub state.target event).map fun run =>
        { state with target := run, value := reset cv state.value event }
    else none

theorem step_of_nextAct? (stub : Word) (cv : Cv) (state : Exchange Cv) (act : Act Cv)
    (last : Exchange Cv)
    (moved : nextAct? stub cv state act = some last) : Exchange.Step stub cv state act last := by
  cases act with
  | send _ _ _ answer =>
    obtain ⟨⟨start, same⟩, rest⟩ := ite_none_right_eq_some.mp moved
    cases answer with
    | true =>
      cases rest
      exact .send start (Prod.ext same rfl)
    | false =>
      cases rest
      exact .refused start (Prod.ext same rfl)
  | raise =>
    obtain ⟨queued, ⟨⟩⟩ := ite_none_right_eq_some.mp moved
    exact .raise queued
  | test =>
    obtain ⟨waiting, rest⟩ := ite_none_right_eq_some.mp moved
    split at rest
    next isSet =>
      cases rest
      exact .sleep waiting isSet
    next isReset =>
      cases rest
      exact .done waiting (Bool.eq_false_of_not_eq_true isReset)
  | target =>
    obtain ⟨foreign, rest⟩ := ite_none_right_eq_some.mp moved
    obtain ⟨run, ran, rfl⟩ := map_eq_some_iff.mp rest
    exact .target foreign (step_of_next? stub _ _ run ran)

end Steps

def handling : Running Nat :=
  ⟨{ threadId := 1, signalHandlers := fun _ => 0x4000, kernelStack := userRegs 0 }, .user⟩

def handles : List (Act Nat) :=
  [.target (.switchOut (userRegs 8) []), .target
    (.switchIn (.delivered ⟨5, 1, 1, body, some 3⟩ (userRegs 8)) []),
    .target .enter, .target .leave, .target (.switchOut kernelRegs []),
    .target (.switchIn (.restored (userRegs 8) (some 3)) [])]

def inTime : List (Act Nat) := [.send 5 0 body true, .raise, .test] ++ handles ++ [.test]

theorem blocked_sender_waits_iff_inTime :
    let ran := trace (nextAct? 0x9000 3) ⟨handling, .start, false⟩ inTime
    ran.1.length = 10 ∧ ran.2.pc = .returned ∧
      ((∀ state ∈ visited ⟨handling, .start, false⟩ ran.1, Waits 3 state) ↔
        ∀ move ∈ ran.1, move.label = .raise → Unfinished 3 move.before.target.thread) := by
  intro _
  exact ⟨by decide +kernel, by decide +kernel,
    blocked_sender_waits_iff handling (trace_run _ (step_of_nextAct? 0x9000 3) _ _)⟩

def tooLate : List (Act Nat) := .send 5 0 body true :: (handles ++ [.raise, .test])

theorem blocked_sender_sleeps :
    let ran := trace (nextAct? 0x9000 3) ⟨handling, .start, false⟩ tooLate
    ran.1.length = 9 ∧ ran.2.pc = .waiting ∧ ran.2.value = true ∧
      ran.2.target.thread.pendingSignalQueue = [] ∧
        ran.2.target.thread.savedSignalStateStack = [] := by
  decide +kernel

end Nx.SignalBlocking
