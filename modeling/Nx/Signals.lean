import Nx.Words
import Nx.Transitions

/-!
Signals of a thread: `internal_signal` of kernel/source/ipc/signal.cpp, `ipc_set_signal_handler` and
`user_signal_leave` of kernel/source/syscall/sc_ipc.cpp, and `nx_x64_setup_signalled_stack` of
kernel/source/scheduler/switch.cpp, which every context switch into the thread runs.
-/

namespace Nx.Signals

open Words List Option

structure InterruptedState where
  rdi : Word
  rsi : Word
  rbp : Word
  rax : Word
  rbx : Word
  rcx : Word
  rdx : Word
  r8 : Word
  r9 : Word
  r10 : Word
  r11 : Word
  r12 : Word
  r13 : Word
  r14 : Word
  r15 : Word
  rip : Word
  cs : Word
  rflags : Word
  rsp : Word
  ss : Word
  deriving DecidableEq

def InterruptedState.user (regs : InterruptedState) : Bool := decide (regs.cs &&& 3 ≠ 0)

structure SignalBody where
  sigType : Word
  a : Word
  b : Word
  c : Word
  deriving DecidableEq

def maxSignalTypes : Nat := 32

def msgFlagSignal : Word := 1

variable {Cv : Type}

structure SignalMessage (Cv : Type) where
  senderId : Word
  targetId : Word
  flags : Word
  body : SignalBody
  blockingCv : Option Cv
  deriving DecidableEq

structure ServicedSignal (Cv : Type) where
  savedRegs : InterruptedState
  cond : Option Cv
  deriving DecidableEq

/-- The x87 and SSE registers, as `cpu::fpu::save` stores them. -/
abbrev FpuState := List (BitVec 8)

structure Thread (Cv : Type) where
  threadId : Word
  fpuSavedStateBuffer : FpuState := []
  signalHandlers : Nat → Word := fun _ => 0
  pendingSignalRestore : Bool := false
  pendingSignalQueue : List (SignalMessage Cv) := []
  /-- The back of the list comes first. -/
  savedSignalStateStack : List (ServicedSignal Cv) := []
  /-- What `kernelStack` points to. -/
  kernelStack : InterruptedState

def message (sender : Word) (thr : Thread Cv) (sigType : Word) (body : SignalBody)
    (cv : Option Cv) :
    SignalMessage Cv :=
  ⟨sender, thr.threadId, msgFlagSignal, { body with sigType := sigType }, cv⟩

def internalSignal (sender : Word) (thr : Thread Cv) (sigType : Word) (body : SignalBody)
    (cv : Option Cv) :
    Bool × Thread Cv :=
  if maxSignalTypes ≤ sigType.toNat then (false, thr)
  else if thr.signalHandlers sigType.toNat = 0 then (false, thr)
  else
    (true, { thr with pendingSignalQueue := thr.pendingSignalQueue ++
      [message sender thr sigType body cv] })

def ipcSetSignalHandler (thr : Thread Cv) (sigType handler : Word) : Word × Thread Cv :=
  if maxSignalTypes ≤ sigType.toNat then (-1, thr)
  else
    (thr.signalHandlers sigType.toNat,
      { thr with signalHandlers := Function.update thr.signalHandlers sigType.toNat handler })

def userSignalLeave (thr : Thread Cv) : Thread Cv := { thr with pendingSignalRestore := true }

inductive Panic where
  | noSavedState
  | badSigType
  deriving DecidableEq

inductive Done (Cv : Type) where
  /-- The state from before a signal is back, and `set(false)` is called on the condition variable.
  -/
  | restored (regs : InterruptedState) (cv : Option Cv)
  | resumed (regs : InterruptedState)
  | delivered (msg : SignalMessage Cv) (regs : InterruptedState)
  deriving DecidableEq

/-- The registers with which a handler is entered, at the stub that calls it. -/
def surgery (stub : Word) (thr : Thread Cv) (msg : SignalMessage Cv) (regs : InterruptedState) :
    InterruptedState :=
  { regs with
    rax := 0, rbx := 0, r10 := 0, r11 := 0, r12 := 0, r13 := 0, r14 := 0, r15 := 0, rbp := 0
    rdi := msg.senderId
    rsi := msg.body.sigType
    rdx := msg.body.a
    rcx := msg.body.b
    r8 := msg.body.c
    r9 := thr.signalHandlers msg.body.sigType.toNat
    rip := stub }

def setupSignalledStack (stub : Word) (thr : Thread Cv) : Except Panic (Done Cv × Thread Cv) :=
  if thr.pendingSignalRestore then
    match thr.savedSignalStateStack with
    | [] => .error .noSavedState
    | ⟨savedstate, blockingCv⟩ :: below =>
      .ok (.restored savedstate blockingCv,
        { thr with
          savedSignalStateStack := below, kernelStack := savedstate, pendingSignalRestore :=
            false })
  else
    match thr.pendingSignalQueue with
    | [] => .ok (.resumed thr.kernelStack, thr)
    | msg :: later =>
      if thr.kernelStack.user then
        if msg.body.sigType.toNat < maxSignalTypes then
          .ok (.delivered msg thr.kernelStack,
            { thr with
              pendingSignalQueue := later
              savedSignalStateStack :=
                ⟨thr.kernelStack, msg.blockingCv⟩ :: thr.savedSignalStateStack
              kernelStack := surgery stub thr msg thr.kernelStack })
        else .error .badSigType
      else .ok (.resumed thr.kernelStack, thr)

/-! A thread on and off the processor. -/

inductive Mode where
  | user
  | kernel
  /-- Switched out, with its registers at `kernelStack`. -/
  | out
  deriving DecidableEq

structure Running (Cv : Type) where
  thread : Thread Cv
  mode : Mode

inductive Event (Cv : Type) where
  /-- Somebody signals the thread, which may have no handler. -/
  | signal (sender sigType : Word) (body : SignalBody) (cv : Option Cv) (answer : Bool)
  | setHandler (sigType handler : Word)
  /-- Into the kernel by a system call or an interrupt, and back. -/
  | enter
  | ret
  | leave
  | switchOut (regs : InterruptedState) (fpu : FpuState)
  /-- The floating point registers are loaded, and then `kernelStack` is popped. -/
  | switchIn (done : Done Cv) (fpu : FpuState)
  deriving DecidableEq

/-- The next state. Nothing comes between `user_signal_leave` and the switch that its
`yield`, or a tick before it, makes. -/
inductive Step (stub : Word) : Running Cv → Event Cv → Running Cv → Prop where
  | signal {run sender sigType body cv answer thread}
      (signals : internalSignal sender run.thread sigType body cv = (answer, thread)) :
      Step stub run (.signal sender sigType body cv answer) { run with thread := thread }
  | setHandler {run sigType handler} (kernel : run.mode = .kernel)
      (here : run.thread.pendingSignalRestore = false) :
      Step stub run (.setHandler sigType handler)
        { run with thread := (ipcSetSignalHandler run.thread sigType handler).2 }
  | enter {run} (user : run.mode = .user) : Step stub run .enter { run with mode := .kernel }
  | ret {run} (kernel : run.mode = .kernel) (here : run.thread.pendingSignalRestore = false) :
      Step stub run .ret { run with mode := .user }
  | leave {run} (kernel : run.mode = .kernel) (here : run.thread.pendingSignalRestore = false) :
      Step stub run .leave { run with thread := userSignalLeave run.thread }
  | switchOut {run regs fpu} (on : run.mode = if regs.user then .user else .kernel) :
      Step stub run (.switchOut regs fpu)
        ⟨{ run.thread with kernelStack := regs, fpuSavedStateBuffer := fpu }, .out⟩
  | switchIn {run done thread} (off : run.mode = .out)
      (sets : setupSignalledStack stub run.thread = .ok (done, thread)) :
      Step stub run (.switchIn done thread.fpuSavedStateBuffer)
        ⟨thread, if thread.kernelStack.user then .user else .kernel⟩

def fresh (threadId : Word) (regs : InterruptedState) (fpu : FpuState := []) : Running Cv :=
  ⟨{ threadId, fpuSavedStateBuffer := fpu, kernelStack := regs }, .out⟩

def next? [DecidableEq Cv] (stub : Word) (run : Running Cv) : Event Cv → Option (Running Cv)
  | .signal sender sigType body cv answer =>
    let out := internalSignal sender run.thread sigType body cv
    if out.1 = answer then some { run with thread := out.2 } else none
  | .setHandler sigType handler =>
    if run.mode = .kernel ∧ run.thread.pendingSignalRestore = false then
      some { run with thread := (ipcSetSignalHandler run.thread sigType handler).2 }
    else none
  | .enter => if run.mode = .user then some { run with mode := .kernel } else none
  | .ret =>
    if run.mode = .kernel ∧ run.thread.pendingSignalRestore = false then some
      { run with mode := .user }
    else none
  | .leave =>
    if run.mode = .kernel ∧ run.thread.pendingSignalRestore = false then
      some { run with thread := userSignalLeave run.thread }
    else none
  | .switchOut regs fpu =>
    if run.mode = (if regs.user then .user else .kernel) then
      some ⟨{ run.thread with kernelStack := regs, fpuSavedStateBuffer := fpu }, .out⟩
    else none
  | .switchIn done fpu =>
    if run.mode = .out then
      match setupSignalledStack stub run.thread with
      | .ok (did, thread) =>
        if did = done ∧ thread.fpuSavedStateBuffer = fpu then some
          ⟨thread, if thread.kernelStack.user then .user else .kernel⟩ else none
      | .error _ => none
    else none

theorem step_of_next? [DecidableEq Cv] (stub : Word) (run : Running Cv) (event : Event Cv)
    (after : Running Cv)
    (moved : next? stub run event = some after) : Step stub run event after := by
  cases event with
  | signal _ sigType _ _ _ =>
    obtain ⟨same, ⟨⟩⟩ := ite_none_right_eq_some.mp moved
    exact .signal (Prod.ext same rfl)
  | setHandler =>
    obtain ⟨⟨kernel, here⟩, ⟨⟩⟩ := ite_none_right_eq_some.mp moved
    exact .setHandler kernel here
  | enter =>
    obtain ⟨user, ⟨⟩⟩ := ite_none_right_eq_some.mp moved
    exact .enter user
  | ret =>
    obtain ⟨⟨kernel, here⟩, ⟨⟩⟩ := ite_none_right_eq_some.mp moved
    exact .ret kernel here
  | leave =>
    obtain ⟨⟨kernel, here⟩, ⟨⟩⟩ := ite_none_right_eq_some.mp moved
    exact .leave kernel here
  | switchOut =>
    obtain ⟨on, ⟨⟩⟩ := ite_none_right_eq_some.mp moved
    exact .switchOut on
  | switchIn =>
    obtain ⟨off, rest⟩ := ite_none_right_eq_some.mp moved
    split at rest
    next did thread sets =>
      obtain ⟨⟨rfl, rfl⟩, ⟨⟩⟩ := ite_none_right_eq_some.mp rest
      exact .switchIn off sets
    next => cases rest

theorem setup_cases (sets : setupSignalledStack stub thr = .ok (done, thread)) :
    (∃ top below, thr.pendingSignalRestore = true ∧ thr.savedSignalStateStack = top :: below ∧
      done = .restored top.savedRegs top.cond ∧ thread = { thr with
        savedSignalStateStack := below, kernelStack := top.savedRegs, pendingSignalRestore :=
          false }) ∨
    (thr.pendingSignalRestore = false ∧ done = .resumed thr.kernelStack ∧ thread = thr) ∨
    ∃ msg later, thr.pendingSignalRestore = false ∧ thr.pendingSignalQueue = msg :: later ∧
      thr.kernelStack.user = true ∧ done = .delivered msg thr.kernelStack ∧
      thread = { thr with
        pendingSignalQueue := later
        savedSignalStateStack := ⟨thr.kernelStack, msg.blockingCv⟩ :: thr.savedSignalStateStack
        kernelStack := surgery stub thr msg thr.kernelStack } := by
  rw [setupSignalledStack] at sets
  split at sets
  next pending =>
    split at sets
    next => cases sets
    next saved cv below isStack =>
      cases sets
      exact .inl ⟨_, below, pending, isStack, rfl, rfl⟩
  next notPending =>
    have settled := Bool.eq_false_of_not_eq_true notPending
    split at sets
    next =>
      cases sets
      exact .inr (.inl ⟨settled, rfl, rfl⟩)
    next msg later isQueue =>
      split at sets
      next user =>
        split at sets
        next =>
          cases sets
          exact .inr (.inr ⟨msg, later, settled, isQueue, user, rfl, rfl⟩)
        next => cases sets
      next =>
        cases sets
        exact .inr (.inl ⟨settled, rfl, rfl⟩)

theorem signal_cases (signals : internalSignal sender thr sigType body cv = (answer, thread)) :
    (answer = false ∧
    thread = thr) ∨ (answer = true ∧ sigType.toNat < maxSignalTypes ∧
    thread = { thr with pendingSignalQueue :=
      thr.pendingSignalQueue ++ [message sender thr sigType body cv] }) := by
  rw [internalSignal] at signals
  split at signals
  next =>
    cases signals
    exact .inl ⟨rfl, rfl⟩
  next inRange =>
    split at signals
    next =>
      cases signals
      exact .inl ⟨rfl, rfl⟩
    next =>
      cases signals
      exact .inr ⟨rfl, Nat.lt_of_not_le inRange, rfl⟩

theorem setHandler_cases (thr : Thread Cv) (sigType handler : Word) :
    ∃ handlers, (ipcSetSignalHandler thr sigType handler).2 = { thr with signalHandlers :=
      handlers } := by
  rw [ipcSetSignalHandler]
  split
  · exact ⟨thr.signalHandlers, rfl⟩
  · exact ⟨_, rfl⟩

def InRange (run : Running Cv) : Prop :=
  ∀ msg ∈ run.thread.pendingSignalQueue, msg.body.sigType.toNat < maxSignalTypes

theorem step_inRange (run : Running Cv) (event : Event Cv) (after : Running Cv)
    (inRange : InRange run)
    (step : Step stub run event after) : InRange after := by
  cases step with
  | signal signals =>
    rcases signal_cases signals with ⟨_, rfl⟩ | ⟨_, small, rfl⟩
    · exact inRange
    · intro msg member
      rcases mem_append.mp member with old | new
      · exact inRange msg old
      · rw [mem_singleton.mp new]
        exact small
  | setHandler =>
    obtain ⟨_, isThread⟩ := setHandler_cases run.thread _ _
    unfold InRange
    rw [isThread]
    exact inRange
  | enter | ret | leave | switchOut => exact inRange
  | switchIn _ sets =>
    rcases setup_cases sets with ⟨_, _, _, _, _, rfl⟩ | ⟨_, _, rfl⟩ | ⟨_, _, _, isQueue, _, _, rfl⟩
    · exact inRange
    · exact inRange
    · intro other member
      apply inRange other
      rw [isQueue]
      exact mem_cons_of_mem _ member

theorem setup_panics (inRange : InRange run) {panic : Panic}
    (fails : setupSignalledStack stub run.thread = .error panic) :
    panic = .noSavedState ∧ run.thread.pendingSignalRestore = true ∧
      run.thread.savedSignalStateStack = [] := by
  rw [setupSignalledStack] at fails
  split at fails
  next pending =>
    split at fails
    next empty =>
      cases fails
      exact ⟨rfl, pending, empty⟩
    next => cases fails
  next =>
    split at fails
    next => cases fails
    next msg later isQueue =>
      split at fails
      next =>
        split at fails
        next => cases fails
        next tooLarge =>
          refine absurd (inRange msg ?_) tooLarge
          rw [isQueue]
          exact mem_cons_self
      next => cases fails

end Nx.Signals
