import Nx.Signals

/-!
Signals nest: next to a thread, a stack of the states to which the entered handlers return.
-/

namespace Nx.SignalNesting

open Words Transitions Signals List Option Move

variable {Cv : Type}

structure Nest (Cv : Type) where
  queue : List (SignalMessage Cv) := []
  /-- The states in which they were entered, the last one first. -/
  entered : List InterruptedState := []
  /-- That of the handler that was left, until the thread is switched to. -/
  ending : Option InterruptedState := none

inductive Nest.Step (thr : Word) : Nest Cv → Event Cv → Nest Cv → Prop where
  | signal {nest sender sigType body cv} :
      Step thr nest (.signal sender sigType body cv true)
        { nest with queue :=
          nest.queue ++ [⟨sender, thr, msgFlagSignal, { body with sigType := sigType }, cv⟩] }
  | refused {nest sender sigType body cv} : Step thr nest
      (.signal sender sigType body cv false) nest
  | setHandler {nest sigType handler} : Step thr nest (.setHandler sigType handler) nest
  | enter {nest} : Step thr nest .enter nest
  | ret {nest} (here : nest.ending = none) : Step thr nest .ret nest
  | leave {nest back rest} (here : nest.ending = none) (last : nest.entered = back :: rest) :
      Step thr nest .leave { nest with entered := rest, ending := some back }
  | switchOut {nest regs fpu} : Step thr nest (.switchOut regs fpu) nest
  /-- The state of the handler that was left, in every field. -/
  | restored {nest back cv fpu} (ends : nest.ending = some back) :
      Step thr nest (.switchIn (.restored back cv) fpu) { nest with ending := none }
  | resumed {nest regs fpu} (here : nest.ending = none) :
      Step thr nest (.switchIn (.resumed regs) fpu) nest
  /-- The first of the queue, in user mode. -/
  | delivered {nest msg later regs fpu} (here : nest.ending = none)
      (first : nest.queue = msg :: later)
      (user : regs.user = true) :
      Step thr nest (.switchIn (.delivered msg regs) fpu)
        { nest with queue := later, entered := regs :: nest.entered }

structure Nested (id : Word) (run : Running Cv) (nest : Nest Cv) : Prop where
  thread : run.thread.threadId = id
  queue : nest.queue = run.thread.pendingSignalQueue
  stack : nest.ending.toList ++ nest.entered = run.thread.savedSignalStateStack.map
    ServicedSignal.savedRegs
  pending : nest.ending.isSome = run.thread.pendingSignalRestore

def LeavesLast (before : Running Cv) (event : Event Cv) : Prop :=
  event = .leave → before.thread.savedSignalStateStack ≠ []

section Steps

variable {stub id : Word} {run after : Running Cv}

theorem Nested.here (nested : Nested id run nest)
    (settled : run.thread.pendingSignalRestore = false) :
    nest.ending = none := by
  have pending := nested.pending
  rw [settled] at pending
  exact isSome_eq_false_iff.mp pending |> isNone_iff_eq_none.mp

theorem switchIn_nested (nested : Nested id run nest)
    (sets : setupSignalledStack stub run.thread = .ok (done, thread)) :
    ∃ next, Nest.Step id nest (.switchIn done fpu) next ∧ Nested id ⟨thread, mode⟩ next := by
  rcases setup_cases sets with ⟨_, _, pending, isStack, rfl, rfl⟩ | ⟨settled, rfl, rfl⟩ |
    ⟨msg, later, settled, isQueue, user, rfl, rfl⟩
  · -- the handler that was left is the last one that was entered
    have isEnding := nested.pending
    rw [pending] at isEnding
    obtain ⟨_, ends⟩ := isSome_iff_exists.mp isEnding
    have stack := nested.stack
    rw [ends, isStack, toList_some, map_cons, singleton_append] at stack
    obtain ⟨isBack, isRest⟩ := List.cons.inj stack
    rw [isBack] at ends
    exact ⟨_, .restored ends, nested.thread, nested.queue, isRest, rfl⟩
  · exact ⟨nest, .resumed (nested.here settled), nested.thread, nested.queue, nested.stack,
      nested.pending⟩
  · have ends := nested.here settled
    have stack := nested.stack
    rw [ends, toList_none, nil_append] at stack
    refine ⟨_, .delivered ends (nested.queue.trans isQueue) user, nested.thread, rfl, ?_,
      nested.pending⟩
    rw [ends, toList_none, nil_append, stack]
    rfl

theorem step_nested (nested : Nested id run nest) (step : Step stub run event after)
    (leaves : LeavesLast run event) : ∃ next, Nest.Step id nest event next ∧
      Nested id after next := by
  cases step with
  | signal signals =>
    rcases signal_cases signals with ⟨rfl, rfl⟩ | ⟨rfl, _, rfl⟩
    · exact ⟨nest, .refused, nested⟩
    · refine ⟨_, .signal, nested.thread, ?_, nested.stack, nested.pending⟩
      rw [nested.queue, ← nested.thread]
      rfl
  | setHandler kernel settled =>
    obtain ⟨_, isThread⟩ := setHandler_cases run.thread _ _
    rw [isThread]
    exact ⟨nest, .setHandler, nested.thread, nested.queue, nested.stack, nested.pending⟩
  | enter => exact ⟨nest, .enter, nested.thread, nested.queue, nested.stack, nested.pending⟩
  | ret kernel settled =>
    exact ⟨nest, .ret (nested.here settled), nested.thread, nested.queue, nested.stack,
      nested.pending⟩
  | leave _ settled =>
    have ends := nested.here settled
    have stack := nested.stack
    rw [ends, toList_none, nil_append] at stack
    cases isStack : run.thread.savedSignalStateStack with
    | nil => exact absurd isStack (leaves rfl)
    | cons =>
      rw [isStack, map_cons] at stack
      refine ⟨_, .leave ends stack, nested.thread, nested.queue, ?_, rfl⟩
      exact (congrArg (List.map ServicedSignal.savedRegs) isStack).symm
  | switchOut => exact ⟨nest, .switchOut, nested.thread, nested.queue, nested.stack, nested.pending⟩
  | switchIn _ sets => exact switchIn_nested nested sets

end Steps

/-! Queue order. -/

def signalled (thr : Word) : List (Event Cv) → List (SignalMessage Cv)
  | [] => []
  | .signal sender sigType body cv true :: rest =>
    ⟨sender, thr, msgFlagSignal, { body with sigType := sigType }, cv⟩ :: signalled thr rest
  | _ :: rest => signalled thr rest

def deliveries : List (Event Cv) → List (SignalMessage Cv)
  | [] => []
  | .switchIn (.delivered msg _) _ :: rest => msg :: deliveries rest
  | _ :: rest => deliveries rest

theorem deliveries_in_order {id : Word} (run : Run (Nest.Step id) nest moves last) :
    nest.queue ++ signalled id (moves.map label) = deliveries (moves.map label) ++ last.queue := by
  induction run with
  | refl => simp [signalled, deliveries]
  | next step _ ih =>
    cases step with
    | signal => simpa [signalled, deliveries] using ih
    | delivered _ first _ => simpa [signalled, deliveries, first] using ih
    | refused | setHandler | enter | ret | leave | switchOut | restored | resumed =>
      simpa [signalled, deliveries] using ih

/-! Outside of the handlers. -/

inductive Turn where
  | out (regs : InterruptedState) (fpu : FpuState)
  | resumed (regs : InterruptedState) (fpu : FpuState)
  deriving DecidableEq

/-- The switches while no handler is entered; with the last one that is left the thread is resumed.
-/
def outside (inside : Nat) : List (Event Cv) → List Turn
  | [] => []
  | .switchOut regs fpu :: rest =>
    if inside = 0 then .out regs fpu :: outside inside rest else outside inside rest
  | .switchIn (.resumed regs) fpu :: rest =>
    if inside = 0 then .resumed regs fpu :: outside inside rest else outside inside rest
  | .switchIn (.restored regs _) fpu :: rest =>
    if inside = 1 then .resumed regs fpu :: outside 0 rest else outside (inside - 1) rest
  | .switchIn (.delivered _ _) _ :: rest => outside (inside + 1) rest
  | .signal _ _ _ _ _ :: rest | .setHandler _ _ :: rest | .enter :: rest | .ret ::
      rest | .leave :: rest =>
    outside inside rest

/-- The thread goes on in the state in which it was switched out, or in which it was at first. -/
def Unbroken : InterruptedState × FpuState → List Turn → Prop
  | _, [] => True
  | _, .out regs fpu :: rest => Unbroken (regs, fpu) rest
  | saved, .resumed regs fpu :: rest => (regs, fpu) = saved ∧ Unbroken saved rest

/-- Every handler has put the floating point registers back when it is left: those that were saved
last, before the switch that ends it, are those with which it was entered. -/
def PutsBack (saved : FpuState) (entered : List FpuState) : List (Event Cv) → Prop
  | [] => True
  | .switchOut _ fpu :: rest => PutsBack fpu entered rest
  | .switchIn (.delivered _ _) _ :: rest => PutsBack saved (saved :: entered) rest
  | .switchIn (.restored _ _) _ :: rest => (∀ fpu ∈ entered.head?, fpu = saved) ∧
      PutsBack saved entered.tail rest
  | .switchIn (.resumed _) _ :: rest | .signal _ _ _ _ _ :: rest | .setHandler _ _ ::
      rest | .enter :: rest |
    .ret :: rest | .leave :: rest => PutsBack saved entered rest

variable {saved : InterruptedState × FpuState} {entered : List FpuState}

section Outside

variable {run after : Running Cv}

/-- `saved` is the state in which the thread is resumed when all handlers are left, if each has put
back the floating point registers with which it was entered. -/
structure Expects (run : Running Cv) (saved : InterruptedState × FpuState)
    (entered : List FpuState) : Prop where
  depth : entered.length = run.thread.savedSignalStateStack.length
  inside : ∀ first ∈ run.thread.savedSignalStateStack.getLast?, saved.1 = first.savedRegs
  fpu : ∀ first ∈ entered.getLast?, saved.2 = first
  outside : run.thread.savedSignalStateStack = [] → run.mode = .out →
    saved = (run.thread.kernelStack, run.thread.fpuSavedStateBuffer)

theorem expects_on (saved : InterruptedState × FpuState)
    (stack : run.thread.savedSignalStateStack = [])
    (on : run.mode ≠ .out) : Expects run saved [] :=
  ⟨by simp [stack], fun _ first => absurd first (by simp [stack]), fun _ first => absurd first (by simp),
    fun _ off => absurd off on⟩

section

variable (expects : Expects run saved entered)
include expects

theorem Expects.inner {entered' : List FpuState}
    (same : after.thread.savedSignalStateStack.getLast? = run.thread.savedSignalStateStack.getLast?)
    (depth : entered'.length = after.thread.savedSignalStateStack.length)
    (fpu : entered'.getLast? = entered.getLast?)
    (handled : after.thread.savedSignalStateStack ≠ []) : Expects after saved entered' :=
  ⟨depth, same ▸ expects.inside, fpu ▸ expects.fpu, fun empty => absurd empty handled⟩

theorem Expects.kept (stack : after.thread.savedSignalStateStack = run.thread.savedSignalStateStack)
    (regs : after.thread.kernelStack = run.thread.kernelStack)
    (fpu : after.thread.fpuSavedStateBuffer = run.thread.fpuSavedStateBuffer)
    (off : after.mode = .out → run.mode = .out) : Expects after saved entered :=
  ⟨stack ▸ expects.depth, stack ▸ expects.inside, expects.fpu,
    fun empty isOut => regs ▸ fpu ▸ expects.outside (stack ▸ empty) (off isOut)⟩

theorem outside_switchOut
    (later : ∀ saved, Expects
        (⟨{ run.thread with kernelStack := regs, fpuSavedStateBuffer := fpu }, .out⟩ : Running Cv)
          saved entered →
      Unbroken saved (outside run.thread.savedSignalStateStack.length rest)) :
    Unbroken saved (outside run.thread.savedSignalStateStack.length
      (.switchOut regs fpu :: rest)) := by
  cases isStack : run.thread.savedSignalStateStack with
  | nil =>
    have none_ : entered = [] := length_eq_zero_iff.mp (by rw [expects.depth, isStack, length_nil])
    have kept := later (regs, fpu) ⟨expects.depth, fun _ first => absurd first (by simp [isStack]),
      fun _ first => absurd first (by simp [none_]), fun _ _ => rfl⟩
    rw [isStack] at kept
    exact kept
  | cons =>
    have handled : run.thread.savedSignalStateStack ≠ [] := by simp [isStack]
    have kept := later saved (expects.inner rfl expects.depth rfl handled)
    rw [isStack] at kept
    rw [outside, if_neg (by simp)]
    exact kept

theorem outside_switchIn (isOut : run.mode = .out)
    (sets : setupSignalledStack stub run.thread = .ok (done, thread)) (on : mode ≠ .out)
    (putsBack : PutsBack run.thread.fpuSavedStateBuffer entered
      (.switchIn done thread.fpuSavedStateBuffer :: rest))
    (later : ∀ entered, Expects ⟨thread, mode⟩ saved entered →
      PutsBack thread.fpuSavedStateBuffer entered rest →
      Unbroken saved (outside thread.savedSignalStateStack.length rest)) :
    Unbroken saved (outside run.thread.savedSignalStateStack.length
      (.switchIn done thread.fpuSavedStateBuffer :: rest)) := by
  have depth := expects.depth
  rcases setup_cases sets with ⟨top, below, _, isStack, rfl, rfl⟩ | ⟨_, rfl, isThread⟩ | ⟨_, _, _,
    _, _, rfl, rfl⟩
  · rw [isStack, length_cons] at depth
    obtain ⟨fpu, others, rfl⟩ := exists_cons_of_length_eq_add_one depth
    rw [length_cons, Nat.add_right_cancel_iff] at depth
    obtain ⟨isBack, more⟩ := putsBack
    have same : fpu = run.thread.fpuSavedStateBuffer := isBack fpu rfl
    cases below with
    | nil =>
      -- the last handler is left, and the registers are those from before the first one
      obtain rfl : others = [] := length_eq_zero_iff.mp depth
      have isTop := expects.inside top (by simp [isStack])
      have isFpu := expects.fpu fpu (by simp)
      rw [isStack]
      refine ⟨Prod.ext isTop.symm (same.symm.trans isFpu.symm),
        later [] (expects_on saved rfl on) more⟩
    | cons next rest =>
      have same : (next :: rest).getLast? = run.thread.savedSignalStateStack.getLast? := by
        rw [isStack, getLast?_cons_cons]
      have fewer : others.getLast? = (fpu :: others).getLast? := by
        obtain ⟨_, _, rfl⟩ := exists_cons_of_length_eq_add_one (depth.trans length_cons)
        rw [getLast?_cons_cons]
      rw [isStack, outside, if_neg (by simp)]
      exact later others (expects.inner same depth fewer (cons_ne_nil _ _)) more
  · rw [isThread] at later putsBack ⊢
    cases isStack : run.thread.savedSignalStateStack with
    | nil =>
      have none_ : entered = [] := length_eq_zero_iff.mp (by rw [depth, isStack, length_nil])
      rw [isStack] at later
      subst none_
      exact ⟨(expects.outside isStack isOut).symm, later [] (expects_on saved isStack on) putsBack⟩
    | cons top below =>
      rw [isStack] at later
      rw [outside, if_neg (by simp)]
      exact later entered (expects.inner rfl depth rfl (by simp [isStack])) putsBack
  · refine later (run.thread.fpuSavedStateBuffer :: entered)
      ⟨congrArg (· + 1) depth, ?_, ?_, fun empty => absurd empty (cons_ne_nil _ _)⟩ putsBack
    · cases isStack : run.thread.savedSignalStateStack with
      | nil =>
        rintro _ ⟨⟩
        exact congrArg Prod.fst (expects.outside isStack isOut)
      | cons =>
        rw [getLast?_cons_cons, ← isStack]
        exact expects.inside
    · cases isEntered : entered with
      | nil =>
        rintro _ ⟨⟩
        have none_ : run.thread.savedSignalStateStack = [] :=
          length_eq_zero_iff.mp (by rw [← depth, isEntered, length_nil])
        exact congrArg Prod.snd (expects.outside none_ isOut)
      | cons =>
        rw [getLast?_cons_cons, ← isEntered]
        exact expects.fpu

end

theorem outside_unbroken (run : Run (Step stub) start moves last)
    (expects : Expects start saved entered)
    (putsBack : PutsBack start.thread.fpuSavedStateBuffer entered (moves.map label)) :
    Unbroken saved (outside start.thread.savedSignalStateStack.length (moves.map label)) := by
  induction run generalizing saved entered with
  | refl => exact trivial
  | @next before after last _ rest step _ ih =>
    -- only the switches are seen, and only they change the stack or the registers
    have unseen (stack : after.thread.savedSignalStateStack = before.thread.savedSignalStateStack)
        (regs : after.thread.kernelStack = before.thread.kernelStack)
        (fpu : after.thread.fpuSavedStateBuffer = before.thread.fpuSavedStateBuffer)
        (off : after.mode = .out → before.mode = .out)
        (more : PutsBack before.thread.fpuSavedStateBuffer entered (rest.map label)) :
        Unbroken saved (outside before.thread.savedSignalStateStack.length (rest.map label)) := by
      rw [← stack]
      exact ih (expects.kept stack regs fpu off) (fpu ▸ more)
    cases step with
    | signal signals =>
      rcases signal_cases signals with ⟨_, rfl⟩ | ⟨_, _, rfl⟩ <;>
        exact unseen rfl rfl rfl id putsBack
    | setHandler kernel here =>
      obtain ⟨handlers, isThread⟩ := setHandler_cases before.thread _ _
      rw [isThread] at unseen
      exact unseen rfl rfl rfl id putsBack
    | enter user | ret kernel here => exact unseen rfl rfl rfl nofun putsBack
    | leave => exact unseen rfl rfl rfl id putsBack
    | switchOut => exact outside_switchOut expects fun _ expects => ih expects putsBack
    | switchIn off sets =>
      refine outside_switchIn expects off sets ?_ putsBack fun _ expects more => ih expects more
      split <;> nofun

/-! The registers that a switch into the thread pops. -/

/-- The handler is entered through the stub, with the signal in the registers for arguments and on
the stack of the thread. -/
structure EntersHandler (stub handler : Word) (msg : SignalMessage Cv)
    (before now : InterruptedState) : Prop where
  rip : now.rip = stub
  rdi : now.rdi = msg.senderId
  rsi : now.rsi = msg.body.sigType
  rdx : now.rdx = msg.body.a
  rcx : now.rcx = msg.body.b
  r8 : now.r8 = msg.body.c
  r9 : now.r9 = handler
  user : now.cs = before.cs ∧ now.ss = before.ss ∧ now.rsp = before.rsp ∧ now.rflags = before.rflags

/-- What is at `kernelStack` after a switch, and in the floating point registers. -/
def Loads (stub : Word) (move : Move (Running Cv) (Event Cv)) : Prop :=
  match move.label with
  | .switchIn (.restored regs _) fpu =>
    move.after.thread.kernelStack = regs ∧ fpu = move.before.thread.fpuSavedStateBuffer
  | .switchIn (.resumed regs) fpu => move.before.thread.kernelStack = regs ∧
    move.after.thread.kernelStack = regs ∧ fpu = move.before.thread.fpuSavedStateBuffer
  | .switchIn (.delivered msg regs) fpu => move.before.thread.kernelStack = regs ∧
    EntersHandler stub (move.before.thread.signalHandlers msg.body.sigType.toNat) msg regs
      move.after.thread.kernelStack ∧ fpu = move.before.thread.fpuSavedStateBuffer
  | .switchOut regs fpu =>
    move.after.thread.kernelStack = regs ∧ move.after.thread.fpuSavedStateBuffer = fpu
  | _ => True

theorem step_loads (step : Step stub run event after) : Loads stub ⟨run, event, after⟩ := by
  cases step with
  | signal | setHandler | enter | ret | leave => trivial
  | switchOut => exact ⟨rfl, rfl⟩
  | switchIn _ sets =>
    rcases setup_cases sets with ⟨_, _, _, _, rfl, rfl⟩ | ⟨_, rfl, rfl⟩ | ⟨_, _, _, _, _, rfl, rfl⟩
    · exact ⟨rfl, rfl⟩
    · exact ⟨rfl, rfl, rfl⟩
    · exact ⟨rfl, ⟨rfl, rfl, rfl, rfl, rfl, rfl, rfl, rfl, rfl, rfl, rfl⟩, rfl⟩

/-- For every order of signals, switches and leaves in which a leave ends the handler that
was entered last, and has put back the floating point registers: the state that is restored is the
one in which the handler was entered, and is what the switch pops; what was queued is delivered in
its order and in user mode, and without the handlers the thread runs as if it were never signalled.
No switch into it fails. -/
theorem signals_nest (id : Word) (regs : InterruptedState) (fpu : FpuState) {last : Running Cv}
    {moves : List (Move (Running Cv) (Event Cv))}
      (run : Run (Step stub) (fresh id regs fpu) moves last)
    (leaves : ∀ move ∈ moves, LeavesLast move.before move.label)
    (putsBack : PutsBack fpu [] (moves.map label)) :
    ∃ nestMoves nest, Run (Nest.Step id) ({} : Nest Cv) nestMoves nest ∧
      nestMoves.map label = moves.map label ∧ Nested id last nest ∧
      signalled id (moves.map label) = deliveries (moves.map label) ++ nest.queue ∧
      (∀ move ∈ moves, Loads stub move) ∧
      Unbroken (regs, fpu) (outside 0 (moves.map label)) ∧
      ∀ panic, setupSignalledStack stub last.thread ≠ .error panic := by
  have start : Nested id (fresh id regs fpu) ({} : Nest Cv) := ⟨rfl, rfl, rfl, rfl⟩
  obtain ⟨nestMoves, nest, nestRun, labels, nested⟩ :=
    run_simulated (Nested id) (fun move => LeavesLast move.before move.label)
      (fun _ _ nested step leaves => step_nested nested step leaves) run leaves start
  have order := deliveries_in_order nestRun
  rw [labels] at order
  have turns := run_invariant InRange step_inRange run nofun
  refine ⟨nestMoves, nest, nestRun, labels, nested, order, fun move made =>
    step_loads (turns.2 move made).2, ?_, ?_⟩
  · have expects : Expects (fresh id regs fpu : Running Cv) (regs, fpu) [] :=
      ⟨rfl, nofun, nofun, fun _ _ => rfl⟩
    exact outside_unbroken run expects putsBack
  · intro _ fails
    have inRange := turns.1 last (run_last_visited run)
    obtain ⟨_, pending, empty⟩ := setup_panics inRange fails
    have isEnding := nested.pending
    have stack := nested.stack
    rw [pending] at isEnding
    rw [empty] at stack
    obtain ⟨_, ends⟩ := isSome_iff_exists.mp isEnding
    rw [ends] at stack
    cases stack

end Outside

/-! Two signals, the second in the handler of the first. -/

def userRegs (rip : Word) : InterruptedState :=
  ⟨1, 2, 3, 4, 5, 6, 7, 8, 9, 10, 11, 12, 13, 14, 15, rip, 0x1B, 0x202, 0x7000, 0x23⟩

def kernelRegs : InterruptedState := { userRegs 0xFFFF with cs := 8 }

def body : SignalBody := ⟨0, 70, 80, 90⟩

/-- The handler of the first signal is entered with the registers `[1]`, and the one of the second
in it with `[2]`; `left` are those that the first one leaves behind. -/
def nesting (left : FpuState) : List (Event Nat) :=
  let first : SignalMessage Nat := ⟨5, 1, 1, body, none⟩
  let second : SignalMessage Nat := ⟨6, 1, 1, body, none⟩
  [.switchIn (.resumed (userRegs 0)) [], .enter, .setHandler 0 0x4000, .ret,
    .signal 5 0 body none true,
    .signal 6 0 body none true, .signal 6 99 body none false, .enter, .switchOut kernelRegs [],
    .switchIn (.resumed kernelRegs) [], .ret, .switchOut (userRegs 0x100) [1],
    .switchIn (.delivered first (userRegs 0x100)) [1], .switchOut (userRegs 0x4010) [2],
    .switchIn (.delivered second (userRegs 0x4010)) [2], .enter, .leave, .switchOut kernelRegs [2],
    .switchIn (.restored (userRegs 0x4010) none) [2], .enter, .leave, .switchOut kernelRegs left,
    .switchIn (.restored (userRegs 0x100) none) left, .switchOut (userRegs 0x104) []]

instance (before : Running Cv) : (event : Event Cv) → Decidable (LeavesLast before event)
  | .leave => decidable_of_iff (before.thread.savedSignalStateStack.length ≠ 0)
      (by simp [LeavesLast])
  | .signal _ _ _ _ _ | .setHandler _ _ | .enter | .ret | .switchOut _ _ | .switchIn _ _ =>
    .isTrue fun leaves => by cases leaves

theorem signals_nest_nesting : let ran := trace (next? 0x9000) (fresh 1 (userRegs 0)) (nesting [1])
    ran.1.length = 24 ∧ ∃ nestMoves nest, Run (Nest.Step 1) ({} : Nest Nat) nestMoves nest ∧
      nestMoves.map label = ran.1.map label ∧ Nested 1 ran.2 nest ∧
      signalled 1 (ran.1.map label) = deliveries (ran.1.map label) ++ nest.queue ∧
      (∀ move ∈ ran.1, Loads 0x9000 move) ∧
      Unbroken (userRegs 0, []) (outside 0 (ran.1.map label)) ∧
      ∀ panic, setupSignalledStack 0x9000 ran.2.thread ≠ .error panic := by
  intro ran
  have leaves : ∀ move ∈ ran.1, LeavesLast move.before move.label := by decide +kernel
  have labels : ran.1.map label = nesting [1] := by decide +kernel
  have putsBack : PutsBack [] [] (ran.1.map label) := by
    rw [labels]
    simp [PutsBack, nesting]
  exact ⟨by decide +kernel,
    signals_nest 1 (userRegs 0) [] (trace_run _ (step_of_next? 0x9000) _ _) leaves putsBack⟩

/-- A handler that leaves other floating point registers behind: the thread goes on with those. -/
theorem fpu_not_restored : let ran := trace (next? 0x9000) (fresh 1 (userRegs 0)) (nesting [3])
    ran.1.length = 24 ∧ (∀ move ∈ ran.1, LeavesLast move.before move.label) ∧
      ¬ Unbroken (userRegs 0, []) (outside 0 (ran.1.map label)) := by
  intro ran
  have labels : ran.1.map label = nesting [3] := by decide +kernel
  refine ⟨by decide +kernel, by decide +kernel, ?_⟩
  rw [labels]
  simp [nesting, outside, Unbroken]

end Nx.SignalNesting
