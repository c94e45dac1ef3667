import Nx.RpcKernel

/-!
The assertions on the paths of the rpc system calls. They hold as long as the
processes keep to a protocol that the kernel does not enforce.
-/

namespace Nx.RpcAssertions

open Words Transitions RpcConnection RpcKernel Function Option
open Connection hiding advance
open Kernel hiding task

variable {Thread Body : Type} [DecidableEq Thread]

/-- A thread passes the test of `rpc_wait_call` only while there is a call to
take and nobody else is about to take one. -/
def WaitsAlone (conn : Connection Thread Body) (thr : Thread) : Prop :=
  conn.pc thr = .waitTest → conn.calls ≠ [] ∧ ∀ other, conn.pc other ≠ .waitPop

/-- On a connection one call that expects a result is under way at a time, and
calls are taken one at a time. The numbers of the connections do not run out. -/
def GoesOn (kernel : Kernel Thread Body) (thr : Thread) : Task → Prop
  | .inside connId =>
    (kernel.connections connId).Alone thr ∧ WaitsAlone (kernel.connections connId) thr
  | .creating _ => kernel.nextConnId + 1 ≠ 0
  | _ => True

/-- A result is returned for a call that was handed out and has no result yet, and a connection is
closed when no thread is inside it. -/
def Answers (kernel : Kernel Thread Body) : Syscall Body → Prop
  | .rpcReturn connId _ readable answers =>
    kernel.connectionList connId = true → readable = true →
      answers ∈ (kernel.connections connId).owed
  | .rpcClose connId => ∀ thr, kernel.task thr ≠ .inside connId
  | _ => True

/-- A process exits when it is not the callee of a connection, and nobody is connecting to it. -/
structure Leaves (kernel : Kernel Thread Body) (process : Word) : Prop where
  creating : ∀ thr, kernel.task thr ≠ .creating process
  callee : ∀ connId, (kernel.connections connId).calleePid = process →
    kernel.connectionList connId = false

def Disciplined (move : Move (Kernel Thread Body) (RpcKernel.Op Thread Body)) : Prop :=
  match move.label with
  | .call _ function => Answers move.before function
  | .advance thr _ => GoesOn move.before thr (move.before.task thr)
  | .exit process => Leaves move.before process

section Decisions

variable [Fintype Thread] [DecidableEq Body] (kernel : Kernel Thread Body) (thr : Thread)

instance (conn : Connection Thread Body) : Decidable (WaitsAlone conn thr) := by
  unfold WaitsAlone
  infer_instance

instance (task : Task) : Decidable (GoesOn kernel thr task) := by
  unfold GoesOn
  split <;> infer_instance

instance (function : Syscall Body) : Decidable (Answers kernel function) := by
  unfold Answers
  split <;> infer_instance

instance (process : Word) : Decidable (Leaves kernel process) :=
  decidable_of_iff ((∀ thr, kernel.task thr ≠ .creating process) ∧
      ∀ connId, (kernel.connections connId).calleePid = process →
        kernel.connectionList connId = false)
    ⟨fun ⟨creating, callee⟩ => ⟨creating, callee⟩, fun ⟨creating, callee⟩ => ⟨creating, callee⟩⟩

instance (move : Move (Kernel Thread Body) (RpcKernel.Op Thread Body)) :
    Decidable (Disciplined move) := by
  unfold Disciplined
  split <;> infer_instance

end Decisions

/-! One connection. -/

structure Steady (conn : Connection Thread Body) : Prop where
  orderly : Orderly conn
  matched : conn.Matched
  running : conn.asserted = false
  attended : ∀ thr, conn.pc thr = .waitPop → conn.calls ≠ []
  single : ∀ thr other, conn.pc thr = .waitPop → conn.pc other = .waitPop → other = thr

omit [DecidableEq Thread] in
theorem create_steady (callerPid calleePid : Word) :
    Steady (create callerPid calleePid : Connection Thread Body) where
  orderly := create_orderly callerPid calleePid
  matched := by simp [Matched]
  running := rfl
  attended := by simp
  single := by simp

section Connection

variable {before after data : Connection Thread Body} {thr : Thread}

section

variable (steady : Steady before)
include steady

theorem Steady.goto (same : data.pc = before.pc) (running : data.asserted = before.asserted)
    (calls : before.calls ≠ [] → data.calls ≠ []) (elsewhere : new ≠ .waitPop)
      (orderly : Orderly (data.goto thr new))
    (matched : (data.goto thr new).Matched) : Steady (data.goto thr new) := by
  have earlier (other : Thread) (here : (data.goto thr new).pc other = .waitPop) :
      before.pc other = .waitPop := by
    by_cases moved : other = thr
    · simp only [Connection.goto, moved, update_self] at here
      exact absurd here elsewhere
    · simpa [Connection.goto, update_of_ne moved, same] using here
  refine ⟨orderly, matched, running.trans steady.running, ?_, ?_⟩
  · intro other here
    exact calls (steady.attended other (earlier other here))
  · intro one other here there
    exact steady.single one other (earlier one here) (earlier other there)

theorem waitTest_steady (here : before.pc thr = .waitTest)
    (alone : WaitsAlone before thr) (orderly : Orderly (before.goto thr .waitPop))
    (matched : (before.goto thr .waitPop).Matched) : Steady (before.goto thr .waitPop) := by
  have ⟨calls, nobody⟩ := alone here
  have mover (other : Thread) (now : (before.goto thr .waitPop).pc other = .waitPop) :
      other = thr := by
    by_contra different
    simp only [goto, update_of_ne different] at now
    exact nobody other now
  refine ⟨orderly, matched, steady.running, fun _ _ => calls, ?_⟩
  intro one other first second
  rw [mover one first, mover other second]

theorem popCall_steady (here : before.pc thr = .waitPop) (orderly : Orderly (before.popCall thr))
    (matched : (before.popCall thr).Matched) : Steady (before.popCall thr) := by
  cases queue : before.calls with
  | nil => exact absurd queue (steady.attended thr here)
  | cons =>
    have nobody (other : Thread) : (before.popCall thr).pc other ≠ .waitPop := by
      intro waits
      rw [popCall, queue] at waits
      by_cases moved : other = thr
      · simp [goto, moved] at waits
      · simp only [goto, update_of_ne moved] at waits
        exact moved (steady.single thr other here waits)
    refine ⟨orderly, matched, ?_, fun other waits => absurd waits (nobody other),
      fun one _ waits => absurd waits (nobody one)⟩
    rw [popCall, queue]
    exact steady.running

theorem advance_steady (advanced : before.advance thr true = some after)
    (alone : before.Alone thr) (waits : WaitsAlone before thr) : Steady after := by
  have takes : before.TakesAlone thr := by
    intro here other different there
    exact different (steady.single thr other here there)
  have ⟨orderly, matched⟩ := advance_orderly steady.orderly steady.matched advanced alone takes
      fun _ => steady.attended
  unfold Connection.advance at advanced
  generalize here : before.pc thr = place at advanced
  cases place with
  | idle => cases advanced
  | callTest call | callWait call =>
    obtain ⟨_, ⟨⟩⟩ := ite_none_left_eq_some.mp advanced
    exact steady.goto rfl rfl id (by simp) orderly matched
  | callAppend call =>
    cases advanced
    refine steady.goto rfl rfl (by simp) ?_ orderly matched
    split <;> simp
  | callSet call | returnAppend result | returnSet =>
    cases advanced
    exact steady.goto rfl rfl id (by simp) orderly matched
  | callCallee call =>
    simp only [if_true, Option.some.injEq] at advanced
    subst advanced
    refine steady.goto rfl rfl id ?_ orderly matched
    split <;> simp
  | callPop =>
    cases advanced
    obtain ⟨⟨result, only⟩, _⟩ := steady.orderly.before_pop here
    simp only [popResult, only] at orderly matched ⊢
    exact steady.goto rfl rfl id (by simp) orderly matched
  | waitTest =>
    obtain ⟨_, ⟨⟩⟩ := ite_none_right_eq_some.mp advanced
    exact waitTest_steady steady here waits orderly matched
  | waitPop =>
    cases advanced
    exact popCall_steady steady here orderly matched
  | returnCheck =>
    have returns : (before.pc thr).returning = 1 := by simp [here]
    have set := steady.orderly.set_of_returning returns
    simp only [set, if_true, Option.some.injEq] at advanced
    subst advanced
    exact steady.goto rfl rfl id (by simp) orderly matched

theorem next_steady (next : before.next op = some after)
    (answers : ∀ mover process msg number, op = .sendResult mover process msg number →
      number ∈ before.owed)
    (goes : ∀ mover found, op = .advance mover found → found = true ∧ before.Alone mover ∧
      WaitsAlone before mover) :
    Steady after := by
  have ⟨_, moved⟩ := ite_none_left_eq_some.mp next
  cases op with
  | sendCall mover process msg isVoid =>
    obtain ⟨idle, ⟨⟩⟩ := ite_none_right_eq_some.mp moved
    have orderly := sendCall_orderly steady.orderly (isIdle_iff.mp idle) process msg isVoid
    unfold sendCall at orderly ⊢
    split
    · next party =>
      rw [if_pos party] at orderly
      exact steady.goto rfl rfl id (by simp) orderly steady.matched
    · exact steady
  | sendResult mover process msg number =>
    obtain ⟨idle, ⟨⟩⟩ := ite_none_right_eq_some.mp moved
    exact steady.goto rfl rfl id (by simp) (sendResult_orderly steady.orderly
      (isIdle_iff.mp idle) process msg
        (answers mover process msg number rfl)) steady.matched
  | waitCall mover =>
    obtain ⟨idle, ⟨⟩⟩ := ite_none_right_eq_some.mp moved
    exact steady.goto rfl rfl id (by simp) (waitCall_orderly steady.orderly (isIdle_iff.mp idle))
      steady.matched
  | advance mover found =>
    obtain ⟨rfl, alone, waits⟩ := goes mover found rfl
    exact advance_steady steady moved alone waits

end

end Connection

/-! All connections. -/

structure Sound (kernel : Kernel Thread Body) : Prop where
  running : kernel.failed = false ∧ kernel.usedFreed = false
  steady : ∀ connId, Steady (kernel.connections connId)
  listed : ∀ connId, kernel.connectionList connId = true →
    kernel.processExists (kernel.connections connId).calleePid = true
  inside : ∀ thr connId, kernel.task thr = .inside connId → kernel.connectionList connId = true
  creating : ∀ thr target, kernel.task thr = .creating target → kernel.processExists target = true

omit [DecidableEq Thread] in
theorem init_sound (processExists : Word → Bool) :
    Sound (init processExists : Kernel Thread Body) where
  running := ⟨rfl, rfl⟩
  steady _ := create_steady 0 0
  listed := by simp [init]
  inside := by simp [init]
  creating := by simp [init]

section Kernel

variable {before after : Kernel Thread Body} {thr : Thread} {connId process : Word}
  {op : RpcConnection.Op Thread Body}

section

variable (sound : Sound before)
include sound

theorem onConnection_sound (step : OnConnection thr connId op before after)
    (listed : before.connectionList connId = true)
    (answers : ∀ mover process msg number, op = .sendResult mover process msg number →
    number ∈ (before.connections connId).owed) (goes : ∀ mover found, op = .advance mover found →
      found = true ∧
    (before.connections connId).Alone mover ∧ WaitsAlone (before.connections connId) mover) :
      Sound after := by
  have now := next_steady (sound.steady connId) step.next answers goes
  have callee (id : Word) : (after.connections id).calleePid =
      (before.connections id).calleePid := by
    by_cases same : id = connId
    · subst same
      exact (next_pids step.next).2
    · rw [step.others id same]
  constructor
  · rw [step.failed, step.usedFreed]
    exact ⟨now.running, sound.running.2⟩
  · intro id
    by_cases same : id = connId
    · exact same ▸ now
    · rw [step.others id same]
      exact sound.steady id
  · intro id listed
    rw [step.connectionList] at listed
    rw [step.processExists, callee]
    exact sound.listed id listed
  · intro other id here
    rw [step.connectionList]
    by_cases same : other = thr
    · subst same
      rcases step.task with idle | inside
      · rw [idle] at here
        cases here
      · rw [inside] at here
        cases here
        exact listed
    · rw [step.tasks other same] at here
      exact sound.inside other id here
  · intro other target here
    rw [step.processExists]
    by_cases same : other = thr
    · subst same
      rcases step.task with idle | inside
      · rw [idle] at here
        cases here
      · rw [inside] at here
        cases here
    · rw [step.tasks other same] at here
      exact sound.creating other target here

theorem enter_sound (entered : before.enter thr connId readable op = some after)
    (answers : ∀ mover process msg number, op = .sendResult mover process msg number →
    before.connectionList connId = true → readable = true →
      number ∈ (before.connections connId).owed)
    (stays : ∀ mover found, op ≠ .advance mover found) : Sound after := by
  rcases enter_cases entered with rfl | ⟨listed, read, step, _⟩
  · exact sound
  · refine onConnection_sound sound step listed ?_ ?_
    · intro mover process msg number same
      exact answers mover process msg number same listed read
    · intro mover found same
      exact absurd same (stays mover found)

theorem retask_sound (outside : ∀ connId, task ≠ .inside connId)
    (creating : ∀ target, task = .creating target → before.processExists target = true) :
      Sound { before with
      rpcCalleePending := pending, task := update before.task thr task } where
  running := sound.running
  steady := sound.steady
  listed := sound.listed
  inside := by
    intro other id here
    by_cases same : other = thr
    · simp only [same, update_self] at here
      exact absurd here (outside id)
    · simp only [update_of_ne same] at here
      exact sound.inside other id here
  creating := by
    intro other target here
    by_cases same : other = thr
    · simp only [same, update_self] at here
      exact creating target here
    · simp only [update_of_ne same] at here
      exact sound.creating other target here

theorem create_sound (here : before.task thr = .creating callee)
    (room : before.nextConnId + 1 ≠ 0) :
    Sound (before.createConnection thr caller callee) := by
  have exists_ := sound.creating thr callee here
  unfold createConnection
  rw [if_pos exists_]
  dsimp only
  constructor
  · exact ⟨by simpa using room, sound.running.2⟩
  · intro id
    by_cases same : id = before.nextConnId + 1
    · simp only [same, update_self]
      exact create_steady caller callee
    · simp only [update_of_ne same]
      exact sound.steady id
  · intro id listed
    by_cases same : id = before.nextConnId + 1
    · simp only [same, update_self]
      exact exists_
    · simp only [update_of_ne same] at listed ⊢
      exact sound.listed id listed
  · intro other id inside
    by_cases same : id = before.nextConnId + 1
    · simp only [same, update_self]
    · by_cases mover : other = thr
      · simp [mover] at inside
      · simp only [update_of_ne same, update_of_ne mover] at inside ⊢
        exact sound.inside other id inside
  · intro other target creating
    by_cases mover : other = thr
    · simp [mover] at creating
    · simp only [update_of_ne mover] at creating
      exact sound.creating other target creating

omit [DecidableEq Thread] in
theorem exit_sound (leaves : Leaves before process) : Sound { before with
      processExists := update before.processExists process false } where
  running := sound.running
  steady := sound.steady
  listed := by
    intro id listed
    by_cases same : (before.connections id).calleePid = process
    · rw [leaves.callee id same] at listed
      cases listed
    · simp only [update_of_ne same]
      exact sound.listed id listed
  inside := sound.inside
  creating := by
    intro thr target creating
    by_cases same : target = process
    · exact absurd (same ▸ creating) (leaves.creating thr)
    · simp only [update_of_ne same]
      exact sound.creating thr target creating

omit [DecidableEq Thread] in
theorem close_sound (unused : ∀ thr, before.task thr ≠ .inside connId) :
    Sound (before.closeConnection connId) where
  running := sound.running
  steady := sound.steady
  listed := by
    intro id listed
    by_cases same : id = connId
    · simp [closeConnection, same] at listed
    · simp only [closeConnection, update_of_ne same] at listed
      exact sound.listed id listed
  inside := by
    intro thr id inside
    have different : id ≠ connId := by
      rintro rfl
      exact unused thr inside
    simp only [closeConnection, update_of_ne different]
    exact sound.inside thr id inside
  creating := sound.creating

theorem advance_sound (advanced : before.advance thr process waiting = some after)
    (goes : GoesOn before thr (before.task thr)) : Sound after := by
  unfold advance at advanced
  generalize here : before.task thr = place at advanced goes
  cases place with
  | idle => cases advanced
  | inside connId =>
    have listed := sound.inside thr connId here
    apply onConnection_sound sound (goOn_onConnection listed advanced).1 listed (by simp)
    intro _ _ same
    cases same
    exact ⟨sound.listed connId listed, goes⟩
  | creating =>
    cases advanced
    exact create_sound sound here goes
  | waitingAny =>
    simp only [popPending] at advanced
    split at advanced
    · cases advanced
    · exact enter_sound (retask_sound sound (by simp) (by simp)) advanced (by simp) (by simp)

end

theorem step_sound {processOf : Thread → Word} {op : RpcKernel.Op Thread Body}
    (sound : Sound before)
    (step : Step processOf before op after) (disciplined : Disciplined ⟨before, op, after⟩) :
      Sound after := by
  have ⟨_, moved⟩ := ite_none_left_eq_some.mp step
  cases op with
  | call thr function =>
    have ⟨_, called⟩ := ite_none_right_eq_some.mp moved
    cases function with
    | rpcOpen =>
      cases called
      split
      · next exists_ =>
        apply retask_sound sound (by simp)
        rintro _ ⟨⟩
        exact exists_
      · exact sound
    | rpcClose connId =>
      cases called
      exact close_sound sound disciplined
    | rpcCall connId _ _ readable =>
      exact enter_sound sound called (by simp) (by simp)
    | rpcReturn connId =>
      refine enter_sound sound called ?_ (by simp)
      rintro _ process _ _ ⟨⟩
      exact disciplined
    | rpcWaitCall => exact enter_sound sound called (by simp) (by simp)
    | rpcWaitAnyCall =>
      cases called
      exact retask_sound sound (by simp) (by simp)
  | advance => exact advance_sound sound moved disciplined
  | exit =>
    cases moved
    exact exit_sound sound disciplined

end Kernel

/-- No assertion fails in a run that keeps to the protocol, and no thread goes on with a connection
that was freed. -/
theorem assertions_hold (processOf : Thread → Word) (processExists : Word → Bool)
    {last : Kernel Thread Body}
      {moves : List (Move (Kernel Thread Body) (RpcKernel.Op Thread Body))}
    (run : Run (Step processOf) (init processExists) moves last) (disciplined : ∀ move ∈ moves,
      Disciplined move) :
    ∀ kernel ∈ visited (init processExists) moves, kernel.failed = false ∧ kernel.usedFreed =
      false := by
  have sound := run_guarded Sound Disciplined (fun _ sound step disciplined =>
      step_sound sound step disciplined) run
    (init_sound processExists) disciplined
  intro kernel reached
  exact (sound kernel reached).running

def owner : Fin 2 → Word
  | 0 => 1
  | 1 => 2

def bothExist : Word → Bool
  | 1 => true
  | 2 => true
  | _ => false

local instance neZero_two : NeZero 2 := ⟨by decide⟩

def roundTrip : List (RpcKernel.Op (Fin 2) Nat) :=
  [.call 0 (.rpcOpen 2), .advance 0 false, .call 0 (.rpcCall 1 ⟨0, 0, 0, 10⟩ false true),
    .advance 0 false, .advance 0 false, .advance 0 false, .advance 0 false,
    .call 1 (.rpcWaitCall 1), .advance 1 false, .advance 1 false,
    .call 1 (.rpcReturn 1 ⟨0, 0, 0, 11⟩ true 0), .advance 1 false, .advance 1 false,
    .advance 1 false, .advance 0 false, .advance 0 false, .call 0 (.rpcClose 1)]

theorem assertions_hold_round_trip :
    ∃ moves last, Run (Step owner) (init bothExist : Kernel (Fin 2) Nat) moves last ∧
    moves.length = 17 ∧ (last.connections 1).received.length = 1 ∧
    ∀ kernel ∈ visited (init bothExist) moves, kernel.failed = false ∧ kernel.usedFreed =
      false := by
  have run : Run (Step owner) (init bothExist) _ _ :=
    trace_run (next owner) (fun _ _ _ => id) _ roundTrip
  exact ⟨_, _, run, by decide +kernel, by decide +kernel, assertions_hold owner bothExist run (by decide +kernel)⟩

/-- A result on a connection without a call; a second wait for the one call that
was sent; a callee that has exited. -/
def undisciplined : List (List (RpcKernel.Op (Fin 2) Nat)) :=
  [[.call 0 (.rpcOpen 2), .advance 0 false, .call 1 (.rpcReturn 1 ⟨0, 0, 0, 11⟩ true 0),
    .advance 1 false],
    [.call 0 (.rpcOpen 2), .advance 0 false, .call 0 (.rpcCall 1 ⟨0, 0, 0, 10⟩ false true),
      .advance 0 false, .advance 0 false, .advance 0 false, .advance 0 false,
      .call 1 (.rpcWaitCall 1), .advance 1 false, .advance 1 false, .call 1 (.rpcWaitCall 1),
      .advance 1 false, .advance 1 false],
    [.call 0 (.rpcOpen 2), .advance 0 false, .exit 2,
      .call 0 (.rpcCall 1 ⟨0, 0, 0, 10⟩ true true), .advance 0 false, .advance 0 false,
      .advance 0 false]]

theorem assertions_fail : undisciplined.Forall fun ops => ∃ moves last, Run (Step owner)
    (init bothExist : Kernel (Fin 2) Nat) moves last ∧ moves.length = ops.length ∧
      last.failed = true := by
  have ends : ∀ ops ∈ undisciplined, (trace (next owner) (init bothExist) ops).1.length =
      ops.length ∧
        (trace (next owner) (init bothExist) ops).2.failed = true := by
    decide +kernel
  apply List.forall_iff_forall_mem.mpr
  intro ops member
  have run : Run (Step owner) (init bothExist) _ _ :=
    trace_run (next owner) (fun _ _ _ => id) _ ops
  exact ⟨_, _, run, ends ops member⟩

end Nx.RpcAssertions
