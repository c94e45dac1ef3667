import Nx.RpcKernel

/-!
Third parties on rpc connections. Connection numbers are given out one after the
other, and of all the system calls only `sendCall` looks at who is calling.
-/

namespace Nx.RpcIsolation

open Words Transitions RpcConnection RpcKernel Function Option
open Kernel hiding task

variable {Thread Body : Type} [DecidableEq Thread] {processOf : Thread → Word}

def HandsOut (kernel : Kernel Thread Body) (thr : Thread) (connId : Word) : Prop :=
  kernel.task thr = .inside connId ∧ (kernel.connections connId).pc thr = .waitPop ∧
    (kernel.connections connId).calls ≠ []

def Party (kernel : Kernel Thread Body) (connId process : Word) : Prop :=
  process = (kernel.connections connId).callerPid ∨ process = (kernel.connections connId).calleePid
  deriving Decidable

structure Keeps (connId : Word) (before after : Kernel Thread Body) : Prop where
  listed : after.connectionList connId = true
  callerPid : (after.connections connId).callerPid = (before.connections connId).callerPid
  calleePid : (after.connections connId).calleePid = (before.connections connId).calleePid

/-- Calls are handed to the callee only, and a connection goes only when one of
its two processes closes it. No thread goes on with a connection that was freed, which would hand it
the calls of the one that has come in its place. -/
structure Isolated (processOf : Thread → Word)
    (move : Move (Kernel Thread Body) (RpcKernel.Op Thread Body)) : Prop where
  handed : ∀ thr waiting connId, move.label = .advance thr waiting →
    HandsOut move.before thr connId → processOf thr = (move.before.connections connId).calleePid
  kept : ∀ connId, move.before.connectionList connId = true → Keeps connId move.before move.after ∨
      ∃ thr, move.label = .call thr (.rpcClose connId) ∧ Party move.before connId (processOf thr)
  alive : move.after.usedFreed = false

/-- `rpc_wait_call` is made by the callee and `rpc_close` by one of the parties, while no thread is
inside the connection, and the counter of the connections does not wrap around. -/
def Entitled (processOf : Thread → Word) (move :
    Move (Kernel Thread Body) (RpcKernel.Op Thread Body)) : Prop :=
  match move.label with
  | .call thr (.rpcWaitCall connId) => move.before.connectionList connId = true →
      processOf thr = (move.before.connections connId).calleePid
  | .call thr (.rpcClose connId) => move.before.connectionList connId = true →
      Party move.before connId (processOf thr) ∧ ∀ other, move.before.task other ≠ .inside connId
  | .advance thr _ => (move.before.task thr).creates = true → move.before.nextConnId + 1 ≠ 0
  | _ => True

instance [Fintype Thread] (processOf : Thread → Word)
    (move : Move (Kernel Thread Body) (RpcKernel.Op Thread Body)) :
    Decidable (Entitled processOf move) :=
  match move with
  | ⟨_, .call _ (.rpcWaitCall _), _⟩ => inferInstanceAs (Decidable (_ → _))
  | ⟨_, .call _ (.rpcClose _), _⟩ => inferInstanceAs (Decidable (_ → Party _ _ _ ∧ _))
  | ⟨_, .advance _ _, _⟩ => inferInstanceAs (Decidable (_ → _))
  | ⟨_, .call _ (.rpcOpen _), _⟩ | ⟨_, .call _ (.rpcCall _ _ _ _), _⟩ | ⟨_,
      .call _ (.rpcReturn _ _ _ _), _⟩
  | ⟨_, .call _ .rpcWaitAnyCall, _⟩ | ⟨_, .exit _, _⟩ => .isTrue trivial

/-- Numbers in use have been given out, and whoever waits for a call, or will do
so for an announced one, is the callee. -/
structure Traced (processOf : Thread → Word) (kernel : Kernel Thread Body) : Prop where
  listed : ∀ connId, kernel.connectionList connId = true → connId ≤ kernel.nextConnId
  inside : ∀ thr connId, kernel.task thr = .inside connId → kernel.connectionList connId = true
  pending : ∀ process, ∀ connId ∈ kernel.rpcCalleePending process,
    connId ≤ kernel.nextConnId ∧ (kernel.connections connId).calleePid = process
  waits : ∀ thr connId, ((kernel.connections connId).pc thr).role = .wait →
    (kernel.connections connId).calleePid = processOf thr
  alive : kernel.usedFreed = false

omit [DecidableEq Thread] in
theorem init_traced (processExists : Word → Bool) :
    Traced processOf (init processExists : Kernel Thread Body) where
  listed := by simp [init]
  inside := by simp [init]
  pending := by simp [init]
  waits := by simp [init]
  alive := rfl

section Steps

variable {before after : Kernel Thread Body} {connId id callee : Word}

theorem onConnection_pids (step : OnConnection thr connId op before after) (id : Word) :
    (after.connections id).callerPid = (before.connections id).callerPid ∧
    (after.connections id).calleePid = (before.connections id).calleePid := by
  by_cases same : id = connId
  · subst same
    exact next_pids step.next
  · rw [step.others id same]
    exact ⟨rfl, rfl⟩

theorem onConnection_traced (traced : Traced processOf before)
    (step : OnConnection thr connId op before after) (listed : before.connectionList connId = true)
    (pending : ∀ process, ∀ id ∈ after.rpcCalleePending process,
      id ∈ before.rpcCalleePending process ∨
        (id = connId ∧ process = (before.connections connId).calleePid))
    (waits : op = .waitCall thr → (before.connections connId).calleePid = processOf thr)
    (mover : ∀ other, op = .waitCall other → other = thr) : Traced processOf after where
  listed := by
    rw [step.connectionList, step.nextConnId]
    exact traced.listed
  inside := by
    intro other id here
    rw [step.connectionList]
    by_cases same : other = thr
    · subst same
      rcases step.task with idle | inside
      · rw [idle] at here
        cases here
      · rw [inside] at here
        cases here
        exact listed
    · rw [step.tasks other same] at here
      exact traced.inside other id here
  pending := by
    intro process id member
    rw [step.nextConnId, (onConnection_pids step id).2]
    rcases pending process id member with old | ⟨rfl, rfl⟩
    · exact traced.pending process id old
    · exact ⟨traced.listed id listed, rfl⟩
  waits := by
    intro other id role
    rw [(onConnection_pids step id).2]
    by_cases same : id = connId
    · subst same
      rcases next_waits step.next role with earlier | now
      · exact traced.waits other id earlier
      · obtain rfl := mover other now
        exact waits now
    · rw [step.others id same] at role
      exact traced.waits other id role
  alive := step.usedFreed.trans traced.alive

theorem given_ne_next {given next : Word} (known : given ≤ next) (room : next + 1 ≠ 0) :
    given ≠ next + 1 := by
  bv_omega

section

variable (traced : Traced processOf before)
include traced

theorem create_traced (room : before.nextConnId + 1 ≠ 0) :
    Traced processOf (before.createConnection thr (processOf thr) callee) := by
  have grows {connId : Word} (known : connId ≤ before.nextConnId) :
      connId ≤ before.nextConnId + 1 := by
    bv_omega
  unfold createConnection
  split
  · dsimp only
    constructor
    · intro connId listed
      by_cases same : connId = before.nextConnId + 1
      · exact same ▸ BitVec.le_refl _
      · simp only [update_of_ne same] at listed
        exact grows (traced.listed connId listed)
    · intro other connId here
      by_cases same : other = thr
      · simp [same] at here
      · simp only [update_of_ne same] at here
        have listed := traced.inside other connId here
        simp only [update_of_ne (given_ne_next (traced.listed connId listed) room)]
        exact listed
    · intro process connId member
      have ⟨known, callee_⟩ := traced.pending process connId member
      refine ⟨grows known, ?_⟩
      simp only [update_of_ne (given_ne_next known room)]
      exact callee_
    · intro other connId role
      by_cases same : connId = before.nextConnId + 1
      · simp [same] at role
      · simp only [update_of_ne same] at role ⊢
        exact traced.waits other connId role
    · exact traced.alive
  · exact ⟨traced.listed, traced.inside, traced.pending, traced.waits, traced.alive⟩

theorem enter_traced (entered : before.enter thr connId readable op = some after)
    (waits : before.connectionList connId = true → op = .waitCall thr →
    (before.connections connId).calleePid = processOf thr) (mover : ∀ other, op = .waitCall other →
      other = thr) :
    Traced processOf after := by
  rcases enter_cases entered with rfl | ⟨listed, _, step, pending⟩
  · exact traced
  · refine onConnection_traced traced step listed ?_ (waits listed) mover
    intro _ _ member
    exact .inl (pending ▸ member)

theorem goOn_traced (inside : before.task thr = .inside connId)
    (wentOn : before.goOn thr connId waiting = some after) : Traced processOf after := by
  have listed := traced.inside thr connId inside
  obtain ⟨step, pending⟩ := goOn_onConnection listed wentOn
  refine onConnection_traced traced step listed ?_ (by simp) (by simp)
  intro process _ member
  rcases pending with same | announced
  · exact .inl (same ▸ member)
  · rw [announced] at member
    by_cases callee : process = (before.connections connId).calleePid
    · subst callee
      rw [update_self] at member
      rcases List.mem_append.mp member with old | last
      · exact .inl old
      · exact .inr ⟨List.mem_singleton.mp last, rfl⟩
    · rw [update_of_ne callee] at member
      exact .inl member

theorem popped_traced (pending : before.rpcCalleePending (processOf thr) = connId :: rest) :
    Traced processOf
      { before with
        rpcCalleePending := update before.rpcCalleePending (processOf thr) rest
        task := update before.task thr .idle } where
  listed := traced.listed
  inside := by
    intro other id here
    by_cases same : other = thr
    · simp [same] at here
    · simp only [update_of_ne same] at here
      exact traced.inside other id here
  pending := by
    intro process id member
    apply traced.pending process id
    by_cases same : process = processOf thr
    · subst same
      simp only [update_self] at member
      rw [pending]
      exact List.mem_cons_of_mem _ member
    · simpa only [update_of_ne same] using member
  waits := traced.waits
  alive := traced.alive

theorem popPending_traced (popped : before.popPending thr (processOf thr) = some after) :
    Traced processOf after := by
  unfold popPending at popped
  cases pending : before.rpcCalleePending (processOf thr) with
  | nil => simp [pending] at popped
  | cons connId =>
    simp only [pending] at popped
    refine enter_traced (popped_traced traced pending) popped ?_ ?_
    · intro _ _
      exact (traced.pending (processOf thr) connId (by simp [pending])).2
    · intro _ same
      exact (RpcConnection.Op.waitCall.inj same).symm

theorem retask_traced (outside : ∀ connId, task ≠ .inside connId) :
    Traced processOf { before with task := update before.task thr task } where
  listed := traced.listed
  inside := by
    intro other connId here
    by_cases same : other = thr
    · simp only [same, update_self] at here
      exact absurd here (outside connId)
    · simp only [update_of_ne same] at here
      exact traced.inside other connId here
  pending := traced.pending
  waits := traced.waits
  alive := traced.alive

end

omit [DecidableEq Thread] in
theorem close_traced (traced : Traced processOf before)
    (unused : before.connectionList connId = true → ∀ thr, before.task thr ≠ .inside connId) :
      Traced processOf (before.closeConnection connId) where
  listed := by
    intro id listed
    by_cases same : id = connId
    · simp [closeConnection, same] at listed
    · simp only [closeConnection, update_of_ne same] at listed
      exact traced.listed id listed
  inside := by
    intro thr id here
    have listed := traced.inside thr id here
    have different : id ≠ connId := by
      rintro rfl
      exact unused listed thr here
    simp only [closeConnection, update_of_ne different]
    exact listed
  pending := traced.pending
  waits := traced.waits
  alive := traced.alive

theorem step_traced {op : RpcKernel.Op Thread Body} (traced : Traced processOf before)
    (step : Step processOf before op after) (entitled : Entitled processOf ⟨before, op, after⟩) :
    Traced processOf after := by
  have ⟨_, moved⟩ := ite_none_left_eq_some.mp step
  cases op with
  | call thr function =>
    have ⟨_, called⟩ := ite_none_right_eq_some.mp moved
    cases function with
    | rpcOpen target =>
      cases called
      split
      · exact retask_traced traced (by simp)
      · exact traced
    | rpcClose connId =>
      cases called
      exact close_traced traced fun listed => (entitled listed).2
    | rpcCall connId params isVoid readable | rpcReturn connId result readable answers =>
      exact enter_traced traced called (by simp) (by simp)
    | rpcWaitCall connId =>
      refine enter_traced traced called ?_ ?_
      · intro listed _
        exact (entitled listed).symm
      · intro _ same
        exact (RpcConnection.Op.waitCall.inj same).symm
    | rpcWaitAnyCall =>
      cases called
      exact retask_traced traced (by simp)
  | advance thr =>
    unfold advance at moved
    cases here : before.task thr with
    | idle => simp [here] at moved
    | inside =>
      simp only [here] at moved
      exact goOn_traced traced here moved
    | creating =>
      simp only [here, Option.some.injEq] at moved
      subst moved
      exact create_traced traced (entitled (by simp [here, Task.creates]))
    | waitingAny =>
      simp only [here] at moved
      exact popPending_traced traced moved
  | exit =>
    cases moved
    exact ⟨traced.listed, traced.inside, traced.pending, traced.waits, traced.alive⟩

theorem onConnection_keeps (step : OnConnection thr connId op before after)
    (listed : before.connectionList id = true) : Keeps id before after :=
  have ⟨caller, callee⟩ := onConnection_pids step id
  ⟨step.connectionList ▸ listed, caller, callee⟩

theorem enter_keeps (entered : before.enter thr connId readable op = some after)
    (listed : before.connectionList id = true) : Keeps id before after := by
  rcases enter_cases entered with rfl | ⟨_, _, step, _⟩
  · exact ⟨listed, rfl, rfl⟩
  · exact onConnection_keeps step listed

theorem create_keeps (traced : Traced processOf before) (room : before.nextConnId + 1 ≠ 0)
    (listed : before.connectionList id = true) :
    Keeps id before (before.createConnection thr (processOf thr) callee) := by
  have other := given_ne_next (traced.listed id listed) room
  unfold createConnection
  split
  · constructor <;> simp only [update_of_ne other]
    exact listed
  · exact ⟨listed, rfl, rfl⟩

theorem advance_keeps (traced : Traced processOf before)
    (advanced : before.advance thr (processOf thr) waiting = some after)
      (room : (before.task thr).creates = true →
    before.nextConnId + 1 ≠ 0) (listed : before.connectionList id = true) :
      Keeps id before after := by
  unfold advance at advanced
  generalize here : before.task thr = place at advanced
  cases place with
  | idle => cases advanced
  | inside connId =>
    exact onConnection_keeps (goOn_onConnection (traced.inside thr connId here) advanced).1 listed
  | creating =>
    cases advanced
    exact create_keeps traced (room (by simp [here, Task.creates])) listed
  | waitingAny =>
    simp only [popPending] at advanced
    split at advanced
    · cases advanced
    · have ⟨listed, caller, callee⟩ := enter_keeps advanced listed
      exact ⟨listed, caller, callee⟩

theorem step_isolated {op : RpcKernel.Op Thread Body} (traced : Traced processOf before)
    (step : Step processOf before op after) (entitled : Entitled processOf ⟨before, op, after⟩) :
    Isolated processOf ⟨before, op, after⟩ := by
  refine ⟨?_, ?_, (step_traced traced step entitled).alive⟩
  · intro thr waiting connId _ ⟨_, here, _⟩
    exact (traced.waits thr connId (by rw [here]; rfl)).symm
  · intro connId listed
    have ⟨_, moved⟩ := ite_none_left_eq_some.mp step
    cases op with
    | call thr function =>
      have ⟨_, called⟩ := ite_none_right_eq_some.mp moved
      cases function with
      | rpcOpen =>
        cases called
        left
        dsimp only
        split
        · exact ⟨listed, rfl, rfl⟩
        · exact ⟨listed, rfl, rfl⟩
      | rpcClose other =>
        cases called
        by_cases same : connId = other
        · subst same
          exact .inr ⟨thr, rfl, (entitled listed).1⟩
        · left
          refine ⟨?_, rfl, rfl⟩
          simp only [closeConnection, update_of_ne same]
          exact listed
      | rpcCall other params isVoid readable | rpcReturn other result readable answers
      | rpcWaitCall other =>
        exact .inl (enter_keeps called listed)
      | rpcWaitAnyCall =>
        cases called
        exact .inl ⟨listed, rfl, rfl⟩
    | advance => exact .inl (advance_keeps traced moved entitled listed)
    | exit =>
      cases moved
      exact .inl ⟨listed, rfl, rfl⟩

end Steps

/-- If only callees wait for calls, only parties close connections, not while a thread is inside,
and the numbers do not run out, no third party gets a call or ends a connection. -/
theorem connections_isolated (processOf : Thread → Word) (processExists : Word → Bool)
    {last : Kernel Thread Body}
      {moves : List (Move (Kernel Thread Body) (RpcKernel.Op Thread Body))}
    (run : Run (Step processOf) (init processExists) moves last)
      (entitled : ∀ move ∈ moves, Entitled processOf move) :
    ∀ move ∈ moves, Isolated processOf move := by
  refine run_guarded_moves (Traced processOf) (Entitled processOf) (Isolated processOf) ?_ run
    (init_traced processExists) entitled
  intro _ traced step entitled
  exact ⟨step_traced traced step entitled, step_isolated traced step entitled⟩

def owner : Fin 3 → Word
  | 0 => 1
  | 1 => 2
  | 2 => 3

def everyProcess : Word → Bool := fun _ => true

/-- Process 1 opens a connection to process 2 and calls, process 2 takes the
call, answers it and closes the connection. -/
def served : List (RpcKernel.Op (Fin 3) Nat) :=
  [.call 0 (.rpcOpen 2), .advance 0 false, .call 0 (.rpcCall 1 ⟨0, 0, 0, 10⟩ false true),
    .advance 0 false, .advance 0 false, .advance 0 false, .advance 0 false,
      .call 1 (.rpcWaitCall 1),
    .advance 1 false, .advance 1 false, .call 1 (.rpcReturn 1 ⟨0, 0, 0, 11⟩ true 0),
      .advance 1 false,
    .advance 1 false, .advance 1 false, .advance 0 false, .advance 0 false, .call 1 (.rpcClose 1)]

theorem connections_isolated_served : ∃ moves last, Run (Step owner)
    (init everyProcess : Kernel (Fin 3) Nat) moves last ∧ moves.length = 17 ∧
      (last.connections 1).received.length = 1 ∧
    last.connectionList 1 = false ∧ ∀ move ∈ moves, Isolated owner move := by
  have run : Run (Step owner) (init everyProcess) _ _ :=
    trace_run (next owner) (fun _ _ _ => id) _ served
  exact ⟨_, _, run, by decide +kernel, by decide +kernel, by decide +kernel, connections_isolated owner everyProcess run (by decide +kernel)⟩

def intruded : List (RpcKernel.Op (Fin 3) Nat) :=
  [.call 0 (.rpcOpen 2), .advance 0 false, .call 0 (.rpcCall 1 ⟨0, 0, 0, 10⟩ false true),
    .advance 0 false, .advance 0 false, .advance 0 false, .call 2 (.rpcWaitCall 1),
    .advance 2 false]

variable {kernel : Kernel Thread Body}

omit [DecidableEq Thread] in
theorem not_isolated_of_handsOut (hands : HandsOut kernel thr connId)
    (other : processOf thr ≠ (kernel.connections connId).calleePid) :
    ¬ Isolated processOf ⟨kernel, .advance thr waiting, after⟩ :=
  fun isolated => other (isolated.handed thr waiting connId rfl hands)

omit [DecidableEq Thread] in
theorem not_isolated_of_close (listed : kernel.connectionList connId = true)
    (other : ¬ Party kernel connId (processOf thr)) :
    ¬ Isolated processOf ⟨kernel, .call thr (.rpcClose connId), kernel.closeConnection connId⟩ := by
  intro isolated
  rcases isolated.kept connId listed with kept | ⟨closer, closes, party⟩
  · have still := kept.listed
    simp [closeConnection] at still
  · obtain rfl : thr = closer := by simpa using closes
    exact other party

/-- A third process takes a call, and a third process closes a connection. -/
theorem third_party_intrudes :
    (∃ moves last after, Run (Step owner) (init everyProcess : Kernel (Fin 3) Nat) moves last ∧
    Step owner last (.advance 2 false) after ∧ ¬ Isolated owner ⟨last, .advance 2 false, after⟩) ∧
    ∃ moves last after, Run (Step owner) (init everyProcess : Kernel (Fin 3) Nat) moves last ∧
    Step owner last (.call 2 (.rpcClose 1)) after ∧
      ¬ Isolated owner ⟨last, .call 2 (.rpcClose 1), after⟩ := by
  constructor
  · let trail := trace (next owner) (init everyProcess : Kernel (Fin 3) Nat) intruded
    have run : Run (Step owner) (init everyProcess) trail.1 trail.2 :=
      trace_run (next owner) (fun _ _ _ => id) _ intruded
    have goes : (trail.2.next owner (.advance 2 false)).isSome := by decide +kernel
    have hands : HandsOut trail.2 2 1 := ⟨by decide +kernel, by decide +kernel, by decide +kernel⟩
    exact ⟨trail.1, trail.2, _, run, (some_get goes).symm, not_isolated_of_handsOut hands
      (by decide +kernel)⟩
  · let trail := trace (next owner) (init everyProcess : Kernel (Fin 3) Nat)
      [.call 0 (.rpcOpen 2), .advance 0 false]
    have run : Run (Step owner) (init everyProcess) trail.1 trail.2 :=
      trace_run (next owner) (fun _ _ _ => id) _ _
    have running : trail.2.failed = false ∧ trail.2.usedFreed = false ∧ trail.2.task 2 = .idle :=
      by decide +kernel
    refine ⟨trail.1, trail.2, trail.2.closeConnection 1, run, ?_,
      not_isolated_of_close (by decide +kernel) (by decide +kernel)⟩
    simp [Step, next, call, running]

end Nx.RpcIsolation
