import Nx.RpcConnection

/-!
The rpc system calls, kernel/source/syscall/sc_rpc.cpp, of any number of processes and threads on
all connections.
-/

namespace Nx.RpcKernel

open Words RpcConnection Function

variable {Thread Body : Type} [DecidableEq Thread]

/-- Where a thread is: in no system call, in one on a connection, between the two
look-ups of `rpc_open`, or waiting in `rpc_wait_any_call`. -/
inductive Task where
  | idle
  | inside (connId : Word)
  | creating (target : Word)
  | waitingAny
  deriving DecidableEq

def Task.creates : Task → Bool
  | .creating _ => true
  | _ => false

/-- A connection is a value in the list of them, and a thread inside one has a pointer to it.
`usedFreed` is set when a thread goes on with a connection that was closed, whose memory is free or
that of another one; what the code does from then on is not determined. -/
structure Kernel (Thread Body : Type) where
  connections : Word → Connection Thread Body
  connectionList : Word → Bool
  nextConnId : Word
  processExists : Word → Bool
  rpcCalleePending : Word → List Word
  task : Thread → Task
  failed : Bool
  usedFreed : Bool

def Kernel.init (processExists : Word → Bool) : Kernel Thread Body :=
  ⟨fun _ => .create 0 0, fun _ => false, 0, processExists, fun _ => [], fun _ =>
    .idle, false, false⟩

section Kernels

variable (kernel : Kernel Thread Body)

def Kernel.within (thr : Thread) (connId : Word) (op : RpcConnection.Op Thread Body) :
    Option (Kernel Thread Body) :=
  ((kernel.connections connId).next op).map fun conn =>
    { kernel with
      connections := update kernel.connections connId conn
      task := update kernel.task thr (if (conn.pc thr).isIdle then .idle else .inside connId)
      failed := conn.asserted }

def Kernel.enter (thr : Thread) (connId : Word) (readable : Bool)
    (op : RpcConnection.Op Thread Body) : Option (Kernel Thread Body) :=
  if kernel.connectionList connId && readable then kernel.within thr connId op else some kernel

def Kernel.createConnection (thr : Thread) (caller callee : Word) : Kernel Thread Body :=
  if kernel.processExists callee then
    let id := kernel.nextConnId + 1
    { kernel with
      connections := update kernel.connections id (.create caller callee)
      connectionList := update kernel.connectionList id true
      nextConnId := id
      task := update kernel.task thr .idle
      failed := id = 0 }
  else { kernel with failed := true }

/-- The connection is erased from the list and freed; the threads inside it are not asked. -/
def Kernel.closeConnection (connId : Word) : Kernel Thread Body :=
  { kernel with connectionList := update kernel.connectionList connId false }

def Kernel.announce (callee connId : Word) (waiting : Bool) : Kernel Thread Body :=
  if waiting then
    { kernel with
      rpcCalleePending := update kernel.rpcCalleePending callee
        (kernel.rpcCalleePending callee ++ [connId]) }
  else kernel

def Kernel.popPending (thr : Thread) (process : Word) : Option (Kernel Thread Body) :=
  match kernel.rpcCalleePending process with
  | [] => none
  | connId :: rest =>
    { kernel with
      rpcCalleePending := update kernel.rpcCalleePending process rest
      task := update kernel.task thr .idle }.enter thr connId true (.waitCall thr)

def Pc.announces : Pc Body → Bool
  | .callCallee _ => true
  | _ => false

def Kernel.goOn (thr : Thread) (connId : Word) (waiting : Bool) : Option (Kernel Thread Body) :=
  if kernel.connectionList connId then
    let conn := kernel.connections connId
    let found := kernel.processExists conn.calleePid
    (kernel.within thr connId (.advance thr found)).map fun after =>
      if Pc.announces (conn.pc thr) && found then after.announce conn.calleePid connId waiting
      else after
  else some { kernel with usedFreed := true }

inductive Syscall (Body : Type) where
  | rpcOpen (target : Word)
  | rpcClose (connId : Word)
  | rpcCall (connId : Word) (params : Message Body) (isVoid readable : Bool)
  | rpcReturn (connId : Word) (result : Message Body) (readable : Bool) (answers : Nat)
  | rpcWaitCall (connId : Word)
  | rpcWaitAnyCall

def Kernel.call (thr : Thread) (process : Word) :
    Syscall Body → Option (Kernel Thread Body)
  | .rpcOpen target =>
    some (if kernel.processExists target then
      { kernel with task := update kernel.task thr (.creating target) } else kernel)
  | .rpcClose connId => some (kernel.closeConnection connId)
  | .rpcCall connId params isVoid readable =>
    kernel.enter thr connId readable (.sendCall thr process params isVoid)
  | .rpcReturn connId result readable answers =>
    kernel.enter thr connId readable (.sendResult thr process result answers)
  | .rpcWaitCall connId => kernel.enter thr connId true (.waitCall thr)
  | .rpcWaitAnyCall => some { kernel with task := update kernel.task thr .waitingAny }

def Kernel.advance (thr : Thread) (process : Word) (waiting : Bool) : Option (Kernel Thread Body) :=
  match kernel.task thr with
  | .idle => none
  | .inside connId => kernel.goOn thr connId waiting
  | .creating target => some (kernel.createConnection thr process target)
  | .waitingAny => kernel.popPending thr process

end Kernels

inductive Op (Thread Body : Type) where
  | call (thr : Thread) (function : Syscall Body)
  | advance (thr : Thread) (waiting : Bool)
  | exit (process : Word)

def Kernel.next (processOf : Thread → Word) (kernel : Kernel Thread Body) (op : Op Thread Body) :
    Option (Kernel Thread Body) :=
  if kernel.failed || kernel.usedFreed then none
  else match op with
  | .call thr function =>
    if kernel.task thr = .idle then kernel.call thr (processOf thr) function else none
  | .advance thr waiting => kernel.advance thr (processOf thr) waiting
  | .exit process =>
    some { kernel with processExists := update kernel.processExists process false }

def Step (processOf : Thread → Word) (before : Kernel Thread Body) (op : Op Thread Body)
    (after : Kernel Thread Body) : Prop :=
  before.next processOf op = some after

/-! What a step on a connection leaves alone. -/

structure OnConnection (thr : Thread) (connId : Word) (op : RpcConnection.Op Thread Body)
    (before after : Kernel Thread Body) : Prop where
  next : (before.connections connId).next op = some (after.connections connId)
  others : ∀ id ≠ connId, after.connections id = before.connections id
  connectionList : after.connectionList = before.connectionList
  nextConnId : after.nextConnId = before.nextConnId
  processExists : after.processExists = before.processExists
  task : after.task thr = .idle ∨ after.task thr = .inside connId
  tasks : ∀ other ≠ thr, after.task other = before.task other
  failed : after.failed = (after.connections connId).asserted
  usedFreed : after.usedFreed = before.usedFreed

section Steps

variable {before after : Kernel Thread Body}

theorem within_onConnection (within : before.within thr connId op = some after) :
    OnConnection thr connId op before after ∧ after.rpcCalleePending = before.rpcCalleePending := by
  obtain ⟨_, next, rfl⟩ := Option.map_eq_some_iff.mp within
  refine ⟨⟨?_, ?_, rfl, rfl, rfl, ?_, ?_, ?_, rfl⟩, rfl⟩
  · simp [next]
  · intro _ different
    exact update_of_ne different ..
  · simp only [update_self]
    split
    · exact .inl rfl
    · exact .inr rfl
  · intro _ different
    exact update_of_ne different ..
  · simp

theorem enter_cases (entered : before.enter thr connId readable op = some after) : before = after ∨
    (before.connectionList connId = true ∧ readable = true ∧
      OnConnection thr connId op before after ∧
    after.rpcCalleePending = before.rpcCalleePending) := by
  unfold Kernel.enter at entered
  split at entered
  · next found =>
    rw [Bool.and_eq_true] at found
    exact .inr ⟨found.1, found.2, within_onConnection entered⟩
  · exact .inl (Option.some.inj entered)

theorem goOn_onConnection (listed : before.connectionList connId = true)
    (wentOn : before.goOn thr connId waiting = some after) : let conn := before.connections connId
    OnConnection thr connId (.advance thr (before.processExists conn.calleePid)) before after ∧
      (after.rpcCalleePending = before.rpcCalleePending ∨
        after.rpcCalleePending = update before.rpcCalleePending conn.calleePid
          (before.rpcCalleePending conn.calleePid ++ [connId])) := by
  rw [Kernel.goOn, if_pos listed] at wentOn
  obtain ⟨_, within, rfl⟩ := Option.map_eq_some_iff.mp wentOn
  obtain ⟨step, pending⟩ := within_onConnection within
  split
  · unfold Kernel.announce
    split
    · exact ⟨⟨step.next, step.others, step.connectionList, step.nextConnId, step.processExists,
        step.task, step.tasks, step.failed, step.usedFreed⟩, .inr (by rw [pending])⟩
    · exact ⟨step, .inl pending⟩
  · exact ⟨step, .inl pending⟩

end Steps

end Nx.RpcKernel
