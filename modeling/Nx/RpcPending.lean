import Nx.Words
import Nx.Transitions
import Nx.Shares

/-!
Calls to one process, kernel/source/ipc/rpc.cpp and kernel/source/syscall/sc_rpc.cpp: `sendCall` on
any number of connections by any number of threads, and one thread of the callee that waits for any
call with `rpc_wait_any_call` and answers it.
-/

namespace Nx.RpcPending

open Words Transitions Shares Function List BitVec Option

variable {Thread Conn Msg : Type}

inductive SenderPc (Conn Msg : Type) where
  | idle
  | test (conn : Conn) (msg : Msg) (isVoid : Bool)
  | append (conn : Conn) (msg : Msg) (isVoid : Bool)
  | set (conn : Conn)
  /-- `push_if_waiting`: the waiters, the queue, and `post` of the semaphore. -/
  | waiters (conn : Conn) (isVoid : Bool)
  | push (conn : Conn) (isVoid : Bool)
  | post (conn : Conn) (isVoid : Bool)
  | notify (conn : Conn) (isVoid : Bool)
  | result (conn : Conn)
  | popResult (conn : Conn)
  deriving DecidableEq

inductive CalleePc (Conn : Type) where
  | idle
  /-- `wait` of the semaphore, in `pop`: after the locked test. -/
  | incrWaiters
  | block
  | blocked
  | woken
  | pop
  /-- `rpc_wait_call`. -/
  | progress (conn : Conn)
  | popCall (conn : Conn)
  /-- `sendResult`. -/
  | check (conn : Conn)
  | answer (conn : Conn)
  | reset (conn : Conn)
  deriving DecidableEq

structure Callee (Thread Conn Msg : Type) where
  calls : Conn → List Msg
  results : Conn → List Msg
  inProgress : Conn → Bool
  queue : List Conn
  value : Word
  waiters : Word
  thread : CalleePc Conn
  sender : Thread → SenderPc Conn Msg
  asserted : Bool

def Callee.init : Callee Thread Conn Msg where
  calls _ := []
  results _ := []
  inProgress _ := false
  queue := []
  value := 0
  waiters := 0
  thread := .idle
  sender _ := .idle
  asserted := false

inductive Act (Thread Conn Msg : Type) where
  | sendCall (thr : Thread) (conn : Conn) (msg : Msg) (isVoid : Bool)
  | sender (thr : Thread)
  /-- The callee goes on; the message is what it answers with. -/
  | callee (reply : Msg)
  deriving DecidableEq

section Steps

variable [DecidableEq Thread] [DecidableEq Conn]

def Callee.goto (state : Callee Thread Conn Msg) (thr : Thread) (pc : SenderPc Conn Msg) :
    Callee Thread Conn Msg :=
  { state with sender := update state.sender thr pc }

section Goto

variable (state : Callee Thread Conn Msg) (thr : Thread) (pc : SenderPc Conn Msg)

omit [DecidableEq Conn]

@[simp] theorem goto_sender : (state.goto thr pc).sender thr = pc := update_self _ _ _

@[simp] theorem goto_calls : (state.goto thr pc).calls = state.calls := rfl

@[simp] theorem goto_queue : (state.goto thr pc).queue = state.queue := rfl

@[simp] theorem goto_value : (state.goto thr pc).value = state.value := rfl

@[simp] theorem goto_thread : (state.goto thr pc).thread = state.thread := rfl

end Goto

def sent (conn : Conn) (isVoid : Bool) : SenderPc Conn Msg := if isVoid then .idle else .result conn

section Callees

variable (state : Callee Thread Conn Msg)

def Callee.notifyOne : Callee Thread Conn Msg :=
  if state.thread = .blocked then { state with thread := .woken } else state

def Callee.popResult (thr : Thread) (conn : Conn) : Callee Thread Conn Msg :=
  match state.results conn with
  | [] => { state with asserted := true }
  | _ :: rest => { state with results := update state.results conn rest }.goto thr .idle

def Callee.advance (thr : Thread) : Option (Callee Thread Conn Msg) :=
  match state.sender thr with
  | .idle => none
  | .test conn msg isVoid =>
    if state.inProgress conn then none else some (state.goto thr (.append conn msg isVoid))
  | .append conn msg isVoid =>
    some ({ state with calls := update state.calls conn (state.calls conn ++ [msg]) }.goto thr
      (if isVoid then .waiters conn true else .set conn))
  | .set conn =>
    some ({ state with inProgress := update state.inProgress conn true }.goto thr
      (.waiters conn false))
  | .waiters conn isVoid =>
    some (state.goto thr (if state.waiters = 0 then sent conn isVoid else .push conn isVoid))
  | .push conn isVoid =>
    some ({ state with queue := state.queue ++ [conn] }.goto thr (.post conn isVoid))
  | .post conn isVoid =>
    some ({ state with value := state.value + 1 }.goto thr (.notify conn isVoid))
  | .notify conn isVoid => some (state.notifyOne.goto thr (sent conn isVoid))
  | .result conn => if state.inProgress conn then none else some (state.goto thr (.popResult conn))
  | .popResult conn => some (state.popResult thr conn)

/-- `front` and `popFront` of an empty queue, and the assertions, stop everything. -/
def Callee.proceed (reply : Msg) : Option (Callee Thread Conn Msg) :=
  match state.thread with
  | .idle =>
    if state.value = 0 then some { state with thread := .incrWaiters }
    else some { state with value := state.value - 1, thread := .pop }
  | .incrWaiters => some { state with waiters := state.waiters + 1, thread := .block }
  | .block => some { state with thread := .blocked }
  | .blocked => none
  | .woken => some { state with value := state.value - 1, waiters := state.waiters - 1, thread := .pop }
  | .pop =>
    match state.queue with
    | [] => some { state with asserted := true }
    | conn :: rest => some { state with queue := rest, thread := .progress conn }
  | .progress conn =>
    if state.inProgress conn then some { state with thread := .popCall conn } else none
  | .popCall conn =>
    match state.calls conn with
    | [] => some { state with asserted := true }
    | _ :: rest =>
      some { state with calls := update state.calls conn rest, thread := .check conn }
  | .check conn =>
    if state.inProgress conn then some { state with thread := .answer conn }
    else some { state with asserted := true }
  | .answer conn =>
    some { state with
      results := update state.results conn (state.results conn ++ [reply]), thread := .reset conn }
  | .reset conn =>
    some { state with inProgress := update state.inProgress conn false, thread := .idle }

def Callee.next (act : Act Thread Conn Msg) : Option (Callee Thread Conn Msg) :=
  if state.asserted then none
  else
    match act with
    | .sendCall thr conn msg isVoid =>
      match state.sender thr with
      | .idle => some (state.goto thr (.test conn msg isVoid))
      | _ => none
    | .sender thr => state.advance thr
    | .callee reply => state.proceed reply

end Callees

def Step (before : Callee Thread Conn Msg) (act : Act Thread Conn Msg)
    (after : Callee Thread Conn Msg) : Prop :=
  before.next act = some after

end Steps

/-! Calls and their tokens. -/

@[simp] def owes [DecidableEq Conn] (conn : Conn) : SenderPc Conn Msg → Nat
  | .set other | .waiters other _ | .push other _ => if other = conn then 1 else 0
  | .idle | .test _ _ _ | .append _ _ _ | .post _ _ | .notify _ _ | .result _ | .popResult _ => 0

@[simp] def posts : SenderPc Conn Msg → Nat
  | .post _ _ => 1
  | .idle | .test _ _ _ | .append _ _ _ | .set _ | .waiters _ _ | .push _ _ | .notify _
      _ | .result _
  | .popResult _ => 0

def Between : SenderPc Conn Msg → Prop
  | .set _ | .waiters _ _ | .push _ _ | .post _ _ | .notify _ _ => True
  | .idle | .test _ _ _ | .append _ _ _ | .result _ | .popResult _ => False

/-- The callee has taken the connection from the queue, and not yet the message. -/
@[simp] def holds [DecidableEq Conn] (conn : Conn) : CalleePc Conn → Nat
  | .progress other | .popCall other => if other = conn then 1 else 0
  | .idle | .incrWaiters | .block | .blocked | .woken | .pop | .check _ | .answer _ | .reset _ => 0

@[simp] def takes : CalleePc Conn → Nat
  | .pop => 1
  | .idle | .incrWaiters | .block | .blocked | .woken | .progress _ | .popCall _ | .check
      _ | .answer _ | .reset _ => 0

def Sleepy : CalleePc Conn → Prop
  | .incrWaiters | .block | .blocked => True
  | .idle | .woken | .pop | .progress _ | .popCall _ | .check _ | .answer _ | .reset _ => False

structure Accounted [DecidableEq Conn] (state : Callee Thread Conn Msg) : Prop where
  calls : ∀ conn, ∃ owed, Total (fun thr => owes conn (state.sender thr)) owed ∧
    (state.calls conn).length = owed + state.queue.count conn + holds conn state.thread
  tokens : ∃ posting, Total (fun thr => posts (state.sender thr)) posting ∧
    state.value.toNat + posting + takes state.thread = state.queue.length
  awaited : Sleepy state.thread → state.value = 0 ∨ ∃ thr conn isVoid, state.sender thr =
    .notify conn isVoid
  stocked : state.thread = .woken → state.value ≠ 0

/-- A caller finds the callee waiting, its post does not wrap around, and its notification
neither comes before the block of a callee that has found nothing, nor wakes it for nothing. -/
def InTime (state : Callee Thread Conn Msg) : SenderPc Conn Msg → Prop
  | .waiters _ _ => state.waiters ≠ 0
  | .post _ _ => state.value.toNat + 1 < 2 ^ 64
  | .notify _ _ =>
    state.thread ≠ .incrWaiters ∧ state.thread ≠ .block ∧
      (state.thread = .blocked → state.value ≠ 0)
  | .idle | .test _ _ _ | .append _ _ _ | .set _ | .push _ _ | .result _ | .popResult _ => True

def Timely (move : Move (Callee Thread Conn Msg) (Act Thread Conn Msg)) : Prop :=
  match move.label with
  | .sendCall _ _ _ _ | .callee _ => True
  | .sender thr => InTime move.before (move.before.sender thr)

/-- A callee that is blocked has no call to take, unless somebody is about to tell it. -/
def NoneForgotten (state : Callee Thread Conn Msg) : Prop :=
  state.thread = .blocked → (∀ thr, ¬ Between (state.sender thr)) → ∀ conn, state.calls conn = []

section Account

variable [DecidableEq Thread] [DecidableEq Conn] {state after : Callee Thread Conn Msg}

theorem Accounted.sends (accounted : Accounted state) (thr : Thread)
    (others : ∀ other ≠ thr, after.sender other = state.sender other)
    (calls : ∀ conn, (after.calls conn).length + owes conn
      (state.sender thr) + state.queue.count conn +
      holds conn state.thread =
        (state.calls conn).length + owes conn (after.sender thr) + after.queue.count conn + holds
          conn after.thread)
    (tokens : after.value.toNat + posts (after.sender thr) + takes after.thread +
      state.queue.length =
      state.value.toNat + posts (state.sender thr) + takes state.thread + after.queue.length)
    (awaited : Sleepy after.thread → after.value = 0 ∨ ∃ thr conn isVoid, after.sender thr =
      .notify conn isVoid)
    (stocked : after.thread = .woken → after.value ≠ 0) : Accounted after := by
  refine ⟨?_, ?_, awaited, stocked⟩
  · intro conn
    obtain ⟨owed, total, length⟩ := accounted.calls conn
    have share := total.le thr
    have balance := calls conn
    refine ⟨owed + owes conn (after.sender thr) - owes conn (state.sender thr),
      total.change thr ?_ ?_, by omega⟩
    · intro other differs
      rw [others other differs]
    · omega
  · obtain ⟨posting, total, _⟩ := accounted.tokens
    have share := total.le thr
    refine ⟨posting + posts (after.sender thr) - posts (state.sender thr), total.change thr ?_ ?_,
      by omega⟩
    · intro other differs
      rw [others other differs]
    · omega

omit [DecidableEq Thread] in
theorem Accounted.proceeds (accounted : Accounted state) (senders : after.sender = state.sender)
    (calls : ∀ conn, (after.calls conn).length + state.queue.count conn + holds conn state.thread =
      (state.calls conn).length + after.queue.count conn + holds conn after.thread)
    (tokens : after.value.toNat + takes after.thread + state.queue.length =
      state.value.toNat + takes state.thread + after.queue.length)
    (awaited : Sleepy after.thread → after.value = 0 ∨ ∃ thr conn isVoid, after.sender thr =
      .notify conn isVoid)
    (stocked : after.thread = .woken → after.value ≠ 0) : Accounted after := by
  refine ⟨?_, ?_, awaited, stocked⟩
  · intro conn
    obtain ⟨owed, total, length⟩ := accounted.calls conn
    have balance := calls conn
    rw [senders]
    exact ⟨owed, total, by omega⟩
  · obtain ⟨posting, total, _⟩ := accounted.tokens
    rw [senders]
    exact ⟨posting, total, by omega⟩

omit [DecidableEq Conn] in
theorem notifies_goto (here : ∀ conn isVoid, state.sender thr ≠ .notify conn isVoid)
    (notifies : ∃ thr conn isVoid, state.sender thr = .notify conn isVoid) :
    ∃ other conn isVoid, (update state.sender thr pc) other = .notify conn isVoid := by
  obtain ⟨other, conn, isVoid, isPc⟩ := notifies
  refine ⟨other, conn, isVoid, ?_⟩
  rw [update_of_ne]
  · exact isPc
  · rintro rfl
    exact here conn isVoid isPc

section Sends

variable (accounted : Accounted state)
include accounted

theorem append_accounted (isPc : state.sender thr = .append conn msg isVoid) :
    Accounted ({ state with calls := update state.calls conn (state.calls conn ++ [msg]) }.goto thr
      (if isVoid then .waiters conn true else .set conn)) := by
  refine accounted.sends thr (fun _ differs => update_of_ne differs _ _) ?_ ?_ ?_ accounted.stocked
  · intro other
    have owing : owes other (if isVoid then .waiters conn true else .set conn : SenderPc Conn Msg) =
        if conn = other then 1 else 0 := by
      cases isVoid <;> rfl
    rw [isPc, goto_sender, owing, owes, goto_calls, goto_queue, goto_thread]
    by_cases same : conn = other
    · subst same
      simp only [update_self, length_append, length_singleton, if_true]
    · simp only [update_of_ne (Ne.symm same), if_neg same]
  · have posting : posts (if isVoid then .waiters conn true else .set conn : SenderPc Conn Msg) =
        0 := by
      cases isVoid <;> rfl
    rw [isPc, goto_sender, posting, posts, goto_value, goto_thread, goto_queue]
  · refine fun sleepy => (accounted.awaited sleepy).imp_right (notifies_goto ?_)
    simp [isPc]

theorem post_accounted (isPc : state.sender thr = .post conn isVoid)
    (timely : state.value.toNat + 1 < 2 ^ 64) :
    Accounted ({ state with value := state.value + 1 }.goto thr (.notify conn isVoid)) := by
  have added : (state.value + 1).toNat = state.value.toNat + 1 := by
    rw [toNat_add]
    exact Nat.mod_eq_of_lt timely
  refine accounted.sends thr (fun _ differs => update_of_ne differs _ _) ?_ ?_ ?_ ?_
  · intro other
    simp only [isPc, goto_sender, goto_calls, goto_queue, goto_thread, owes]
  · simp only [isPc, goto_sender, goto_value, goto_queue, goto_thread, posts, added]
  · exact fun _ => .inr ⟨thr, conn, isVoid, update_self _ _ _⟩
  · intro _ (isZero : state.value + 1 = 0)
    rw [isZero] at added
    simp at added

theorem notify_accounted (isPc : state.sender thr = .notify conn isVoid)
    (timely : InTime state (.notify conn isVoid)) :
    Accounted (state.notifyOne.goto thr (sent conn isVoid)) := by
  obtain ⟨notIncr, notBlock, notEmpty⟩ := timely
  have others (pc : SenderPc Conn Msg) : ∀ other ≠ thr, update state.sender thr pc other =
      state.sender other :=
    fun other differs => update_of_ne differs _ _
  have owing (other : Conn) : owes other (sent conn isVoid : SenderPc Conn Msg) = 0 := by
    cases isVoid <;> rfl
  have posting : posts (sent conn isVoid : SenderPc Conn Msg) = 0 := by
    cases isVoid <;> rfl
  rw [Callee.notifyOne]
  split
  next blocked =>
    refine accounted.sends thr (others _) ?_ ?_ nofun fun _ => notEmpty blocked
    · intro other
      rw [isPc, goto_sender, owing, owes, blocked]
      rfl
    · rw [isPc, goto_sender, posting, posts, blocked]
      rfl
  next awake =>
    refine accounted.sends thr (others _) ?_ ?_ ?_ accounted.stocked
    · intro _
      rw [isPc, goto_sender, owing, owes, goto_calls, goto_queue, goto_thread]
    · rw [isPc, goto_sender, posting, posts, goto_value, goto_thread, goto_queue]
    · intro sleepy
      cases isThread : state.thread with
      | incrWaiters => exact absurd isThread notIncr
      | block => exact absurd isThread notBlock
      | blocked => exact absurd isThread awake
      | idle | woken | pop | progress | popCall | check | answer | reset =>
        rw [goto_thread, isThread] at sleepy
        exact sleepy.elim

end Sends

theorem advance_accounted (accounted : Accounted state) (advanced : state.advance thr = some after)
    (timely : Timely ⟨state, .sender thr, after⟩) : Accounted after := by
  have others (pc : SenderPc Conn Msg) : ∀ other ≠ thr, update state.sender thr pc other =
      state.sender other :=
    fun other differs => update_of_ne differs _ _
  -- a step that leaves the calls, the queue and the semaphore alone
  have moves {pc : SenderPc Conn Msg} {inProgress : Conn → Bool} {results : Conn → List Msg}
      (here : ∀ conn isVoid, state.sender thr ≠ .notify conn isVoid)
      (owing : ∀ conn, owes conn pc = owes conn (state.sender thr))
        (posting : posts pc = posts (state.sender thr)) :
      Accounted ({ state with inProgress := inProgress, results := results }.goto thr pc) := by
    refine accounted.sends thr (others pc) ?_ ?_ ?_ accounted.stocked
    · intro conn
      simp only [goto_sender, goto_calls, goto_queue, goto_thread, owing]
    · simp only [goto_sender, goto_value, goto_queue, goto_thread, posting]
    · exact fun sleepy => (accounted.awaited sleepy).imp_right (notifies_goto here)
  unfold Callee.advance at advanced
  replace timely : InTime state (state.sender thr) := timely
  generalize isPc : state.sender thr = place at advanced timely
  cases place with
  | idle => cases advanced
  | test conn msg isVoid | result conn =>
    obtain ⟨_, ⟨⟩⟩ := ite_none_left_eq_some.mp advanced
    refine moves ?_ ?_ ?_ <;> simp [isPc]
  | append conn _ isVoid =>
    cases advanced
    exact append_accounted accounted isPc
  | set conn =>
    cases advanced
    refine moves ?_ ?_ ?_ <;> simp [isPc]
  | waiters conn isVoid =>
    cases advanced
    rw [if_neg timely]
    refine moves ?_ ?_ ?_ <;> simp [isPc]
  | push conn isVoid =>
    cases advanced
    refine accounted.sends thr (others _) ?_ ?_ ?_ accounted.stocked
    · intro other
      simp only [isPc, goto_sender, goto_calls, goto_queue, goto_thread, owes, count_append,
        count_singleton, beq_iff_eq]
      omega
    · simp only [isPc, goto_sender, goto_value, goto_queue, goto_thread, posts, length_append,
        length_singleton]
      omega
    · refine fun sleepy => (accounted.awaited sleepy).imp_right (notifies_goto ?_)
      simp [isPc]
  | post conn isVoid =>
    cases advanced
    exact post_accounted accounted isPc timely
  | notify conn isVoid =>
    cases advanced
    exact notify_accounted accounted isPc timely
  | popResult =>
    cases advanced
    rw [Callee.popResult]
    split
    · exact ⟨accounted.calls, accounted.tokens, accounted.awaited, accounted.stocked⟩
    · refine moves ?_ ?_ ?_ <;> simp [isPc]

omit [DecidableEq Thread] in
theorem proceed_accounted (accounted : Accounted state)
    (proceeded : state.proceed reply = some after) :
    Accounted after := by
  -- a step that leaves the calls, the queue and the semaphore alone
  have moves {thread : CalleePc Conn} {inProgress : Conn → Bool} {results : Conn → List Msg}
      {waiters : Word}
      {asserted : Bool} (holding : ∀ conn, holds conn thread = holds conn state.thread)
      (taking : takes thread = takes state.thread) (sleepy : Sleepy thread → state.value = 0 ∨
        Sleepy state.thread)
      (stocked : thread = .woken → state.value ≠ 0) :
      Accounted { state with
        inProgress := inProgress, results := results, waiters := waiters, thread :=
          thread, asserted := asserted } := by
    refine accounted.proceeds rfl ?_ ?_ ?_ stocked
    · intro conn
      simp only [holding]
    · simp only [taking]
    · exact fun sleeps => (sleepy sleeps).elim .inl accounted.awaited
  have taken (notEmpty : state.value ≠ 0) : (state.value - 1).toNat + 1 = state.value.toNat := by
    have positive : state.value.toNat ≠ 0 := fun isZero => notEmpty (eq_of_toNat_eq isZero)
    have one : (1 : Word) ≤ state.value := by
      rw [le_def]
      exact Nat.one_le_iff_ne_zero.mpr positive
    rw [toNat_sub_of_le one]
    exact Nat.sub_add_cancel (Nat.one_le_iff_ne_zero.mpr positive)
  unfold Callee.proceed at proceeded
  generalize isThread : state.thread = place at proceeded
  cases place with
  | idle =>
    dsimp only at proceeded
    split at proceeded
    next empty =>
      cases proceeded
      exact moves (by simp [isThread]) (by simp [isThread]) (fun _ => .inl empty) nofun
    next notEmpty =>
      cases proceeded
      refine accounted.proceeds rfl ?_ ?_ nofun nofun
      · simp [isThread]
      · simp only [isThread, takes, ← taken notEmpty]
  | incrWaiters | block =>
    cases proceeded
    exact moves (by simp [isThread]) (by simp [isThread])
      (fun _ => .inr (by simp [isThread, Sleepy])) nofun
  | blocked => cases proceeded
  | woken =>
    cases proceeded
    refine accounted.proceeds rfl ?_ ?_ nofun nofun
    · simp [isThread]
    · simp only [isThread, takes, ← taken (accounted.stocked isThread)]
  | pop =>
    dsimp only at proceeded
    split at proceeded
    next empty =>
      cases proceeded
      exact moves (by simp [isThread]) (by simp [isThread]) nofun nofun
    next conn rest isQueue =>
      cases proceeded
      refine accounted.proceeds rfl ?_ ?_ nofun nofun
      · intro other
        simp only [isThread, isQueue, holds, count_cons, beq_iff_eq]
        omega
      · simp only [isThread, isQueue, takes, length_cons]
        omega
  | progress conn =>
    obtain ⟨_, ⟨⟩⟩ := ite_none_right_eq_some.mp proceeded
    exact moves (by simp [isThread]) (by simp [isThread]) nofun nofun
  | popCall conn =>
    dsimp only at proceeded
    split at proceeded
    next empty =>
      cases proceeded
      exact moves (by simp [isThread]) (by simp [isThread]) nofun nofun
    next msg rest isCalls =>
      cases proceeded
      refine accounted.proceeds rfl ?_ ?_ nofun nofun
      · intro other
        by_cases same : conn = other
        · subst same
          simp only [isThread, isCalls, holds, update_self, length_cons, if_true]
          omega
        · simp only [isThread, holds, update_of_ne (Ne.symm same), if_neg same]
      · simp [isThread]
  | check conn =>
    dsimp only at proceeded
    split at proceeded
    all_goals
      cases proceeded
      exact moves (by simp [isThread]) (by simp [isThread]) nofun nofun
  | answer conn | reset conn =>
    cases proceeded
    exact moves (by simp [isThread]) (by simp [isThread]) nofun nofun

theorem step_accounted {before after : Callee Thread Conn Msg} (accounted : Accounted before)
    (step : Step before act after) (timely : Timely ⟨before, act, after⟩) : Accounted after := by
  unfold Step Callee.next at step
  obtain ⟨_, moved⟩ := ite_none_left_eq_some.mp step
  cases act with
  | sendCall thr =>
    dsimp only at moved
    split at moved
    next isPc =>
      cases moved
      refine accounted.sends thr (fun _ differs => update_of_ne differs _ _) ?_ ?_ ?_
        accounted.stocked
      · intro _
        simp only [isPc, goto_sender, goto_calls, goto_queue, goto_thread, owes]
      · simp only [isPc, goto_sender, goto_value, goto_queue, goto_thread, posts]
      · refine fun sleepy => (accounted.awaited sleepy).imp_right (notifies_goto ?_)
        simp [isPc]
    next => cases moved
  | sender => exact advance_accounted accounted moved timely
  | callee => exact proceed_accounted accounted moved

omit [DecidableEq Thread] in
theorem init_accounted : Accounted (Callee.init : Callee Thread Conn Msg) :=
  ⟨fun _ => ⟨0, total_zero, rfl⟩, ⟨0, total_zero, rfl⟩, nofun, nofun⟩

omit [DecidableEq Thread] in
theorem Accounted.noneForgotten (accounted : Accounted state) : NoneForgotten state := by
  intro blocked noneBetween conn
  have idle (thr : Thread) : owes conn (state.sender thr) = 0 ∧ posts (state.sender thr) = 0 := by
    have outside := noneBetween thr
    cases isPc : state.sender thr <;>
      first | exact ⟨rfl, rfl⟩ | exact absurd (by rw [isPc]; trivial) outside
  have noValue : state.value = 0 := by
    apply (accounted.awaited (by rw [blocked]; trivial)).resolve_right
    rintro ⟨thr, conn, _, isPc⟩
    exact noneBetween thr (by rw [isPc]; trivial)
  obtain ⟨_, posted, tokens⟩ := accounted.tokens
  have noPosts := posted.eq_zero fun thr => (idle thr).2
  have noQueue : state.queue = [] := by
    rw [← length_eq_zero_iff, ← tokens, noPosts, noValue, blocked]
    rfl
  obtain ⟨_, owing, calls⟩ := accounted.calls conn
  have noneOwed := owing.eq_zero fun thr => (idle thr).1
  rw [← length_eq_zero_iff, calls, noneOwed, noQueue, blocked]
  rfl

/-- While every caller finds the callee waiting and notifies it in time, no call is forgotten. -/
theorem no_call_forgotten {last : Callee Thread Conn Msg}
    {moves : List (Move (Callee Thread Conn Msg) (Act Thread Conn Msg))}
      (run : Run Step Callee.init moves last)
    (timely : ∀ move ∈ moves, Timely move) : ∀ state ∈ visited Callee.init moves,
      NoneForgotten state := by
  intro state reached
  exact (run_guarded Accounted Timely (fun _ => step_accounted) run init_accounted timely state
    reached).noneForgotten

end Account

instance [DecidableEq Conn] (state : Callee Thread Conn Msg) (pc : SenderPc Conn Msg) :
    Decidable (InTime state pc) := by
  unfold InTime
  split <;> infer_instance

instance [DecidableEq Conn] (move : Move (Callee Thread Conn Msg) (Act Thread Conn Msg)) :
    Decidable (Timely move) := by
  unfold Timely
  split <;> infer_instance

local instance neZero_two : NeZero 2 := ⟨by decide⟩

/-- The callee is blocked before the call is made, answers it, and is blocked again. -/
def answering : List (Act (Fin 2) (Fin 2) Nat) :=
  [.callee 0, .callee 0, .callee 0, .sendCall 0 1 7 false, .sender 0, .sender 0, .sender 0,
    .sender 0, .sender 0,
    .sender 0, .sender 0, .callee 0, .callee 0, .callee 0, .callee 0, .callee 0, .callee 9,
      .callee 0, .sender 0,
    .sender 0, .callee 0, .callee 0, .callee 0]

theorem no_call_forgotten_answering :
    let ran := trace Callee.next (Callee.init : Callee (Fin 2) (Fin 2) Nat) answering
    ran.1.length = 23 ∧ (∀ move ∈ ran.1, Timely move) ∧ ran.2.thread = .blocked ∧
      ∀ state ∈ visited Callee.init ran.1, NoneForgotten state := by
  intro ran
  have timely : ∀ move ∈ ran.1, Timely move := by decide +kernel
  exact ⟨by decide +kernel, timely, by decide +kernel,
    no_call_forgotten (trace_run Callee.next (fun _ _ _ => id) _ _) timely⟩

def early : List (Act (Fin 2) (Fin 2) Nat) :=
  [.sendCall 0 1 7 false, .sender 0, .sender 0, .sender 0, .sender 0, .callee 0, .callee 0,
    .callee 0]

theorem call_forgotten_early :
    let ran := trace Callee.next (Callee.init : Callee (Fin 2) (Fin 2) Nat) early
    ran.1.length = 8 ∧ ran.2.thread = .blocked ∧ ran.2.sender 0 = .result 1 ∧
      ran.2.sender 1 = .idle ∧
      ran.2.calls 1 = [7] ∧ ran.2.queue = [] := by decide +kernel

end Nx.RpcPending
