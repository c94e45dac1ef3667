import Nx.Words
import Nx.Transitions
import Nx.Shares

/-!
One rpc connection, kernel/source/ipc/rpc.cpp and kernel/source/syscall/sc_rpc.cpp.
-/

namespace Nx.RpcConnection

open Words Shares Function Option
open List hiding set

variable {Thread Body : Type} [DecidableEq Thread]

structure Message (Body : Type) where
  counterpart : Word
  sequence : BitVec 32
  status : BitVec 32
  body : Body
  deriving DecidableEq

/-- A call that was sent. The number tells the calls on a connection apart; like
`isVoid` it is not part of the message. -/
structure Call (Body : Type) where
  number : Nat
  isVoid : Bool
  message : Message Body
  deriving DecidableEq

structure Result (Body : Type) where
  answers : Nat
  message : Message Body
  deriving DecidableEq

/-- The next step of a thread: in `sendCall` up to the look-up of the callee, then
in `rpc_call`, in `rpc_wait_call` or in `sendResult`. -/
inductive Pc (Body : Type) where
  | idle
  | callTest (call : Call Body)
  | callAppend (call : Call Body)
  | callSet (call : Call Body)
  | callCallee (call : Call Body)
  | callWait (call : Call Body)
  | callPop (call : Call Body)
  | waitTest
  | waitPop
  | returnCheck (result : Result Body)
  | returnAppend (result : Result Body)
  | returnSet
  deriving DecidableEq

open Pc

/-- `started`, `owed` and `received` are a record: how many calls were begun,
which of the calls that were handed out have not been answered, and what the
calls have returned. -/
structure Connection (Thread Body : Type) where
  callerPid : Word
  calleePid : Word
  seq : Word
  inProgress : Bool
  calls : List (Call Body)
  results : List (Result Body)
  pc : Thread → Pc Body
  asserted : Bool
  started : Nat
  owed : List Nat
  received : List (Call Body × Result Body)

open Connection

@[simp] def Connection.create (callerPid calleePid : Word) : Connection Thread Body :=
  ⟨callerPid, calleePid, 0, false, [], [], fun _ => .idle, false, 0, [], []⟩

section Connections

variable (conn : Connection Thread Body)

def Connection.goto (thr : Thread) (pc : Pc Body) : Connection Thread Body :=
  { conn with pc := update conn.pc thr pc }

def Connection.sendCall (thr : Thread) (process : Word) (msg : Message Body) (isVoid : Bool) :
    Connection Thread Body :=
  if process = conn.callerPid then
    let msg := { msg with counterpart := process, sequence := conn.seq.setWidth 32, status := 0 }
    { conn with seq := conn.seq + 1, started := conn.started + 1 }.goto thr
      (.callTest ⟨conn.started, isVoid, msg⟩)
  else conn

def Connection.sendResult (thr : Thread) (process : Word)
    (msg : Message Body) (answers : Nat) : Connection Thread Body :=
  let msg := { msg with counterpart := process, sequence := conn.seq.setWidth 32 }
  { conn with seq := conn.seq + 1, owed := conn.owed.erase answers }.goto thr
    (.returnCheck ⟨answers, msg⟩)

def Connection.fail : Connection Thread Body :=
  { conn with asserted := true }

def Connection.popCall (thr : Thread) : Connection Thread Body :=
  match conn.calls with
  | [] => conn.fail
  | call :: rest =>
    { conn with
      calls := rest
      owed := if call.isVoid then conn.owed else conn.owed ++ [call.number] }.goto thr .idle

def Connection.popResult (thr : Thread) (call : Call Body) : Connection Thread Body :=
  match conn.results with
  | [] => conn.fail
  | result :: rest =>
    { conn with results := rest, received := conn.received ++ [(call, result)] }.goto thr .idle

def Connection.advance (thr : Thread) (calleeExists : Bool) : Option (Connection Thread Body) :=
  match conn.pc thr with
  | .idle => none
  | .callTest call => if conn.inProgress then none else some (conn.goto thr (.callAppend call))
  | .callAppend call =>
    some ({ conn with calls := conn.calls ++ [call] }.goto thr
      (if call.isVoid then .callCallee call else .callSet call))
  | .callSet call => some ({ conn with inProgress := true }.goto thr (.callCallee call))
  | .callCallee call =>
    if calleeExists then some (conn.goto thr (if call.isVoid then .idle else .callWait call))
    else some conn.fail
  | .callWait call => if conn.inProgress then none else some (conn.goto thr (.callPop call))
  | .callPop call => some (conn.popResult thr call)
  | .waitTest => if conn.inProgress then some (conn.goto thr .waitPop) else none
  | .waitPop => some (conn.popCall thr)
  | .returnCheck result =>
    if conn.inProgress then some (conn.goto thr (.returnAppend result)) else some conn.fail
  | .returnAppend result =>
    some ({ conn with results := conn.results ++ [result] }.goto thr .returnSet)
  | .returnSet => some ({ conn with inProgress := false }.goto thr .idle)

inductive Op (Thread Body : Type) where
  | sendCall (thr : Thread) (process : Word) (msg : Message Body) (isVoid : Bool)
  | sendResult (thr : Thread) (process : Word) (msg : Message Body) (answers : Nat)
  | waitCall (thr : Thread)
  | advance (thr : Thread) (calleeExists : Bool)

def Pc.isIdle : Pc Body → Bool
  | .idle => true
  | _ => false

def Connection.enter (thr : Thread) (begun : Connection Thread Body) :
    Option (Connection Thread Body) :=
  if (conn.pc thr).isIdle then some begun else none

def Connection.next (op : Op Thread Body) : Option (Connection Thread Body) :=
  if conn.asserted then none
  else match op with
  | .sendCall thr process msg isVoid => conn.enter thr (conn.sendCall thr process msg isVoid)
  | .sendResult thr process msg answers => conn.enter thr (conn.sendResult thr process msg answers)
  | .waitCall thr => conn.enter thr (conn.goto thr .waitTest)
  | .advance thr calleeExists => conn.advance thr calleeExists

/-! Calls under way. A call that expects a result is under way from its test to
its last step, and its message or the result for it is in one place. -/

@[simp] def Pc.sent : Pc Body → Option (Call Body)
  | .callSet call | .callWait call | .callPop call => some call
  | .callCallee call => if call.isVoid then none else some call
  | _ => none

@[simp] def Pc.opens : Pc Body → Nat
  | .callAppend call => if call.isVoid then 0 else 1
  | _ => 0

@[simp] def Pc.queued : Pc Body → Nat
  | .callSet _ => 1
  | _ => 0

@[simp] def Pc.posted : Pc Body → Nat
  | .callCallee call => if call.isVoid then 0 else 1
  | .callWait _ | .callPop _ => 1
  | _ => 0

@[simp] def Pc.returning : Pc Body → Nat
  | .returnCheck _ | .returnAppend _ => 1
  | _ => 0

@[simp] def Pc.resetting : Pc Body → Nat
  | .returnSet => 1
  | _ => 0

structure Census where
  opens : Nat
  queued : Nat
  posted : Nat
  returning : Nat
  resetting : Nat

structure Totals (pc : Thread → Pc Body) (census : Census) : Prop where
  opens : Total (fun thr => (pc thr).opens) census.opens
  queued : Total (fun thr => (pc thr).queued) census.queued
  posted : Total (fun thr => (pc thr).posted) census.posted
  returning : Total (fun thr => (pc thr).returning) census.returning
  resetting : Total (fun thr => (pc thr).resetting) census.resetting

@[simp] def Connection.expecting : Nat :=
  conn.calls.countP fun call => !call.isVoid

end Connections

structure Balanced (conn : Connection Thread Body) (census : Census) : Prop where
  one : census.opens + census.queued + census.posted ≤ 1
  places : census.posted + census.queued = conn.expecting + conn.owed.length + census.returning +
    conn.results.length
  still : census.queued ≤ conn.expecting
  flag : census.posted + census.resetting = conn.inProgress.toNat + conn.results.length
  resets : census.resetting ≤ conn.results.length

variable {census : Census}

omit [DecidableEq Thread] in
theorem balanced_of {conn : Connection Thread Body} (expecting owed results flag : Nat)
    (expecting_ : conn.expecting = expecting) (owed_ : conn.owed.length = owed)
    (results_ : conn.results.length = results) (flag_ : conn.inProgress.toNat = flag)
    (balance : census.opens + census.queued + census.posted ≤ 1 ∧
    census.posted + census.queued = expecting + owed + census.returning + results ∧ census.queued ≤
      expecting ∧
    census.posted + census.resetting = flag + results ∧ census.resetting ≤ results) :
      Balanced conn census := by
  subst expecting_ owed_ results_ flag_
  exact ⟨balance.1, balance.2.1, balance.2.2.1, balance.2.2.2.1, balance.2.2.2.2⟩

def Connection.Concerns (conn : Connection Thread Body) (number : Nat) : Prop :=
  ∃ thr call, (conn.pc thr).sent = some call ∧ call.number = number

@[simp] def Pc.result : Pc Body → Option (Result Body)
  | .returnCheck result | .returnAppend result => some result
  | _ => none

structure Orderly (conn : Connection Thread Body) : Prop where
  counted : ∃ census, Totals conn.pc census ∧ Balanced conn census
  calls : ∀ call ∈ conn.calls, call.isVoid = false → conn.Concerns call.number
  owed : ∀ number ∈ conn.owed, conn.Concerns number
  returning : ∀ thr result, (conn.pc thr).result = some result → conn.Concerns result.answers
  results : ∀ result ∈ conn.results, conn.Concerns result.answers
  popping : ∀ thr call, conn.pc thr = .callPop call → conn.inProgress = false
  taking : ∀ thr, conn.pc thr = .waitPop →
    conn.inProgress = true ∨ ∃ first rest, conn.calls = first :: rest ∧ first.isVoid = true
  expects : ∀ thr call, conn.pc thr = .callSet call → call.isVoid = false

omit [DecidableEq Thread] in
theorem create_orderly (callerPid calleePid : Word) :
    Orderly (create callerPid calleePid : Connection Thread Body) where
  counted := by
    refine ⟨⟨0, 0, 0, 0, 0⟩, ⟨total_zero, total_zero, total_zero, total_zero, total_zero⟩, ?_⟩
    constructor <;> simp
  calls := by simp
  owed := by simp
  returning := by simp
  results := by simp
  popping := by simp
  taking := by simp
  expects := by simp

structure Shift (old new : Pc Body) (before after : Census) : Prop where
  opens : after.opens + old.opens = before.opens + new.opens
  queued : after.queued + old.queued = before.queued + new.queued
  posted : after.posted + old.posted = before.posted + new.posted
  returning : after.returning + old.returning = before.returning + new.returning
  resetting : after.resetting + old.resetting = before.resetting + new.resetting

theorem total_shift {share : Pc Body → Nat} {before : Thread → Pc Body} {total}
    (held : Total (fun thr => share (before thr)) total) (thr : Thread) (new : Pc Body) :
      ∃ now, Total (fun other =>
    share (update before thr new other)) now ∧ now + share (before thr) = total + share new := by
  have bound := held.le thr
  refine ⟨total - share (before thr) + share new, held.change thr ?_ ?_, by omega⟩
  · intro _ different
    rw [update_of_ne different]
  · rw [update_self]
    omega

theorem Totals.goto {before : Thread → Pc Body} (totals : Totals before census) (thr : Thread)
    (new : Pc Body) :
    ∃ now, Totals (update before thr new) now ∧ Shift (before thr) new census now := by
  obtain ⟨opens, opensTotal, opensShift⟩ := total_shift totals.opens thr new
  obtain ⟨queued, queuedTotal, queuedShift⟩ := total_shift totals.queued thr new
  obtain ⟨posted, postedTotal, postedShift⟩ := total_shift totals.posted thr new
  obtain ⟨returning, returningTotal, returningShift⟩ := total_shift totals.returning thr new
  obtain ⟨resetting, resettingTotal, resettingShift⟩ := total_shift totals.resetting thr new
  exact ⟨⟨opens, queued, posted, returning, resetting⟩,
    ⟨opensTotal, queuedTotal, postedTotal, returningTotal, resettingTotal⟩,
    ⟨opensShift, queuedShift, postedShift, returningShift, resettingShift⟩⟩

variable {pc : Pc Body} {call : Call Body} {result : Result Body} {after : Connection Thread Body}

section Steps

variable {before data : Connection Thread Body} {new : Pc Body}

theorem Connection.Concerns.goto (concerns : before.Concerns number) (same : data.pc = before.pc)
    (sent : (before.pc thr).sent = none ∨ new.sent = (before.pc thr).sent) :
      (data.goto thr new).Concerns number := by
  obtain ⟨other, call, here, number_⟩ := concerns
  refine ⟨other, call, ?_, number_⟩
  by_cases moved : other = thr
  · subst moved
    rcases sent with nothing | kept
    · rw [nothing] at here
      cases here
    · rw [← kept] at here
      simpa [Connection.goto] using here
  · simpa [Connection.goto, update_of_ne moved, same] using here

theorem Orderly.goto (orderly : Orderly before) (same : data.pc = before.pc)
    (balanced : ∀ census now, Totals before.pc census → Balanced before census →
      Shift (before.pc thr) new census now →
    Balanced data now) (sent : (before.pc thr).sent = none ∨ new.sent = (before.pc thr).sent)
    (calls : ∀ call ∈ data.calls, call.isVoid = false → call ∈ before.calls ∨ new.sent = some call)
    (owed : ∀ number ∈ data.owed, before.Concerns number)
      (returning : ∀ result, new.result = some result →
    before.Concerns result.answers) (results : ∀ result ∈ data.results,
      before.Concerns result.answers)
    (popping : ∀ call, new = .callPop call → data.inProgress = false)
    (popped : ∀ other call, before.pc other = .callPop call → data.inProgress = false)
      (takes : new = .waitPop →
    data.inProgress = true) (taking : ∀ other ≠ thr, before.pc other = .waitPop →
      data.inProgress = true ∨
    ∃ first rest, data.calls = first :: rest ∧ first.isVoid = true)
      (expects : ∀ call, new = .callSet call →
    call.isVoid = false) : Orderly (data.goto thr new) := by
  have self : (data.goto thr new).pc thr = new := update_self ..
  have others (other : Thread) (different : other ≠ thr) :
      (data.goto thr new).pc other = before.pc other := by
    simp [Connection.goto, update_of_ne different, same]
  constructor
  · obtain ⟨census, totals, holds⟩ := orderly.counted
    obtain ⟨now, after, shift⟩ := totals.goto thr new
    have ⟨one, places, still, flag, resets⟩ := balanced census now totals holds shift
    exact ⟨now, by simpa [Connection.goto, same] using after, one, places, still, flag, resets⟩
  · intro call member expecting
    rcases calls call member expecting with old | now
    · exact (orderly.calls call old expecting).goto same sent
    · exact ⟨thr, call, self.symm ▸ now, rfl⟩
  · intro number member
    exact (owed number member).goto same sent
  · intro other result here
    by_cases moved : other = thr
    · rw [moved, self] at here
      exact (returning result here).goto same sent
    · rw [others other moved] at here
      exact (orderly.returning other result here).goto same sent
  · intro result member
    exact (results result member).goto same sent
  · intro other call here
    by_cases moved : other = thr
    · rw [moved, self] at here
      exact popping call here
    · rw [others other moved] at here
      exact popped other call here
  · intro other here
    by_cases moved : other = thr
    · rw [moved, self] at here
      exact .inl (takes here)
    · rw [others other moved] at here
      exact taking other moved here
  · intro other call here
    by_cases moved : other = thr
    · rw [moved, self] at here
      exact expects call here
    · rw [others other moved] at here
      exact orderly.expects other call here

theorem Orderly.quiet (orderly : Orderly before) (same : data.pc = before.pc)
    (flag : data.inProgress = before.inProgress) (calls : data.calls = before.calls)
    (results : data.results = before.results) (owed : data.owed = before.owed)
    (opens : new.opens = (before.pc thr).opens) (queued : new.queued = (before.pc thr).queued)
    (posted : new.posted = (before.pc thr).posted)
      (returning : new.returning = (before.pc thr).returning)
    (resetting : new.resetting = (before.pc thr).resetting) (sent : new.sent = (before.pc thr).sent)
    (result : ∀ result, new.result = some result → (before.pc thr).result = some result)
    (popping : ∀ call, new = .callPop call → before.inProgress = false) (takes : new = .waitPop →
    before.inProgress = true) (expects : ∀ call, new ≠ .callSet call) :
      Orderly (data.goto thr new) := by
  refine orderly.goto same ?_ (.inr sent) ?_ ?_ ?_ ?_ ?_ ?_ ?_ ?_ ?_
  · intro _ _ _ balanced shift
    have ⟨one, places, still, flag_, resets⟩ := balanced
    obtain ⟨o, q, p, r, s⟩ := shift
    rw [opens] at o
    rw [queued] at q
    rw [posted] at p
    rw [returning] at r
    rw [resetting] at s
    have expecting : data.expecting = before.expecting := by
      rw [expecting, calls, expecting]
    exact balanced_of before.expecting before.owed.length before.results.length
      before.inProgress.toNat expecting (by rw [owed]) (by rw [results]) (by rw [flag]) (by omega)
  · intro call member _
    exact .inl (calls ▸ member)
  · intro number member
    exact orderly.owed number (owed ▸ member)
  · intro result_ here
    exact orderly.returning thr result_ (result result_ here)
  · intro result_ member
    exact orderly.results result_ (results ▸ member)
  · intro call here
    rw [flag]
    exact popping call here
  · intro other call here
    rw [flag]
    exact orderly.popping other call here
  · intro here
    rw [flag]
    exact takes here
  · intro other _ here
    rw [flag, calls]
    exact orderly.taking other here
  · intro call here
    exact absurd here (expects call)

@[simp] def Pc.underWay : Pc Body → Bool
  | .callAppend call | .callCallee call => !call.isVoid
  | .callSet _ | .callWait _ | .callPop _ => true
  | _ => false

theorem not_underWay (not : pc.underWay = false) :
    pc.opens = 0 ∧ pc.queued = 0 ∧ pc.posted = 0 := by
  cases pc <;> simp_all

section

variable (orderly : Orderly before)
include orderly

theorem callTest_orderly (here : before.pc thr = .callTest call) (alone : call.isVoid = false →
    ∀ other, (before.pc other).underWay = false) :
      Orderly (before.goto thr (.callAppend call)) := by
  cases void : call.isVoid with
  | true =>
    apply orderly.quiet rfl rfl rfl rfl rfl <;>
      simp [here, void]
  | false =>
    have nobody (other) := not_underWay (alone void other)
    refine orderly.goto rfl ?_ ?_ (fun _ member _ => .inl member) orderly.owed ?_
      orderly.results ?_ orderly.popping ?_ (fun other _ => orderly.taking other) ?_
    · intro _ _ totals ⟨_, _, _, _, _⟩ ⟨o, q, p, r, s⟩
      have opens := totals.opens.eq_zero fun other => (nobody other).1
      have queued := totals.queued.eq_zero fun other => (nobody other).2.1
      have posted := totals.posted.eq_zero fun other => (nobody other).2.2
      simp only [here, void, Pc.opens, Pc.queued, Pc.posted, Pc.returning, Pc.resetting,
        Bool.false_eq_true, if_false] at o q p r s
      constructor <;> omega
    all_goals simp [here]

theorem callAppend_orderly (here : before.pc thr = .callAppend call) :
    Orderly ({ before with calls := before.calls ++ [call] }.goto thr
      (if call.isVoid then .callCallee call else .callSet call)) := by
  have taking (other : Thread) (waits : before.pc other = .waitPop) : before.inProgress = true ∨
        ∃ first rest, before.calls ++ [call] = first :: rest ∧ first.isVoid = true := by
    rcases orderly.taking other waits with set | ⟨first, rest, queue, void⟩
    · exact .inl set
    · exact .inr ⟨first, rest ++ [call], by simp [queue], void⟩
  cases void : call.isVoid with
  | true =>
    refine orderly.goto rfl ?_ ?_ ?_ orderly.owed ?_ orderly.results ?_ orderly.popping ?_
      (fun other _ => taking other) ?_
    · intro census now _ ⟨one, places, still, flag, resets⟩ ⟨o, q, p, r, s⟩
      simp only [here, void, opens, queued, posted, returning, resetting, if_true] at o q p r s
      refine balanced_of before.expecting before.owed.length before.results.length
        before.inProgress.toNat ?_ rfl rfl rfl (by omega)
      simp [countP_append, void]
    · simp [here]
    · intro other member expecting
      rcases mem_append.mp member with old | last
      · exact .inl old
      · rw [mem_singleton.mp last, void] at expecting
        cases expecting
    all_goals simp
  | false =>
    refine orderly.goto rfl ?_ ?_ ?_ orderly.owed ?_ orderly.results ?_ orderly.popping ?_
      (fun other _ => taking other) ?_
    · intro _ _ _ ⟨_, _, _, _, _⟩ ⟨o, q, p, r, s⟩
      simp only [here, void, opens, queued, posted, returning, resetting, Bool.false_eq_true,
        if_false] at o q p r s
      refine balanced_of (before.expecting + 1) before.owed.length before.results.length
        before.inProgress.toNat ?_ rfl rfl rfl (by omega)
      simp [countP_append, void]
    · simp [here]
    · intro _ member _
      rcases mem_append.mp member with old | last
      · exact .inl old
      · exact .inr (by simp [mem_singleton.mp last])
    all_goals simp [void]

theorem Orderly.before_set (here : before.pc thr = .callSet call) :
    before.inProgress = false ∧ before.results = [] ∧ ∀ other call, before.pc other ≠
      .callPop call := by
  obtain ⟨_, totals, ⟨_, _, _, flag, _⟩⟩ := orderly.counted
  have queued := totals.queued.le thr
  simp only [here, Pc.queued] at queued
  refine ⟨?_, eq_nil_of_length_eq_zero (by omega), ?_⟩
  · cases set : before.inProgress with
    | false => rfl
    | true =>
      rw [set, Bool.toNat_true] at flag
      omega
  · intro other _ popping
    have posted := totals.posted.le other
    simp only [popping, Pc.posted] at posted
    omega

theorem callSet_orderly (here : before.pc thr = .callSet call) :
    Orderly ({ before with inProgress := true }.goto thr (.callCallee call)) := by
  have void := orderly.expects thr call here
  have ⟨clear, empty, nobody⟩ := orderly.before_set here
  refine orderly.goto rfl ?_ ?_ (fun _ member _ => .inl member) orderly.owed ?_
    orderly.results ?_ (fun other call popping => absurd popping (nobody other call)) ?_
    (fun _ _ _ => .inl rfl) ?_
  · intro _ _ _ ⟨_, places, _, flag, resets⟩ ⟨o, q, p, r, s⟩
    simp only [here, void, opens, queued, posted, returning, resetting, Bool.false_eq_true,
      if_false] at o q p r s
    rw [clear, Bool.toNat_false, empty, length_nil] at flag
    rw [empty, length_nil] at resets places
    exact balanced_of before.expecting before.owed.length 0 1 rfl rfl (congrArg length empty)
      rfl (by omega)
  all_goals simp [here, void]

theorem callCallee_orderly (here : before.pc thr = .callCallee call) :
    Orderly (before.goto thr (if call.isVoid then .idle else .callWait call)) := by
  cases void : call.isVoid with
  | true | false =>
    apply orderly.quiet rfl rfl rfl rfl rfl <;>
      simp [here, void]

theorem callWait_orderly (here : before.pc thr = .callWait call)
    (clear : before.inProgress = false) : Orderly (before.goto thr (.callPop call)) := by
  apply orderly.quiet rfl rfl rfl rfl rfl <;>
    simp [here, clear]

theorem waitTest_orderly (here : before.pc thr = .waitTest)
    (set : before.inProgress = true) : Orderly (before.goto thr .waitPop) := by
  apply orderly.quiet rfl rfl rfl rfl rfl <;>
    simp [here, set]

theorem Orderly.set_of_returning (here : (before.pc thr).returning = 1) :
    before.inProgress = true := by
  obtain ⟨_, totals, ⟨_, _, _, flag, _⟩⟩ := orderly.counted
  have returning := totals.returning.le thr
  simp only [here] at returning
  cases set : before.inProgress with
  | true => rfl
  | false =>
    rw [set, Bool.toNat_false] at flag
    omega

theorem returnCheck_orderly (here : before.pc thr = .returnCheck result) :
    Orderly (before.goto thr (.returnAppend result)) := by
  apply orderly.quiet rfl rfl rfl rfl rfl <;>
    simp [here]

theorem returnAppend_orderly (here : before.pc thr = .returnAppend result) :
    Orderly ({ before with results := before.results ++ [result] }.goto thr .returnSet) := by
  refine orderly.goto rfl ?_ ?_ (fun _ member _ => .inl member) orderly.owed ?_ ?_ ?_
    orderly.popping ?_ (fun other _ => orderly.taking other) ?_
  · intro _ _ _ ⟨_, _, _, _, _⟩ ⟨o, q, p, r, s⟩
    simp only [here, opens, queued, posted, returning, resetting] at o q p r s
    exact balanced_of before.expecting before.owed.length (before.results.length + 1)
      before.inProgress.toNat rfl rfl (length_append ..) rfl (by omega)
  · simp [here]
  · simp
  · intro other member
    rcases mem_append.mp member with old | last
    · exact orderly.results other old
    · rw [mem_singleton.mp last]
      exact orderly.returning thr result (by simp [here])
  all_goals simp

theorem Orderly.before_reset (here : before.pc thr = .returnSet) :
    before.inProgress = true ∧ ∀ call ∈ before.calls, call.isVoid = true := by
  obtain ⟨_, totals, ⟨_, _, _, flag, _⟩⟩ := orderly.counted
  have resetting := totals.resetting.le thr
  simp only [here, Pc.resetting] at resetting
  constructor
  · cases set : before.inProgress with
    | true => rfl
    | false =>
      rw [set, Bool.toNat_false] at flag
      omega
  · have nothing : before.expecting = 0 := by omega
    intro call member
    have void := countP_eq_zero.mp nothing call member
    simpa using void

theorem returnSet_orderly (here : before.pc thr = .returnSet)
    (attended : ∀ other, before.pc other = .waitPop →
    before.calls ≠ []) : Orderly ({ before with inProgress := false }.goto thr .idle) := by
  have ⟨set, void⟩ := orderly.before_reset here
  refine orderly.goto rfl ?_ ?_ (fun _ member _ => .inl member) orderly.owed ?_
    orderly.results (fun _ _ => rfl) (fun _ _ _ => rfl) ?_ ?_ ?_
  · intro _ _ totals ⟨_, _, _, flag, _⟩ ⟨o, q, p, r, s⟩
    have resetting := totals.resetting.le thr
    simp only [here, Pc.opens, Pc.queued, Pc.posted, Pc.returning, Pc.resetting]
      at o q p r s resetting
    rw [set, Bool.toNat_true] at flag
    exact balanced_of before.expecting before.owed.length before.results.length 0
      rfl rfl rfl rfl (by omega)
  · simp [here]
  · simp
  · simp
  · intro other _ waits
    right
    cases queue : before.calls with
    | nil => exact absurd queue (attended other waits)
    | cons first rest => exact ⟨first, rest, rfl, void first (by simp [queue])⟩
  · simp

theorem sendResult_orderly (idle : before.pc thr = .idle) (process : Word) (msg : Message Body)
    (owes : answers ∈ before.owed) : Orderly (before.sendResult thr process msg answers) := by
  have erased : (before.owed.erase answers).length + 1 = before.owed.length :=
    length_erase_add_one owes
  refine orderly.goto rfl ?_ ?_ (fun _ member _ => .inl member) ?_ ?_ orderly.results ?_
    orderly.popping ?_ (fun other _ => orderly.taking other) ?_
  · intro _ _ _ ⟨_, _, _, _, _⟩ ⟨o, q, p, r, s⟩
    simp only [idle, opens, queued, posted, returning, resetting] at o q p r s
    exact balanced_of before.expecting (before.owed.erase answers).length before.results.length
      before.inProgress.toNat rfl rfl rfl rfl (by omega)
  · simp [idle]
  · intro number member
    exact orderly.owed number (mem_of_mem_erase member)
  · intro result here
    obtain rfl : _ = result := by simpa using here
    exact orderly.owed answers owes
  all_goals simp

theorem popCall_orderly (here : before.pc thr = .waitPop) (queue : before.calls = call :: rest)
    (alone : ∀ other ≠ thr, before.pc other ≠ .waitPop) : Orderly (before.popCall thr) := by
  have later (other : Call Body) (member : other ∈ rest) : other ∈ before.calls := by
    simp [queue, member]
  unfold popCall
  rw [queue]
  dsimp only
  refine orderly.goto rfl ?_ ?_ (fun other member _ => .inl (later other member)) ?_ ?_
    orderly.results ?_ orderly.popping ?_ (fun other moved waits =>
      absurd waits (alone other moved)) ?_
  · intro _ _ _ ⟨_, _, _, flag, _⟩ ⟨o, q, p, r, s⟩
    simp only [here, opens, queued, posted, returning, resetting] at o q p r s
    cases void : call.isVoid with
    | true =>
      have same : before.expecting = rest.countP fun call => !call.isVoid := by
        simp [queue, void]
      exact balanced_of before.expecting before.owed.length before.results.length
        before.inProgress.toNat same.symm (by simp) rfl rfl (by omega)
    | false =>
      have one_ : before.expecting = (rest.countP fun call => !call.isVoid) + 1 := by
        simp [queue, void]
      have set : before.inProgress = true := by
        rcases orderly.taking thr here with set | ⟨first, _, same, isVoid⟩
        · exact set
        · obtain rfl : call = first := by simpa [queue] using (cons.inj (queue.symm.trans same)).1
          rw [void] at isVoid
          cases isVoid
      rw [set, Bool.toNat_true] at flag
      exact balanced_of (rest.countP fun call => !call.isVoid) (before.owed.length + 1)
        before.results.length 1 rfl (by simp) rfl (by simp [set]) (by omega)
  · simp [here]
  · intro number member
    cases void : call.isVoid with
    | true => exact orderly.owed number (by simpa [void] using member)
    | false =>
      have old : number ∈ before.owed ∨ number = call.number := by simpa [void] using member
      rcases old with old | rfl
      · exact orderly.owed number old
      · exact orderly.calls call (by simp [queue]) void
  all_goals simp

end

theorem sent_counts (sent : pc.sent = some call) : pc.queued + pc.posted = 1 := by
  cases pc with
  | callCallee other =>
    cases void : other.isVoid <;> simp_all
  | _ => simp_all

theorem Orderly.before_pop (orderly : Orderly before) (here : before.pc thr = .callPop call) :
    (∃ result, before.results = [result]) ∧ before.owed = [] ∧
      (∀ other ∈ before.calls, other.isVoid = true) ∧
    (∀ other, (before.pc other).returning = 0) ∧ ∀ other ≠ thr, (before.pc other).sent = none := by
  have clear := orderly.popping thr call here
  obtain ⟨_, totals, ⟨_, _, _, flag, _⟩⟩ := orderly.counted
  have posted := totals.posted.le thr
  simp only [here, Pc.posted] at posted
  rw [clear, Bool.toNat_false] at flag
  refine ⟨length_eq_one_iff.mp (by omega), eq_nil_of_length_eq_zero (by omega), ?_, ?_, ?_⟩
  · intro other member
    have nothing : before.expecting = 0 := by omega
    simpa using countP_eq_zero.mp nothing other member
  · intro other
    have returning := totals.returning.le other
    omega
  · intro other different
    by_contra sent
    obtain ⟨_, sent⟩ := ne_none_iff_exists'.mp sent
    -- two calls would be under way
    have share := sent_counts sent
    have queued := totals.queued.le other
    have both := totals.posted.add_le different
    have self : (before.pc thr).posted = 1 := by simp [here]
    omega

theorem result_counts (here : pc.result = some result) : pc.returning = 1 := by
  cases pc <;> simp_all

section

variable (orderly : Orderly before)
include orderly

theorem popResult_orderly (here : before.pc thr = .callPop call) :
    ∃ result, result.answers = call.number ∧
    (before.popResult thr call).received = before.received ++ [(call, result)] ∧
    (before.popResult thr call).asserted = before.asserted ∧
      Orderly (before.popResult thr call) := by
  obtain ⟨⟨result, only⟩, noneOwed, void, noneReturns, others⟩ := orderly.before_pop here
  have popped : before.popResult thr call =
      { before with results := [], received := before.received ++ [(call, result)] }.goto thr
        .idle := by
    rw [popResult, only]
  have answers : result.answers = call.number := by
    obtain ⟨other, sent, here_, number⟩ := orderly.results result (by simp [only])
    by_cases same : other = thr
    · rw [same, here] at here_
      obtain rfl : call = sent := by simpa using here_
      exact number.symm
    · rw [others other same] at here_
      cases here_
  refine ⟨result, answers, by rw [popped]; rfl, by rw [popped]; rfl, ?_⟩
  rw [popped]
  have moved (other : Thread) {pc : Pc Body} (busy : pc ≠ .idle)
      (now : update before.pc thr .idle other = pc) : before.pc other = pc := by
    by_cases same : other = thr
    · rw [same, update_self] at now
      exact absurd now.symm busy
    · rwa [update_of_ne same] at now
  constructor
  · obtain ⟨_, totals, ⟨_, places, _, flag, resets⟩⟩ := orderly.counted
    obtain ⟨now, after, ⟨o, q, p, r, s⟩⟩ := totals.goto thr .idle
    have clear := orderly.popping thr call here
    rw [clear, Bool.toNat_false, only, length_singleton] at flag
    rw [only, length_singleton] at places resets
    simp only [here, opens, queued, posted, returning, resetting] at o q p r s
    exact ⟨now, after, balanced_of before.expecting before.owed.length 0 0 rfl rfl rfl
      (congrArg Bool.toNat clear) (by omega)⟩
  · intro other member expecting
    rw [void other member] at expecting
    cases expecting
  · intro _ member
    rw [noneOwed] at member
    cases member
  · intro other _ returns
    have busy := result_counts returns
    by_cases same : other = thr
    · simp [goto, same] at returns
    · have nothing := noneReturns other
      simp only [goto, update_of_ne same] at busy
      omega
  · intro other member
    cases member
  · intro other call_ pops
    exact orderly.popping other call_ (moved other (by simp) pops)
  · intro other waits
    exact orderly.taking other (moved other (by simp) waits)
  · intro other call_ sets
    exact orderly.expects other call_ (moved other (by simp) sets)

theorem sendCall_orderly (idle : before.pc thr = .idle) (process : Word)
    (msg : Message Body) (isVoid : Bool) : Orderly (before.sendCall thr process msg isVoid) := by
  unfold sendCall
  split
  · dsimp only
    apply orderly.quiet <;>
      simp [idle]
  · exact orderly

theorem waitCall_orderly (idle : before.pc thr = .idle) : Orderly (before.goto thr .waitTest) := by
  apply orderly.quiet rfl rfl rfl rfl rfl <;>
    simp [idle]

omit [DecidableEq Thread] in
theorem fail_orderly : Orderly before.fail :=
  have ⟨census, totals, ⟨one, places, still, flag, resets⟩⟩ := orderly.counted
  ⟨⟨census, totals, one, places, still, flag, resets⟩, orderly.calls, orderly.owed,
    orderly.returning, orderly.results,
    orderly.popping, orderly.taking, orderly.expects⟩

end

end Steps

/-! Replies. -/

def Connection.Matched (conn : Connection Thread Body) : Prop :=
  ∀ pair ∈ conn.received, pair.2.answers = pair.1.number

def Pc.testing : Pc Body → Bool
  | .callTest call => !call.isVoid
  | _ => false

/-- No other call that expects a result is under way when such a call is tested. -/
def Connection.Alone (conn : Connection Thread Body) (thr : Thread) : Prop :=
  (conn.pc thr).testing = true → ∀ other, (conn.pc other).underWay = false

instance [Fintype Thread] (conn : Connection Thread Body) (thr : Thread) :
    Decidable (conn.Alone thr) :=
  inferInstanceAs (Decidable ((conn.pc thr).testing = true → ∀ other,
    (conn.pc other).underWay = false))

def Connection.TakesAlone (conn : Connection Thread Body) (thr : Thread) : Prop :=
  conn.pc thr = .waitPop → ∀ other ≠ thr, conn.pc other ≠ .waitPop

def Connection.ResetsAttended (conn : Connection Thread Body) (thr : Thread) : Prop :=
  conn.pc thr = .returnSet → ∀ other, conn.pc other = .waitPop → conn.calls ≠ []

theorem advance_orderly (orderly : Orderly before) (matched : before.Matched)
    (advanced : before.advance thr calleeExists = some after) (alone : before.Alone thr)
    (takes : before.TakesAlone thr) (resets : before.ResetsAttended thr) : Orderly after ∧
      after.Matched := by
  unfold advance at advanced
  generalize here : before.pc thr = place at advanced
  cases place with
  | idle => cases advanced
  | callTest call =>
    obtain ⟨_, ⟨⟩⟩ := ite_none_left_eq_some.mp advanced
    refine ⟨callTest_orderly orderly here ?_, matched⟩
    intro void
    exact alone (by simp [here, testing, void])
  | callAppend call =>
    cases advanced
    exact ⟨callAppend_orderly orderly here, matched⟩
  | callSet call =>
    cases advanced
    exact ⟨callSet_orderly orderly here, matched⟩
  | callCallee call =>
    dsimp only at advanced
    split at advanced
    · cases advanced
      exact ⟨callCallee_orderly orderly here, matched⟩
    · cases advanced
      exact ⟨fail_orderly orderly, matched⟩
  | callWait call =>
    obtain ⟨clear, ⟨⟩⟩ := ite_none_left_eq_some.mp advanced
    exact ⟨callWait_orderly orderly here (by simpa using clear), matched⟩
  | callPop call =>
    cases advanced
    obtain ⟨result, answers, received, _, after⟩ := popResult_orderly orderly here
    refine ⟨after, ?_⟩
    intro pair member
    rw [received] at member
    rcases mem_append.mp member with old | last
    · exact matched pair old
    · rw [mem_singleton.mp last]
      exact answers
  | waitTest =>
    obtain ⟨set, ⟨⟩⟩ := ite_none_right_eq_some.mp advanced
    exact ⟨waitTest_orderly orderly here set, matched⟩
  | waitPop =>
    cases advanced
    cases queue : before.calls with
    | nil =>
      rw [popCall, queue]
      exact ⟨fail_orderly orderly, matched⟩
    | cons =>
      refine ⟨popCall_orderly orderly here queue (takes here), ?_⟩
      rw [popCall, queue]
      exact matched
  | returnCheck result =>
    dsimp only at advanced
    split at advanced
    · cases advanced
      exact ⟨returnCheck_orderly orderly here, matched⟩
    · cases advanced
      exact ⟨fail_orderly orderly, matched⟩
  | returnAppend =>
    cases advanced
    exact ⟨returnAppend_orderly orderly here, matched⟩
  | returnSet =>
    cases advanced
    exact ⟨returnSet_orderly orderly here (resets here), matched⟩

/-! Which function a thread is in. -/

inductive Role where
  | none
  | call
  | wait
  | reply
  deriving DecidableEq

@[simp] def Pc.role : Pc Body → Role
  | .idle => .none
  | .callTest _ | .callAppend _ | .callSet _ | .callCallee _ | .callWait _ | .callPop _ => .call
  | .waitTest | .waitPop => .wait
  | .returnCheck _ | .returnAppend _ | .returnSet => .reply

theorem isIdle_iff : pc.isIdle = true ↔ pc = .idle := by
  cases pc <;> simp [isIdle]

/-- What one thread does leaves the processes of the connection and the place of
all other threads. -/
structure OnlyMoves (thr : Thread) (new : Pc Body) (before after : Connection Thread Body) :
    Prop where
  pc : after.pc = update before.pc thr new
  callerPid : after.callerPid = before.callerPid
  calleePid : after.calleePid = before.calleePid

theorem advance_role {before} (advanced : before.advance thr calleeExists = some after) :
    ∃ new, OnlyMoves thr new before after ∧ (new = .idle ∨ new.role = (before.pc thr).role) := by
  have stays : ∃ new, OnlyMoves thr new before before.fail ∧
      (new = .idle ∨ new.role = (before.pc thr).role) :=
    ⟨before.pc thr, ⟨(update_eq_self ..).symm, rfl, rfl⟩, .inr rfl⟩
  unfold advance at advanced
  generalize here : before.pc thr = place at advanced
  cases place with
  | idle => cases advanced
  | callTest call =>
    obtain ⟨_, ⟨⟩⟩ := ite_none_left_eq_some.mp advanced
    exact ⟨.callAppend call, ⟨rfl, rfl, rfl⟩, .inr rfl⟩
  | callAppend call =>
    cases advanced
    refine ⟨if call.isVoid then .callCallee call else .callSet call, ⟨rfl, rfl, rfl⟩, .inr ?_⟩
    split <;> rfl
  | callSet call =>
    cases advanced
    exact ⟨.callCallee call, ⟨rfl, rfl, rfl⟩, .inr rfl⟩
  | callCallee call =>
    dsimp only at advanced
    split at advanced
    · cases advanced
      refine ⟨if call.isVoid then .idle else .callWait call, ⟨rfl, rfl, rfl⟩, ?_⟩
      split
      · exact .inl rfl
      · exact .inr rfl
    · cases advanced
      exact here ▸ stays
  | callWait call =>
    obtain ⟨_, ⟨⟩⟩ := ite_none_left_eq_some.mp advanced
    exact ⟨.callPop call, ⟨rfl, rfl, rfl⟩, .inr rfl⟩
  | callPop call =>
    simp only [Option.some.injEq, popResult] at advanced
    split at advanced
    · subst advanced
      exact here ▸ stays
    · subst advanced
      exact ⟨.idle, ⟨rfl, rfl, rfl⟩, .inl rfl⟩
  | waitTest =>
    obtain ⟨_, ⟨⟩⟩ := ite_none_right_eq_some.mp advanced
    exact ⟨.waitPop, ⟨rfl, rfl, rfl⟩, .inr rfl⟩
  | waitPop =>
    simp only [Option.some.injEq, popCall] at advanced
    split at advanced
    · subst advanced
      exact here ▸ stays
    · subst advanced
      exact ⟨.idle, ⟨rfl, rfl, rfl⟩, .inl rfl⟩
  | returnCheck result =>
    dsimp only at advanced
    split at advanced
    · cases advanced
      exact ⟨.returnAppend result, ⟨rfl, rfl, rfl⟩, .inr rfl⟩
    · cases advanced
      exact here ▸ stays
  | returnAppend =>
    cases advanced
    exact ⟨.returnSet, ⟨rfl, rfl, rfl⟩, .inr rfl⟩
  | returnSet =>
    cases advanced
    exact ⟨.idle, ⟨rfl, rfl, rfl⟩, .inl rfl⟩

/-- Nobody but the thread of the operation moves, and it enters the wait for a
call by `rpc_wait_call`. -/
theorem next_waits {before : Connection Thread Body} (next : before.next op = some after)
    (waits : (after.pc thr).role = .wait) : (before.pc thr).role = .wait ∨ op = .waitCall thr := by
  have ⟨_, moved⟩ := ite_none_left_eq_some.mp next
  have goes (mover : Thread) (new : Pc Body) (now : after.pc = update before.pc mover new)
      (role : new.role ≠ .wait ∨ new.role = (before.pc mover).role) :
      (before.pc thr).role = .wait := by
    rw [now] at waits
    by_cases same : thr = mover
    · subst same
      rw [update_self] at waits
      rcases role with other | kept
      · exact absurd waits other
      · exact kept ▸ waits
    · rwa [update_of_ne same] at waits
  cases op with
  | sendCall mover process msg =>
    obtain ⟨_, ⟨⟩⟩ := ite_none_right_eq_some.mp moved
    left
    unfold sendCall at goes waits
    split at goes
    · exact goes mover (.callTest _) rfl (.inl (by simp))
    · next other => simpa [other] using waits
  | sendResult mover =>
    obtain ⟨_, ⟨⟩⟩ := ite_none_right_eq_some.mp moved
    exact .inl (goes mover (.returnCheck _) rfl (.inl (by simp)))
  | waitCall mover =>
    obtain ⟨_, ⟨⟩⟩ := ite_none_right_eq_some.mp moved
    by_cases same : thr = mover
    · exact .inr (same ▸ rfl)
    · left
      simpa [goto, update_of_ne same] using waits
  | advance mover =>
    obtain ⟨new, now, kept⟩ := advance_role moved
    refine .inl (goes mover new now.pc ?_)
    rcases kept with idle | same
    · exact .inl (by simp [idle])
    · exact .inr same

theorem next_pids {before : Connection Thread Body} (next : before.next op = some after) :
    after.callerPid = before.callerPid ∧ after.calleePid = before.calleePid := by
  have ⟨_, moved⟩ := ite_none_left_eq_some.mp next
  cases op with
  | sendCall thr process msg =>
    obtain ⟨_, ⟨⟩⟩ := ite_none_right_eq_some.mp moved
    unfold sendCall
    split <;> exact ⟨rfl, rfl⟩
  | sendResult thr process msg answers | waitCall thr =>
    obtain ⟨_, ⟨⟩⟩ := ite_none_right_eq_some.mp moved
    exact ⟨rfl, rfl⟩
  | advance =>
    obtain ⟨_, moves, _⟩ := advance_role moved
    exact ⟨moves.callerPid, moves.calleePid⟩

end Nx.RpcConnection
