import Nx.RpcConnection

/-!
Replies on one rpc connection: threads of the caller make calls with and without
results, and one thread of the callee takes calls and answers each one that
expects a result.
-/

namespace Nx.RpcReplies

open Words Transitions RpcConnection Option Connection

variable {Thread Body : Type} [DecidableEq Thread]

/-- The caller's threads call, the callee's thread waits and returns, and it
returns one result for each call handed to it that expects one. -/
def Plays (callee : Thread) (conn : Connection Thread Body) : Op Thread Body → Prop
  | .sendCall thr process _ _ => thr ≠ callee ∧ process = conn.callerPid
  | .sendResult thr _ _ answers => thr = callee ∧ answers ∈ conn.owed
  | .waitCall thr => thr = callee
  | .advance _ _ => True

instance (callee : Thread) (conn : Connection Thread Body) (op : Op Thread Body) :
    Decidable (Plays callee conn op) := by
  unfold Plays
  split <;> infer_instance

def Step (callee : Thread) (before : Connection Thread Body) (op : Op Thread Body)
    (after : Connection Thread Body) : Prop :=
  before.next op = some after ∧ Plays callee before op

/-- A call that expects a result passes its test only while no other such call is
under way. -/
def CallsAlone (move : Move (Connection Thread Body) (Op Thread Body)) : Prop :=
  match move.label with
  | .advance thr _ => move.before.Alone thr
  | _ => True

instance [Fintype Thread] (move : Move (Connection Thread Body) (Op Thread Body)) :
    Decidable (CallsAlone move) := by
  unfold CallsAlone
  split <;> infer_instance

structure Served (callee : Thread) (conn : Connection Thread Body) : Prop where
  orderly : Orderly conn
  matched : conn.Matched
  roles : ∀ thr, (conn.pc thr).role = .wait ∨ (conn.pc thr).role = .reply → thr = callee

omit [DecidableEq Thread] in
theorem create_served (callee : Thread) (callerPid calleePid : Word) :
    Served callee (create callerPid calleePid : Connection Thread Body) where
  orderly := create_orderly callerPid calleePid
  matched := by
    simp [Matched]
  roles := by
    intro _ serves
    simp at serves

section Steps

variable {before after : Connection Thread Body}

theorem Served.roles_goto (served : Served callee before) (new : Pc Body)
    (moved : after.pc = Function.update before.pc thr new) (serves : new.role = .wait ∨
      new.role = .reply →
    thr = callee) : ∀ other, (after.pc other).role = .wait ∨ (after.pc other).role = .reply →
      other = callee := by
  intro other now
  rw [moved] at now
  by_cases same : other = thr
  · subst same
    rw [Function.update_self] at now
    exact serves now
  · rw [Function.update_of_ne same] at now
    exact served.roles other now

theorem advance_served (served : Served callee before)
    (advanced : before.advance thr calleeExists = some after) (alone : before.Alone thr) :
      Served callee after := by
  have one (other : Thread) (role : Role) (serves : role = .wait ∨ role = .reply)
      (here : (before.pc other).role = role) : other = callee :=
    served.roles other (here ▸ serves)
  -- the one thread of the callee is in one place at a time
  have takes : before.TakesAlone thr := by
    intro here other different waits
    apply different
    rw [one other .wait (.inl rfl) (by rw [waits]; rfl), one thr .wait (.inl rfl)
      (by rw [here]; rfl)]
  have resets : before.ResetsAttended thr := by
    intro here other waits
    have same : other = thr := by
      rw [one other .wait (.inl rfl) (by rw [waits]; rfl), one thr .reply (.inr rfl)
        (by rw [here]; rfl)]
    rw [same, here] at waits
    cases waits
  obtain ⟨orderly, matched⟩ := advance_orderly served.orderly served.matched advanced alone
      takes resets
  obtain ⟨new, moved, kept⟩ := advance_role advanced
  refine ⟨orderly, matched, served.roles_goto new moved.pc ?_⟩
  intro serves
  rcases kept with idle | same
  · simp [idle] at serves
  · exact served.roles thr (same ▸ serves)

theorem step_served (served : Served callee before) (step : Step callee before op after)
    (alone : CallsAlone ⟨before, op, after⟩) : Served callee after := by
  obtain ⟨next, plays⟩ := step
  obtain ⟨_, moved⟩ := ite_none_left_eq_some.mp next
  cases op with
  | sendCall thr process msg isVoid =>
    obtain ⟨idle, begun⟩ := ite_none_right_eq_some.mp moved
    have idle := isIdle_iff.mp idle
    cases begun
    refine ⟨sendCall_orderly served.orderly idle process msg isVoid, ?_, ?_⟩
    · unfold sendCall
      split
      · exact served.matched
      · exact served.matched
    · unfold sendCall
      rw [if_pos plays.2]
      exact served.roles_goto (.callTest _) rfl (by simp)
  | sendResult thr process msg =>
    obtain ⟨idle, ⟨⟩⟩ := ite_none_right_eq_some.mp moved
    exact ⟨sendResult_orderly served.orderly (isIdle_iff.mp idle) process msg plays.2,
      served.matched, served.roles_goto _ rfl fun _ => plays.1⟩
  | waitCall thr =>
    obtain ⟨idle, ⟨⟩⟩ := ite_none_right_eq_some.mp moved
    exact ⟨waitCall_orderly served.orderly (isIdle_iff.mp idle), served.matched,
      served.roles_goto _ rfl fun _ => plays⟩
  | advance => exact advance_served served moved alone

end Steps

/-- If no two calls that expect results are under way together, every call that
returns has the result that was made for it. -/
theorem replies_matched (callee : Thread) (callerPid calleePid : Word)
    {last : Connection Thread Body}
    {moves : List (Move (Connection Thread Body) (Op Thread Body))}
    (run : Run (Step callee) (create callerPid calleePid) moves last)
      (alone : ∀ move ∈ moves, CallsAlone move) :
    ∀ conn ∈ visited (create callerPid calleePid) moves, conn.Matched := by
  have served := run_guarded (Served callee) CallsAlone (fun _ served step alone =>
      step_served served step alone) run
    (create_served callee callerPid calleePid) alone
  intro conn reached
  exact (served conn reached).matched

def play (callee : Thread) (conn : Connection Thread Body) (op : Op Thread Body) :
    Option (Connection Thread Body) :=
  if Plays callee conn op then conn.next op else none

theorem play_step (callee : Thread) (before : Connection Thread Body) (op : Op Thread Body)
    (after : Connection Thread Body) (played : play callee before op = some after) :
      Step callee before op after := by
  obtain ⟨plays, next⟩ := ite_none_right_eq_some.mp played
  exact ⟨next, plays⟩

local instance neZero_three : NeZero 3 := ⟨by decide⟩

/-- Two callers, the callee is thread 0. The first call is answered before the
second one is tested, with a call without a result in between. -/
def inTurn : List (Op (Fin 3) Nat) :=
  [.sendCall 1 7 ⟨0, 0, 0, 10⟩ false, .advance 1 true, .advance 1 true, .advance 1 true,
    .advance 1 true, .waitCall 0, .advance 0 true, .advance 0 true,
    .sendResult 0 9 ⟨0, 0, 0, 11⟩ 0, .advance 0 true, .advance 0 true, .advance 0 true,
    .sendCall 2 7 ⟨0, 0, 0, 20⟩ true, .advance 2 true, .advance 2 true, .advance 2 true,
    .advance 1 true, .advance 1 true, .sendCall 2 7 ⟨0, 0, 0, 30⟩ false, .advance 2 true]

theorem replies_matched_in_turn : ∃ moves last, Run (Step 0) (create 7 9 : Connection (Fin 3) Nat)
    moves last ∧
    moves.length = 20 ∧ last.received.length = 1 ∧ ∀ conn ∈ visited (create 7 9) moves,
      conn.Matched := by
  have run : Run (Step (0 : Fin 3)) (create 7 9) _ _ :=
    trace_run (play 0) (play_step 0) (create 7 9) inTurn
  exact ⟨_, _, run, by decide, by decide, replies_matched 0 7 9 run (by decide)⟩

def bothTest : List (Op (Fin 3) Nat) :=
  [.sendCall 1 7 ⟨0, 0, 0, 10⟩ false, .sendCall 2 7 ⟨0, 0, 0, 20⟩ false, .advance 1 true,
    .advance 2 true, .advance 1 true, .advance 2 true, .advance 1 true, .advance 2 true,
    .advance 1 true, .advance 2 true, .waitCall 0, .advance 0 true, .advance 0 true,
    .sendResult 0 9 ⟨0, 0, 0, 11⟩ 0, .advance 0 true, .advance 0 true, .advance 0 true,
    .advance 2 true, .advance 2 true]

/-- The second call returns with the result for the first one. -/
theorem reply_mismatched : ∃ moves last, Run (Step 0) (create 7 9 : Connection (Fin 3) Nat)
    moves last ∧
    last.received.map (fun pair => (pair.1.number, pair.2.answers)) = [(1, 0)] ∧
      ¬ last.Matched := by
  let trail := trace (play 0) (create 7 9 : Connection (Fin 3) Nat) bothTest
  have run : Run (Step 0) (create 7 9) trail.1 trail.2 :=
    trace_run (play 0) (play_step 0) _ _
  refine ⟨trail.1, trail.2, run, by decide, ?_⟩
  unfold Matched
  decide

end Nx.RpcReplies
