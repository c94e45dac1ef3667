import Nx.Words
import Nx.Transitions
import Nx.Blocking
import Nx.Shares

/-!
`semaphore<uint64_t>` and `wait_queue`, kernel/include/synchro.h, over any number of threads.
-/

namespace Nx.Semaphores

open Words Transitions Blocking Shares Function Option

variable {Thread Item : Type} [DecidableEq Thread]

/-! The semaphore. -/

inductive SemPc where
  | idle
  | notify (num : Word)
  | incrWaiters
  | block
  | blocked
  deriving DecidableEq

/-- `posted` and `completed` record the sum of the posts and the number of waits
that have returned. -/
structure Sem (Thread : Type) where
  value : Word
  waiters : Word
  sched : Sched Thread Unit
  pc : Thread → SemPc
  posted : Nat
  completed : Nat

inductive SemOp (Thread : Type) where
  | post (thr : Thread) (num : Word)
  | wait (thr : Thread)
  | advance (thr : Thread)

def Sem.init (initial : Word) : Sem Thread := ⟨initial, 0, .init, fun _ => .idle, 0, 0⟩

section Sems

variable (sem : Sem Thread)

def Sem.goto (thr : Thread) (pc : SemPc) : Sem Thread :=
  { sem with pc := update sem.pc thr pc }

def Sem.post (thr : Thread) (num : Word) : Sem Thread :=
  { sem with value := sem.value + num, posted := sem.posted + num.toNat }.goto thr (.notify num)

def Sem.take (thr : Thread) : Sem Thread :=
  { sem with value := sem.value - 1, completed := sem.completed + 1 }.goto thr .idle

def Sem.wait (thr : Thread) : Sem Thread :=
  if sem.value > 0 then sem.take thr else sem.goto thr .incrWaiters

def Sem.advance (thr : Thread) : Option (Sem Thread) :=
  match sem.pc thr with
  | .idle => none
  | .notify num => some ({ sem with sched := sem.sched.notify () (num > 1) }.goto thr .idle)
  | .incrWaiters => some ({ sem with waiters := sem.waiters + 1 }.goto thr .block)
  | .block => some ({ sem with sched := sem.sched.block () thr }.goto thr .blocked)
  | .blocked =>
    if sem.sched.state thr = .blockedOnCondition then none
    else some ({ sem with waiters := sem.waiters - 1 }.take thr)

def Sem.next : SemOp Thread → Option (Sem Thread)
  | .post thr num => if sem.pc thr = .idle then some (sem.post thr num) else none
  | .wait thr => if sem.pc thr = .idle then some (sem.wait thr) else none
  | .advance thr => sem.advance thr

def SemStep (before : Sem Thread) (op : SemOp Thread) (after : Sem Thread) : Prop :=
  before.next op = some after

/-! Grants. -/

/-- A wait that completes takes one off the value, and no more waits have
completed than were posted. -/
structure Granted (initial : Word) (before after : Sem Thread) : Prop where
  taken : after.completed = before.completed + 1 → after.value.toNat + 1 = before.value.toNat
  bounded : after.completed ≤ initial.toNat + after.posted

def Sem.Stocked (thr : Thread) : Prop := sem.pc thr = .blocked → sem.value ≠ 0
  deriving Decidable

end Sems

def SemStocked (move : Move (Sem Thread) (SemOp Thread)) : Prop :=
  match move.label with
  | .post _ _ => True
  | .wait _ => True
  | .advance thr => move.before.Stocked thr

instance (move : Move (Sem Thread) (SemOp Thread)) : Decidable (SemStocked move) := by
  unfold SemStocked
  split <;> infer_instance

def Covered (initial : Word) (sem : Sem Thread) : Prop :=
  sem.value.toNat + sem.completed ≤ initial.toNat + sem.posted

inductive Effect (before after : Sem Thread) : Prop where
  | none : after.value = before.value → after.posted = before.posted →
      after.completed = before.completed → Effect before after
  | post (num : Word) : after.value = before.value + num →
      after.posted = before.posted + num.toNat → after.completed = before.completed →
      Effect before after
  | take : after.value = before.value - 1 → after.posted = before.posted →
      after.completed = before.completed + 1 → Effect before after

section Steps

variable {before after : Sem Thread}

omit [DecidableEq Thread] in
theorem covered_granted (covered : Covered initial before) (effect : Effect before after)
    (stocked : after.completed = before.completed + 1 → before.value ≠ 0) :
    Covered initial after ∧ Granted initial before after := by
  unfold Covered at covered ⊢
  have step : after.value.toNat + after.completed ≤ initial.toNat + after.posted ∧
      (after.completed = before.completed + 1 → after.value.toNat + 1 = before.value.toNat) := by
    cases effect with
    | none value posted completed =>
      rw [value, posted, completed]
      omega
    | post num value posted completed =>
      have wrap : (before.value + num).toNat ≤ before.value.toNat + num.toNat := by
        rw [BitVec.toNat_add]
        exact Nat.mod_le _ _
      rw [value, posted, completed]
      omega
    | take value posted completed =>
      have positive : 0 < before.value.toNat := by
        have nonzero := stocked completed
        bv_omega
      have taken : (before.value - 1).toNat + 1 = before.value.toNat := by
        bv_omega
      rw [value, posted, completed]
      omega
  exact ⟨step.1, step.2, by omega⟩

omit [DecidableEq Thread] in
theorem stocked_of_granted (granted : Granted initial before after)
    (completed : after.completed = before.completed + 1) : before.value ≠ 0 := by
  intro empty
  have taken := granted.taken completed
  rw [empty] at taken
  simp at taken

theorem take_effect : Effect before (before.take thr) := .take rfl rfl rfl

theorem wait_effect : Effect before (before.wait thr) ∧
    ((before.wait thr).completed = before.completed + 1 →
    before.value ≠ 0) := by
  unfold Sem.wait
  split
  · next positive =>
    refine ⟨take_effect, ?_⟩
    intro _ empty
    simp [empty] at positive
  · refine ⟨.none rfl rfl rfl, ?_⟩
    intro completed
    simp [Sem.goto] at completed

theorem advance_effect (advanced : before.advance thr = some after) :
    Effect before after ∧ (before.Stocked thr ↔
    (after.completed = before.completed + 1 → before.value ≠ 0)) := by
  unfold Sem.advance at advanced
  have elsewhere (other : before.pc thr ≠ .blocked) (same : after.completed = before.completed) :
      before.Stocked thr ↔ (after.completed = before.completed + 1 → before.value ≠ 0) := by
    apply iff_of_true (fun here => absurd here other)
    intro _
    omega
  generalize here : before.pc thr = place at advanced
  cases place with
  | idle => cases advanced
  | notify num | incrWaiters | block =>
    cases advanced
    exact ⟨.none rfl rfl rfl, elsewhere (by simp [here]) rfl⟩
  | blocked =>
    obtain ⟨_, ⟨⟩⟩ := ite_none_left_eq_some.mp advanced
    exact ⟨.take rfl rfl rfl, ⟨fun stocked _ => stocked here, fun stocked _ => stocked rfl⟩⟩

theorem step_effect (step : SemStep before op after) :
    Effect before after ∧ (SemStocked ⟨before, op, after⟩ ↔
    (after.completed = before.completed + 1 → before.value ≠ 0)) := by
  cases op with
  | post thr num =>
    obtain ⟨_, ⟨⟩⟩ := ite_none_right_eq_some.mp step
    refine ⟨.post num rfl rfl rfl, iff_of_true trivial ?_⟩
    intro completed
    simp [Sem.post, Sem.goto] at completed
  | wait thr =>
    obtain ⟨_, ⟨⟩⟩ := ite_none_right_eq_some.mp step
    exact ⟨wait_effect.1, iff_of_true trivial wait_effect.2⟩
  | advance => exact advance_effect step

theorem semaphore_granted_iff {last : Sem Thread} {moves : List (Move (Sem Thread) (SemOp Thread))}
    (run : Run SemStep (Sem.init initial) moves last) :
    (∀ move ∈ moves, Granted initial move.before move.after) ↔ ∀ move ∈ moves, SemStocked move := by
  refine run_exact (Covered initial) SemStocked (fun move => Granted initial move.before move.after)
    ?_ ?_ run (Nat.le_refl _)
  · intro move covered step stocked
    have ⟨effect, stock⟩ := step_effect step
    exact covered_granted covered effect (stock.mp stocked)
  · intro _ _ step granted
    exact (step_effect step).2.mpr (stocked_of_granted granted)

end Steps

/-! The queue. -/

inductive QueuePc (Item : Type) where
  | idle
  | append (x : Item) (quiet : Bool)
  | post
  | incrPending
  | notifyPending (tmp : Word)
  | popping
  deriving DecidableEq

def QueuePc.isIdle : QueuePc Item → Bool
  | .idle => true
  | _ => false

/-- `appended` and `popped` record the past, and `aborted` is set when the front
of an empty queue was asked for. -/
structure WaitQueue (Thread Item : Type) where
  sem : Sem Thread
  queue : List Item
  pendingNotifies : Word
  pc : Thread → QueuePc Item
  appended : Nat
  popped : Nat
  aborted : Bool

open WaitQueue hiding pc

inductive Call (Item : Type) where
  | push (x : Item)
  | pushIfWaiting (x : Item)
  | pushQuiet (x : Item)
  | notifyPending
  | pop

inductive Op (Thread Item : Type) where
  | call (thr : Thread) (function : Call Item)
  | advance (thr : Thread)

def WaitQueue.init : WaitQueue Thread Item :=
  ⟨.init 0, [], 0, fun _ => .idle, 0, 0, false⟩

section Queues

variable (wq : WaitQueue Thread Item)

def WaitQueue.goto (thr : Thread) (pc : QueuePc Item) : WaitQueue Thread Item :=
  { wq with pc := update wq.pc thr pc }

def WaitQueue.call (thr : Thread) : Call Item → WaitQueue Thread Item
  | .push x => wq.goto thr (.append x false)
  | .pushIfWaiting x => if wq.sem.waiters = 0 then wq else wq.goto thr (.append x false)
  | .pushQuiet x => wq.goto thr (.append x true)
  | .notifyPending => { wq with pendingNotifies := 0 }.goto thr (.notifyPending wq.pendingNotifies)
  | .pop => { wq with sem := wq.sem.wait thr }.goto thr .popping

def WaitQueue.popFront (thr : Thread) : WaitQueue Thread Item :=
  match wq.queue with
  | [] => { wq with aborted := true }
  | _ :: rest => { wq with queue := rest, popped := wq.popped + 1 }.goto thr .idle

def WaitQueue.advance (thr : Thread) : Option (WaitQueue Thread Item) :=
  if wq.sem.pc thr = .idle then
    match wq.pc thr with
    | .idle => none
    | .append x quiet =>
      some ({ wq with queue := wq.queue ++ [x], appended := wq.appended + 1 }.goto thr
        (if quiet then .incrPending else .post))
    | .post => some ({ wq with sem := wq.sem.post thr 1 }.goto thr .idle)
    | .incrPending => some ({ wq with pendingNotifies := wq.pendingNotifies + 1 }.goto thr .idle)
    | .notifyPending tmp => some ({ wq with sem := wq.sem.post thr tmp }.goto thr .idle)
    | .popping => some (wq.popFront thr)
  else (wq.sem.advance thr).map fun sem => { wq with sem }

def WaitQueue.next (op : Op Thread Item) : Option (WaitQueue Thread Item) :=
  if wq.aborted then none
  else match op with
  | .call thr function =>
    if (wq.pc thr).isIdle ∧ wq.sem.pc thr = .idle then some (wq.call thr function) else none
  | .advance thr => wq.advance thr

end Queues

def Step (before : WaitQueue Thread Item) (op : Op Thread Item) (after : WaitQueue Thread Item) :
    Prop :=
  before.next op = some after

/-- The steps of the semaphore grant what was posted, and no pop asks an empty
queue for its front. -/
def QueueGranted (move : Move (WaitQueue Thread Item) (Op Thread Item)) : Prop :=
  Granted 0 move.before.sem move.after.sem ∧ move.after.aborted = false

def QueueStocked (move : Move (WaitQueue Thread Item) (Op Thread Item)) : Prop :=
  match move.label with
  | .call _ _ => True
  | .advance thr => move.before.sem.Stocked thr

instance (move : Move (WaitQueue Thread Item) (Op Thread Item)) :
    Decidable (QueueStocked move) := by
  unfold QueueStocked
  split <;> infer_instance

/-! Every post is for an item that was appended, every pop for a wait that has
completed. -/

@[simp] def QueuePc.owes : QueuePc Item → Nat
  | .post => 1
  | .incrPending => 1
  | .notifyPending tmp => tmp.toNat
  | _ => 0

def holds : SemPc → QueuePc Item → Nat
  | .idle, .popping => 1
  | _, _ => 0

@[simp] def WaitQueue.owed (wq : WaitQueue Thread Item) (thr : Thread) : Nat := (wq.pc thr).owes

def WaitQueue.held (wq : WaitQueue Thread Item) (thr : Thread) : Nat :=
  holds (wq.sem.pc thr) (wq.pc thr)

def Staged : SemPc → QueuePc Item → Prop
  | .idle, _ => True
  | .notify _, pc => pc = .idle
  | _, pc => pc = .popping

structure Kept (wq : WaitQueue Thread Item) : Prop where
  running : wq.aborted = false
  covered : Covered 0 wq.sem
  staged : ∀ thr, Staged (wq.sem.pc thr) (wq.pc thr)
  length : wq.queue.length + wq.popped = wq.appended
  posts : ∃ total, Total wq.owed total ∧ wq.sem.posted + total + wq.pendingNotifies.toNat ≤
    wq.appended
  pops : ∃ total, Total wq.held total ∧ wq.popped + total = wq.sem.completed

omit [DecidableEq Thread] in
theorem init_kept : Kept (init : WaitQueue Thread Item) where
  running := rfl
  covered := Nat.le_refl _
  staged _ := trivial
  length := rfl
  posts := ⟨0, total_zero, Nat.le_refl _⟩
  pops := ⟨0, total_zero, rfl⟩

section QueueSteps

variable {before after : WaitQueue Thread Item}

theorem Kept.change (kept : Kept before) (thr : Thread)
    (others : ∀ other ≠ thr, after.pc other = before.pc other ∧ after.sem.pc other =
      before.sem.pc other)
    (running : after.aborted = false) (covered : Covered 0 after.sem)
    (staged : Staged (after.sem.pc thr) (after.pc thr))
      (length : after.queue.length + after.popped = after.appended)
    (posts : after.sem.posted + after.owed thr + after.pendingNotifies.toNat + before.appended ≤
      before.sem.posted + before.owed thr + before.pendingNotifies.toNat + after.appended)
    (pops : after.popped + after.held thr + before.sem.completed =
      before.popped + before.held thr + after.sem.completed) : Kept after := by
  refine ⟨running, covered, ?_, length, ?_, ?_⟩
  · intro other
    by_cases same : other = thr
    · exact same ▸ staged
    · rw [(others other same).1, (others other same).2]
      exact kept.staged other
  · obtain ⟨total, held, _⟩ := kept.posts
    have share := held.le thr
    refine ⟨total - before.owed thr + after.owed thr, held.change thr ?_ ?_, ?_⟩
    · intro other different
      simp only [owed, (others other different).1]
    · omega
    · omega
  · obtain ⟨total, held, _⟩ := kept.pops
    have share := held.le thr
    refine ⟨total - before.held thr + after.held thr, held.change thr ?_ ?_, ?_⟩
    · intro other different
      simp only [WaitQueue.held, (others other different).1, (others other different).2]
    · omega
    · omega

theorem Kept.nonempty (kept : Kept before) (idle : before.sem.pc thr = .idle)
    (popping : before.pc thr = .popping) : 0 < before.queue.length := by
  obtain ⟨_, _, _⟩ := kept.posts
  obtain ⟨_, total, _⟩ := kept.pops
  have one : before.held thr = 1 := by
    simp [WaitQueue.held, idle, popping, holds]
  have share := total.le thr
  have covered : before.sem.value.toNat + before.sem.completed ≤ 0 + before.sem.posted :=
    kept.covered
  have length := kept.length
  omega

theorem goto_self (wq : WaitQueue Thread Item) (pc : QueuePc Item) : (wq.goto thr pc).pc thr = pc :=
  update_self ..

theorem goto_other (wq : WaitQueue Thread Item) (pc : QueuePc Item) (different : other ≠ thr) :
    (wq.goto thr pc).pc other = wq.pc other :=
  update_of_ne different ..

theorem semAdvance_held {sem : Sem Thread} (staged : Staged (sem.pc thr) pc)
    (advanced : sem.advance thr = some now) :
    (∀ other ≠ thr, now.pc other = sem.pc other) ∧ now.posted = sem.posted ∧
      Staged (now.pc thr) pc ∧
    holds (now.pc thr) pc + sem.completed = holds (sem.pc thr) pc + now.completed := by
  unfold Sem.advance at advanced
  generalize here : sem.pc thr = place at advanced staged ⊢
  cases place with
  | idle => cases advanced
  | notify num | incrWaiters | block =>
    cases staged
    cases advanced
    refine ⟨fun _ different => update_of_ne different .., rfl, ?_, ?_⟩
    · simp [Sem.goto, Staged]
    · simp [Sem.goto, holds]
  | blocked =>
    cases staged
    obtain ⟨_, ⟨⟩⟩ := ite_none_left_eq_some.mp advanced
    refine ⟨fun _ different => update_of_ne different .., rfl, ?_, ?_⟩
    · simp [Sem.take, Sem.goto, Staged]
    · simp [Sem.take, Sem.goto, holds]
      omega

theorem owed_goto (wq : WaitQueue Thread Item) (pc : QueuePc Item) :
    (wq.goto thr pc).owed thr = pc.owes := by
  rw [owed, goto_self]

theorem held_goto (wq : WaitQueue Thread Item) (pc : QueuePc Item) :
    (wq.goto thr pc).held thr = holds (wq.sem.pc thr) pc := by
  rw [held, goto_self]
  rfl

theorem holds_eq_zero (other : pc ≠ .popping) : holds stage pc = 0 := by
  cases stage <;> cases pc <;> first | rfl | exact absurd rfl other

section

variable (kept : Kept before)
include kept

theorem Kept.goto {wq : WaitQueue Thread Item} (sem : wq.sem = before.sem)
    (others : wq.pc = before.pc) (running : wq.aborted = false)
    (outside : before.sem.pc thr = .idle) (notPopping : pc ≠ .popping)
    (length : wq.queue.length + wq.popped = wq.appended)
      (posts : pc.owes + wq.pendingNotifies.toNat + before.appended ≤
      before.owed thr + before.pendingNotifies.toNat + wq.appended)
    (pops : wq.popped = before.popped + before.held thr) : Kept (wq.goto thr pc) := by
  have same : (wq.goto thr pc).sem = before.sem := sem
  refine kept.change thr ?_ running (same ▸ kept.covered) ?_ length ?_ ?_
  · intro _ different
    rw [goto_other wq pc different, others, same]
    exact ⟨rfl, rfl⟩
  · rw [same, outside]
    trivial
  · rw [owed_goto, same]
    simp only [WaitQueue.goto]
    omega
  · rw [held_goto, same, holds_eq_zero notPopping]
    simp only [WaitQueue.goto]
    omega

theorem post_kept {num : Word} (owes : before.owed thr = num.toNat)
    (notPopping : before.pc thr ≠ .popping)
    (covered : Covered 0 (before.sem.post thr num)) :
    Kept ({ before with sem := before.sem.post thr num }.goto thr .idle) := by
  refine kept.change thr ?_ kept.running covered ?_ kept.length ?_ ?_
  · intro _ different
    exact ⟨goto_other _ _ different, update_of_ne different ..⟩
  · rw [goto_self]
    simp [goto, Sem.post, Sem.goto, Staged]
  · rw [owed_goto, owes]
    simp [goto, Sem.post, Sem.goto]
  · rw [held_goto, held, holds_eq_zero notPopping, holds_eq_zero (by simp)]
    rfl

theorem pop_kept (idle : before.pc thr = .idle) (covered : Covered 0 (before.sem.wait thr)) :
    Kept ({ before with sem := before.sem.wait thr }.goto thr .popping) := by
  have posted : (before.sem.wait thr).posted = before.sem.posted := by
    unfold Sem.wait
    split <;> rfl
  have others (other) (different : other ≠ thr) :
      (before.sem.wait thr).pc other = before.sem.pc other := by
    unfold Sem.wait
    split <;> exact update_of_ne different ..
  have stage : Staged ((before.sem.wait thr).pc thr) (.popping : QueuePc Item) ∧
      holds ((before.sem.wait thr).pc thr) (.popping : QueuePc Item) + before.sem.completed =
        (before.sem.wait thr).completed := by
    unfold Sem.wait
    split
    · simp [Sem.take, Sem.goto, Staged, holds]
      omega
    · simp [Sem.goto, Staged, holds]
  have nothing : before.owed thr = 0 ∧ before.held thr = 0 := by
    simp [held, idle, holds_eq_zero]
  refine kept.change thr ?_ kept.running covered ?_ kept.length ?_ ?_
  · intro other different
    exact ⟨goto_other _ _ different, others other different⟩
  · rw [goto_self]
    exact stage.1
  · rw [owed_goto, nothing.1]
    simp [goto, posted]
  · rw [held_goto, nothing.2]
    simp only [goto]
    omega

theorem call_kept (idle : before.pc thr = .idle) (outside : before.sem.pc thr = .idle)
    (covered : Covered 0 (before.call thr function).sem) : Kept (before.call thr function) := by
  have held : before.held thr = 0 := by
    rw [held, idle, holds_eq_zero (by simp)]
  have entered (x : Item) (quiet : Bool) : Kept (before.goto thr (.append x quiet)) :=
    kept.goto rfl rfl kept.running outside (by simp) kept.length (by simp) (by omega)
  cases function with
  | push x => exact entered x false
  | pushIfWaiting x =>
    simp only [call]
    split
    · exact kept
    · exact entered x false
  | pushQuiet x => exact entered x true
  | notifyPending =>
    -- the thread owes the posts that were pending
    refine kept.goto rfl rfl kept.running outside (by simp) kept.length ?_ ?_
    · simp
    · simp [held]
  | pop => exact pop_kept kept idle covered

theorem popFront_kept (outside : before.sem.pc thr = .idle)
    (popping : before.pc thr = .popping) : Kept (before.popFront thr) := by
  have nonempty := kept.nonempty outside popping
  have length := kept.length
  have held : before.held thr = 1 := by
    simp [held, outside, popping, holds]
  unfold popFront
  cases items : before.queue with
  | nil => simp [items] at nonempty
  | cons =>
    rw [items] at length
    refine kept.goto rfl rfl kept.running outside (by simp) ?_ ?_ ?_
    · simp only [List.length_cons] at length ⊢
      omega
    · simp [popping]
    · simp [held]

theorem advance_kept (advanced : before.advance thr = some after) (covered : Covered 0 after.sem) :
    Kept after := by
  have length := kept.length
  unfold WaitQueue.advance at advanced
  split at advanced
  · next outside =>
    generalize here : before.pc thr = place at advanced
    cases place with
    | idle => cases advanced
    | append x quiet =>
      cases advanced
      refine kept.goto rfl rfl kept.running outside ?_ ?_ ?_ ?_
      · cases quiet <;> simp
      · simp only [List.length_append, List.length_singleton]
        omega
      · cases quiet <;> simp [here] <;> omega
      · simp [WaitQueue.held, here, holds_eq_zero]
    | post | notifyPending tmp =>
      cases advanced
      exact post_kept kept (by simp [here]) (by simp [here]) covered
    | incrPending =>
      cases advanced
      refine kept.goto rfl rfl kept.running outside (by simp) kept.length ?_ ?_
      · have wrap : (before.pendingNotifies + 1).toNat ≤ before.pendingNotifies.toNat + 1 := by
          rw [BitVec.toNat_add]
          exact Nat.mod_le _ _
        simp only [WaitQueue.owed, here, QueuePc.owes]
        omega
      · simp [WaitQueue.held, here, holds_eq_zero]
    | popping =>
      cases advanced
      exact popFront_kept kept outside here
  · obtain ⟨_, inside, rfl⟩ := map_eq_some_iff.mp advanced
    obtain ⟨others, posted, staged, _⟩ := semAdvance_held (kept.staged thr) inside
    refine kept.change thr ?_ kept.running covered staged kept.length ?_ ?_
    · intro other different
      exact ⟨rfl, others other different⟩
    · simp [posted]
    · simp only [WaitQueue.held]
      omega

end

theorem call_effect : Effect before.sem (before.call thr function).sem ∧
    ((before.call thr function).sem.completed = before.sem.completed + 1 →
      before.sem.value ≠ 0) := by
  cases function with
  | push x | pushQuiet x | notifyPending => exact ⟨.none rfl rfl rfl, fun more =>
      absurd more (Nat.ne_add_one _)⟩
  | pushIfWaiting x =>
    simp only [call]
    split
    all_goals exact ⟨.none rfl rfl rfl, fun more => absurd more (Nat.ne_add_one _)⟩
  | pop => exact wait_effect

theorem queueAdvance_effect (advanced : before.advance thr = some after) :
    Effect before.sem after.sem ∧
    (before.sem.Stocked thr ↔ (after.sem.completed = before.sem.completed + 1 → before.sem.value ≠
      0)) := by
  unfold advance at advanced
  split at advanced
  · next outside =>
    have quiet (same : after.sem.completed = before.sem.completed) : before.sem.Stocked thr ↔
          (after.sem.completed = before.sem.completed + 1 → before.sem.value ≠ 0) := by
      refine iff_of_true ?_ fun more => absurd (same.symm.trans more) (Nat.ne_add_one _)
      intro blocked
      rw [outside] at blocked
      cases blocked
    generalize here : before.pc thr = place at advanced
    cases place with
    | idle => cases advanced
    | append x quiet_ | incrPending =>
      cases advanced
      exact ⟨.none rfl rfl rfl, quiet rfl⟩
    | post =>
      cases advanced
      exact ⟨.post 1 rfl rfl rfl, quiet rfl⟩
    | notifyPending tmp =>
      cases advanced
      exact ⟨.post tmp rfl rfl rfl, quiet rfl⟩
    | popping =>
      simp only [Option.some.injEq] at advanced
      have same : after.sem = before.sem := by
        rw [← advanced, popFront]
        split <;> rfl
      exact ⟨.none (by rw [same]) (by rw [same]) (by rw [same]), quiet (by rw [same])⟩
  · obtain ⟨_, inside, rfl⟩ := map_eq_some_iff.mp advanced
    exact advance_effect inside

theorem queue_step (step : Step before op after) :
    (∃ thr function, op = .call thr function ∧ before.pc thr = .idle ∧
    before.sem.pc thr = .idle ∧ before.call thr function = after) ∨ ∃ thr, op = .advance thr ∧
    before.advance thr = some after := by
  have ⟨_, moved⟩ := ite_none_left_eq_some.mp step
  cases op with
  | call thr function =>
    have ⟨⟨idle, outside⟩, called⟩ := ite_none_right_eq_some.mp moved
    refine .inl ⟨thr, function, rfl, ?_, outside, Option.some.inj called⟩
    cases here : before.pc thr <;> simp [here, QueuePc.isIdle] at idle ⊢
  | advance thr => exact .inr ⟨thr, rfl, moved⟩

theorem queueStep_effect (step : Step before op after) : Effect before.sem after.sem ∧
    (QueueStocked ⟨before, op, after⟩ ↔ (after.sem.completed = before.sem.completed + 1 →
      before.sem.value ≠ 0)) := by
  rcases queue_step step with ⟨thr, _, rfl, _, _, rfl⟩ | ⟨_, rfl, advanced⟩
  · exact ⟨call_effect.1, iff_of_true trivial call_effect.2⟩
  · exact queueAdvance_effect advanced

theorem queueStep_kept (kept : Kept before) (step : Step before op after)
    (covered : Covered 0 after.sem) : Kept after := by
  rcases queue_step step with ⟨thr, _, rfl, idle, outside, rfl⟩ | ⟨_, rfl, advanced⟩
  · exact call_kept kept idle outside covered
  · exact advance_kept kept advanced covered

theorem queue_granted_iff {last : WaitQueue Thread Item}
    {moves : List (Move (WaitQueue Thread Item) (Op Thread Item))}
    (run : Run Step init moves last) : (∀ move ∈ moves, QueueGranted move) ↔ ∀ move ∈ moves,
      QueueStocked move := by
  refine run_exact Kept QueueStocked QueueGranted ?_ ?_ run init_kept
  · intro move kept step stocked
    have ⟨effect, stock⟩ := queueStep_effect step
    have ⟨covered, granted⟩ := covered_granted kept.covered effect (stock.mp stocked)
    have after := queueStep_kept kept step covered
    exact ⟨after, granted, after.running⟩
  · intro _ _ step granted
    exact (queueStep_effect step).2.mpr (stocked_of_granted granted.1)

end QueueSteps

/-- A semaphore grants what was posted, and a queue is popped while it has an
item, if and only if no thread that was woken finds the value at zero. -/
theorem never_over_grants_iff :
    (∀ (initial : Word) (last : Sem Thread) (moves : List (Move (Sem Thread) (SemOp Thread))),
      Run SemStep (Sem.init initial) moves last →
        ((∀ move ∈ moves, Granted initial move.before move.after) ↔
          ∀ move ∈ moves, SemStocked move)) ∧
    ∀ (last : WaitQueue Thread Item) (moves : List (Move (WaitQueue Thread Item) (Op Thread Item))),
      Run Step init moves last → ((∀ move ∈ moves, QueueGranted move) ↔ ∀ move ∈ moves,
        QueueStocked move) :=
  ⟨fun _ _ _ run => semaphore_granted_iff run, fun _ _ run => queue_granted_iff run⟩

def woken : List (SemOp Bool) :=
  [.wait true, .advance true, .advance true, .post false 1, .advance false, .advance true]

def delivered : List (Op Bool Nat) :=
  [.call true .pop, .advance true, .advance true, .call false (.push 7), .advance false,
    .advance false, .advance false, .advance true, .advance true]

theorem never_over_grants_woken : (∃ moves last, Run SemStep (Sem.init 0 : Sem Bool) moves last ∧
    moves.length = 6 ∧
    last.completed = 1 ∧ ∀ move ∈ moves, Granted 0 move.before move.after) ∧
    ∃ moves last, Run Step (init : WaitQueue Bool Nat) moves last ∧ moves.length = 9 ∧
      last.popped = 1 ∧
    ∀ move ∈ moves, QueueGranted move := by
  have granted := @never_over_grants_iff Bool Nat _
  constructor
  · have run : Run SemStep (Sem.init 0) _ _ :=
      trace_run Sem.next (fun _ _ _ => id) (Sem.init 0 : Sem Bool) woken
    exact ⟨_, _, run, by decide, by decide, (granted.1 0 _ _ run).mpr (by decide)⟩
  · have run : Run Step init _ _ :=
      trace_run next (fun _ _ _ => id) (init) delivered
    exact ⟨_, _, run, by decide, by decide, (granted.2 _ _ run).mpr (by decide)⟩

/-- A third thread takes what was posted before the thread that was woken for it
gets there: the value wraps around, and a pop finds the queue empty. -/
theorem over_granted : (∃ moves last, Run SemStep (Sem.init 0 : Sem (Fin 3)) moves last ∧
    last.posted = 1 ∧
    last.completed = 2 ∧ last.value.toNat = 2 ^ 64 - 1 ∧ ¬ ∀ move ∈ moves,
      Granted 0 move.before move.after) ∧
    ∃ moves last, Run Step (init : WaitQueue (Fin 3) Nat) moves last ∧ last.aborted = true ∧
    ¬ ∀ move ∈ moves, QueueGranted move := by
  constructor
  · let trail := trace Sem.next (Sem.init 0 : Sem (Fin 3))
      [.wait 0, .advance 0, .advance 0, .post 1 1, .advance 1, .wait 2, .advance 0]
    have run : Run SemStep (Sem.init 0) trail.1 trail.2 :=
      trace_run Sem.next (fun _ _ _ => id) _ _
    refine ⟨trail.1, trail.2, run, by decide, by decide, by decide, ?_⟩
    rw [semaphore_granted_iff run]
    decide
  · let trail := trace next (init : WaitQueue (Fin 3) Nat)
      [.call 0 .pop, .advance 0, .advance 0, .call 1 (.push 7), .advance 1, .advance 1, .advance 1,
        .call 2 .pop, .advance 2, .advance 0, .advance 0]
    have run : Run Step init trail.1 trail.2 :=
      trace_run next (fun _ _ _ => id) _ _
    refine ⟨trail.1, trail.2, run, by decide, ?_⟩
    rw [queue_granted_iff run]
    decide

end Nx.Semaphores
