import Nx.Words
import Nx.Transitions

/-!
The message queue of one process, kernel/source/syscall/sc_ipc.cpp and
kernel/source/ipc/message.cpp. Senders append under the lock of the queue.
-/

namespace Nx.Mailbox

open Words Transitions Function List

variable {Thread Body : Type} [DecidableEq Thread]

structure Message (Body : Type) where
  senderId : Word
  targetId : Word
  flags : Word
  body : Body
  deriving DecidableEq

/-- A message in the queue. The number counts the messages appended before it;
the kernel does not know it. -/
structure Entry (Body : Type) where
  number : Nat
  message : Message Body
  deriving DecidableEq

/-- `peeked` is what a thread between the two halves of `ipc_receive` has copied
out. `appended`, `removed` and `returned` are a record of the past. -/
structure Inbox (Thread Body : Type) where
  pendingMessages : List (Entry Body)
  peeked : Thread → Option (Entry Body)
  appended : Nat
  removed : List Nat
  returned : List (Thread × Entry Body)

inductive Op (Thread Body : Type) where
  | send (senderId target : Word) (body : Body) (readable : Bool)
  | peek (thread : Thread) (writable : Bool)
  | discard (thread : Thread)

def Inbox.init : Inbox Thread Body := ⟨[], fun _ => none, 0, [], []⟩

def Inbox.addMessage (processId : Word) (inbox : Inbox Thread Body) (umsg : Message Body) :
    Inbox Thread Body :=
  if umsg.targetId = processId then
    { inbox with
      pendingMessages := inbox.pendingMessages ++ [⟨inbox.appended, umsg⟩]
      appended := inbox.appended + 1 }
  else inbox

def Inbox.ipcSend (processId : Word) (inbox : Inbox Thread Body) (senderId target : Word)
    (body : Body) (readable : Bool) : Inbox Thread Body :=
  if target = 0 then inbox
  else if readable then inbox.addMessage processId ⟨senderId, target, 0, body⟩
  else inbox

section Inboxes

variable (inbox : Inbox Thread Body)

def Inbox.ipcPeek (writable : Bool) : Word × Option (Entry Body) :=
  match inbox.pendingMessages with
  | [] => (0, none)
  | front :: _ => if writable then (front.message.senderId, some front) else (0, none)

@[simp] def Inbox.ipcDiscard : Inbox Thread Body :=
  match inbox.pendingMessages with
  | [] => inbox
  | front :: rest =>
    { inbox with pendingMessages := rest, removed := inbox.removed ++ [front.number] }

def Inbox.receive (thread : Thread) (writable : Bool) : Inbox Thread Body :=
  let peek := inbox.ipcPeek writable
  if peek.1 ≠ 0 then { inbox with peeked := update inbox.peeked thread peek.2 }
  else inbox

@[simp] def Inbox.finish (thread : Thread) (entry : Entry Body) : Inbox Thread Body :=
  { inbox.ipcDiscard with
    peeked := update inbox.peeked thread none
    returned := inbox.returned ++ [(thread, entry)] }

def Inbox.next (processId : Word) (inbox : Inbox Thread Body) :
    Op Thread Body → Option (Inbox Thread Body)
  | .send senderId target body readable =>
    some (inbox.ipcSend processId senderId target body readable)
  | .peek thread writable =>
    if (inbox.peeked thread).isNone then some (inbox.receive thread writable) else none
  | .discard thread => (inbox.peeked thread).map (inbox.finish thread)

def Step (processId : Word) (before : Inbox Thread Body) (op : Op Thread Body)
    (after : Inbox Thread Body) : Prop :=
  before.next processId op = some after

/-! Delivery. -/

def Inbox.numbers : List Nat :=
  inbox.returned.map fun result => result.2.number

end Inboxes

structure Delivered (inbox : Inbox Thread Body) : Prop where
  once : inbox.numbers.Nodup
  kept : ∀ number ∈ inbox.removed, number ∈ inbox.numbers
  ordered : inbox.numbers.Pairwise (· ≤ ·)

def Own (move : Move (Inbox Thread Body) (Op Thread Body)) : Prop :=
  match move.label with
  | .discard thread => move.before.pendingMessages.head? = move.before.peeked thread
  | _ => True

instance [DecidableEq Body] (move : Move (Inbox Thread Body) (Op Thread Body)) :
    Decidable (Own move) := by
  unfold Own
  split <;> infer_instance

/-- Every message was removed by the receive that returned it, and what a thread
has copied out is the front still, or gone. -/
structure Exact (inbox : Inbox Thread Body) : Prop where
  matched : inbox.removed = inbox.numbers
  numbered : inbox.removed ++ inbox.pendingMessages.map Entry.number = List.range inbox.appended
  copied : ∀ thread entry, inbox.peeked thread = some entry →
    inbox.pendingMessages.head? = some entry ∨ entry.number ∈ inbox.removed

omit [DecidableEq Thread] in
theorem init_exact : Exact (Inbox.init : Inbox Thread Body) where
  matched := rfl
  numbered := rfl
  copied := by
    rintro _ _ ⟨⟩

omit [DecidableEq Thread] in
theorem Exact.delivered (exact_ : Exact inbox) : Delivered inbox := by
  have sub : inbox.numbers.Sublist (List.range inbox.appended) := by
    rw [← exact_.matched, ← exact_.numbered]
    exact sublist_append_left _ _
  constructor
  · exact nodup_range.sublist sub
  · intro _ gone
    exact exact_.matched ▸ gone
  · have ascending : (List.range inbox.appended).Pairwise (· ≤ ·) :=
      pairwise_lt_range.imp Nat.le_of_lt
    exact ascending.sublist sub

section Steps

variable {before after : Inbox Thread Body}

omit [DecidableEq Thread] in
theorem send_exact (exact_ : Exact before) (senderId target : Word) (body : Body)
    (readable : Bool) : Exact (before.ipcSend processId senderId target body readable) := by
  unfold Inbox.ipcSend Inbox.addMessage
  split
  · exact exact_
  split
  · split
    · constructor
      · exact exact_.matched
      · simp only [map_append, map_cons, map_nil]
        rw [← append_assoc, exact_.numbered, range_succ]
      · intro thread entry peeked
        -- an entry at the front stays there when others are appended behind it
        rcases exact_.copied thread entry peeked with front | gone
        · left
          rw [head?_append, front]
          rfl
        · exact .inr gone
    · exact exact_
  · exact exact_

section

variable (exact_ : Exact before)
include exact_

theorem receive_exact (thread : Thread) (writable : Bool) :
    Exact (before.receive thread writable) := by
  unfold Inbox.receive
  dsimp only
  split
  · refine ⟨exact_.matched, exact_.numbered, ?_⟩
    intro other entry peeked
    by_cases same : other = thread
    · subst same
      have copied : (before.ipcPeek writable).2 = some entry := by simpa using peeked
      left
      unfold Inbox.ipcPeek at copied
      cases queue : before.pendingMessages with
      | nil => simp [queue] at copied
      | cons =>
        cases writable with
        | false => simp [queue] at copied
        | true => simpa [queue] using copied
    · have earlier : before.peeked other = some entry := by
        simpa [update_of_ne same] using peeked
      exact exact_.copied other entry earlier
  · exact exact_

theorem finish_exact (own : before.pendingMessages.head? = some entry) :
    Exact (before.finish thread entry) := by
  cases queue : before.pendingMessages with
  | nil => simp [queue] at own
  | cons front =>
    have same : front = entry := by simpa [queue] using own
    subst same
    have numbered := exact_.numbered
    rw [queue] at numbered
    constructor
    · simp [Inbox.numbers, queue, exact_.matched]
    · simpa [queue] using numbered
    · intro other entry peeked
      right
      by_cases here : other = thread
      · subst here
        simp at peeked
      · have earlier : before.peeked other = some entry := by
          simpa [update_of_ne here] using peeked
        -- whoever else copied the front out has lost it now
        rcases exact_.copied other entry earlier with atFront | gone
        · have isFront : front = entry := by simpa [queue] using atFront
          simp [queue, isFront]
        · simp [queue, gone]

theorem finish_twice (peeked : before.peeked thread = some entry)
    (other : before.pendingMessages.head? ≠ some entry) :
    ¬ (before.finish thread entry).numbers.Nodup := by
  have gone := (exact_.copied thread entry peeked).resolve_left other
  rw [exact_.matched] at gone
  have numbers : (before.finish thread entry).numbers = before.numbers ++ [entry.number] := by
    unfold Inbox.finish Inbox.numbers
    rw [map_append]
    rfl
  intro nodup
  rw [numbers, nodup_append] at nodup
  exact nodup.2.2 _ gone _ (mem_singleton_self _) rfl

theorem Step.exact (step : Step processId before op after) (own : Own ⟨before, op, after⟩) :
    Exact after := by
  cases op with
  | send senderId target body readable =>
    rw [← Option.some.inj step]
    exact send_exact exact_ senderId target body readable
  | peek thread writable =>
    simp only [Step, Inbox.next, Option.ite_none_right_eq_some, Option.some.injEq] at step
    rw [← step.2]
    exact receive_exact exact_ thread writable
  | discard =>
    simp only [Step, Inbox.next, Option.map_eq_some_iff] at step
    obtain ⟨_, peeked, rfl⟩ := step
    exact finish_exact exact_ (own.trans peeked)

theorem Step.own (step : Step processId before op after) (delivered : Delivered after) :
    Own ⟨before, op, after⟩ := by
  cases op with
  | send senderId target body readable | peek thread writable => trivial
  | discard thread =>
    simp only [Step, Inbox.next, Option.map_eq_some_iff] at step
    obtain ⟨_, peeked, rfl⟩ := step
    by_contra other
    refine finish_twice exact_ peeked ?_ delivered.once
    intro front
    exact other (front.trans peeked.symm)

end

end Steps

/-- Messages are delivered once, none is lost and the order is kept, exactly as
long as every thread discards the message that it has copied out. -/
theorem delivers_exactly_once_iff (processId : Word)
    {last : Inbox Thread Body} {moves : List (Move (Inbox Thread Body) (Op Thread Body))}
    (run : Run (Step processId) Inbox.init moves last) :
    (∀ inbox ∈ visited Inbox.init moves, Delivered inbox) ↔ ∀ move ∈ moves, Own move := by
  have exactly := run_exact Exact Own (fun move => Delivered move.after)
    (fun _ holds step own => ⟨step.exact holds own, (step.exact holds own).delivered⟩)
    (fun _ holds step delivered => step.own holds delivered) run init_exact
  rw [← exactly, visited, forall_mem_cons]
  simp only [forall_mem_map, init_exact.delivered, true_and]

def inTurn : List (Op Bool Nat) :=
  [.send 5 1 10 true, .send 6 1 20 true, .peek true true, .discard true, .peek false true,
    .discard false]

theorem delivers_exactly_once_in_turn :
    let trail := trace (Inbox.next 1) (Inbox.init : Inbox Bool Nat) inTurn
    trail.1.length = 6 ∧ ∀ inbox ∈ visited Inbox.init trail.1, Delivered inbox := by
  have run : Run (Step 1) Inbox.init _ _ :=
    trace_run (Inbox.next 1) (fun _ _ _ => id) (Inbox.init : Inbox Bool Nat) inTurn
  refine ⟨by decide, (delivers_exactly_once_iff 1 run).mpr ?_⟩
  decide

def bothPeek : List (Op Bool Nat) :=
  [.send 5 1 10 true, .send 6 1 20 true, .peek true true, .peek false true, .discard true,
    .discard false]

theorem message_received_twice :
    ∃ moves last, Run (Step 1) (Inbox.init : Inbox Bool Nat) moves last ∧
    last.numbers = [0, 0] ∧ last.removed = [0, 1] ∧ ¬ Delivered last := by
  let trail := trace (Inbox.next 1) (Inbox.init : Inbox Bool Nat) bothPeek
  refine ⟨trail.1, trail.2, trace_run (Inbox.next 1) (fun _ _ _ => id) _ _,
    by decide, by decide, ?_⟩
  intro delivered
  exact absurd delivered.once (by decide)

end Nx.Mailbox
