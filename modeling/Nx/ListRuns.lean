import Nx.ListRefinement

/-!
Runs of one list. Whatever is done to it from the empty list on, it is a doubly
linked list of the sequence that the same operations make.
-/

namespace Nx.ListRuns

open Outcomes Cells DoubleLinks LinkedLists ListRefinement Transitions List

variable {Ptr T : Type}

structure State (Ptr T : Type) where
  list : Container Ptr
  mem : Nodes Ptr T

def Step [DecidableEq Ptr] (before : State Ptr T) (label : Op T × Result T) (after : State Ptr T) :
    Prop :=
  (perform before.list label.1).run before.mem = .ok ((label.2, after.list), after.mem)

def SequenceStep (before : List T) (label : Op T × Result T) (after : List T) : Prop :=
  Sequence.perform before label.1 = .ok (label.2, after)

structure DoublyLinked (st : State Ptr T) (seq : List T) (nodes : List Ptr) : Prop where
  distinct : nodes.Nodup
  length : nodes.length = seq.length
  head : st.list.head = nodes.head?
  tail : st.list.tail = nodes.getLast?
  node : ∀ (index : Nat) (addr : Ptr), nodes[index]? = some addr → ∃ val, seq[index]? = some val ∧
    st.mem.cells addr =
      some ⟨val, if index = 0 then none else nodes[index - 1]?, nodes[index + 1]?⟩

section Links

variable {items : List (Ptr × T)}

theorem first_eq_head? : first items none = (addrs items).head? := by
  cases items <;> rfl

theorem last_eq_getLast? : last none items = (addrs items).getLast? := by
  rcases eq_nil_or_concat items with rfl | ⟨_, _, rfl⟩
  · rfl
  · simp [concat_eq_append]

theorem split_at (there : (addrs items)[index]? = some addr) :
    ∃ xs item ys, items = xs ++ item :: ys ∧ xs.length = index ∧ item.1 = addr := by
  obtain ⟨_, isItem, same⟩ := Option.map_eq_some_iff.mp (List.getElem?_map ▸ there)
  obtain ⟨inside, rfl⟩ := List.getElem?_eq_some_iff.mp isItem
  refine ⟨items.take index, items[index], items.drop (index + 1), ?_, ?_, same⟩
  · rw [← drop_eq_getElem_cons inside, take_append_drop]
  · rw [length_take]
    exact min_eq_left inside.le

theorem following_eq (xs ys : List (Ptr × T)) (item : Ptr × T) :
    (addrs (xs ++ item :: ys))[xs.length + 1]? = first ys none := by
  have length : (addrs xs).length = xs.length := length_map _
  rw [first_eq_head?, addrs_append, ← length, List.getElem?_append_right (Nat.le_add_right _ 1),
    Nat.add_sub_cancel_left, addrs_cons, List.getElem?_cons_succ, List.head?_eq_getElem?]

theorem previous_eq (xs ys : List (Ptr × T)) :
    (if xs.length = 0 then none else (addrs (xs ++ ys))[xs.length - 1]?) = last none xs := by
  have length : (addrs xs).length = xs.length := length_map _
  by_cases empty : xs.length = 0
  · rw [if_pos empty, length_eq_zero_iff.mp empty]
    rfl
  · rw [if_neg empty, last_eq_getLast?, addrs_append, ← length, List.getElem?_append_left
      (by omega),
      List.getLast?_eq_getElem?]

theorem doublyLinked_of_holds {st : State Ptr T} (holds : Holds st.list st.mem items)
    (tidy : Tidy st.list) : DoublyLinked st (values items) (addrs items) := by
  refine ⟨holds.nodup, ?_, holds.head.trans first_eq_head?, ?_, ?_⟩
  · rw [values_length]
    exact length_map _
  · rw [← last_eq_getLast?]
    by_cases empty : items = []
    · rw [tidy (holds.empty_iff.mpr empty), empty]
      rfl
    · exact holds.tail empty
  · intro _ _ there
    obtain ⟨_, item, _, rfl, rfl, rfl⟩ := split_at there
    refine ⟨item.2, by simp, ?_⟩
    rw [linked_split holds.linked, previous_eq, following_eq]

end Links

section Runs

variable [DecidableEq Ptr] {items : List (Ptr × T)}

def Agrees (st : State Ptr T) (seq : List T) (op : Op T) : Prop :=
  match (perform st.list op).run st.mem with
  | .ok (out, _) => ∃ after, Sequence.perform seq op = .ok (out.1, after)
  | .error fault => OutOfMemory st.mem op fault ∨ Sequence.perform seq op = .error fault

theorem agrees_of_holds {st : State Ptr T} (holds : Holds st.list st.mem items) (op : Op T) :
    Agrees st (values items) op := by
  cases perform_refined holds op with
  | normal result matched =>
    obtain ⟨_, _, same⟩ := matched
    rw [Agrees, result]
    exact ⟨_, same⟩
  | aborted result same =>
    rw [Agrees, result]
    exact same

/-- Every run of a list from the empty one on is a run of a sequence with the same
results. The list is doubly linked at any time, no operation meets a null pointer
or a freed node, and what aborts aborts for the sequence too. -/
theorem list_refines_sequence (mem : Nodes Ptr T) {last : State Ptr T}
    {moves : List (Move (State Ptr T) (Op T × Result T))} (run : Run Step ⟨{}, mem⟩ moves last) :
    ∃ seqMoves seq, Run SequenceStep [] seqMoves seq ∧ seqMoves.map Move.label =
      moves.map Move.label ∧
      (∃ nodes, DoublyLinked last seq nodes) ∧ (last.list.tail = none ↔ seq = []) ∧
      last.list.size = seq.length ∧ ∀ op, Agrees last seq op := by
  -- related to a sequence: in order, with these values
  obtain ⟨seqMoves, seq, seqRun, labels, items, holds, tidy, rfl⟩ :=
    run_simulated (fun (st : State Ptr T) (seq : List T) => ∃ items,
        Holds st.list st.mem items ∧ Tidy st.list ∧ seq = values items) (fun _ => True)
      (by
        rintro move _ ⟨items, holds, tidy, rfl⟩ step _
        obtain ⟨items', turned, matched⟩ := ends_of_ok (perform_refined holds move.label.1) step
        have seqStep : SequenceStep (values items) move.label (values items') := matched
        exact ⟨_, seqStep, items', turned.holds, turned.tidy tidy, rfl⟩)
      run (fun _ _ => trivial)
      ⟨[], ⟨trivial, nodup_nil, rfl, fun _ => rfl, rfl, Nat.zero_le _⟩, fun _ => rfl, rfl⟩
  have linked := doublyLinked_of_holds holds tidy
  refine ⟨seqMoves, values items, seqRun, labels, ⟨_, linked⟩, ?_, ?_, agrees_of_holds holds⟩
  · rw [linked.tail, List.getLast?_eq_none_iff, ← length_eq_zero_iff, linked.length,
      length_eq_zero_iff]
  · exact holds.cnt.trans values_length.symm

end Runs

def State.next? [DecidableEq Ptr] [DecidableEq T] (st : State Ptr T) (label : Op T × Result T) :
    Option (State Ptr T) :=
  answered (fun ((result, list), mem) => (result, State.mk list mem))
    ((perform st.list label.1).run st.mem) label.2

theorem step_of_next? [DecidableEq Ptr] [DecidableEq T] (st : State Ptr T) (label : Op T × Result T)
    (after : State Ptr T) (moved : st.next? label = some after) : Step st label after := by
  obtain ⟨_, _⟩ := label
  obtain ⟨⟨⟨_, _⟩, _⟩, done, ⟨⟩⟩ := ok_of_answered moved
  exact done

def reusing : Nodes Nat String := ⟨fun _ => none, [1, 2, 3, 3], 0⟩

def editing : List (Op String × Result String) :=
  [(.append "a", .done), (.append "c", .done), (.insertBefore 1 "b", .done),
    (.erase 1, .values ["c"]), (.insertAfter 1 "d", .done), (.popFront, .value "a"),
    (.back, .value "d"), (.iterate, .values ["c", "d"])]

theorem list_refines_sequence_editing : let ran := trace State.next? ⟨{}, reusing⟩ editing
    ran.1.length = 8 ∧ ∃ seqMoves seq, Run SequenceStep [] seqMoves seq ∧
      seqMoves.map Move.label = ran.1.map Move.label ∧
      (∃ nodes, DoublyLinked ran.2 seq nodes) ∧ (ran.2.list.tail = none ↔ seq = []) ∧
      ran.2.list.size = seq.length ∧ ∀ op, Agrees ran.2 seq op := by
  intro _
  exact ⟨by decide, list_refines_sequence reusing (trace_run _ step_of_next? _ _)⟩

end Nx.ListRuns
