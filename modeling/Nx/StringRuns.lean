import Nx.StringBuffers

/-!
Runs of operations on any number of strings: which operations keep the recorded
capacity within the real buffer, and what happens if one does not.
-/

namespace Nx.StringRuns

open Outcomes Transitions SmallStrings StringBuffers

structure Settled (st : State) : Prop where
  sound : Sound st
  noTemp : st.strs none = none

theorem noStrings_settled : Settled noStrings := by
  refine ⟨⟨?_, ?_, ?_⟩, rfl⟩
  · rintro obj str ⟨⟩
  · rintro _ _ _ _ addr ⟨⟩
  · rintro _ _ ⟨⟩

theorem Settled.of_others (settled : Settled st) (sound : Sound after)
    (others : ∀ other : Obj, other ≠ some obj → after.strs other = st.strs other) : Settled after :=
  ⟨sound, (others none (by simp)).trans settled.noTemp⟩

theorem exec_careful (settled : Settled st) (op : Op) (careful : Careful st op) :
    Ends (exec op) st (fun _ after => Settled after) (fun fault => fault.memory = false) := by
  have sound := settled.sound
  cases op with
  | construct obj text =>
    apply ends_mono (construct_ends sound obj text.2) _ (fun _ aborted => aborted.1)
    intro _ after constructed
    exact settled.of_others constructed.sound constructed.others
  | copyConstruct obj other =>
    apply ends_mono (copyConstruct_ends sound obj other) _ (fun _ aborted => aborted.1)
    rintro _ after ⟨source, _, constructed⟩
    exact settled.of_others constructed.sound constructed.others
  | moveConstruct obj other =>
    apply ends_imp (moveConstruct_ends sound obj other)
    rintro _ after ⟨soundAfter, missing⟩
    exact ⟨soundAfter, missing none (by simp) settled.noTemp⟩
  | copyAssign obj other =>
    by_cases same : obj = other
    · subst same
      rw [exec, copyAssign, if_neg (by simp)]
      exact ends_pure _ settled
    · apply ends_mono (copyAssign_ends sound settled.noTemp same) _ (fun _ aborted => aborted.1)
      rintro _ after ⟨noTemp, target, source, objThere, otherThere, soundAfter, _⟩
      exact ⟨soundAfter (careful same target source objThere otherThere), noTemp⟩
  | moveAssign obj other =>
    by_cases same : obj = other
    · subst same
      rw [exec, moveAssign, if_neg (by simp)]
      exact ends_pure _ settled
    · have differs : (some obj : Obj) ≠ some other := by simpa using same
      apply ends_mono (moveAssign_ends sound differs) _ (fun _ aborted => aborted.1)
      rintro _ after ⟨target, source, objThere, otherThere, moved⟩
      refine ⟨moved.sound (careful same target source objThere otherThere), ?_⟩
      rw [moved.others none (by simp) (by simp)]
      exact settled.noTemp
  | reserve obj atleast =>
    cases there : st.strs obj with
    | none =>
      refine getStr_any (fun _ => rfl) ?_
      intro str found
      rw [there] at found
      cases found
    | some str =>
      apply ends_mono (reserve_ends sound there atleast.toNat (careful str there)) _
        (fun _ aborted => aborted.1)
      intro _ after reserved
      exact settled.of_others reserved.sound reserved.others
  | appendElement obj c =>
    apply ends_imp (appendText_ends sound obj (show [c].length < 2 ^ 63 by simp))
    rintro _ after ⟨soundAfter, others⟩
    exact settled.of_others soundAfter others
  | append obj other =>
    apply ends_imp (append_ends sound obj other)
    rintro _ after ⟨soundAfter, others⟩
    exact settled.of_others soundAfter others
  | appendText obj text =>
    apply ends_imp (appendText_ends sound obj text.2)
    rintro _ _ ⟨soundAfter, others⟩
    exact settled.of_others soundAfter others

theorem exec_careless (settled : Settled st) (op : Op) (careless : ¬ Careful st op) :
    Ends (exec op) st (fun _ after => ¬ Represented after) (fun fault => fault.memory = true) := by
  have sound := settled.sound
  cases op with
  | copyAssign obj other =>
    simp only [Careful, not_forall] at careless
    obtain ⟨differs, target, source, objThere, otherThere, short, large⟩ := careless
    apply ends_mono (copyAssign_ends sound settled.noTemp differs)
    · rintro _ after ⟨_, target', source', objToo, otherToo, _, broken⟩
      cases objThere.symm.trans objToo
      cases otherThere.symm.trans otherToo
      exact (broken short (by omega)).not_represented
    · rintro _ ⟨_, long⟩
      have := long target source objThere otherThere
      omega
  | moveAssign obj other =>
    simp only [Careful, not_forall] at careless
    obtain ⟨differs, _, _, objThere, otherThere, short, _⟩ := careless
    have distinct : (some obj : Obj) ≠ some other := by simpa using differs
    apply ends_mono (moveAssign_ends sound distinct)
    · rintro _ _ ⟨_, _, objToo, otherToo, moved⟩
      cases objThere.symm.trans objToo
      cases otherThere.symm.trans otherToo
      exact (moved.broken short (by omega)).not_represented
    · rintro _ ⟨_, missing | missing⟩
      · simp [objThere] at missing
      · simp [otherThere] at missing
  | reserve =>
    simp only [Careful, not_forall] at careless
    obtain ⟨_, there, more, _⟩ := careless
    exact reserve_careless sound there more (by omega)
  | _ => exact absurd trivial careless

theorem safe_iff_careful (settled : Settled st) (op : Op) : Safe st op ↔ Careful st op := by
  constructor
  · intro safe
    by_contra careless
    unfold Safe at safe
    cases exec_careless settled op careless with
    | normal result broken =>
      rw [result] at safe
      exact broken safe
    | aborted result loud =>
      rw [result] at safe
      simp [loud] at safe
  · intro careful
    unfold Safe
    cases exec_careful settled op careful with
    | normal result after =>
      rw [result]
      exact after.sound.represented
    | aborted result quiet =>
      rw [result]
      exact quiet

/-- As long as the operations are careful, every capacity on record is covered by
a real buffer, and the next operation is safe exactly if it is careful; appending
always is. -/
theorem small_strings_represented {last : State} {moves : List (Move State Op)}
    (run : Run Step noStrings moves last)
    (careful : ∀ move ∈ moves, Careful move.before move.label) :
    ∀ st ∈ visited noStrings moves, Represented st ∧ (∀ op, Safe st op ↔ Careful st op) ∧
      ∀ obj other c text, Safe st (.appendElement obj c) ∧ Safe st (.append obj other) ∧
        Safe st (.appendText obj text) := by
  have states := run_guarded Settled (fun move => Careful move.before move.label)
    (fun move settled step good => ends_of_ok (exec_careful settled move.label good) step)
    run noStrings_settled careful
  intro st reached
  have settled := states st reached
  refine ⟨settled.sound.represented, safe_iff_careful settled, ?_⟩
  intro _ _ c _
  exact ⟨(safe_iff_careful settled _).mpr trivial, (safe_iff_careful settled _).mpr trivial,
    (safe_iff_careful settled _).mpr trivial⟩

/-- Two short strings, of which the second is moved to the first, and an append. -/
def shortOps : List Op :=
  [.construct 0 ⟨[97, 98], by decide⟩, .construct 1 ⟨[99], by decide⟩, .moveAssign 0 1,
    .appendElement 0 100]

def next (st : State) (op : Op) : Option State := ((exec op).run st).toOption.map Prod.snd

theorem next_step (before : State) (op : Op) (after : State) (done : next before op = some after) :
    Step before op after := by
  unfold next at done
  unfold Step
  cases result : (exec op).run before with
  | error => simp [result, Except.toOption] at done
  | ok =>
    simp only [result, Except.toOption, Option.map_some, Option.some.injEq] at done
    rw [← done]

theorem small_strings_represented_short : (trace next noStrings shortOps).1.length = 4 ∧
    Represented (trace next noStrings shortOps).2 := by
  have run := trace_run next next_step noStrings shortOps
  refine ⟨rfl, ((small_strings_represented run ?_) _ (run_last_visited run)).1⟩
  intro _ member
  rcases member with _ | ⟨_, _ | ⟨_, _ | ⟨_, _ | ⟨_, ⟨⟩⟩⟩⟩⟩
  · trivial
  · trivial
  · rintro _ _ _ ⟨⟩ ⟨⟩ _
    decide
  · trivial

/-- A string of 30 bytes is assigned one of a single byte and keeps its capacity
of 36 for the inline buffer; 20 more bytes are then written past its end. -/
theorem short_assignment_overflows : let long : Text := ⟨List.replicate 30 97, by decide⟩
    let ops : List Op := [.construct 0 long, .construct 1 ⟨[98], by decide⟩, .copyAssign 0 1]
    let last := (trace next noStrings ops).2
    (trace next noStrings ops).1.length = 3 ∧ ¬ Represented last ∧
      (exec (.appendText 0 long)).run last = .error .outOfBounds := by
  intro _ _ last
  have overstated : Overstated last (some 0) := ⟨_, rfl, rfl, by decide⟩
  exact ⟨rfl, overstated.not_represented, rfl⟩

end Nx.StringRuns
