import Mathlib

/-!
Programs that change a state and may abort, and what can be said about how they end: one condition
for a normal end, one for an abort.
-/

namespace Nx.Outcomes

universe u

variable {σ ε α β : Type u}

abbrev Program (σ ε α : Type u) := StateT σ (Except ε) α

/-- Started in `state`, the program ends normally with `done`, or aborts with
`failed`. -/
inductive Ends (program : Program σ ε α) (state : σ) (done : α → σ → Prop) (failed : ε → Prop) :
    Prop where
  | normal {value : α} {after : σ} (result : program.run state = .ok (value, after))
      (holds : done value after) : Ends program state done failed
  | aborted {abort : ε} (result : program.run state = .error abort)
      (holds : failed abort) : Ends program state done failed

theorem ends_mono (ends : Ends program state done failed)
    (normal : ∀ value after, done value after → doneToo value after)
    (aborted : ∀ abort, failed abort → failedToo abort) : Ends program state doneToo failedToo := by
  cases ends with
  | normal result holds => exact .normal result (normal _ _ holds)
  | aborted result holds => exact .aborted result (aborted _ holds)

theorem ends_imp (ends : Ends program state done failed)
    (normal : ∀ value after, done value after → doneToo value after) :
      Ends program state doneToo failed :=
  ends_mono ends normal fun _ => id

theorem ends_any (program : Program σ ε α) (state : σ) :
    Ends program state (fun _ _ => True) (fun _ => True) := by
  cases result : program.run state with
  | ok => exact .normal result trivial
  | error => exact .aborted result trivial

theorem ends_pure (value : α) (holds : done value state) : Ends (pure value) state done failed :=
  .normal rfl holds

theorem ends_throw (abort : ε) (holds : failed abort) :
    Ends (throw abort : Program σ ε α) state done failed := .aborted rfl holds

theorem ends_set (after : σ) {done : PUnit → σ → Prop} (holds : done ⟨⟩ after) :
    Ends (set after : Program σ ε PUnit) state done failed := .normal rfl holds

theorem ends_bind (first : Ends program state (fun value middle =>
    Ends (next value) middle after failed) failed) :
    Ends (program >>= next) state after failed := by
  cases first with
  | @normal value middle result rest =>
    have whole : (program >>= next).run state = (next value).run middle := by
      rw [StateT.run_bind, result]
      rfl
    cases rest with
    | normal final holds => exact .normal (whole.trans final) holds
    | aborted final holds => exact .aborted (whole.trans final) holds
  | aborted result holds =>
    refine .aborted ?_ holds
    rw [StateT.run_bind, result]
    rfl

theorem ends_seq (first : Ends program state done failed)
    (later : ∀ value middle, done value middle →
    Ends (next value) middle after failed) : Ends (program >>= next) state after failed :=
  ends_bind (ends_imp first later)

theorem ends_call (first : Ends program state done failed) (aborted : ∀ abort, failed abort →
    failedToo abort)
    (later : ∀ value middle, done value middle → Ends (next value) middle after failedToo) :
    Ends (program >>= next) state after failedToo :=
  ends_bind (ends_mono first later aborted)

theorem ends_read {found : α → Prop} (first :
    Ends program state (fun value same => found value ∧ same = state) failed)
    (rest : ∀ value, found value → Ends (next value) state after failed) :
    Ends (program >>= next) state after failed := by
  apply ends_seq first
  rintro value _ ⟨holds, rfl⟩
  exact rest value holds

theorem ends_get {next : σ → Program σ ε β} (rest : Ends (next state) state after failed) :
    Ends (get >>= next) state after failed := ends_bind (.normal rfl rest)

theorem ends_put {next : PUnit → Program σ ε β} (rest : Ends (next ⟨⟩) new after failed) :
    Ends (set new >>= next) state after failed := ends_bind (.normal rfl rest)

theorem ends_exists (ends : Ends program state done fun _ => False) :
    ∃ value after, program.run state = .ok (value, after) ∧ done value after := by
  cases ends with
  | normal result holds => exact ⟨_, _, result, holds⟩
  | aborted _ holds => exact holds.elim

theorem ends_of_ok (ends : Ends program state done failed) {value : α} {after : σ}
    (result : program.run state = .ok (value, after)) : done value after := by
  cases ends with
  | normal same holds =>
    cases result.symm.trans same
    exact holds
  | aborted other => cases result.symm.trans other

/-! Properties of the state that a program keeps. -/

section Preserves

variable {inv : σ → Prop}

def Preserves (inv : σ → Prop) (program : Program σ ε α) : Prop :=
  ∀ state, inv state → Ends program state (fun _ after => inv after) (fun _ => True)

theorem preserves_pure (value : α) : Preserves inv (pure value : Program σ ε α) :=
  fun _ holds => ends_pure _ holds

theorem preserves_throw (abort : ε) : Preserves inv (throw abort : Program σ ε α) :=
  fun _ _ => ends_throw _ trivial

theorem preserves_bind {program : Program σ ε α} {next : α → Program σ ε β}
    (first : Preserves inv program)
    (rest : ∀ value, Preserves inv (next value)) : Preserves inv (program >>= next) :=
  fun state holds => ends_seq (first state holds) fun value middle kept => rest value middle kept

theorem preserves_get {next : σ → Program σ ε β}
    (rest : ∀ state, inv state → Ends (next state) state (fun _ after => inv after)
      (fun _ => True)) :
    Preserves inv (get >>= next) := fun state holds => ends_get (rest state holds)

theorem preserves_ite {condition : Prop} [Decidable condition] {first second : Program σ ε α}
    (isFirst : Preserves inv first) (isSecond : Preserves inv second) :
    Preserves inv (if condition then first else second) := by
  split
  · exact isFirst
  · exact isSecond

end Preserves

end Nx.Outcomes
