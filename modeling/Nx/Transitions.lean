import Mathlib

/-!
Runs of labelled transition systems.
-/

namespace Nx.Transitions

open List universe u v w

variable {State : Type u} {Label : Type v}

structure Move (State : Type u) (Label : Type v) where
  before : State
  label : Label
  after : State

inductive Run (Step : State → Label → State → Prop) :
    State → List (Move State Label) → State → Prop where
  | refl (state) : Run Step state [] state
  | next {before after last : State} {label : Label} {rest : List (Move State Label)} :
      Step before label after → Run Step after rest last →
      Run Step before (⟨before, label, after⟩ :: rest) last

def visited (start : State) (moves : List (Move State Label)) : List State :=
  start :: moves.map Move.after

section Guarded

variable (Inv : State → Prop) (Good : Move State Label → Prop)

theorem run_guarded_moves (Property : Move State Label → Prop) (keep : ∀ move : Move State Label,
    Inv move.before →
    Step move.before move.label move.after → Good move → Inv move.after ∧ Property move)
    (run : Run Step start moves last) (holds : Inv start) (good : ∀ move ∈ moves, Good move) :
    ∀ move ∈ moves, Property move := by
  induction run with
  | refl => simp
  | @next _ _ _ _ _ step _ ih =>
    have ⟨first, later⟩ := forall_mem_cons.mp good
    have ⟨kept, property⟩ := keep _ holds step first
    exact forall_mem_cons.mpr ⟨property, ih kept later⟩

/-- For a property that only some moves keep: along a run of such moves it holds
throughout. -/
theorem run_guarded (keep : ∀ move : Move State Label, Inv move.before →
    Step move.before move.label move.after →
    Good move → Inv move.after) (run : Run Step start moves last) (holds : Inv start)
    (good : ∀ move ∈ moves, Good move) : ∀ state ∈ visited start moves, Inv state := by
  have kept : ∀ move ∈ moves, Inv move.after := by
    refine run_guarded_moves Inv Good _ ?_ run holds good
    intro move inv step isGood
    exact ⟨keep move inv step isGood, keep move inv step isGood⟩
  simpa [visited] using ⟨holds, kept⟩

theorem run_invariant (keep : ∀ before label after, Inv before → Step before label after →
    Inv after)
    (run : Run Step start moves last) (holds : Inv start) :
      (∀ state ∈ visited start moves, Inv state) ∧
    ∀ move ∈ moves, Inv move.before ∧ Step move.before move.label move.after := by
  have any : ∀ move ∈ moves, True := fun _ _ => trivial
  constructor
  · exact run_guarded Inv _ (fun _ inv step _ => keep _ _ _ inv step) run holds any
  · exact run_guarded_moves Inv _ _ (fun _ inv step _ => ⟨keep _ _ _ inv step, inv, step⟩) run
      holds any

end Guarded

theorem run_simulated {Abstract : Type w} {AbstractStep : Abstract → Label → Abstract → Prop}
    (Related : State →
    Abstract → Prop) (Good : Move State Label → Prop)
    (simulate : ∀ (move : Move State Label) (abstract : Abstract), Related move.before abstract →
    Step move.before move.label move.after → Good move → ∃ next,
      AbstractStep abstract move.label next ∧
    Related move.after next) (run : Run Step start moves last) (good : ∀ move ∈ moves, Good move)
      {abstract : Abstract}
    (related : Related start abstract) : ∃ abstractMoves final,
      Run AbstractStep abstract abstractMoves final ∧
    abstractMoves.map Move.label = moves.map Move.label ∧ Related last final := by
  induction run generalizing abstract with
  | refl => exact ⟨[], abstract, .refl abstract, rfl, related⟩
  | @next before after _ label _ step _ ih =>
    have ⟨first, later⟩ := forall_mem_cons.mp good
    obtain ⟨next, abstractStep, relatedNext⟩ :=
      simulate ⟨before, label, after⟩ abstract related step first
    obtain ⟨abstractMoves, final, abstractRun, labels, relatedLast⟩ := ih later relatedNext
    exact ⟨⟨abstract, label, next⟩ :: abstractMoves, final, .next abstractStep abstractRun,
      congrArg (label :: ·) labels, relatedLast⟩

theorem run_and (Good : Move State Label → Prop) (run : Run Step start moves last)
    (good : ∀ move ∈ moves, Good move) :
    Run (fun before label after => Step before label after ∧ Good ⟨before, label, after⟩) start
      moves last := by
  induction run with
  | refl => exact .refl _
  | next step _ ih =>
    have ⟨here, later⟩ := forall_mem_cons.mp good
    exact .next ⟨step, here⟩ (ih later)

theorem run_last_visited (run : Run Step start moves last) : last ∈ visited start moves := by
  induction run with
  | refl => simp [visited]
  | next _ _ ih => exact mem_cons_of_mem _ ih

theorem observation_constant_iff {Value : Type w} (observe : State → Value)
    (run : Run Step start moves last) :
    (∀ state ∈ visited start moves, observe state = observe start) ↔
    ∀ move ∈ moves, observe move.after = observe move.before := by
  induction run with
  | refl state => simp [visited]
  | @next before after _ label _ _ _ ih =>
    constructor
    · intro constant
      have first : observe after = observe before := constant after (by simp [visited])
      intro move member
      rcases mem_cons.mp member with same | later
      · simpa [same] using first
      · refine ih.mp ?_ move later
        intro state reached
        rw [first]
        exact constant state (mem_cons_of_mem _ reached)
    · intro kept
      have first : observe after = observe before := kept ⟨before, label, after⟩ (by simp)
      intro state reached
      rcases mem_cons.mp reached with same | later
      · rw [same]
      · rw [← first]
        exact ih.mpr (fun move member => kept move (mem_cons_of_mem _ member)) state later

/-- If, where the invariant holds, a move has a property exactly when it is a
good one, and good moves keep the invariant, then a run has the property
throughout exactly when all its moves are good. -/
theorem run_exact (Inv : State → Prop) (Good Property : Move State Label → Prop)
    (keep : ∀ move : Move State Label, Inv move.before → Step move.before move.label move.after →
      Good move →
    Inv move.after ∧ Property move) (exact : ∀ move : Move State Label, Inv move.before →
    Step move.before move.label move.after → Property move → Good move)
      (run : Run Step start moves last)
    (holds : Inv start) : (∀ move ∈ moves, Property move) ↔ ∀ move ∈ moves, Good move := by
  induction run with
  | refl => simp
  | @next _ _ _ _ _ step _ ih =>
    simp only [forall_mem_cons]
    constructor
    · rintro ⟨first, later⟩
      have good := exact _ holds step first
      exact ⟨good, (ih (keep _ holds step good).1).mp later⟩
    · rintro ⟨first, later⟩
      have ⟨kept, property⟩ := keep _ holds step first
      exact ⟨property, (ih kept).mpr later⟩

/-- Where a program leads that should give this result; `split` takes its outcome apart. -/
def answered {Fault Out Result : Type*} [DecidableEq Result] (split : Out → Result × State)
    (ran : Except Fault Out) (result : Result) : Option State :=
  match ran with
  | .ok out => if (split out).1 = result then some (split out).2 else none
  | .error _ => none

theorem ok_of_answered {Fault Out Result : Type*} [DecidableEq Result]
    {split : Out → Result × State}
    {ran : Except Fault Out} {result : Result} {after : State}
    (moved : answered split ran result = some after) :
    ∃ out, ran = .ok out ∧ split out = (result, after) := by
  unfold answered at moved
  split at moved
  next out =>
    obtain ⟨same, there⟩ := Option.ite_none_right_eq_some.mp moved
    exact ⟨out, rfl, Prod.ext same (Option.some.inj there)⟩
  next => cases moved

/-- The moves a system makes on a list of labels, as far as it can, and where
it ends up. -/
def trace (next : State → Label → Option State) :
    State → List Label → List (Move State Label) × State
  | state, [] => ([], state)
  | state, label :: rest =>
    match next state label with
    | none => ([], state)
    | some after =>
      let later := trace next after rest
      (⟨state, label, after⟩ :: later.1, later.2)

theorem trace_run (next : State → Label → Option State)
    (sound : ∀ before label after, next before label = some after → Step before label after)
    (start : State) (labels : List Label) : Run Step start (trace next start labels).1
      (trace next start labels).2 := by
  induction labels generalizing start with
  | nil => exact .refl start
  | cons label _ ih =>
    cases moved : next start label with
    | none => simpa [trace, moved] using Run.refl start
    | some after => simpa [trace, moved] using Run.next (sound _ _ _ moved) (ih after)

end Nx.Transitions
