import Mathlib

/-!
The comparisons of libs/libkrt/include/krt/types/impl/arraylike.h, which arrays and strings share.
-/

namespace Nx.ArrayOrder

section Model

variable {Elem : Type} [DecidableEq Elem] [LT Elem] [DecidableLT Elem]

def sameUpTo : List Elem → List Elem → Bool
  | left :: self, right :: other => if left ≠ right then false else sameUpTo self other
  | _, _ => true

def opCmpeq (self other : List Elem) : Bool :=
  if self.length ≠ other.length then false else sameUpTo self other

/-- The loop of `op_cmplt`; `none` if it runs to the shorter of the two ends. -/
@[simp] def lessUpTo : List Elem → List Elem → Option Bool
  | left :: self, right :: other =>
    if left < right then some true
    else if left > right then some false
    else lessUpTo self other
  | _, _ => none

/-- Containers of different sizes are turned away before the loop, so its last
line compares two equal sizes. -/
def opCmplt (self other : List Elem) : Bool :=
  if self.length ≠ other.length then false
  else (lessUpTo self other).getD (decide (self.length < other.length))

end Model

abbrev Str := List Int8

instance int8Order : IsStrictTotalOrder Int8 (· < ·) where
  trichotomous left right notLess notMore := by
    rw [Int8.lt_iff_toInt_lt] at notLess notMore
    apply Int8.toInt_inj.mp
    omega
  irrefl _ := Int8.lt_irrefl
  trans _ _ _ := Int8.lt_trans

section Order

variable {Elem : Type} [DecidableEq Elem]

theorem sameUpTo_iff (self other : List Elem) (sizes : self.length = other.length) :
    sameUpTo self other = true ↔ self = other := by
  induction self generalizing other with
  | nil =>
    cases other with
    | nil => simp [sameUpTo]
    | cons right other => simp at sizes
  | cons left _ ih =>
    cases other with
    | nil => simp at sizes
    | cons right other =>
      have rest := ih other (by simpa using sizes)
      by_cases same : left = right
      · simp [sameUpTo, same, rest]
      · simp [sameUpTo, same]

theorem opCmpeq_iff (self other : List Elem) : opCmpeq self other = true ↔ self = other := by
  by_cases sizes : self.length = other.length
  · simp [opCmpeq, sizes, sameUpTo_iff self other sizes]
  · have differ : self ≠ other := fun same => sizes (congrArg List.length same)
    simp [opCmpeq, sizes, differ]

variable [LT Elem] [DecidableLT Elem]

omit [DecidableEq Elem] in
theorem opCmplt_iff (self other : List Elem) :
    opCmplt self other = true ↔ self.length = other.length ∧
    lessUpTo self other = some true := by
  by_cases sizes : self.length = other.length
  · cases found : lessUpTo self other with
    | none | some less => simp [opCmplt, sizes, found]
  · simp [opCmplt, sizes]

variable [IsStrictTotalOrder Elem (· < ·)]

omit [DecidableEq Elem] in
theorem lessUpTo_self (self : List Elem) : lessUpTo self self = none := by
  induction self with
  | nil => rfl
  | cons left _ ih =>
    have notLess : ¬ left < left := irrefl left
    simp [notLess, ih]

omit [DecidableEq Elem] in
theorem lessUpTo_cons (left right : Elem) (self other : List Elem) : lessUpTo (left :: self)
    (right :: other) = some true ↔ left < right ∨ left = right ∧ lessUpTo self other =
      some true := by
  rcases trichotomous_of (· < ·) left right with less | same | more
  · have differ : left ≠ right := ne_of_irrefl less
    simp [less, differ]
  · subst same
    have notLess : ¬ left < left := irrefl left
    simp [notLess]
  · have notLess : ¬ left < right := asymm_of (· < ·) more
    have differ : left ≠ right := (ne_of_irrefl more).symm
    simp [more, notLess, differ]

omit [DecidableEq Elem] in
theorem lessUpTo_trans (first second third : List Elem) (before : lessUpTo first second = some true)
    (after : lessUpTo second third = some true) : lessUpTo first third = some true := by
  induction first generalizing second third with
  | nil => simp at before
  | cons _ _ ih =>
    cases second with
    | nil => simp at before
    | cons _ second =>
      cases third with
      | nil => simp at after
      | cons _ third =>
        rw [lessUpTo_cons] at before after ⊢
        rcases before with less | ⟨rfl, restBefore⟩
        · rcases after with lessToo | ⟨rfl, _⟩
          · exact .inl (trans_of (· < ·) less lessToo)
          · exact .inl less
        · rcases after with less | ⟨rfl, restAfter⟩
          · exact .inl less
          · exact .inr ⟨rfl, ih second third restBefore restAfter⟩

omit [DecidableEq Elem] in
theorem lessUpTo_total (self other : List Elem) (sizes : self.length = other.length) :
    lessUpTo self other = some true ∨ self = other ∨ lessUpTo other self = some true := by
  induction self generalizing other with
  | nil =>
    cases other with
    | nil => exact .inr (.inl rfl)
    | cons right other => simp at sizes
  | cons left _ ih =>
    cases other with
    | nil => simp at sizes
    | cons right other =>
      rw [lessUpTo_cons, lessUpTo_cons]
      rcases trichotomous_of (· < ·) left right with less | rfl | more
      · exact .inl (.inl less)
      · -- equal heads leave the decision to the rest
        rcases ih other (by simpa using sizes) with less | rfl | more
        · exact .inl (.inr ⟨rfl, less⟩)
        · exact .inr (.inl rfl)
        · exact .inr (.inr (.inr ⟨rfl, more⟩))
      · exact .inr (.inr (.inl more))

omit [DecidableEq Elem] in
theorem opCmplt_irrefl (self : List Elem) : opCmplt self self = false := by
  rw [← Bool.not_eq_true, opCmplt_iff, lessUpTo_self]
  simp

theorem opCmplt_trans {first second third : List Elem} (before : opCmplt first second = true)
    (after : opCmplt second third = true) : opCmplt first third = true := by
  rw [opCmplt_iff] at before after ⊢
  exact ⟨before.1.trans after.1, lessUpTo_trans first second third before.2 after.2⟩

def ExactlyOne (self other : List Elem) : Prop :=
  (opCmplt self other = true ∧ opCmpeq self other = false ∧ opCmplt other self = false) ∨
  (opCmplt self other = false ∧ opCmpeq self other = true ∧ opCmplt other self = false) ∨
  (opCmplt self other = false ∧ opCmpeq self other = false ∧ opCmplt other self = true)
  deriving Decidable

theorem exactlyOne_of_less {self other : List Elem} (less : opCmplt self other = true) :
    opCmpeq self other = false ∧ opCmpeq other self = false ∧ opCmplt other self = false := by
  have differ : self ≠ other := by
    rintro rfl
    rw [opCmplt_irrefl] at less
    cases less
  refine ⟨?_, ?_, ?_⟩
  · rw [← Bool.not_eq_true, opCmpeq_iff]
    exact differ
  · rw [← Bool.not_eq_true, opCmpeq_iff]
    exact differ.symm
  · rw [← Bool.not_eq_true]
    intro more
    have cycle := opCmplt_trans less more
    rw [opCmplt_irrefl] at cycle
    cases cycle

theorem exactlyOne_iff (self other : List Elem) :
    ExactlyOne self other ↔ self.length = other.length := by
  constructor
  · rintro (⟨less, _, _⟩ | ⟨_, same, _⟩ | ⟨_, _, more⟩)
    · exact ((opCmplt_iff _ _).mp less).1
    · rw [(opCmpeq_iff _ _).mp same]
    · exact ((opCmplt_iff _ _).mp more).1.symm
  · intro sizes
    rcases lessUpTo_total self other sizes with less | same | more
    · have smaller := (opCmplt_iff self other).mpr ⟨sizes, less⟩
      have ⟨differ, _, notMore⟩ := exactlyOne_of_less smaller
      exact .inl ⟨smaller, differ, notMore⟩
    · subst same
      exact .inr (.inl ⟨opCmplt_irrefl _, (opCmpeq_iff _ _).mpr rfl, opCmplt_irrefl _⟩)
    · have larger := (opCmplt_iff other self).mpr ⟨sizes.symm, more⟩
      have ⟨_, differ, notLess⟩ := exactlyOne_of_less larger
      exact .inr (.inr ⟨notLess, differ, larger⟩)

/-- The order is irreflexive and transitive, and decides between two containers
exactly when they have the same size. Containers of one size are therefore
strictly and totally ordered, as the keys of a tree have to be. -/
theorem array_order (Elem : Type) [DecidableEq Elem] [LT Elem] [DecidableLT Elem]
    [IsStrictTotalOrder Elem (· < ·)] :
    (∀ self : List Elem, opCmplt self self = false) ∧
      (∀ first second third : List Elem, opCmplt first second = true →
      opCmplt second third = true → opCmplt first third = true) ∧
    (∀ self other : List Elem, ExactlyOne self other ↔ self.length = other.length) ∧
    ∀ size : Nat, IsStrictTotalOrder {self : List Elem // self.length = size}
      fun self other => opCmplt self.1 other.1 = true := by
  refine ⟨opCmplt_irrefl, fun _ _ _ => opCmplt_trans, exactlyOne_iff, ?_⟩
  intro _
  exact
    { trichotomous := by
        rintro ⟨self, selfSize⟩ ⟨other, otherSize⟩ notLess notMore
        have sizes : self.length = other.length := selfSize.trans otherSize.symm
        rcases (exactlyOne_iff self other).mpr sizes with ⟨less, _⟩ | ⟨_, same, _⟩ | ⟨_, _, more⟩
        · exact absurd less notLess
        · exact Subtype.ext ((opCmpeq_iff _ _).mp same)
        · exact absurd more notMore
      irrefl := by
        rintro ⟨_, _⟩ less
        rw [opCmplt_irrefl] at less
        cases less
      trans := fun _ _ _ => opCmplt_trans }

/-- Strings: `"ab"` and `"ac"` compare as they should. -/
theorem array_order_strings : IsStrictTotalOrder Int8 (· < ·) ∧ ExactlyOne ([97, 98] : Str)
    [97, 99] ∧
    opCmplt ([97, 98] : Str) [97, 99] = true :=
  ⟨inferInstance, ((array_order Int8).2.2.1 _ _).mpr rfl, by decide⟩

/-- `"a"` and `"bb"`: neither is less, and they are not equal. -/
theorem sizes_incomparable : opCmplt ([97] : Str) [98, 98] = false ∧
    opCmpeq ([97] : Str) [98, 98] = false ∧
    opCmplt ([98, 98] : Str) [97] = false := by
  decide

end Order

end Nx.ArrayOrder
