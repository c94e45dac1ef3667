import Mathlib

/-!
Radix trees that live in a heap of tables. A path is followed from a root through the entries that
link to further tables.
-/

namespace Nx.Radix

open List

universe u

variable {Loc Idx Val : Type u}

/-- `own` are the slots of a root that belong to the forest, `shared` is the
one that all roots have in common. -/
structure Shape (Loc Idx Val : Type u) where
  link : Val → Option Loc
  live : Val → Prop
  zero : Val
  own : Idx → Prop
  shared : Idx
  shared_own : own shared
  depth : Nat
  deep : 0 < depth
  live_of_link : ∀ value next, link value = some next → live value
  zero_dead : ¬ live zero

open Shape

variable (shape : Shape Loc Idx Val)
variable {heap other : Loc → Idx → Val} {roots : Set Loc} {root table start : Loc}
  {path walked : List Idx}
variable {index : Idx}

def Shape.descend (heap : Loc → Idx → Val) : Loc → List Idx → Option Loc
  | table, [] => some table
  | table, index :: rest => (shape.link (heap table index)).bind fun next => descend heap next rest

def Shape.Inside (path : List Idx) : Prop := ∀ index, path.head? = some index → shape.own index

def Shape.lookup (heap : Loc → Idx → Val) (root : Loc) (path : List Idx) (index : Idx) : Val :=
  match shape.descend heap root path with
  | none => shape.zero
  | some table => heap table index

def Shape.Reached (heap : Loc → Idx → Val) (roots : Set Loc) (table : Loc) : Prop :=
  ∃ root ∈ roots, ∃ path, shape.Inside path ∧ path.length ≤ shape.depth ∧
    shape.descend heap root path = some table

structure Shape.Forest (heap : Loc → Idx → Val) (roots : Set Loc) : Prop where
  unique : ∀ left ∈ roots, ∀ right ∈ roots, ∀ leftPath rightPath table, shape.Inside leftPath →
    shape.Inside rightPath →
    leftPath.length ≤ shape.depth → rightPath.length ≤ shape.depth →
    shape.descend heap left leftPath = some table →
    shape.descend heap right rightPath = some table →
    leftPath = rightPath ∧ (left = right ∨ leftPath.head? = some shape.shared)
  joined : ∀ left ∈ roots, ∀ right ∈ roots, left ≠ right →
    ∃ table, shape.link (heap left shape.shared) = some table ∧
      shape.link (heap right shape.shared) = some table
  linked : ∀ root ∈ roots, ∀ path index table, shape.Inside (path ++ [index]) →
    path.length < shape.depth → shape.descend heap root path = some table →
    shape.live (heap table index) → ∃ next, shape.link (heap table index) = some next

section Descend

variable {shape}

@[simp] theorem descend_nil (table : Loc) : shape.descend heap table [] = some table := rfl

theorem descend_append (root : Loc) (first second : List Idx) :
    shape.descend heap root (first ++ second) =
      (shape.descend heap root first).bind fun table => shape.descend heap table second := by
  induction first generalizing root with
  | nil => rfl
  | cons index _ ih =>
    simp only [cons_append, descend]
    cases linked : shape.link (heap root index) with
    | none => rfl
    | some next => simpa using ih next

theorem descend_snoc (index : Idx) (here : shape.descend heap root path = some table) :
    shape.descend heap root (path ++ [index]) = shape.link (heap table index) := by
  rw [descend_append, here]
  simp [descend]

theorem descend_congr (root : Loc) (path : List Idx)
    (same : ∀ before index after table, path = before ++ index :: after →
      shape.descend heap root before = some table →
    other table index = heap table index) : shape.descend other root path =
      shape.descend heap root path := by
  induction path generalizing root with
  | nil => rfl
  | cons index rest ih =>
    have first := same [] index rest root rfl rfl
    simp only [descend, first]
    cases linked : shape.link (heap root index) with
    | none => rfl
    | some =>
      apply ih
      intro before later after table split here
      apply same (index :: before) later after table
      · simp [split]
      · simpa [descend, linked] using here

theorem inside_nil : shape.Inside [] := by
  intro _ head
  cases head

theorem Shape.Inside.of_append (inside : shape.Inside (first ++ second)) : shape.Inside first := by
  intro _ head
  apply inside
  cases first with
  | nil => cases head
  | cons => simpa using head

theorem inside_append (some : first ≠ []) : shape.Inside (first ++ second) ↔
    shape.Inside first := by
  constructor
  · exact Inside.of_append
  · intro inside _ head
    apply inside
    cases first with
    | nil => exact absurd rfl some
    | cons => simpa using head

end Descend

def Shape.Agrees (heap other : Loc → Idx → Val) (roots : Set Loc) : Prop :=
  ∀ root ∈ roots, ∀ path index table, shape.Inside (path ++ [index]) →
    path.length ≤ shape.depth → shape.descend heap root path = some table →
    other table index = heap table index

section Agrees

variable {shape}

theorem agrees_of_reached (same : ∀ table, shape.Reached heap roots table →
    other table = heap table) :
    shape.Agrees heap other roots := by
  intro root isRoot path _ table inside short down
  rw [same table ⟨root, isRoot, path, inside.of_append, short, down⟩]

theorem Shape.Forest.agrees_foreign (forest : shape.Forest heap roots) (isStart : start ∈ roots)
    (foreign : ¬ shape.own slot) (same : ∀ table index, (table, index) ≠ (start, slot) →
    other table index = heap table index) : shape.Agrees heap other roots := by
  intro root isRoot path index _ inside short down
  apply same
  intro slotted
  obtain ⟨atStart, atSlot⟩ := Prod.mk.inj slotted
  rw [atStart] at down
  have ⟨empty, _⟩ := forest.unique root isRoot start isStart path [] start inside.of_append
    inside_nil short (Nat.zero_le _) down rfl
  subst empty
  exact foreign (atSlot ▸ inside index rfl)

section

variable (agrees : shape.Agrees heap other roots)
include agrees

theorem Shape.Agrees.descend (isRoot : root ∈ roots) (inside : shape.Inside path)
    (short : path.length ≤ shape.depth) :
    shape.descend other root path = shape.descend heap root path := by
  apply descend_congr
  intro before index after table split down
  have whole : path = (before ++ [index]) ++ after := by simp [split]
  apply agrees root isRoot before index table (whole ▸ inside).of_append _ down
  rw [split, length_append] at short
  omega

theorem Shape.Agrees.reached (table : Loc) : shape.Reached other roots table ↔
    shape.Reached heap roots table := by
  constructor
  · rintro ⟨root, isRoot, path, inside, short, down⟩
    rw [agrees.descend isRoot inside short] at down
    exact ⟨root, isRoot, path, inside, short, down⟩
  · rintro ⟨root, isRoot, path, inside, short, down⟩
    rw [← agrees.descend isRoot inside short] at down
    exact ⟨root, isRoot, path, inside, short, down⟩

theorem Shape.Agrees.lookup (isRoot : root ∈ roots) (inside : shape.Inside (path ++ [index]))
    (short : path.length ≤ shape.depth) : shape.lookup other root path index =
      shape.lookup heap root path index := by
  unfold Shape.lookup
  rw [agrees.descend isRoot inside.of_append short]
  cases down : shape.descend heap root path with
  | none => rfl
  | some table => exact agrees root isRoot path index table inside short down

theorem Shape.Agrees.forest (forest : shape.Forest heap roots) : shape.Forest other roots where
  unique := by
    intro left isLeft right isRight leftPath rightPath table leftInside rightInside leftShort
      rightShort
    rw [agrees.descend isLeft leftInside leftShort, agrees.descend isRight rightInside rightShort]
    exact forest.unique left isLeft right isRight leftPath rightPath table leftInside rightInside
      leftShort rightShort
  joined := by
    have atShared : ∀ root ∈ roots, other root shape.shared = heap root shape.shared := by
      intro root isRoot
      refine agrees root isRoot [] shape.shared root ?_ (Nat.zero_le _) rfl
      rintro _ ⟨⟩
      exact shape.shared_own
    intro left isLeft right isRight differ
    rw [atShared left isLeft, atShared right isRight]
    exact forest.joined left isLeft right isRight differ
  linked := by
    intro root isRoot path index table inside short down live
    rw [agrees.descend isRoot inside.of_append short.le] at down
    rw [agrees root isRoot path index table inside short.le down] at live ⊢
    exact forest.linked root isRoot path index table inside short down live

end

end Agrees

/-- An entry of a table that is reached along `path`; `other` differs from
`heap` there, but on no other entry of a reached table. -/
structure Shape.Edits (heap other : Loc → Idx → Val) (roots : Set Loc) (root : Loc)
    (path : List Idx) (index : Idx) (table : Loc) : Prop where
  isRoot : root ∈ roots
  inside : shape.Inside (path ++ [index])
  short : path.length ≤ shape.depth
  here : shape.descend heap root path = some table
  same : ∀ seen at_, shape.Reached heap roots seen → (seen, at_) ≠ (table, index) → other seen at_ =
    heap seen at_

section Edits

variable {shape}

theorem Shape.Edits.reached (edit : shape.Edits heap other roots root path index table) :
    shape.Reached heap roots table :=
  ⟨root, edit.isRoot, path, edit.inside.of_append, edit.short, edit.here⟩

theorem Shape.Forest.path_unique (forest : shape.Forest heap roots)
    (edit : shape.Edits heap other roots root path index table) (isRoot : start ∈ roots)
      (inside : shape.Inside walked)
    (short : walked.length ≤ shape.depth) (there : shape.descend heap start walked = some table) :
      walked = path ∧
    (start = root ∨ path.head? = some shape.shared) := by
  have ⟨same, related⟩ := forest.unique root edit.isRoot start isRoot path walked table
    edit.inside.of_append inside edit.short short edit.here there
  exact ⟨same.symm, related.imp_left Eq.symm⟩

theorem Shape.Forest.descend_away (forest : shape.Forest heap roots)
    (edit : shape.Edits heap other roots root path index table) (isRoot : start ∈ roots)
    (inside : shape.Inside walked) (short : walked.length ≤ shape.depth)
    (away : ∀ rest, walked = path ++ index :: rest → shape.descend heap start path ≠ some table) :
    shape.descend other start walked = shape.descend heap start walked := by
  apply descend_congr
  intro before at_ after seen split reads
  have beforeInside : shape.Inside before := (split ▸ inside).of_append
  have beforeShort : before.length ≤ shape.depth := by
    rw [split, length_append] at short
    omega
  apply edit.same seen at_ ⟨start, isRoot, before, beforeInside, beforeShort, reads⟩
  intro edited
  cases edited
  have ⟨same, _⟩ := forest.path_unique edit isRoot beforeInside beforeShort reads
  subst same
  exact away after split reads

/-! An entry of a table at the bottom. -/

section

variable (forest : shape.Forest heap roots)
  (edit : shape.Edits heap other roots root path index table) (bottom : path.length = shape.depth)
include forest edit bottom

theorem Shape.Forest.descend_leaf (isRoot : start ∈ roots) (inside : shape.Inside walked)
    (short : walked.length ≤ shape.depth) : shape.descend other start walked =
      shape.descend heap start walked := by
  apply forest.descend_away edit isRoot inside short
  intro _ split
  rw [split, length_append, length_cons] at short
  omega

theorem Shape.Forest.reached_leaf (seen : Loc) :
    shape.Reached other roots seen ↔ shape.Reached heap roots seen := by
  constructor
  · rintro ⟨start, isRoot, walked, inside, short, there⟩
    rw [forest.descend_leaf edit bottom isRoot inside short] at there
    exact ⟨start, isRoot, walked, inside, short, there⟩
  · rintro ⟨start, isRoot, walked, inside, short, there⟩
    rw [← forest.descend_leaf edit bottom isRoot inside short] at there
    exact ⟨start, isRoot, walked, inside, short, there⟩

theorem Shape.Forest.same_above (isRoot : start ∈ roots) (inside : shape.Inside walked)
    (short : walked.length < shape.depth) (there : shape.descend heap start walked = some seen)
      (at_ : Idx) :
    other seen at_ = heap seen at_ := by
  apply edit.same seen at_ ⟨start, isRoot, walked, inside, short.le, there⟩
  intro edited
  cases edited
  have ⟨same, _⟩ := forest.path_unique edit isRoot inside short.le there
  rw [same] at short
  omega

theorem Shape.Forest.leaf : shape.Forest other roots where
  unique := by
    intro left leftRoot right rightRoot leftPath rightPath seen leftInside rightInside leftShort
      rightShort
    rw [forest.descend_leaf edit bottom leftRoot leftInside leftShort,
      forest.descend_leaf edit bottom rightRoot rightInside rightShort]
    exact forest.unique left leftRoot right rightRoot leftPath rightPath seen leftInside
      rightInside leftShort rightShort
  joined := by
    intro left leftRoot right rightRoot differ
    obtain ⟨joint, _, _⟩ := forest.joined left leftRoot right rightRoot differ
    refine ⟨joint, ?_, ?_⟩
    · rwa [forest.same_above edit bottom leftRoot inside_nil shape.deep rfl]
    · rwa [forest.same_above edit bottom rightRoot inside_nil shape.deep rfl]
  linked := by
    intro start isRoot walked at_ seen inside short there live
    rw [forest.descend_leaf edit bottom isRoot inside.of_append short.le] at there
    rw [forest.same_above edit bottom isRoot inside.of_append short there] at live ⊢
    exact forest.linked start isRoot walked at_ seen inside short there live

theorem Shape.Forest.lookup_leaf (isRoot : start ∈ roots) (inside : shape.Inside walked)
    (short : walked.length ≤ shape.depth) (away : shape.descend heap start walked = some table →
      at_ ≠ index) :
    shape.lookup other start walked at_ = shape.lookup heap start walked at_ := by
  unfold lookup
  rw [forest.descend_leaf edit bottom isRoot inside short]
  cases there : shape.descend heap start walked with
  | none => rfl
  | some seen =>
    apply edit.same seen at_ ⟨start, isRoot, walked, inside, short, there⟩
    intro edited
    cases edited
    exact away there rfl

end

end Edits

structure Shape.Links (heap other : Loc → Idx → Val) (roots : Set Loc) (root : Loc)
    (path : List Idx) (index : Idx)
    (table fresh : Loc) : Prop extends shape.Edits heap other roots root path index table where
  above : path.length < shape.depth
  unlinked : shape.link (heap table index) = none
  linksTo : shape.link (other table index) = some fresh
  isFresh : ¬ shape.Reached heap roots fresh
  empty : ∀ at_, other fresh at_ = shape.zero

section Links

variable {shape}

theorem link_zero : shape.link shape.zero = none := by
  cases linked : shape.link shape.zero with
  | none => rfl
  | some => exact absurd (shape.live_of_link _ _ linked) shape.zero_dead

section

variable {fresh : Loc} (forest : shape.Forest heap roots)
  (links : shape.Links heap other roots root path index table fresh)
include forest links

theorem Shape.Forest.descend_link (isRoot : start ∈ roots) (inside : shape.Inside walked)
    (short : walked.length ≤ shape.depth) (seen : Loc) : shape.descend other start walked =
      some seen ↔
    shape.descend heap start walked = some seen ∨ seen = fresh ∧ walked = path ++ [index] ∧
    shape.descend heap start path = some table := by
  by_cases through : ∃ rest, walked = path ++ index :: rest ∧ shape.descend heap start path =
    some table
  · obtain ⟨rest, rfl, there⟩ := through
    have before : shape.descend heap start (path ++ index :: rest) = none := by
      rw [descend_append, there]
      simp [descend, links.unlinked]
    have still : shape.descend other start path = some table := by
      rw [forest.descend_away links.toEdits isRoot inside.of_append links.short, there]
      intro rest split
      have lengths := congrArg List.length split
      simp at lengths
    have after : shape.descend other start (path ++ index :: rest) =
        shape.descend other fresh rest := by
      rw [descend_append, still]
      simp [descend, links.linksTo]
    rw [before, after]
    cases rest with
    | nil => simp [there, eq_comm]
    | cons => simp [descend, links.empty, link_zero]
  · rw [forest.descend_away links.toEdits isRoot inside short]
    · constructor
      · exact .inl
      · rintro (old | ⟨_, split, there⟩)
        · exact old
        · exact absurd ⟨[], split, there⟩ through
    · intro rest split there
      exact through ⟨rest, split, there⟩

theorem Shape.Forest.reached_link (seen : Loc) :
    shape.Reached other roots seen ↔ shape.Reached heap roots seen ∨ seen = fresh := by
  constructor
  · rintro ⟨start, isRoot, walked, inside, short, there⟩
    rcases (forest.descend_link links isRoot inside short seen).mp there with old | ⟨new, _⟩
    · exact .inl ⟨start, isRoot, walked, inside, short, old⟩
    · exact .inr new
  · rintro (⟨start, isRoot, walked, inside, short, there⟩ | rfl)
    · exact ⟨start, isRoot, walked, inside, short,
        (forest.descend_link links isRoot inside short seen).mpr (.inl there)⟩
    · have lower : (path ++ [index]).length ≤ shape.depth := by
        have above := links.above
        rw [length_append, length_singleton]
        omega
      exact ⟨root, links.isRoot, path ++ [index], links.inside, lower,
        (forest.descend_link links links.isRoot links.inside lower _).mpr
          (.inr ⟨rfl, rfl, links.here⟩)⟩

theorem Shape.Forest.link : shape.Forest other roots where
  unique := by
    intro left leftRoot right rightRoot leftPath rightPath seen leftInside rightInside
      leftShort rightShort leftThere rightThere
    rw [forest.descend_link links leftRoot leftInside leftShort] at leftThere
    rw [forest.descend_link links rightRoot rightInside rightShort] at rightThere
    rcases leftThere with leftOld | ⟨rfl, leftSplit, leftTable⟩
    · rcases rightThere with rightOld | ⟨rfl, _, _⟩
      · exact forest.unique left leftRoot right rightRoot leftPath rightPath seen leftInside
          rightInside leftShort rightShort leftOld rightOld
      · exact absurd ⟨left, leftRoot, leftPath, leftInside, leftShort, leftOld⟩ links.isFresh
    · rcases rightThere with rightOld | ⟨_, rightSplit, rightTable⟩
      · exact absurd ⟨right, rightRoot, rightPath, rightInside, rightShort, rightOld⟩ links.isFresh
      · have inside := links.inside.of_append
        have ⟨_, related⟩ := forest.unique left leftRoot right rightRoot path path table inside
          inside links.short links.short leftTable rightTable
        refine ⟨leftSplit.trans rightSplit.symm, related.imp_right ?_⟩
        intro head
        cases path with
        | nil => cases head
        | cons => simpa [leftSplit] using head
  joined := by
    intro left leftRoot right rightRoot differ
    obtain ⟨joint, leftLink, rightLink⟩ := forest.joined left leftRoot right rightRoot differ
    have kept : ∀ start ∈ roots, shape.link (heap start shape.shared) = some joint →
        other start shape.shared = heap start shape.shared := by
      intro start isRoot linked
      apply links.same start _ ⟨start, isRoot, [], inside_nil, Nat.zero_le _, rfl⟩
      intro edited
      cases edited
      rw [links.unlinked] at linked
      cases linked
    exact ⟨joint, by rwa [kept left leftRoot leftLink], by rwa [kept right rightRoot rightLink]⟩
  linked := by
    intro start isRoot walked at_ seen inside short there live
    rcases (forest.descend_link links isRoot inside.of_append short.le seen).mp there with
      old | ⟨rfl, _, _⟩
    · by_cases edited : (seen, at_) = (table, index)
      · cases edited
        exact ⟨fresh, links.linksTo⟩
      · rw [links.same seen at_ ⟨start, isRoot, walked, inside.of_append, short.le, old⟩
          edited] at live ⊢
        exact forest.linked start isRoot walked at_ seen inside short old live
    · rw [links.empty] at live
      exact absurd live shape.zero_dead

theorem Shape.Forest.lookup_link (isRoot : start ∈ roots)
    (inside : shape.Inside walked) (bottom : walked.length = shape.depth) (at_ : Idx) :
    shape.lookup other start walked at_ = shape.lookup heap start walked at_ := by
  have step := forest.descend_link links isRoot inside bottom.le
  unfold lookup
  cases before : shape.descend heap start walked with
  | some seen =>
    rw [(step seen).mpr (.inl before)]
    apply links.same seen at_ ⟨start, isRoot, walked, inside, bottom.le, before⟩
    intro edited
    cases edited
    have ⟨same, _⟩ := forest.path_unique links.toEdits isRoot inside bottom.le before
    have above := links.above
    rw [← same] at above
    omega
  | none =>
    cases after : shape.descend other start walked with
    | none => rfl
    | some seen =>
      rcases (step seen).mp after with old | ⟨rfl, _, _⟩
      · rw [before] at old
        cases old
      · exact links.empty at_

end

end Links

theorem Shape.Forest.lookup_shared {shape : Shape Loc Idx Val} (forest : shape.Forest heap roots)
    (isLeft : left ∈ roots) (isRight : right ∈ roots) {path : List Idx}
      (head : path.head? = some shape.shared)
    (index : Idx) : shape.lookup heap left path index = shape.lookup heap right path index := by
  by_cases same : left = right
  · rw [same]
  · obtain ⟨top, leftLink, rightLink⟩ := forest.joined left isLeft right isRight same
    cases path with
    | nil => cases head
    | cons =>
      cases head
      simp only [lookup, descend, leftLink, rightLink]

section Young

variable {shape} {top : Loc}
  (bare : ∀ root ∈ roots, ∀ index, shape.own index → index ≠ shape.shared →
    ¬ shape.live (heap root index))
  (joint : ∀ root ∈ roots, shape.link (heap root shape.shared) = some top)
  (empty : ∀ index, ¬ shape.live (heap top index))

include bare joint empty

theorem descend_young (isRoot : root ∈ roots) (inside : shape.Inside path)
    (down : shape.descend heap root path = some table) :
    (path = [] ∧ table = root) ∨ (path = [shape.shared] ∧ table = top) := by
  cases path with
  | nil =>
    cases down
    exact .inl ⟨rfl, rfl⟩
  | cons index rest =>
    simp only [descend, Option.bind_eq_some_iff] at down
    obtain ⟨_, linked, below⟩ := down
    by_cases same : index = shape.shared
    · subst same
      rw [joint root isRoot] at linked
      cases linked
      cases rest with
      | nil =>
        cases below
        exact .inr ⟨rfl, rfl⟩
      | cons later =>
        simp only [descend, Option.bind_eq_some_iff] at below
        obtain ⟨_, deeper, _⟩ := below
        exact absurd (shape.live_of_link _ _ deeper) (empty later)
    · exact absurd (shape.live_of_link _ _ linked) (bare root isRoot index (inside index rfl) same)

theorem Shape.Forest.young (apart : top ∉ roots) : shape.Forest heap roots where
  unique := by
    intro left isLeft right isRight _ _ table leftInside rightInside _ _ leftDown rightDown
    rcases descend_young bare joint empty isLeft leftInside leftDown with
      ⟨rfl, rfl⟩ | ⟨rfl, rfl⟩ <;>
    rcases descend_young bare joint empty isRight rightInside rightDown with
      ⟨rfl, same⟩ | ⟨rfl, same⟩
    · exact ⟨rfl, .inl same⟩
    · exact absurd (same ▸ isLeft) apart
    · exact absurd (same ▸ isRight) apart
    · exact ⟨rfl, .inr rfl⟩
  joined := fun left isLeft right isRight _ => ⟨top, joint left isLeft, joint right isRight⟩
  linked := by
    intro _ isRoot _ index table inside _ down live
    rcases descend_young bare joint empty isRoot inside.of_append down with ⟨rfl, rfl⟩ | ⟨rfl, rfl⟩
    · by_cases same : index = shape.shared
      · exact ⟨top, same ▸ joint table isRoot⟩
      · exact absurd live (bare table isRoot index (inside index rfl) same)
    · exact absurd live (empty index)

end Young

end Nx.Radix
