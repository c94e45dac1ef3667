import Mathlib

/-!
Chains of links. An item may have a next one; a chain is the list of the items met on the way from a
start until there is no next one.
-/

namespace Nx.Chains

universe u

variable {Item : Type u}

def Chain (next : Item → Option Item) : Option Item → List Item → Prop
  | start, [] => start = none
  | start, first :: rest => start = some first ∧ Chain next (next first) rest

@[simp] theorem chain_nil : Chain next start [] ↔ start = none := Iff.rfl

theorem chain_of_none (chain : Chain next none items) : items = [] := by
  cases items with
  | nil => rfl
  | cons => cases chain.1

theorem chain_of_some (chain : Chain next (some first) items) :
    ∃ rest, items = first :: rest ∧ Chain next (next first) rest := by
  cases items with
  | nil => cases chain
  | cons _ rest =>
    cases chain.1
    exact ⟨rest, rfl, chain.2⟩

theorem chain_congr (same : ∀ item ∈ items, other item = next item)
    (chain : Chain next start items) : Chain other start items := by
  induction items generalizing start with
  | nil => exact chain
  | cons first _ ih =>
    refine ⟨chain.1, ?_⟩
    rw [same first List.mem_cons_self]
    exact ih (fun item member => same item (List.mem_cons_of_mem _ member)) chain.2

theorem chain_unique (chain : Chain next start items) (chain' : Chain next start items') :
    items' = items := by
  induction items generalizing start items' with
  | nil =>
    rw [chain_nil] at chain
    subst chain
    exact chain_of_none chain'
  | cons _ _ ih =>
    obtain ⟨rfl, tail⟩ := chain
    obtain ⟨_, rfl, tail'⟩ := chain_of_some chain'
    rw [ih tail tail']

theorem chain_drop (chain : Chain next start (before ++ item :: after)) :
    Chain next (some item) (item :: after) := by
  induction before generalizing start with
  | nil => exact ⟨rfl, chain.2⟩
  | cons _ _ ih => exact ih chain.2

theorem chain_nodup (chain : Chain next start items) : items.Nodup := by
  induction items generalizing start with
  | nil => exact List.nodup_nil
  | cons first rest ih =>
    refine List.nodup_cons.mpr ⟨?_, ih chain.2⟩
    intro again
    -- the way from the second meeting would be the whole way once more
    obtain ⟨_, _, split⟩ := List.append_of_mem again
    have whole : Chain next (some first) (first :: rest) := ⟨rfl, chain.2⟩
    have tail := chain_drop (split ▸ chain.2)
    have same := congrArg List.length (chain_unique whole tail)
    rw [split] at same
    simp only [List.length_cons, List.length_append] at same
    omega

end Nx.Chains
