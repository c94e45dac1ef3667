import Mathlib

/-!
Lists of the entries of a finite map. The order is that of whoever makes the list;
every key comes once.
-/

namespace Nx.FiniteMaps

open List

variable {K V : Type}

abbrev FiniteMap (K V : Type) := Finmap fun _ : K => V

def paired (entries : List (K × V)) : List (Sigma fun _ : K => V) :=
  entries.map fun entry => ⟨entry.1, entry.2⟩

@[simp] theorem keys_paired (entries : List (K × V)) :
    (paired entries).keys = entries.map Prod.fst := by
  rw [List.keys, paired, map_map]
  rfl

theorem mem_paired : (⟨key, value⟩ : Sigma fun _ : K => V) ∈ paired entries ↔
    (key, value) ∈ entries := by
  rw [paired, mem_map]
  constructor
  · rintro ⟨⟨_, _⟩, member, same⟩
    cases same
    exact member
  · intro member
    exact ⟨(key, value), member, rfl⟩

structure Lists (entries : List (K × V)) (map : FiniteMap K V) : Prop where
  same : map.entries = (paired entries : Multiset _)

section Entries

variable {entries others : List (K × V)} {map : FiniteMap K V}

theorem lists_nil : Lists ([] : List (K × V)) ∅ := ⟨rfl⟩

theorem Lists.perm (lists : Lists entries map) (perm : others.Perm entries) : Lists others map :=
  ⟨lists.same.trans (Multiset.coe_eq_coe.mpr (perm.symm.map _))⟩

theorem Lists.card_keys (lists : Lists entries map) : map.keys.card = entries.length := by
  change map.entries.keys.card = _
  rw [lists.same, Multiset.coe_keys, Multiset.coe_card, keys_paired, length_map]

theorem Lists.mem_iff (lists : Lists entries map) : key ∈ map ↔ key ∈ entries.map Prod.fst := by
  rw [Finmap.mem_def, lists.same, Multiset.coe_keys, keys_paired, Multiset.mem_coe]

variable [DecidableEq K]

theorem Lists.lookup_eq_some (lists : Lists entries map) :
    map.lookup key = some value ↔ (key, value) ∈ entries := by
  rw [← mem_paired, ← Multiset.mem_coe, ← lists.same]
  exact Finmap.lookup_eq_some_iff

theorem Lists.insert (lists : Lists entries map) (absent : key ∉ map) :
    Lists ((key, value) :: entries) (map.insert key value) := by
  refine ⟨?_⟩
  rw [Finmap.entries_insert_of_notMem absent, lists.same]
  rfl

theorem insert_erase (map : FiniteMap K V) (key : K) (value : V) :
    (map.erase key).insert key value = map.insert key value := by
  refine Finmap.ext_lookup fun other => ?_
  by_cases same : other = key
  · subst same
    rw [Finmap.lookup_insert, Finmap.lookup_insert]
  · rw [Finmap.lookup_insert_of_ne _ same, Finmap.lookup_insert_of_ne _ same,
      Finmap.lookup_erase_ne same]

theorem insert_lookup (there : map.lookup key = some value) : map.insert key value = map := by
  refine Finmap.ext_lookup fun other => ?_
  by_cases same : other = key
  · subst same
    rw [Finmap.lookup_insert, there]
  · rw [Finmap.lookup_insert_of_ne _ same]

theorem Lists.erase (lists : Lists ((key, value) :: entries) map) :
    Lists entries (map.erase key) := by
  have there : map.lookup key = some value := lists.lookup_eq_some.mpr mem_cons_self
  have whole : (⟨key, value⟩ ::ₘ (map.erase key).entries : Multiset (Sigma fun _ : K => V)) =
      ⟨key, value⟩ ::ₘ (paired entries : Multiset _) := by
    rw [← Finmap.entries_insert_of_notMem Finmap.notMem_erase_self, insert_erase,
      insert_lookup there, lists.same]
    rfl
  exact ⟨(Multiset.cons_inj_right _).mp whole⟩

theorem Lists.assign (lists : Lists ((key, old) :: entries) map) :
    Lists ((key, value) :: entries) (map.insert key value) := by
  rw [← insert_erase]
  exact lists.erase.insert Finmap.notMem_erase_self

theorem erase_absent (absent : key ∉ map) : map.erase key = map := by
  refine Finmap.ext_lookup fun other => ?_
  by_cases same : other = key
  · subst same
    rw [Finmap.lookup_erase, Finmap.lookup_eq_none.mpr absent]
  · rw [Finmap.lookup_erase_ne same]

end Entries

end Nx.FiniteMaps
