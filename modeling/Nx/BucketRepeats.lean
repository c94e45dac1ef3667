import Nx.BucketOps

/-!
Insertions into one map, where a key may be inserted again.
-/

namespace Nx.BucketRepeats

open Outcomes Cells BucketMaps BucketChains BucketGrowth BucketOps List

variable {Ptr K V : Type} [DecidableEq K]

section Programs

variable [DecidableEq Ptr] (hash : K → Nat)

/-- The pairs are inserted into an empty map, the last of the list first. -/
def insertAll : List (K × V) → Program (Heap Ptr K V) Fault (HashMap Ptr)
  | [] => pure {}
  | (key, value) :: earlier => do
    let self ← insertAll earlier
    let out ← insert hash self key value
    pure out.2

def valueAt (self : HashMap Ptr) (key : K) : Program (Heap Ptr K V) Fault (Option V) := do
  let it ← find hash self key
  match it.node with
  | none => pure none
  | some node => do
    let here ← loadBucket (some node)
    pure (some here.value)

/-- Whenever the next insertion resizes the table, no key is in it twice. -/
def Unrepeated (mem : Heap Ptr K V) : List (K × V) → Prop
  | [] => True
  | _ :: earlier => Unrepeated mem earlier ∧ ∀ self after, (insertAll hash earlier).run mem = .ok (self, after) →
      newCapacity self = self.numBuckets ∨ (earlier.map Prod.fst).Nodup

end Programs

variable {hash : K → Nat} {chains xs ys : List (List (Entry Ptr K V))} {entry : Entry Ptr K V}
  {key : K}
variable {mem : Heap Ptr K V} {self : HashMap Ptr} {pairs : List (K × V)}

theorem latest_front {chain} (home : Home hash (xs ++ (entry :: chain) :: ys).length
    (xs ++ (entry :: chain) :: ys)) :
    latest hash (xs ++ (entry :: chain) :: ys) key =
      if entry.key = key then some entry else latest hash (xs ++ chain :: ys) key := by
  have length : (xs ++ (entry :: chain) :: ys).length = (xs ++ chain :: ys).length := by simp
  have place := home.middle entry mem_cons_self
  rw [latest, latest, ← length]
  generalize (xs ++ (entry :: chain) :: ys).length = len at place ⊢
  by_cases same : entry.key = key
  · rw [if_pos same, ← same, place]
    simp
  · rw [if_neg same]
    by_cases here : hash key % len = xs.length
    · simp [here, same]
    · rw [← set_middle xs ys chain (entry :: chain), getElem?_set_ne (Ne.symm here)]

/-- A map into which the pairs were inserted, the last of them first. -/
structure Recorded (hash : K → Nat) (pairs : List (K × V)) (map : HashMap Ptr) (mem : Heap Ptr K V)
    (chains : List (List (Entry Ptr K V))) : Prop where
  stored : Stored hash map mem chains
  keys : (chains.flatten.map Entry.key).Perm (pairs.map Prod.fst)
  values : ∀ key, (latest hash chains key).map Entry.value = pairs.lookup key

theorem Recorded.find (recorded : Recorded hash pairs self mem chains) :
    Ends (valueAt hash self key) mem
    (fun value same => value = pairs.lookup key ∧ same = mem) failed := by
  rw [← recorded.values key]
  apply ends_read (find_ends recorded.stored)
  rintro it ⟨isNode, _⟩
  rw [isNode]
  cases found : latest hash chains key with
  | none => exact ends_pure _ ⟨rfl, rfl⟩
  | some entry =>
    obtain ⟨_, _, _, _, rfl, _⟩ := latest_split found
    exact ends_loadBucket (linked_back (recorded.stored.table.linked _ mem_append_cons_self)).1
      (ends_pure _ ⟨rfl, rfl⟩)

variable [DecidableEq Ptr]

theorem ensureSize_records (recorded : Recorded hash pairs self mem chains)
    (unrepeated : newCapacity self = self.numBuckets ∨ (pairs.map Prod.fst).Nodup) :
      Ends (ensureSize hash self) mem
    (fun sized now => ∃ chains', chains' ≠ [] ∧ Recorded hash pairs sized now chains')
      (· = .noMemory) := by
  rcases unrepeated with steady | once
  · rw [ensureSize, if_pos steady]
    refine ends_pure _ ⟨chains, ?_, recorded⟩
    rintro rfl
    exact newCapacity_ne_zero self (steady.trans recorded.stored.buckets)
  -- each chain is turned round, which shows only in equal keys
  · have keys := recorded.keys.nodup_iff.mpr once
    apply ends_imp (ensureSize_ends (recorded.stored.holds keys))
    rintro _ _ ⟨chains', ⟨holds, nonempty, perm, _⟩⟩
    refine ⟨chains', nonempty, holds.stored, (perm.map _).trans recorded.keys, ?_⟩
    intro key
    have same : latest hash chains' key = latest hash chains key := by
      ext entry
      rw [latest_iff holds.home holds.keys, latest_iff recorded.stored.home keys, perm.mem_iff]
    rw [same, recorded.values]

theorem insert_records (recorded : Recorded hash pairs self mem chains)
    (unrepeated : newCapacity self = self.numBuckets ∨ (pairs.map Prod.fst).Nodup) :
      Ends (insert hash self key value) mem
    (fun out now => ∃ chains', Recorded hash ((key, value) :: pairs) out.2 now chains')
      (· = .noMemory) := by
  apply ends_seq (ensureSize_records recorded unrepeated)
  rintro _ _ ⟨_, nonempty, sized⟩
  refine ends_allocate (fun _ => rfl) ?_
  intro node _ free
  apply ends_seq (insertNode_ends ⟨node, key, value⟩ sized.stored nonempty free)
  rintro _ _ ⟨_, xs, chain, ys, rfl, stored, _⟩
  refine ends_pure _ ⟨_, stored, ((flatten_insert [] chain).map Entry.key).trans
    (sized.keys.cons key), ?_⟩
  intro other
  rw [latest_front stored.home]
  by_cases same : key = other
  · simp [same]
  · rw [if_neg same, sized.values, lookup_cons, beq_false_of_ne (Ne.symm same)]

theorem insertAll_ends (unrepeated : Unrepeated hash mem pairs) : Ends (insertAll hash pairs) mem
    (fun self now => ∃ chains, Recorded hash pairs self now chains) (· = .noMemory) := by
  induction pairs with
  | nil => exact ends_pure _ ⟨[], ⟨rfl, ⟨.inl ⟨rfl, rfl⟩, by simp, nodup_nil⟩, nofun, rfl, Nat.zero_le _⟩, .refl _, fun _ => rfl⟩
  | cons pair earlier ih =>
    cases ih unrepeated.1 with
    | aborted ran isAbort => exact ends_bind (.aborted ran isAbort)
    | normal ran holds =>
      obtain ⟨chains, recorded⟩ := holds
      refine ends_bind (.normal ran (ends_seq (insert_records recorded (unrepeated.2 _ _ ran)) ?_))
      exact fun out _ now => ends_pure _ now

/-- `find` gives the value that was inserted last, if no key was in the map twice whenever its table
was resized. -/
theorem find_gives_latest (hash : K → Nat) (mem : Heap Ptr K V) (pairs : List (K × V)) (key : K)
    (unrepeated : Unrepeated hash mem pairs) :
    Ends (insertAll hash pairs) mem (fun self now => Ends (valueAt hash self key) now
      (fun value same => value = pairs.lookup key ∧ same = now) (fun _ => False))
        (· = .noMemory) := by
  apply ends_imp (insertAll_ends unrepeated)
  rintro self now ⟨chains, recorded⟩
  exact recorded.find

def freshMem : Heap Nat Nat Nat := ⟨fun _ => none, List.range 13, 0⟩

theorem find_gives_latest_twice : Ends (insertAll id [(0, 2), (0, 1)]) freshMem (fun self now =>
    Ends (valueAt id self 0) now (fun value same => value = some 2 ∧ same = now) (fun _ => False))
      (· = .noMemory) :=
  find_gives_latest id freshMem [(0, 2), (0, 1)] 0 ⟨⟨trivial, fun _ _ _ => .inr nodup_nil⟩,
    fun _ _ _ => .inr (by simp)⟩

/-- The table is resized for the eleventh entry, and then `find` gives the first of two values. -/
theorem find_gives_oldest :
    ((insertAll id ((List.range 9).map (· + 1, 0) ++ [(0, 2), (0, 1)]) >>= (valueAt id · 0)).run
    freshMem).toOption.map (·.1) = some (some 1) := by
  decide +kernel

end Nx.BucketRepeats
