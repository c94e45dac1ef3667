import Nx.BucketOps

/-!
The loop that erases entries of a map while it iterates.
-/

namespace Nx.BucketSweeps

open Outcomes Cells BucketMaps BucketChains BucketGrowth BucketOps List

variable {Ptr K V : Type}

section Loop

variable [DecidableEq Ptr] (test : Entry Ptr K V → Bool)

/-- `while(it != end()) { if(test(*it)) it = erase(it); else ++it; }`, with what was tested. The
assignment leaves `it` the bucket that it had. -/
def sweepFrom : Nat → HashMap Ptr → Iterator Ptr → Program (Heap Ptr K V) Fault
    (List (Entry Ptr K V) × HashMap Ptr)
  | _, self, ⟨none, _⟩ => pure ([], self)
  | 0, _, ⟨some _, _⟩ => throw .unbounded
  | fuel + 1, self, ⟨some node, bucketIdx⟩ => do
    let here ← loadBucket (some node)
    let entry := ⟨node, here.key, here.value⟩
    if test entry then
      let out ← erase self ⟨some node, bucketIdx⟩
      let rest ← sweepFrom fuel out.2 ⟨out.1.node, bucketIdx⟩
      pure (entry :: rest.1, rest.2)
    else
      let it ← increment self ⟨some node, bucketIdx⟩
      let rest ← sweepFrom fuel self it
      pure (entry :: rest.1, rest.2)

def sweep (self : HashMap Ptr) :
    Program (Heap Ptr K V) Fault (List (Entry Ptr K V) × HashMap Ptr) := do
  let mem ← get
  let it ← begin self
  sweepFrom test mem.made self it

end Loop

section Chains

variable {α : Type} (test : α → Bool)

/-- What is tested and what is left, from a chain of which `front` is behind the loop. -/
def through (front chain : List α) (later : List α × List (List α)) : List α × List (List α) :=
  (chain ++ later.1, (front ++ chain.filter (!test ·)) :: later.2)

/-- The loop ends with a chain whose last entry it erases. -/
def fate : List (List α) → List α × List (List α)
  | [] => ([], [])
  | chain :: rest =>
    through test [] chain (if chain.getLast?.any test then ([], rest) else fate rest)

/-- Nothing comes after a chain whose last entry is to be erased. -/
def Thorough : List (List α) → Prop
  | [] => True
  | chain :: rest => if chain.getLast?.any test then rest.flatten = [] else Thorough rest

theorem fate_all (chains : List (List α)) : (fate test chains).1.Perm chains.flatten ∧
    (fate test chains).2.flatten.Perm (chains.flatten.filter (!test ·)) ↔ Thorough test chains := by
  induction chains with
  | nil => simp [fate, Thorough]
  | cons _ _ ih =>
    rw [fate, Thorough, through, flatten_cons, flatten_cons, filter_append, perm_append_left_iff,
      nil_append, perm_append_left_iff]
    split
    · refine ⟨fun all => nil_perm.mp all.1, ?_⟩
      intro none
      simp [none]
    · exact ih

end Chains

section Sweep

variable [DecidableEq Ptr] {hash : K → Nat} {test : Entry Ptr K V → Bool} {self : HashMap Ptr}
  {mem : Heap Ptr K V}
variable {chains xs ys : List (List (Entry Ptr K V))} {front : List (Entry Ptr K V)} {fuel : Nat}

variable (hash test self xs fuel) in
/-- How the loop goes on from `it`. -/
def Resumes (later : List (Entry Ptr K V) × List (List (Entry Ptr K V))) (it : Iterator Ptr)
    (mem : Heap Ptr K V) : Prop :=
  Ends (sweepFrom test fuel self it) mem (fun out after => out.1 = later.1 ∧
    Stored hash out.2 after (xs ++ later.2))
    (fun _ => False)

theorem finished_resumes (stored : Stored hash self mem (xs ++ ys)) :
    Resumes hash test self xs fuel ([], ys) ⟨none, idx⟩ mem := by
  cases fuel with
  | zero | succ fuel => exact ends_pure _ ⟨rfl, stored⟩

theorem resumes_cons {entry : Entry Ptr K V} {later}
    (resumes : Resumes hash test self xs fuel later it mem) : Ends
    (sweepFrom test fuel self it >>= fun rest => pure (entry :: rest.1, rest.2)) mem
    (fun out after => out.1 = entry :: later.1 ∧ Stored hash out.2 after (xs ++ later.2))
      (fun _ => False) := by
  apply ends_seq resumes
  rintro _ _ ⟨isTested, stored⟩
  exact ends_pure _ ⟨congrArg (entry :: ·) isTested, stored⟩

theorem chain_resumes {rest} (onward : ∀ {self mem fuel chain}, Stored hash self mem
    (xs ++ [chain] ++ ys) →
    ys.flatten.length ≤ fuel → Ends (nextBucket self ys.length xs.length) mem
    (Resumes hash test self (xs ++ [chain]) fuel (fate test ys)) (fun _ => False))
    (stored : Stored hash self mem (xs ++ (front ++ rest) :: ys))
      (enough : rest.length + ys.flatten.length ≤ fuel) :
    Resumes hash test self xs fuel (through test front rest
      (if rest.getLast?.all test then ([], ys) else fate test ys))
    ⟨slotOf rest, xs.length⟩ mem := by
  -- `front` is what the loop has left of the chain so far
  induction rest generalizing front self mem fuel with
  | nil => exact finished_resumes stored
  | cons entry back ih =>
    rw [length_cons] at enough
    obtain ⟨fuel, rfl⟩ : ∃ more, fuel = more + 1 := ⟨fuel - 1, by omega⟩
    have enoughNow : back.length + ys.flatten.length ≤ fuel := by omega
    have here := (linked_back (stored.table.linked _ mem_append_cons_self)).1
    apply ends_loadBucket here
    change Ends (if test entry then _ else _) _ _ _
    by_cases hit : test entry
    · have last : (entry :: back).getLast?.all test = back.getLast?.all test := by
        cases back <;> simp [getLast?_cons, hit]
      rw [if_pos hit, last, through, filter_cons_of_neg (by simp [hit])]
      apply ends_seq (erase_ends stored)
      rintro _ _ erased
      rw [erased.isNext]
      exact resumes_cons (ih erased.stored enoughNow)
    · rw [if_neg hit, through, filter_cons_of_pos (by simp [hit]), append_cons front]
      refine ends_bind (ends_loadBucket here ?_)
      cases back with
      | nil =>
        -- `++` goes on behind the chain, which `erase` does not
        have left : self.numBuckets - (xs.length + 1) = ys.length := by
          rw [stored.buckets, length_append, length_cons]
          omega
        rw [append_cons xs] at stored
        apply ends_imp (left ▸ onward stored ((Nat.le_add_left ..).trans enoughNow))
        intro _ _ resumes
        simpa [hit] using resumes_cons resumes
      | cons =>
        rw [append_cons front] at stored
        exact ends_pure _ (resumes_cons (ih stored enoughNow))

theorem scan_resumes {scan} (scans : Scans self low scan) (above : low ≤ xs.length)
    (stored : Stored hash self mem (xs ++ ys)) (enough : ys.flatten.length ≤ fuel) :
    Ends (scan ys.length xs.length) mem (Resumes hash test self xs fuel (fate test ys))
      (fun _ => False) := by
  induction ys generalizing self mem fuel low xs scan with
  | nil =>
    obtain ⟨_, isEnd⟩ := scans.1 xs.length
    rw [length_nil, isEnd]
    exact ends_pure _ (finished_resumes stored)
  | cons chain ys ih =>
    obtain ⟨_, isTable, live⟩ := stored.table.at (by simp)
    rw [length_cons, scans.2 _ _ above]
    apply ends_loadSlot isTable live (slot_middle rfl)
    rw [flatten_cons, length_append] at enough
    cases chain with
    | nil =>
      rw [append_cons] at stored
      have resumes := ih scans (above.trans (by simp)) stored ((Nat.le_add_left ..).trans enough)
      rw [length_append] at resumes
      apply ends_imp resumes
      intro _ _ later
      simpa [Resumes, fate, through] using later
    | cons first more =>
      have resumes := chain_resumes (fun {self mem fuel chain} stored enough => by
        simpa using ih (scans_next self) (by simp) stored enough)
        (show Stored hash self mem (xs ++ ([] ++ first :: more) :: ys) from stored) enough
      exact ends_pure _ (by simpa [fate, getLast?_cons] using resumes)

/-- The loop ends. It tests every entry once and leaves those that the test does not hold of, if and
only if nothing comes after a chain whose last entry is to be erased. -/
theorem sweep_exact (stored : Stored hash self mem chains) : Ends (sweep test self) mem
    (fun out after => ∃ left, Stored hash out.2 after left ∧ (out.1.Perm chains.flatten ∧
      left.flatten.Perm (chains.flatten.filter (!test ·)) ↔ Thorough test chains))
        (fun _ => False) := by
  have resumes : Ends (begin self) mem (Resumes hash test self [] mem.made (fate test chains))
      (fun _ => False) := by
    rcases stored.table.slots with ⟨rfl, null⟩ | ⟨_, _, isTable, _⟩
    · rw [begin, if_pos null]
      exact ends_pure _ (finished_resumes stored)
    · rw [begin, if_neg (by simp [isTable]), stored.buckets]
      exact scan_resumes (scans_begin self) (Nat.zero_le (length [])) stored stored.bound
  apply ends_imp (ends_get (ends_bind resumes))
  rintro _ _ ⟨isTested, left⟩
  refine ⟨_, left, ?_⟩
  rw [isTested]
  exact fate_all test chains

end Sweep

def two : List (List (Entry Nat Nat Nat)) := [[⟨1, 0, 5⟩], [⟨2, 1, 6⟩]]

def twoInMemory : Heap Nat Nat Nat :=
  ⟨fun addr => [.table [some 1, some 2], .bucket ⟨0, 5, none⟩, .bucket ⟨1, 6, none⟩][addr]?, [], 3⟩

def isSix (entry : Entry Nat Nat Nat) : Bool := entry.value == 6

theorem sweep_exact_two : Ends (sweep isSix ⟨some 0, 2, 2⟩) twoInMemory (fun out after =>
    ∃ left, Stored id out.2 after left ∧ (out.1.Perm two.flatten ∧
      left.flatten.Perm (two.flatten.filter (!isSix ·)) ↔ Thorough isSix two))
        (fun _ => False) := by
  have stored : Stored id ⟨some 0, 2, 2⟩ twoInMemory two := by
    refine ⟨rfl, ⟨.inr ⟨by decide, 0, rfl, rfl⟩, ?_, by decide⟩, ?_, rfl, by decide⟩
    · simp [two, Linked, twoInMemory, slotOf]
    · rintro (_ | _ | _) chain there <;> cases there <;> decide
  exact sweep_exact stored

/-- Both entries are to be erased, and the second is never tested. -/
theorem sweep_ends_early : ((sweep (fun _ => true) ⟨some 0, 2, 2⟩).run twoInMemory).toOption.map
    (·.1) =
    some ([⟨1, 0, 5⟩], ⟨some 0, 1, 2⟩) := by
  rfl

end Nx.BucketSweeps
