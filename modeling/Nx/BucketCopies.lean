import Nx.BucketOps

/-!
The loops over all buckets of a map: iteration, `clear` and the copy constructor.
-/

namespace Nx.BucketCopies

open Outcomes Cells BucketMaps BucketChains BucketGrowth BucketOps Option
open List hiding chains

variable {Ptr K V : Type}

def content (entry : Entry Ptr K V) : K × V := (entry.key, entry.value)

variable {chain : List (Entry Ptr K V)} {array : Ptr}
variable {hash : K → Nat} {self : HashMap Ptr} {mem : Heap Ptr K V}
  {chains : List (List (Entry Ptr K V))}
variable {failed : Fault → Prop}

section Iteration

variable {addr : Ptr} {it : Iterator Ptr}

theorem collect_finished (finished : it.node = none) :
    Ends (collect self fuel it) mem (fun entries same => entries = [] ∧ same = mem) failed := by
  cases fuel with
  | zero =>
    rw [collect, if_pos finished]
    exact ends_pure _ ⟨rfl, rfl⟩
  | succ =>
    rw [collect, finished]
    exact ends_pure _ ⟨rfl, rfl⟩

theorem collect_ends {rest} (isTable : self.ptr = some addr)
    (live : mem.cells addr = some (.table (chains.map slotOf)))
    (buckets : self.numBuckets = chains.length) (walk : Walk mem.cells chains it rest)
      (enough : rest.length ≤ fuel) :
    Ends (collect self fuel it) mem (fun entries same => entries = rest.map content ∧ same = mem)
      failed := by
  induction rest generalizing it fuel with
  | nil =>
    cases walk with
    | finished node => exact collect_finished node
  | cons _ _ ih =>
    obtain ⟨node, ⟨_, there⟩, step⟩ := increment_ends isTable live buckets walk
    cases fuel with
    | zero => exact absurd enough (by simp)
    | succ =>
      rw [collect, node]
      refine ends_loadBucket there (ends_read step ?_)
      intro _ walk'
      apply ends_read (ih walk' (Nat.le_of_succ_le_succ enough))
      rintro _ rfl
      exact ends_pure _ ⟨rfl, rfl⟩

theorem iterate_ends (holds : Holds hash self mem chains) :
    Ends (iterate self) mem (fun entries same =>
    entries = chains.flatten.map content ∧ same = mem) failed := by
  apply ends_read (begin_ends holds.table holds.buckets)
  intro _ walk
  apply ends_get
  rcases holds.table.slots with ⟨rfl, _⟩ | ⟨_, _, isTable, live⟩
  · cases walk with
    | finished node => exact collect_finished node
  · exact collect_ends isTable live holds.buckets walk holds.bound

end Iteration

section Clear

variable [DecidableEq Ptr]

theorem clearChain_ends (linked : Linked mem.cells chain) (nodup : (addrs chain).Nodup)
    (enough : chain.length ≤ fuel) :
    Ends (clearChain fuel (slotOf chain)) mem (fun _ after => Within (· ∈ addrs chain) mem after)
      failed := by
  induction chain generalizing mem fuel with
  | nil =>
    cases fuel with
    | zero | succ fuel => exact ends_pure _ (within_refl _ _)
  | cons entry rest ih =>
    cases fuel with
    | zero => exact absurd enough (by simp)
    | succ =>
      obtain ⟨off, restNodup⟩ := nodup_cons.mp nodup
      refine ends_loadBucket linked.1 (ends_deallocate linked.1 ?_)
      have still : Linked (mem.drop entry.addr).cells rest :=
        linked_congr (fun _ member => drop_other fun same => off (same ▸ member)) linked.2
      apply ends_imp (ih still restNodup (Nat.le_of_succ_le_succ enough))
      intro _ _ within
      exact (within_drop mem_cons_self).trans (within.mono fun _ => mem_cons_of_mem _)

theorem clearFrom_ends {i} {later} (isTable : self.ptr = some array)
    (table : Table mem (some array) (replicate i [] ++ later))
      (nonempty : replicate i [] ++ later ≠ [])
    (enough : later.flatten.length ≤ mem.made) : Ends (clearFrom self later.length i) mem
      (fun _ after =>
    Table after (some array) (replicate (i + later.length) []) ∧
    Within (fun addr => addr = array ∨ addr ∈ addrs later.flatten) mem after) failed := by
  induction later generalizing mem i with
  | nil =>
    rw [append_nil] at table
    exact ends_pure _ ⟨table, within_refl _ _⟩
  | cons chain rest ih =>
    have front : (replicate i ([] : List (Entry Ptr K V))).length = i := length_replicate ..
    have live := table.cell nonempty
    have listed : chain ∈ replicate i [] ++ chain :: rest := by simp
    have short : chain.length ≤ mem.made := by
      rw [flatten_cons, length_append] at enough
      omega
    refine ends_loadSlot isTable live (slot_middle front) (ends_get ?_)
    apply ends_seq (clearChain_ends (table.linked chain listed) (nodup_chain table.nodup) short)
    intro _ middle within
    have offArray : array ∉ addrs chain := fun member =>
      table.off_table nonempty (mem_addrs_flatten listed member) rfl
    have liveNow := (within.cells array offArray).trans live
    apply ends_storeSlot isTable liveNow (by simp)
    have cleared : Within (fun addr => addr = array ∨ addr ∈ addrs chain) mem
        (middle.put array (.table (((replicate i [] ++ chain :: rest).map slotOf).set i none))) :=
      (within.mono fun _ => .inr).trans (within_put (.inl rfl))
    have tableNow : Table (middle.put array
        (.table (((replicate i [] ++ chain :: rest).map slotOf).set i none))) (some array)
        (replicate (i + 1) [] ++ rest) := by
      rw [replicate_succ', append_assoc, singleton_append]
      refine table.replace cleared (fun _ listed addr => table.apart listed) trivial ?_ ?_
      · rw [put_self, ← slots_set front []]
        rfl
      · refine table.nodup.sublist (List.Sublist.map _ ?_)
        rw [flatten_middle, flatten_middle]
        exact (List.Sublist.refl _).append ((nil_sublist _).append (List.Sublist.refl _))
    have rest_enough : rest.flatten.length ≤ middle.made := by
      have made := within.made
      rw [flatten_cons, length_append] at enough
      omega
    apply ends_imp (ih tableNow (by simp [replicate_succ]) rest_enough)
    rintro _ _ ⟨tableLast, withinLast⟩
    refine ⟨?_, (cleared.mono ?_).trans (withinLast.mono ?_)⟩
    · rw [length_cons, Nat.add_comm rest.length 1, ← Nat.add_assoc]
      exact tableLast
    · rintro addr (same | member)
      · exact .inl same
      · exact .inr (by rw [flatten_cons, addrs_append]; exact mem_append_left _ member)
    · rintro _ (same | member)
      · exact .inl same
      · exact .inr (by rw [flatten_cons, addrs_append]; exact mem_append_right _ member)

theorem clear_ends (holds : Holds hash self mem chains) :
    Ends (clear hash self) mem (fun cleared after =>
    ∃ chains', chains'.flatten = [] ∧ Turned hash self mem chains cleared after chains')
      (· = .noMemory) := by
  have emptied : Ends (clearFrom self chains.length 0) mem
      (fun _ after => Turned hash self mem chains { self with cnt := 0 } after
        (replicate chains.length [])) (· = .noMemory) := by
    have holdsNone {after : Heap Ptr K V} (table :
        Table after self.ptr (replicate chains.length [])) :
        Holds hash { self with cnt := 0 } after
          (replicate chains.length ([] : List (Entry Ptr K V))) := by
      refine ⟨?_, table, home_replicate _ _, ?_, ?_, ?_⟩
      · rw [length_replicate]
        exact holds.buckets
      · rw [flatten_replicate_nil]
        exact nodup_nil
      · rw [flatten_replicate_nil]
        rfl
      · rw [flatten_replicate_nil]
        exact Nat.zero_le _
    rcases holds.table.slots with ⟨rfl, _⟩ | ⟨nonempty, _, isTable, _⟩
    · exact ends_pure _ ⟨holdsNone holds.table, changed_refl _ _⟩
    · have table := holds.table
      rw [isTable] at table
      apply ends_imp (clearFrom_ends (i := 0) isTable table nonempty holds.bound)
      rintro _ after ⟨tableNow, within⟩
      rw [Nat.zero_add, ← isTable] at tableNow
      refine ⟨holdsNone tableNow, ⟨?_, ?_, within.made⟩⟩
      · intro addr outside _
        apply within.cells addr
        rintro (same | member)
        · exact outside (.inl (same ▸ isTable))
        · exact outside (.inr member)
      · rintro _ (isArray | member)
        · exact .inl (.inl isArray)
        · rw [flatten_replicate_nil] at member
          cases member
  rw [← holds.buckets] at emptied
  apply ends_seq emptied
  rintro _ _ turned
  apply ends_imp (ensureSize_ends turned.holds)
  rintro _ _ ⟨chains', resized⟩
  refine ⟨chains', ?_, resized.holds, turned.changed.trans resized.changed⟩
  have perm := resized.perm
  rw [flatten_replicate_nil] at perm
  exact perm.eq_nil

variable {start : Heap Ptr K V}

omit [DecidableEq Ptr] in
theorem linked_spared (spared : Spared start mem) (linked : Linked start.cells chain) :
    Linked mem.cells chain := by
  refine linked_congr ?_ linked
  intro addr member
  obtain ⟨_, live⟩ := linked_live linked member
  apply spared.cells addr
  rw [live]
  exact some_ne_none _

structure Cloned (start mem : Heap Ptr K V) (chain copy : List (Entry Ptr K V)) : Prop where
  linked : Linked mem.cells copy
  same : copy.map content = chain.map content
  fresh : ∀ addr ∈ addrs copy, start.cells addr = none
  nodup : (addrs copy).Nodup
  spared : Spared start mem

theorem cloneChain_ends {entry} {rest} (linked : Linked mem.cells (entry :: rest))
    (enough : (entry :: rest).length ≤ fuel) : Ends (cloneChain fuel entry.addr) mem
      (fun ret after =>
    ∃ copy, slotOf copy = some ret ∧ Cloned mem after (entry :: rest) copy) (· = .noMemory) := by
  induction rest generalizing mem entry fuel with
  | nil =>
    cases fuel with
    | zero => exact absurd enough (by simp)
    | succ fuel =>
      refine ends_loadBucket linked.1 (ends_allocate (fun _ => rfl) ?_)
      intro ret supply free
      refine ends_pure _ ⟨[⟨ret, entry.key, entry.value⟩], rfl, ⟨extend_self, trivial⟩, rfl, ?_,
        nodup_singleton _, (spared_refl mem).extend free⟩
      intro addr member
      rw [mem_singleton.mp member]
      exact free
  | cons _ _ ih =>
    cases fuel with
    | zero => exact absurd enough (by simp)
    | succ =>
      refine ends_loadBucket linked.1 (ends_allocate (fun _ => rfl) ?_)
      intro ret supply free
      have grown : Spared mem (mem.extend ret (.bucket ⟨entry.key, entry.value, none⟩) supply) :=
        (spared_refl mem).extend free
      apply ends_seq (ih (linked_spared grown linked.2) (Nat.le_of_succ_le_succ enough))
      rintro _ middle ⟨copy, isNext, cloned⟩
      have node : middle.cells ret = some (.bucket ⟨entry.key, entry.value, none⟩) := by
        rw [cloned.spared.cells ret (by simp), extend_self]
      have off : ret ∉ addrs copy := by
        intro member
        have none := cloned.fresh ret member
        rw [extend_self] at none
        cases none
      refine ends_storeBucket node (ends_pure _ ⟨⟨ret, entry.key, entry.value⟩ :: copy, rfl,
        ⟨?_, ?_⟩, ?_, ?_, nodup_cons.mpr ⟨off, cloned.nodup⟩,
        (grown.trans cloned.spared).put free⟩)
      · rw [put_self, isNext]
      · exact linked_congr (fun addr member => put_other fun same => off (same ▸ member))
          cloned.linked
      · rw [map_cons, cloned.same]
        rfl
      · intro addr member
        rcases mem_cons.mp member with same | later
        · exact same ▸ free
        · exact grown.free (cloned.fresh addr later)

structure Copied (start mem : Heap Ptr K V) (array : Ptr)
    (chains copies : List (List (Entry Ptr K V))) : Prop where
  table : Table mem (some array) copies
  same : copies.map (map content) = chains.map (map content)
  fresh : ∀ addr, Owns (some array) copies addr → start.cells addr = none
  spared : Spared start mem

theorem Copied.next {front done ys zs} {copy} {middle} (count : done.length = front.length)
    (copied : Copied start mem array (front ++ [] :: zs) (done ++ [] :: ys))
      (cloned : Cloned mem middle chain copy) :
    Copied start (middle.put array (.table ((done ++ copy :: ys).map slotOf))) array
      (front ++ chain :: zs)
    (done ++ copy :: ys) := by
  have table := copied.table
  have live := table.cell (by simp)
  have arrayFree := copied.fresh array (.inl rfl)
  have within : Within (fun addr => mem.cells addr = none ∨ addr = array) mem
      (middle.put array (.table ((done ++ copy :: ys).map slotOf))) := by
    refine ⟨?_, cloned.spared.made⟩
    intro addr outside
    rw [not_or] at outside
    rw [put_other outside.2, cloned.spared.cells addr outside.1]
  have offArray : array ∉ addrs copy := by
    intro member
    have none := cloned.fresh array member
    rw [live] at none
    cases none
  have perm : (done ++ copy :: ys).flatten.Perm (copy ++ (done ++ [] :: ys).flatten) := by
    have moved := (perm_middle : (done ++ copy :: ys).Perm (copy :: (done ++ ys))).flatten
    rw [flatten_cons] at moved
    simpa using moved
  refine ⟨table.replace within ?_ ?_ put_self ?_, ?_, ?_,
    (copied.spared.trans cloned.spared).put arrayFree⟩
  · intro _ listed addr member
    have inside : addr ∈ addrs (done ++ [] :: ys).flatten :=
      mem_addrs_flatten (mem_with listed) member
    rintro (free | same)
    · exact table.live (.inr inside) free
    · exact table.off_table (by simp) inside same
  · exact linked_congr (fun addr member => put_other fun same => offArray (same ▸ member))
      cloned.linked
  · refine (perm.map Entry.addr).nodup_iff.mpr ?_
    rw [map_append]
    refine nodup_append'.mpr ⟨cloned.nodup, table.nodup, ?_⟩
    intro addr inCopy inside
    exact table.live (.inr inside) (cloned.fresh addr inCopy)
  · have same := copied.same
    rw [map_append, map_append] at same
    obtain ⟨before, after⟩ := append_inj same (by simp [count])
    rw [map_cons, map_cons] at after
    rw [map_append, map_append, map_cons, map_cons, before, cloned.same, (cons.inj after).2]
  · rintro addr (isArray | member)
    · exact copied.fresh addr (.inl isArray)
    · rcases mem_append.mp (map_append ▸ (perm.map Entry.addr).mem_iff.mp member) with new | old
      · exact copied.spared.free (cloned.fresh addr new)
      · exact copied.fresh addr (.inr old)

theorem copyFrom_ends {otherPtr} {otherArray} {i} {front done later}
    (isOther : otherPtr = some otherArray)
    (source : start.cells otherArray = some (.table ((front ++ later).map slotOf)))
    (linked : ∀ chain ∈ front ++ later, Linked start.cells chain)
    (enough : ∀ chain ∈ front ++ later, chain.length ≤ start.made) (place : front.length = i)
      (count : done.length = i)
    (copied : Copied start mem array (front ++ replicate later.length [])
      (done ++ replicate later.length [])) :
    Ends (copyFrom (some array) otherPtr later.length i) mem (fun _ after =>
    ∃ copies, Copied start after array (front ++ later) copies) (· = .noMemory) := by
  induction later generalizing front done mem i with
  | nil => exact ends_pure _ ⟨_, copied⟩
  | cons chain rest ih =>
    have there : mem.cells otherArray = some (.table ((front ++ chain :: rest).map slotOf)) := by
      rw [copied.spared.cells otherArray (by rw [source]; exact some_ne_none _), source]
    have listed : chain ∈ front ++ chain :: rest := by simp
    have live := copied.table.cell (by simp [replicate_succ])
    -- a copy of the chain, for whatever chain it is, is put into the table
    have more {copy : List (Entry Ptr K V)} {middle : Heap Ptr K V}
        (cloned : Cloned mem middle chain copy) :
        Ends (storeSlot (some array) i (slotOf copy) >>= fun _ =>
          copyFrom (some array) otherPtr rest.length (i + 1)) middle
          (fun _ after => ∃ copies, Copied start after array (front ++ chain :: rest) copies)
          (· = .noMemory) := by
      have liveNow : middle.cells array = some
          (.table ((done ++ [] :: replicate rest.length []).map slotOf)) := by
        rw [cloned.spared.cells array (by rw [live]; exact some_ne_none _), live]
        rfl
      apply ends_storeSlot rfl liveNow (by simp [count])
      rw [slots_set count]
      have next := copied.next (count.trans place.symm) cloned
      rw [append_cons front, append_cons done] at next
      rw [append_cons front] at source linked enough ⊢
      rw [append_cons done]
      exact ih source linked enough (by simp [place]) (by simp [count]) next
    have made := copied.spared.made
    apply ends_loadSlot isOther there (slot_middle place)
    cases chain with
    | nil =>
      refine ends_bind (ends_pure _ ?_)
      exact @more [] mem ⟨by trivial, rfl, by simp [addrs], nodup_nil, spared_refl mem⟩
    | cons =>
      have short := enough _ listed
      refine ends_get (ends_seq (cloneChain_ends (linked_spared copied.spared (linked _ listed))
        (short.trans made)) ?_)
      rintro _ _ ⟨_, isRet, cloned⟩
      rw [← isRet]
      exact ends_bind (ends_pure _ (more cloned))

section Same

variable {copies : List (List (Entry Ptr K V))}

section

variable (same : copies.map (map content) = chains.map (map content))
include same

omit [DecidableEq Ptr] in
theorem flatten_same : copies.flatten.map content = chains.flatten.map content := by
  rw [map_flatten, map_flatten, same]

omit [DecidableEq Ptr] in
theorem home_same (home : Home hash len chains) : Home hash len copies := by
  intro idx copy there entry member
  have alike : (copies.map (map content))[idx]? = some (copy.map content) := by
    rw [getElem?_map, there]
    rfl
  rw [same, getElem?_map, map_eq_some_iff] at alike
  obtain ⟨chain, isChain, contents⟩ := alike
  have listed : content entry ∈ chain.map content := contents ▸ mem_map_of_mem member
  obtain ⟨original, inChain, isEntry⟩ := mem_map.mp listed
  rw [← (Prod.mk.inj isEntry).1]
  exact home idx chain isChain original inChain

omit [DecidableEq Ptr] in
theorem keys_same : copies.flatten.map Entry.key = chains.flatten.map Entry.key := by
  have firsts := congrArg (map Prod.fst) (flatten_same same)
  rwa [List.map_map, List.map_map] at firsts

end

omit [DecidableEq Ptr] in
theorem holds_copied (holds : Holds hash self start chains)
    (copied : Copied start mem array chains copies) :
    Holds hash { self with ptr := some array } mem copies := by
  have count : copies.length = chains.length := by
    have lengths := congrArg length copied.same
    rwa [length_map, length_map] at lengths
  have entries : copies.flatten.length = chains.flatten.length := by
    have lengths := congrArg length (flatten_same copied.same)
    rwa [length_map, length_map] at lengths
  refine ⟨holds.buckets.trans count.symm, copied.table, ?_, ?_, holds.cnt.trans entries.symm, ?_⟩
  · rw [count]
    exact home_same copied.same holds.home
  · rw [keys_same copied.same]
    exact holds.keys
  · rw [entries]
    exact holds.bound.trans copied.spared.made

end Same

theorem copy_ends (holds : Holds hash self mem chains) : Ends (copy self) mem (fun copied after =>
    ∃ copies, Holds hash copied after copies ∧ copies.flatten.map content =
      chains.flatten.map content ∧
    (∀ addr, Owns copied.ptr copies addr → mem.cells addr = none) ∧ Spared mem after)
      (· = .noMemory) := by
  unfold copy
  rcases holds.table.slots with ⟨rfl, null⟩ | ⟨nonempty, _, isTable, live⟩
  · have empty : self.numBuckets = 0 := holds.buckets
    rw [empty]
    refine ends_bind
      (ends_pure _ (ends_bind (ends_pure _ (ends_pure _ ⟨[], ?_, rfl, ?_, spared_refl mem⟩))))
    · rw [← null, ← empty]
      exact holds
    · rintro addr (isNull | member)
      · cases isNull
      · cases member
  · have positive : self.numBuckets ≠ 0 := by
      rw [holds.buckets]
      exact fun zero => nonempty (length_eq_zero_iff.mp zero)
    refine ends_allocateTable positive rfl ?_
    intro newArray supply free
    have grown : Spared mem (mem.extend newArray (.table (replicate self.numBuckets none))
        supply) :=
      (spared_refl mem).extend free
    have copied : Copied mem (mem.extend newArray (.table (replicate self.numBuckets none)) supply)
        newArray ([] ++ replicate chains.length []) ([] ++ replicate chains.length []) := by
      rw [nil_append, ← holds.buckets]
      refine ⟨table_extend positive, rfl, ?_, grown⟩
      rintro _ (isArray | member)
      · cases isArray
        exact free
      · rw [flatten_replicate_nil] at member
        cases member
    have short : ∀ chain ∈ chains, chain.length ≤ mem.made :=
      fun _ listed => (length_le_flatten listed).trans holds.bound
    have loop := copyFrom_ends (i := 0) isTable live holds.table.linked short rfl rfl copied
    rw [← holds.buckets] at loop
    apply ends_seq loop
    rintro _ _ ⟨copies, copied⟩
    exact ends_pure _ ⟨copies, holds_copied holds copied, flatten_same copied.same, copied.fresh,
      copied.spared⟩

end Clear

end Nx.BucketCopies
