import Nx.BucketMaps

/-!
The chains of a table. Every bucket has a chain of entries, each in a node of its own; the slot of
the bucket points to the first.
-/

namespace Nx.BucketChains

open Outcomes Cells BucketMaps List

variable {Ptr K V β : Type}

structure Entry (Ptr K V : Type) where
  addr : Ptr
  key : K
  value : V
  deriving DecidableEq

def slotOf (chain : List (Entry Ptr K V)) : Option Ptr := chain.head?.map Entry.addr

@[simp] theorem slotOf_cons (entry : Entry Ptr K V) (rest : List (Entry Ptr K V)) :
    slotOf (entry :: rest) = some entry.addr := rfl

def Linked (cells : Ptr → Option (Cell Ptr K V)) : List (Entry Ptr K V) → Prop
  | [] => True
  | entry :: rest =>
    cells entry.addr = some (.bucket ⟨entry.key, entry.value, slotOf rest⟩) ∧ Linked cells rest

def addrs (entries : List (Entry Ptr K V)) : List Ptr := entries.map Entry.addr

variable {it : Iterator Ptr} {mem after : Heap Ptr K V} {chains : List (List (Entry Ptr K V))}

@[simp] theorem addrs_cons : addrs (entry :: chain) = entry.addr :: addrs chain := rfl

@[simp] theorem addrs_append : addrs (front ++ back) = addrs front ++ addrs back := map_append

theorem linked_congr (same : ∀ addr ∈ addrs chain, other addr = cells addr)
    (linked : Linked cells chain) : Linked other chain := by
  induction chain with
  | nil => trivial
  | cons entry _ ih =>
    refine ⟨?_, ih (fun addr member => same addr (mem_cons_of_mem _ member)) linked.2⟩
    rw [same entry.addr mem_cons_self]
    exact linked.1

theorem linked_live (linked : Linked cells chain) (member : addr ∈ addrs chain) :
    ∃ node, cells addr = some (.bucket node) := by
  induction chain with
  | nil => cases member
  | cons _ _ ih =>
    rcases mem_cons.mp member with same | later
    · rw [same]
      exact ⟨_, linked.1⟩
    · exact ih linked.2 later

theorem linked_replace {new : Entry Ptr K V} (linked : Linked cells (front ++ entry :: back))
    (sameAddr : new.addr = entry.addr) (same : ∀ addr ∈ addrs front, other addr = cells addr)
    (node : other new.addr = some (.bucket ⟨new.key, new.value, slotOf rest⟩))
    (linkedRest : Linked other rest) : Linked other (front ++ new :: rest) := by
  induction front with
  | nil => exact ⟨node, linkedRest⟩
  | cons first more ih =>
    refine ⟨?_, ih linked.2 fun addr member => same addr (mem_cons_of_mem _ member)⟩
    rw [same first.addr mem_cons_self, linked.1]
    cases more with
    | nil => simp [sameAddr]
    | cons => rfl

theorem linked_back (linked : Linked cells (front ++ back)) : Linked cells back := by
  induction front with
  | nil => exact linked
  | cons _ _ ih => exact ih linked.2

/-! Nodes and slots in memory. -/

section Access

variable {node : Bucket Ptr K V} {next : Option Ptr → Program (Heap Ptr K V) Fault β}

theorem ends_loadBucket {next : Bucket Ptr K V → Program (Heap Ptr K V) Fault β}
    (live : mem.cells addr = some (.bucket node)) (rest : Ends (next node) mem done failed) :
    Ends (loadBucket (some addr) >>= next) mem done failed :=
  ends_bind (ends_load live (ends_pure _ rest))

theorem ends_loadSlot (isTable : ptr = some addr) (live : mem.cells addr = some (.table slots))
    (there : slots[idx]? = some slot) (rest : Ends (next slot) mem done failed) :
    Ends (loadSlot ptr idx >>= next) mem done failed := by
  subst isTable
  refine ends_bind (ends_load live ?_)
  simp only [there]
  exact ends_pure _ rest

variable [DecidableEq Ptr]

theorem ends_storeBucket {next : PUnit → Program (Heap Ptr K V) Fault β}
    {change : Bucket Ptr K V → Bucket Ptr K V} (live : mem.cells addr = some (.bucket node))
    (rest : Ends (next ⟨⟩) (mem.put addr (.bucket (change node))) done failed) :
    Ends (storeBucket (some addr) change >>= next) mem done failed := by
  refine ends_bind (ends_loadBucket live (ends_get ?_))
  simp only [live]
  exact ends_set _ rest

theorem ends_storeSlot {next : PUnit → Program (Heap Ptr K V) Fault β} (isTable : ptr = some addr)
    (live : mem.cells addr = some (.table slots)) (inside : idx < slots.length)
    (rest : Ends (next ⟨⟩) (mem.put addr (.table (slots.set idx slot))) done failed) :
    Ends (storeSlot ptr idx slot >>= next) mem done failed := by
  subst isTable
  refine ends_bind (ends_load live ?_)
  dsimp only
  rw [if_pos inside]
  apply ends_get
  simp only [live]
  exact ends_set _ rest

theorem ends_allocateTable {num : Nat} (positive : num ≠ 0) (noMemory : failed .noMemory)
    (rest : ∀ array supply, mem.cells array = none →
    Ends (next (some array)) (mem.extend array (.table (List.replicate num none)) supply) done
      failed) :
    Ends (allocateTable num >>= next) mem done failed := by
  rw [allocateTable, if_neg positive]
  refine ends_bind (ends_allocate (fun _ => noMemory) ?_)
  intro array supply free
  exact ends_pure _ (rest array supply free)

end Access

/-! Tables. -/

structure Table (mem : Heap Ptr K V) (ptr : Option Ptr) (chains : List (List (Entry Ptr K V))) :
    Prop where
  slots : chains = [] ∧ ptr = none ∨
    chains ≠ [] ∧ ∃ addr, ptr = some addr ∧ mem.cells addr = some (.table (chains.map slotOf))
  linked : ∀ chain ∈ chains, Linked mem.cells chain
  nodup : (addrs chains.flatten).Nodup

def Owns (ptr : Option Ptr) (chains : List (List (Entry Ptr K V))) (addr : Ptr) : Prop :=
  ptr = some addr ∨ addr ∈ addrs chains.flatten

section Tables

variable {xs ys : List (List (Entry Ptr K V))}

theorem mem_addrs_flatten (listed : chain ∈ chains) (member : addr ∈ addrs chain) :
    addr ∈ addrs chains.flatten := by
  obtain ⟨_, isEntry, rfl⟩ := mem_map.mp member
  exact mem_map_of_mem (mem_flatten_of_mem listed isEntry)

theorem Table.node (table : Table mem ptr chains) (member : addr ∈ addrs chains.flatten) :
    ∃ node, mem.cells addr = some (.bucket node) := by
  obtain ⟨_, isEntry, rfl⟩ := mem_map.mp member
  obtain ⟨chain, listed, inChain⟩ := mem_flatten.mp isEntry
  exact linked_live (table.linked chain listed) (mem_map_of_mem inChain)

theorem Table.at (table : Table mem ptr chains) (nonempty : chains ≠ []) :
    ∃ array, ptr = some array ∧ mem.cells array = some (.table (chains.map slotOf)) :=
  (table.slots.resolve_left fun empty => nonempty empty.1).2

theorem Table.cell (table : Table mem (some array) chains) (nonempty : chains ≠ []) :
    mem.cells array = some (.table (chains.map slotOf)) := by
  obtain ⟨_, ⟨⟩, live⟩ := table.at nonempty
  exact live

theorem Table.off_table (table : Table mem (some array) chains) (nonempty : chains ≠ [])
    (member : addr ∈ addrs chains.flatten) : addr ≠ array := by
  intro same
  obtain ⟨_, live⟩ := table.node member
  rw [same, table.cell nonempty] at live
  cases live

theorem Table.live (table : Table mem ptr chains) (owns : Owns ptr chains addr) :
    mem.cells addr ≠ none := by
  rcases owns with isTable | member
  · rcases table.slots with ⟨_, null⟩ | ⟨_, _, isFound, live⟩
    · cases null.symm.trans isTable
    · cases isFound.symm.trans isTable
      rw [live]
      exact Option.some_ne_none _
  · obtain ⟨_, live⟩ := table.node member
    rw [live]
    exact Option.some_ne_none _

theorem Table.congr (table : Table mem ptr chains)
    (same : ∀ addr, Owns ptr chains addr → after.cells addr = mem.cells addr) :
      Table after ptr chains := by
  refine ⟨?_, ?_, table.nodup⟩
  · rcases table.slots with ⟨empty, null⟩ | ⟨nonempty, addr, isTable, live⟩
    · exact .inl ⟨empty, null⟩
    · exact .inr ⟨nonempty, addr, isTable, (same addr (.inl isTable)).trans live⟩
  · intro chain listed
    refine linked_congr ?_ (table.linked chain listed)
    intro addr member
    exact same addr (.inr (mem_addrs_flatten listed member))

theorem split_chains (inside : idx < chains.length) :
    ∃ xs chain ys, chains = xs ++ chain :: ys ∧ xs.length = idx := by
  refine ⟨chains.take idx, chains[idx], chains.drop (idx + 1), ?_, ?_⟩
  · rw [← drop_eq_getElem_cons inside, take_append_drop]
  · rw [length_take]
    exact min_eq_left inside.le

theorem slot_middle (place : xs.length = idx) :
    (List.map slotOf (xs ++ chain :: ys))[idx]? = some (slotOf chain) := by
  subst place
  simp

theorem set_middle {α : Type} (front back : List α) (old new : α) :
    (front ++ old :: back).set front.length new = front ++ new :: back := by
  simp

theorem slots_set (place : xs.length = idx) (new : List (Entry Ptr K V)) :
    (List.map slotOf (xs ++ chain :: ys)).set idx (slotOf new) = List.map slotOf
      (xs ++ new :: ys) := by
  subst place
  have length : (List.map slotOf xs).length = xs.length := length_map _
  rw [map_append, map_cons, ← length, set_middle, map_append, map_cons]

theorem mem_with {α : Type} {front back : List α} {item other : α}
    (listed : other ∈ front ++ back) :
    other ∈ front ++ item :: back := by
  rcases mem_append.mp listed with inFront | inBack
  · exact mem_append_left _ inFront
  · exact mem_append_right _ (mem_cons_of_mem _ inBack)

theorem Table.apart {other : List (Entry Ptr K V)}
    (table : Table mem (some array) (xs ++ chain :: ys))
    (listed : other ∈ xs ++ ys) (member : addr ∈ addrs other) :
      ¬ (addr = array ∨ addr ∈ addrs chain) := by
  rintro (same | inside)
  · exact table.off_table (by simp) (mem_addrs_flatten (mem_with listed) member) same
  · have nodup := table.nodup
    have perm : (xs ++ chain :: ys).flatten.Perm (chain ++ (xs ++ ys).flatten) :=
      (perm_middle : (xs ++ chain :: ys).Perm (chain :: (xs ++ ys))).flatten
    have apart := (perm.map Entry.addr).nodup_iff.mp nodup
    rw [map_append] at apart
    exact (nodup_append'.mp apart).2.2 inside (mem_addrs_flatten listed member)

theorem Table.replace {new : List (Entry Ptr K V)} {changed : Ptr → Prop}
    (table : Table mem (some array) (xs ++ chain :: ys)) (within : Within changed mem after)
    (untouched : ∀ other ∈ xs ++ ys, ∀ addr ∈ addrs other, ¬ changed addr)
      (linked : Linked after.cells new)
    (slots : after.cells array = some (.table ((xs ++ new :: ys).map slotOf)))
    (nodup : (addrs (xs ++ new :: ys).flatten).Nodup) :
      Table after (some array) (xs ++ new :: ys) := by
  have old : ∀ other ∈ xs ++ ys, Linked after.cells other := by
    intro other listed
    exact linked_congr (fun addr member => within.cells addr (untouched other listed addr member))
      (table.linked other (mem_with listed))
  refine ⟨.inr ⟨by simp, array, rfl, slots⟩, ?_, nodup⟩
  intro other listed
  rcases mem_append.mp listed with front | later
  · exact old other (mem_append_left _ front)
  · rcases mem_cons.mp later with same | back
    · exact same ▸ linked
    · exact old other (mem_append_right _ back)

end Tables

/-! Going through a table. -/

inductive Walk (cells : Ptr → Option (Cell Ptr K V)) (chains : List (List (Entry Ptr K V)))
    (it : Iterator Ptr) : List (Entry Ptr K V) → Prop where
  | finished (node : it.node = none) : Walk cells chains it []
  | within {entry : Entry Ptr K V} {chain : List (Entry Ptr K V)} (node : it.node = some entry.addr)
      (linked : Linked cells (entry :: chain)) (inside : it.bucketIdx < chains.length)
      (later : ∀ chain ∈ chains.drop (it.bucketIdx + 1), Linked cells chain) :
      Walk cells chains it (entry :: chain ++ (chains.drop (it.bucketIdx + 1)).flatten)

section Walks

variable {self : HashMap Ptr}

theorem Walk.congr (walk : Walk cells chains it rest) (same : ∀ addr ∈ addrs rest, other addr =
    cells addr) :
    Walk other chains it rest := by
  cases walk with
  | finished node => exact .finished node
  | within node linked inside later =>
    rw [addrs_append] at same
    refine .within node (linked_congr ?_ linked) inside ?_
    · intro addr member
      exact same addr (mem_append_left _ member)
    · intro chain listed
      refine linked_congr ?_ (later chain listed)
      intro addr member
      exact same addr (mem_append_right _ (mem_addrs_flatten listed member))

theorem Walk.live (walk : Walk cells chains it rest) (member : addr ∈ addrs rest) :
    ∃ node, cells addr = some (.bucket node) := by
  cases walk with
  | finished node => cases member
  | within _ linked _ later =>
    rw [addrs_append] at member
    rcases mem_append.mp member with here | further
    · exact linked_live linked here
    · obtain ⟨_, isEntry, rfl⟩ := mem_map.mp further
      obtain ⟨chain, listed, inChain⟩ := mem_flatten.mp isEntry
      exact linked_live (later chain listed) (mem_map_of_mem inChain)

theorem slot_get (inside : idx < chains.length) :
    (chains.map slotOf)[idx]? = some (slotOf chains[idx]) := by
  rw [getElem?_map, getElem?_eq_getElem inside]
  rfl

/-- How `begin` and `++` look for a chain. -/
def Scans (self : HashMap Ptr) (low : Nat) (scan : Nat → Nat → Program (Heap Ptr K V) Fault
    (Iterator Ptr)) : Prop :=
  (∀ i, ∃ idx, scan 0 i = pure ⟨none, idx⟩) ∧ ∀ left i, low ≤ i → scan (left + 1) i = do
    let slot ← loadSlot self.ptr i
    match slot with
    | some node => pure ⟨some node, i⟩
    | none => scan left (i + 1)

theorem scans_begin (self : HashMap Ptr) :
    Scans self 0 (beginFrom self : Nat → Nat → Program (Heap Ptr K V) Fault _) :=
  ⟨fun _ => ⟨_, rfl⟩, fun _ _ _ => rfl⟩

theorem scans_next (self : HashMap Ptr) :
    Scans self 1 fun left i => (nextBucket self left (i - 1) : Program (Heap Ptr K V) Fault _) := by
  refine ⟨fun i => ⟨_, rfl⟩, ?_⟩
  intro _ i above
  obtain ⟨_, rfl⟩ := Nat.exists_eq_add_of_le' above
  rfl

theorem scan_ends {scan} (scans : Scans self low scan) (above : low ≤ i)
    (table : self.ptr = some addr)
    (live : mem.cells addr = some (.table (chains.map slotOf))) (count : left + i = chains.length)
    (linked : ∀ chain ∈ chains.drop i, Linked mem.cells chain) :
    Ends (scan left i) mem (fun it same => Walk mem.cells chains it (chains.drop i).flatten ∧
      same = mem) failed := by
  induction left generalizing i with
  | zero =>
    obtain ⟨_, isEnd⟩ := scans.1 i
    rw [isEnd, drop_of_length_le (by omega)]
    exact ends_pure _ ⟨.finished rfl, rfl⟩
  | succ _ ih =>
    have inside : i < chains.length := by omega
    rw [scans.2 _ _ above]
    rw [drop_eq_getElem_cons inside] at linked ⊢
    have here := linked _ mem_cons_self
    apply ends_loadSlot table live (slot_get inside)
    cases isChain : chains[i] with
    | nil => exact ih (by omega) (by omega) fun chain listed => linked chain (mem_cons_of_mem _ listed)
    | cons =>
      rw [isChain] at here
      exact ends_pure _ ⟨.within rfl here inside fun chain listed =>
        linked chain (mem_cons_of_mem _ listed), rfl⟩

theorem increment_ends (table : self.ptr = some addr)
    (live : mem.cells addr = some (.table (chains.map slotOf)))
    (buckets : self.numBuckets = chains.length) (walk : Walk mem.cells chains it (entry :: rest)) :
    it.node = some entry.addr ∧ (∃ next, mem.cells entry.addr =
      some (.bucket ⟨entry.key, entry.value, next⟩)) ∧
    Ends (increment self it) mem (fun it' same => Walk mem.cells chains it' rest ∧ same = mem)
      failed := by
  generalize isRest : entry :: rest = whole at walk
  cases walk with
  | finished => cases isRest
  | @within _ chain node linked inside later =>
    cases isRest
    refine ⟨node, ⟨_, linked.1⟩, ?_⟩
    rw [increment, node]
    apply ends_loadBucket linked.1
    cases chain with
    | nil =>
      have count : self.numBuckets - (it.bucketIdx + 1) + (it.bucketIdx + 1) = chains.length := by
        omega
      exact scan_ends (scans_next self) (Nat.le_add_left ..) table live count later
    | cons => exact ends_pure _ ⟨.within rfl linked.2 inside later, rfl⟩

end Walks

end Nx.BucketChains
