import Nx.BucketGrowth

/-!
What the operations of a map do to its entries.
-/

namespace Nx.BucketOps


open Outcomes Cells BucketMaps BucketChains BucketGrowth List

variable {Ptr K V : Type}
variable {hash : K → Nat} {self : HashMap Ptr} {mem : Heap Ptr K V}
  {chains xs ys : List (List (Entry Ptr K V))}
variable {key : K} {failed : Fault → Prop} {front back : List (Entry Ptr K V)}
  {entry : Entry Ptr K V}

/-! Finding a key. -/

section Find

variable [DecidableEq K]

/-- The entry that `find` gives. -/
def latest (hash : K → Nat) (chains : List (List (Entry Ptr K V))) (key : K) :
    Option (Entry Ptr K V) :=
  chains[hash key % chains.length]?.bind (find? (·.key = key))

theorem findFrom_ends {chain} (linked : Linked mem.cells chain) (enough : chain.length ≤ fuel) :
    Ends (findFrom self key idx fuel (slotOf chain)) mem (fun it same =>
      (it.node = (chain.find? (·.key = key)).map Entry.addr ∧
        (it.node ≠ none → it.bucketIdx = idx)) ∧ same = mem) failed := by
  induction chain generalizing fuel with
  | nil =>
    cases fuel with
    | zero | succ fuel => exact ends_pure _ ⟨⟨rfl, absurd rfl⟩, rfl⟩
  | cons entry rest ih =>
    cases fuel with
    | zero => exact absurd enough (by simp)
    | succ fuel =>
      apply ends_loadBucket linked.1
      by_cases same : entry.key = key
      · rw [if_pos same, find?_cons_of_pos (by simpa using same)]
        exact ends_pure _ ⟨⟨rfl, fun _ => rfl⟩, rfl⟩
      · rw [if_neg same, find?_cons_of_neg (by simpa using same)]
        exact ih linked.2 (Nat.le_of_succ_le_succ enough)

omit [DecidableEq K] in
theorem length_le_flatten {chain} (listed : chain ∈ chains) :
    chain.length ≤ chains.flatten.length :=
  (sublist_flatten_of_mem listed).length_le

theorem find_ends (stored : Stored hash self mem chains) :
    Ends (find hash self key) mem (fun it same =>
    (it.node = (latest hash chains key).map Entry.addr ∧
      (it.node ≠ none → it.bucketIdx = hash key % chains.length)) ∧
    same = mem) failed := by
  rcases stored.table.slots with ⟨rfl, null⟩ | ⟨nonempty, addr, isTable, live⟩
  · rw [find, if_pos null]
    exact ends_pure _ ⟨⟨rfl, absurd rfl⟩, rfl⟩
  · have positive : chains.length ≠ 0 := fun zero => nonempty (length_eq_zero_iff.mp zero)
    obtain ⟨xs, chain, ys, isChains, place⟩ :=
      split_chains (Nat.mod_lt (hash key) (Nat.pos_of_ne_zero positive))
    have listed : chain ∈ chains := by simp [isChains]
    have bucket : chains[xs.length]? = some chain := by simp [isChains]
    rw [latest, find, if_neg (by rw [isTable]; exact Option.some_ne_none _), indexForKey,
      stored.buckets,
      if_neg positive, ← place, bucket]
    refine ends_bind (ends_pure _ ?_)
    have slot : (chains.map slotOf)[xs.length]? = some (slotOf chain) := by
      rw [getElem?_map, bucket]
      rfl
    refine ends_loadSlot isTable live slot (ends_get ?_)
    exact findFrom_ends (stored.table.linked chain listed)
      ((length_le_flatten listed).trans stored.bound)

theorem latest_split (found : latest hash chains key = some entry) : ∃ xs ys front back,
    chains = xs ++ (front ++ entry :: back) :: ys ∧ xs.length = hash key % chains.length ∧
      entry.key = key := by
  obtain ⟨_, there, inChain⟩ := Option.bind_eq_some_iff.mp found
  obtain ⟨isKey, front, back, rfl, _⟩ := find?_eq_some_iff_append.mp inChain
  obtain ⟨inside, isChain⟩ := List.getElem?_eq_some_iff.mp there
  refine ⟨chains.take (hash key % chains.length), chains.drop (hash key % chains.length + 1), front,
    back, ?_, ?_,
    by simpa using isKey⟩
  · rw [← isChain, ← drop_eq_getElem_cons inside, take_append_drop]
  · rw [length_take]
    exact min_eq_left inside.le

theorem latest_iff (home : Home hash chains.length chains)
    (keys : (chains.flatten.map Entry.key).Nodup) :
    latest hash chains key = some entry ↔ entry ∈ chains.flatten ∧ entry.key = key := by
  have listed {other} (found : latest hash chains key = some other) :
      other ∈ chains.flatten ∧ other.key = key := by
    obtain ⟨_, _, _, _, isChains, _, isKey⟩ := latest_split found
    exact ⟨by simp [isChains], isKey⟩
  refine ⟨listed, ?_⟩
  rintro ⟨member, rfl⟩
  obtain ⟨chain, isChain, inside⟩ := mem_flatten.mp member
  obtain ⟨idx, there⟩ := mem_iff_getElem?.mp isChain
  cases found : latest hash chains entry.key with
  | none =>
    rw [latest, home idx chain there entry inside, there] at found
    simpa using find?_eq_none.mp found entry inside
  | some other =>
    obtain ⟨otherMember, same⟩ := listed found
    rw [inj_on_of_nodup_map keys otherMember member same]

end Find

structure Turned (hash : K → Nat) (map : HashMap Ptr) (mem : Heap Ptr K V)
    (chains : List (List (Entry Ptr K V)))
    (turned : HashMap Ptr) (after : Heap Ptr K V) (chains' : List (List (Entry Ptr K V))) :
      Prop where
  holds : Holds hash turned after chains'
  changed : Changed (Owns map.ptr chains) (Owns turned.ptr chains') mem after

variable [DecidableEq Ptr] {value : V}

theorem insertNode_ends (entry : Entry Ptr K V) (stored : Stored hash self mem chains)
    (nonempty : chains ≠ [])
    (free : mem.cells entry.addr = none) : Ends
      (insertInternal hash self.ptr self.numBuckets (some entry.addr))
    (mem.extend entry.addr (.bucket ⟨entry.key, entry.value, none⟩) supply)
      (fun it after => it.node = some entry.addr ∧
    ∃ xs chain ys, chains = xs ++ chain :: ys ∧ Stored hash
    { self with cnt := self.cnt + 1 } after (xs ++ (entry :: chain) :: ys) ∧
    Changed (Owns self.ptr chains) (Owns self.ptr (xs ++ (entry :: chain) :: ys)) mem after)
      failed := by
  have table := stored.table
  obtain ⟨array, isTable, _⟩ := table.at nonempty
  rw [isTable] at table ⊢
  have fresh : entry.addr ∉ addrs chains.flatten := fun member => table.live (.inr member) free
  apply ends_imp (insertInternal_ends stored.buckets.symm nonempty (Table.extend table free)
    extend_self fresh)
  rintro _ _ ⟨node, _, isPlaced, tableNow, within, xs, chain, ys, isChains, rfl⟩
  refine ⟨node, xs, chain, ys, isChains, ⟨?_, ?_, ?_, ?_, ?_⟩, ⟨?_, ?_, ?_⟩⟩
  · exact stored.buckets.trans isPlaced.length.symm
  · exact isTable ▸ tableNow
  · rw [isPlaced.length]
    exact isPlaced.home stored.home
  · dsimp only
    rw [isPlaced.perm.length_eq, stored.cnt]
    rfl
  · rw [isPlaced.perm.length_eq]
    exact (Nat.succ_le_succ stored.bound).trans within.made
  · intro addr outside live
    have offNode : addr ≠ entry.addr := by
      rintro rfl
      exact live free
    have offTable : addr ≠ array := fun same => outside (.inl (same ▸ rfl))
    rw [within.cells addr (fun changed => changed.elim offNode offTable), extend_other offNode]
  · rintro _ (isArray | member)
    · exact .inl (.inl isArray)
    · rcases mem_cons.mp ((isPlaced.perm.map Entry.addr).mem_iff.mp member) with same | before
      · exact .inr (same ▸ free)
      · exact .inl (.inr before)
  · exact (Nat.le_succ _).trans within.made

theorem insert_ends (holds : Holds hash self mem chains) (absent : ∀ entry ∈ chains.flatten,
    entry.key ≠ key) :
    Ends (insert hash self key value) mem (fun out after => ∃ xs ys chain node, out.1.node =
      some node ∧
    (xs ++ (⟨node, key, value⟩ :: chain) :: ys).flatten.Perm
      (⟨node, key, value⟩ :: chains.flatten) ∧
    Turned hash self mem chains out.2 after (xs ++ (⟨node, key, value⟩ :: chain) :: ys))
      (· = .noMemory) := by
  apply ends_seq (ensureSize_ends holds)
  rintro _ _ ⟨_, isResized⟩
  refine ends_allocate (fun _ => rfl) ?_
  intro node _ free
  apply ends_seq (insertNode_ends ⟨node, key, value⟩ isResized.holds.stored isResized.nonempty free)
  rintro _ _ ⟨isNode, xs, chain, ys, rfl, stored, changed⟩
  have perm := (flatten_insert [] chain).trans (isResized.perm.cons ⟨node, key, value⟩)
  refine ends_pure _ ⟨xs, ys, chain, node, isNode, perm, stored.holds ?_,
    isResized.changed.trans changed⟩
  apply (perm.map Entry.key).nodup_iff.mpr (nodup_cons.mpr ⟨?_, holds.keys⟩)
  intro member
  obtain ⟨other, listed, same⟩ := mem_map.mp member
  exact absent other listed same

variable {array : Ptr}

theorem eraseFrom_ends (linked : Linked mem.cells (front ++ entry :: back))
    (nodup : (addrs (front ++ entry :: back)).Nodup) (nonempty : front ≠ [])
      (enough : front.length ≤ fuel) :
    Ends (eraseFrom (some entry.addr) fuel (slotOf front)) mem (fun node same =>
    (∃ before previous, front = before ++ [previous] ∧ node = some previous.addr) ∧ same = mem)
      failed := by
  induction front generalizing fuel with
  | nil => exact absurd rfl nonempty
  | cons first more ih =>
    cases fuel with
    | zero => exact absurd enough (by simp)
    | succ =>
      cases more with
      | nil =>
        have here : mem.cells first.addr = some
            (.bucket ⟨first.key, first.value, some entry.addr⟩) := linked.1
        apply ends_loadBucket here
        rw [if_pos rfl]
        exact ends_pure _ ⟨⟨[], first, rfl, rfl⟩, rfl⟩
      | cons second =>
        have differs : second.addr ≠ entry.addr := by
          intro same
          have tail := (nodup_cons.mp nodup).2
          exact (nodup_cons.mp tail).1 (by simp [same])
        have here : mem.cells first.addr = some
            (.bucket ⟨first.key, first.value, some second.addr⟩) := linked.1
        apply ends_loadBucket here
        rw [if_neg fun same => differs (Option.some.inj same)]
        apply ends_imp (ih linked.2 (nodup_cons.mp nodup).2 (cons_ne_nil _ _)
          (Nat.le_of_succ_le_succ enough))
        rintro _ _ ⟨⟨before, previous, isMore, isNode⟩, isSame⟩
        exact ⟨⟨first :: before, previous, by rw [isMore]; rfl, isNode⟩, isSame⟩

structure Erased (hash : K → Nat) (map : HashMap Ptr) (mem : Heap Ptr K V)
    (xs ys : List (List (Entry Ptr K V)))
    (front back : List (Entry Ptr K V)) (entry : Entry Ptr K V) (out : Iterator Ptr × HashMap Ptr)
    (after : Heap Ptr K V) : Prop where
  isNext : out.1 = ⟨slotOf back, xs.length⟩
  stored : Stored hash out.2 after (xs ++ (front ++ back) :: ys)
  changed : Changed (Owns map.ptr (xs ++ (front ++ entry :: back) :: ys))
    (Owns out.2.ptr (xs ++ (front ++ back) :: ys)) mem after

omit [DecidableEq Ptr] in
theorem erased (front : List (Entry Ptr K V)) {after}
    (stored : Stored hash self mem (xs ++ (front ++ entry :: back) :: ys))
    (table : Table after self.ptr (xs ++ (front ++ back) :: ys))
    (within : Within (Owns self.ptr (xs ++ (front ++ entry :: back) :: ys)) mem after) :
    Erased hash self mem xs ys front back entry
      (⟨slotOf back, xs.length⟩, { self with cnt := self.cnt - 1 }) after := by
  have perm : (xs ++ (front ++ entry :: back) :: ys).flatten.Perm
      (entry :: (xs ++ (front ++ back) :: ys).flatten) := flatten_insert front back
  have length : (xs ++ (front ++ back) :: ys).length =
      (xs ++ (front ++ entry :: back) :: ys).length := by
    simp
  refine ⟨rfl, ⟨?_, table, ?_, ?_, ?_⟩, ⟨?_, ?_, within.made⟩⟩
  · exact stored.buckets.trans length.symm
  · rw [length]
    apply stored.home.replace
    intro other member
    apply stored.home.middle other
    rcases mem_append.mp member with inFront | inBack
    · exact mem_append_left _ inFront
    · exact mem_append_right _ (mem_cons_of_mem _ inBack)
  · dsimp only
    rw [stored.cnt, perm.length_eq]
    rfl
  · have bound := stored.bound
    rw [perm.length_eq] at bound
    exact (Nat.le_of_succ_le bound).trans within.made
  · intro addr outside _
    exact within.cells addr outside
  · rintro _ (isArray | member)
    · exact .inl (.inl isArray)
    · obtain ⟨_, listed, rfl⟩ := mem_map.mp member
      exact .inl (.inr (mem_map_of_mem ((flatten_insert front back).mem_iff.mpr (mem_cons_of_mem _ listed))))

omit [DecidableEq Ptr] in
theorem nodup_less (front : List (Entry Ptr K V))
    (nodup : (addrs (xs ++ (front ++ entry :: back) :: ys).flatten).Nodup) :
    (addrs (xs ++ (front ++ back) :: ys).flatten).Nodup :=
  (nodup_cons.mp (((flatten_insert front back).map Entry.addr).nodup_iff.mp nodup)).2

omit [DecidableEq Ptr] in
theorem nodup_chain {chain} (nodup : (addrs (xs ++ chain :: ys).flatten).Nodup) :
    (addrs chain).Nodup := by
  refine nodup.sublist (List.Sublist.map _ (sublist_flatten_of_mem ?_))
  simp

theorem eraseFirst_table (table : Table mem (some array) (xs ++ (entry :: back) :: ys)) :
    Table ((mem.put array (.table ((xs ++ back :: ys).map slotOf))).drop entry.addr) (some array)
    (xs ++ back :: ys) := by
  have offArray : array ≠ entry.addr := by
    intro same
    exact table.off_table (by simp) (mem_addrs_flatten mem_append_cons_self mem_cons_self) same.symm
  have within : Within (fun addr => addr = array ∨ addr ∈ addrs (entry :: back)) mem
      ((mem.put array (.table ((xs ++ back :: ys).map slotOf))).drop entry.addr) :=
    (within_put (.inl rfl)).trans (within_drop (.inr mem_cons_self))
  have nodup := nodup_cons.mp (nodup_chain table.nodup)
  refine table.replace within (fun _ listed addr => table.apart listed) ?_ ?_
    (nodup_less [] table.nodup)
  · refine linked_congr ?_ (table.linked (entry :: back) (by simp)).2
    intro addr member
    have offEntry : addr ≠ entry.addr := fun same => nodup.1 (same ▸ member)
    have offTable : addr ≠ array :=
      table.off_table (by simp) (mem_addrs_flatten mem_append_cons_self (mem_cons_of_mem _ member))
    rw [drop_other offEntry, put_other offTable]
  · rw [drop_other offArray, put_self]

theorem eraseLater_table {before} {previous}
    (table : Table mem (some array) (xs ++ (before ++ previous :: entry :: back) :: ys)) :
    Table ((mem.put previous.addr (.bucket ⟨previous.key, previous.value, slotOf back⟩)).drop
      entry.addr) (some array)
    (xs ++ (before ++ previous :: back) :: ys) := by
  have nodup := nodup_chain table.nodup
  have linked := table.linked (before ++ previous :: entry :: back) (by simp)
  rw [addrs_append, addrs_cons, addrs_cons] at nodup
  obtain ⟨_, tail, apart⟩ := nodup_append'.mp nodup
  obtain ⟨offPrevious, later⟩ := nodup_cons.mp tail
  have offEntry : previous.addr ≠ entry.addr := fun same => offPrevious (same ▸ mem_cons_self)
  have nodes : ∀ addr ∈ addrs (before ++ previous :: entry :: back), addr ≠ array :=
    fun addr member => table.off_table (by simp) (mem_addrs_flatten mem_append_cons_self member)
  have within : Within (fun addr => addr = array ∨
      addr ∈ addrs (before ++ previous :: entry :: back))
      mem ((mem.put previous.addr (.bucket ⟨previous.key, previous.value, slotOf back⟩)).drop
        entry.addr) :=
    (within_put (.inr (by simp))).trans (within_drop (.inr (by simp)))
  refine table.replace within (fun _ listed addr => table.apart listed) ?_ ?_ ?_
  · refine linked_replace linked rfl ?_ ?_ ?_
    · intro addr member
      have offFirst : addr ≠ previous.addr := fun same => apart member (by simp [same])
      have offSecond : addr ≠ entry.addr := fun same => apart member (by simp [same])
      rw [drop_other offSecond, put_other offFirst]
    · rw [drop_other offEntry, put_self]
    · refine linked_congr ?_ (linked_back linked).2.2
      intro addr member
      have offFirst : addr ≠ previous.addr :=
        fun same => offPrevious (mem_cons_of_mem _ (same ▸ member))
      have offSecond : addr ≠ entry.addr := fun same => (nodup_cons.mp later).1 (same ▸ member)
      rw [drop_other offSecond, put_other offFirst]
  · have offFirst : array ≠ previous.addr := (nodes previous.addr (by simp)).symm
    have offSecond : array ≠ entry.addr := (nodes entry.addr (by simp)).symm
    have slot : slotOf (before ++ previous :: entry :: back) =
        slotOf (before ++ previous :: back) := by
      cases before <;> rfl
    rw [drop_other offSecond, put_other offFirst, table.cell (by simp), map_append, map_cons,
      slot, map_append, map_cons]
  · have split (rest : List (Entry Ptr K V)) :
        before ++ previous :: rest = (before ++ [previous]) ++ rest := by simp
    have whole := table.nodup
    rw [split] at whole ⊢
    exact nodup_less _ whole

theorem eraseFirst_ends (stored : Stored hash self mem (xs ++ (entry :: back) :: ys)) :
    Ends (eraseFirst self xs.length entry.addr) mem (Erased hash self mem xs ys [] back entry)
      failed := by
  obtain ⟨_, isTable, live⟩ := stored.table.at (by simp)
  have table := stored.table
  rw [isTable] at table
  have here := (table.linked (entry :: back) (by simp)).1
  have listed : entry.addr ∈ addrs (xs ++ (entry :: back) :: ys).flatten :=
    mem_addrs_flatten mem_append_cons_self (by simp)
  have offArray := table.off_table (by simp) listed
  apply ends_loadBucket here
  refine ends_storeSlot isTable live (by simp)
    (ends_deallocate ((put_other offArray).trans here) ?_)
  refine ends_pure _ (erased [] stored ?_ ?_)
  · rw [isTable, slots_set rfl]
    exact eraseFirst_table table
  · exact (within_put (.inl isTable)).trans (within_drop (.inr listed))

theorem eraseLater_ends {first} (isFirst : slotOf front = some first)
    (stored : Stored hash self mem (xs ++ (front ++ entry :: back) :: ys)) :
    Ends (eraseLater self ⟨some entry.addr, xs.length⟩ first) mem
      (Erased hash self mem xs ys front back entry) failed := by
  have chain : front ++ entry :: back ∈ xs ++ (front ++ entry :: back) :: ys := mem_append_cons_self
  have linked := stored.table.linked _ chain
  have nonempty : front ≠ [] := by
    rintro rfl
    cases isFirst
  have enough : front.length ≤ mem.made := by
    have whole := (length_le_flatten chain).trans stored.bound
    rw [length_append] at whole
    omega
  apply ends_get
  rw [← isFirst]
  apply ends_read (eraseFrom_ends linked (nodup_chain stored.table.nodup) nonempty enough)
  rintro _ ⟨before, previous, rfl, rfl⟩
  have split (rest : List (Entry Ptr K V)) : before ++ [previous] ++ rest = before ++
      previous :: rest := by simp
  have tableHere := stored.table
  rw [split] at tableHere linked
  have there := (linked_back linked).1
  have here := (linked_back linked).2.1
  have differs : entry.addr ≠ previous.addr := by
    intro same
    have nodup := nodup_chain tableHere.nodup
    rw [addrs_append] at nodup
    exact (nodup_cons.mp (nodup_append'.mp nodup).2.1).1 (by simp [same])
  refine ends_loadBucket here (ends_storeBucket there
    (ends_deallocate ((put_other differs).trans here) (ends_pure _ (erased _ stored ?_ ?_))))
  · rw [split]
    obtain ⟨_, isTable, _⟩ := tableHere.at (by simp)
    · rw [isTable] at tableHere ⊢
      exact eraseLater_table tableHere
  · exact (within_put (.inr (mem_addrs_flatten chain (by simp)))).trans
      (within_drop (.inr (mem_addrs_flatten chain (by simp))))

theorem erase_ends (stored : Stored hash self mem (xs ++ (front ++ entry :: back) :: ys)) :
    Ends (erase self ⟨some entry.addr, xs.length⟩) mem (Erased hash self mem xs ys front back entry)
      failed := by
  obtain ⟨_, isTable, live⟩ := stored.table.at (by simp)
  have inside : ¬ (some entry.addr = none ∨ self.numBuckets ≤ xs.length) := by
    rw [stored.buckets]
    simp
  rw [erase, if_neg inside]
  apply ends_loadSlot isTable live (slot_middle rfl)
  cases front with
  | nil =>
    dsimp only [nil_append, slotOf_cons]
    rw [if_pos rfl]
    exact eraseFirst_ends stored
  | cons first =>
    have differs : some first.addr ≠ some entry.addr := by
      intro same
      have nodup := nodup_chain stored.table.nodup
      exact (nodup_cons.mp nodup).1 (by simp [Option.some.inj same])
    dsimp only [cons_append, slotOf_cons]
    rw [if_neg differs]
    exact eraseLater_ends rfl stored

omit [DecidableEq Ptr] in
theorem Erased.turned {out} {after} (is : Erased hash self mem xs ys front back entry out after)
    (holds : Holds hash self mem (xs ++ (front ++ entry :: back) :: ys)) :
    Turned hash self mem (xs ++ (front ++ entry :: back) :: ys) out.2 after
      (xs ++ (front ++ back) :: ys) :=
  ⟨is.stored.holds (nodup_cons.mp (((flatten_insert front back).map Entry.key).nodup_iff.mp
    holds.keys)).2, is.changed⟩

omit [DecidableEq Ptr] in
theorem addrs_revalue (value : V) :
    addrs (xs ++ (front ++ { entry with value := value } :: back) :: ys).flatten =
      addrs (xs ++ (front ++ entry :: back) :: ys).flatten := by
  rw [flatten_middle, flatten_middle]
  simp

theorem revalued (holds : Holds hash self mem (xs ++ (front ++ entry :: back) :: ys)) (value : V) :
    Turned hash self mem (xs ++ (front ++ entry :: back) :: ys) self
      (mem.put entry.addr (.bucket ⟨entry.key, value, slotOf back⟩))
      (xs ++ (front ++ { entry with value := value } :: back) :: ys) := by
  have nodup := nodup_chain holds.table.nodup
  have linked := holds.table.linked _ mem_append_cons_self
  have listed : entry.addr ∈ addrs (xs ++ (front ++ entry :: back) :: ys).flatten :=
    mem_addrs_flatten mem_append_cons_self (by simp)
  rw [addrs_append, addrs_cons] at nodup
  obtain ⟨_, tail, apart⟩ := nodup_append'.mp nodup
  have within : Within (· ∈ addrs (front ++ entry :: back)) mem
      (mem.put entry.addr (.bucket ⟨entry.key, value, slotOf back⟩)) := within_put (by simp)
  have length : (xs ++ (front ++ { entry with value := value } :: back) :: ys).flatten.length =
      (xs ++ (front ++ entry :: back) :: ys).flatten.length := by
    rw [flatten_middle, flatten_middle]
    simp
  have keys : (xs ++ (front ++ { entry with value := value } :: back) :: ys).flatten.map Entry.key =
      (xs ++ (front ++ entry :: back) :: ys).flatten.map Entry.key := by
    rw [flatten_middle, flatten_middle]
    simp
  have buckets : (xs ++ (front ++ { entry with value := value } :: back) :: ys).length =
      (xs ++ (front ++ entry :: back) :: ys).length := by simp
  refine ⟨⟨holds.buckets.trans buckets.symm, ?_, ?_, keys ▸ holds.keys, holds.cnt.trans length.symm,
    length ▸ holds.bound⟩, ⟨?_, ?_, le_refl _⟩⟩
  · obtain ⟨_, isTable, live⟩ := holds.table.at (by simp)
    have table := holds.table
    rw [isTable] at table ⊢
    refine table.replace (within.mono fun _ => .inr) (fun other listed addr =>
      table.apart listed) ?_ ?_ ?_
    · refine linked_replace linked rfl ?_ put_self ?_
      · intro addr member
        exact put_other fun same => apart member (by simp [same])
      · refine linked_congr ?_ (linked_back linked).2
        intro addr member
        exact put_other fun same => (nodup_cons.mp tail).1 (same ▸ member)
    · have slot : slotOf (front ++ { entry with value := value } :: back) =
          slotOf (front ++ entry :: back) := by
        cases front <;> rfl
      rw [put_other (table.off_table (by simp) listed).symm, live, map_append, map_cons, map_append,
        map_cons, slot]
    · rw [addrs_revalue]
      exact table.nodup
  · rw [buckets]
    apply holds.home.replace
    intro other member
    rcases mem_append.mp member with inFront | later
    · exact holds.home.middle other (mem_append_left _ inFront)
    · rcases mem_cons.mp later with same | inBack
      · rw [same]
        exact holds.home.middle entry (by simp)
      · exact holds.home.middle other (by simp [inBack])
  · intro addr outside _
    exact put_other fun same => outside (.inr (same ▸ listed))
  · rintro _ (isTable | member)
    · exact .inl (.inl isTable)
    · rw [addrs_revalue] at member
      exact .inl (.inr member)

end Nx.BucketOps
