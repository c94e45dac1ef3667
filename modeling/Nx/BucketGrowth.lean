import Nx.BucketChains

/-!
A map that holds some entries, and how its table grows and shrinks: every node is
taken out of the old chains and put in front of one of the new.
-/

namespace Nx.BucketGrowth


open Outcomes Cells BucketMaps BucketChains List

variable {Ptr K V : Type}
variable {hash : K → Nat} {chains : List (List (Entry Ptr K V))} {entry : Entry Ptr K V}
  {mem : Heap Ptr K V}
variable {array : Ptr} {failed : Fault → Prop} {self : HashMap Ptr}

def Home (hash : K → Nat) (len : Nat) (chains : List (List (Entry Ptr K V))) : Prop :=
  ∀ idx chain, chains[idx]? = some chain → ∀ entry ∈ chain, hash entry.key % len = idx

structure Holds (hash : K → Nat) (map : HashMap Ptr) (mem : Heap Ptr K V)
    (chains : List (List (Entry Ptr K V))) : Prop where
  buckets : map.numBuckets = chains.length
  table : Table mem map.ptr chains
  home : Home hash chains.length chains
  keys : (chains.flatten.map Entry.key).Nodup
  cnt : map.cnt = chains.flatten.length
  bound : chains.flatten.length ≤ mem.made

/-- A map that may have a key more than once. -/
structure Stored (hash : K → Nat) (map : HashMap Ptr) (mem : Heap Ptr K V)
    (chains : List (List (Entry Ptr K V))) : Prop where
  buckets : map.numBuckets = chains.length
  table : Table mem map.ptr chains
  home : Home hash chains.length chains
  cnt : map.cnt = chains.flatten.length
  bound : chains.flatten.length ≤ mem.made

theorem Holds.stored (holds : Holds hash self mem chains) : Stored hash self mem chains :=
  ⟨holds.buckets, holds.table, holds.home, holds.cnt, holds.bound⟩

theorem Stored.holds (stored : Stored hash self mem chains)
    (keys : (chains.flatten.map Entry.key).Nodup) :
    Holds hash self mem chains :=
  ⟨stored.buckets, stored.table, stored.home, keys, stored.cnt, stored.bound⟩

section Chains

variable {len : Nat} {xs ys : List (List (Entry Ptr K V))} {chain new : List (Entry Ptr K V)}

theorem Home.replace (home : Home hash len (xs ++ chain :: ys))
    (own : ∀ entry ∈ new, hash entry.key % len = xs.length) : Home hash len (xs ++ new :: ys) := by
  intro idx found there entry member
  rw [← set_middle xs ys chain new] at there
  by_cases same : idx = xs.length
  · subst same
    rw [getElem?_set_self (by simp)] at there
    cases there
    exact own entry member
  · rw [getElem?_set_ne (fun isSame => same isSame.symm)] at there
    exact home idx found there entry member

theorem Home.middle (home : Home hash len (xs ++ chain :: ys)) :
    ∀ entry ∈ chain, hash entry.key % len = xs.length :=
  home xs.length chain (by simp)

theorem flatten_middle : (xs ++ chain :: ys).flatten = xs.flatten ++ (chain ++ ys.flatten) := by
  simp

theorem flatten_insert (front back : List (Entry Ptr K V)) :
    (xs ++ (front ++ entry :: back) :: ys).flatten.Perm
      (entry :: (xs ++ (front ++ back) :: ys).flatten) := by
  rw [flatten_middle, flatten_middle]
  have left (middle : List (Entry Ptr K V)) :
      xs.flatten ++ (front ++ middle) = (xs.flatten ++ front) ++ middle := by simp
  rw [append_assoc, append_assoc, left, left, cons_append]
  exact perm_middle

end Chains

variable {after : Heap Ptr K V} {cap : Nat}

variable [DecidableEq Ptr] {next : Option Ptr}

structure Placed (hash : K → Nat) (chains placed : List (List (Entry Ptr K V)))
    (entry : Entry Ptr K V) : Prop where
  length : placed.length = chains.length
  perm : placed.flatten.Perm (entry :: chains.flatten)
  home : Home hash chains.length chains → Home hash chains.length placed

omit [DecidableEq Ptr] in
theorem table_placed {xs ys} {chain} (table : Table mem (some array) (xs ++ chain :: ys))
    (fresh : entry.addr ∉ addrs (xs ++ chain :: ys).flatten)
    (within : Within (fun addr => addr = entry.addr ∨ addr = array) mem after)
    (node : after.cells entry.addr = some (.bucket ⟨entry.key, entry.value, slotOf chain⟩))
    (slots : after.cells array = some (.table ((xs ++ (entry :: chain) :: ys).map slotOf))) :
    Table after (some array) (xs ++ (entry :: chain) :: ys) := by
  have untouched : ∀ addr ∈ addrs (xs ++ chain :: ys).flatten,
      ¬ (addr = entry.addr ∨ addr = array) := by
    rintro addr inside (same | same)
    · exact fresh (same ▸ inside)
    · exact table.off_table (by simp) inside same
  refine table.replace within ?_ ⟨node, ?_⟩ slots ?_
  · intro _ member addr inside
    exact untouched addr (mem_addrs_flatten (mem_with member) inside)
  · refine linked_congr ?_ (table.linked chain (by simp))
    intro addr inside
    exact within.cells addr (untouched addr (mem_addrs_flatten (by simp) inside))
  · have perm := (flatten_insert [] chain : (xs ++ ([] ++ entry :: chain) :: ys).flatten.Perm _).map
        Entry.addr
    exact perm.nodup_iff.mpr (nodup_cons.mpr ⟨fresh, table.nodup⟩)

theorem insertInternal_ends (isCap : chains.length = cap) (nonempty : chains ≠ [])
    (table : Table mem (some array) chains)
    (live : mem.cells entry.addr = some (.bucket ⟨entry.key, entry.value, next⟩))
    (fresh : entry.addr ∉ addrs chains.flatten) :
      Ends (insertInternal hash (some array) cap (some entry.addr)) mem
    (fun it after => it.node = some entry.addr ∧ ∃ placed, Placed hash chains placed entry ∧
    Table after (some array) placed ∧ Within (fun addr => addr = entry.addr ∨ addr = array)
      mem after ∧
    ∃ xs chain ys, chains = xs ++ chain :: ys ∧ placed = xs ++ (entry :: chain) :: ys) failed := by
  subst isCap
  have positive : chains.length ≠ 0 := fun zero => nonempty (length_eq_zero_iff.mp zero)
  have isTable := table.cell nonempty
  have differs : entry.addr ≠ array := by
    intro same
    rw [same, isTable] at live
    cases live
  obtain ⟨xs, chain, ys, isChains, place⟩ :=
    split_chains (Nat.mod_lt (hash entry.key) (Nat.pos_of_ne_zero positive))
  have placed : Placed hash chains (xs ++ (entry :: chain) :: ys) entry := by
    refine ⟨by simp [isChains], ?_, ?_⟩
    · rw [isChains]
      exact flatten_insert [] chain
    · intro home
      rw [isChains] at home place ⊢
      apply home.replace
      intro other member
      rcases mem_cons.mp member with same | later
      · rw [same, place]
      · exact home.middle other later
  apply ends_loadBucket live
  rw [indexForKey, if_neg positive, ← place]
  refine ends_bind (ends_pure _ (ends_storeBucket live ?_))
  have isSlots : (mem.put entry.addr (.bucket ⟨entry.key, entry.value, none⟩)).cells array =
      some (.table (chains.map slotOf)) := (put_other differs.symm).trans isTable
  subst isChains
  have inside : xs.length < ((xs ++ chain :: ys).map slotOf).length := by simp
  apply ends_loadSlot rfl isSlots (slot_middle rfl)
  cases chain with
  | nil =>
    refine ends_storeSlot rfl isSlots inside (ends_pure _ ⟨rfl, _, placed, ?_, ?_, _, _, _,
      rfl, rfl⟩)
    · refine table_placed table fresh ?_ ?_ ?_
      · exact (within_put (.inl rfl)).trans (within_put (.inr rfl))
      · rw [put_other differs]
        exact put_self
      · rw [put_self, ← slots_set rfl [entry]]
        rfl
    · exact (within_put (.inl rfl)).trans (within_put (.inr rfl))
  | cons first rest =>
    apply ends_storeSlot rfl isSlots inside
    have node : ((mem.put entry.addr (.bucket ⟨entry.key, entry.value, none⟩)).put array
        (.table (((xs ++ (first :: rest) :: ys).map slotOf).set xs.length (some entry.addr)))).cells
          entry.addr = some (.bucket ⟨entry.key, entry.value, none⟩) :=
      (put_other differs).trans put_self
    refine ends_storeBucket node (ends_pure _ ⟨rfl, _, placed, ?_, ?_, _, _, _, rfl, rfl⟩)
    · refine table_placed table fresh ?_ put_self ?_
      · exact (within_put (.inl rfl)).trans ((within_put (.inr rfl)).trans (within_put (.inl rfl)))
      · rw [put_other differs.symm, put_self, ← slots_set rfl (entry :: first :: rest)]
        rfl
    · exact (within_put (.inl rfl)).trans ((within_put (.inr rfl)).trans (within_put (.inl rfl)))

variable {addr : Ptr} {new : List (List (Entry Ptr K V))} {rest : List (Entry Ptr K V)}
  {it : Iterator Ptr}

structure Rehashed (hash : K → Nat) (array : Ptr) (rest : List (Entry Ptr K V))
    (new moved : List (List (Entry Ptr K V))) (before after : Heap Ptr K V) : Prop where
  length : moved.length = new.length
  table : Table after (some array) moved
  perm : moved.flatten.Perm (rest ++ new.flatten)
  home : Home hash new.length new → Home hash new.length moved
  within : Within (fun addr => addr ∈ addrs rest ∨ addr = array) before after

omit [DecidableEq Ptr] in
theorem Rehashed.cons {middle} (one : Placed hash new placed entry)
    (within : Within (fun addr => addr = entry.addr ∨ addr = array) mem middle)
    (later : Rehashed hash array rest placed moved middle after) :
    Rehashed hash array (entry :: rest) new moved mem after := by
  refine ⟨later.length.trans one.length, later.table, ?_, ?_, ?_⟩
  · exact later.perm.trans ((one.perm.append_left rest).trans perm_middle)
  · intro home
    have moved := later.home
    rw [one.length] at moved
    exact moved (one.home home)
  · refine (within.mono ?_).trans (later.within.mono ?_)
    · rintro other (same | same)
      · exact .inl (same ▸ mem_cons_self)
      · exact .inr same
    · rintro _ (member | same)
      · exact .inl (mem_cons_of_mem _ member)
      · exact .inr same

omit [DecidableEq Ptr] in
theorem Placed.nonempty (isPlaced : Placed hash new placed entry) (nonempty : new ≠ []) :
    placed ≠ [] := by
  rintro rfl
  exact nonempty (length_eq_zero_iff.mp isPlaced.length.symm)

/-- The rest of the old table moves to the new one. The iterator has gone on
before the node it was at is relinked. -/
theorem rehash_ends (isTable : self.ptr = some addr)
    (live : mem.cells addr = some (.table (chains.map slotOf)))
    (buckets : self.numBuckets = chains.length) (walk : Walk mem.cells chains it rest)
      (isCap : new.length = cap)
    (nonempty : new ≠ []) (table : Table mem (some array) new) (differs : array ≠ addr)
    (apart : (addrs (rest ++ new.flatten)).Nodup) (enough : rest.length ≤ fuel) :
    Ends (rehash hash self (some array) cap fuel it) mem (fun _ after =>
    ∃ moved, Rehashed hash array rest new moved mem after) failed := by
  induction rest generalizing mem it fuel new with
  | nil =>
    have finished : it.node = none := by
      cases walk with
      | finished node => exact node
    have settled : Rehashed hash array [] new new mem mem :=
      ⟨rfl, table, .refl _, fun home => home, within_refl _ _⟩
    cases fuel with
    | zero =>
      rw [rehash, if_pos finished]
      exact ends_pure _ ⟨new, settled⟩
    | succ fuel =>
      rw [rehash, finished]
      exact ends_pure _ ⟨new, settled⟩
  | cons entry rest ih =>
    obtain ⟨node, ⟨_, there⟩, step⟩ := increment_ends isTable live buckets walk
    cases fuel with
    | zero => exact absurd enough (by simp)
    | succ =>
      rw [addrs_append, addrs_cons, cons_append] at apart
      obtain ⟨off, _⟩ := nodup_cons.mp apart
      rw [rehash, node]
      apply ends_read step
      intro it' walk'
      have fresh : entry.addr ∉ addrs new.flatten := fun member =>
        off (mem_append_right _ member)
      apply ends_seq (insertInternal_ends isCap nonempty table there fresh)
      rintro _ after ⟨_, placed, isPlaced, tableNow, within, _⟩
      have offTable : addr ≠ entry.addr := by
        intro same
        rw [← same, live] at there
        cases there
      have liveNow : after.cells addr = some (.table (chains.map slotOf)) :=
        (within.cells addr fun changed => changed.elim offTable differs.symm).trans live
      have walkNow : Walk after.cells chains it' rest := by
        apply walk'.congr
        intro other member
        apply within.cells other
        rintro (same | same)
        · exact off (mem_append_left _ (same ▸ member))
        · obtain ⟨_, isNode⟩ := walk'.live member
          rw [same, table.cell nonempty] at isNode
          cases isNode
      have apartNow : (addrs (rest ++ placed.flatten)).Nodup := by
        have shuffle := (isPlaced.perm.append_left rest).trans perm_middle
        refine (shuffle.map Entry.addr).nodup_iff.mpr ?_
        rw [map_cons, map_append]
        exact apart
      refine ends_imp (ih liveNow walkNow (isPlaced.length.trans isCap)
        (isPlaced.nonempty nonempty) tableNow apartNow (Nat.le_of_succ_le_succ enough)) ?_
      rintro _ _ ⟨moved, rehashed⟩
      exact ⟨moved, .cons isPlaced within rehashed⟩

theorem rehash_finished (finished : it.node = none) :
    Ends (rehash hash self newptr cap fuel it) mem (fun _ after => after = mem) failed := by
  cases fuel with
  | zero =>
    rw [rehash, if_pos finished]
    exact ends_pure _ rfl
  | succ =>
    rw [rehash, finished]
    exact ends_pure _ rfl

variable {cell : Cell Ptr K V}

omit [DecidableEq Ptr] in
theorem newCapacity_ne_zero (self : HashMap Ptr) : newCapacity self ≠ 0 := by
  unfold newCapacity nextSize prevSize startingSize
  split
  · split
    · decide
    · omega
  · split <;> omega

omit [DecidableEq Ptr] in
theorem begin_ends (table : Table mem self.ptr chains) (buckets : self.numBuckets = chains.length) :
    Ends (begin self) mem (fun it same => Walk mem.cells chains it chains.flatten ∧ same = mem)
      failed := by
  rcases table.slots with ⟨rfl, null⟩ | ⟨_, _, isTable, live⟩
  · rw [begin, if_pos null]
    exact ends_pure _ ⟨.finished rfl, rfl⟩
  · rw [begin, if_neg (by rw [isTable]; exact Option.some_ne_none _), buckets]
    exact scan_ends (scans_begin self) le_rfl isTable live rfl table.linked

theorem table_extend (positive : num ≠ 0) :
    Table (mem.extend array (.table (List.replicate num none)) supply)
    (some array) (List.replicate num ([] : List (Entry Ptr K V))) := by
  refine ⟨.inr ⟨?_, array, rfl, ?_⟩, ?_, ?_⟩
  · intro empty
    exact positive (by simpa using empty)
  · rw [extend_self, map_replicate]
    rfl
  · intro _ listed
    rw [eq_of_mem_replicate listed]
    trivial
  · rw [flatten_replicate_nil]
    exact nodup_nil

theorem Table.extend (table : Table mem ptr chains) (free : mem.cells array = none) :
    Table (mem.extend array cell supply) ptr chains := by
  apply table.congr
  intro _ owns
  apply extend_other
  rintro rfl
  exact table.live owns free

omit [DecidableEq Ptr] in
theorem home_replicate (len num : Nat) :
    Home hash len (List.replicate num ([] : List (Entry Ptr K V))) := by
  intro _ _ there _ member
  rw [eq_of_mem_replicate (mem_of_getElem? there)] at member
  cases member

structure Resized (hash : K → Nat) (map : HashMap Ptr) (mem : Heap Ptr K V)
    (chains : List (List (Entry Ptr K V)))
    (resized : HashMap Ptr) (after : Heap Ptr K V) (chains' : List (List (Entry Ptr K V))) :
      Prop where
  holds : Holds hash resized after chains'
  nonempty : chains' ≠ []
  perm : chains'.flatten.Perm chains.flatten
  changed : Changed (Owns map.ptr chains) (Owns resized.ptr chains') mem after

theorem resized_of_rehashed (holds : Holds hash self mem chains) (isTable : self.ptr = some addr)
    (nonempty : chains ≠ []) (free : mem.cells array = none) (positive : cap ≠ 0)
    (rehashed : Rehashed hash array chains.flatten (List.replicate cap []) moved
      (mem.extend array cell supply) after) :
    Resized hash self mem chains { self with numBuckets := cap, ptr := some array }
      (after.drop addr) moved := by
  have table := holds.table
  rw [isTable] at table
  have perm := rehashed.perm
  rw [flatten_replicate_nil, append_nil] at perm
  have length := rehashed.length
  rw [length_replicate] at length
  have offArray : array ≠ addr := by
    rintro rfl
    exact table.live (.inl rfl) free
  have nodes : ∀ other, other ∈ addrs moved.flatten ↔ other ∈ addrs chains.flatten :=
    fun other => (perm.map Entry.addr).mem_iff
  refine ⟨⟨length.symm, ?_, ?_, ?_, ?_, ?_⟩, ?_, perm, ⟨?_, ?_, ?_⟩⟩
  · apply rehashed.table.congr
    rintro other (isArray | member)
    · cases isArray
      exact drop_other offArray
    · exact drop_other (table.off_table nonempty ((nodes other).mp member))
  · have home := rehashed.home (home_replicate _ _)
    rw [length_replicate] at home
    rw [length]
    exact home
  · exact (perm.map Entry.key).nodup_iff.mpr holds.keys
  · rw [perm.length_eq]
    exact holds.cnt
  · rw [perm.length_eq]
    exact holds.bound.trans ((Nat.le_succ _).trans rehashed.within.made)
  · rintro rfl
    exact positive length.symm
  · intro other outside there
    have offNodes : other ∉ addrs chains.flatten := fun member => outside (.inr member)
    have offTable : other ≠ addr := fun same => outside (.inl (same ▸ isTable))
    have offNew : other ≠ array := by
      rintro rfl
      exact there free
    rw [drop_other offTable, rehashed.within.cells other
      (fun changed => changed.elim offNodes offNew),
      extend_other offNew]
  · rintro other (isArray | member)
    · cases isArray
      exact .inr free
    · exact .inl (.inr ((nodes other).mp member))
  · exact (Nat.le_succ _).trans rehashed.within.made

theorem ensureSize_ends (holds : Holds hash self mem chains) :
    Ends (ensureSize hash self) mem (fun resized after =>
    ∃ chains', Resized hash self mem chains resized after chains') (· = .noMemory) := by
  have positive := newCapacity_ne_zero self
  by_cases same : newCapacity self = self.numBuckets
  · have nonempty : chains ≠ [] := by
      rintro rfl
      exact positive (same.trans holds.buckets)
    rw [ensureSize, if_pos same]
    exact ends_pure _ ⟨chains, holds, nonempty, .refl _, changed_refl _ _⟩
  · rw [ensureSize, if_neg same]
    refine ends_allocateTable positive rfl ?_
    intro array supply free
    have old : Table (mem.extend array (.table (List.replicate (newCapacity self) none)) supply)
        self.ptr chains := Table.extend holds.table free
    apply ends_read (begin_ends old holds.buckets)
    intro it walk
    apply ends_get
    rcases holds.table.slots with ⟨rfl, null⟩ | ⟨nonempty, addr, isTable, _⟩
    · -- the first table
      have finished : it.node = none := by
        cases walk with
        | finished node => exact node
      apply ends_seq (rehash_finished finished)
      rintro _ _ rfl
      rw [null]
      refine ends_deallocate_null (ends_pure _
        ⟨List.replicate (newCapacity self) [], ⟨?_, table_extend positive, ?_, ?_, ?_, ?_⟩,
          ?_, ?_, ?_⟩)
      · exact (length_replicate ..).symm
      · exact home_replicate _ _
      · rw [flatten_replicate_nil]
        exact nodup_nil
      · rw [flatten_replicate_nil]
        exact holds.cnt
      · rw [flatten_replicate_nil]
        exact Nat.zero_le _
      · intro empty
        exact positive (by simpa using empty)
      · rw [flatten_replicate_nil]
        exact .refl _
      · refine ⟨?_, ?_, Nat.le_succ _⟩
        · intro other _ there
          apply extend_other
          rintro rfl
          exact there free
        · rintro _ (isArray | member)
          · cases isArray
            exact .inr free
          · rw [flatten_replicate_nil] at member
            cases member
    · have table := holds.table
      rw [isTable] at table
      have offArray : array ≠ addr := by
        rintro rfl
        exact table.live (.inl rfl) free
      rw [isTable] at old
      have liveNow := old.cell nonempty
      have apart : (addrs (chains.flatten ++
          (List.replicate (newCapacity self) ([] : List (Entry Ptr K V))).flatten)).Nodup := by
        rw [flatten_replicate_nil, append_nil]
        exact table.nodup
      refine ends_seq (rehash_ends isTable liveNow holds.buckets walk (length_replicate ..)
        (fun empty => positive (by simpa using empty)) (table_extend positive) offArray apart
        (holds.bound.trans (Nat.le_succ _))) ?_
      rintro _ _ ⟨moved, rehashed⟩
      have resized := resized_of_rehashed holds isTable nonempty free positive rehashed
      have offNodes : addr ∉ addrs chains.flatten := fun member =>
        table.off_table nonempty member rfl
      have still := (rehashed.within.cells addr
          (fun changed => changed.elim offNodes offArray.symm)).trans liveNow
      rw [isTable]
      exact ends_deallocate still (ends_pure _ ⟨moved, resized⟩)

end Nx.BucketGrowth
