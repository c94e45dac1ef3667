import Nx.HeapAccounts

/-!
`expandBucket` and `init` of the kernel heap. Both plan how many chunks of each size go into new
pages and lay them out from the largest size to the smallest.
-/

namespace Nx.HeapLayout

open ChunkLedgers (Ledger Balances)
open Bytes Outcomes KernelHeap HeapAccounts List

variable {heap : Heap}

/-! ## The loops of `expandBucket` -/

variable {idx : BucketIdx} {num start stop : Nat}

theorem placeChunks_ends (accounts : Accounts lots heap) (locked : heap.expansionLock = true)
    (window : Window lots heap start stop) (room : start + num * bucketSize idx ≤ stop)
    (spare : num ≤ heap.numSpareChunks) (coarse : 8 ≤ idx.val → start % 128 = 0) :
      Ends (placeChunks idx num start) heap
    (fun next after => next = start + num * bucketSize idx ∧ Stocked lots heap after next stop num ∧
    (heap.buckets idx).numFreeChunks + num ≤ (after.buckets idx).numFreeChunks) failed := by
  induction num generalizing heap start with
  | zero =>
    refine ends_pure _ ⟨by omega, ⟨accounts, rfl, window, by omega, fun _ => rfl,
      fun _ => le_rfl, rfl⟩, le_rfl⟩
  | succ num ih =>
    rw [Nat.add_one_mul] at room
    have some : heap.spareChunks ≠ [] := by
      intro empty
      have count := accounts.spareCount
      rw [empty, length_nil] at count
      omega
    obtain ⟨_, rest, shape⟩ := exists_cons_of_ne_nil some
    have stocked := placeChunk_stocked accounts window (by omega) coarse shape
    have more : ((heap.buckets idx).numFreeChunks + 1) =
        (((lessSpare heap rest).addFreeChunk idx start).buckets idx).numFreeChunks := by
      rw [Heap.addFreeChunk, setBucket_same]
      rfl
    apply ends_seq (getSpareChunk_ends locked shape)
    rintro _ _ rfl
    apply ends_get
    apply ends_put
    have spareLeft := stocked.spare
    have onward : 8 ≤ idx.val → (start + bucketSize idx) % 128 = 0 := by
      intro high
      have first := coarse high
      have size := bucketSize_coarse idx high
      omega
    apply ends_imp (ih stocked.accounts (stocked.locked.trans locked) stocked.window (by omega)
      (by omega) onward) ?_
    rintro _ _ ⟨reached, later, _⟩
    refine ⟨by rw [reached, Nat.add_one_mul]; omega, ?_, by omega⟩
    have both := stocked.trans later
    rwa [Nat.add_comm 1 num] at both

def demand (counter : BucketIdx → Nat) (order : List BucketIdx) : Nat := (order.map counter).sum

def extent (counter : BucketIdx → Nat) (order : List BucketIdx) : Nat :=
  (order.map fun idx => counter idx * bucketSize idx).sum

theorem extent_cons (counter : BucketIdx → Nat) (idx : BucketIdx) (rest : List BucketIdx) :
    extent counter (idx :: rest) = counter idx * bucketSize idx + extent counter rest :=
      by simp [extent]

theorem coarse_onward {rest : List BucketIdx} (above : ∀ other ∈ rest, idx > other)
    (coarse : 8 ≤ idx.val →
    start % 128 = 0) (num : Nat) : ∀ other ∈ rest, 8 ≤ other.val →
      (start + num * bucketSize idx) % 128 = 0 := by
  intro other listed _
  have larger : other.val < idx.val := above other listed
  have first := coarse (by omega)
  have size := bucketSize_coarse idx (by omega)
  have whole : num * bucketSize idx % 128 = 0 := by
    rw [Nat.mul_mod, size, Nat.mul_zero, Nat.zero_mod]
  omega

variable {order : List BucketIdx}

theorem placeAll_ends (accounts : Accounts lots heap) (locked : heap.expansionLock = true)
    (descending : order.Pairwise (· > ·)) (window : Window lots heap start stop)
    (room : start + extent counter order ≤ stop)
      (spare : demand counter order ≤ heap.numSpareChunks)
    (coarse : ∀ idx ∈ order, 8 ≤ idx.val → start % 128 = 0) :
      Ends (placeAll counter order start) heap (fun _ after =>
    (∃ next, Stocked lots heap after next stop (demand counter order)) ∧
    ∀ idx ∈ order, counter idx ≤ (after.buckets idx).numFreeChunks) failed := by
  induction order generalizing heap start with
  | nil =>
    refine ends_pure _ ⟨⟨start, accounts, rfl, window, rfl, fun _ => rfl, fun _ => le_rfl, rfl⟩, ?_⟩
    simp
  | cons idx rest ih =>
    have ⟨above, tail⟩ := pairwise_cons.mp descending
    have extentNow := extent_cons counter idx rest
    have demandNow : demand counter (idx :: rest) = counter idx + demand counter rest := by
      simp [demand]
    apply ends_seq (placeChunks_ends accounts locked window (by omega) (by omega)
      (coarse idx mem_cons_self))
    rintro _ _ ⟨rfl, stocked, _⟩
    have spareLeft := stocked.spare
    have onward := coarse_onward above (coarse idx mem_cons_self) (counter idx)
    apply ends_imp (ih stocked.accounts (stocked.locked.trans locked) tail stocked.window
      (by omega) (by omega) onward) ?_
    rintro _ _ ⟨⟨last, later⟩, counts⟩
    refine ⟨⟨last, ?_⟩, forall_mem_cons.mpr ⟨?_, counts⟩⟩
    · rw [demandNow]
      exact stocked.trans later
    · have kept := later.grows idx
      omega

theorem makeSpareChunks_ends (accounts : Accounts lots heap) (locked : heap.expansionLock = true)
    (window : Window lots heap start stop) : Ends makeSpareChunks heap
      (fun _ after => Accounts lots after ∧
    after.expansionLock = true ∧ Window lots after start stop ∧
    after.numSpareChunks = heap.numSpareChunks + chunksPerPage ∧ after.buckets = heap.buckets ∧
      Keeps lots heap after)
    (fun failure => failure = .noPages ∧ Denied heap 1) := by
  apply ends_get
  apply ends_seq (ends_check locked)
  rintro _ _ rfl
  apply ends_seq (internalAllocatePages_ends _ 1)
  rintro base _ ⟨fresh, rest, _, rfl⟩
  rw [if_neg (Fresh.ne_zero fresh)]
  apply ends_get
  apply ends_set
  have accountsGranted := accounts.granted fresh rest
  refine ⟨accountsGranted.congr rfl rfl ?_, locked, ?_, rfl, rfl, accounts.keeps_granted fresh rest⟩
  · have count := accounts.spareCount
    simp [granted, count]
  · intro byte above below
    have ⟨free, covered⟩ := window byte above below
    refine ⟨free, ?_⟩
    show 0 < covers (⟨base, 4096 * 1⟩ :: _) byte
    rw [covers_cons]
    omega

theorem expansionPlan_fits : ∀ idx : BucketIdx, 2 ≤ idx.val →
    let plan := expansionPlan idx (bucketSize idx)
    plan.total ≤ chunksPerPage ∧ plan.total = demand plan.counter downward ∧
      extent plan.counter downward ≤ 8192 ∧ 0 < plan.counter idx := by
  decide +kernel

theorem downward_descending : downward.Pairwise (· > ·) := by decide

theorem mem_downward (idx : BucketIdx) : idx ∈ downward := by
  simp [downward]

theorem setLock_ends (held : Bool) :
    Ends (setLock held) heap (fun _ after => after = { heap with expansionLock := held }) failed :=
  ends_get (ends_set _ rfl)

theorem layOut_ends {before : Heap} (accounts : Accounts lots heap) (sized : Sized heap)
    (locked : heap.expansionLock = true) (reachable : 2 ≤ idx.val) {base : Nat}
    (aligned : base % 4096 = 0) (window : Window lots heap base (base + 8192))
    (spare : (expansionPlan idx (bucketSize idx)).total ≤ heap.numSpareChunks)
      (keeps : Keeps lots before heap) :
    Ends (do
        let heap ← get
        check ((expansionPlan idx (bucketSize idx)).total ≤ heap.numSpareChunks)
          "numSpareChunks >= numChunks"
        placeAll (expansionPlan idx (bucketSize idx)).counter downward base
        setLock false) heap
      (fun _ after => Accounts lots after ∧ Sized after ∧ after.expansionLock = false ∧
        0 < (after.buckets idx).numFreeChunks ∧ Keeps lots before after) failed := by
  have ⟨_, total, bytes, own⟩ := expansionPlan_fits idx reachable
  apply ends_get
  apply ends_seq (ends_check spare)
  rintro _ _ rfl
  apply ends_seq (placeAll_ends accounts locked downward_descending window
    (by omega) (by omega) (fun _ _ _ => by omega))
  rintro _ middle ⟨⟨_, stocked⟩, counts⟩
  apply ends_imp (setLock_ends false) ?_
  rintro _ _ rfl
  refine ⟨stocked.accounts.congr rfl rfl stocked.accounts.spareCount, fun other => ?_, rfl, ?_, ?_⟩
  · exact (stocked.sizes other).trans (sized other)
  · have enough := counts idx (mem_downward idx)
    show 0 < (middle.buckets idx).numFreeChunks
    omega
  · intro byte inside
    show middle.memory byte = before.memory byte
    rw [stocked.memory]
    exact keeps byte inside

/-- The page allocator has a fresh run of this length and then one more page. -/
def Answered (heap : Heap) (num : Nat) : Prop :=
  ∃ first second rest, heap.incoming = first :: second :: rest ∧ Fresh heap.runs first num ∧
    Fresh (⟨first, 4096 * num⟩ :: heap.runs) second 1

theorem Denied.not_answered (denied : Denied heap num) : ¬ Answered heap num := by
  rintro ⟨first, second, rest, incoming, fresh, _⟩
  exact denied first (second :: rest) incoming fresh

theorem expandBucket_ends (accounts : Accounts lots heap) (sized : Sized heap)
    (unlocked : heap.expansionLock = false)
    (reachable : 2 ≤ idx.val) : Ends (expandBucket idx) heap (fun _ after => Accounts lots after ∧
      Sized after ∧
    after.expansionLock = false ∧ 0 < (after.buckets idx).numFreeChunks ∧ Keeps lots heap after)
      (fun failure =>
    failure = .noPages ∧ ¬ Answered heap expansionFactor) := by
  apply ends_get
  rw [if_neg (by rw [unlocked]; exact Bool.false_ne_true)]
  apply ends_seq (setLock_ends true)
  rintro _ _ rfl
  have lockedAccounts : Accounts lots { heap with expansionLock := true } :=
    accounts.congr rfl rfl accounts.spareCount
  apply ends_call (internalAllocatePages_ends _ expansionFactor)
  · rintro _ ⟨rfl, denied⟩
    exact ⟨rfl, Denied.not_answered denied⟩
  rintro _ _ ⟨fresh, rest, incoming, rfl⟩
  have window := lockedAccounts.window_granted fresh rest
  have keeps := lockedAccounts.keeps_granted fresh rest
  have ⟨total, _⟩ := expansionPlan_fits idx reachable
  rw [if_neg (Fresh.ne_zero fresh), sized idx]
  by_cases few : heap.numSpareChunks < (expansionPlan idx (bucketSize idx)).total
  · simp only [few, ↓reduceIte]
    apply ends_call (makeSpareChunks_ends (lockedAccounts.granted fresh rest) rfl window)
    · rintro _ ⟨rfl, denied⟩
      refine ⟨rfl, ?_⟩
      rintro ⟨_, second, left, answers, _, another⟩
      cases incoming.symm.trans answers
      exact denied second left rfl another
    rintro _ richer ⟨books, locked, stillFree, spare, buckets, kept⟩
    have sizedRicher : Sized richer := by
      rw [Sized, buckets]
      exact sized
    have enough : (expansionPlan idx (bucketSize idx)).total ≤ richer.numSpareChunks := by
      rw [spare]
      exact total.trans (Nat.le_add_left _ _)
    exact layOut_ends books sizedRicher locked reachable fresh.aligned stillFree enough
      (kept_trans keeps kept)
  · simp only [few, ↓reduceIte]
    exact layOut_ends (lockedAccounts.granted fresh rest) sized rfl reachable fresh.aligned window
      (not_lt.mp few) keeps

/-! ## `init` -/

theorem originChunks_stock (base : Ledger BucketIdx) (idx : BucketIdx) (made : List Chunk)
    (balanced : Balances bucketSize (base.setFree idx (made.map Chunk.memory)))
    (window : ChunkLedgers.Window bucketSize (base.setFree idx (made.map Chunk.memory)) start stop)
    (room : start + num * bucketSize idx ≤ stop) :
      let chunks := (originChunks (bucketSize idx) num start made).1
    Balances bucketSize (base.setFree idx (chunks.map Chunk.memory)) ∧
      ChunkLedgers.Window bucketSize (base.setFree idx (chunks.map Chunk.memory))
        (start + num * bucketSize idx) stop := by
  induction num generalizing start made with
  | zero =>
    rw [Nat.zero_mul]
    exact ⟨balanced, window⟩
  | succ num ih =>
    rw [Nat.add_one_mul] at room ⊢
    obtain ⟨more, smaller⟩ := balanced.stock window (show start + bucketSize idx ≤ stop by omega)
    simp only [Ledger.setFree, Function.update_idem, Function.update_self] at more smaller
    obtain ⟨all, rest⟩ := ih (⟨start⟩ :: made) more smaller (by omega)
    rw [Nat.add_comm (num * bucketSize idx), ← Nat.add_assoc]
    exact ⟨all, rest⟩

theorem originChunks_next (size num start : Nat) (made : List Chunk) :
    (originChunks size num start made).2 = start + num * size ∧
    (originChunks size num start made).1.length = made.length + num := by
  induction num generalizing start made with
  | zero => simp [originChunks]
  | succ _ ih =>
    rw [originChunks, Nat.add_one_mul, (ih _ _).1, (ih _ _).2, length_cons]
    omega

theorem originChunks_coarse (whole : size % 128 = 0) (first : start % 128 = 0)
    (before : ∀ chunk ∈ made, chunk.memory % 128 = 0) :
    ∀ chunk ∈ (originChunks size num start made).1, chunk.memory % 128 = 0 := by
  induction num generalizing start made with
  | zero => exact before
  | succ _ ih =>
    apply ih (by omega)
    exact forall_mem_cons.mpr ⟨first, before⟩

theorem initialPlan_fits : initialPlan.left = 0 ∧
    extent initialPlan.counter downward = 4096 * (initialMultiplier * 16) := by
  decide +kernel

theorem originBuckets_ends (accounts : Accounts [] heap) (descending : order.Pairwise (· > ·))
    (window : Window [] heap start stop) (room : start + extent counter order ≤ stop)
    (coarse : ∀ idx ∈ order, 8 ≤ idx.val → start % 128 = 0)
      (empty : ∀ idx ∈ order, heap.buckets idx = emptyBucket)
    (sized : ∀ idx ∉ order, (heap.buckets idx).chunkSize = bucketSize idx) :
    Ends (originBuckets counter order start) heap (fun _ after => Accounts [] after ∧ Sized after ∧
    after.expansionLock = heap.expansionLock ∧ after.numSpareChunks = heap.numSpareChunks)
      failed := by
  induction order generalizing heap start with
  | nil => exact ends_pure _ ⟨accounts, fun idx => sized idx (by simp), rfl, rfl⟩
  | cons idx rest ih =>
    have ⟨above, tail⟩ := pairwise_cons.mp descending
    have extentNow := extent_cons counter idx rest
    have ⟨next, length⟩ := originChunks_next (bucketSize idx) (counter idx) start []
    have emptyHere := empty idx mem_cons_self
    obtain ⟨bucket, bucketDef⟩ : ∃ bucket : Bucket, bucket =
      ⟨(originChunks (bucketSize idx) (counter idx) start []).1, counter idx, [], 0,
        bucketSize idx⟩ := ⟨_, rfl⟩
    have ⟨books, stillFree⟩ : Accounts [] (heap.setBucket idx bucket) ∧
        Window [] (heap.setBucket idx bucket) (start + counter idx * bucketSize idx) stop := by
      have still : (ledger [] heap).setFree idx (([] : List Chunk).map Chunk.memory) =
          ledger [] heap := by
        have emptyFree : (ledger [] heap).free idx = [] :=
          congrArg (fun bucket : Bucket => bucket.freeChunks.map Chunk.memory) emptyHere
        rw [map_nil, ← emptyFree, Ledger.setFree, Function.update_eq_self]
      have stocked := originChunks_stock (ledger [] heap) idx [] (still.symm ▸ accounts.balances)
        (still.symm ▸ window_ledger.mpr window) (show start + counter idx * bucketSize idx ≤
          stop by omega)
      refine accounts.stock (by rw [bucketDef]) stocked ?_ ?_ ?_ ?_ <;> rw [bucketDef]
      · simp [length]
      · rw [emptyHere]
        rfl
      · rw [emptyHere]
        rfl
      · intro high
        exact originChunks_coarse (bucketSize_coarse idx high) (coarse idx mem_cons_self high)
          (by simp)
    have onward := coarse_onward above (coarse idx mem_cons_self) (counter idx)
    have stillEmpty : ∀ other ∈ rest, (heap.setBucket idx bucket).buckets other = emptyBucket := by
      intro other listed
      have different : other ≠ idx := (above other listed).ne
      rw [setBucket_other heap bucket different]
      exact empty other (mem_cons_of_mem _ listed)
    have nowSized : ∀ other ∉ rest, ((heap.setBucket idx bucket).buckets other).chunkSize =
        bucketSize other := by
      intro other outside
      by_cases same : other = idx
      · rw [same, setBucket_same, bucketDef]
      · rw [setBucket_other heap bucket same]
        exact sized other (by simp [same, outside])
    apply ends_get
    apply ends_bind
    rw [← bucketDef]
    apply ends_set
    rw [next]
    exact ih books tail stillFree (by omega) onward stillEmpty nowSized

def constructed (memory : Memory) (incoming : List Nat) : Heap where
  buckets := fun _ => emptyBucket
  numSpareChunks := 0
  spareChunks := []
  allocatedByteCount := 0
  expansionLock := false
  memory := memory
  runs := []
  incoming := incoming

theorem constructed_accounts (memory : Memory) (incoming : List Nat) :
    Accounts [] (constructed memory incoming) where
  freeCount := fun _ => rfl
  usedCount := fun _ => rfl
  spareCount := rfl
  held := fun _ => rfl
  owned := fun byte => by simp [owners, freeAreas, constructed, emptyBucket, covers]
  single := fun byte => by simp [constructed, covers]
  ranged := by simp [constructed]
  coarse := by simp [constructed, emptyBucket]
  lots := by simp

theorem init_ends (memory : Memory) (incoming : List Nat) :
    Ends init (constructed memory incoming) (fun _ after =>
    Accounts [] after ∧ Sized after ∧ after.expansionLock = false) (· = .noPages) := by
  have ⟨spent, filled⟩ := initialPlan_fits
  have start := constructed_accounts memory incoming
  apply ends_get
  apply ends_put
  rw [if_neg (not_not_intro spent)]
  apply ends_call (internalAllocatePages_ends _ _) (fun _ failed => failed.1)
  rintro chunkBuffer _ ⟨freshChunks, rest, _, rfl⟩
  have first : Accounts [] (granted (constructed memory incoming) rest chunkBuffer _) :=
    start.granted freshChunks rest
  apply ends_call (internalAllocatePages_ends _ _) (fun _ failed => failed.1)
  rintro _ _ ⟨freshMemory, left, _, rfl⟩
  have second := first.granted freshMemory left
  have window := first.window_granted freshMemory left
  have aligned := freshMemory.aligned
  apply ends_seq (originBuckets_ends second downward_descending window (by omega)
    (fun _ _ _ => by omega) (fun _ _ => rfl) (fun idx absent => absurd (mem_downward idx) absent))
  rintro _ _ ⟨books, sized, unlocked, spare⟩
  apply ends_get
  apply ends_set
  exact ⟨books.congr rfl rfl spare, sized, unlocked⟩

end Nx.HeapLayout
