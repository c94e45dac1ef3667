import Nx.KernelHeap
import Nx.ChunkLedgers

/-!
The books of the kernel heap: every byte of the pages it holds is in at most one free chunk or one
lot that was given away, the counters agree with the lists, and a descriptor is in use for every
chunk given away.
-/

namespace Nx.HeapAccounts

open Bytes Outcomes KernelHeap ChunkLedgers

def Lot.area (lot : Lot) : Area := ⟨lot.start, lot.size⟩

def chunkArea (idx : BucketIdx) (chunk : Chunk) : Area := ⟨chunk.memory, bucketSize idx⟩

def freeAreas (heap : Heap) (idx : BucketIdx) : List Area :=
  (heap.buckets idx).freeChunks.map (chunkArea idx)

def owners (lots : List Lot) (heap : Heap) (byte : Nat) : Nat :=
  (∑ idx, covers (freeAreas heap idx) byte) + covers (lots.map Lot.area) byte

structure LotSound (heap : Heap) (lot : Lot) : Prop where
  chunk : ∀ idx, lot.bucket = some idx → lot.size = bucketSize idx ∧
    (8 ≤ idx.val → lot.start % 128 = 0)
  run : lot.bucket = none → Lot.area lot ∈ heap.runs ∧ 0 < lot.size

structure Accounts (lots : List Lot) (heap : Heap) : Prop where
  freeCount : ∀ idx, (heap.buckets idx).numFreeChunks = (heap.buckets idx).freeChunks.length
  usedCount : ∀ idx, (heap.buckets idx).numUsedChunks = (heap.buckets idx).usedChunks.length
  spareCount : heap.numSpareChunks = heap.spareChunks.length
  held : ∀ idx, (heap.buckets idx).usedChunks.length = lots.countP fun lot =>
    decide (lot.bucket = some idx)
  owned : ∀ byte, owners lots heap byte ≤ covers heap.runs byte
  single : ∀ byte, covers heap.runs byte ≤ 1
  ranged : ∀ run ∈ heap.runs, run.start % 4096 = 0 ∧ heapBase ≤ run.start ∧
    run.start + run.size ≤ heapEnd
  coarse : ∀ idx, 8 ≤ idx.val → ∀ chunk ∈ (heap.buckets idx).freeChunks, chunk.memory % 128 = 0
  lots : ∀ lot ∈ lots, LotSound heap lot

def Sized (heap : Heap) : Prop := ∀ idx, (heap.buckets idx).chunkSize = bucketSize idx

variable {lots : List Lot} {heap : Heap}

theorem bucketSize_pos : ∀ idx : BucketIdx, 0 < bucketSize idx := by decide

theorem bucketSize_coarse : ∀ idx : BucketIdx, 8 ≤ idx.val → bucketSize idx % 128 = 0 := by decide

/-! ## One bucket changes -/

theorem setBucket_same (heap : Heap) (idx : BucketIdx) (bucket : Bucket) :
    (heap.setBucket idx bucket).buckets idx = bucket := by
  simp [Heap.setBucket]

variable {idx : BucketIdx} {base num stop : Nat}

theorem setBucket_other (heap : Heap) (bucket : Bucket) (different : other ≠ idx) :
    (heap.setBucket idx bucket).buckets other = heap.buckets other := by
  simp [Heap.setBucket, different]

theorem owners_congr {after} (same : after.buckets = heap.buckets) (byte : Nat) :
    owners lots after byte = owners lots heap byte := by
  simp only [owners, freeAreas, same]

/-- The books of the library. -/
def ledger (lots : List Lot) (heap : Heap) : Ledger BucketIdx :=
  ⟨fun idx => (heap.buckets idx).freeChunks.map Chunk.memory, lots.map Lot.area, heap.runs⟩

theorem chunkAreas_eq (idx : BucketIdx) (chunks : List Chunk) :
    chunkAreas bucketSize idx (chunks.map Chunk.memory) = chunks.map (chunkArea idx) :=
  List.map_map

theorem owners_ledger (lots : List Lot) (heap : Heap) (byte : Nat) :
    (ledger lots heap).owners bucketSize byte = owners lots heap byte := by
  simp only [Ledger.owners, ledger, chunkAreas_eq]
  rfl

theorem Accounts.balances (accounts : Accounts lots heap) :
    Balances bucketSize (ledger lots heap) :=
  ⟨fun byte => (owners_ledger lots heap byte).trans_le (accounts.owned byte), accounts.single⟩

theorem ledger_setBucket (lots : List Lot) (heap : Heap) (idx : BucketIdx) (bucket : Bucket) :
    ledger lots (heap.setBucket idx bucket) = (ledger lots heap).setFree idx
      (bucket.freeChunks.map Chunk.memory) := by
  have free : (ledger lots (heap.setBucket idx bucket)).free =
      Function.update (ledger lots heap).free idx (bucket.freeChunks.map Chunk.memory) :=
    Function.comp_update (fun bucket : Bucket => bucket.freeChunks.map Chunk.memory) heap.buckets
      idx bucket
  rw [Ledger.setFree, ← free]
  rfl

variable {bucket : Bucket}

theorem Accounts.setBucket (accounts : Accounts lots heap) {others}
    (freeCount : bucket.numFreeChunks = bucket.freeChunks.length)
    (usedCount : bucket.numUsedChunks = bucket.usedChunks.length)
    (held : bucket.usedChunks.length = others.countP fun lot => decide (lot.bucket = some idx))
    (heldOther : ∀ other ≠ idx, (others.countP fun lot => decide (lot.bucket = some other)) =
      lots.countP fun lot =>
    decide (lot.bucket = some other))
    (owned : ∀ byte, owners others (heap.setBucket idx bucket) byte ≤ covers heap.runs byte)
      (coarse : 8 ≤ idx.val →
    ∀ chunk ∈ bucket.freeChunks, chunk.memory % 128 = 0)
      (sound : ∀ lot ∈ others, LotSound heap lot) :
    Accounts others (heap.setBucket idx bucket) := by
  refine ⟨?_, ?_, accounts.spareCount, ?_, owned, accounts.single, accounts.ranged, ?_,
    fun lot listed => ⟨(sound lot listed).chunk, (sound lot listed).run⟩⟩ <;> intro other <;>
    by_cases same : other = idx
  · rw [same, setBucket_same, freeCount]
  · rw [setBucket_other heap bucket same, accounts.freeCount]
  · rw [same, setBucket_same, usedCount]
  · rw [setBucket_other heap bucket same, accounts.usedCount]
  · rw [same, setBucket_same, held]
  · rw [setBucket_other heap bucket same, accounts.held, heldOther other same]
  · rw [same, setBucket_same]
    exact coarse
  · rw [setBucket_other heap bucket same]
    exact accounts.coarse other

theorem Accounts.congr (accounts : Accounts lots heap) {after}
    (buckets : after.buckets = heap.buckets) (runs : after.runs = heap.runs)
    (spare : after.numSpareChunks = after.spareChunks.length) : Accounts lots after where
  freeCount := by rw [buckets]; exact accounts.freeCount
  usedCount := by rw [buckets]; exact accounts.usedCount
  spareCount := spare
  held := by rw [buckets]; exact accounts.held
  owned := fun byte => by rw [owners_congr buckets, runs]; exact accounts.owned byte
  single := by rw [runs]; exact accounts.single
  ranged := by rw [runs]; exact accounts.ranged
  coarse := by rw [buckets]; exact accounts.coarse
  lots := fun lot listed =>
    ⟨(accounts.lots lot listed).chunk, runs ▸ (accounts.lots lot listed).run⟩

/-! ## New pages -/

def granted (heap : Heap) (rest : List Nat) (base num : Nat) : Heap :=
  { heap with
    incoming := rest
    runs := ⟨base, 4096 * num⟩ :: heap.runs
    memory := fill heap.memory base pageSize 0 }

theorem Fresh.ne_zero (fresh : Fresh runs base num) : base ≠ 0 := by
  have above := fresh.above
  unfold heapBase at above
  omega

theorem Accounts.granted (accounts : Accounts lots heap) (fresh : Fresh heap.runs base num)
    (rest : List Nat) :
    Accounts lots (HeapAccounts.granted heap rest base num) where
  freeCount := accounts.freeCount
  usedCount := accounts.usedCount
  spareCount := accounts.spareCount
  held := accounts.held
  owned := fun byte => (owners_ledger lots _ byte).symm.trans_le
    ((accounts.balances.grant (covers_eq_zero_of_apart fresh.clear)).owned byte)
  single := (accounts.balances.grant (covers_eq_zero_of_apart fresh.clear)).single
  ranged := List.forall_mem_cons.mpr ⟨⟨fresh.aligned, fresh.above, fresh.below⟩, accounts.ranged⟩
  coarse := accounts.coarse
  lots := fun lot listed => ⟨(accounts.lots lot listed).chunk, fun none =>
    ⟨List.mem_cons_of_mem _ ((accounts.lots lot listed).run none).1,
      ((accounts.lots lot listed).run none).2⟩⟩

def Denied (heap : Heap) (num : Nat) : Prop :=
  ∀ base rest, heap.incoming = base :: rest → ¬ Fresh heap.runs base num

theorem internalAllocatePages_ends (heap : Heap) (num : Nat) :
    Ends (internalAllocatePages num) heap (fun base after =>
    Fresh heap.runs base num ∧ ∃ rest, heap.incoming = base :: rest ∧
      after = granted heap rest base num)
    (fun failure => failure = .noPages ∧ Denied heap num) := by
  apply ends_get
  cases answers : heap.incoming with
  | nil =>
    refine ends_throw _ ⟨rfl, ?_⟩
    intro base rest incoming
    rw [answers] at incoming
    cases incoming
  | cons base rest =>
    by_cases fresh : Fresh heap.runs base num
    · simp only [fresh, ↓reduceIte]
      apply ends_put
      exact ends_pure _ ⟨fresh, rest, rfl, rfl⟩
    · simp only [fresh, ↓reduceIte]
      refine ends_throw _ ⟨rfl, ?_⟩
      intro _ _ incoming
      rw [answers] at incoming
      cases incoming
      exact fresh

theorem ends_check [Decidable condition] (holds : condition) :
    Ends (check condition invariant) heap (fun _ after => after = heap) failed := by
  rw [check, if_pos holds]
  exact ends_pure _ rfl

def Keeps (lots : List Lot) (before after : Heap) : Prop :=
  ∀ byte, 0 < covers (lots.map Lot.area) byte → after.memory byte = before.memory byte

theorem Accounts.keeps_granted (accounts : Accounts lots heap) (fresh : Fresh heap.runs base num)
    (rest : List Nat) : Keeps lots heap (HeapAccounts.granted heap rest base num) := by
  intro byte _
  apply fill_outside
  by_contra touched
  have nonempty := fresh.nonempty
  have held : Area.Holds ⟨base, 4096 * num⟩ byte := by
    unfold pageSize at touched
    constructor
    · exact (by omega : base ≤ byte)
    · exact (by omega : byte < base + 4096 * num)
  have none := covers_eq_zero_of_apart fresh.clear byte held
  have owned := accounts.owned byte
  unfold owners at owned
  omega

/-! ## Laying out chunks -/

def Window (lots : List Lot) (heap : Heap) (start stop : Nat) : Prop :=
  ∀ byte, start ≤ byte → byte < stop → owners lots heap byte = 0 ∧ 0 < covers heap.runs byte

theorem Accounts.window_granted (accounts : Accounts lots heap) (fresh : Fresh heap.runs base num)
    (rest : List Nat) :
    Window lots (HeapAccounts.granted heap rest base num) base (base + 4096 * num) := by
  intro byte above below
  rw [← owners_ledger]
  exact accounts.balances.window (covers_eq_zero_of_apart fresh.clear) byte above below

theorem window_ledger : ChunkLedgers.Window bucketSize (ledger lots heap) start stop ↔
    Window lots heap start stop := by
  simp only [ChunkLedgers.Window, Window, owners_ledger]
  rfl

theorem Accounts.stock (accounts : Accounts lots heap) {filled : Ledger BucketIdx}
    (isFilled : filled = (ledger lots heap).setFree idx (bucket.freeChunks.map Chunk.memory))
    (stocked : Balances bucketSize filled ∧ ChunkLedgers.Window bucketSize filled next stop)
    (freeCount : bucket.numFreeChunks = bucket.freeChunks.length)
    (used : bucket.usedChunks = (heap.buckets idx).usedChunks)
    (numUsed : bucket.numUsedChunks = (heap.buckets idx).numUsedChunks)
    (coarse : 8 ≤ idx.val → ∀ chunk ∈ bucket.freeChunks, chunk.memory % 128 = 0) :
    Accounts lots (heap.setBucket idx bucket) ∧
      Window lots (heap.setBucket idx bucket) next stop := by
  rw [isFilled, ← ledger_setBucket] at stocked
  refine ⟨accounts.setBucket freeCount ?_ ?_ (fun _ _ => rfl) (fun byte => ?_) coarse accounts.lots,
    window_ledger.mp stocked.2⟩
  · rw [numUsed, used, accounts.usedCount]
  · rw [used, accounts.held]
  · rw [← owners_ledger]
    exact stocked.1.owned byte

structure Stocked (lots : List Lot) (before after : Heap) (next stop spent : Nat) : Prop where
  accounts : Accounts lots after
  locked : after.expansionLock = before.expansionLock
  window : Window lots after next stop
  spare : after.numSpareChunks + spent = before.numSpareChunks
  sizes : ∀ idx, (after.buckets idx).chunkSize = (before.buckets idx).chunkSize
  grows : ∀ idx, (before.buckets idx).numFreeChunks ≤ (after.buckets idx).numFreeChunks
  memory : after.memory = before.memory

theorem Stocked.trans (left : Stocked lots first second middle stop few)
    (right : Stocked lots second third next stop more) : Stocked lots first third next stop
      (few + more) where
  accounts := right.accounts
  locked := right.locked.trans left.locked
  window := right.window
  spare := by
    have one := left.spare
    have two := right.spare
    omega
  sizes := fun idx => (right.sizes idx).trans (left.sizes idx)
  grows := fun idx => (left.grows idx).trans (right.grows idx)
  memory := right.memory.trans left.memory

def lessSpare (heap : Heap) (rest : List Chunk) : Heap :=
  { heap with spareChunks := rest, numSpareChunks := heap.numSpareChunks - 1 }

theorem getSpareChunk_ends (locked : heap.expansionLock = true) {chunk}
    (spare : heap.spareChunks = chunk :: rest) :
    Ends getSpareChunk heap (fun _ after => after = lessSpare heap rest) failed := by
  apply ends_get
  apply ends_seq (ends_check locked)
  rintro _ _ rfl
  rw [spare]
  exact ends_set _ rfl

theorem placeChunk_stocked (accounts : Accounts lots heap) (window : Window lots heap start stop)
    (room : start + bucketSize idx ≤ stop) (coarse : 8 ≤ idx.val → start % 128 = 0)
    (spare : heap.spareChunks = chunk :: rest) :
    Stocked lots heap ((lessSpare heap rest).addFreeChunk idx start) (start + bucketSize idx)
      stop 1 := by
  have count : heap.numSpareChunks = rest.length + 1 := by
    rw [accounts.spareCount, spare, List.length_cons]
  obtain ⟨poorer, poorerDef⟩ : ∃ poorer, poorer = lessSpare heap rest := ⟨_, rfl⟩
  have buckets : poorer.buckets = heap.buckets := by
    rw [poorerDef]
    rfl
  have accountsPoorer : Accounts lots poorer := by
    rw [poorerDef]
    exact accounts.congr rfl rfl (by omega : heap.numSpareChunks - 1 = rest.length)
  have windowPoorer : Window lots poorer start stop := by
    intro byte above below
    rw [owners_congr buckets, poorerDef]
    exact window byte above below
  rw [← poorerDef]
  have ⟨accountsAfter, windowAfter⟩ : Accounts lots (poorer.addFreeChunk idx start) ∧
      Window lots (poorer.addFreeChunk idx start) (start + bucketSize idx) stop := by
    refine accountsPoorer.stock rfl (accountsPoorer.balances.stock (window_ledger.mpr windowPoorer)
      room) ?_ rfl rfl ?_
    · simp [accountsPoorer.freeCount]
    · intro high
      exact List.forall_mem_cons.mpr ⟨coarse high, accountsPoorer.coarse idx high⟩
  have size : ∀ other, ((poorer.addFreeChunk idx start).buckets other).chunkSize =
      (heap.buckets other).chunkSize := by
    intro other
    by_cases same : other = idx
    · rw [same, Heap.addFreeChunk, setBucket_same, buckets]
    · rw [Heap.addFreeChunk, setBucket_other _ _ same, buckets]
  have grows : ∀ other, (heap.buckets other).numFreeChunks ≤
      ((poorer.addFreeChunk idx start).buckets other).numFreeChunks := by
    intro other
    by_cases same : other = idx
    · rw [same, Heap.addFreeChunk, setBucket_same, buckets]
      exact Nat.le_succ _
    · rw [Heap.addFreeChunk, setBucket_other _ _ same, buckets]
  refine ⟨accountsAfter, ?_, windowAfter, ?_, size, grows, ?_⟩
  · rw [poorerDef]
    rfl
  · rw [poorerDef]
    exact (by omega : heap.numSpareChunks - 1 + 1 = heap.numSpareChunks)
  · rw [poorerDef]
    rfl

end Nx.HeapAccounts
