import Nx.UserHeap
import Nx.HeapBlocks

/-!
The books of the C library's heap.
-/

namespace Nx.UserHeapBooks

open Bytes Outcomes ChunkLedgers UserHeap Function List
open KernelHeap (Chunk Bucket BucketIdx bucketSize Plan expansionPlan initialPlan downward
  originChunks
  getFittingBucket pageSize chunksPerPage expansionFactor emptyBucket pagesFor Lot)
open HeapAccounts (Lot.area bucketSize_pos)
open HeapLayout (extent extent_cons mem_downward originChunks_next originChunks_stock
  initialPlan_fits)
open HeapBlocks (getFittingBucket_le getFittingBucket_exists)

def ledger (heap : Heap) (lots : List Lot) : Ledger BucketIdx where
  free := fun idx => (heap.buckets idx).freeChunks.map Chunk.memory
  given := lots.map Lot.area
  runs := heap.runs

structure LotSound (lot : Lot) : Prop where
  chunk : ∀ idx, lot.bucket = some idx → lot.size = bucketSize idx
  run : lot.bucket = none → 0 < lot.size ∧ lot.start % 4096 = 0

structure Books (lots : List Lot) (heap : Heap) : Prop where
  balanced : Balances bucketSize (ledger heap lots)
  sized : ∀ idx, (heap.buckets idx).chunkSize = bucketSize idx
  freeCount : ∀ idx, (heap.buckets idx).numFreeChunks = (heap.buckets idx).freeChunks.length
  usedCount : ∀ idx, (heap.buckets idx).numUsedChunks = (heap.buckets idx).usedChunks.length
  held : ∀ idx, (heap.buckets idx).usedChunks.length = lots.countP fun lot =>
    decide (lot.bucket = some idx)
  spare : heap.spareChunks ≤ heap.numSpareChunks
  ranged : ∀ run ∈ heap.runs, userBase ≤ run.start ∧ run.start + run.size ≤ userEnd
  lots : ∀ lot ∈ lots, LotSound lot

variable {lots : List Lot} {heap : Heap}

/-! ## One bucket changes -/

@[simp] theorem setBucket_same (heap : Heap) (idx : BucketIdx) (bucket : Bucket) :
    (heap.setBucket idx bucket).buckets idx = bucket := update_self _ _ _

variable {idx : BucketIdx} {base num stop start totalSize : Nat} {lot : Lot}

theorem setBucket_other (heap : Heap) (bucket : Bucket) (different : other ≠ idx) :
    (heap.setBucket idx bucket).buckets other = heap.buckets other := update_of_ne different _ _

theorem ledger_setBucket (heap : Heap) (lots : List Lot) (idx : BucketIdx) (bucket : Bucket) :
    ledger (heap.setBucket idx bucket) lots = (ledger heap lots).setFree idx
      (bucket.freeChunks.map Chunk.memory) := by
  have free : (ledger (heap.setBucket idx bucket) lots).free =
      update (ledger heap lots).free idx (bucket.freeChunks.map Chunk.memory) := by
    funext other
    by_cases same : other = idx
    · rw [same, update_self]
      simp [ledger]
    · rw [update_of_ne same]
      simp [ledger, setBucket_other heap bucket same]
  rw [Ledger.setFree, ← free]
  rfl

variable {others : List Lot}

theorem Books.setBucket (books : Books lots heap)
    (balanced : Balances bucketSize (ledger (heap.setBucket idx bucket) others))
    (size : bucket.chunkSize = bucketSize idx)
      (freeCount : bucket.numFreeChunks = bucket.freeChunks.length)
    (usedCount : bucket.numUsedChunks = bucket.usedChunks.length)
    (held : bucket.usedChunks.length = others.countP fun lot => decide (lot.bucket = some idx))
    (heldOther : ∀ other ≠ idx, (others.countP fun lot => decide (lot.bucket = some other)) =
      lots.countP fun lot =>
    decide (lot.bucket = some other)) (sound : ∀ lot ∈ others, LotSound lot) :
    Books others (heap.setBucket idx bucket) := by
  refine ⟨balanced, ?_, ?_, ?_, ?_, books.spare, books.ranged, sound⟩ <;> intro other <;>
    by_cases same : other = idx
  · rw [same, setBucket_same, size]
  · rw [setBucket_other heap bucket same, books.sized]
  · rw [same, setBucket_same, freeCount]
  · rw [setBucket_other heap bucket same, books.freeCount]
  · rw [same, setBucket_same, usedCount]
  · rw [setBucket_other heap bucket same, books.usedCount]
  · rw [same, setBucket_same, held]
  · rw [setBucket_other heap bucket same, books.held, heldOther other same]

theorem Books.congr (books : Books lots heap) {after : Heap}
    (buckets : after.buckets = heap.buckets)
    (runs : after.runs = heap.runs) (spare : after.spareChunks ≤ after.numSpareChunks) :
      Books lots after := by
  have same : ledger after lots = ledger heap lots := by
    rw [ledger, buckets, runs]
    rfl
  refine ⟨same ▸ books.balanced, ?_, ?_, ?_, ?_, spare, runs ▸ books.ranged, books.lots⟩ <;>
    rw [buckets]
  · exact books.sized
  · exact books.freeCount
  · exact books.usedCount
  · exact books.held

theorem Books.perm (books : Books lots heap) (perm : lots.Perm others) : Books others heap := by
  refine ⟨books.balanced.perm (perm.map Lot.area), books.sized, books.freeCount,
    books.usedCount, ?_,
    books.spare, books.ranged, fun lot listed => books.lots lot (perm.mem_iff.mpr listed)⟩
  intro _
  rw [books.held, perm.countP_eq]

def Keeps (lots : List Lot) (before after : Heap) : Prop :=
  ∀ byte, 0 < covers (lots.map Lot.area) byte → after.memory byte = before.memory byte

/-! ## New pages -/

variable {runs : List Area}

section

variable (books : Books lots heap) (fresh : Fresh heap.runs base num)
include books fresh

theorem Books.ranged_granted :
    ∀ run ∈ (⟨base, 4096 * num⟩ : Area) :: heap.runs, userBase ≤ run.start ∧ run.start + run.size ≤
      userEnd :=
  forall_mem_cons.mpr ⟨⟨fresh.above, fresh.below⟩, books.ranged⟩

theorem Books.granted (rest : List Nat) : Books lots (UserHeap.granted heap rest base num) where
  balanced := books.balanced.grant (covers_eq_zero_of_apart fresh.clear)
  sized := books.sized
  freeCount := books.freeCount
  usedCount := books.usedCount
  held := books.held
  spare := books.spare
  ranged := books.ranged_granted fresh
  lots := books.lots

theorem Books.keeps_granted (rest : List Nat) :
    Keeps lots heap (UserHeap.granted heap rest base num) := by
  intro byte _
  apply fill_outside
  by_contra touched
  have none := covers_eq_zero_of_apart fresh.clear byte
      ⟨(by omega : base ≤ byte), (by omega : byte < base + 4096 * num)⟩
  have owned : (ledger heap lots).owners bucketSize byte ≤ covers heap.runs byte :=
    books.balanced.owned byte
  have given : covers (lots.map Lot.area) byte ≤ (ledger heap lots).owners bucketSize byte :=
    Nat.le_add_left _ _
  omega

theorem Books.giveRun (rest : List Nat) :
    Books (⟨base, none, 4096 * num⟩ :: lots) (UserHeap.granted heap rest base num) where
  balanced := books.balanced.grantGiven (covers_eq_zero_of_apart fresh.clear)
  sized := books.sized
  freeCount := books.freeCount
  usedCount := books.usedCount
  held := by
    intro idx
    rw [countP_cons_of_neg (by simp)]
    exact books.held idx
  spare := books.spare
  ranged := books.ranged_granted fresh
  lots := by
    have nonempty := fresh.nonempty
    refine forall_mem_cons.mpr ⟨⟨nofun, fun _ => ⟨?_, fresh.aligned⟩⟩, books.lots⟩
    show 0 < 4096 * num
    omega

end

theorem internalAllocatePages_ends (heap : Heap) (some : 0 < num) (few : 4096 * num < 2 ^ 64) :
    Ends (internalAllocatePages num) heap (fun base after => Fresh heap.runs base num ∧
    ∃ rest, after = granted heap rest base num) (· = .noPages) := by
  apply ends_get
  have length : num * pageSize % 2 ^ 64 = 4096 * num := by
    unfold pageSize
    omega
  have pages : (4096 * num + pageSize - 1) % 2 ^ 64 / pageSize = num := by
    unfold pageSize
    omega
  rw [length, if_neg (by omega)]
  dsimp only
  rw [pages]
  cases heap.incoming with
  | nil => exact ends_throw _ rfl
  | cons base rest =>
    by_cases fresh : Fresh heap.runs base num
    · simp only [fresh, ↓reduceIte]
      apply ends_put
      exact ends_pure _ ⟨fresh, rest, rfl⟩
    · simp only [fresh, ↓reduceIte]
      exact ends_throw _ rfl

variable {failed : Failure → Prop}

theorem check_then {condition : Prop} [Decidable condition] {text : String} {α : Type}
    {next : PUnit → HeapM α}
    {done : α → Heap → Prop} (holds : condition)
    (rest : Ends (next ⟨⟩) heap done failed) :
      Ends (check condition text >>= next) heap done failed := by
  rw [check, if_pos holds]
  exact rest

theorem Fresh.ne_zero (fresh : Fresh runs base num) : base ≠ 0 := by
  have above := fresh.above
  unfold userBase at above
  omega

/-! ## Laying out chunks -/

structure Stocked (lots : List Lot) (before after : Heap) (next stop : Nat) : Prop where
  books : Books lots after
  window : Window bucketSize (ledger after lots) next stop
  grows : ∀ idx, (before.buckets idx).numFreeChunks ≤ (after.buckets idx).numFreeChunks
  richer : before.numSpareChunks ≤ after.numSpareChunks
  keeps : Keeps lots before after

theorem Stocked.trans {middle next : Nat} (left : Stocked lots first second middle stop)
    (right : Stocked lots second third next stop) : Stocked lots first third next stop where
  books := right.books
  window := right.window
  grows := fun idx => (left.grows idx).trans (right.grows idx)
  richer := left.richer.trans right.richer
  keeps := kept_trans left.keeps right.keeps

section

variable (books : Books lots heap) (window : Window bucketSize (ledger heap lots) start stop)
include books window

theorem makeSpareChunks_ends :
    Ends makeSpareChunks heap (fun _ after => Stocked lots heap after start stop ∧
    after.buckets = heap.buckets ∧ after.numSpareChunks = heap.numSpareChunks + 256)
      (· = .noPages) := by
  apply ends_seq (internalAllocatePages_ends heap (by decide) (by decide))
  rintro _ _ ⟨fresh, rest, rfl⟩
  apply check_then (Fresh.ne_zero fresh)
  apply ends_get
  apply ends_set
  have spare := books.spare
  have counted : (if heap.spareChunks = 0 then chunksPerPage else heap.spareChunks + 1) ≤
      heap.numSpareChunks + chunksPerPage := by
    have page : chunksPerPage = 256 := rfl
    split <;> omega
  exact ⟨⟨(books.granted fresh rest).congr rfl rfl counted, window.grant _, fun _ => le_rfl,
    Nat.le_add_right _ _, books.keeps_granted fresh rest⟩, rfl, rfl⟩

theorem getSpareChunk_ends :
    Ends getSpareChunk heap (fun _ after => Stocked lots heap after start stop ∧
    after.buckets = heap.buckets) (· = .noPages) := by
  -- whether or not there was one left, there is one now
  have popped : ∀ {middle : Heap}, Stocked lots heap middle start stop → middle.buckets =
      heap.buckets →
      0 < middle.numSpareChunks → Ends (do
        let heap ← get
        check (0 < heap.numSpareChunks) "NumSpareChunks > 0"
        set { heap with spareChunks := heap.spareChunks - 1 }) middle
        (fun _ after => Stocked lots heap after start stop ∧ after.buckets = heap.buckets)
          (· = .noPages) := by
    intro middle stocked buckets positive
    apply ends_get
    apply check_then positive
    apply ends_set
    exact ⟨⟨stocked.books.congr rfl rfl ((Nat.sub_le _ _).trans stocked.books.spare),
      stocked.window,
      stocked.grows, stocked.richer, stocked.keeps⟩, buckets⟩
  apply ends_get
  by_cases none : heap.spareChunks = 0
  · simp only [none, ↓reduceIte]
    apply ends_seq (makeSpareChunks_ends books window)
    rintro _ _ ⟨stocked, buckets, _⟩
    exact popped stocked buckets (by omega)
  · simp only [none, ↓reduceIte]
    have spare := books.spare
    exact popped ⟨books, window, fun _ => le_rfl, le_rfl, fun _ _ => rfl⟩ rfl (by omega)

theorem addFreeChunk_stocked (room : start + bucketSize idx ≤ stop) :
    Stocked lots heap (heap.addFreeChunk idx start) (start + bucketSize idx) stop := by
  obtain ⟨balanced, after⟩ := books.balanced.stock window room
  have same := ledger_setBucket heap lots idx { heap.buckets idx with
    freeChunks := ⟨start⟩ :: (heap.buckets idx).freeChunks
    numFreeChunks := (heap.buckets idx).numFreeChunks + 1 }
  refine ⟨?_, ?_, ?_, le_rfl, fun _ _ => rfl⟩
  · apply books.setBucket
    · rw [same]
      exact balanced
    · exact books.sized idx
    · simp [books.freeCount]
    · exact books.usedCount idx
    · exact books.held idx
    · exact fun _ _ => rfl
    · exact books.lots
  · rw [Heap.addFreeChunk, same]
    exact after
  · intro other
    by_cases here : other = idx
    · rw [here, Heap.addFreeChunk, setBucket_same]
      exact Nat.le_succ _
    · rw [Heap.addFreeChunk, setBucket_other _ _ here]

theorem placeChunks_ends (room : start + num * bucketSize idx ≤ stop) :
    Ends (placeChunks idx num start) heap
    (fun next after => next = start + num * bucketSize idx ∧ Stocked lots heap after next stop ∧
    (heap.buckets idx).numFreeChunks + num ≤ (after.buckets idx).numFreeChunks) (· = .noPages) := by
  induction num generalizing heap start with
  | zero => exact ends_pure _ ⟨by omega, ⟨books, window, fun _ => le_rfl, le_rfl, fun _ _ => rfl⟩, le_rfl⟩
  | succ _ ih =>
    rw [Nat.add_one_mul] at room
    apply ends_seq (getSpareChunk_ends books window)
    rintro _ middle ⟨first, buckets⟩
    apply ends_get
    apply ends_put
    have placed : Stocked lots middle (middle.addFreeChunk idx start)
        (start + bucketSize idx) stop :=
      addFreeChunk_stocked first.books first.window (by omega)
    have more : ((middle.addFreeChunk idx start).buckets idx).numFreeChunks =
        (heap.buckets idx).numFreeChunks + 1 := by
      rw [Heap.addFreeChunk, setBucket_same, buckets]
    apply ends_imp (ih placed.books placed.window (by omega))
    rintro _ _ ⟨reached, later, _⟩
    refine ⟨?_, (first.trans placed).trans later, by omega⟩
    rw [reached, Nat.add_one_mul]
    omega

end

variable {order : List BucketIdx}

theorem placeAll_ends (books : Books lots heap)
    (window : Window bucketSize (ledger heap lots) start stop)
    (room : start + extent counter order ≤ stop) : Ends (placeAll counter order start) heap
      (fun _ after =>
    (∃ next, Stocked lots heap after next stop) ∧ ∀ idx ∈ order, counter idx ≤
      (after.buckets idx).numFreeChunks)
    (· = .noPages) := by
  induction order generalizing heap start with
  | nil => exact ends_pure _ ⟨⟨start, books, window, fun _ => le_rfl, le_rfl, fun _ _ => rfl⟩, by simp⟩
  | cons idx rest ih =>
    have extentNow := extent_cons counter idx rest
    apply ends_seq (placeChunks_ends books window (by omega))
    rintro _ _ ⟨rfl, stocked, _⟩
    apply ends_imp (ih stocked.books stocked.window (by omega))
    rintro _ _ ⟨⟨last, later⟩, counts⟩
    refine ⟨⟨last, stocked.trans later⟩, forall_mem_cons.mpr ⟨?_, counts⟩⟩
    have kept := later.grows idx
    omega

theorem expansionPlan_fits : ∀ idx : BucketIdx, 1 ≤ idx.val →
    (expansionPlan idx (bucketSize idx)).total ≤ 256 ∧
    extent (expansionPlan idx (bucketSize idx)).counter downward ≤ 8192 ∧
    0 < (expansionPlan idx (bucketSize idx)).counter idx := by
  decide +kernel

theorem expandBucket_ends (books : Books lots heap) (reachable : 1 ≤ idx.val) :
    Ends (expandBucket idx) heap
    (fun _ after => Books lots after ∧ Keeps lots heap after ∧
      0 < (after.buckets idx).numFreeChunks)
    (· = .noPages) := by
  obtain ⟨_, _, own⟩ := expansionPlan_fits idx reachable
  -- the last part, once there are enough descriptors
  have layOut : ∀ {middle : Heap} {base : Nat}, Stocked lots heap middle base (base + 8192) →
      (expansionPlan idx (bucketSize idx)).total ≤ middle.numSpareChunks → Ends (do
        let heap ← get
        check ((expansionPlan idx (bucketSize idx)).total ≤ heap.numSpareChunks)
          "NumSpareChunks >= numChunks"
        placeAll (expansionPlan idx (bucketSize idx)).counter downward base) middle
        (fun _ after => Books lots after ∧ Keeps lots heap after ∧
          0 < (after.buckets idx).numFreeChunks)
        (· = .noPages) := by
    intro middle base stocked enough
    apply ends_get
    apply check_then enough
    apply ends_imp (placeAll_ends stocked.books stocked.window (by omega))
    rintro _ _ ⟨⟨_, later⟩, counts⟩
    exact ⟨later.books, kept_trans stocked.keeps later.keeps,
      lt_of_lt_of_le own (counts idx (mem_downward idx))⟩
  apply ends_seq (internalAllocatePages_ends heap (by decide) (by decide))
  rintro base _ ⟨fresh, rest, rfl⟩
  apply check_then (Fresh.ne_zero fresh)
  have stocked : Stocked lots heap (granted heap rest base expansionFactor) base (base + 8192) :=
    ⟨books.granted fresh rest, books.balanced.window (covers_eq_zero_of_apart fresh.clear), fun _ =>
      le_rfl, le_rfl,
      books.keeps_granted fresh rest⟩
  apply ends_get
  rw [stocked.books.sized idx]
  by_cases few : heap.numSpareChunks < (expansionPlan idx (bucketSize idx)).total
  · rw [if_pos (show (granted heap rest base expansionFactor).numSpareChunks < _ from few)]
    apply ends_seq (makeSpareChunks_ends stocked.books stocked.window)
    rintro _ _ ⟨more, _, _⟩
    exact layOut (stocked.trans more) (by omega)
  · rw [if_neg (show ¬ (granted heap rest base expansionFactor).numSpareChunks < _ from few)]
    exact layOut stocked (not_lt.mp few)

/-! ## `init` -/

structure Founding (heap : Heap) (order : List BucketIdx) : Prop where
  balanced : Balances bucketSize (ledger heap [])
  empty : ∀ idx ∈ order, heap.buckets idx = emptyBucket
  ready : ∀ idx ∉ order, (heap.buckets idx).chunkSize = bucketSize idx ∧
    (heap.buckets idx).numFreeChunks = (heap.buckets idx).freeChunks.length ∧
    (heap.buckets idx).numUsedChunks = 0 ∧ (heap.buckets idx).usedChunks = []

theorem originBuckets_ends (founding : Founding heap order) (distinct : order.Nodup)
    (window : Window bucketSize (ledger heap []) start stop)
      (room : start + extent counter order ≤ stop) :
    Ends (originBuckets counter order start) heap (fun _ after => Founding after [] ∧
      after.runs = heap.runs ∧
    after.spareChunks = heap.spareChunks ∧ after.numSpareChunks = heap.numSpareChunks) failed := by
  induction order generalizing heap start with
  | nil => exact ends_pure _ ⟨founding, rfl, rfl, rfl⟩
  | cons idx rest ih =>
    obtain ⟨absent, tail⟩ := nodup_cons.mp distinct
    have extentNow := extent_cons counter idx rest
    obtain ⟨next, length⟩ := originChunks_next (bucketSize idx) (counter idx) start []
    have emptyHere : (ledger heap []).free idx = [] := by
      show (heap.buckets idx).freeChunks.map Chunk.memory = []
      rw [founding.empty idx mem_cons_self]
      rfl
    have still : (ledger heap []).setFree idx (([] : List Chunk).map Chunk.memory) =
        ledger heap [] := by
      rw [map_nil, ← emptyHere, Ledger.setFree, update_eq_self]
    obtain ⟨balanced, smaller⟩ := originChunks_stock (ledger heap []) idx []
        (still.symm ▸ founding.balanced)
      (still.symm ▸ window) (show start + counter idx * bucketSize idx ≤ stop by omega)
    apply ends_get
    apply ends_put
    rw [next]
    refine ih ⟨?_, ?_, ?_⟩ tail ?_ (by omega)
    · rw [ledger_setBucket]
      exact balanced
    · intro other listed
      rw [setBucket_other _ _ fun same : other = idx => absent (same ▸ listed)]
      exact founding.empty other (mem_cons_of_mem _ listed)
    · intro other outside
      by_cases same : other = idx
      · rw [same, setBucket_same]
        exact ⟨rfl, by simp [length], rfl, rfl⟩
      · rw [setBucket_other _ _ same]
        exact founding.ready other (by simp [same, outside])
    · rw [ledger_setBucket]
      exact smaller

def unborn (memory : Memory) (incoming : List Nat) : Heap where
  buckets := fun _ => emptyBucket
  numSpareChunks := 0
  spareChunks := 0
  memory := memory
  runs := []
  incoming := incoming

theorem init_ends (memory : Memory) (incoming : List Nat) :
    Ends init (unborn memory incoming) (fun _ after => Books [] after) (· = .noPages) := by
  obtain ⟨spent, filled⟩ := initialPlan_fits
  have start : Balances bucketSize (ledger (unborn memory incoming) []) :=
    ⟨fun byte => by simp [ledger, Ledger.owners, unborn, emptyBucket, chunkAreas, covers], fun _ => Nat.zero_le 1⟩
  apply ends_get
  apply ends_put
  apply check_then spent
  apply ends_seq (internalAllocatePages_ends _ (by decide +kernel) (by decide +kernel))
  rintro _ _ ⟨freshChunks, _, rfl⟩
  have first := start.grant (covers_eq_zero_of_apart freshChunks.clear)
  apply ends_seq (internalAllocatePages_ends _ (by decide) (by decide))
  rintro _ _ ⟨freshMemory, _, rfl⟩
  have second := first.grant (covers_eq_zero_of_apart freshMemory.clear)
  have window := first.window (covers_eq_zero_of_apart freshMemory.clear)
  have all : downward.Nodup := by decide
  apply ends_imp (originBuckets_ends ⟨second, fun _ _ => rfl, fun idx absent =>
    absurd (mem_downward idx) absent⟩
    all window (by rw [filled]; exact le_rfl)) _
  rintro _ _ ⟨founded, runs, spare, num⟩
  have ready := fun idx => founded.ready idx not_mem_nil
  refine ⟨founded.balanced, fun idx => (ready idx).1, fun idx => (ready idx).2.1, ?_, ?_, ?_,
    ?_, by simp⟩
  · intro idx
    rw [(ready idx).2.2.1, (ready idx).2.2.2]
    rfl
  · intro idx
    rw [(ready idx).2.2.2]
    rfl
  · rw [spare, num]
    exact le_rfl
  · rw [runs]
    exact forall_mem_cons.mpr ⟨⟨freshMemory.above, freshMemory.below⟩,
      forall_mem_cons.mpr ⟨⟨freshChunks.above, freshChunks.below⟩, forall_mem_nil _⟩⟩

/-! ## Taking memory and giving it back -/

def lotFor (start totalSize : Nat) : Lot :=
  if pageSize ≤ totalSize then ⟨start, none, 4096 * pagesFor totalSize⟩
  else ⟨start, getFittingBucket totalSize, ((getFittingBucket totalSize).map bucketSize).getD 0⟩

theorem lotFor_large (large : pageSize ≤ totalSize) (start : Nat) :
    lotFor start totalSize = ⟨start, none, 4096 * pagesFor totalSize⟩ := if_pos large

theorem lotFor_small (small : ¬ pageSize ≤ totalSize)
    (found : getFittingBucket totalSize = some idx) (start : Nat) :
    lotFor start totalSize = ⟨start, some idx, bucketSize idx⟩ := by
  rw [lotFor, if_neg small, found]
  rfl

@[simp] theorem lotFor_start (start totalSize : Nat) : (lotFor start totalSize).start = start := by
  unfold lotFor
  split <;> rfl

theorem lotFor_holds (above : start ≤ byte) (below : byte < start + (lotFor start totalSize).size) :
    (Lot.area (lotFor start totalSize)).Holds byte := by
  unfold Area.Holds Lot.area
  rw [lotFor_start]
  exact ⟨above, below⟩

theorem bucket_reachable : ∀ idx : BucketIdx, 25 ≤ bucketSize idx → 1 ≤ idx.val := by decide

variable {rest : List Chunk}

theorem Books.handOut (books : Books lots heap)
    (free : (heap.buckets idx).freeChunks = chunk :: rest) :
    Books (⟨chunk.memory, some idx, bucketSize idx⟩ :: lots)
    (heap.setBucket idx (handedOut (heap.buckets idx) rest)) := by
  have freeCount := books.freeCount idx
  rw [free, length_cons] at freeCount
  apply books.setBucket
  · rw [ledger_setBucket]
    apply books.balanced.handOut
    show (heap.buckets idx).freeChunks.map Chunk.memory = _
    rw [free]
    rfl
  · exact books.sized idx
  · show (heap.buckets idx).numFreeChunks - 1 = rest.length
    omega
  · show (heap.buckets idx).numUsedChunks + 1 = _
    rw [books.usedCount]
    rfl
  · show (heap.buckets idx).usedChunks.length + 1 = _
    rw [books.held]
    simp
  · intro other different
    simp [Ne.symm different]
  · refine forall_mem_cons.mpr ⟨⟨?_, nofun⟩, books.lots⟩
    rintro _ ⟨⟩
    rfl

theorem Books.takeBack (books : Books (lot :: lots) heap) (source : lot.bucket = some idx)
    (used : (heap.buckets idx).usedChunks = chunk :: rest) :
    Books lots (heap.setBucket idx (takenBack (heap.buckets idx) rest lot.start)) := by
  have size := (books.lots lot mem_cons_self).chunk idx source
  have usedCount := books.usedCount idx
  rw [used, length_cons] at usedCount
  apply books.setBucket
  · rw [ledger_setBucket]
    have area : Lot.area lot = ⟨lot.start, bucketSize idx⟩ := by rw [Lot.area, size]
    have balanced := books.balanced
    rw [ledger, map_cons, area] at balanced
    exact Balances.takeBack (ledger heap lots) balanced
  · exact books.sized idx
  · show (heap.buckets idx).numFreeChunks + 1 = _
    rw [books.freeCount]
    rfl
  · show (heap.buckets idx).numUsedChunks - 1 = rest.length
    omega
  · have held := books.held idx
    rw [used, length_cons, countP_cons_of_pos (by simpa using source)] at held
    exact Nat.succ.inj held
  · intro other different
    rw [countP_cons_of_neg]
    simpa [source] using Ne.symm different
  · exact fun other listed => books.lots other (mem_cons_of_mem _ listed)

theorem Books.abandon (books : Books (lot :: lots) heap) (source : lot.bucket = none) :
    Books lots heap where
  balanced := Balances.abandon (ledger heap lots) books.balanced
  sized := books.sized
  freeCount := books.freeCount
  usedCount := books.usedCount
  held := by
    intro _
    rw [books.held, countP_cons_of_neg (by simp [source])]
  spare := books.spare
  ranged := books.ranged
  lots := fun other listed => books.lots other (mem_cons_of_mem _ listed)

theorem Books.user (books : Books lots heap) (listed : lot ∈ lots)
    (held : (Lot.area lot).Holds byte) :
    userBase ≤ byte ∧ byte < userEnd := by
  obtain ⟨run, listedRun, inside⟩ := books.balanced.in_run (mem_map_of_mem listed) held
  obtain ⟨_, _⟩ := books.ranged run listedRun
  unfold Area.Holds at inside
  omega

theorem ends_when {cond : Prop} [Decidable cond] {next : PUnit → HeapM α} {after : α → Heap → Prop}
    (first : cond → Ends program heap done failed) (skip : ¬ cond → done ⟨⟩ heap)
    (later : ∀ value middle, done value middle → Ends (next value) middle after failed) :
    Ends (if cond then program >>= next else next ⟨⟩) heap after failed := by
  split
  next holds => exact ends_seq (first holds) later
  next not => exact later _ _ (skip not)

theorem takeChunk_ends (books : Books lots heap) (reachable : 1 ≤ idx.val) :
    Ends (takeChunk idx) heap
    (fun start after => Books (⟨start, some idx, bucketSize idx⟩ :: lots) after ∧
      Keeps lots heap after)
    (· = .noPages) := by
  apply ends_get
  refine ends_when (fun _ => expandBucket_ends books reachable)
    (fun some => ⟨books, fun _ _ => rfl, Nat.pos_of_ne_zero some⟩) ?_
  rintro _ middle ⟨books, keeps, positive⟩
  apply ends_get
  apply check_then positive
  cases free : (middle.buckets idx).freeChunks with
  | nil =>
    rw [books.freeCount, free] at positive
    exact absurd positive (lt_irrefl 0)
  | cons chunk =>
    have out := books.handOut free
    have start : (Lot.area ⟨chunk.memory, some idx, bucketSize idx⟩).Holds chunk.memory :=
      ⟨le_rfl, Nat.lt_add_of_pos_right (bucketSize_pos idx)⟩
    have above := (out.user mem_cons_self start).1
    have nonzero : chunk.memory ≠ 0 := by
      unfold userBase at above
      omega
    apply check_then nonzero
    apply ends_put
    exact ends_pure _ ⟨out, keeps⟩

theorem obtainMemory_ends (books : Books lots heap) (least : 25 ≤ totalSize)
    (bounded : totalSize < 2 ^ 64) :
    Ends (obtainMemory totalSize) heap (fun start after => start = mapFailed ∨
    Books (lotFor start totalSize :: lots) after ∧ Keeps lots heap after ∧
      totalSize ≤ (lotFor start totalSize).size)
    (· = .noPages) := by
  unfold obtainMemory
  by_cases large : pageSize ≤ totalSize
  · rw [if_pos large]
    by_cases wraps : pagesFor totalSize = 0
    · rw [wraps]
      exact ends_get (ends_pure _ (.inl rfl))
    · have pages : totalSize ≤ 4096 * pagesFor totalSize ∧ 4096 * pagesFor totalSize < 2 ^ 64 := by
        unfold pagesFor pageSize at *
        omega
      apply ends_imp (internalAllocatePages_ends heap (Nat.pos_of_ne_zero wraps) pages.2)
      rintro _ _ ⟨fresh, rest, rfl⟩
      rw [lotFor_large large]
      exact .inr ⟨books.giveRun fresh rest, books.keeps_granted fresh rest, pages.1⟩
  · rw [if_neg large]
    obtain ⟨idx, found⟩ := getFittingBucket_exists (le_of_not_ge large)
    have fits := getFittingBucket_le found
    simp only [found]
    apply ends_get
    rw [books.sized idx]
    apply check_then fits
    apply ends_imp (takeChunk_ends books (bucket_reachable idx (least.trans fits)))
    rintro _ _ ⟨more, keeps⟩
    rw [lotFor_small large found]
    exact .inr ⟨more, keeps, fits⟩

theorem returnChunk_ends (books : Books (lot :: lots) heap) (source : lot.bucket = some idx)
    {size : Nat}
    (fitting : getFittingBucket size = some idx) : Ends (returnChunk lot.start size) heap
      (fun _ after =>
    Books lots after ∧ after.memory = heap.memory) (fun _ => False) := by
  have usedCount := books.usedCount idx
  have some : 0 < (heap.buckets idx).usedChunks.length := by
    rw [books.held, countP_cons_of_pos (by simpa using source)]
    exact Nat.succ_pos _
  unfold returnChunk
  simp only [fitting]
  apply ends_get
  apply check_then (by omega)
  cases used : (heap.buckets idx).usedChunks with
  | nil =>
    rw [used] at some
    exact absurd some (lt_irrefl 0)
  | cons => exact ends_set _ ⟨books.takeBack source used, rfl⟩

end Nx.UserHeapBooks
