import Nx.HeapRuns
import Nx.UserHeapRuns

/-!
What the two heaps give for a request: the kernel's `allocate` and the C library's `allocate`,
`malloc` and `calloc`.
-/

namespace Nx.AllocationSizes

open Bytes Outcomes Transitions UserHeapRuns UserHeap
open KernelHeap (BucketIdx bucketSize Lot)
open HeapAccounts (Lot.area)
open HeapLayout (constructed)
open UserHeapBooks (unborn)

/-- The bytes lie in a chunk of its bucket's size or in a page run, which the heap has pages for. -/
structure Backed (runs : List Area) (lot : Lot) (ptr bytes : Nat) : Prop where
  behind : lot.start < ptr
  within : ptr + bytes ≤ lot.start + lot.size
  chunk : ∀ idx, lot.bucket = some idx → lot.size = bucketSize idx
  pages : ∀ byte, (Lot.area lot).Holds byte → ∃ run ∈ runs, run.Holds byte

/-- What a call of the kernel's `allocate` returns has room for the request exactly if the sum of
the request and what is kept with it does not wrap around. -/
structure KernelHeapSuffices (state : HeapRuns.State) : Prop where
  allocate : ∀ reqSize align caller answers block after, reqSize < 2 ^ 64 →
    (∃ k ≤ 8, align = 2 ^ k) →
    (KernelHeap.allocate reqSize align caller).run (HeapRuns.offered state.heap answers) =
      .ok (some block, after) →
    ((∃ lot, Backed after.runs lot block.ptr reqSize) ↔
      reqSize + HeapRuns.bookkeeping align < 2 ^ 64)

/-- The same for the C library, where a null pointer is returned for nothing. -/
structure UserHeapSuffices (state : State) : Prop where
  allocate : ∀ reqSize align answers ptr after, reqSize < 2 ^ 64 → (∃ k ≤ 8, align = 2 ^ k) →
    (allocate reqSize align).run (offered state.heap answers) = .ok (ptr, after) → ptr ≠ 0 →
    ((∃ lot, Backed after.runs lot ptr reqSize) ↔
      reqSize + UserHeapBlocks.bookkeeping align < 2 ^ 64)
  malloc : ∀ size answers ptr after, size < 2 ^ 64 →
    (malloc size).run (offered state.heap answers) = .ok (ptr, after) → ptr ≠ 0 →
    ((∃ lot, Backed after.runs lot ptr size) ↔ size + 24 < 2 ^ 64)
  calloc : ∀ num size answers ptr after, num < 2 ^ 64 → size < 2 ^ 64 →
    (calloc num size).run (offered state.heap answers) = .ok (ptr, after) → ptr ≠ 0 →
    ((∃ lot, Backed after.runs lot ptr (num * size)) ↔ num * size + 24 < 2 ^ 64)

theorem not_backed {lot} (bound : ∀ run ∈ runs, run.start + run.size ≤ top)
    (huge : top < ptr + bytes) :
    ¬ Backed runs lot ptr bytes := by
  intro backed
  have behind := backed.behind
  have within := backed.within
  obtain ⟨run, listed, _, _⟩ := backed.pages (lot.start + lot.size - 1)
    ⟨(by omega : lot.start ≤ _), (by omega : _ < lot.start + lot.size)⟩
  have last := bound run listed
  omega

/-! ## The kernel heap -/

section Kernel

open HeapBlocks

theorem kernelBlock_backed (sound : Sound (block :: live) heap) :
    Backed heap.runs block.lot block.ptr block.reqSize := by
  have blockSound := sound.blocks block List.mem_cons_self
  have behind := blockSound.behind
  have listed : block.lot ∈ (block :: live).map KernelHeap.Block.lot := List.mem_cons_self
  refine ⟨by omega, blockSound.within, ?_, fun _ held => lot_in_run sound.accounts listed held⟩
  exact fun idx source => ((sound.accounts.lots _ listed).chunk idx source).1

/-! Only new pages change what the heap holds. -/

def KernelLow (heap : KernelHeap.Heap) : Prop :=
  ∀ run ∈ heap.runs, run.start + run.size ≤ KernelHeap.heapEnd

section Low

open KernelHeap

theorem kernelPages_low (num : Nat) : Preserves KernelLow (internalAllocatePages num) := by
  refine preserves_get fun heap low => ?_
  split
  · exact ends_throw _ trivial
  · split
    next fresh =>
      refine ends_put (ends_pure _ ?_)
      rintro run (_ | ⟨_, listed⟩)
      · exact fresh.below
      · exact low run listed
    next => exact ends_throw _ trivial

theorem kernelCheck_low (condition : Prop) [Decidable condition] (text : String) :
    Preserves KernelLow (check condition text) :=
  preserves_ite (preserves_pure _) (preserves_throw _)

theorem kernelSpares_low : Preserves KernelLow makeSpareChunks := by
  refine preserves_get fun heap low => ?_
  refine preserves_bind (kernelCheck_low _ _) (fun _ => preserves_bind (kernelPages_low 1) fun _ =>
    ?_) heap low
  exact preserves_ite (preserves_throw _) (preserves_get fun _ low => ends_set _ low)

theorem kernelSpare_low : Preserves KernelLow getSpareChunk := by
  refine preserves_get fun heap low => ?_
  refine ends_seq (kernelCheck_low _ _ heap low) fun _ _ _ => ?_
  split
  · exact ends_throw _ trivial
  · exact ends_set _ low

theorem kernelPlace_low (counter : BucketIdx → Nat) (order : List BucketIdx) (buffer : Nat) :
    Preserves KernelLow (placeAll counter order buffer) := by
  have chunks (idx : BucketIdx) (num buffer : Nat) :
      Preserves KernelLow (placeChunks idx num buffer) := by
    induction num generalizing buffer with
    | zero => exact preserves_pure _
    | succ _ ih =>
      refine preserves_bind kernelSpare_low fun _ => preserves_get fun heap low => ?_
      exact ends_put (ih _ (heap.addFreeChunk idx buffer) low)
  induction order generalizing buffer with
  | nil => exact preserves_pure _
  | cons idx _ ih => exact preserves_bind (chunks idx _ buffer) fun _ => ih _

theorem kernelLock_low (held : Bool) : Preserves KernelLow (setLock held) :=
  preserves_get fun _ low => ends_set _ low

theorem kernelExpand_low (idx : BucketIdx) : Preserves KernelLow (expandBucket idx) := by
  refine preserves_get fun heap low => ?_
  have placed (total : Nat) (counter : BucketIdx → Nat) (buffer : Nat) : Preserves KernelLow (do
      let heap ← get
      check (total ≤ heap.numSpareChunks) "numSpareChunks >= numChunks"
      placeAll counter downward buffer
      setLock false) := by
    refine preserves_get fun heap low => ?_
    exact preserves_bind (kernelCheck_low _ _)
      (fun _ => preserves_bind (kernelPlace_low _ _ _) fun _ => kernelLock_low false)
      heap low
  refine preserves_ite (preserves_pure _) ?_ heap low
  refine preserves_bind (kernelLock_low true) fun _ => ?_
  refine preserves_bind (kernelPages_low _) fun _ => ?_
  refine preserves_ite (preserves_throw _) (preserves_ite ?_ (placed _ _ _))
  exact preserves_bind kernelSpares_low fun _ => placed _ _ _

theorem kernelTake_low (idx : BucketIdx) : Preserves KernelLow (takeChunk idx) := by
  have awaited (rounds : Nat) : Preserves KernelLow (awaitChunks idx rounds) := by
    induction rounds with
    | zero => exact preserves_throw _
    | succ _ ih =>
      refine preserves_get fun heap low => ?_
      exact preserves_ite (preserves_bind (kernelExpand_low idx) fun _ => ih)
        (preserves_pure _) heap low
  refine preserves_bind (awaited 2) fun _ => preserves_get fun heap low => ?_
  refine ends_seq (kernelCheck_low _ _ heap low) fun _ _ _ => ?_
  split
  · exact ends_throw _ trivial
  · exact ends_put (ends_pure _ low)

theorem kernelAllocate_low (reqSize align caller : Nat) :
    Preserves KernelLow (allocate reqSize align caller) := by
  refine preserves_ite (preserves_pure _) (preserves_bind (kernelCheck_low _ _) fun _ =>
    preserves_bind (kernelCheck_low _ _) fun _ => preserves_bind ?_ fun _ =>
      preserves_get fun _ low => ?_)
  · refine preserves_ite (preserves_bind (kernelPages_low _) fun _ => preserves_pure _) ?_
    split
    · exact preserves_throw _
    next idx _ =>
      refine preserves_get fun heap low => ?_
      refine preserves_ite (preserves_throw _) ?_ heap low
      exact preserves_bind (kernelCheck_low _ _) fun _ =>
        preserves_bind (kernelTake_low idx) fun _ => preserves_pure _
  · exact ends_put (ends_pure _ low)

end Low

theorem kernelHeap_suffices {state} (sound : Sound state.live state.heap) :
    KernelHeapSuffices state where
  allocate := by
    intro reqSize align caller answers block after small power done
    have ready : Sound state.live (HeapRuns.offered state.heap answers) :=
      ⟨sound.accounts.congr rfl rfl sound.accounts.spareCount, sound.sized, sound.unlocked,
        sound.blocks⟩
    have asked : reqSize ≠ 0 := by
      rintro rfl
      cases done
    constructor
    · rintro ⟨lot, backed⟩
      by_contra wraps
      have low : KernelLow (HeapRuns.offered state.heap answers) :=
        fun run listed => (ready.accounts.ranged run listed).2.2
      refine not_backed (ends_of_ok (kernelAllocate_low reqSize align caller _ low) done) ?_ backed
      have most : HeapRuns.bookkeeping align ≤ 272 := by
        obtain ⟨k, few, rfl⟩ := power
        have power : 2 ^ k ≤ 2 ^ 8 := Nat.pow_le_pow_right (by decide) few
        unfold HeapRuns.bookkeeping KernelHeap.maxAlign
        omega
      unfold KernelHeap.heapEnd
      omega
    · intro fits
      obtain ⟨_, ⟨⟩, size, _, _, soundAfter⟩ := ends_of_ok
        (allocate_ends ready caller (Nat.pos_of_ne_zero asked) power fits) done
      rw [← size]
      exact ⟨_, kernelBlock_backed soundAfter⟩

end Kernel

/-! ## The C library's heap -/

section User

variable {lots : List Lot}

open UserHeap UserHeapBooks UserHeapBlocks

theorem provided_backed (provided : Provided lots reqSize align before ptr after start) :
    Backed after.runs (lotFor start (reqSize + bookkeeping align)) ptr reqSize := by
  have behind := provided.formatted.behind
  have near := provided.formatted.near
  have enough := provided.enough
  have overhead : bookkeeping align = 8 + max align KernelHeap.maxAlign := rfl
  refine ⟨?_, ?_, ?_, fun _ held => provided.books.balanced.in_run List.mem_cons_self held⟩
  · rw [lotFor_start]
    omega
  · rw [lotFor_start]
    omega
  · exact (provided.books.lots _ List.mem_cons_self).chunk

theorem allocate_backed (books : Books lots heap) (power : ∃ k ≤ 8, align = 2 ^ k)
    (fits : reqSize + bookkeeping align < 2 ^ 64) (done : (allocate reqSize align).run heap =
      .ok (ptr, after))
    (some : ptr ≠ 0) : ∃ lot, Backed after.runs lot ptr reqSize := by
  by_cases none : reqSize = 0
  · rw [none] at done
    cases done
    exact absurd rfl some
  · obtain ⟨_, provided⟩ :=
      ends_of_ok (allocate_ends books (Nat.pos_of_ne_zero none) power fits) done
    exact ⟨_, provided_backed provided⟩

def UserLow (heap : Heap) : Prop := ∀ run ∈ heap.runs, run.start + run.size ≤ userEnd

section Low

theorem userPages_low (num : Nat) : Preserves UserLow (internalAllocatePages num) := by
  refine preserves_get fun heap low => ?_
  dsimp only
  split
  · exact preserves_pure _ heap low
  · split
    · exact ends_throw _ trivial
    · split
      next fresh =>
        refine ends_put (ends_pure _ ?_)
        rintro run (_ | ⟨_, listed⟩)
        · exact fresh.below
        · exact low run listed
      next => exact ends_throw _ trivial

theorem userCheck_low (condition : Prop) [Decidable condition] (text : String) :
    Preserves UserLow (check condition text) :=
  preserves_ite (preserves_pure _) (preserves_throw _)

theorem userSpares_low : Preserves UserLow makeSpareChunks :=
  preserves_bind (userPages_low 1) fun _ => preserves_bind (userCheck_low _ _) fun _ =>
    preserves_get fun _ low => ends_set _ low

theorem userSpare_low : Preserves UserLow getSpareChunk := by
  have taken : Preserves UserLow (do
      let heap ← get
      check (0 < heap.numSpareChunks) "NumSpareChunks > 0"
      set { heap with spareChunks := heap.spareChunks - 1 }) := by
    refine preserves_get fun heap low => ?_
    exact ends_seq (userCheck_low _ _ heap low) fun _ _ _ => ends_set _ low
  refine preserves_get fun heap low => ?_
  exact preserves_ite (preserves_bind userSpares_low fun _ => taken) taken heap low

theorem userPlace_low (counter : BucketIdx → Nat) (order : List BucketIdx) (buffer : Nat) :
    Preserves UserLow (placeAll counter order buffer) := by
  have chunks (idx : BucketIdx) (num buffer : Nat) :
      Preserves UserLow (placeChunks idx num buffer) := by
    induction num generalizing buffer with
    | zero => exact preserves_pure _
    | succ _ ih =>
      refine preserves_bind userSpare_low fun _ => preserves_get fun heap low => ?_
      exact ends_put (ih _ (heap.addFreeChunk idx buffer) low)
  induction order generalizing buffer with
  | nil => exact preserves_pure _
  | cons idx _ ih => exact preserves_bind (chunks idx _ buffer) fun _ => ih _

theorem userExpand_low (idx : BucketIdx) : Preserves UserLow (expandBucket idx) := by
  have placed (total : Nat) (counter : BucketIdx → Nat) (buffer : Nat) : Preserves UserLow (do
      let heap ← get
      check (total ≤ heap.numSpareChunks) "NumSpareChunks >= numChunks"
      placeAll counter KernelHeap.downward buffer) := by
    refine preserves_get fun heap low => ?_
    exact preserves_bind (userCheck_low _ _) (fun _ => userPlace_low _ _ _) heap low
  refine preserves_bind (userPages_low _) fun _ => preserves_bind (userCheck_low _ _) fun _ =>
    preserves_get fun heap low => ?_
  exact preserves_ite (preserves_bind userSpares_low fun _ => placed _ _ _) (placed _ _ _) heap low

theorem userTake_low (idx : BucketIdx) : Preserves UserLow (takeChunk idx) := by
  refine preserves_get fun heap low => ?_
  refine preserves_ite (preserves_bind (userExpand_low idx) fun _ => ?_) ?_ heap low
  -- with and without new chunks the rest is the same
  all_goals
    refine preserves_get fun heap low => ?_
    refine ends_seq (userCheck_low _ _ heap low) fun _ middle kept => ?_
    split
    · exact ends_throw _ trivial
    · exact ends_seq (userCheck_low _ _ middle kept) fun _ _ _ => ends_put (ends_pure _ low)

theorem userAllocate_low (reqSize align : Nat) : Preserves UserLow (allocate reqSize align) := by
  refine preserves_ite (preserves_pure _) (preserves_bind (userCheck_low _ _) fun _ =>
    preserves_bind (userCheck_low _ _) fun _ => preserves_bind ?_ fun _ =>
      preserves_get fun heap low => ?_)
  · refine preserves_ite (userPages_low _) ?_
    split
    · exact preserves_throw _
    next idx _ =>
      refine preserves_get fun heap low => ?_
      exact preserves_bind (userCheck_low _ _) (fun _ => userTake_low idx) heap low
  · split
    · exact ends_throw _ trivial
    · exact ends_put (ends_pure _ low)

end Low

theorem allocate_exact (books : Books lots heap) (power : ∃ k ≤ 8, align = 2 ^ k)
    (done : (allocate reqSize align).run heap = .ok (ptr, after)) (some : ptr ≠ 0) :
    (∃ lot, Backed after.runs lot ptr reqSize) ↔ reqSize + bookkeeping align < 2 ^ 64 := by
  constructor
  · rintro ⟨lot, backed⟩
    by_contra wraps
    have low : UserLow heap := fun run listed => (books.ranged run listed).2
    refine not_backed (ends_of_ok (userAllocate_low reqSize align heap low) done) ?_ backed
    have most : bookkeeping align ≤ 264 := by
      obtain ⟨k, few, rfl⟩ := power
      have power : 2 ^ k ≤ 2 ^ 8 := Nat.pow_le_pow_right (by decide) few
      unfold bookkeeping KernelHeap.maxAlign
      omega
    unfold userEnd
    omega
  · exact fun fits => allocate_backed books power fits done some

theorem userHeap_suffices {state} (sound : Sound state.live state.heap) :
    UserHeapSuffices state := by
  have books : ∀ answers, Books (state.live.map Block.lot) (offered state.heap answers) :=
    fun answers => sound.books.congr rfl rfl sound.books.spare
  have one : ∃ k ≤ 8, 1 = 2 ^ k := ⟨0, by decide, rfl⟩
  refine ⟨?_, ?_, ?_⟩
  · intro _ _ answers _ _ _ power done some
    exact allocate_exact (books answers) power done some
  · intro size answers _ _ _ done some
    exact allocate_exact (books answers) one done some
  · intro num size answers ptr after _ _ done some
    -- clearing the memory does not change where it is
    obtain ⟨middle, allocated, runs⟩ : ∃ middle,
        (allocate (num * size % 2 ^ 64) 1).run (offered state.heap answers) = .ok (ptr, middle) ∧
        after.runs = middle.runs := by
      have ends : Ends (calloc num size) (offered state.heap answers) (fun ptr after => ∃ middle,
          (allocate (num * size % 2 ^ 64) 1).run (offered state.heap answers) = .ok (ptr, middle) ∧
          after.runs = middle.runs) (fun _ => True) := by
        unfold calloc
        cases result : (allocate (num * size % 2 ^ 64) 1).run (offered state.heap answers) with
        | error => exact ends_bind (.aborted result trivial)
        | ok pair =>
          exact ends_bind (.normal result (ends_get (ends_put (ends_pure _ ⟨pair.2, rfl, rfl⟩))))
      exact ends_of_ok ends done
    rw [runs]
    by_cases product : num * size < 2 ^ 64
    · rw [Nat.mod_eq_of_lt product] at allocated
      exact allocate_exact (books answers) one allocated some
    · constructor
      · rintro ⟨lot, backed⟩
        have low : UserLow (offered state.heap answers) :=
          fun run listed => ((books answers).ranged run listed).2
        refine absurd backed (not_backed (ends_of_ok (userAllocate_low _ 1 _ low) allocated) ?_)
        unfold userEnd
        omega
      · intro fits
        omega

end User

/-- In every state that the heaps can get into, what is returned for a request is large enough
exactly if the request does not wrap around. -/
theorem allocations_suffice_iff (memory : Memory) (incoming : List Nat) :
    (∀ {heap moves last}, KernelHeap.init.run (constructed memory incoming) = .ok (⟨⟩, heap) →
      Run HeapRuns.Step ⟨heap, []⟩ moves last → ∀ state ∈ visited ⟨heap, []⟩ moves,
        KernelHeapSuffices state) ∧
    ∀ {heap moves last}, init.run (unborn memory incoming) = .ok (⟨⟩, heap) →
      Run Step ⟨heap, []⟩ moves last →
      (∀ move ∈ moves, Regular move.before move.label) → ∀ state ∈ visited ⟨heap, []⟩ moves,
        UserHeapSuffices state :=
  ⟨fun booted run state reached => kernelHeap_suffices
    ((HeapRuns.run_sound booted run).1 state reached),
    fun booted run regular state reached =>
      userHeap_suffices (run_sound booted run regular state reached)⟩

/-- Both heaps after a block of a hundred bytes. -/
theorem allocations_suffice_hundred :
    (∃ heap moves last, KernelHeap.init.run (constructed (fun _ => 0)
      [0xFFFFFF8000000000, 0xFFFFFF8000010000]) =
        .ok (⟨⟩, heap) ∧ Run HeapRuns.Step ⟨heap, []⟩ moves last ∧ last.live.length = 1 ∧
          KernelHeapSuffices last) ∧
    ∃ heap moves last, init.run (unborn (fun _ => 0) [0x400000, 0x410000]) = .ok (⟨⟩, heap) ∧
      Run Step ⟨heap, []⟩ moves last ∧ last.live.length = 1 ∧ UserHeapSuffices last := by
  constructor
  · have booted := HeapRuns.init_of_bootedHeap (Option.some_get HeapRuns.bootedHeap_some).symm
    have run : Run HeapRuns.Step ⟨HeapRuns.bootedHeap.get HeapRuns.bootedHeap_some, []⟩ _ _ :=
      trace_run HeapRuns.next HeapRuns.next_step _ [.allocate 100 16 7 []]
    exact ⟨_, _, _, booted, run,
      by decide +kernel, (allocations_suffice_iff _ _).1 booted run _ (run_last_visited run)⟩
  · have run : Run Step ⟨bootedHeap.get bootedHeap_some, []⟩ _ _ :=
      trace_run next next_step _ [.malloc 100 []]
    have regular : ∀ move ∈ (trace next ⟨bootedHeap.get bootedHeap_some, []⟩ [.malloc 100 []]).1,
        Regular move.before move.label := by decide +kernel
    exact ⟨_, _, _, init_of_bootedHeap, run, by decide +kernel,
      (allocations_suffice_iff _ _).2 init_of_bootedHeap run regular _ (run_last_visited run)⟩

def outcomeOf (program : HeapM Nat) (heap : Heap) : Option (Nat × List Area) :=
  match program.run heap with
  | .ok (ptr, after) => some (ptr, after.runs)
  | .error _ => none

theorem unbacked_of_outcome (found : outcomeOf program heap = some (ptr, runs))
    (bound : ∀ run ∈ runs, run.start + run.size ≤ top) (huge : top < ptr + bytes) :
    ∃ after, program.run heap = .ok (ptr, after) ∧ ∀ lot, ¬ Backed after.runs lot ptr bytes := by
  unfold outcomeOf at found
  cases result : program.run heap with
  | error =>
    rw [result] at found
    cases found
  | ok pair =>
    rw [result] at found
    cases found
    exact ⟨pair.2, rfl, fun _ => not_backed bound huge⟩

/-- A malloc of 2^64 - 1 bytes gets the end of a chunk of 24 bytes, and a calloc of 2^63 + 1 times
two bytes gets two bytes. -/
theorem allocations_wrap : ∃ heap, init.run (unborn (fun _ => 0) [0x400000, 0x410000]) =
    .ok (⟨⟩, heap) ∧
    (∃ after, (malloc (2 ^ 64 - 1)).run heap = .ok (0x420000, after) ∧
    ∀ lot, ¬ Backed after.runs lot 0x420000 (2 ^ 64 - 1)) ∧
    ∃ after, (calloc (2 ^ 63 + 1) 2).run heap = .ok (0x41F000, after) ∧
    ∀ lot, ¬ Backed after.runs lot 0x41F000 ((2 ^ 63 + 1) * 2) := by
  apply bootedHeap_exists
  have bound : ∀ run ∈ [(⟨0x410000, 0x10000⟩ : Area), ⟨0x400000, 0x3000⟩], run.start + run.size ≤
      0x420000 := by
    decide
  constructor
  all_goals exact unbacked_of_outcome (by decide +kernel) bound (by decide)

end Nx.AllocationSizes
