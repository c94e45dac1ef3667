import Nx.HeapBlocks
import Nx.Transitions

/-!
The kernel heap over whole sequences of calls, from `init` on.
-/

namespace Nx.HeapRuns

open Bytes Outcomes KernelHeap HeapAccounts HeapLayout HeapBlocks Transitions List

structure State where
  heap : Heap
  live : List Block

/-- A call of `allocate` comes with its return address and with what the page
allocator will answer. -/
inductive Op where
  | allocate (size align caller : Nat) (incoming : List Nat)
  | deallocate (ptr : Nat)
  | write (addr : Nat) (byte : Byte)
  deriving DecidableEq

def offered (heap : Heap) (incoming : List Nat) : Heap := { heap with incoming := incoming }

def perform (state : State) : Op → Except Failure State
  | .allocate size align caller incoming => do
    let (block, heap) ← (KernelHeap.allocate size align caller).run (offered state.heap incoming)
    return ⟨heap, block.toList ++ state.live⟩
  | .deallocate ptr => do
    let (_, heap) ← (KernelHeap.deallocate ptr).run state.heap
    return ⟨heap, state.live.eraseP fun block => decide (block.ptr = ptr)⟩
  | .write addr byte =>
    .ok { state with heap := { state.heap with
      memory := Function.update state.heap.memory addr byte } }

def bookkeeping (align : Nat) : Nat := max align maxAlign + 16

def Allowed (state : State) : Op → Prop
  | .allocate size align _ _ =>
    0 < size ∧ (∃ k ≤ 8, align = 2 ^ k) ∧ size + bookkeeping align < 2 ^ 64
  | .deallocate ptr => ∃ block ∈ state.live, block.ptr = ptr
  | .write addr _ => ∃ block ∈ state.live, block.ptr ≤ addr ∧ addr < block.ptr + block.reqSize

instance (state : State) : DecidablePred (Allowed state) := by
  intro op
  unfold Allowed
  split <;> infer_instance

def Supplied (state : State) : Op → Prop
  | .allocate size align _ incoming =>
    Answered (offered state.heap incoming) (pagesAsked (size + bookkeeping align))
  | _ => True

def Step (before : State) (op : Op) (after : State) : Prop :=
  Allowed before op ∧ perform before op = .ok after

/-- A block lies with its header in one chunk of the bucket for its size, or in
one page run, and its header leads back there. -/
structure InPlace (heap : Heap) (block : Block) : Prop where
  aligned : block.ptr % block.align = 0
  header : block.lot.start + 16 < block.ptr
  bytes : block.ptr + block.reqSize ≤ block.lot.start + block.lot.size
  chosen : match block.lot.bucket with
    | some idx => block.totalSize < pageSize ∧ getFittingBucket block.totalSize = some idx ∧
        block.lot.size = bucketSize idx
    | none => pageSize ≤ block.totalSize ∧ Lot.area block.lot ∈ heap.runs
  offset : (heap.memory (block.ptr - 1)).toNat = block.ptr - (block.lot.start + 16)
  recovered : readHeader heap.memory block.ptr = (block.lot.start, block.totalSize)

structure Correct (state : State) : Prop where
  blocks : ∀ block ∈ state.live, InPlace state.heap block
  disjoint : state.live.Pairwise fun left right =>
    (Lot.area left.lot).Apart (Lot.area right.lot)
  free : ∀ block ∈ state.live, ∀ idx, ∀ chunk ∈ (state.heap.buckets idx).freeChunks,
    (Lot.area block.lot).Apart (chunkArea idx chunk)

def Follows (move : Move State Op) : Prop :=
  match move.label with
  | .allocate size align _ _ => ∃ block, move.after.live = block :: move.before.live ∧
      block.reqSize = size ∧ block.totalSize = size + bookkeeping align ∧
      block.ptr % max align maxAlign = 0
  | .deallocate ptr => ∃ block ∈ move.before.live, block.ptr = ptr ∧
      move.before.live.Perm (block :: move.after.live) ∧
      GivenBack block.lot move.before.heap move.after.heap
  | .write _ _ => move.after.live = move.before.live

variable {heap : Heap} {state : State}

theorem live_inPlace (sound : Sound live heap) (listed : block ∈ live) : InPlace heap block := by
  have blockSound := sound.blocks block listed
  have lotSound := sound.accounts.lots block.lot (mem_map_of_mem listed)
  refine ⟨blockSound.aligned, blockSound.behind, blockSound.within, ?_, blockSound.offset,
    blockSound.readHeader⟩
  have source := blockSound.origin.bucket
  by_cases large : pageSize ≤ block.totalSize
  · rw [if_pos large] at source
    rw [source]
    exact ⟨large, (lotSound.run source).1⟩
  · obtain ⟨idx, found⟩ := getFittingBucket_exists (le_of_not_ge large)
    rw [if_neg large, found] at source
    rw [source]
    exact ⟨not_le.mp large, found, (lotSound.chunk idx source).1⟩

theorem live_apart (sound : Sound live heap) (idx : BucketIdx) :
    ((live.map Block.lot).map Lot.area ++ freeAreas heap idx).Pairwise Area.Apart := by
  apply apart_of_covers
  · intro _ listed
    rcases mem_append.mp listed with given | free
    · obtain ⟨lot, member, rfl⟩ := mem_map.mp given
      have lotSound := sound.accounts.lots lot member
      show 0 < lot.size
      cases source : lot.bucket with
      | none => exact (lotSound.run source).2
      | some other =>
        rw [(lotSound.chunk other source).1]
        exact bucketSize_pos other
    · obtain ⟨_, _, rfl⟩ := mem_map.mp free
      exact bucketSize_pos idx
  · intro byte
    have owned := sound.accounts.owned byte
    have single := sound.accounts.single byte
    have part : covers (freeAreas heap idx) byte ≤ ∑ other, covers (freeAreas heap other) byte :=
      le_of_le_of_eq (Nat.le_add_right _ _)
        (Finset.add_sum_erase _ (fun other => covers (freeAreas heap other) byte)
          (Finset.mem_univ idx))
    rw [covers_append]
    unfold owners at owned
    omega

theorem sound_correct (sound : Sound state.live state.heap) : Correct state := by
  refine ⟨fun _ listed => live_inPlace sound listed, ?_, ?_⟩
  · have all := (pairwise_append.mp (live_apart sound 0)).1
    rw [map_map] at all
    exact pairwise_map.mp all
  · intro _ listed idx _ free
    have ⟨_, _, cross⟩ := pairwise_append.mp (live_apart sound idx)
    exact cross _ (mem_map_of_mem (mem_map_of_mem listed)) _ (mem_map_of_mem free)

theorem write_sound (sound : Sound state.live state.heap)
    (allowed : ∃ block ∈ state.live, block.ptr ≤ addr ∧ addr < block.ptr + block.reqSize)
      (byte : Byte) :
    Sound state.live { state.heap with
      memory := Function.update state.heap.memory addr byte } := by
  obtain ⟨owner, listed, _, _⟩ := allowed
  refine ⟨sound.accounts.congr rfl rfl sound.accounts.spareCount, sound.sized, sound.unlocked, ?_⟩
  have ownerSound := sound.blocks owner listed
  have behind := ownerSound.behind
  have within := ownerSound.within
  have inOwner : (Lot.area owner.lot).Holds addr :=
    ⟨(by omega : owner.lot.start ≤ addr), (by omega : addr < owner.lot.start + owner.lot.size)⟩
  obtain ⟨before, after, shape⟩ := append_of_mem listed
  have perm : state.live.Perm (owner :: (before ++ after)) := by
    rw [shape]
    exact perm_middle
  intro block member
  apply (sound.blocks block member).congr
  intro _ held _
  apply Function.update_of_ne
  rintro rfl
  rcases mem_cons.mp (perm.mem_iff.mp member) with rfl | elsewhere
  · omega
  · have alone := lot_exclusive (sound.perm perm).accounts inOwner
    have covered := lot_covered elsewhere held
    omega

theorem perform_cases (sound : Sound state.live state.heap) (allowed : Allowed state op) :
    (∃ after, perform state op = .ok after ∧ Sound after.live after.heap ∧
      Follows ⟨state, op, after⟩) ∨
    (perform state op = .error .noPages ∧ ¬ Supplied state op) := by
  cases op with
  | allocate _ _ caller incoming =>
    have ⟨asked, power, fits⟩ := allowed
    have ready : Sound state.live (offered state.heap incoming) :=
      ⟨sound.accounts.congr rfl rfl sound.accounts.spareCount, sound.sized, sound.unlocked,
        sound.blocks⟩
    cases allocate_ends ready caller asked power fits with
    | @normal _ heap done holds =>
      obtain ⟨block, rfl, sameSize, sameAlign, total, soundAfter⟩ := holds
      refine .inl ⟨⟨heap, block :: state.live⟩,
        by simp [perform, done], soundAfter, block, rfl, sameSize, total, ?_⟩
      rw [← sameAlign]
      exact (soundAfter.blocks block mem_cons_self).aligned
    | aborted done holds =>
      obtain ⟨rfl, unanswered⟩ := holds
      exact .inr ⟨by simp [perform, done], unanswered⟩
  | deallocate ptr =>
    obtain ⟨_, listed, same⟩ := allowed
    obtain ⟨block, before, after, _, hit, shape, erased⟩ :=
      exists_of_eraseP listed (p := fun block => decide (block.ptr = ptr)) (by simpa using same)
    have owner : block.ptr = ptr := by simpa using hit
    have perm : state.live.Perm (block :: (before ++ after)) := by
      rw [shape]
      exact perm_middle
    obtain ⟨_, heap, done, soundAfter, back⟩ := ends_exists (deallocate_ends (sound.perm perm))
    rw [owner] at done
    refine .inl ⟨⟨heap, before ++ after⟩, by simp [perform, done, erased], soundAfter,
      block, by simp [shape], owner, perm, back⟩
  | write _ byte => exact .inl ⟨_, rfl, write_sound sound allowed byte, rfl⟩

theorem step_sound (move : Move State Op) (sound : Sound move.before.live move.before.heap)
    (taken : Step move.before move.label move.after) : Sound move.after.live move.after.heap ∧
      Follows move := by
  obtain ⟨_, _, _⟩ := move
  obtain ⟨allowed, done⟩ := taken
  rcases perform_cases sound allowed with ⟨_, returned, soundAfter, follows⟩ | ⟨failed, _⟩
  · cases Except.ok.inj (returned.symm.trans done)
    exact ⟨soundAfter, follows⟩
  · cases failed.symm.trans done

theorem run_sound (booted : init.run (constructed memory incoming) = .ok (⟨⟩, heap))
    (run : Run Step ⟨heap, []⟩ moves last) : (∀ state ∈ visited ⟨heap, []⟩ moves,
      Sound state.live state.heap) ∧
    ∀ move ∈ moves, Sound move.before.live move.before.heap ∧
      Step move.before move.label move.after := by
  have ⟨books, sized, unlocked⟩ := ends_of_ok (init_ends memory incoming) booted
  have start : Sound [] heap := ⟨books, sized, unlocked, by simp⟩
  exact run_invariant (fun state : State => Sound state.live state.heap)
    (fun before op after sound taken => (step_sound ⟨before, op, after⟩ sound taken).1) run start

/-- From `init` on, every state is correct and every call does what it should;
a call that is made as it may be fails only for want of pages, and returns if
there are pages. -/
theorem heap_correct {memory : Memory} {incoming : List Nat} {heap : Heap} {last : State}
    {moves : List (Move State Op)}
    (booted : init.run (constructed memory incoming) = .ok (⟨⟩, heap))
      (run : Run Step ⟨heap, []⟩ moves last) :
    (∀ state ∈ visited ⟨heap, []⟩ moves, Correct state) ∧ (∀ move ∈ moves, Follows move) ∧
      ∀ op, Allowed last op → (∀ failure, perform last op = .error failure → failure = .noPages) ∧
        (Supplied last op → ∃ after, perform last op = .ok after) := by
  have sounds := run_sound booted run
  refine ⟨fun state reached => sound_correct (sounds.1 state reached), ?_, ?_⟩
  · intro move member
    have ⟨sound, taken⟩ := sounds.2 move member
    exact (step_sound move sound taken).2
  · intro _ allowed
    rcases perform_cases (sounds.1 last (run_last_visited run)) allowed with
      ⟨after, returned, _⟩ | ⟨failed, unsupplied⟩
    · refine ⟨fun failure error => ?_, fun _ => ⟨after, returned⟩⟩
      cases returned.symm.trans error
    · refine ⟨fun _ error => ?_, fun supplied => absurd supplied unsupplied⟩
      cases failed.symm.trans error
      rfl

/-- The heap that `init` makes of sixteen pages and three more for descriptors. -/
def bootedHeap : Option Heap :=
  match init.run (constructed (fun _ => 0) [0xFFFFFF8000000000, 0xFFFFFF8000010000]) with
  | .ok (_, heap) => some heap
  | .error _ => none

def next (state : State) (op : Op) : Option State :=
  if Allowed state op then (perform state op).toOption else none

theorem next_step (before : State) (op : Op) (after : State) (moved : next before op = some after) :
    Step before op after := by
  have ⟨allowed, done⟩ := Option.ite_none_right_eq_some.mp moved
  refine ⟨allowed, ?_⟩
  cases result : perform before op with
  | ok =>
    rw [result] at done
    exact congrArg _ (Option.some.inj done)
  | error =>
    rw [result] at done
    cases done

/-- Two blocks from the chunks of `init`, one after an expansion and one of two
pages; the first and the last are given back. -/
def fourBlocks : List Op :=
  [.allocate 100 256 7 [], .allocate 4000 16 7 [],
    .allocate 4000 16 7 [0xFFFFFF8000100000, 0xFFFFFF8000200000],
    .allocate 5000 64 7 [0xFFFFFF8000300000], .deallocate 0xFFFFFF8000017F00,
    .deallocate 0xFFFFFF8000300040]

theorem bootedHeap_some : bootedHeap.isSome = true := by decide +kernel

theorem init_of_bootedHeap (found : bootedHeap = some heap) :
    init.run (constructed (fun _ => 0) [0xFFFFFF8000000000, 0xFFFFFF8000010000]) =
      .ok (⟨⟩, heap) := by
  unfold bootedHeap at found
  cases result : init.run (constructed (fun _ => 0) [0xFFFFFF8000000000, 0xFFFFFF8000010000]) with
  | ok =>
    rw [result] at found
    cases found
    rfl
  | error =>
    rw [result] at found
    cases found

theorem heap_correct_four_blocks :
    ∃ heap moves last, init.run (constructed (fun _ => 0)
      [0xFFFFFF8000000000, 0xFFFFFF8000010000]) = .ok (⟨⟩, heap) ∧
    Run Step ⟨heap, []⟩ moves last ∧ moves.map Move.label = fourBlocks ∧ last.live.length = 2 ∧
    (∀ state ∈ visited ⟨heap, []⟩ moves, Correct state) ∧ ∀ move ∈ moves, Follows move := by
  have booted := init_of_bootedHeap (Option.some_get bootedHeap_some).symm
  have run : Run Step ⟨bootedHeap.get bootedHeap_some, []⟩ _ _ :=
    trace_run next next_step _ fourBlocks
  have ⟨correct, follows, _⟩ := heap_correct booted run
  exact ⟨_, _, _, booted, run, by decide +kernel, by decide +kernel, correct, follows⟩

end Nx.HeapRuns
