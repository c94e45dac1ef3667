import Nx.UserHeapBooks

/-!
`allocate`, `deallocate` and `reallocate` of the C library's heap.
-/

namespace Nx.UserHeapBlocks

open Bytes Outcomes ChunkLedgers UserHeap UserHeapBooks List
open KernelHeap (BucketIdx bucketSize getFittingBucket alignUp alignTheMemory pageSize maxAlign
  pagesFor Lot)
open HeapAccounts (Lot.area)
open HeapBlocks (Alignment alignUp_spec alignment_of_power getFittingBucket_exists)

variable {lots : List Lot} {heap : Heap}

/-- The ways in which an allocation can fail: the kernel stopped, or the size left no page to ask
for. -/
def OutOfMemory (failure : Failure) : Prop := failure = .noPages ∨ failure = .fault mapFailed

/-! ## The header of a block -/

structure Formatted (memory : Memory) (start totalSize align ptr : Nat) : Prop where
  aligned : ptr % align = 0
  behind : start + 8 < ptr
  near : ptr ≤ start + 8 + align
  offset : memory (ptr - 1) = BitVec.ofNat 8 (ptr - (start + 8))
  header : load memory start = totalSize

variable {start totalSize align ptr reqSize : Nat}

theorem Formatted.congr {before after : Memory}
    (formatted : Formatted before start totalSize align ptr)
    (same : ∀ byte, start ≤ byte → byte < ptr → after byte = before byte) :
    Formatted after start totalSize align ptr := by
  have behind := formatted.behind
  refine ⟨formatted.aligned, behind, formatted.near, ?_, ?_⟩
  · rw [same _ (by omega) (by omega)]
    exact formatted.offset
  · refine Eq.trans (load_congr fun i _ => ?_) formatted.header
    exact same _ (by omega) (by omega)

theorem Formatted.readHeader (formatted : Formatted memory start totalSize align ptr)
    (most : align < 256) :
    readHeader memory ptr = (start, totalSize) := by
  have behind := formatted.behind
  have near := formatted.near
  have ofs : (memory (ptr - 1)).toNat = ptr - (start + 8) := by
    rw [formatted.offset, BitVec.toNat_ofNat]
    exact Nat.mod_eq_of_lt (by omega)
  have back : ptr - (ptr - (start + 8)) - 8 = start := by omega
  simp only [UserHeap.readHeader, ofs, back, formatted.header]

theorem formatBlock_ends (alignment : Alignment align) (lower : start + 8 + 1 + align ≤ 2 ^ 47)
    (bounded : totalSize < 2 ^ 64) {failed : Failure → Prop} :
      Ends (formatBlock start totalSize align) heap
    (fun ptr after => Formatted after.memory start totalSize align ptr ∧
    ∃ memory, after = { heap with memory := memory } ∧ ∀ byte, byte < start ∨
      start + 8 + align ≤ byte →
    memory byte = heap.memory byte) failed := by
  have ⟨aligned, above, below⟩ := alignUp_spec alignment
    (show start + 8 + 1 + align ≤ 2 ^ 64 from lower.trans (by decide))
  apply ends_get
  rw [if_neg (by omega)]
  unfold alignTheMemory
  dsimp only
  apply ends_put
  refine ends_pure _ ⟨⟨aligned, by omega, by omega, Function.update_self _ _ _, ?_⟩, _, rfl, ?_⟩
  · have stored : load (store heap.memory start totalSize) start = totalSize := load_store bounded
    refine Eq.trans (load_congr fun i _ => ?_) stored
    exact Function.update_of_ne (by omega) _ _
  · intro _ _
    rw [Function.update_of_ne (by omega), store_outside (by omega)]

/-! ## `allocate` -/

def bookkeeping (align : Nat) : Nat := 8 + max align maxAlign

structure Provided (lots : List Lot) (reqSize align : Nat) (before : Heap) (ptr : Nat)
    (after : Heap)
    (start : Nat) : Prop where
  books : Books (lotFor start (reqSize + bookkeeping align) :: lots) after
  keeps : Keeps lots before after
  formatted : Formatted after.memory start (reqSize + bookkeeping align) (max align maxAlign) ptr
  enough : reqSize + bookkeeping align ≤ (lotFor start (reqSize + bookkeeping align)).size

theorem allocate_ends (books : Books lots heap) (asked : 0 < reqSize)
    (power : ∃ k ≤ 8, align = 2 ^ k) (fits : reqSize + bookkeeping align < 2 ^ 64) :
    Ends (allocate reqSize align) heap (fun ptr after => ∃ start,
      Provided lots reqSize align heap ptr after start)
      OutOfMemory := by
  have alignment := alignment_of_power power
  have ⟨bits, least, most⟩ := alignment.checks
  have total : (reqSize + (8 + 1 + (max align maxAlign - 1))) % 2 ^ 64 =
      reqSize + bookkeeping align := by
    unfold bookkeeping at *
    omega
  unfold allocate
  rw [if_neg (by omega)]
  apply check_then bits
  apply check_then most
  simp only [total]
  apply ends_call (obtainMemory_ends books (by unfold bookkeeping; omega) fits)
  · exact fun _ none => .inl none
  rintro start _ (rfl | ⟨more, keeps, enough⟩)
  · exact ends_get (ends_throw _ (.inr rfl))
  have overhead : bookkeeping align = 8 + max align maxAlign := rfl
  -- the last byte of the header is a user address
  have ⟨_, last⟩ := more.user mem_cons_self (lotFor_holds (Nat.le_add_right start (bookkeeping align)) (by omega))
  have lower : start + 8 + 1 + max align maxAlign ≤ 2 ^ 47 := by
    unfold userEnd at last
    omega
  apply ends_imp (formatBlock_ends alignment lower fits)
  rintro _ _ ⟨formatted, _, rfl, outside⟩
  refine ⟨start, more.congr rfl rfl more.spare, fun byte covered => ?_, formatted, enough⟩
  have apart : byte < start ∨ start + 8 + max align maxAlign ≤ byte := by
    by_contra inside
    have alone := more.balanced.alone rfl (lotFor_holds (show start ≤ byte by omega) (by omega))
    omega
  exact (outside byte apart).trans (keeps byte covered)

/-! ## Live blocks -/

/-- A block that was given out: the caller's address, the size that was asked for last, and what
its header says. -/
structure Block where
  ptr : Nat
  size : Nat
  start : Nat
  totalSize : Nat
  deriving DecidableEq

open Block

def Block.lot (block : Block) : Lot := lotFor block.start block.totalSize

def blockAt (memory : Memory) (ptr size : Nat) : Block :=
  ⟨ptr, size, (readHeader memory ptr).1, (readHeader memory ptr).2⟩

structure BlockSound (memory : Memory) (block : Block) : Prop where
  asked : 0 < block.size
  formatted : Formatted memory block.start block.totalSize maxAlign block.ptr
  within : block.ptr + block.size ≤ block.start + block.totalSize
  enough : block.totalSize ≤ block.lot.size

structure Sound (live : List Block) (heap : Heap) : Prop where
  books : Books (live.map lot) heap
  blocks : ∀ block ∈ live, BlockSound heap.memory block

variable {memory : Memory} {block : Block} {live others : List Block}

section

variable (sound : BlockSound memory block)
include sound

theorem BlockSound.readHeader : readHeader memory block.ptr = (block.start, block.totalSize) :=
  sound.formatted.readHeader (by decide)

theorem BlockSound.blockAt : blockAt memory block.ptr block.size = block := by
  rw [UserHeapBlocks.blockAt, sound.readHeader]

theorem BlockSound.holds (above : block.start ≤ byte) (below : byte < block.ptr + block.size) :
    (Lot.area block.lot).Holds byte := by
  have within := sound.within
  have enough : block.totalSize ≤ (lotFor block.start block.totalSize).size := sound.enough
  exact lotFor_holds above (by omega)

theorem BlockSound.covered (listed : block ∈ live) (above : block.start ≤ byte)
    (below : byte < block.ptr + block.size) : 0 < covers ((live.map lot).map Lot.area) byte :=
  covers_pos (mem_map_of_mem (mem_map_of_mem listed)) (sound.holds above below)

end

theorem BlockSound.keeps {after : Heap} (sound : BlockSound heap.memory block)
    (listed : block ∈ live)
    (keeps : Keeps (live.map lot) heap after) : BlockSound after.memory block := by
  refine ⟨sound.asked, sound.formatted.congr fun byte above _ => ?_, sound.within, sound.enough⟩
  exact keeps byte (sound.covered listed above (by omega))

theorem Sound.perm (sound : Sound live heap) (perm : live.Perm others) : Sound others heap :=
  ⟨sound.books.perm (perm.map lot), fun block listed =>
    sound.blocks block (perm.mem_iff.mpr listed)⟩

theorem Sound.apart (sound : Sound (block :: others) heap) :
    ∀ other ∈ others, Area.Apart ⟨block.ptr, block.size⟩ ⟨other.ptr, other.size⟩ := by
  intro other listed
  have blockSound := sound.blocks block mem_cons_self
  have otherSound := sound.blocks other (mem_cons_of_mem _ listed)
  have behind := blockSound.formatted.behind
  have otherBehind := otherSound.formatted.behind
  have asked := blockSound.asked
  have otherAsked := otherSound.asked
  by_contra overlap
  have both : block.ptr ≤ max block.ptr other.ptr ∧ max block.ptr other.ptr <
      block.ptr + block.size ∧
      other.ptr ≤ max block.ptr other.ptr ∧ max block.ptr other.ptr < other.ptr + other.size := by
    unfold Area.Apart at overlap
    dsimp only at overlap
    omega
  have alone := sound.books.balanced.alone rfl (blockSound.holds (by omega) both.2.1)
  have covered := otherSound.covered listed (by omega) both.2.2.2
  omega

theorem Sound.overwrite (sound : Sound (block :: others) heap)
    (same : ∀ byte, byte < block.ptr ∨ block.ptr + block.size ≤ byte →
      memory byte = heap.memory byte) :
    Sound (block :: others) { heap with memory := memory } := by
  have blockSound := sound.blocks block mem_cons_self
  have behind := blockSound.formatted.behind
  refine ⟨sound.books.congr rfl rfl sound.books.spare, forall_mem_cons.mpr ⟨⟨blockSound.asked,
    blockSound.formatted.congr fun byte _ below => same byte (.inl below), blockSound.within,
    blockSound.enough⟩, fun other listed => ?_⟩⟩
  apply (sound.blocks other (mem_cons_of_mem _ listed)).keeps listed
  intro byte _
  apply same
  by_contra inside
  have alone := sound.books.balanced.alone rfl (blockSound.holds (show block.start ≤ byte by omega)
      (by omega))
  omega

theorem Provided.sound {after : Heap} (sound : Sound live heap) (asked : 0 < reqSize)
    (provided : Provided (live.map lot) reqSize 1 heap ptr after start) :
    blockAt after.memory ptr reqSize = ⟨ptr, reqSize, start, reqSize + 24⟩ ∧
    Sound (blockAt after.memory ptr reqSize :: live) after := by
  have formatted : Formatted after.memory start (reqSize + 24) maxAlign ptr := provided.formatted
  have near : ptr ≤ start + 8 + 16 := formatted.near
  have isBlock : blockAt after.memory ptr reqSize = ⟨ptr, reqSize, start, reqSize + 24⟩ := by
    rw [blockAt, formatted.readHeader (by decide)]
  rw [isBlock]
  refine ⟨rfl, provided.books, forall_mem_cons.mpr ⟨⟨asked, formatted, ?_, provided.enough⟩, ?_⟩⟩
  · show ptr + reqSize ≤ start + (reqSize + 24)
    omega
  · exact fun other listed => (sound.blocks other listed).keeps listed provided.keeps

/-! ## `deallocate` -/

theorem deallocate_ends (books : Books (block.lot :: lots) heap)
    (sound : BlockSound heap.memory block) :
    Ends (deallocate block.ptr) heap (fun _ after => Books lots after ∧ after.memory = heap.memory)
      (fun _ =>
    False) := by
  have behind := sound.formatted.behind
  have within := sound.within
  have lotSound := books.lots block.lot mem_cons_self
  unfold deallocate
  rw [if_neg (by omega)]
  apply ends_get
  rw [sound.readHeader]
  dsimp only
  apply check_then (by omega)
  by_cases large : pageSize ≤ block.totalSize
  · have source : block.lot.bucket = none := by rw [lot, lotFor_large large]
    have aligned := (lotSound.run source).2
    rw [lot, lotFor_start] at aligned
    rw [if_pos large, check, if_pos aligned]
    exact ends_pure _ ⟨books.abandon source, rfl⟩
  · rw [if_neg large]
    obtain ⟨idx, found⟩ := getFittingBucket_exists (le_of_not_ge large)
    have source : block.lot.bucket = some idx := by rw [lot, lotFor_small large found]
    have ends := returnChunk_ends books source found
    rwa [lot, lotFor_start] at ends

/-! ## `reallocate` -/

/-- The new size stays within what the header accounts for, or is too large for the chunk. -/
def Fits (block : Block) (size : Nat) : Prop :=
  if size ≤ block.totalSize then block.ptr + size ≤ block.start + block.totalSize
  else size + 24 < 2 ^ 64 ∧ (block.totalSize < pageSize → block.lot.size < size + 9)
  deriving Decidable

structure Resized (others : List Block) (block : Block) (size : Nat) (before : Heap) (ptr : Nat)
    (after : Heap) :
    Prop where
  sound : Sound (blockAt after.memory ptr size :: others) after
  contents : ∀ i < min block.size size, after.memory (ptr + i) = before.memory (block.ptr + i)
  keeps : Keeps (others.map lot) before after

theorem moveBlock_ends (sound : Sound (block :: others) heap) (larger : block.totalSize < reqSize)
    (fits : reqSize + 24 < 2 ^ 64) :
    Ends (moveBlock block.ptr (block.start + block.totalSize - block.ptr) reqSize 1) heap
      (fun ptr after =>
    Resized others block reqSize heap ptr after) OutOfMemory := by
  have blockSound := sound.blocks block mem_cons_self
  have behind := blockSound.formatted.behind
  have within := blockSound.within
  apply ends_seq (allocate_ends sound.books (by omega) ⟨0, by decide, rfl⟩ fits)
  rintro ptr middle ⟨start, provided⟩
  have ⟨isBlock, soundMiddle⟩ := provided.sound sound (by omega)
  rw [isBlock] at soundMiddle
  have newSound := soundMiddle.blocks _ mem_cons_self
  have newWithin : ptr + reqSize ≤ start + (reqSize + 24) := newSound.within
  have newBehind : start + 8 < ptr := newSound.formatted.behind
  apply ends_get
  apply ends_put
  -- the bytes that are copied over are the caller's bytes of the new block
  have outside : ∀ byte, byte < ptr ∨ ptr + reqSize ≤ byte →
      copy middle.memory ptr block.ptr (block.start + block.totalSize - block.ptr) byte =
        middle.memory byte :=
    fun byte _ => if_neg (by omega)
  have copied : Keeps ((block :: others).map lot) middle { middle with
      memory := copy middle.memory ptr block.ptr (block.start + block.totalSize - block.ptr) } := by
    intro byte covered
    apply outside
    by_contra inside
    have alone := soundMiddle.books.balanced.alone rfl
      (newSound.holds (show start ≤ byte by omega) (show byte < ptr + reqSize by omega))
    exact absurd covered (by omega)
  have swapped : Books (block.lot :: lotFor start (reqSize + 24) :: others.map lot) { middle with
      memory := copy middle.memory ptr block.ptr (block.start + block.totalSize - block.ptr) } :=
    (soundMiddle.books.perm (.swap _ _ _)).congr rfl rfl soundMiddle.books.spare
  have oldSound := (soundMiddle.blocks block (mem_cons_of_mem _ mem_cons_self)).keeps
      mem_cons_self copied
  apply ends_call (deallocate_ends swapped oldSound)
  · exact fun _ impossible => impossible.elim
  rintro _ after ⟨books, memory⟩
  apply ends_pure
  have newFormatted : BlockSound after.memory ⟨ptr, reqSize, start, reqSize + 24⟩ := by
    rw [memory]
    exact ⟨newSound.asked, newSound.formatted.congr fun byte _ below => outside byte (.inl below),
      newSound.within, newSound.enough⟩
  have keeps : Keeps ((block :: others).map lot) heap after := by
    intro byte covered
    rw [memory]
    exact (copied byte covered).trans (provided.keeps byte covered)
  have isNew : blockAt after.memory ptr reqSize = ⟨ptr, reqSize, start, reqSize + 24⟩ :=
    newFormatted.blockAt
  refine ⟨?_, ?_, fun byte _ => keeps byte ?_⟩
  · rw [isNew]
    refine ⟨books, forall_mem_cons.mpr ⟨newFormatted, fun other listed => ?_⟩⟩
    exact (sound.blocks other (mem_cons_of_mem _ listed)).keeps (mem_cons_of_mem _ listed) keeps
  · intro i _
    rw [memory]
    show copy middle.memory ptr block.ptr (block.start + block.totalSize - block.ptr) (ptr + i) = _
    rw [copy, if_pos (by omega), Nat.add_sub_cancel_left]
    exact provided.keeps _ (blockSound.covered mem_cons_self (by omega) (by omega))
  · rw [map_cons, map_cons, covers_cons]
    omega

theorem realloc_ends (sound : Sound (block :: others) heap) {size : Nat} (asked : 0 < size)
    (fits : Fits block size) :
    Ends (realloc block.ptr size) heap (fun ptr after => Resized others block size heap ptr after)
      OutOfMemory := by
  have blockSound := sound.blocks block mem_cons_self
  have behind := blockSound.formatted.behind
  have within := blockSound.within
  have enough : block.totalSize ≤ (lotFor block.start block.totalSize).size := blockSound.enough
  have ⟨_, last⟩ := sound.books.user mem_cons_self
    (lotFor_holds (show block.start ≤ block.start + block.totalSize - 1 by omega) (by omega))
  have bounded : block.totalSize < 2 ^ 64 := by
    unfold userEnd at last
    omega
  have real : (block.totalSize + 2 ^ 64 - (block.ptr - block.start)) % 2 ^ 64 =
      block.start + block.totalSize - block.ptr := by omega
  unfold realloc reallocate
  rw [if_neg (by omega)]
  apply ends_get
  rw [blockSound.readHeader]
  dsimp only
  rw [real]
  unfold Fits at fits
  by_cases keep : size ≤ block.totalSize
  · rw [if_pos keep] at fits ⊢
    apply ends_pure
    have kept : BlockSound heap.memory ⟨block.ptr, size, block.start, block.totalSize⟩ :=
      ⟨asked, blockSound.formatted, fits, blockSound.enough⟩
    have isBlock : blockAt heap.memory block.ptr size =
        ⟨block.ptr, size, block.start, block.totalSize⟩ := kept.blockAt
    refine ⟨?_, fun _ _ => rfl, fun _ _ => rfl⟩
    rw [isBlock]
    exact ⟨sound.books, forall_mem_cons.mpr ⟨kept, fun other listed =>
      sound.blocks other (mem_cons_of_mem _ listed)⟩⟩
  · rw [if_neg keep] at fits ⊢
    have moves := moveBlock_ends sound (not_le.mp keep) fits.1
    by_cases large : pageSize ≤ block.totalSize
    · rw [if_pos large]
      exact moves
    · rw [if_neg large]
      obtain ⟨idx, found⟩ := getFittingBucket_exists (le_of_not_ge large)
      have small := fits.2 (not_le.mp large)
      rw [lot, lotFor_small large found] at small
      change bucketSize idx < size + 9 at small
      rw [found]
      dsimp only
      rw [sound.books.sized, if_neg (by omega)]
      exact moves

end Nx.UserHeapBlocks
