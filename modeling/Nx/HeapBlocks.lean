import Nx.HeapLayout

/-!
`allocate` and `deallocate` of the kernel heap.
-/

namespace Nx.HeapBlocks

open Bytes Outcomes KernelHeap HeapAccounts HeapLayout List
open Lot (area)

variable {lots : List Lot} {heap : Heap}

/-! ## Choosing a bucket -/

variable {size totalSize align reqSize byte : Nat} {idx : BucketIdx} {block : Block} {lot : Lot}
  {live : List Block}

theorem getFittingBucket_le (found : getFittingBucket size = some idx) : size ≤ bucketSize idx := by
  have accepted := find?_some found
  simpa using accepted

theorem getFittingBucket_exists (small : size ≤ pageSize) :
    ∃ idx, getFittingBucket size = some idx := by
  have last : size ≤ bucketSize 15 := small
  apply Option.isSome_iff_exists.mp
  rw [getFittingBucket, find?_isSome]
  exact ⟨15, mem_finRange 15, by simpa using last⟩

theorem bucket_reachable : ∀ idx : BucketIdx, 33 ≤ bucketSize idx → 2 ≤ idx.val := by decide

theorem bucket_coarse : ∀ idx : BucketIdx, 257 ≤ bucketSize idx → 8 ≤ idx.val := by decide

/-! ## Taking memory -/

theorem owners_cons (lot : Lot) (lots : List Lot) (heap : Heap) (byte : Nat) :
    owners (lot :: lots) heap byte = owners lots heap byte + one (area lot) byte := by
  rw [owners, owners, map_cons, covers_cons]
  omega

def handedOut (bucket : Bucket) (rest : List Chunk) : Bucket :=
  { bucket with
    freeChunks := rest
    numFreeChunks := bucket.numFreeChunks - 1
    usedChunks := ⟨0⟩ :: bucket.usedChunks
    numUsedChunks := bucket.numUsedChunks + 1 }

section

variable (accounts : Accounts lots heap)
include accounts

theorem handOut_accounts (free : (heap.buckets idx).freeChunks = chunk :: rest) :
    Accounts (⟨chunk.memory, some idx, bucketSize idx⟩ :: lots)
    (heap.setBucket idx (handedOut (heap.buckets idx) rest)) := by
  have freeCount := accounts.freeCount idx
  rw [free, length_cons] at freeCount
  apply accounts.setBucket
  · show (heap.buckets idx).numFreeChunks - 1 = rest.length
    omega
  · show (heap.buckets idx).numUsedChunks + 1 = _
    rw [accounts.usedCount]
    rfl
  · show (heap.buckets idx).usedChunks.length + 1 = _
    rw [accounts.held]
    simp
  · intro other different
    simp [Ne.symm different]
  · intro byte
    rw [← owners_ledger, ledger_setBucket]
    exact (accounts.balances.handOut (congrArg (map Chunk.memory) free)).owned byte
  · intro high other listed
    apply accounts.coarse idx high
    rw [free]
    exact mem_cons_of_mem _ listed
  · refine forall_mem_cons.mpr ⟨⟨?_, by simp⟩, accounts.lots⟩
    intro _ same
    cases same
    refine ⟨rfl, fun high => accounts.coarse idx high chunk ?_⟩
    rw [free]
    exact mem_cons_self

theorem giveRun_accounts (fresh : Fresh heap.runs base num) (rest : List Nat) :
    Accounts (⟨base, none, 4096 * num⟩ :: lots) (granted heap rest base num) := by
  have books := accounts.granted fresh rest
  refine ⟨books.freeCount, books.usedCount, books.spareCount, ?_, ?_, books.single, books.ranged,
    books.coarse, forall_mem_cons.mpr ⟨⟨by simp, fun _ => ?_⟩, books.lots⟩⟩
  · intro _
    rw [books.held]
    simp
  · intro byte
    rw [← owners_ledger]
    exact (accounts.balances.grantGiven (covers_eq_zero_of_apart fresh.clear)).owned byte
  · have nonempty := fresh.nonempty
    exact ⟨mem_cons_self, by show 0 < 4096 * num; omega⟩

variable (sized : Sized heap) (unlocked : heap.expansionLock = false)
include sized unlocked

theorem awaitChunks_ends (reachable : 2 ≤ idx.val) :
    Ends (awaitChunks idx 2) heap (fun _ after => Accounts lots after ∧
    Sized after ∧ after.expansionLock = false ∧ 0 < (after.buckets idx).numFreeChunks ∧
      Keeps lots heap after)
    (fun failure => failure = .noPages ∧ ¬ Answered heap expansionFactor) := by
  apply ends_get
  by_cases empty : (heap.buckets idx).numFreeChunks = 0
  · rw [if_pos empty]
    apply ends_seq (expandBucket_ends accounts sized unlocked reachable)
    rintro _ _ ⟨books, sizedAfter, unlockedAfter, some, keeps⟩
    apply ends_get
    rw [if_neg (by omega)]
    exact ends_pure _ ⟨books, sizedAfter, unlockedAfter, some, keeps⟩
  · rw [if_neg empty]
    exact ends_pure _ ⟨accounts, sized, unlocked, Nat.pos_of_ne_zero empty, fun _ _ => rfl⟩

theorem takeChunk_ends (reachable : 2 ≤ idx.val) : Ends (takeChunk idx) heap (fun start after =>
    Accounts (⟨start, some idx, bucketSize idx⟩ :: lots) after ∧ Sized after ∧
      after.expansionLock = false ∧
    Keeps lots heap after) (fun failure => failure = .noPages ∧
      ¬ Answered heap expansionFactor) := by
  apply ends_seq (awaitChunks_ends accounts sized unlocked reachable)
  rintro _ ready ⟨books, sizedReady, unlockedReady, some, keeps⟩
  apply ends_get
  apply ends_seq (ends_check some)
  rintro _ ready rfl
  cases free : (ready.buckets idx).freeChunks with
  | nil =>
    have count := books.freeCount idx
    rw [free, length_nil] at count
    omega
  | cons =>
    apply ends_put
    refine ends_pure _ ⟨handOut_accounts books free, ?_, unlockedReady, keeps⟩
    intro other
    by_cases same : other = idx
    · rw [same, setBucket_same]
      exact sizedReady idx
    · rw [setBucket_other _ _ same]
      exact sizedReady other

def pagesAsked (totalSize : Nat) : Nat :=
  if pageSize ≤ totalSize then pagesFor totalSize else expansionFactor

structure Origin (totalSize : Nat) (lot : Lot) : Prop where
  bucket : lot.bucket = if pageSize ≤ totalSize then none else getFittingBucket totalSize
  run : lot.bucket = none → lot.size = 4096 * pagesFor totalSize
  enough : totalSize ≤ lot.size

theorem obtainMemory_ends (least : 33 ≤ totalSize) (bounded : totalSize < 2 ^ 64) :
    Ends (obtainMemory totalSize) heap
    (fun lot after => Accounts (lot :: lots) after ∧ Sized after ∧ after.expansionLock = false ∧
      Keeps lots heap after ∧
    Origin totalSize lot) (fun failure => failure = .noPages ∧
      ¬ Answered heap (pagesAsked totalSize)) := by
  unfold obtainMemory pagesAsked
  by_cases large : pageSize ≤ totalSize
  · rw [if_pos large, if_pos large]
    apply ends_call (internalAllocatePages_ends heap (pagesFor totalSize))
    · rintro _ ⟨rfl, denied⟩
      exact ⟨rfl, Denied.not_answered denied⟩
    rintro start _ ⟨fresh, rest, _, rfl⟩
    refine ends_pure _ ⟨giveRun_accounts accounts fresh rest, sized, unlocked,
      accounts.keeps_granted fresh rest, by simp [large], fun _ => rfl, ?_⟩
    -- a sum that wrapped would leave no page to ask for
    have pages := fresh.nonempty
    show totalSize ≤ 4096 * pagesFor totalSize
    unfold pagesFor pageSize at *
    omega
  · rw [if_neg large, if_neg large]
    obtain ⟨idx, found⟩ := getFittingBucket_exists (le_of_not_ge large)
    have fits := getFittingBucket_le found
    have reachable := bucket_reachable idx (least.trans fits)
    simp only [found]
    apply ends_get
    rw [sized idx, if_neg (not_lt.mpr fits)]
    apply ends_seq (ends_check fits)
    rintro _ _ rfl
    apply ends_seq (takeChunk_ends accounts sized unlocked reachable)
    rintro _ _ ⟨books, sizedAfter, unlockedAfter, keeps⟩
    exact ends_pure _ ⟨books, sizedAfter, unlockedAfter, keeps,
      by simp [large, found], by simp, fits⟩

end

/-! ## The header of a block -/

theorem alignUp_eq (fits : ptr + (2 ^ k - 1) < 2 ^ 64) :
    alignUp ptr (2 ^ k) = (ptr + (2 ^ k - 1)) / 2 ^ k * 2 ^ k := by
  have mask : 2 ^ 64 - 1 - (2 ^ k - 1) = 2 ^ 64 - (2 ^ k - 1 + 1) := by omega
  rw [alignUp, Nat.mod_eq_of_lt fits, mask, ← Nat.shiftRight_eq_div_pow, ← Nat.shiftLeft_eq]
  have smaller : 2 ^ k - 1 < 2 ^ 64 := by omega
  generalize ptr + (2 ^ k - 1) = sum at fits
  apply Nat.eq_of_testBit_eq
  intro i
  rw [Nat.testBit_and, Nat.testBit_two_pow_sub_succ smaller, Nat.testBit_two_pow_sub_one,
    Nat.testBit_shiftLeft, Nat.testBit_shiftRight]
  by_cases low : i < k
  · simp [low]
  · by_cases high : i < 64
    · simp [low, high, not_lt.mp low]
    · have none : sum.testBit i = false := by
        apply Nat.testBit_lt_two_pow
        exact lt_of_lt_of_le fits (Nat.pow_le_pow_right (by decide) (not_lt.mp high))
      simp [low, none, not_lt.mp low]

def Alignment (align : Nat) : Prop := ∃ k, 4 ≤ k ∧ k ≤ 8 ∧ align = 2 ^ k

theorem alignUp_spec (alignment : Alignment align) (fits : ptr + align ≤ 2 ^ 64) :
    alignUp ptr align % align = 0 ∧ ptr ≤ alignUp ptr align ∧ alignUp ptr align < ptr + align := by
  obtain ⟨k, _, _, rfl⟩ := alignment
  have positive : 0 < 2 ^ k := Nat.two_pow_pos k
  rw [alignUp_eq (by omega)]
  refine ⟨Nat.mul_mod_left _ _, ?_⟩
  have whole := Nat.div_add_mod' (ptr + (2 ^ k - 1)) (2 ^ k)
  omega

theorem offset_bounds (alignment : Alignment align) (coarse : align = 256 → start % 128 = 0)
    (fits : start + 16 + 1 + align ≤ 2 ^ 64) : alignUp (start + 16 + 1) align % align = 0 ∧
    start + 16 < alignUp (start + 16 + 1) align ∧ alignUp (start + 16 + 1) align ≤
      start + 16 + align ∧
    alignUp (start + 16 + 1) align - (start + 16) < 256 := by
  obtain ⟨aligned, _, below⟩ := alignUp_spec alignment fits
  refine ⟨aligned, by omega, by omega, ?_⟩
  by_cases most : align = 256
  · have even := coarse most
    rw [most] at aligned below ⊢
    omega
  · obtain ⟨k, _, _, rfl⟩ := alignment
    have half : 2 ^ k ≤ 2 ^ 7 := by
      apply Nat.pow_le_pow_right (by decide)
      by_contra large
      have last : k = 8 := by omega
      exact most (by rw [last]; rfl)
    omega

theorem formatBlock_spec (memory : Memory) (alignment : Alignment align)
    (coarse : align = 256 → start % 128 = 0)
    (total : totalSize = reqSize + align + 16) (fits : start + totalSize < 2 ^ 64)
      (asked : 0 < reqSize) {after}
    (format : formatBlock memory start totalSize align reqSize caller = (ret, after)) :
      ret % align = 0 ∧
    start + 16 < ret ∧ ret + reqSize ≤ start + totalSize ∧ (after (ret - 1)).toNat =
      ret - (start + 16) ∧
    load after (start + 8) = totalSize ∧ ∀ byte, byte < start ∨ start + totalSize ≤ byte →
    after byte = memory byte := by
  obtain ⟨aligned, above, below, small⟩ := offset_bounds alignment coarse (by omega)
  simp only [formatBlock, alignTheMemory, Prod.mk.injEq] at format
  obtain ⟨retDef, rfl⟩ := format
  rw [retDef] at aligned above below small ⊢
  refine ⟨aligned, above, by omega, ?_, ?_, ?_⟩
  · rw [fill_outside (by omega), Function.update_self, BitVec.toNat_ofNat]
    exact Nat.mod_eq_of_lt small
  · have stored : load (store (store memory start caller) (start + 8) totalSize) (start + 8) =
        totalSize := load_store (by omega)
    refine Eq.trans (load_congr ?_) stored
    intro i _
    rw [fill_outside (by omega), Function.update_of_ne (by omega)]
  · intro _ _
    rw [fill_outside (by omega), Function.update_of_ne (by omega), store_outside (by omega),
      store_outside (by omega)]

structure BlockSound (memory : Memory) (block : Block) : Prop where
  asked : 0 < block.reqSize
  aligned : block.ptr % block.align = 0
  behind : block.lot.start + 16 < block.ptr
  within : block.ptr + block.reqSize ≤ block.lot.start + block.lot.size
  offset : (memory (block.ptr - 1)).toNat = block.ptr - (block.lot.start + 16)
  size : load memory (block.lot.start + 8) = block.totalSize
  least : 33 ≤ block.totalSize
  origin : Origin block.totalSize block.lot

theorem BlockSound.readHeader (sound : BlockSound memory block) :
    readHeader memory block.ptr = (block.lot.start, block.totalSize) := by
  have behind := sound.behind
  have back : block.ptr - (block.ptr - (block.lot.start + 16)) - 8 = block.lot.start + 8 := by omega
  simp only [KernelHeap.readHeader, sound.offset, back, sound.size]
  rfl

theorem BlockSound.congr {before after} (sound : BlockSound before block)
    (same : ∀ byte, (area block.lot).Holds byte →
    byte < block.ptr → after byte = before byte) : BlockSound after block := by
  have asked := sound.asked
  have behind := sound.behind
  have within := sound.within
  have kept : ∀ byte, block.lot.start ≤ byte → byte < block.ptr → after byte = before byte := by
    intro byte above below
    exact same byte ⟨above, (by omega : byte < block.lot.start + block.lot.size)⟩ below
  refine ⟨asked, sound.aligned, behind, within, ?_, ?_, sound.least, sound.origin⟩
  · rw [kept _ (by omega) (by omega)]
    exact sound.offset
  · refine Eq.trans (load_congr ?_) sound.size
    intro i _
    exact kept _ (by omega) (by omega)

structure Sound (live : List Block) (heap : Heap) : Prop where
  accounts : Accounts (live.map Block.lot) heap
  sized : Sized heap
  unlocked : heap.expansionLock = false
  blocks : ∀ block ∈ live, BlockSound heap.memory block

theorem lot_exclusive (accounts : Accounts (lot :: lots) heap) (held : (area lot).Holds byte) :
    covers (lots.map area) byte = 0 :=
  accounts.balances.alone rfl held

theorem lot_covered (listed : block ∈ live) (held : (area block.lot).Holds byte) :
    0 < covers ((live.map Block.lot).map area) byte :=
  covers_pos (mem_map_of_mem (mem_map_of_mem listed)) held

theorem lot_in_run (accounts : Accounts lots heap) (listed : lot ∈ lots)
    (held : (area lot).Holds byte) : ∃ run ∈ heap.runs, run.Holds byte :=
  accounts.balances.in_run (mem_map_of_mem listed) held

theorem lot_ranged (accounts : Accounts lots heap) (listed : lot ∈ lots)
    (held : (area lot).Holds byte) : heapBase ≤ byte ∧ byte < heapEnd := by
  obtain ⟨run, listedRun, inside⟩ := lot_in_run accounts listed held
  obtain ⟨_, _, _⟩ := accounts.ranged run listedRun
  unfold Area.Holds at inside
  omega

/-! ## `allocate` -/

theorem alignment_of_power (power : ∃ k ≤ 8, align = 2 ^ k) : Alignment (max align maxAlign) := by
  obtain ⟨k, _, rfl⟩ := power
  refine ⟨max k 4, by omega, by omega, ?_⟩
  rcases le_total k 4 with low | high
  · have below : 2 ^ k ≤ 2 ^ 4 := Nat.pow_le_pow_right (by decide) low
    rw [max_eq_right low]
    exact max_eq_right below
  · have above : 2 ^ 4 ≤ 2 ^ k := Nat.pow_le_pow_right (by decide) high
    rw [max_eq_left high]
    exact max_eq_left above

theorem Alignment.checks (alignment : Alignment align) :
    align &&& (align - 1) = 0 ∧ 16 ≤ align ∧ align ≤ 256 := by
  obtain ⟨k, low, high, rfl⟩ := alignment
  have above : 2 ^ 4 ≤ 2 ^ k := Nat.pow_le_pow_right (by decide) low
  have below : 2 ^ k ≤ 2 ^ 8 := Nat.pow_le_pow_right (by decide) high
  refine ⟨?_, above, below⟩
  rw [Nat.and_two_pow_sub_one_eq_mod, Nat.mod_self]

theorem lot_coarse (accounts : Accounts (lot :: lots) heap) (origin : Origin totalSize lot)
    (large : 257 ≤ totalSize) : lot.start % 128 = 0 := by
  have sound := accounts.lots lot mem_cons_self
  have enough := origin.enough
  cases from_ : lot.bucket with
  | some idx =>
    obtain ⟨_, coarse⟩ := sound.chunk idx from_
    exact coarse (bucket_coarse idx (by omega))
  | none =>
    obtain ⟨listed, _⟩ := sound.run from_
    have aligned : lot.start % 4096 = 0 := (accounts.ranged _ listed).1
    omega

theorem Sound.format (sound : Sound live heap) (books : Accounts (lot :: live.map Block.lot) middle)
    (sized : Sized middle) (unlocked : middle.expansionLock = false)
      (keeps : Keeps (live.map Block.lot) heap middle)
    {caller count ret} (asked : 0 < reqSize) (alignment : Alignment align)
      (total : totalSize = reqSize + align + 16)
    (origin : Origin totalSize lot)
    (format : formatBlock middle.memory lot.start totalSize align reqSize caller = (ret, memory)) :
    Sound (⟨ret, reqSize, align, totalSize, lot⟩ :: live)
    { middle with memory := memory, allocatedByteCount := count } := by
  obtain ⟨_, _, _⟩ := alignment.checks
  have enough := origin.enough
  have inLot : (area lot).Holds (lot.start + totalSize - 1) :=
    ⟨(by omega : lot.start ≤ _), (by omega : _ < lot.start + lot.size)⟩
  have last := (lot_ranged books mem_cons_self inLot).2
  have coarse : align = 256 → lot.start % 128 = 0 := fun _ =>
    lot_coarse books origin (by omega)
  obtain ⟨aligned, behind, _, offset, size, others⟩ := formatBlock_spec middle.memory alignment
    coarse total (by unfold heapEnd at last; omega) asked format
  refine ⟨books.congr rfl rfl books.spareCount, sized, unlocked, forall_mem_cons.mpr
    ⟨⟨asked, aligned, behind, ?_, offset, size, ?_, origin⟩, ?_⟩⟩
  · show ret + reqSize ≤ lot.start + lot.size
    omega
  · show 33 ≤ totalSize
    omega
  · intro block listed
    apply (sound.blocks block listed).congr
    intro byte held _
    have covered := lot_covered listed held
    have outside : byte < lot.start ∨ lot.start + totalSize ≤ byte := by
      by_contra inside
      have inNew : (area lot).Holds byte :=
        ⟨(by omega : lot.start ≤ byte), (by omega : byte < lot.start + lot.size)⟩
      have alone := lot_exclusive books inNew
      omega
    exact (others byte outside).trans (keeps byte covered)

theorem allocate_ends (sound : Sound live heap) (caller : Nat) (asked : 0 < reqSize)
    (power : ∃ k ≤ 8, align = 2 ^ k)
    (fits : reqSize + (max align maxAlign + 16) < 2 ^ 64) :
      Ends (allocate reqSize align caller) heap
    (fun result after => ∃ block, result = some block ∧ block.reqSize = reqSize ∧
      block.align = max align maxAlign ∧
    block.totalSize = reqSize + (max align maxAlign + 16) ∧ Sound (block :: live) after)
      (fun failure =>
    failure = .noPages ∧ ¬ Answered heap (pagesAsked (reqSize + (max align maxAlign + 16)))) := by
  have alignment := alignment_of_power power
  obtain ⟨bits, _, most⟩ := alignment.checks
  have total : (reqSize + (8 + 1 + (max align maxAlign - 1) + 8)) % 2 ^ 64 = reqSize +
      (max align maxAlign + 16) := by
    rw [Nat.mod_eq_of_lt] <;> omega
  unfold allocate
  rw [if_neg (by omega)]
  apply ends_seq (ends_check bits)
  rintro _ _ rfl
  apply ends_seq (ends_check most)
  rintro _ _ rfl
  simp only [total]
  apply ends_seq (obtainMemory_ends sound.accounts sound.sized sound.unlocked (by omega) fits)
  rintro lot middle ⟨books, sized, unlocked, keeps, origin⟩
  apply ends_get
  cases format : formatBlock middle.memory lot.start (reqSize + (max align maxAlign + 16))
    (max align maxAlign) reqSize caller with
  | mk =>
    apply ends_put
    exact ends_pure _ ⟨_, rfl, rfl, rfl, rfl, Sound.format sound books sized unlocked keeps asked
      alignment (by omega) origin format⟩

/-! ## `deallocate` -/

theorem accounts_perm (accounts : Accounts lots heap) (perm : lots.Perm others) :
    Accounts others heap := by
  refine ⟨accounts.freeCount, accounts.usedCount, accounts.spareCount, ?_, ?_, accounts.single,
    accounts.ranged, accounts.coarse, fun lot listed => accounts.lots lot (perm.mem_iff.mpr listed)⟩
  · intro _
    rw [accounts.held, perm.countP_eq]
  · intro byte
    have owned := accounts.owned byte
    rwa [owners, covers_perm (perm.map area)] at owned

theorem Sound.perm (sound : Sound live heap) (perm : live.Perm others) : Sound others heap :=
  ⟨accounts_perm sound.accounts (perm.map Block.lot), sound.sized, sound.unlocked,
    fun block listed => sound.blocks block (perm.mem_iff.mpr listed)⟩

def takenBack (bucket : Bucket) (rest : List Chunk) (addr : Nat) : Bucket :=
  { bucket with
    freeChunks := ⟨addr⟩ :: bucket.freeChunks
    numFreeChunks := bucket.numFreeChunks + 1
    usedChunks := rest
    numUsedChunks := bucket.numUsedChunks - 1 }

def returned (heap : Heap) (idx : BucketIdx) (rest : List Chunk) (addr : Nat) : Heap :=
  let bucket := heap.buckets idx
  let poorer := heap.setBucket idx { bucket with
    usedChunks := rest
    numUsedChunks := bucket.numUsedChunks - 1 }
  { poorer with memory := fill heap.memory addr bucket.chunkSize deallocatedFill }.addFreeChunk idx
    addr

theorem returned_buckets (heap : Heap) (idx : BucketIdx) (rest : List Chunk) (addr : Nat) :
    (returned heap idx rest addr).buckets = (heap.setBucket idx
      (takenBack (heap.buckets idx) rest addr)).buckets := by
  simp [returned, Heap.addFreeChunk, Heap.setBucket, takenBack]

section

variable (accounts : Accounts (lot :: lots) heap)
include accounts

theorem takeBack_accounts (source : lot.bucket = some idx) (used : (heap.buckets idx).usedChunks =
    chunk :: rest) :
    Accounts lots (heap.setBucket idx (takenBack (heap.buckets idx) rest lot.start)) := by
  obtain ⟨size, coarse⟩ := (accounts.lots lot mem_cons_self).chunk idx source
  have usedCount := accounts.usedCount idx
  rw [used, length_cons] at usedCount
  apply accounts.setBucket
  · show (heap.buckets idx).numFreeChunks + 1 = _
    rw [accounts.freeCount]
    rfl
  · show (heap.buckets idx).numUsedChunks - 1 = rest.length
    omega
  · have held := accounts.held idx
    rw [used, length_cons, countP_cons_of_pos (by simpa using source)] at held
    exact Nat.succ.inj held
  · intro other different
    rw [countP_cons_of_neg]
    simpa [source] using Ne.symm different
  · intro byte
    have balanced := accounts.balances
    rw [ledger, map_cons, area, size] at balanced
    rw [← owners_ledger, ledger_setBucket]
    exact (ChunkLedgers.Balances.takeBack (ledger lots heap) balanced).owned byte
  · intro high
    exact forall_mem_cons.mpr ⟨coarse high, accounts.coarse idx high⟩
  · exact fun other listed => accounts.lots other (mem_cons_of_mem _ listed)

theorem freeRun_accounts (source : lot.bucket = none) :
    Accounts lots { heap with runs := heap.runs.erase (area lot) } := by
  obtain ⟨listed, _⟩ := (accounts.lots lot mem_cons_self).run source
  refine ⟨accounts.freeCount, accounts.usedCount, accounts.spareCount, ?_, ?_, ?_, ?_,
    accounts.coarse, ?_⟩
  · intro _
    rw [accounts.held, countP_cons_of_neg (by simp [source])]
  · intro byte
    have owned := accounts.owned byte
    have erased := covers_erase listed byte
    have same : owners lots { heap with runs := heap.runs.erase (area lot) } byte =
        owners lots heap byte := owners_congr rfl byte
    rw [owners_cons] at owned
    rw [same]
    exact (by omega : owners lots heap byte ≤ covers (heap.runs.erase (area lot)) byte)
  · intro byte
    have single := accounts.single byte
    have erased := covers_erase listed byte
    exact (by omega : covers (heap.runs.erase (area lot)) byte ≤ 1)
  · exact fun run left => accounts.ranged run (mem_of_mem_erase left)
  · intro other member
    have sound := accounts.lots other (mem_cons_of_mem _ member)
    refine ⟨sound.chunk, fun none => ⟨?_, (sound.run none).2⟩⟩
    have different : area other ≠ area lot := by
      intro same
      have start : (area lot).Holds lot.start :=
        ⟨le_rfl, (by omega : lot.start < lot.start + lot.size)⟩
      have alone := lot_exclusive accounts start
      have again := covers_pos (mem_map_of_mem member) (same ▸ start)
      omega
    exact (mem_erase_of_ne different).mpr (sound.run none).1

theorem returnChunk_ends (sized : Sized heap) (source : lot.bucket = some idx)
    (fitting : getFittingBucket size = some idx) {failed : Failure → Prop} :
      Ends (returnChunk lot.start size) heap
    (fun _ after => Accounts lots after ∧ Sized after ∧ after.expansionLock = heap.expansionLock ∧
    (∀ byte, ¬ (area lot).Holds byte → after.memory byte = heap.memory byte) ∧
    (after.buckets idx).freeChunks = ⟨lot.start⟩ :: (heap.buckets idx).freeChunks) failed := by
  have usedCount := accounts.usedCount idx
  have some : 0 < (heap.buckets idx).usedChunks.length := by
    rw [accounts.held, countP_cons_of_pos (by simpa using source)]
    exact Nat.succ_pos _
  have lotSize := ((accounts.lots lot mem_cons_self).chunk idx source).1
  unfold returnChunk
  simp only [fitting]
  apply ends_get
  apply ends_seq (ends_check (by omega))
  rintro _ heap rfl
  cases used : (heap.buckets idx).usedChunks with
  | nil =>
    rw [used] at some
    exact absurd some (lt_irrefl 0)
  | cons _ rest =>
    have books := takeBack_accounts accounts source used
    show Ends (set (returned heap idx rest lot.start)) heap _ _
    apply ends_set
    refine ⟨books.congr (returned_buckets heap idx rest lot.start) rfl books.spareCount,
      ?_, rfl, ?_,
      by rw [returned_buckets, setBucket_same]; rfl⟩
    · intro other
      rw [returned_buckets]
      by_cases same : other = idx
      · rw [same, setBucket_same]
        exact sized idx
      · rw [setBucket_other _ _ same]
        exact sized other
    · intro byte outside
      show fill heap.memory lot.start (heap.buckets idx).chunkSize deallocatedFill byte = _
      apply fill_outside
      rw [sized idx, ← lotSize]
      have apart : ¬ (lot.start ≤ byte ∧ byte < lot.start + lot.size) := outside
      omega

end

theorem Sound.remaining {after} (sound : Sound (block :: live) heap)
    (books : Accounts (live.map Block.lot) after)
    (sized : Sized after) (unlocked : after.expansionLock = false)
      (others : ∀ byte, ¬ (area block.lot).Holds byte →
    after.memory byte = heap.memory byte) (count : Nat) :
      Sound live { after with allocatedByteCount := count } := by
  refine ⟨books.congr rfl rfl books.spareCount, sized, unlocked, fun other listed => ?_⟩
  apply (sound.blocks other (mem_cons_of_mem _ listed)).congr
  intro _ held _
  apply others
  intro shared
  have alone := lot_exclusive sound.accounts shared
  have covered := lot_covered listed held
  omega

def GivenBack (lot : Lot) (before after : Heap) : Prop :=
  match lot.bucket with
  | some idx => (after.buckets idx).freeChunks = ⟨lot.start⟩ :: (before.buckets idx).freeChunks
  | none => after.runs = before.runs.erase (area lot)

theorem deallocate_ends (sound : Sound (block :: live) heap) :
    Ends (deallocate block.ptr) heap (fun _ after =>
    Sound live after ∧ GivenBack block.lot heap after) (fun _ => False) := by
  have blockSound := sound.blocks block mem_cons_self
  have origin := blockSound.origin
  have least := blockSound.least
  have behind := blockSound.behind
  have within := blockSound.within
  have asked := blockSound.asked
  have inLot : (area block.lot).Holds block.ptr :=
    ⟨(by omega : block.lot.start ≤ block.ptr), (by omega : _ < block.lot.start + block.lot.size)⟩
  obtain ⟨above, below⟩ := lot_ranged sound.accounts mem_cons_self inLot
  unfold deallocate
  rw [if_neg (by omega)]
  apply ends_seq (ends_check above)
  rintro _ _ rfl
  apply ends_seq (ends_check below)
  rintro _ heap rfl
  apply ends_get
  have header := blockSound.readHeader
  have nonzero : (readHeader heap.memory block.ptr).2 ≠ 0 := by
    rw [header]
    exact (by omega : block.totalSize ≠ 0)
  simp only [header]
  apply ends_seq (ends_check nonzero)
  rintro _ heap rfl
  by_cases large : pageSize ≤ block.totalSize
  · rw [if_pos large]
    have source : block.lot.bucket = none := by rw [origin.bucket, if_pos large]
    obtain ⟨listed, _⟩ := (sound.accounts.lots block.lot mem_cons_self).run source
    have aligned : (readHeader heap.memory block.ptr).1 % 4096 = 0 := by
      rw [header]
      exact (sound.accounts.ranged _ listed).1
    have area : area block.lot = ⟨block.lot.start, 4096 * pagesFor block.totalSize⟩ := by
      rw [area, origin.run source]
    have books := freeRun_accounts sound.accounts source
    rw [area] at listed books
    apply ends_seq (ends_check aligned)
    rintro _ _ rfl
    apply ends_bind
    apply ends_get
    rw [if_pos listed]
    apply ends_set
    apply ends_get
    apply ends_set
    refine ⟨sound.remaining books sound.sized sound.unlocked (fun _ _ => rfl) _, ?_⟩
    rw [GivenBack, source, area]
  · rw [if_neg large]
    obtain ⟨idx, found⟩ := getFittingBucket_exists (le_of_not_ge large)
    have source : block.lot.bucket = some idx := by rw [origin.bucket, if_neg large, found]
    apply ends_seq (returnChunk_ends sound.accounts sound.sized source found)
    rintro _ _ ⟨books, sized, locked, others, front⟩
    apply ends_get
    apply ends_set
    refine ⟨sound.remaining books sized (locked.trans sound.unlocked) others _, ?_⟩
    rw [GivenBack, source]
    exact front

end Nx.HeapBlocks
