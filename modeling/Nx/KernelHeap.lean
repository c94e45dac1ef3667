import Nx.Bytes
import Nx.Outcomes

/-!
The kernel heap, kernel/source/mm/_heap_impl.h with the parameters of heap.cpp: sixteen buckets,
expansion, large allocations, the lock and the debug word all switched on.
-/

namespace Nx.KernelHeap

open Bytes Outcomes Function

inductive Failure where
  | assertFailed (invariant : String)
  | outOfMemory (function : String)
  | tooLarge (size : Nat)
  | chunkTooSmall (chunkSize totalSize : Nat)
  | slackLeft (bytes : Nat)
  | nullBucket
  | spins
  | noPages
  deriving DecidableEq

def pageSize : Nat := 4096
def sizeofChunk : Nat := 16
def chunksPerPage : Nat := pageSize / sizeofChunk
def expansionFactor : Nat := 2
def initialMultiplier : Nat := 1
def maxAlign : Nat := 16

def uninitialisedFill : Byte := 0x55
def deallocatedFill : Byte := 0xAA

def heapBase : Nat := 0xFFFFFF8000000000
def heapEnd : Nat := 0xFFFFFFFF00000000

abbrev BucketIdx := Fin 16

def bucketSizes : List Nat :=
  [24, 32, 48, 64, 96, 128, 192, 256, 384, 512, 768, 1024, 1536, 2048, 3072, 4096]

def bucketSize (idx : BucketIdx) : Nat := bucketSizes.getD idx 0

structure Chunk where
  memory : Nat
  deriving DecidableEq

structure Bucket where
  freeChunks : List Chunk
  numFreeChunks : Nat
  usedChunks : List Chunk
  numUsedChunks : Nat
  chunkSize : Nat
  deriving DecidableEq

structure Heap where
  buckets : BucketIdx → Bucket
  numSpareChunks : Nat
  spareChunks : List Chunk
  allocatedByteCount : Nat
  /-- whether `expansionLock` is held -/
  expansionLock : Bool
  memory : Memory
  /-- the page runs held -/
  runs : List Area
  incoming : List Nat

abbrev HeapM := Program Heap Failure

def Heap.setBucket (heap : Heap) (idx : BucketIdx) (bucket : Bucket) : Heap :=
  { heap with buckets := update heap.buckets idx bucket }

def check (condition : Prop) [Decidable condition] (invariant : String) : HeapM PUnit :=
  if condition then pure ⟨⟩ else throw (.assertFailed invariant)

structure Fresh (runs : List Area) (base num : Nat) : Prop where
  nonempty : 0 < num
  aligned : base % 4096 = 0
  above : heapBase ≤ base
  below : base + 4096 * num ≤ heapEnd
  clear : ∀ run ∈ runs, Area.Apart ⟨base, 4096 * num⟩ run

instance (runs : List Area) (base num : Nat) : Decidable (Fresh runs base num) :=
  decidable_of_iff (0 < num ∧ base % 4096 = 0 ∧ heapBase ≤ base ∧ base + 4096 * num ≤ heapEnd ∧
      ∀ run ∈ runs, Area.Apart ⟨base, 4096 * num⟩ run)
    ⟨fun ⟨nonempty, aligned, above, below, clear⟩ => ⟨nonempty, aligned, above, below, clear⟩,
      fun fresh => ⟨fresh.nonempty, fresh.aligned, fresh.above, fresh.below, fresh.clear⟩⟩

def internalAllocatePages (num : Nat) : HeapM Nat := do
  let heap ← get
  match heap.incoming with
  | [] => throw .noPages
  | base :: rest =>
    if Fresh heap.runs base num then do
      set { heap with
        incoming := rest
        runs := ⟨base, 4096 * num⟩ :: heap.runs
        memory := fill heap.memory base pageSize 0 }
      return base
    else throw .noPages

def internalFreePages (addr num : Nat) : HeapM PUnit := do
  let heap ← get
  if ⟨addr, 4096 * num⟩ ∈ heap.runs then
    set { heap with runs := heap.runs.erase ⟨addr, 4096 * num⟩ }
  else throw .noPages

def makeSpareChunks : HeapM PUnit := do
  let heap ← get
  check (heap.expansionLock = true) "expansionLock.held()"
  let chunkBuffer ← internalAllocatePages 1
  if chunkBuffer = 0 then throw (.outOfMemory "heap::makeSpareChunks()")
  else do
    let heap ← get
    set { heap with
      spareChunks := heap.spareChunks ++ List.replicate chunksPerPage (Chunk.mk 0)
      numSpareChunks := heap.numSpareChunks + chunksPerPage }

def getSpareChunk : HeapM PUnit := do
  let heap ← get
  check (heap.expansionLock = true) "expansionLock.held()"
  match heap.spareChunks with
  | [] => throw (.assertFailed "spareChunks.chunk")
  | _ :: rest =>
    set { heap with spareChunks := rest, numSpareChunks := heap.numSpareChunks - 1 }

def Heap.addFreeChunk (heap : Heap) (idx : BucketIdx) (memory : Nat) : Heap :=
  let bucket := heap.buckets idx
  heap.setBucket idx { bucket with
    freeChunks := ⟨memory⟩ :: bucket.freeChunks
    numFreeChunks := bucket.numFreeChunks + 1 }

/-- How many chunks of each size are to be made, the loops that use up slack
space in `expandBucket` and in `init`. -/
structure Plan where
  left : Nat
  total : Nat
  counter : BucketIdx → Nat

def Plan.spend (plan : Plan) (idx : BucketIdx) : Plan :=
  if bucketSize idx ≤ plan.left then
    { left := plan.left - bucketSize idx
      total := plan.total + 1
      counter := update plan.counter idx (plan.counter idx + 1) }
  else plan

def expansionPlan (idx : BucketIdx) (chunkSize : Nat) : Plan :=
  let numBytes := expansionFactor * pageSize
  let numChunks := numBytes / chunkSize
  [2, 1, 0].foldl Plan.spend
    { left := numBytes - numChunks * chunkSize
      total := numChunks
      counter := update (fun _ => 0) idx numChunks }

def downward : List BucketIdx := (List.finRange 16).reverse

/-- The inner loop that hands out memory; the next free address is returned. -/
def placeChunks (idx : BucketIdx) : Nat → Nat → HeapM Nat
  | 0, memoryBuffer => return memoryBuffer
  | num + 1, memoryBuffer => do
    getSpareChunk
    let heap ← get
    set (heap.addFreeChunk idx memoryBuffer)
    placeChunks idx num (memoryBuffer + bucketSize idx)

def placeAll (counter : BucketIdx → Nat) : List BucketIdx → Nat → HeapM PUnit
  | [], _ => return ⟨⟩
  | idx :: rest, memoryBuffer => do
    let memoryBuffer ← placeChunks idx (counter idx) memoryBuffer
    placeAll counter rest memoryBuffer

def setLock (held : Bool) : HeapM PUnit := do
  let heap ← get
  set { heap with expansionLock := held }

def expandBucket (idx : BucketIdx) : HeapM PUnit := do
  let heap ← get
  if heap.expansionLock = true then return ⟨⟩
  else do
    setLock true
    let memoryBuffer ← internalAllocatePages expansionFactor
    if memoryBuffer = 0 then throw (.outOfMemory "heap::expandBucket()")
    else do
      let plan := expansionPlan idx (heap.buckets idx).chunkSize
      if heap.numSpareChunks < plan.total then makeSpareChunks
      let heap ← get
      check (plan.total ≤ heap.numSpareChunks) "numSpareChunks >= numChunks"
      placeAll plan.counter downward memoryBuffer
      setLock false

def getFittingBucket (size : Nat) : Option BucketIdx :=
  (List.finRange 16).find? fun idx => decide (size ≤ bucketSize idx)

/-- `while(bucket->numFreeChunks == 0) expandBucket(bucket);`. An expansion
that finds the lock taken changes nothing, so a second round decides. -/
def awaitChunks (idx : BucketIdx) : Nat → HeapM PUnit
  | 0 => throw .spins
  | rounds + 1 => do
    let heap ← get
    if (heap.buckets idx).numFreeChunks = 0 then do
      expandBucket idx
      awaitChunks idx rounds
    else return ⟨⟩

/-- A chunk of a bucket; its descriptor goes to the used ones. With a counter
above an empty list the code would retry for ever. -/
def takeChunk (idx : BucketIdx) : HeapM Nat := do
  awaitChunks idx 2
  let heap ← get
  let bucket := heap.buckets idx
  check (0 < bucket.numFreeChunks) "bucket->numFreeChunks > 0"
  match bucket.freeChunks with
  | [] => throw .spins
  | chunk :: rest => do
    set (heap.setBucket idx { bucket with
      freeChunks := rest
      numFreeChunks := bucket.numFreeChunks - 1
      usedChunks := ⟨0⟩ :: bucket.usedChunks
      numUsedChunks := bucket.numUsedChunks + 1 })
    return chunk.memory

def pagesFor (totalSize : Nat) : Nat := (totalSize + pageSize) % 2 ^ 64 / pageSize

/-- Memory that the heap has given away: a chunk of a bucket, or a page run. -/
structure Lot where
  start : Nat
  bucket : Option BucketIdx
  size : Nat
  deriving DecidableEq

def obtainMemory (totalSize : Nat) : HeapM Lot :=
  if pageSize ≤ totalSize then do
    let num := pagesFor totalSize
    let start ← internalAllocatePages num
    return ⟨start, none, 4096 * num⟩
  else
    match getFittingBucket totalSize with
    | none => throw (.tooLarge totalSize)
    | some idx => do
      let heap ← get
      let bucket := heap.buckets idx
      if bucket.chunkSize < totalSize then
        throw (.chunkTooSmall bucket.chunkSize totalSize)
      else do
        check (totalSize ≤ bucket.chunkSize) "bucket->chunkSize >= total_size"
        let start ← takeChunk idx
        return ⟨start, some idx, bucketSize idx⟩

def alignUp (ptr align : Nat) : Nat :=
  (ptr + (align - 1)) % 2 ^ 64 &&& (2 ^ 64 - 1 - (align - 1))

/-- The address for the caller, and the offset that goes in one byte before it. -/
def alignTheMemory (memory : Memory) (ptr align : Nat) : Nat × Memory :=
  let tmp := ptr
  let ptr := alignUp (ptr + 1) align
  (ptr, update memory (ptr - 1) (BitVec.ofNat 8 (ptr - tmp)))

/-- The caller's address, the size, the offset, and then the caller's bytes. -/
def formatBlock (memory : Memory) (start totalSize align reqSize caller : Nat) : Nat × Memory :=
  let memory := store memory start caller
  let memory := store memory (start + 8) totalSize
  let (ret, memory) := alignTheMemory memory (start + 16) align
  (ret, fill memory ret reqSize uninitialisedFill)

/-- What `allocate` has given out, with the request and where the memory is from. -/
structure Block where
  ptr : Nat
  reqSize : Nat
  align : Nat
  totalSize : Nat
  lot : Lot
  deriving DecidableEq

def allocate (reqSize align caller : Nat) : HeapM (Option Block) :=
  if reqSize = 0 then return none
  else do
    let align := max align maxAlign
    check (align &&& (align - 1) = 0) "(align & (align - 1)) == 0"
    check (align ≤ 256) "align <= 256"
    let extraSize := 8 + 1 + (align - 1) + 8
    let totalSize := (reqSize + extraSize) % 2 ^ 64
    let lot ← obtainMemory totalSize
    let heap ← get
    let (ret, memory) := formatBlock heap.memory lot.start totalSize align reqSize caller
    set { heap with
      memory := memory
      allocatedByteCount := (heap.allocatedByteCount + totalSize) % 2 ^ 64 }
    return some ⟨ret, reqSize, align, totalSize, lot⟩

/-- What `deallocate` reads back: the start of the memory and the total size. -/
def readHeader (memory : Memory) (ptr : Nat) : Nat × Nat :=
  let ofs := (memory (ptr - 1)).toNat
  let addr := ptr - ofs - 8
  (addr - 8, load memory addr)

/-- The chunk goes back to the bucket of its size, under any descriptor that is
in use. -/
def returnChunk (addr size : Nat) : HeapM PUnit :=
  match getFittingBucket size with
  | none => throw .nullBucket
  | some idx => do
    let heap ← get
    let bucket := heap.buckets idx
    check (0 < bucket.numUsedChunks) "bucket->numUsedChunks > 0"
    match bucket.usedChunks with
    | [] => throw (.assertFailed "bucket->usedChunks.chunk")
    | _ :: rest =>
      let heap := heap.setBucket idx { bucket with
        usedChunks := rest
        numUsedChunks := bucket.numUsedChunks - 1 }
      let heap := { heap with
        memory := fill heap.memory addr bucket.chunkSize deallocatedFill }
      set (heap.addFreeChunk idx addr)

def deallocate (ptr : Nat) : HeapM PUnit :=
  if ptr = 0 then return ⟨⟩
  else do
    check (heapBase ≤ ptr) "addr >= addrs::KERNEL_HEAP_BASE.addr()"
    check (ptr < heapEnd) "addr < addrs::KERNEL_HEAP_END.addr()"
    let heap ← get
    let (addr, size) := readHeader heap.memory ptr
    check (size ≠ 0) "sz"
    if pageSize ≤ size then do
      check (addr % 4096 = 0) "isPageAligned(addr)"
      internalFreePages addr (pagesFor size)
    else returnChunk addr size
    let heap ← get
    set { heap with allocatedByteCount := (heap.allocatedByteCount + 2 ^ 64 - size) % 2 ^ 64 }

/-- The first plan of `init`: a page for each bucket, then what is left over
goes to further chunks, the largest first. -/
def initialPlan : Plan :=
  let share := initialMultiplier * pageSize
  let start : Plan := (List.finRange 16).foldl (fun plan idx =>
    let num := share / bucketSize idx
    { left := plan.left + (share - num * bucketSize idx)
      total := plan.total + num
      counter := update plan.counter idx num }) ⟨0, 0, fun _ => 0⟩
  downward.foldl Plan.spend start

def originChunks (size : Nat) : Nat → Nat → List Chunk → List Chunk × Nat
  | 0, memoryBuffer, made => (made, memoryBuffer)
  | num + 1, memoryBuffer, made =>
    originChunks size num (memoryBuffer + size) (⟨memoryBuffer⟩ :: made)

def originBuckets (counter : BucketIdx → Nat) : List BucketIdx → Nat → HeapM PUnit
  | [], _ => return ⟨⟩
  | idx :: rest, memoryBuffer => do
    let heap ← get
    let (chunks, memoryBuffer) := originChunks (bucketSize idx) (counter idx) memoryBuffer []
    set (heap.setBucket idx ⟨chunks, counter idx, [], 0, bucketSize idx⟩)
    originBuckets counter rest memoryBuffer

def emptyBucket : Bucket := ⟨[], 0, [], 0, 0⟩

def init : HeapM PUnit := do
  let heap ← get
  set { heap with buckets := fun _ => emptyBucket, expansionLock := false }
  if initialPlan.left ≠ 0 then throw (.slackLeft initialPlan.left)
  else do
    let numChunkPages := (initialPlan.total * sizeofChunk + pageSize) / pageSize
    let _chunkBuffer ← internalAllocatePages numChunkPages
    let memoryBuffer ← internalAllocatePages (initialMultiplier * 16)
    originBuckets initialPlan.counter downward memoryBuffer
    let heap ← get
    set { heap with spareChunks := [] }

end Nx.KernelHeap
