import Nx.KernelHeap

/-!
The heap of the C library, libs/libc/source/heap.cpp, and `malloc`, `free`, `calloc` and `realloc`
of stdlib/malloc.cpp.
-/

namespace Nx.UserHeap

open Bytes Outcomes
open KernelHeap (Chunk Bucket BucketIdx bucketSize Plan expansionPlan initialPlan downward
  originChunks
  getFittingBucket alignUp alignTheMemory pageSize sizeofChunk chunksPerPage
    expansionFactor maxAlign
  emptyBucket pagesFor)

inductive Failure where
  | assertFailed (condition : String)
  /-- the kernel stopped instead of answering `mmap` -/
  | noPages
  | fault (addr : Nat)
  deriving DecidableEq

structure Heap where
  buckets : BucketIdx → Bucket
  numSpareChunks : Nat
  /-- the length of the list `SpareChunks` -/
  spareChunks : Nat
  memory : Memory
  /-- the page runs held -/
  runs : List Area
  incoming : List Nat

abbrev HeapM := Program Heap Failure

def Heap.setBucket (heap : Heap) (idx : BucketIdx) (bucket : Bucket) : Heap :=
  { heap with buckets := Function.update heap.buckets idx bucket }

def check (condition : Prop) [Decidable condition] (text : String) : HeapM PUnit :=
  if condition then pure ⟨⟩ else throw (.assertFailed text)

/-! ## Pages -/

def userBase : Nat := 0x400000
def userEnd : Nat := 0x7FFFFFFF8000

structure Fresh (runs : List Area) (base num : Nat) : Prop where
  nonempty : 0 < num
  aligned : base % 4096 = 0
  above : userBase ≤ base
  below : base + 4096 * num ≤ userEnd
  clear : ∀ run ∈ runs, Area.Apart ⟨base, 4096 * num⟩ run

instance (runs : List Area) (base num : Nat) : Decidable (Fresh runs base num) :=
  decidable_of_iff (0 < num ∧ base % 4096 = 0 ∧ userBase ≤ base ∧ base + 4096 * num ≤ userEnd ∧
      ∀ run ∈ runs, Area.Apart ⟨base, 4096 * num⟩ run)
    ⟨fun ⟨nonempty, aligned, above, below, clear⟩ => ⟨nonempty, aligned, above, below, clear⟩,
      fun fresh => ⟨fresh.nonempty, fresh.aligned, fresh.above, fresh.below, fresh.clear⟩⟩

def mapFailed : Nat := 2 ^ 64 - 1

def granted (heap : Heap) (rest : List Nat) (base num : Nat) : Heap :=
  { heap with
    incoming := rest
    runs := ⟨base, 4096 * num⟩ :: heap.runs
    memory := fill heap.memory base (4096 * num) 0 }

def internalAllocatePages (num : Nat) : HeapM Nat := do
  let heap ← get
  let length := num * pageSize % 2 ^ 64
  if length = 0 then return mapFailed
  else
    let numPages := (length + pageSize - 1) % 2 ^ 64 / pageSize
    match heap.incoming with
    | [] => throw .noPages
    | base :: rest =>
      if Fresh heap.runs base numPages then do
        set (granted heap rest base numPages)
        return base
      else throw .noPages

/-! ## Descriptors and chunks -/

/-- Of the new descriptors only the last one gets in front of those that are left. -/
def makeSpareChunks : HeapM PUnit := do
  let chunkBuffer ← internalAllocatePages 1
  check (chunkBuffer ≠ 0) "heap::makeSpareChunks(): out of memory!"
  let heap ← get
  set { heap with
    spareChunks := if heap.spareChunks = 0 then chunksPerPage else heap.spareChunks + 1
    numSpareChunks := heap.numSpareChunks + chunksPerPage }

def getSpareChunk : HeapM PUnit := do
  let heap ← get
  if heap.spareChunks = 0 then makeSpareChunks
  let heap ← get
  check (0 < heap.numSpareChunks) "NumSpareChunks > 0"
  set { heap with spareChunks := heap.spareChunks - 1 }

def Heap.addFreeChunk (heap : Heap) (idx : BucketIdx) (memory : Nat) : Heap :=
  let bucket := heap.buckets idx
  heap.setBucket idx { bucket with
    freeChunks := ⟨memory⟩ :: bucket.freeChunks
    numFreeChunks := bucket.numFreeChunks + 1 }

/-- The inner loop that hands out memory; the next free address is returned. -/
def placeChunks (idx : BucketIdx) : Nat → Nat → HeapM Nat
  | 0, memoryBuffer => return memoryBuffer
  | num + 1, memoryBuffer => do
    getSpareChunk
    let heap ← get
    set (heap.addFreeChunk idx memoryBuffer)
    placeChunks idx num (memoryBuffer + bucketSize idx)

def placeAll (counter : BucketIdx → Nat) : List BucketIdx → Nat → HeapM PUnit
  | [], _ => return ⟨⟩
  | idx :: rest, memoryBuffer => do
    let memoryBuffer ← placeChunks idx (counter idx) memoryBuffer
    placeAll counter rest memoryBuffer

def expandBucket (idx : BucketIdx) : HeapM PUnit := do
  let memoryBuffer ← internalAllocatePages expansionFactor
  check (memoryBuffer ≠ 0) "heap::expandBucket(): out of memory!"
  let heap ← get
  let plan := expansionPlan idx (heap.buckets idx).chunkSize
  if heap.numSpareChunks < plan.total then makeSpareChunks
  let heap ← get
  check (plan.total ≤ heap.numSpareChunks) "NumSpareChunks >= numChunks"
  placeAll plan.counter downward memoryBuffer

def originBuckets (counter : BucketIdx → Nat) : List BucketIdx → Nat → HeapM PUnit
  | [], _ => return ⟨⟩
  | idx :: rest, memoryBuffer => do
    let heap ← get
    let (chunks, memoryBuffer) := originChunks (bucketSize idx) (counter idx) memoryBuffer []
    set (heap.setBucket idx ⟨chunks, counter idx, [], 0, bucketSize idx⟩)
    originBuckets counter rest memoryBuffer

def init : HeapM PUnit := do
  let heap ← get
  set { heap with buckets := fun _ => emptyBucket }
  check (initialPlan.left = 0) "failed to consume slack space?!"
  let numChunkPages := (initialPlan.total * sizeofChunk + pageSize) / pageSize
  let _chunkBuffer ← internalAllocatePages numChunkPages
  let memoryBuffer ← internalAllocatePages 16
  originBuckets initialPlan.counter downward memoryBuffer

/-! ## `allocate`, `deallocate`, `reallocate` -/

/-- The bucket after its first free chunk was handed out; its descriptor goes to the used ones. -/
def handedOut (bucket : Bucket) (rest : List Chunk) : Bucket :=
  { bucket with
    freeChunks := rest
    numFreeChunks := bucket.numFreeChunks - 1
    usedChunks := ⟨0⟩ :: bucket.usedChunks
    numUsedChunks := bucket.numUsedChunks + 1 }

def takeChunk (idx : BucketIdx) : HeapM Nat := do
  let heap ← get
  if (heap.buckets idx).numFreeChunks = 0 then expandBucket idx
  let heap ← get
  check (0 < (heap.buckets idx).numFreeChunks) "bucket->numFreeChunks > 0"
  match (heap.buckets idx).freeChunks with
  | [] => throw (.assertFailed "chunk")
  | chunk :: rest => do
    check (chunk.memory ≠ 0) "chunk->memory"
    set (heap.setBucket idx (handedOut (heap.buckets idx) rest))
    return chunk.memory

def obtainMemory (totalSize : Nat) : HeapM Nat :=
  if pageSize ≤ totalSize then internalAllocatePages (pagesFor totalSize)
  else
    match getFittingBucket totalSize with
    | none => throw (.assertFailed "did not find a fitting bucket?!")
    | some idx => do
      let heap ← get
      check (totalSize ≤ (heap.buckets idx).chunkSize) "bucket->chunkSize >= total_size"
      takeChunk idx

/-- The size, the offset, and then the caller's bytes. A store through `MAP_FAILED` faults, as
all addresses do that are not in the lower half. -/
def formatBlock (start totalSize align : Nat) : HeapM Nat := do
  let heap ← get
  if 2 ^ 47 < start + 8 then throw (.fault start)
  else do
    let (ret, memory) := alignTheMemory (store heap.memory start totalSize) (start + 8) align
    set { heap with memory := memory }
    return ret

def allocate (reqSize align : Nat) : HeapM Nat :=
  if reqSize = 0 then return 0
  else do
    let align := max align maxAlign
    check (align &&& (align - 1) = 0) "(align & (align - 1)) == 0"
    check (align ≤ 256) "align <= 256"
    let totalSize := (reqSize + (8 + 1 + (align - 1))) % 2 ^ 64
    let start ← obtainMemory totalSize
    formatBlock start totalSize align

/-- The start of the memory and the total size, from what is kept behind an address. -/
def readHeader (memory : Memory) (addr : Nat) : Nat × Nat :=
  let ofs := (memory (addr - 1)).toNat
  let base := addr - ofs - 8
  (base, load memory base)

/-- The bucket after a chunk came back, under any descriptor that is in use. -/
def takenBack (bucket : Bucket) (rest : List Chunk) (addr : Nat) : Bucket :=
  { bucket with
    freeChunks := ⟨addr⟩ :: bucket.freeChunks
    numFreeChunks := bucket.numFreeChunks + 1
    usedChunks := rest
    numUsedChunks := bucket.numUsedChunks - 1 }

def returnChunk (addr size : Nat) : HeapM PUnit :=
  match getFittingBucket size with
  | none => throw (.assertFailed "did not find a fitting bucket?!")
  | some idx => do
    let heap ← get
    check (0 < (heap.buckets idx).numUsedChunks) "bucket->numUsedChunks > 0"
    match (heap.buckets idx).usedChunks with
    | [] => throw (.assertFailed "bucket->usedChunks")
    | _ :: rest => set (heap.setBucket idx (takenBack (heap.buckets idx) rest addr))

def deallocate (addr : Nat) : HeapM PUnit :=
  if addr = 0 then return ⟨⟩
  else do
    let heap ← get
    let (base, size) := readHeader heap.memory addr
    check (size ≠ 0) "sz"
    if pageSize ≤ size then check (base % 4096 = 0) "addr == (addr & PAGE_ALIGN)"
    else returnChunk base size

def moveBlock (usrAddr oldRealSize reqSize align : Nat) : HeapM Nat := do
  let newptr ← allocate reqSize align
  let heap ← get
  set { heap with memory := copy heap.memory newptr usrAddr oldRealSize }
  deallocate usrAddr
  return newptr

def reallocate (usrAddr reqSize align : Nat) : HeapM Nat :=
  if usrAddr = 0 then allocate reqSize align
  else do
    let heap ← get
    let (base, oldSize) := readHeader heap.memory usrAddr
    let oldRealSize := (oldSize + 2 ^ 64 - (usrAddr - base)) % 2 ^ 64
    if reqSize ≤ oldSize then return usrAddr
    else if pageSize ≤ oldSize then moveBlock usrAddr oldRealSize reqSize align
    else
      match getFittingBucket oldSize with
      | none => throw (.assertFailed "did not find a fitting bucket?!")
      | some idx =>
        let totalSize := (reqSize + (8 + 1 + (align - 1))) % 2 ^ 64
        if totalSize ≤ (heap.buckets idx).chunkSize then formatBlock base totalSize align
        else moveBlock usrAddr oldRealSize reqSize align

def malloc (size : Nat) : HeapM Nat := allocate size 1

def free (ptr : Nat) : HeapM PUnit := deallocate ptr

/-- The product is taken in 64 bits, and the memory is cleared without a look at the address. -/
def calloc (num size : Nat) : HeapM Nat := do
  let bytes := num * size % 2 ^ 64
  let ret ← allocate bytes 1
  let heap ← get
  set { heap with memory := fill heap.memory ret bytes 0 }
  return ret

def realloc (ptr newsize : Nat) : HeapM Nat := reallocate ptr newsize 1

end Nx.UserHeap
