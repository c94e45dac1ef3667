import Nx.UserHeapBlocks
import Nx.Transitions

/-!
The C library's heap over whole sequences of calls, from `init` on.
-/

namespace Nx.UserHeapRuns

open Bytes Outcomes UserHeap UserHeapBooks UserHeapBlocks Transitions List
open HeapAccounts (Lot.area)

structure State where
  heap : Heap
  live : List Block

inductive Op where
  | malloc (size : Nat) (incoming : List Nat)
  | calloc (num size : Nat) (incoming : List Nat)
  | realloc (block : Block) (size : Nat) (incoming : List Nat)
  | free (block : Block)
  | write (addr : Nat) (byte : Byte)
  deriving DecidableEq

def offered (heap : Heap) (incoming : List Nat) : Heap := { heap with incoming := incoming }

/-- The live blocks after a call that returned an address; a null pointer is no block. -/
def withBlock (heap : Heap) (ptr size : Nat) (live : List Block) : State :=
  ⟨heap, if ptr = 0 then live else blockAt heap.memory ptr size :: live⟩

def perform (state : State) : Op → Except Failure State
  | .malloc size incoming => do
    let (ptr, heap) ← (UserHeap.malloc size).run (offered state.heap incoming)
    return withBlock heap ptr size state.live
  | .calloc num size incoming => do
    let (ptr, heap) ← (UserHeap.calloc num size).run (offered state.heap incoming)
    return withBlock heap ptr (num * size) state.live
  | .realloc block size incoming => do
    let (ptr, heap) ← (UserHeap.realloc block.ptr size).run (offered state.heap incoming)
    return withBlock heap ptr size (state.live.erase block)
  | .free block => do
    let (_, heap) ← (UserHeap.free block.ptr).run state.heap
    return ⟨heap, state.live.erase block⟩
  | .write addr byte =>
    .ok { state with heap := { state.heap with
      memory := Function.update state.heap.memory addr byte } }

def Step (before : State) (op : Op) (after : State) : Prop := perform before op = .ok after

def Regular (state : State) : Op → Prop
  | .malloc size _ => size + 24 < 2 ^ 64
  | .calloc num size _ => num * size + 24 < 2 ^ 64
  | .realloc block size _ => block ∈ state.live ∧ 0 < size ∧ Fits block size
  | .free block => block ∈ state.live
  | .write addr _ => ∃ block ∈ state.live, block.ptr ≤ addr ∧ addr < block.ptr + block.size

instance (state : State) : DecidablePred (Regular state) := by
  intro op
  unfold Regular
  split <;> infer_instance

/-! ## What a call leaves behind -/

theorem Sound.offered {state : State} (sound : Sound state.live state.heap) (incoming : List Nat) :
    Sound state.live (offered state.heap incoming) :=
  ⟨sound.books.congr rfl rfl sound.books.spare, sound.blocks⟩

section Calls

variable {live : List Block} {heap after : Heap} {size ptr : Nat}

def Given (live : List Block) (size : Nat) (before : Heap) (ptr : Nat) (after : Heap) : Prop :=
  (ptr = 0 ∧ size = 0 ∧ after = before) ∨ (ptr ≠ 0 ∧
    Sound (blockAt after.memory ptr size :: live) after)

theorem withBlock_sound (nonzero : ptr ≠ 0) (sound :
    Sound (blockAt heap.memory ptr size :: live) heap) :
    Sound (withBlock heap ptr size live).live (withBlock heap ptr size live).heap := by
  rw [withBlock, if_neg nonzero]
  exact sound

theorem Given.sound (given : Given live size heap ptr after) (sound : Sound live heap) :
    Sound (withBlock after ptr size live).live (withBlock after ptr size live).heap := by
  rcases given with ⟨none, _, rfl⟩ | ⟨nonzero, made⟩
  · rw [withBlock, if_pos none]
    exact sound
  · exact withBlock_sound nonzero made

theorem malloc_ends (sound : Sound live heap) (fits : size + 24 < 2 ^ 64) :
    Ends (UserHeap.malloc size) heap (fun ptr after => Given live size heap ptr after)
      OutOfMemory := by
  by_cases none : size = 0
  · rw [none]
    exact ends_pure _ (.inl ⟨rfl, rfl, rfl⟩)
  · apply ends_imp (allocate_ends sound.books (Nat.pos_of_ne_zero none) ⟨0, by decide, rfl⟩ fits)
    rintro _ _ ⟨_, provided⟩
    have behind := provided.formatted.behind
    exact .inr ⟨by omega, (provided.sound sound (Nat.pos_of_ne_zero none)).2⟩

theorem calloc_ends (sound : Sound live heap) {num} (fits : num * size + 24 < 2 ^ 64) :
    Ends (UserHeap.calloc num size) heap (fun ptr after => Given live (num * size) heap ptr after)
      OutOfMemory := by
  have product : num * size % 2 ^ 64 = num * size := Nat.mod_eq_of_lt (by omega)
  unfold UserHeap.calloc
  rw [product]
  apply ends_seq (malloc_ends sound fits)
  rintro ptr middle given
  apply ends_get
  apply ends_put
  apply ends_pure
  rcases given with ⟨none, nothing, rfl⟩ | ⟨nonzero, made⟩
  · refine .inl ⟨none, nothing, ?_⟩
    have same : fill middle.memory ptr (num * size) 0 = middle.memory :=
      funext fun byte => fill_outside (by omega)
    rw [same]
  · -- clearing the block leaves its header
    have cleared : Sound (blockAt middle.memory ptr (num * size) :: live)
        { middle with memory := fill middle.memory ptr (num * size) 0 } :=
      made.overwrite fun _ outside => fill_outside outside
    have same := (cleared.blocks _ mem_cons_self).blockAt
    exact .inr ⟨nonzero, same.symm ▸ cleared⟩

structure Honoured (others : List Block) (block : Block) (size : Nat) (before : Memory) (ptr : Nat)
    (after : Heap) : Prop where
  aligned : ptr % 16 = 0
  usable : ∀ byte, ptr ≤ byte → byte < ptr + size → ∃ run ∈ after.runs, run.Holds byte
  apart : ∀ other ∈ others, Area.Apart ⟨ptr, size⟩ ⟨other.ptr, other.size⟩
  contents : ∀ i < min block.size size, after.memory (ptr + i) = before (block.ptr + i)
  others : ∀ other ∈ others, ∀ i < other.size, after.memory (other.ptr + i) = before (other.ptr + i)

theorem Resized.honoured (resized : Resized others block size heap ptr after)
    (sound : ∀ other ∈ others, BlockSound heap.memory other) :
      Honoured others block size heap.memory ptr after where
  aligned := (resized.sound.blocks _ mem_cons_self).formatted.aligned
  usable := by
    intro _ _ below
    have newSound := resized.sound.blocks _ mem_cons_self
    have behind : _ < ptr := newSound.formatted.behind
    exact resized.sound.books.balanced.in_run mem_cons_self (newSound.holds (by omega) below)
  apart := resized.sound.apart
  contents := resized.contents
  others := by
    intro other listed i _
    have otherSound := sound other listed
    have behind := otherSound.formatted.behind
    exact resized.keeps _ (otherSound.covered listed (by omega) (by omega))

theorem write_sound (sound : Sound live heap)
    (allowed : ∃ block ∈ live, block.ptr ≤ addr ∧ addr < block.ptr + block.size) (byte : Byte) :
    Sound live { heap with memory := Function.update heap.memory addr byte } := by
  obtain ⟨_, listed, _, _⟩ := allowed
  have perm := perm_cons_erase listed
  apply Sound.perm _ perm.symm
  apply (sound.perm perm).overwrite
  intro _ _
  exact Function.update_of_ne (by omega) _ _

end Calls

theorem perform_ends {state : State} (sound : Sound state.live state.heap)
    (regular : Regular state op) :
    (∃ after, perform state op = .ok after ∧ Sound after.live after.heap) ∨
    ∃ failure, perform state op = .error failure ∧ OutOfMemory failure := by
  cases op with
  | malloc size incoming =>
    have ready := Sound.offered sound incoming
    cases malloc_ends ready regular with
    | normal done given => exact .inl ⟨_, by simp [perform, done], given.sound ready⟩
    | aborted done failed => exact .inr ⟨_, by simp [perform, done], failed⟩
  | calloc _ size incoming =>
    have ready := Sound.offered sound incoming
    cases calloc_ends ready regular with
    | normal done given => exact .inl ⟨_, by simp [perform, done], given.sound ready⟩
    | aborted done failed => exact .inr ⟨_, by simp [perform, done], failed⟩
  | realloc block _ incoming =>
    obtain ⟨listed, asked, fits⟩ := regular
    have ready := (Sound.offered sound incoming).perm (perm_cons_erase listed)
    cases realloc_ends ready asked fits with
    | @normal ptr after done resized =>
      have behind : _ < ptr := (resized.sound.blocks _ mem_cons_self).formatted.behind
      exact .inl ⟨_, by simp [perform, done], withBlock_sound (by omega) resized.sound⟩
    | aborted done failed => exact .inr ⟨_, by simp [perform, done], failed⟩
  | free block =>
    have ready := sound.perm (perm_cons_erase regular)
    obtain ⟨_, after, done, books, memory⟩ := ends_exists
      (deallocate_ends ready.books (ready.blocks block mem_cons_self))
    refine .inl ⟨⟨after, state.live.erase block⟩, by simp [perform, UserHeap.free, done], books, ?_⟩
    rw [memory]
    exact fun other listed => ready.blocks other (mem_cons_of_mem _ listed)
  | write _ byte => exact .inl ⟨_, rfl, write_sound sound regular byte⟩

theorem run_sound (booted : init.run (unborn memory incoming) = .ok (⟨⟩, heap))
    (run : Run Step ⟨heap, []⟩ moves last) (regular : ∀ move ∈ moves,
      Regular move.before move.label) :
    ∀ state ∈ visited ⟨heap, []⟩ moves, Sound state.live state.heap := by
  have start : Sound [] heap := ⟨ends_of_ok (init_ends memory incoming) booted, nofun⟩
  apply run_guarded (fun state : State => Sound state.live state.heap)
    (fun move => Regular move.before move.label)
    _ run start regular
  rintro ⟨_, _, _⟩ sound done allowed
  rcases perform_ends sound allowed with ⟨_, returned, soundAfter⟩ | ⟨_, failed, _⟩
  · cases returned.symm.trans done
    exact soundAfter
  · cases failed.symm.trans done

/-- In every state that regular calls lead to, a live block can be given back, and `realloc` to a
size that fits keeps the contract unless there is no memory. -/
theorem realloc_honoured {memory : Memory} {incoming : List Nat} {heap : Heap} {last : State}
    {moves : List (Move State Op)} (booted : init.run (unborn memory incoming) = .ok (⟨⟩, heap))
    (run : Run Step ⟨heap, []⟩ moves last) (regular : ∀ move ∈ moves,
      Regular move.before move.label) :
    ∀ state ∈ visited ⟨heap, []⟩ moves, ∀ block ∈ state.live,
      (∃ after, (UserHeap.free block.ptr).run state.heap = .ok (⟨⟩, after)) ∧
      ∀ size answers, 0 < size → Fits block size → Ends (UserHeap.realloc block.ptr size)
        (offered state.heap answers)
          (fun ptr after => Honoured (state.live.erase block) block size state.heap.memory ptr
            after) OutOfMemory := by
  intro state reached block listed
  have sound := run_sound booted run regular state reached
  constructor
  · have ready := sound.perm (perm_cons_erase listed)
    obtain ⟨_, after, done, _⟩ :=
      ends_exists (deallocate_ends ready.books (ready.blocks block mem_cons_self))
    exact ⟨after, done⟩
  · intro _ answers asked fits
    have ready := (Sound.offered sound answers).perm (perm_cons_erase listed)
    apply ends_imp (realloc_ends ready asked fits)
    intro _ _ resized
    have honoured := Resized.honoured resized fun other member =>
      ready.blocks other (mem_cons_of_mem _ member)
    exact honoured

/-- The heap that `init` makes of sixteen pages and three more for descriptors. -/
def bootedHeap : Option Heap :=
  match init.run (unborn (fun _ => 0) [0x400000, 0x410000]) with
  | .ok (_, heap) => some heap
  | .error _ => none

theorem bootedHeap_some : bootedHeap.isSome = true := by decide +kernel

theorem init_of_bootedHeap : init.run (unborn (fun _ => 0) [0x400000, 0x410000]) =
    .ok (⟨⟩, bootedHeap.get bootedHeap_some) := by
  have found := (Option.some_get bootedHeap_some).symm
  generalize bootedHeap.get bootedHeap_some = heap at found
  unfold bootedHeap at found
  cases result : init.run (unborn (fun _ => 0) [0x400000, 0x410000]) with
  | ok =>
    rw [result] at found
    cases found
    rfl
  | error =>
    rw [result] at found
    cases found

def next (state : State) (op : Op) : Option State := (perform state op).toOption

theorem next_step (before : State) (op : Op) (after : State) (moved : next before op = some after) :
    Step before op after := by
  unfold next at moved
  unfold Step
  cases result : perform before op with
  | ok =>
    rw [result] at moved
    exact congrArg _ (Option.some.inj moved)
  | error =>
    rw [result] at moved
    cases moved

def growing : List Op :=
  [.malloc 24 [], .malloc 10 [], .realloc ⟨0x41DFA0, 10, 0x41DF90, 34⟩ 18 [],
    .realloc ⟨0x41DFA0, 18, 0x41DF90, 34⟩ 100 []]

theorem realloc_honoured_growing :
    ∃ heap moves last block, init.run (unborn (fun _ => 0) [0x400000, 0x410000]) = .ok (⟨⟩, heap) ∧
    Run Step ⟨heap, []⟩ moves last ∧ moves.map Move.label = growing ∧
      (∀ move ∈ moves, Regular move.before move.label) ∧
    block ∈ last.live ∧ block.size = 100 ∧ Ends (UserHeap.realloc block.ptr 5000)
      (offered last.heap [0x500000])
    (fun ptr after => Honoured (last.live.erase block) block 5000 last.heap.memory ptr after)
      OutOfMemory := by
  have run : Run Step ⟨bootedHeap.get bootedHeap_some, []⟩ _ _ := trace_run next next_step _ growing
  have regular : ∀ move ∈ (trace next ⟨bootedHeap.get bootedHeap_some, []⟩ growing).1,
      Regular move.before move.label := by decide +kernel
  have listed : (⟨0x41AFD0, 100, 0x41AFC0, 124⟩ : Block) ∈
      (trace next ⟨bootedHeap.get bootedHeap_some, []⟩ growing).2.live := by decide +kernel
  have honoured := (realloc_honoured init_of_bootedHeap run regular _ (run_last_visited run) _
      listed).2 5000 [0x500000]
    (by decide) (by decide +kernel)
  exact ⟨_, _, _, _, init_of_bootedHeap, run, by decide +kernel, regular, listed, rfl, honoured⟩

def failureAfter (heap : Heap) (ops : List Op) (op : Op) : Option Failure :=
  match ops.foldlM next ⟨heap, []⟩ with
  | none => none
  | some state =>
    match perform state op with
    | .ok _ => none
    | .error failure => some failure

theorem bootedHeap_exists {property : Heap → Prop}
    (holds : property (bootedHeap.get bootedHeap_some)) :
    ∃ heap, init.run (unborn (fun _ => 0) [0x400000, 0x410000]) = .ok (⟨⟩, heap) ∧ property heap :=
  ⟨_, init_of_bootedHeap, holds⟩

/-- Three ways to break the contract. Forty-eight bytes where the chunk has thirty-two left: the
caller's own byte is the neighbour's header, and giving the neighbour back fails. Thirty-five
bytes in the same chunk: the address is odd and the byte behind it another one. A hundred bytes
after thirty-two that the header did not account for: the last of them is lost. -/
theorem realloc_breaks_contract : ∃ heap, init.run (unborn (fun _ => 0) [0x400000, 0x410000]) =
    .ok (⟨⟩, heap) ∧
      (failureAfter heap [.malloc 24 [], .malloc 24 [], .realloc ⟨0x41DFA0, 24, 0x41DF90, 48⟩ 48 [],
        .write 0x41DFC0 0] (.free ⟨0x41DFD0, 24, 0x41DFC0, 48⟩) = some (.assertFailed "sz")) ∧
      (([Op.malloc 10 [], .write 0x41DFD0 7, .realloc ⟨0x41DFD0, 10, 0x41DFC0, 34⟩ 35 []].foldlM
        next
        ⟨heap, []⟩).map fun state => (state.live, state.heap.memory 0x41DFC9)) =
          some ([⟨0x41DFC9, 35, 0x41DFC0, 44⟩], 0) ∧
      (([Op.malloc 10 [], .realloc ⟨0x41DFD0, 10, 0x41DFC0, 34⟩ 32 [], .write (0x41DFD0 + 31) 7,
        .realloc ⟨0x41DFD0, 32, 0x41DFC0, 34⟩ 100 []].foldlM next
        ⟨heap, []⟩).map fun state => (state.live, state.heap.memory (0x41AFD0 + 31))) =
          some ([⟨0x41AFD0, 100, 0x41AFC0, 124⟩], 0) :=
  bootedHeap_exists ⟨by decide +kernel, by decide +kernel, by decide +kernel⟩

end Nx.UserHeapRuns
