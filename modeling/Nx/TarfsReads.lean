import Nx.Tarfs

/-!
Reading a file: `openFile` and `read` of kernel/source/filesystems/fs/tarfs.cpp, and `read` of
kernel/source/filesystems/vfs.cpp.
-/

namespace Nx.TarfsReads

open Words Scans Tarfs

structure File where
  entry : TarFile
  fileCursor : Word

def openFile (entry : TarFile) : File := ⟨entry, 0⟩

def bytesFrom (bytes : Bytes) (start count : Nat) :
    List Byte := (List.range count).map fun i => bytes (start + i)

/-- `read` of tarfs.cpp; `fileCursor` limits what is read, but not where. -/
def driverRead (bytes : Bytes) (file : File) (count : Word) : List Byte × File :=
  let left := file.entry.size - file.fileCursor
  let toread := if count < left then count else left
  (bytesFrom bytes file.entry.offset.toNat toread.toNat, file)

def read (bytes : Bytes) (file : File) (count : Word) : List Byte × File :=
  if count = 0 then ([], file) else driverRead bytes file count

def reads (bytes : Bytes) : File → List Word → List (List Byte) × File
  | file, [] => ([], file)
  | file, count :: rest =>
    let (got, file) := read bytes file count
    let (later, file) := reads bytes file rest
    (got :: later, file)

def contents (bytes : Bytes) (entry : TarFile) :
    List Byte := bytesFrom bytes entry.offset.toNat entry.size.toNat

/-- The calls give the beginning of the file, and nothing more once they have given all of it. -/
structure Streams (bytes : Bytes) (entry : TarFile) (counts : List Word) : Prop where
  concatenated : (reads bytes (openFile entry) counts).1.flatten =
    (contents bytes entry).take (counts.map BitVec.toNat).sum
  exhausted : (contents bytes entry).length ≤
    (reads bytes (openFile entry) counts).1.flatten.length →
    ∀ count, (read bytes (reads bytes (openFile entry) counts).2 count).1 = []

theorem read_first (count : Word) : read bytes (openFile entry) count =
    ((contents bytes entry).take count.toNat, openFile entry) := by
  have whole : entry.size - 0 = entry.size := BitVec.sub_zero _
  rw [read]
  split
  next zero => simp [zero]
  next =>
    have least : (if count < entry.size then count else entry.size).toNat =
        min count.toNat entry.size.toNat := by
      split
      next below => exact (min_eq_left (BitVec.lt_def.mp below).le).symm
      next other => exact (min_eq_right (BitVec.le_def.mp (BitVec.not_lt.mp other))).symm
    simp only [driverRead, openFile, whole, least, contents, bytesFrom, ← List.map_take,
      List.take_range]

/-- Every call starts at the beginning. -/
theorem reads_same (counts : List Word) : reads bytes (openFile entry) counts =
    (counts.map fun count => (contents bytes entry).take count.toNat, openFile entry) := by
  induction counts with
  | nil => rfl
  | cons _ _ ih => simp only [reads, read_first, ih, List.map_cons]

/-- One call gives the beginning of the file. Calls in general only stream a file that is empty. -/
theorem reads_stream_iff (bytes : Bytes) (entry : TarFile) :
    (∀ count, (reads bytes (openFile entry) [count]).1.flatten =
      (contents bytes entry).take count.toNat) ∧
      ((∀ counts, (∀ count ∈ counts, count ≠ 0) → Streams bytes entry counts) ↔
        entry.size = 0) := by
  refine ⟨fun count => by simp [reads_same], fun streams => ?_, fun empty _ _ => ?_⟩
  · by_contra some_
    have all := (streams [entry.size] (by rintro _ (_ | ⟨_, ⟨⟩⟩); exact some_)).exhausted
    rw [reads_same] at all
    have length : (contents bytes entry).length = entry.size.toNat := by simp [contents, bytesFrom]
    have again := all (by simp [length]) entry.size
    rw [read_first, List.take_of_length_le length.le] at again
    change contents bytes entry = [] at again
    rw [again] at length
    exact some_ (BitVec.eq_of_toNat_eq length.symm)
  · have nothing : contents bytes entry = [] := by simp [contents, bytesFrom, empty]
    exact ⟨by simp [reads_same, nothing], fun _ _ => by simp [reads_same, read_first, nothing]⟩

/-- A file of the bytes 1 and 2 is read one byte at a time. -/
theorem reads_repeat : (reads (BitVec.ofNat 8) (openFile ⟨[], 2, 1⟩) [1, 1, 1]).1 =
    [[1], [1], [1]] ∧
    contents (BitVec.ofNat 8) ⟨[], 2, 1⟩ = [1, 2] ∧ ¬ Streams (BitVec.ofNat 8) ⟨[], 2, 1⟩
      [1, 1, 1] :=
  ⟨by decide +kernel, by decide +kernel, fun streams => absurd streams.concatenated (by decide +kernel)⟩

end Nx.TarfsReads
