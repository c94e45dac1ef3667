import Nx.Scans
import Nx.Words

/-!
`init` of kernel/source/filesystems/fs/tarfs.cpp, with the fields of `tarent_t` that it reads.
-/

namespace Nx.Tarfs

open Words Scans BitVec List

structure TarFile where
  name : List Byte
  size : Word
  offset : Word
  deriving DecidableEq

/-- The loop of `octalToNumber`, for the digits below `i`; `char` is signed. -/
def octalFrom (bytes : Bytes) (size oct : Nat) : Nat → Word → Word → Except Stop Word
  | 0, _, ret => .ok ret
  | i + 1, mul, ret => do
    let digit ← readByte bytes size (oct + i)
    octalFrom bytes size oct i (mul * 8) (ret + mul * (digit.signExtend 64 - 0x30))

def octalToNumber (bytes : Bytes) (size oct : Nat) :
    Except Stop Word := octalFrom bytes size oct 11 1 0

def stringFrom (bytes : Bytes) (ptr : Nat) : Nat → Except Stop (List Byte)
  | 0 => .error (.readOutside ptr)
  | left + 1 =>
    if bytes ptr = 0 then .ok []
    else do
      let rest ← stringFrom bytes (ptr + 1) left
      pure (bytes ptr :: rest)

def startsWith (bytes : Bytes) (size ptr : Nat) : List Byte → Except Stop Bool
  | [] => .ok true
  | char :: rest => do
    let byte ← readByte bytes size ptr
    if byte = char then startsWith bytes size (ptr + 1) rest else pure false

def front : List Byte → Except Stop Byte
  | [] => .error (.abort "operator[]: index %zu out of range (size: %zu)")
  | char :: _ => .ok char

def pathOf (name : List Byte) : Except Stop (List Byte) := do
  let first ← front name
  let name := if first = 0x2E then name.drop 1 else name
  let first ← front name
  pure (if first = 0x2F then name else 0x2F :: name)

def stride (fileSize : Word) : Word :=
  let s := (fileSize + 511) &&& ~~~ 511
  let blocks := (512 + s) / 512 * 512
  if 512 < blocks then blocks else 512

def magic : List Byte := [0x75, 0x73, 0x74, 0x61, 0x72]

def visit (bytes : Bytes) (size i : Nat) (files : List TarFile) :
    Except Stop (Option Nat × List TarFile) := do
  let first ← readByte bytes size i
  if first = 0 then return (some (BitVec.ofNat 64 i + 512).toNat, files)
  if ← startsWith bytes size (i + 257) magic then
    let namePrefix ← stringFrom bytes (i + 345) (size - (i + 345))
    let name ← stringFrom bytes i (size - i)
    let fileSize ← octalToNumber bytes size (i + 124)
    let path ← pathOf (namePrefix ++ name)
    let files := if fileSize = 0 then files else files ++
        [⟨path, fileSize, BitVec.ofNat 64 i + 512⟩]
    return (some (BitVec.ofNat 64 i + stride fileSize).toNat, files)
  else return (none, files)

def init (bytes : Bytes) (size fuel : Nat) : Except Stop (Bool × List TarFile) :=
  scan size (visit bytes size) fuel 0 []

def octal (bytes : Bytes) (oct : Nat) : Nat → Word → Word → Word
  | 0, _, ret => ret
  | i + 1, mul, ret =>
    octal bytes oct i (mul * 8) (ret + mul * ((bytes (oct + i)).signExtend 64 - 0x30))

def sizeField (bytes : Bytes) (i : Nat) : Word := octal bytes (i + 124) 11 1 0

/-- The magic is refused at a byte that is in the buffer. -/
def Foreign (bytes : Bytes) (size i : Nat) : Prop :=
  ∃ k < magic.length, i + 257 + k < size ∧ bytes (i + 257 + k) ≠ magic.getD k 0

variable {bytes : Bytes} {size : Nat}

theorem octalFrom_inside {mul ret : Word} (inside : oct + i ≤ size) :
    octalFrom bytes size oct i mul ret = .ok (octal bytes oct i mul ret) := by
  induction i generalizing mul ret with
  | zero => rfl
  | succ i ih => exact (bind_ok (readByte_inside (by omega))).trans (ih (by omega))

theorem startsWith_ok {text : List Byte} {same : Bool} (done : startsWith bytes size ptr text =
    .ok same) :
    if same then ∀ k < text.length, ptr + k < size ∧ bytes (ptr + k) = text.getD k 0
    else ∃ k < text.length, ptr + k < size ∧ bytes (ptr + k) ≠ text.getD k 0 := by
  induction text generalizing ptr with
  | nil =>
    cases done
    simp
  | cons char rest ih =>
    obtain ⟨_, read, done⟩ := ok_of_bind done
    obtain ⟨inside, rfl⟩ := readByte_ok read
    by_cases equal : bytes ptr = char
    · rw [if_pos equal] at done
      have later := ih done
      cases same with
      | true =>
        intro k below
        cases k with
        | zero => exact ⟨inside, by simpa using equal⟩
        | succ k => simpa [Nat.add_assoc, Nat.add_comm 1] using later k (Nat.lt_of_succ_lt_succ below)
      | false =>
        obtain ⟨k, below, differs⟩ := later
        exact ⟨k + 1, Nat.succ_lt_succ below,
          by simpa [Nat.add_assoc, Nat.add_comm 1] using differs⟩
    · rw [if_neg equal] at done
      cases done
      exact ⟨0, by simp, inside, by simpa using equal⟩

/-- The comparison ends where the bytes up to the first difference are in the buffer. -/
theorem startsWith_ends {text : List Byte} (inside : (∀ k < text.length, ptr + k < size) ∨
      ∃ k < text.length, ptr + k < size ∧ bytes (ptr + k) ≠ text.getD k 0) :
    ∃ same, startsWith bytes size ptr text = .ok same := by
  induction text generalizing ptr with
  | nil => exact ⟨true, rfl⟩
  | cons char rest ih =>
    have here : ptr < size := by
      rcases inside with all | ⟨k, _, low, _⟩
      · exact all 0 (by simp)
      · omega
    rw [startsWith, bind_ok (readByte_inside here)]
    by_cases equal : bytes ptr = char
    · rw [if_pos equal]
      apply ih
      rcases inside with all | ⟨k, below, low, differs⟩
      · exact .inl fun k below => by
          simpa [Nat.add_assoc, Nat.add_comm 1] using all (k + 1) (Nat.succ_lt_succ below)
      · cases k with
        | zero => exact absurd equal (by simpa using differs)
        | succ k => exact .inr ⟨k, Nat.lt_of_succ_lt_succ below, by omega, by
            simpa [Nat.add_assoc, Nat.add_comm 1] using differs⟩
    · exact ⟨false, if_neg equal⟩

theorem stringFrom_ok (done : stringFrom bytes ptr left = .ok text) :
    text.length < left ∧ bytes (ptr + text.length) = 0 := by
  induction left generalizing ptr text with
  | zero => cases done
  | succ left ih =>
    rw [stringFrom] at done
    split at done
    next here =>
      cases done
      exact ⟨by simp, here⟩
    next =>
      obtain ⟨_, rest, done⟩ := ok_of_bind done
      obtain ⟨below, zero⟩ := ih rest
      cases done
      exact ⟨by simpa using below, by rwa [length_cons, ← Nat.add_assoc, Nat.add_right_comm]⟩

theorem stringFrom_terminated (zero : ∃ count < left, bytes (ptr + count) = 0) :
    ∃ text, stringFrom bytes ptr left = .ok text ∧ (text = [] ↔ bytes ptr = 0) ∧
      (bytes (ptr + 1) ≠ 0 →
    text.length ≠ 1) ∧ ∀ char rest, text = char :: rest → char = bytes ptr := by
  induction left generalizing ptr with
  | zero =>
    obtain ⟨_, below, _⟩ := zero
    omega
  | succ _ ih =>
    rw [stringFrom]
    split
    next here => exact ⟨[], rfl, by simp [here], by simp, by simp⟩
    next more =>
      obtain ⟨count, _, ends⟩ := zero
      cases count with
      | zero => exact absurd ends more
      | succ count =>
        have later : bytes (ptr + 1 + count) = 0 := by rwa [Nat.add_right_comm]
        obtain ⟨rest, read, empty, _⟩ := ih ⟨count, by omega, later⟩
        refine ⟨bytes ptr :: rest, bind_ok read, ⟨nofun, fun ended => absurd ended more⟩, ?_,
          by simp +contextual⟩
        intro second single
        exact second (empty.mp (length_eq_zero_iff.mp (Nat.succ.inj single)))

theorem pathOf_named (some_ : name ≠ []) (more : name ≠ [0x2E]) :
    ∃ path, pathOf name = .ok path := by
  obtain ⟨first, rest, rfl⟩ := exists_cons_of_ne_nil some_
  by_cases dot : first = 0x2E
  · subst dot
    obtain ⟨_, rest, rfl⟩ := exists_cons_of_ne_nil (show rest ≠ [] by rintro rfl; exact more rfl)
    exact ⟨_, rfl⟩
  · simp only [pathOf, front, bind_ok rfl, dot, if_false]
    exact ⟨_, rfl⟩

theorem blocks_toNat {size : Word} (small : size.toNat + 512 < 2 ^ 64) :
    ((512 + size) / 512 * 512 : Word).toNat = (512 + size.toNat) / 512 * 512 := by
  have sum : (512 + size).toNat = 512 + size.toNat := by
    rw [toNat_add]
    exact Nat.mod_eq_of_lt (by simp; omega)
  rw [toNat_mul, toNat_udiv, sum]
  exact Nat.mod_eq_of_lt (by simp; omega)

def Fits (size : Nat) (file : TarFile) : Prop := file.offset.toNat + file.size.toNat ≤ size

theorem offset_toNat {step : Word} (fits : i + step.toNat < 2 ^ 64) :
    (BitVec.ofNat 64 i + step).toNat = i + step.toNat := by
  rw [toNat_add, toNat_ofNat, Nat.mod_eq_of_lt (by omega : i < 2 ^ 64), Nat.mod_eq_of_lt fits]

/-- What a turn reads of a header that is taken for a file. -/
structure Entry (bytes : Bytes) (size i : Nat) (namePrefix name path : List Byte) : Prop where
  header : bytes i ≠ 0
  ustar : ∀ k < magic.length, i + 257 + k < size ∧ bytes (i + 257 + k) = magic.getD k 0
  readPrefix : stringFrom bytes (i + 345) (size - (i + 345)) = .ok namePrefix
  readName : stringFrom bytes i (size - i) = .ok name
  isPath : pathOf (namePrefix ++ name) = .ok path

theorem Entry.own (entry : Entry bytes size i namePrefix name path) : ¬ Foreign bytes size i :=
  fun ⟨k, below, _, differs⟩ => differs (entry.ustar k below).2

theorem Entry.whole (entry : Entry bytes size i namePrefix name path) : i + 262 ≤ size := by
  have last := (entry.ustar 4 (by decide)).1
  omega

/-- What is recorded of a header, if anything. -/
def fileOf (bytes : Bytes) (i : Nat) (path : List Byte) : List TarFile :=
  if sizeField bytes i = 0 then [] else [⟨path, sizeField bytes i, BitVec.ofNat 64 i + 512⟩]

theorem visit_entry (entry : Entry bytes size i namePrefix name path) :
    visit bytes size i files = .ok (some (BitVec.ofNat 64 i + stride (sizeField bytes i)).toNat,
      files ++ fileOf bytes i path) := by
  have whole := entry.whole
  have number : octalToNumber bytes size (i + 124) = .ok (sizeField bytes i) :=
    octalFrom_inside (by omega)
  obtain ⟨same, compared⟩ := startsWith_ends (.inl fun k below => (entry.ustar k below).1)
  have isSame : same = true := by
    cases same with
    | true => rfl
    | false =>
      obtain ⟨k, below, _, differs⟩ := startsWith_ok compared
      exact absurd (entry.ustar k below).2 differs
  rw [visit, bind_ok (readByte_inside (by omega)), if_neg entry.header, bind_ok compared,
    if_pos isSame,
    bind_ok entry.readPrefix, bind_ok entry.readName, bind_ok number, bind_ok entry.isPath, fileOf]
  split <;> simp [pure, Except.pure]

theorem visit_ok {next : Option Nat} {after : List TarFile}
    (done : visit bytes size i files = .ok (next, after)) : i < size ∧
    (bytes i = 0 ∧ next = some (BitVec.ofNat 64 i + 512).toNat ∧ after = files ∨
      (bytes i ≠ 0 ∧ Foreign bytes size i ∧ next = none ∧ after = files) ∨
      ∃ namePrefix name path, Entry bytes size i namePrefix name path ∧
        next = some (BitVec.ofNat 64 i + stride (sizeField bytes i)).toNat ∧
        after = files ++ fileOf bytes i path) := by
  have turn := done
  rw [visit] at done
  obtain ⟨_, read, done⟩ := ok_of_bind done
  obtain ⟨inside, rfl⟩ := readByte_ok read
  refine ⟨inside, ?_⟩
  by_cases empty : bytes i = 0
  · rw [if_pos empty] at done
    cases done
    exact .inl ⟨empty, rfl, rfl⟩
  · rw [if_neg empty] at done
    obtain ⟨same, compared, done⟩ := ok_of_bind done
    have bytesRead := startsWith_ok compared
    cases same with
    | false =>
      cases done
      exact .inr (.inl ⟨empty, bytesRead, rfl, rfl⟩)
    | true =>
      obtain ⟨namePrefix, readPrefix, done⟩ := ok_of_bind done
      obtain ⟨name, readName, done⟩ := ok_of_bind done
      obtain ⟨_, _, done⟩ := ok_of_bind done
      obtain ⟨path, isPath, _⟩ := ok_of_bind done
      have entry : Entry bytes size i namePrefix name path :=
        ⟨empty, bytesRead, readPrefix, readName, isPath⟩
      cases (visit_entry entry).symm.trans turn
      exact .inr (.inr ⟨namePrefix, name, path, entry, rfl, rfl⟩)

theorem entry_of_complete (header : bytes i ≠ 0) (own : ¬ Foreign bytes size i)
    (whole : i + 262 ≤ size)
    (terminated : ∃ left < size - (i + 345), bytes (i + 345 + left) = 0)
    (named : bytes i = 0x2E → bytes (i + 1) = 0 → bytes (i + 345) ≠ 0) :
    ∃ namePrefix name path, Entry bytes size i namePrefix name path := by
  have ustar : ∀ k < magic.length, i + 257 + k < size ∧ bytes (i + 257 + k) = magic.getD k 0 := by
    intro k below
    have five : magic.length = 5 := rfl
    have inside : i + 257 + k < size := by omega
    refine ⟨inside, ?_⟩
    by_contra differs
    exact own ⟨k, below, inside, differs⟩
  obtain ⟨namePrefix, readPrefix, noPrefix, _⟩ := stringFrom_terminated terminated
  obtain ⟨left, _, _⟩ := terminated
  obtain ⟨name, readName, noName, single, first⟩ : ∃ name, stringFrom bytes i (size - i) =
      .ok name ∧ _ :=
    stringFrom_terminated ⟨345 + left, by omega, by rwa [← Nat.add_assoc]⟩
  have some_ : name ≠ [] := fun empty => header (noName.mp empty)
  obtain ⟨path, isPath⟩ : ∃ path, pathOf (namePrefix ++ name) = .ok path := by
    apply pathOf_named (by simp [some_])
    intro dot
    -- the name is a dot, and then there is no prefix
    obtain ⟨rfl, rfl⟩ : namePrefix = [] ∧ name = [0x2E] := by
      rcases append_eq_singleton_iff.mp dot with both | ⟨_, empty⟩
      · exact both
      · exact absurd empty some_
    refine named (first _ _ rfl).symm ?_ (noPrefix.mp rfl)
    by_contra second
    exact single second rfl
  exact ⟨namePrefix, name, path, header, ustar, readPrefix, readName, isPath⟩

/-- The scan ends, inside of the buffer, with files that lie in it. -/
def Total (bytes : Bytes) (size : Nat) : Prop :=
  ∃ fuel flag files, init bytes size fuel = .ok (flag, files) ∧ ∀ file ∈ files, Fits size file

theorem visit_next {next next' : Option Nat} {after after' : List TarFile}
    (went : visit bytes size i files = .ok (next, after))
    (went' : visit bytes size i files' = .ok (next', after')) : next = next' := by
  rcases (visit_ok went).2 with ⟨empty, rfl, _⟩ | ⟨header, foreign, rfl, _⟩ | ⟨_, _, _, entry,
    rfl, _⟩ <;>
  rcases (visit_ok went').2 with ⟨empty', rfl, _⟩ | ⟨header', foreign', rfl, _⟩ | ⟨_, _, _,
    entry', rfl, _⟩
  · rfl
  · exact absurd empty header'
  · exact absurd empty entry'.header
  · exact absurd empty' header
  · rfl
  · exact absurd foreign entry'.own
  · exact absurd empty' entry.header
  · exact absurd foreign' entry.own
  · rfl

/-- What a scan adds is from the offsets that it comes to. -/
theorem scan_adds (done : scan size (visit bytes size) fuel i files = .ok (flag, last)) :
    ∃ more, last = files ++ more ∧ ∀ file ∈ more, ∃ there,
      Relation.ReflTransGen (Follows size (visit bytes size)) i there ∧ there < size ∧
      file.offset = BitVec.ofNat 64 there + 512 := by
  induction fuel generalizing i files with
  | zero =>
    rw [scan] at done
    split at done
    · cases done
    · cases done
      exact ⟨[], (append_nil _).symm, forall_mem_nil _⟩
  | succ fuel ih =>
    rw [scan] at done
    split at done
    next inside =>
      obtain ⟨⟨next, after⟩, went, done⟩ := ok_of_bind done
      obtain ⟨more, rfl, own⟩ : ∃ more, after = files ++ more ∧
          ∀ file ∈ more, file.offset = BitVec.ofNat 64 i + 512 := by
        rcases (visit_ok went).2 with ⟨_, _, rfl⟩ | ⟨_, _, _, rfl⟩ | ⟨_, _, path, _, _, rfl⟩
        · exact ⟨[], (append_nil _).symm, forall_mem_nil _⟩
        · exact ⟨[], (append_nil _).symm, forall_mem_nil _⟩
        · refine ⟨_, rfl, ?_⟩
          rw [fileOf]
          split <;> simp
      cases next with
      | none =>
        cases done
        exact ⟨more, rfl, fun file listed => ⟨i, .refl, inside, own file listed⟩⟩
      | some there =>
        obtain ⟨later, rfl, rest⟩ := ih done
        refine ⟨more ++ later, append_assoc _ _ _, forall_mem_append.mpr
          ⟨fun file listed => ⟨i, .refl, inside, own file listed⟩, fun file listed => ?_⟩⟩
        obtain ⟨from_, reached, below, offset⟩ := rest file listed
        exact ⟨from_, .head ⟨inside, _, _, went⟩ reached, below, offset⟩
    next =>
      cases done
      exact ⟨[], (append_nil _).symm, forall_mem_nil _⟩

/-- One header, with the first byte of its name and the ninth of its size field. -/
def header (start : Nat) (first digit : Byte) : Bytes := fun i =>
  if i = start then first
  else if i = start + 132 then digit
  else if start + 124 ≤ i ∧ i < start + 135 then 0x30
  else if start + 257 ≤ i then magic.getD (i - (start + 257)) 0
  else 0

end Nx.Tarfs
