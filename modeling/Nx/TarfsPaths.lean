import Nx.Tarfs

/-!
What kernel/source/filesystems/fs/tarfs.cpp records of a whole archive in the ustar format.
-/

namespace Nx.TarfsPaths

open Words Scans Tarfs List
open BitVec (ofNat ofNat_add getElem_and getElem_not toNat_add toNat_ofNat)

structure Member where
  name : List Byte
  namePrefix : List Byte
  /-- of the size field, the lowest first -/
  digits : List Nat

namespace Member

def size (member : Member) : Nat := Nat.ofDigits 8 member.digits

def path (member : Member) : List Byte :=
  0x2F :: if member.namePrefix = [] then member.name else member.namePrefix ++ 0x2F :: member.name

def extent (member : Member) : Nat := 512 + (member.size + 511) / 512 * 512

/-- The size field has eleven digits; and if the member is recorded, its prefix is empty and its
name is ended by a zero, in its field or right behind it. -/
structure Plain (member : Member) (bytes : Bytes) (i : Nat) : Prop where
  eleven : member.digits.length = 11
  named : member.size ≠ 0 → member.namePrefix = [] ∧
    (member.name.length < 100 ∨ bytes (i + 100) = 0)

end Member

def Holds (bytes : Bytes) : Nat → List Byte → Prop
  | _, [] => True
  | ptr, char :: rest => bytes ptr = char ∧ Holds bytes (ptr + 1) rest

structure Text (bytes : Bytes) (ptr width : Nat) (text : List Byte) : Prop where
  fits : text.length ≤ width
  plain : 0 ∉ text
  holds : Holds bytes ptr text
  ended : text.length < width → bytes (ptr + text.length) = 0

def digitByte (digit : Nat) : Byte := ofNat 8 (0x30 + digit)

structure Header (bytes : Bytes) (i : Nat) (member : Member) : Prop where
  name : Text bytes i 100 member.name
  start : ∃ first rest, member.name = first :: rest ∧ first ≠ 0x2E ∧ first ≠ 0x2F
  namePrefix : Text bytes (i + 345) 155 member.namePrefix
  octal : ∀ digit ∈ member.digits, digit < 8
  size : Holds bytes (i + 124) (member.digits.reverse.map digitByte)
  terminated : member.digits.length ≤ 11 ∧
    ∀ k < 12, member.digits.length ≤ k → bytes (i + 124 + k) = 0 ∨ bytes (i + 124 + k) = 0x20
  ustar : Holds bytes (i + 257) magic
  /-- The bytes of the block behind the fields. -/
  pad : ∀ k < 12, bytes (i + 500 + k) = 0

inductive Archive (bytes : Bytes) (size : Nat) : Nat → List Member → Prop where
  | finish {i : Nat} : i ≤ size → (size - i) % 512 = 0 → (∀ k < size, i ≤ k → bytes k = 0) →
      Archive bytes size i []
  | member {i : Nat} {member : Member} {rest : List Member} : Header bytes i member →
      i + member.extent ≤ size →
      Archive bytes size (i + member.extent) rest → Archive bytes size i (member :: rest)

def recorded : Nat → List Member → List TarFile
  | _, [] => []
  | i, member :: rest =>
    (if member.size = 0 then [] else [⟨member.path, ofNat 64 member.size, ofNat 64 (i + 512)⟩]) ++
      recorded (i + member.extent) rest

/-- Every member of the archive is plain. -/
def AllPlain (bytes : Bytes) : Nat → List Member → Prop
  | _, [] => True
  | i, member :: rest => member.Plain bytes i ∧ AllPlain bytes (i + member.extent) rest

variable {size i : Nat} {member : Member}

theorem holds_concat : Holds bytes ptr (text ++ [char]) ↔ Holds bytes ptr text ∧
    bytes (ptr + text.length) = char := by
  induction text generalizing ptr with
  | nil => simp [Holds]
  | cons _ _ ih => simp only [cons_append, Holds, ih, length_cons, and_assoc, Nat.add_assoc, Nat.add_comm 1]

theorem stringFrom_text (field : Text bytes ptr width text) (zero : bytes (ptr + text.length) = 0)
    (room : text.length < left) : stringFrom bytes ptr left = .ok text := by
  obtain ⟨fits, plain, holds, ended⟩ := field
  clear ended fits
  induction text generalizing ptr left with
  | nil =>
    obtain ⟨left, rfl⟩ := Nat.exists_eq_add_one_of_ne_zero (Nat.ne_of_gt room)
    exact if_pos zero
  | cons _ rest ih =>
    obtain ⟨_, rfl⟩ := Nat.exists_eq_add_one_of_ne_zero (Nat.ne_of_gt (Nat.zero_lt_of_lt room))
    obtain ⟨here, later⟩ := holds
    rw [mem_cons, not_or] at plain
    have more : bytes ptr ≠ 0 := here ▸ Ne.symm plain.1
    have behind : bytes (ptr + 1 + rest.length) = 0 := by rwa [Nat.add_right_comm]
    rw [stringFrom, if_neg more, bind_ok (ih behind (Nat.lt_of_succ_lt_succ room) plain.2 later),
      here]
    rfl

theorem holds_getD (holds : Holds bytes ptr text) :
    ∀ k < text.length, bytes (ptr + k) = text.getD k 0 := by
  induction text generalizing ptr with
  | nil => simp
  | cons _ _ ih =>
    intro k below
    cases k with
    | zero => simpa using holds.1
    | succ k => simpa [Nat.add_assoc, Nat.add_comm 1] using ih holds.2 k (Nat.lt_of_succ_lt_succ below)

theorem digit_value (small : digit < 8) : (digitByte digit).signExtend 64 - 0x30 =
    ofNat 64 digit := by
  interval_cases digit <;> rfl

theorem octal_digits (small : ∀ digit ∈ digits, digit < 8)
    (holds : Holds bytes oct (digits.reverse.map digitByte)) :
    Tarfs.octal bytes oct digits.length mul ret = ret + mul * ofNat 64 (Nat.ofDigits 8 digits) := by
  induction digits generalizing mul ret with
  | nil => simp [Tarfs.octal]
  | cons _ _ ih =>
    rw [reverse_cons, map_append, map_singleton, holds_concat] at holds
    obtain ⟨below, last⟩ := holds
    rw [length_map, length_reverse] at last
    rw [forall_mem_cons] at small
    rw [length_cons, Tarfs.octal, last, digit_value small.1, ih small.2 below, Nat.ofDigits_cons]
    simp only [ofNat_add, BitVec.ofNat_mul, BitVec.mul_add, BitVec.mul_assoc, BitVec.add_assoc]
    rfl

theorem rounded_toNat (word : Word) : (word &&& ~~~ 511).toNat = word.toNat / 512 * 512 := by
  have apart : (word &&& 511) &&& (word &&& ~~~ 511) = 0#64 := by
    ext k
    simp only [getElem_and, getElem_not, BitVec.getElem_zero]
    cases (511 : Word)[k] <;> simp
  have whole : (word &&& 511) + (word &&& ~~~ 511) = word := by
    rw [BitVec.add_eq_or_of_and_eq_zero _ _ apart]
    ext k
    simp only [getElem_and, getElem_not, BitVec.getElem_or]
    cases (511 : Word)[k] <;> simp
  have sum : (word &&& 511).toNat + (word &&& ~~~ 511).toNat = word.toNat := by
    rw [← BitVec.toNat_add_of_and_eq_zero apart, whole]
  have low : (word &&& 511).toNat = word.toNat % 512 := by
    rw [BitVec.toNat_and]
    exact Nat.and_two_pow_sub_one_eq_mod _ 9
  omega

theorem terminator_value (ends : byte = (0 : Byte) ∨ byte = 0x20) :
    ∃ c, (c = 48 ∨ c = 16) ∧ byte.signExtend 64 - 0x30 = - ofNat 64 c := by
  rcases ends with rfl | rfl
  · exact ⟨48, .inl rfl, rfl⟩
  · exact ⟨16, .inr rfl, rfl⟩

/-- The terminators in a size field are taken for digits. -/
theorem octal_terminated {digits count : Nat} {mul ret : Word}
    (ends : ∀ j < count, bytes (oct + digits + j) = 0 ∨ bytes (oct + digits + j) = 0x20) :
    ∃ less, Tarfs.octal bytes oct (digits + count) mul ret =
        Tarfs.octal bytes oct digits (mul * ofNat 64 (8 ^ count)) (ret - mul * ofNat 64 less) ∧
      16 ∣ less ∧ 7 * less ≤ 48 * (8 ^ count - 1) ∧ (0 < count → 0 < less) := by
  induction count generalizing mul ret with
  | zero => exact ⟨0, by simp, by simp, by simp, by simp⟩
  | succ count ih =>
    obtain ⟨c, either, value⟩ := terminator_value (ends count (Nat.lt_succ_self count))
    obtain ⟨less, rest, divides, bound, _⟩ := @ih (mul * 8) (ret + mul * - ofNat 64 c)
      fun j below => ends j (Nat.lt_succ_of_lt below)
    refine ⟨c + 8 * less, ?_, by omega, ?_, fun _ => by omega⟩
    · rw [← Nat.add_assoc, Tarfs.octal, ← Nat.add_assoc, value, rest, Nat.pow_succ']
      congr 1
      · rw [BitVec.ofNat_mul, BitVec.mul_assoc]
        rfl
      · rw [ofNat_add, BitVec.ofNat_mul, BitVec.mul_add, BitVec.mul_assoc]
        have eight : (8 : Word) = ofNat 64 8 := rfl
        rw [eight]
        ring
    · have : 1 ≤ 8 ^ count := Nat.one_le_two_pow.trans (Nat.pow_le_pow_left (by decide) count)
      rw [Nat.pow_succ]
      omega

theorem size_lt (octal : ∀ digit ∈ member.digits, digit < 8) :
    member.size < 8 ^ member.digits.length :=
  Nat.ofDigits_lt_base_pow_length (by decide : 1 < 8) octal

theorem size_small (header : Header bytes i member) : member.size < 2 ^ 33 := by
  have power : 8 ^ member.digits.length ≤ 8 ^ 11 :=
    Nat.pow_le_pow_right (by decide) header.terminated.1
  have := size_lt header.octal
  omega

theorem terminated_differs {count size less : Nat} (some_ : 0 < count) (divides : 16 ∣ less)
    (bound : 7 * less ≤ 48 * (8 ^ count - 1)) (positive : 0 < less) :
      8 ^ count * size ≠ size + less := by
  intro equal
  obtain ⟨count, rfl⟩ := Nat.exists_eq_add_one_of_ne_zero some_.ne'
  have large : 1 ≤ 8 ^ count := Nat.one_le_pow _ _ (by decide)
  rw [Nat.pow_succ'] at bound equal
  obtain ⟨odd, isOdd⟩ : ∃ odd, 8 * 8 ^ count = odd + 1 := ⟨8 * 8 ^ count - 1, by omega⟩
  rw [isOdd] at bound equal
  have product : odd * size = less := by
    rw [Nat.add_mul] at equal
    omega
  have coprime : Nat.Coprime 16 odd :=
    Nat.Coprime.pow_left 4 (Nat.coprime_two_left.mpr (Nat.odd_iff.mpr (by omega)))
  obtain ⟨rest, rfl⟩ := coprime.dvd_of_dvd_mul_left (product ▸ divides)
  cases rest with
  | zero => simp [← product] at positive
  | succ rest =>
    have : odd * (16 * (rest + 1)) = 16 * odd * rest + 16 * odd := by ring
    have : 0 ≤ 16 * odd * rest := Nat.zero_le _
    omega

theorem sizeField_iff (header : Header bytes i member) :
    sizeField bytes i = ofNat 64 member.size ↔ member.digits.length = 11 := by
  obtain ⟨atMost, ends⟩ := header.terminated
  constructor
  · intro same
    by_contra fewer
    obtain ⟨count, isCount⟩ : ∃ count, member.digits.length + count = 11 :=
      ⟨11 - member.digits.length, by omega⟩
    have behind (j : Nat) (below : j < count) :
        bytes (i + 124 + member.digits.length + j) = 0 ∨
          bytes (i + 124 + member.digits.length + j) = 0x20 := by
      have := ends (member.digits.length + j) (by omega) (by omega)
      rwa [← Nat.add_assoc] at this
    obtain ⟨less, read, divides, bound, positive⟩ := @octal_terminated _ _ _ _ 1 0 behind
    have value : ofNat 64 (8 ^ count * member.size) = ofNat 64 (member.size + less) := by
      rw [sizeField, ← isCount, read, octal_digits header.octal header.size] at same
      rw [ofNat_add, ← same, BitVec.ofNat_mul, Member.size]
      ring
    have power : 8 ^ member.digits.length * 8 ^ count = 8 ^ 11 := by rw [← Nat.pow_add, isCount]
    have below : 8 ^ count * member.size < 8 ^ 11 := by
      rw [← power, Nat.mul_comm]
      exact Nat.mul_lt_mul_of_pos_right (size_lt header.octal) (by positivity)
    have upTo : 8 ^ count ≤ 8 ^ 11 := Nat.pow_le_pow_right (by decide) (by omega)
    have small := size_small header
    have equal := congrArg BitVec.toNat value
    rw [toNat_ofNat, toNat_ofNat, Nat.mod_eq_of_lt (by omega), Nat.mod_eq_of_lt (by omega)] at equal
    exact terminated_differs (by omega) divides bound (positive (by omega)) equal
  · intro eleven
    rw [sizeField, ← eleven, octal_digits header.octal header.size]
    simp [Member.size]

theorem stride_extent (small : member.size < 2 ^ 33) :
    (stride (ofNat 64 member.size)).toNat = member.extent := by
  have sum : (ofNat 64 member.size + 511).toNat = member.size + 511 := by
    rw [toNat_add, toNat_ofNat]
    simp
    omega
  have rounded := rounded_toNat (ofNat 64 member.size + 511)
  rw [sum] at rounded
  unfold stride Member.extent
  generalize (ofNat 64 member.size + 511) &&& ~~~ 511 = s at rounded
  have blocks := blocks_toNat (show s.toNat + 512 < 2 ^ 64 by omega)
  dsimp only
  split
  next => omega
  next other =>
    rw [BitVec.lt_def, blocks] at other
    simp at other ⊢
    omega

theorem offset_toNat {step : Word} (fits : i + step.toNat < 2 ^ 64) :
    (ofNat 64 i + step).toNat = i + step.toNat := by
  rw [toNat_add, toNat_ofNat, Nat.mod_eq_of_lt (by omega : i < 2 ^ 64), Nat.mod_eq_of_lt fits]

theorem visit_zero (bounded : i + 512 < 2 ^ 64) (inside : i < size) (zero : bytes i = 0) :
    visit bytes size i files = .ok (some (i + 512), files) := by
  rw [visit, bind_ok (readByte_inside inside), if_pos zero,
    offset_toNat (show i + (512 : Word).toNat < _ from bounded)]
  rfl

theorem Header.first (header : Header bytes i member) :
    bytes i ≠ 0 ∧ bytes i ≠ 0x2E ∧ bytes i ≠ 0x2F := by
  obtain ⟨_, _, isName, noDot, noSlash⟩ := header.start
  have holds := header.name.holds
  have zeroFree := header.name.plain
  rw [isName] at holds zeroFree
  rw [holds.1]
  exact ⟨fun zero => zeroFree (zero ▸ mem_cons_self), noDot, noSlash⟩

theorem Header.prefixEnd (header : Header bytes i member) :
    bytes (i + 345 + member.namePrefix.length) = 0 := by
  have fits := header.namePrefix.fits
  by_cases short : member.namePrefix.length < 155
  · exact header.namePrefix.ended short
  · have full : member.namePrefix.length = 155 := by omega
    rw [full]
    exact header.pad 0 (by decide)

/-- Every header of an archive is read as a file, with its own prefix. -/
theorem Header.entry (header : Header bytes i member) (block : i + 512 ≤ size) :
    ∃ name path, Entry bytes size i member.namePrefix name path := by
  have fits := header.namePrefix.fits
  have own : ¬ Foreign bytes size i := fun ⟨k, below, _, differs⟩ =>
    differs (holds_getD header.ustar k below)
  have ends := header.prefixEnd
  obtain ⟨_, name, path, entry⟩ := entry_of_complete header.first.1 own (by omega)
    ⟨member.namePrefix.length, by omega, ends⟩ (fun dot => absurd dot header.first.2.1)
  obtain rfl := Except.ok.inj (entry.readPrefix.symm.trans
    (stringFrom_text header.namePrefix ends (by omega)))
  exact ⟨name, path, entry⟩

def Member.files (member : Member) (i : Nat) : List TarFile :=
  if member.size = 0 then [] else [⟨member.path, ofNat 64 member.size, ofNat 64 (i + 512)⟩]

theorem recorded_cons (i : Nat) (member : Member) (rest : List Member) :
    recorded i (member :: rest) = member.files i ++ recorded (i + member.extent) rest := rfl

theorem size_zero_iff (small : member.size < 2 ^ 33) :
    ofNat 64 member.size = 0 ↔ member.size = 0 := by
  rw [← BitVec.toNat_inj, toNat_ofNat]
  simp
  omega

theorem next_extent (small : member.size < 2 ^ 33) (bounded : size < 2 ^ 64)
    (inside : i + member.extent ≤ size) :
    (ofNat 64 i + stride (ofNat 64 member.size)).toNat = i + member.extent := by
  have stride := stride_extent small
  rw [offset_toNat (by omega), stride]

theorem Member.extent_le (member : Member) : 512 ≤ member.extent := by
  unfold Member.extent
  omega

theorem fileOf_plain (header : Header bytes i member) (plain : member.Plain bytes i)
    (entry : Entry bytes size i member.namePrefix name path) :
      fileOf bytes i path = member.files i := by
  have isSize := (sizeField_iff header).mpr plain.eleven
  rw [fileOf, Member.files, isSize]
  simp only [size_zero_iff (size_small header), ofNat_add]
  split
  next => rfl
  next some_ =>
    obtain ⟨noPrefix, ended⟩ := plain.named some_
    have zero : bytes (i + member.name.length) = 0 := by
      by_cases short : member.name.length < 100
      · exact header.name.ended short
      · have full : member.name.length = 100 := le_antisymm header.name.fits (by omega)
        rw [full]
        exact ended.resolve_left short
    have whole := entry.whole
    have fits := header.name.fits
    obtain rfl := Except.ok.inj (entry.readName.symm.trans (stringFrom_text header.name zero (by omega)))
    obtain ⟨first, rest, isName, noDot, noSlash⟩ := header.start
    have isPath := entry.isPath
    rw [noPrefix, isName] at isPath
    simp only [nil_append, pathOf, front, bind_ok rfl, noDot, noSlash, if_false] at isPath
    cases isPath
    rw [Member.path, if_pos noPrefix, isName]
    rfl

theorem visit_member (bounded : size < 2 ^ 64) (header : Header bytes i member)
    (plain : member.Plain bytes i)
    (inside : i + member.extent ≤ size) :
    visit bytes size i files = .ok (some (i + member.extent), files ++ member.files i) := by
  have block := member.extent_le
  obtain ⟨_, _, entry⟩ := header.entry (show i + 512 ≤ size by omega)
  rw [visit_entry entry, (sizeField_iff header).mpr plain.eleven,
    next_extent (size_small header) bounded inside,
    fileOf_plain header plain entry]

theorem scan_zeros (bounded : size < 2 ^ 64) (enough : size ≤ i + fuel) (inside : i ≤ size)
    (blocks : (size - i) % 512 = 0) (zeros : ∀ k < size, i ≤ k → bytes k = 0) :
    scan size (visit bytes size) fuel i files = .ok (true, files) := by
  induction fuel generalizing i with
  | zero => exact if_neg (by omega)
  | succ _ ih =>
    rw [scan]
    split
    next more =>
      rw [bind_ok (visit_zero (by omega) more (zeros i more le_rfl))]
      exact ih (by omega) (by omega) (by omega) fun k below _ => zeros k below (by omega)
    next => rfl

theorem scan_records (bounded : size < 2 ^ 64) (archive : Archive bytes size i members)
    (plain : AllPlain bytes i members) (enough : size ≤ i + fuel) :
    scan size (visit bytes size) fuel i files = .ok (true, files ++ recorded i members) := by
  -- each member takes one turn, and the zero blocks one each
  induction archive generalizing fuel files with
  | finish inside blocks zeros =>
    rw [recorded, append_nil]
    exact scan_zeros bounded enough inside blocks zeros
  | @member i member _ header inside _ ih =>
    have block := member.extent_le
    obtain ⟨fuel, rfl⟩ : ∃ less, fuel = less + 1 := Nat.exists_eq_add_one_of_ne_zero (by omega)
    rw [scan, if_pos (by omega), bind_ok (visit_member bounded header plain.1 inside),
      recorded_cons,
      ← append_assoc]
    exact ih plain.2 (by omega)

/-! Only plain members are recorded right. -/

theorem recorded_offset (archive : Archive bytes size i members)
    (listed : file ∈ recorded i members) :
    ∃ there, i ≤ there ∧ there < size ∧ file.offset = ofNat 64 (there + 512) := by
  induction archive with
  | finish => cases listed
  | @member i member _ _ inside _ ih =>
    have block := member.extent_le
    rw [recorded_cons] at listed
    rcases mem_append.mp listed with own | later
    · rw [Member.files] at own
      split at own
      · cases own
      · exact ⟨i, le_rfl, by omega, by rw [mem_singleton.mp own]⟩
    · obtain ⟨there, above, below, offset⟩ := ih later
      exact ⟨there, by omega, below, offset⟩

theorem offset_inj (bounded : size + 1024 ≤ 2 ^ 64) (inside : i < size) (below : there < size)
    (same : ofNat 64 (i + 512) = ofNat 64 (there + 512)) : i = there := by
  have equal := congrArg BitVec.toNat same
  rw [toNat_ofNat, toNat_ofNat, Nat.mod_eq_of_lt (by omega), Nat.mod_eq_of_lt (by omega)] at equal
  omega

/-- A text that starts with `text` both at its front and behind some dots and slashes goes on with
such a character. -/
theorem repeats_mark {text skipped : List Byte} (marks : ∀ char ∈ skipped, char = 0x2E ∨
    char = 0x2F)
    (same : text ++ first :: rest = skipped ++ (text ++ 0x2F :: more)) : first = 0x2E ∨
      first = 0x2F := by
  by_cases none_ : skipped = []
  · subst none_
    exact .inr (cons.inj (append_cancel_left same)).1
  have some_ : skipped.length ≠ 0 := fun zero => none_ (length_eq_zero_iff.mp zero)
  -- character by character, each one is skipped or stands already in front
  have all (j : Nat) (upTo : j ≤ text.length) (char : Byte)
      (there : (text ++ first :: rest)[j]? = some char) : char = 0x2E ∨ char = 0x2F := by
    induction j using Nat.strong_induction_on generalizing char with
    | _ j ih =>
      rw [same] at there
      by_cases inSkipped : j < skipped.length
      · rw [getElem?_append_left inSkipped] at there
        exact marks char (mem_of_getElem? there)
      · have inText : j - skipped.length < text.length := by omega
        rw [getElem?_append_right (by omega), getElem?_append_left inText] at there
        refine ih (j - skipped.length) (by omega) (by omega) char ?_
        rwa [getElem?_append_left inText]
  exact all text.length le_rfl first (by simp)

theorem pathOf_ok (done : pathOf text = .ok path) : ∃ skipped left, text = skipped ++ left ∧
    path = 0x2F :: left ∧ ∀ char ∈ skipped, char = 0x2E ∨ char = 0x2F := by
  cases text with
  | nil => cases done
  | cons first rest =>
    by_cases dot : first = 0x2E
    · cases rest with
      | nil =>
        simp only [pathOf, front, bind_ok rfl, dot, if_true] at done
        cases done
      | cons second rest =>
        simp only [pathOf, front, bind_ok rfl, dot, if_true, drop_one, tail_cons] at done
        by_cases slash : second = 0x2F
        · rw [if_pos slash] at done
          cases done
          exact ⟨[first, second], rest, rfl, by rw [slash], by simp [dot, slash]⟩
        · rw [if_neg slash] at done
          cases done
          exact ⟨[first], second :: rest, rfl, rfl, by simp [dot]⟩
    · simp only [pathOf, front, bind_ok rfl, dot, if_false] at done
      by_cases slash : first = 0x2F
      · rw [if_pos slash] at done
        cases done
        exact ⟨[first], rest, rfl, by rw [slash], by simp [slash]⟩
      · rw [if_neg slash] at done
        cases done
        exact ⟨[], first :: rest, rfl, rfl, by simp⟩

theorem Entry.name_cons (entry : Entry bytes size i namePrefix name path) :
    ∃ rest, name = bytes i :: rest := by
  have readName := entry.readName
  obtain ⟨left, isLeft⟩ : ∃ left, size - i = left + 1 :=
    ⟨size - i - 1, by have := entry.whole; omega⟩
  rw [isLeft, stringFrom, if_neg entry.header] at readName
  obtain ⟨rest, _, done⟩ := ok_of_bind readName
  cases done
  exact ⟨rest, rfl⟩

/-- Where the path is right there is no prefix, and the name is ended by a zero. -/
theorem named_of_path (header : Header bytes i member)
    (entry : Entry bytes size i member.namePrefix name path) (isPath : path = member.path) :
    member.namePrefix = [] ∧ (member.name.length < 100 ∨ bytes (i + 100) = 0) := by
  obtain ⟨_, noDot, noSlash⟩ := header.first
  obtain ⟨rest, isName⟩ := Entry.name_cons entry
  obtain ⟨skipped, left, split, isLeft, marks⟩ := pathOf_ok entry.isPath
  have rightPath : left = if member.namePrefix = [] then member.name
      else member.namePrefix ++ 0x2F :: member.name :=
    (cons.inj (isLeft.symm.trans isPath)).2
  rw [isName] at split
  by_cases noPrefix : member.namePrefix = []
  · refine ⟨noPrefix, ?_⟩
    rw [if_pos noPrefix] at rightPath
    rw [noPrefix, nil_append, rightPath] at split
    have none_ : skipped = [] := by
      cases skipped with
      | nil => rfl
      | cons char _ =>
        obtain rfl : bytes i = char := (cons.inj split).1
        exact absurd (marks _ mem_cons_self) (not_or.mpr ⟨noDot, noSlash⟩)
    rw [none_, nil_append, ← isName] at split
    subst split
    have ends := (stringFrom_ok entry.readName).2
    by_cases short : member.name.length < 100
    · exact .inl short
    · have full : member.name.length = 100 := le_antisymm header.name.fits (by omega)
      exact .inr (full ▸ ends)
  · rw [if_neg noPrefix] at rightPath
    rw [rightPath] at split
    exact absurd (repeats_mark marks split) (not_or.mpr ⟨noDot, noSlash⟩)

theorem eleven_of_files (bounded : size + 1024 ≤ 2 ^ 64) (header : Header bytes i member)
    (archive : Archive bytes size (i + member.extent) rest)
    (elsewhere : ∀ file ∈ more, file.offset ≠ ofNat 64 (i + 512))
    (shape : member.files i ++ recorded (i + member.extent) rest = fileOf bytes i path ++ more) :
    member.digits.length = 11 := by
  have block := member.extent_le
  rw [← sizeField_iff header]
  by_contra differs
  by_cases zero : sizeField bytes i = 0
  · -- the member is lost, and nothing behind it is recorded in its place
    have some_ : member.size ≠ 0 := fun none_ => differs (by rw [zero, none_]; rfl)
    rw [fileOf, if_pos zero, nil_append, Member.files, if_neg some_] at shape
    have own : (⟨member.path, ofNat 64 member.size, ofNat 64 (i + 512)⟩ : TarFile) ∈ more :=
      shape ▸ mem_append_left _ (mem_singleton_self _)
    exact elsewhere _ own rfl
  · rw [fileOf, if_neg zero] at shape
    by_cases none_ : member.size = 0
    · rw [Member.files, if_pos none_, nil_append] at shape
      obtain ⟨there, above, below, offset⟩ := recorded_offset archive
        (shape ▸ mem_append_left _ (mem_singleton_self _))
      have same : ofNat 64 (i + 512) = ofNat 64 (there + 512) := (ofNat_add i 512).trans offset
      have := offset_inj bounded (by omega) below same
      omega
    · rw [Member.files, if_neg none_] at shape
      have heads := (cons.inj shape).1
      exact differs (congrArg TarFile.size heads).symm

theorem plain_of_scan (bounded : size + 1024 ≤ 2 ^ 64) (archive : Archive bytes size i members)
    (done : scan size (visit bytes size) fuel i files = .ok (flag, files ++ recorded i members)) :
    AllPlain bytes i members := by
  induction archive generalizing fuel files with
  | finish => trivial
  | @member i member rest header inside archive ih =>
    have block := member.extent_le
    obtain ⟨name, path, entry⟩ := header.entry (show i + 512 ≤ size by omega)
    rcases scan_ok done with ⟨past, _⟩ | ⟨below, less, next, after, went, ends⟩
    · omega
    cases (visit_entry entry).symm.trans went
    obtain ⟨none_, _⟩ | ⟨there, same, later⟩ := ends
    · cases none_
    obtain ⟨more, isMore, fresh⟩ := scan_adds later
    rw [append_assoc] at isMore
    have shape := append_cancel_left isMore
    rw [recorded_cons] at shape
    have elsewhere : ∀ file ∈ more, file.offset ≠ ofNat 64 (i + 512) := by
      intro file listed offset
      obtain ⟨back, reached, isBelow, isOffset⟩ := fresh file listed
      have equal : ofNat 64 (i + 512) = ofNat 64 (back + 512) :=
        offset.symm.trans (isOffset.trans (ofNat_add back 512).symm)
      obtain rfl := offset_inj bounded below isBelow equal
      refine scan_acyclic ?_ done (.head' ⟨below, _, _, same ▸ went⟩ reached)
      exact fun _ _ _ _ _ _ _ => visit_next
    have eleven := eleven_of_files bounded header archive elsewhere shape
    have isSize := (sizeField_iff header).mpr eleven
    have plain : member.Plain bytes i := by
      refine ⟨eleven, fun some_ => named_of_path header entry ?_⟩
      have nonzero : sizeField bytes i ≠ 0 := by rwa [isSize, Ne, size_zero_iff (size_small header)]
      rw [fileOf, if_neg nonzero, Member.files, if_neg some_] at shape
      exact (congrArg TarFile.name (cons.inj shape).1).symm
    rw [isSize, next_extent (size_small header) (by omega) inside] at same
    rw [← Option.some.inj same, fileOf_plain header plain entry, recorded_cons,
      ← append_assoc] at later
    exact ⟨plain, ih later⟩

/-- Members with a size field of eleven digits and, where they are recorded, without a prefix and
with a name that is ended by a zero, are exactly those that are all recorded right. -/
theorem init_records_iff {members : List Member} (bounded : size + 1024 ≤ 2 ^ 64)
    (archive : Archive bytes size 0 members) :
    ((∃ fuel flag, init bytes size fuel = .ok (flag, recorded 0 members)) ↔
      AllPlain bytes 0 members) ∧
    (AllPlain bytes 0 members → init bytes size size = .ok (true, recorded 0 members)) := by
  have records (plain : AllPlain bytes 0 members) :
      init bytes size size = .ok (true, recorded 0 members) :=
    scan_records (by omega) archive plain (by omega)
  refine ⟨⟨?_, fun plain => ⟨size, true, records plain⟩⟩, records⟩
  rintro ⟨fuel, flag, done⟩
  have whole : scan size (visit bytes size) fuel 0 [] = .ok (flag, [] ++ recorded 0 members) := done
  exact plain_of_scan bounded archive whole

def sixtyFour (name namePrefix : List Byte) :
    Member := ⟨name, namePrefix, [0, 0, 1, 0, 0, 0, 0, 0, 0, 0, 0]⟩

theorem init_records_single : init (header 0 0x61 0x31) 1024 1024 =
    .ok (true, recorded 0 [sixtyFour [0x61] []]) := by
  refine (init_records_iff (by decide) (.member ?_ (by decide +kernel)
    (.finish (by decide) (by decide) (by decide +kernel)))).2
      ⟨⟨by decide, fun _ => ⟨rfl, .inl (by decide)⟩⟩, trivial⟩
  exact ⟨⟨by decide, by decide, ⟨rfl, trivial⟩, fun _ => rfl⟩, ⟨_, _, rfl, by decide, by decide⟩,
    ⟨by decide, by decide, trivial, fun _ => by decide +kernel⟩, by decide,
    by simp [Holds, sixtyFour]; decide, ⟨by decide, by decide⟩, by simp [Holds, magic]; decide, by decide +kernel⟩

def prefixed : Bytes := fun i => if i = 345 then 0x61 else header 0 0x62 0x31 i

def filled : Bytes := fun i => if i < 100 then 0x62 else if i =
    100 then 0x30 else header 0 0x62 0x31 i

/-- The first becomes `/ab`, the other one goes on with the mode. -/
theorem init_misnames : (Archive prefixed 1024 0 [sixtyFour [0x62] [0x61]] ∧
    init prefixed 1024 1024 = .ok (true, [⟨[0x2F, 0x61, 0x62], 64, 512⟩]) ∧
    recorded 0 [sixtyFour [0x62] [0x61]] = [⟨[0x2F, 0x61, 0x2F, 0x62], 64, 512⟩]) ∧
    Archive filled 1024 0 [sixtyFour (replicate 100 0x62) []] ∧
    init filled 1024 1024 = .ok (true, [⟨0x2F :: (replicate 100 0x62 ++ [0x30]), 64, 512⟩]) ∧
    recorded 0 [sixtyFour (replicate 100 0x62) []] = [⟨0x2F :: replicate 100 0x62, 64, 512⟩] := by
  refine ⟨⟨.member ?_ (by decide +kernel) (.finish (by decide) (by decide) (by decide +kernel)),
    by decide +kernel,
    by decide +kernel⟩, .member ?_ (by decide +kernel)
      (.finish (by decide) (by decide) (by decide +kernel)),
    by decide +kernel, by decide +kernel⟩
  · exact ⟨⟨by decide, by decide, ⟨rfl, trivial⟩, fun _ => rfl⟩, ⟨_, _, rfl, by decide, by decide⟩,
      ⟨by decide, by decide, ⟨rfl, trivial⟩, fun _ => by decide +kernel⟩, by decide,
      by simp [Holds, sixtyFour]; decide, ⟨by decide, by decide⟩, by simp [Holds, magic]; decide,
      by decide +kernel⟩
  · exact ⟨⟨by decide, by decide +kernel, by simp [Holds, sixtyFour, filled], fun short => absurd short (by decide)⟩,
      ⟨_, _, rfl, by decide, by decide⟩,
        ⟨by decide, by decide, trivial, fun _ => by decide +kernel⟩, by decide,
      by simp [Holds, sixtyFour]; decide, ⟨by decide, by decide⟩, by simp [Holds, magic]; decide,
      by decide +kernel⟩

end Nx.TarfsPaths
