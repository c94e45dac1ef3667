import Nx.Scans
import Nx.Words

/-!
The part of `initrd::init` in kernel/source/misc/initrd.cpp that skips the header of a gzip file,
and the members of RFC 1952 that it is meant for.
-/

namespace Nx.GzipHeaders

open Scans (Byte)
open Words List BitVec

variable {mem : Nat → Byte} {data initrd fuel : Nat} {inpSz : Word}

/-- `while(*data) data++, inpSz--; data++; inpSz--;`; it goes on as long as the fuel lasts. -/
def skipString (mem : Nat → Byte) : Nat → Nat → Word → Option (Nat × Word)
  | 0, _, _ => none
  | fuel + 1, data, inpSz =>
    if mem data = 0 then some (data + 1, inpSz - 1) else skipString mem fuel (data + 1) (inpSz - 1)

def skipIf (flag : Bool) (mem : Nat → Byte) (fuel data : Nat) (inpSz : Word) :
    Option (Nat × Word) :=
  if flag then skipString mem fuel data inpSz else some (data, inpSz)

def word16 (mem : Nat → Byte) (data : Nat) : Nat := (mem data).toNat + 256 * (mem (data + 1)).toNat

def word32 (mem : Nat → Byte) (addr : Nat) : Nat := word16 mem addr + 65536 * word16 mem (addr + 2)

/-- No ticket can be made for no bytes, and `setup_memticket` aborts; for other sizes `collected` is
the buffer that collecting the new ticket gives, if any. -/
def setupMemticket (collected : Nat → Option Nat) (size : Nat) : Option Nat :=
  if size = 0 then none else collected size

/-- What is passed to `tinfl_decompress_mem_to_mem`: where the input starts and how long it is.
There is nothing where the code aborts. -/
def skipHeader (mem : Nat → Byte) (fuel initrd : Nat) (initrdSize : Word) :
    Option (Nat × Word) := do
  let flags := mem (initrd + 3)
  if mem (initrd + 2) ≠ 8 then none
  let (data, inpSz) :=
    if flags.getLsbD 2 then (initrd + 10 + word16 mem (initrd + 10), initrdSize - 2)
    else (initrd + 10, initrdSize)
  let (data, inpSz) ← skipIf (flags.getLsbD 3) mem fuel data inpSz
  let (data, inpSz) ← skipIf (flags.getLsbD 4) mem fuel data inpSz
  if flags.getLsbD 5 then none
  return (data, inpSz)

def init (mem : Nat → Byte) (collected : Nat → Option Nat) (fuel initrd : Nat) (initrdSize : Word) :
    Option (Nat × Word) :=
  if initrdSize = 0 ∨ initrd = 0 then none
  else if mem initrd = 0x1F ∧ mem (initrd + 1) = 0x8B then
    let uncompressedSize := word32 mem (initrd + initrdSize.toNat - 4)
    (setupMemticket collected uncompressedSize).bind fun _ => skipHeader mem fuel initrd initrdSize
  else none

/-! Members of a gzip file. -/

structure Member where
  text : Bool
  /-- The time, the extra flags and the operating system. -/
  fixed : List Byte
  extra : Option (List Byte)
  name : Option (List Byte)
  comment : Option (List Byte)
  headerCrc : Option (Byte × Byte)
  deflate : List Byte
  /-- The checksum and the size of the input. -/
  trailer : List Byte

structure Member.Valid (member : Member) : Prop where
  fixed : member.fixed.length = 6
  extra : ∀ extra ∈ member.extra, extra.length < 2 ^ 16
  name : ∀ name ∈ member.name, 0 ∉ name
  comment : ∀ comment ∈ member.comment, 0 ∉ comment
  trailer : member.trailer.length = 8

def Member.flags (member : Member) : Byte :=
  ofBoolListLE [member.text, member.headerCrc.isSome, member.extra.isSome, member.name.isSome,
    member.comment.isSome, false, false, false]

def extraField (extra : List Byte) : List Byte :=
  BitVec.ofNat 8 extra.length :: BitVec.ofNat 8 (extra.length / 256) :: extra

def Member.header (member : Member) : List Byte :=
  [0x1F, 0x8B, 8, member.flags] ++ member.fixed ++ member.extra.elim [] extraField ++
    member.name.elim [] (· ++ [0]) ++ member.comment.elim [] (· ++ [0]) ++
    member.headerCrc.elim [] fun crc => [crc.1, crc.2]

def Member.bytes (member : Member) : List Byte := member.header ++ member.deflate ++ member.trailer

/-- The member in memory, with anything around it. -/
def Member.loaded (member : Member) (initrd : Nat) (around : Nat → Byte) (addr : Nat) : Byte :=
  if initrd ≤ addr then member.bytes.getD (addr - initrd) (around addr) else around addr

/-- The inflater is given the deflate stream, and nothing after the end of the buffer. -/
def Skips (member : Member) (initrd : Nat) (around : Nat → Byte) (collected : Nat → Option Nat) :
    Prop :=
  ∃ fuel inpSz, init (member.loaded initrd around) collected fuel initrd
      (BitVec.ofNat 64 member.bytes.length) = some (initrd + member.header.length, inpSz) ∧
    member.header.length + inpSz.toNat ≤ member.bytes.length

theorem skipString_some (skipped : skipString mem fuel data inpSz = some (data', inpSz')) :
    ∃ count, data' = data + count ∧ inpSz' = inpSz - BitVec.ofNat 64 count := by
  induction fuel generalizing data inpSz with
  | zero => cases skipped
  | succ _ ih =>
    rw [skipString] at skipped
    split at skipped
    · cases skipped
      exact ⟨1, rfl, rfl⟩
    · obtain ⟨count, rfl, rfl⟩ := ih skipped
      refine ⟨count + 1, by omega, ?_⟩
      rw [ofNat_add]
      bv_omega

theorem skipIf_some (skipped : skipIf flag mem fuel data inpSz = some (data', inpSz')) :
    ∃ count, data' = data + count ∧ inpSz' = inpSz - BitVec.ofNat 64 count := by
  rw [skipIf] at skipped
  split at skipped
  · exact skipString_some skipped
  · cases skipped
    exact ⟨0, rfl, by simp⟩

/-- The ten bytes at the start are never taken off the length, and of the extra field only two are.
-/
theorem skipHeader_some (passed : skipHeader mem fuel initrd initrdSize = some (data, inpSz)) :
    ∃ ahead count, 8 ≤ ahead ∧ data = initrd + ahead + count ∧
      inpSz = initrdSize - BitVec.ofNat 64 count := by
  simp only [skipHeader, Option.bind_eq_bind] at passed
  split at passed
  · cases passed
  obtain ⟨⟨_, _⟩, name, passed⟩ := Option.bind_eq_some_iff.mp passed
  obtain ⟨⟨_, _⟩, comment, passed⟩ := Option.bind_eq_some_iff.mp passed
  split at passed
  · cases passed
  cases passed
  obtain ⟨inComment, rfl, rfl⟩ := skipIf_some comment
  split at name
  · obtain ⟨inName, rfl, rfl⟩ := skipIf_some name
    refine ⟨8 + word16 mem (initrd + 10), 2 + inName + inComment, by omega, by omega, ?_⟩
    simp only [ofNat_add]
    bv_omega
  · obtain ⟨inName, rfl, rfl⟩ := skipIf_some name
    refine ⟨10, inName + inComment, by omega, by omega, ?_⟩
    simp only [ofNat_add]
    bv_omega

theorem skipHeader_of_init (passed : init mem collected fuel initrd initrdSize = some result) :
    skipHeader mem fuel initrd initrdSize = some result := by
  rw [init] at passed
  split at passed
  · cases passed
  split at passed
  · obtain ⟨_, _, passed⟩ := Option.bind_eq_some_iff.mp passed
    exact passed
  · cases passed

/-- The header is never skipped right: the code aborts, or what is passed goes beyond the end of the
buffer. -/
theorem never_skips (member : Member) (valid : member.Valid) (fits : member.bytes.length < 2 ^ 64)
    (initrd : Nat) (around : Nat → Byte) (collected : Nat → Option Nat) :
    ¬ Skips member initrd around collected := by
  rintro ⟨_, _, passed, inside⟩
  obtain ⟨_, _, _, _, rfl⟩ := skipHeader_some (skipHeader_of_init passed)
  have whole : member.bytes.length = member.header.length + member.deflate.length + 8 := by
    simp [Member.bytes, valid.trailer, Nat.add_assoc]
  rw [toNat_sub_of_le, toNat_ofNat, toNat_ofNat, Nat.mod_eq_of_lt fits,
    Nat.mod_eq_of_lt (by omega)] at inside
  · omega
  · rw [le_def, toNat_ofNat, toNat_ofNat, Nat.mod_eq_of_lt fits, Nat.mod_eq_of_lt (by omega)]
    omega

/-- No optional fields, and a stored block with the one byte `a`. -/
def plain : Member :=
  ⟨false, [0, 0, 0, 0, 0, 3], none, none, none, none, [1, 1, 0, 0xFE, 0xFF, 0x61],
    [0x43, 0xBE, 0xB7, 0xE8, 1, 0, 0, 0]⟩

theorem plain_valid : plain.Valid := ⟨rfl, by simp [plain], by simp [plain], by simp [plain], rfl⟩

theorem never_skips_plain : ¬ Skips plain 0x1000 (fun _ => 0) some :=
  never_skips plain plain_valid (by decide) 0x1000 _ some

/-- All twenty-four bytes are passed, from the tenth on. -/
theorem plain_overrun : plain.bytes.length = 24 ∧
    (∀ fuel, init (plain.loaded 0x1000 fun _ => 0) some fuel 0x1000 24 = some (0x100A, 24)) ∧
    ¬ Skips plain 0x1000 (fun _ => 0) some := by
  refine ⟨rfl, fun _ => rfl, ?_⟩
  rintro ⟨_, inpSz, passed, inside⟩
  obtain rfl : 24 = inpSz := congrArg Prod.snd (Option.some.inj passed)
  revert inside
  decide

end Nx.GzipHeaders
