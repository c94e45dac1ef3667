import Mathlib

/-!
`str_view` and `parse_fmt_spec` of libs/zst/include/zpr.h.
-/

namespace Nx.ZprFormats

open List

/-- The length `substr` takes if it is given none. -/
def endless : BitVec 64 := -1

/-- The text from `ptr` up to the zero byte that ends the format string, and the length. -/
structure StrView where
  text : List Char
  len : BitVec 64

def StrView.head (sv : StrView) : Char := sv.text.headD '\x00'

def StrView.substr (sv : StrView) (pos : Nat) (cnt : BitVec 64) : StrView := ⟨sv.text.drop pos, cnt⟩

def StrView.drop (sv : StrView) (n : Nat) : StrView :=
  if sv.len.toNat > n then sv.substr n endless else ⟨[], 0⟩

def StrView.dropLast (sv : StrView) (n : Nat) : StrView :=
  if sv.len.toNat > n then sv.substr 0 (sv.len - BitVec.ofNat 64 n) else sv

structure FormatArgs where
  specifier : Option Char := none
  zeroPad : Bool := false
  alternate : Bool := false
  prependPlus : Bool := false
  prependSpace : Bool := false
  widthNegative : Bool := false
  haveWidth : Bool := false
  havePrecision : Bool := false
  width : Int := -1
  precision : Int := -1
  deriving DecidableEq

def setFlag (args : FormatArgs) : Char → Option FormatArgs
  | '0' => some { args with zeroPad := true }
  | '#' => some { args with alternate := true }
  | '-' => some { args with widthNegative := true }
  | '+' => some { args with prependPlus := true }
  | ' ' => some { args with prependSpace := true }
  | _ => none

def parseFlags (args : FormatArgs) (len : BitVec 64) : List Char → FormatArgs × StrView
  | [] => (args, ⟨[], len⟩)
  | c :: text =>
    if len = 0 then (args, ⟨c :: text, len⟩)
    else match setFlag args c with
    | some args => if len.toNat > 1 then parseFlags args endless text else (args, ⟨[], 0⟩)
    | none => (args, ⟨c :: text, len⟩)

/-- The loops over digits: the number, and where it ends. -/
def parseDigits (len : BitVec 64) (k number : Nat) : List Char → Nat × Nat
  | [] => (number, k)
  | c :: text =>
    if len.toNat > k ∧ c.isDigit then parseDigits len (k + 1)
      (10 * number + (c.toNat - '0'.toNat)) text
    else (number, k)

def parseWidth (args : FormatArgs) (sv : StrView) : FormatArgs × StrView :=
  if sv.head.isDigit then
    let (width, k) := parseDigits sv.len 0 0 sv.text
    ({ args with haveWidth := true, width := width }, sv.drop k)
  else (args, sv)

def parsePrecision (args : FormatArgs) (sv : StrView) : FormatArgs × StrView :=
  if sv.len.toNat < 2 ∨ sv.head ≠ '.' then (args, sv)
  else
    let sv := sv.drop 1
    if sv.head = '-' then (args, sv.drop (parseDigits sv.len 1 0 (sv.text.drop 1)).2)
    else if sv.head.isDigit then
      let (precision, k) := parseDigits sv.len 0 0 sv.text
      ({ args with havePrecision := true, precision := precision }, sv.drop k)
    else (args, sv)

def parseFmtSpec (sv : StrView) : FormatArgs :=
  -- dropping the first brace makes the view endless, so that the last one stays
  let sv := (sv.drop 1).dropLast 1
  let (args, sv) := parseFlags {} sv.len sv.text
  if sv.len = 0 then args
  else
    let (args, sv) := parseWidth args sv
    if sv.len = 0 then args
    else
      let (args, sv) := parsePrecision args sv
      if sv.len = 0 then args else { args with specifier := some sv.head }

theorem parse_bare (rest : List Char) : parseFmtSpec ⟨'{' :: '}' :: rest, 2#64⟩ =
    { specifier := some '}' } := by
  simp +decide [parseFmtSpec, StrView.drop, StrView.dropLast, StrView.substr, StrView.head,
    parseFlags, setFlag, parseWidth,
    parsePrecision]

end Nx.ZprFormats
