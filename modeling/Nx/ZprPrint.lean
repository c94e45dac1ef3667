import Nx.ZprFormats

/-!
The driver of libs/zst/include/zpr.h, and its appenders.
-/

namespace Nx.ZprPrint

open List ZprFormats

/-- A call of an appender. -/
inductive Call where
  | char (c : Char)
  | text (s : List Char)
  | repeated (c : Char) (n : Nat)
  deriving DecidableEq

/-- A formatter, at a value. -/
abbrev Argument := FormatArgs → List Call

def printString (str : List Char) : Argument := fun args =>
  let length : Int := if args.havePrecision then min args.precision str.length else str.length
  let padding := args.width - length
  let pad := if padding > 0 then [.repeated (if args.zeroPad then '0' else ' ') padding.toNat] else
      []
  (if args.haveWidth && !args.widthNegative then pad else []) ++ [.text (str.take length.toNat)] ++
    (if args.haveWidth && args.widthNegative then pad else [])

/-- The calls, what lies between `beg` and `end`, and what lies after `end`. -/
def skipFmts (value : Argument) (pending : List Char) :
    List Char → List Call × List Char × List Char
  | [] => ([], pending, [])
  | '\x00' :: rest => ([], pending, '\x00' :: rest)
  | '{' :: '{' :: rest =>
    let (calls, state) := skipFmts value [] rest
    (.text pending :: .char '{' :: calls, state)
  | '{' :: rest =>
    match rest.span fun c => c ≠ '\x00' ∧ c ≠ '}' with
    | (spec, '}' :: others) => (.text pending :: value
        (parseFmtSpec ⟨'{' :: rest, .ofNat 64 (spec.length + 2)⟩), [], others)
    -- `beg` stays where it was
    | (spec, others) => ([.text pending], pending ++ '{' :: spec, others)
  | '}' :: '}' :: rest =>
    let (calls, state) := skipFmts value [] rest
    (.text (pending ++ ['}']) :: calls, state)
  | '}' :: rest =>
    let (calls, state) := skipFmts value [] rest
    (.text (pending ++ ['}']) :: calls, state)
  | c :: rest => skipFmts value (pending ++ [c]) rest

def printFrom (pending rest : List Char) : List Argument → List Call
  | [] => [.text (pending ++ rest)]
  | value :: values =>
    let (calls, pending, rest) := skipFmts value pending rest
    calls ++ printFrom pending rest values

def print (fmt : List Char) (args : List Argument) : List Call := printFrom [] fmt args

/-! The appender without a bound, and the one of `sprint`. -/

def Call.output : Call → List Char
  | .char c => [c]
  | .text s => s
  | .repeated c n => replicate n c

def cprint (calls : List Call) : List Char := calls.flatMap Call.output

/-- `remaining` is read again in each round. -/
def fill (cap : Nat) (c : Char) (n i : Nat) (buf : List Char) : List Char :=
  if i < min (cap - buf.length) n then fill cap c n (i + 1) (buf ++ [c]) else buf
termination_by n - i

def append (cap : Nat) (buf : List Char) : Call → List Char
  | .char c => if buf.length < cap then buf ++ [c] else buf
  | .text s => buf ++ s.take (min (cap - buf.length) s.length)
  | .repeated c n => fill cap c n 0 buf

/-- What is in the buffer: its length is what `sprint` returns. -/
def sprint (cap : Nat) (calls : List Call) : List Char := calls.foldl (append cap) []

theorem fill_eq (cap : Nat) (c : Char) (n i : Nat) (buf : List Char) :
    fill cap c n i buf = buf ++ replicate (min (n - i) ((cap - buf.length - i + 1) / 2)) c := by
  fun_induction fill cap c n i buf with
  | case1 i buf _ ih =>
    -- the counter and the buffer grow, so that a round takes two from the distance between them
    have rounds : min (n - i) ((cap - buf.length - i + 1) / 2) =
        min (n - (i + 1)) ((cap - (buf ++ [c]).length - (i + 1) + 1) / 2) + 1 := by
      rw [length_append, length_singleton]
      omega
    rw [ih, rounds, replicate_succ, append_assoc, singleton_append]
  | case2 i buf =>
    have none : min (n - i) ((cap - buf.length - i + 1) / 2) = 0 := by omega
    rw [none, replicate_zero, append_nil]

/-- Where a repeated character is written as often as there is room. -/
def Fits (cap written : Nat) : Call → Prop
  | .repeated _ n => min n (cap - written) ≤ (cap - written + 1) / 2
  | _ => True

theorem append_take_iff (cap : Nat) (before : List Char) (call : Call) :
    append cap (before.take cap) call = (before ++ call.output).take cap ↔
      Fits cap before.length call := by
  cases call with
  | char c =>
    simp only [append, Call.output, Fits, iff_true, length_take]
    by_cases room : before.length < cap
    · rw [if_pos (by omega), take_of_length_le room.le, take_of_length_le (by simpa using room)]
    · rw [if_neg (by omega), take_append_of_le_length (by omega)]
  | text s =>
    simp only [append, Call.output, Fits, iff_true, length_take, take_append]
    exact congrArg (before.take cap ++ ·) (take_eq_take_iff.mpr (by omega))
  | repeated c n =>
    simp only [append, fill_eq, Call.output, Fits, length_take, take_append, append_cancel_left_eq,
      take_replicate,
      replicate_inj, or_true, and_true]
    omega

/-- Bounded printing is truncation after every call exactly if every repeated character fits. -/
theorem sprint_truncates_iff (cap : Nat) (fmt : List Char) (args : List Argument) :
    (∀ calls, calls <+: print fmt args → sprint cap calls = (cprint calls).take cap) ↔
      ∀ calls call, calls ++ [call] <+: print fmt args → Fits cap (cprint calls).length call := by
  -- where the calls before it are truncated, a call decides alone
  have step (calls : List Call) (call : Call) (same : sprint cap calls = (cprint calls).take cap) :
      sprint cap (calls ++ [call]) = (cprint (calls ++ [call])).take cap ↔
        Fits cap (cprint calls).length call := by
    rw [← append_take_iff, ← same, sprint, foldl_append, cprint, flatMap_append, flatMap_singleton]
    rfl
  constructor
  · intro all calls call listed
    exact (step calls call (all calls ((prefix_append calls [call]).trans listed))).mp
      (all _ listed)
  · intro fits calls
    induction calls using reverseRecOn with
    | nil => exact fun _ => take_nil.symm
    | append_singleton calls call ih =>
      intro listed
      exact (step calls call (ih ((prefix_append calls [call]).trans listed))).mpr
        (fits calls call listed)

theorem sprint_pads_short : let calls := print ['{', '4', '}'] [printString []]
    sprint 4 calls = [' ', ' '] ∧ cprint calls = [' ', ' ', ' ', ' '] := by
  have calls : print ['{', '4', '}'] [printString []] = [.text [], .repeated ' ' 4, .text [],
      .text []] := by decide
  rw [calls]
  exact ⟨by simp [sprint, append, fill_eq], rfl⟩

/-! Format strings built of literals and strings. -/

structure Literal where
  chars : List Char
  noNul : '\x00' ∉ chars

def isBrace (c : Char) : Bool := c = '{' || c = '}'

def escape (s : List Char) : List Char := s.flatMap fun c => if isBrace c then [c, c] else [c]

def format (s : Literal) : List (List Char × Literal) → List Char
  | [] => escape s.chars
  | (_, next) :: pieces => escape s.chars ++ '{' :: '}' :: format next pieces

def interleave (s : Literal) : List (List Char × Literal) → List Char
  | [] => s.chars
  | (a, next) :: pieces => s.chars ++ (a ++ interleave next pieces)

theorem escape_cons (c : Char) (s : List Char) :
    escape (c :: s) = (if isBrace c then [c, c] else [c]) ++ escape s := rfl

theorem length_escape (s : List Char) : (escape s).length = s.length + s.countP isBrace := by
  induction s with
  | nil => rfl
  | cons c s ih =>
    rw [escape_cons, length_append, ih, length_cons, countP_cons]
    split <;> simp only [length_cons, length_nil] <;> omega

theorem escape_eq_iff (s : List Char) : escape s = s ↔ ∀ c ∈ s, isBrace c = false := by
  constructor
  · intro same
    have length := length_escape s
    rw [same] at length
    simpa using (show s.countP isBrace = 0 by omega)
  · intro plain
    rw [escape, flatMap_congr (fun c listed => if_neg (by simp [plain c listed])),
      flatMap_singleton']

theorem skipFmts_escape (value : Argument) (others : List Char) {s : List Char} (noNul : '\x00' ∉ s)
    (pending : List Char) : ∃ calls, skipFmts value pending (escape s ++ '{' :: '}' :: others) =
      (calls, [], others) ∧
    cprint calls = pending ++ s ++ cprint (value { specifier := some '}' }) := by
  induction s generalizing pending with
  | nil =>
    refine ⟨.text pending :: value { specifier := some '}' }, ?_, ?_⟩
    · simp [escape, skipFmts, parse_bare]
    · simp [cprint, Call.output]
  | cons c s ih =>
    obtain ⟨nul, tailNoNul⟩ := not_or.mp (mt mem_cons.mpr noNul)
    -- a brace flushes what is pending, any other character is added to it
    by_cases brace : isBrace c
    · obtain ⟨calls, skipped, shown⟩ := ih tailNoNul []
      rw [nil_append] at shown
      obtain rfl | rfl : c = '{' ∨ c = '}' := by simpa [isBrace] using brace
      · refine ⟨.text pending :: .char '{' :: calls, ?_, ?_⟩
        · simp [escape_cons, brace, skipFmts, skipped]
        · simpa [cprint, Call.output] using shown
      · refine ⟨.text (pending ++ ['}']) :: calls, ?_, ?_⟩
        · simp [escape_cons, brace, skipFmts, skipped]
        · simpa [cprint, Call.output] using shown
    · obtain ⟨calls, skipped, shown⟩ := ih tailNoNul (pending ++ [c])
      obtain ⟨opening, closing⟩ : c ≠ '{' ∧ c ≠ '}' := by simpa [isBrace] using brace
      exact ⟨calls, by simpa [escape_cons, brace, skipFmts, opening, closing, Ne.symm nul] using skipped, by simpa using shown⟩

/-- Literals and strings are interleaved exactly if the last literal has no brace. -/
theorem print_interleaves_iff (s : Literal) (pieces : List (List Char × Literal)) :
    cprint (print (format s pieces) (pieces.map fun piece => printString piece.1)) =
      interleave s pieces ↔
      ∀ c ∈ ((pieces.map Prod.snd).getLastD s).chars, isBrace c = false := by
  induction pieces generalizing s with
  | nil => simp [print, printFrom, format, interleave, cprint, Call.output, escape_eq_iff]
  | cons piece pieces ih =>
    obtain ⟨a, next⟩ := piece
    obtain ⟨_, skipped, shown⟩ := skipFmts_escape (printString a) (format next pieces) s.noNul []
    have given : cprint (printString a { specifier := some '}' }) = a := by
        simp [cprint, printString, Call.output]
    rw [print, map_cons, printFrom, format, skipped]
    simp only [cprint, flatMap_append, interleave] at shown given ih ⊢
    rw [shown, given, nil_append, append_assoc, append_cancel_left_eq, append_cancel_left_eq,
      map_cons, getLastD_cons]
    exact ih next

theorem print_keeps_doubled :
    cprint (print (format ⟨['{'], by decide⟩ []) []) = ['{', '{'] := by decide

end Nx.ZprPrint
