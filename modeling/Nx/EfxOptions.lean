import Mathlib

/-!
`options::parse` of efx/source/options.cpp, with strings, arrays and the stack as lists. What is
printed is left out.
-/

namespace Nx.EfxOptions

open List

abbrev Str := List Char

/-- The character that an escape sequence stands for. -/
def escaped (c : Char) : Char := if c = 'n' then '\n' else c

/-- The first loop: the option read so far, the stack of quotes and the rest of the line. There is
nothing if the line ends after a backslash. -/
def scan (currentOption quoteStack : Str) : Str → Option (List Str)
  | [] => some [currentOption]
  | c :: rest =>
    if c = '"' ∨ c = '\'' then
      if quoteStack.head? ≠ some c then scan currentOption (c :: quoteStack) rest
      else scan currentOption quoteStack.tail rest
    else if c = '\\' then
      match rest with
      | [] => none
      | next :: rest => scan (currentOption ++ [escaped next]) quoteStack rest
    else if c ≠ ' ' ∨ quoteStack ≠ [] then scan (currentOption ++ [c]) quoteStack rest
    else (scan [] quoteStack rest).map (currentOption :: ·)

/-- The options after the first space. -/
def split (opts : Str) : Option (List Str) :=
  match opts.dropWhile (· ≠ ' ') with
  | [] => some []
  | _ :: rest => scan [] [] rest

structure Parsed where
  loadOptions : List (Str × Str)
  kernelCommandLine : List Str
  endOfOpts : Bool
  deriving DecidableEq

def endMark : Str := ['-', '-']

/-- The option up to the first '=' and what follows. -/
def option (opt : Str) : Str × Str :=
  if '=' ∈ opt then (opt.takeWhile (· ≠ '='), (opt.dropWhile (· ≠ '=')).tail)
  else (opt, ['t', 'r', 'u', 'e'])

def place (parsed : Parsed) (opt : Str) : Parsed :=
  if opt = endMark then { parsed with endOfOpts := true }
  else if parsed.endOfOpts then
    { parsed with kernelCommandLine := parsed.kernelCommandLine ++ [opt] }
  else if '=' ∈ opt then
    { parsed with
      kernelCommandLine :=
        if (option opt).1 = ['r', 'o', 'o', 't'] then parsed.kernelCommandLine ++
          [opt] else parsed.kernelCommandLine
      loadOptions := parsed.loadOptions ++ [option opt] }
  else { parsed with loadOptions := parsed.loadOptions ++ [option opt] }

def parse (opts : Str) : Option Parsed := (split opts).map (foldl place ⟨[], [], false⟩)

/-! The command lines that the options are quoted in. -/

def quoteChar (c : Char) : Str := if c = '"' ∨ c = '\'' ∨ c = '\\' then ['\\', c] else [c]

def quoted (opt : Str) : Str := '"' :: opt.flatMap quoteChar ++ ['"']

def commandLine (word : Str) (options : List Str) :
    Str := word ++ options.flatMap fun opt => ' ' :: quoted opt

def rootPrefix : Str := ['r', 'o', 'o', 't', '=']

/-- A name and a value that an option gives: what stands before and behind its first '=', or the
whole option and "true". -/
inductive Gives : Str → Str × Str → Prop where
  | assigned : '=' ∉ name → Gives (name ++ '=' :: value) (name, value)
  | flag : '=' ∉ opt → Gives opt (opt, ['t', 'r', 'u', 'e'])

/-- Load options before the first "--"; the kernel is given the root options of these and all later
ones. -/
structure Expected (options : List Str) (parsed : Parsed) : Prop where
  load : Forall₂ Gives (options.takeWhile (· ≠ endMark)) parsed.loadOptions
  kernel : parsed.kernelCommandLine =
    (options.takeWhile (· ≠ endMark)).filter ( rootPrefix.isPrefixOf ·) ++
      (options.dropWhile (· ≠ endMark)).filter (· ≠ endMark)

/-- Inside double quotes the scanner undoes the escapes. -/
theorem scan_quoted (opt current rest : Str) :
    scan current ['"'] (opt.flatMap quoteChar ++ rest) = scan (current ++ opt) ['"'] rest := by
  induction opt generalizing current with
  | nil => simp
  | cons c opt ih =>
    have step : scan current ['"'] (quoteChar c ++ (opt.flatMap quoteChar ++ rest)) =
        scan (current ++ [c]) ['"'] (opt.flatMap quoteChar ++ rest) := by
      by_cases special : c = '"' ∨ c = '\'' ∨ c = '\\'
      · have kept : escaped c = c := by rcases special with rfl | rfl | rfl <;> rfl
        rw [quoteChar, if_pos special, scan.eq_def]
        simp [kept]
      · obtain ⟨notDouble, notSingle, notBackslash⟩ :
            c ≠ '"' ∧ c ≠ '\'' ∧ c ≠ '\\' := by simpa using special
        rw [quoteChar, if_neg special, scan.eq_def]
        simp [notDouble, notSingle, notBackslash]
    rw [flatMap_cons, append_assoc, step, ih, append_assoc, singleton_append]

theorem scan_option (opt current rest : Str) :
    scan current [] (quoted opt ++ rest) = scan (current ++ opt) [] rest := by
  have opened : scan current [] (quoted opt ++ rest) = scan current
      ['"'] (opt.flatMap quoteChar ++ '"' :: rest) := by
    rw [quoted, cons_append, cons_append, scan.eq_def]
    simp
  rw [opened, scan_quoted, scan.eq_def]
  simp

theorem scan_options (current : Str) (options : List Str) :
    scan current [] (options.flatMap fun opt => ' ' :: quoted opt) = some (current :: options) := by
  induction options generalizing current with
  | nil => simp [scan]
  | cons opt options ih =>
    have next : scan current [] (' ' :: (quoted opt ++ options.flatMap fun opt => ' ' :: quoted opt)) =
        (scan [] [] (quoted opt ++ options.flatMap fun opt => ' ' :: quoted opt)).map
          (current :: ·) := by
      rw [scan.eq_def]
      simp
    rw [flatMap_cons, cons_append, next, scan_option, nil_append, ih, Option.map_some]

theorem split_commandLine (spaceFree : ' ' ∉ word) (options : List Str) :
    split (commandLine word options) = some options := by
  have skipped : (commandLine word options).dropWhile (· ≠ ' ') = options.flatMap fun opt =>
    ' ' :: quoted opt := by
    rw [commandLine, dropWhile_append_of_pos]
    · cases options <;> simp
    · intro c member
      simpa using ne_of_mem_of_not_mem member spaceFree
  rw [split, skipped]
  cases options with
  | nil => rfl
  | cons opt options =>
    have scanned := scan_options opt options
    rw [flatMap_cons, cons_append]
    show scan [] [] _ = _
    rw [scan_option]
    exact scanned

theorem option_gives (opt : Str) : Gives opt (option opt) := by
  by_cases found : '=' ∈ opt
  · have whole : opt.takeWhile (· ≠ '=') ++ opt.dropWhile (· ≠ '=') = opt :=
      takeWhile_append_dropWhile
    have free : '=' ∉ opt.takeWhile (· ≠ '=') :=
      fun listed => by simpa using mem_takeWhile_imp listed
    have stops : opt.dropWhile (· ≠ '=') ≠ [] := by
      intro none_
      rw [none_, append_nil] at whole
      exact free (whole.symm ▸ found)
    obtain ⟨c, rest, tail⟩ := exists_cons_of_ne_nil stops
    have isEq := head_dropWhile_not (· ≠ '=') stops
    simp only [tail, head_cons] at isEq
    obtain rfl : c = '=' := by simpa using isEq
    rw [option, if_pos found, tail, tail_cons]
    nth_rewrite 1 [← whole]
    rw [tail]
    exact .assigned free
  · rw [option, if_neg found]
    exact .flag found

/-- A name "root" before the '=' is a prefix "root=". -/
theorem option_root (opt : Str) : ('=' ∈ opt ∧ (option opt).1 = ['r', 'o', 'o', 't']) ↔
    rootPrefix.isPrefixOf opt = true := by
  rw [ isPrefixOf_iff_prefix]
  constructor
  · rintro ⟨found, isRoot⟩
    have gives := option_gives opt
    generalize option opt = given at gives isRoot
    cases gives with
    | @assigned name value =>
      obtain rfl : name = ['r', 'o', 'o', 't'] := isRoot
      exact ⟨value, rfl⟩
    | flag free => exact absurd found free
  · rintro ⟨_, rfl⟩
    simp [rootPrefix, option]

theorem place_after (options : List Str) (parsed : Parsed) (ended : parsed.endOfOpts = true) :
    options.foldl place parsed =
      { parsed with kernelCommandLine := parsed.kernelCommandLine ++ options.filter (· ≠ endMark) } := by
  induction options generalizing parsed with
  | nil => simp
  | cons opt _ ih =>
    by_cases isEnd : opt = endMark
    · simp [place, isEnd, ended, ih]
    · simp [place, isEnd, ended, ih]

theorem place_all (options : List Str) (load : List (Str × Str)) (kernel : List Str) :
    let parsed := options.foldl place ⟨load, kernel, false⟩
    parsed.loadOptions = load ++ (options.takeWhile (· ≠ endMark)).map option ∧
    parsed.kernelCommandLine = kernel ++
      ((options.takeWhile (· ≠ endMark)).filter ( rootPrefix.isPrefixOf ·) ++
        (options.dropWhile (· ≠ endMark)).filter (· ≠ endMark)) := by
  induction options generalizing load kernel with
  | nil => simp
  | cons opt _ ih =>
    by_cases isEnd : opt = endMark
    · simp [place, isEnd, place_after]
    · have root := option_root opt
      by_cases found : '=' ∈ opt <;> by_cases isRoot : (option opt).1 = ['r', 'o', 'o', 't'] <;>
        simp [place, isEnd, found, isRoot, ih, ← root]

/-- Parsing undoes quoting. -/
theorem parse_commandLine (word : Str) (spaceFree : ' ' ∉ word) (options : List Str) :
    ∃ parsed, parse (commandLine word options) = some parsed ∧ Expected options parsed := by
  refine ⟨_, by rw [parse, split_commandLine spaceFree, Option.map_some], ?_⟩
  obtain ⟨load, kernel⟩ := place_all options [] []
  refine ⟨?_, kernel⟩
  rw [load, nil_append, forall₂_map_right_iff]
  exact forall₂_same.mpr fun opt _ => option_gives opt

theorem parse_commandLine_root : ∃ parsed,
    parse (commandLine ['e'] [['a', ' ', '"'], rootPrefix, endMark, ['\\']]) = some parsed ∧
      Expected [['a', ' ', '"'], rootPrefix, endMark, ['\\']] parsed :=
  parse_commandLine ['e'] (by decide) _

end Nx.EfxOptions
