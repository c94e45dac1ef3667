import Nx.Scans

/-!
Kernel parameters, kernel/source/misc/params.cpp, with `find` and `substring` of libkrt/types/str.h.
-/

namespace Nx.Params

open List
open Scans (Byte)

structure BootInfo where
  version : Nat
  kernelParams : List Byte
  numKernelParams : Nat

structure ParamOption where
  name : List Byte
  value : List Byte
  deriving DecidableEq

def cstring : List Byte → Option (List Byte)
  | [] => none
  | char :: rest => if char = 0 then some [] else (char :: ·) <$> cstring rest

def find (str s : List Byte) : Option Nat :=
  (List.range (str.length + 1 - s.length)).find? fun _ => str.take s.length == s

def option (str : List Byte) : ParamOption :=
  match find str [0x3D] with
  | some eqidx => ⟨str.take eqidx, str.drop (eqidx + 1)⟩
  | none => ⟨str, []⟩

def parse : Nat → List Byte → List ParamOption → Option (List ParamOption)
  | 0, _, options => some options
  | left + 1, ptr, options => do
    let str ← cstring ptr
    parse left (ptr.drop (str.length + 1)) (options ++ [option str])

def init (bi : BootInfo) : Option (List ParamOption) :=
  if bi.version < 3 then some [] else parse bi.numKernelParams bi.kernelParams []

def haveOption (options : List ParamOption) (name : List Byte) :
    Bool := options.any fun opt => opt.name == name

def getOptionValue (options : List ParamOption) (name : List Byte) : List Byte :=
  ((options.find? fun opt => opt.name == name).map ParamOption.value).getD []

/-! What the boot loader passes. -/

abbrev Param := List Byte × List Byte

def Param.text (param : Param) : List Byte := param.1 ++ 0x3D :: param.2

def blob (params : List Param) : List Byte := params.flatMap fun param => param.text ++ [0]

structure Legal (param : Param) : Prop where
  named : param.1 ≠ []
  plain : 0x3D ∉ param.1
  ended : 0 ∉ param.text

structure Passes (bi : BootInfo) (params : List Param) : Prop where
  version : 3 ≤ bi.version
  legal : ∀ param ∈ params, Legal param
  bytes : blob params <+: bi.kernelParams
  count : bi.numKernelParams = params.length

/-- Exactly the listed names are options, with the value of their first pair. -/
def RoundTrips (options : List ParamOption) (params : List Param) : Prop :=
  ∀ name, (haveOption options name = true ↔ name ∈ params.map Prod.fst) ∧
    ∀ param, (params.find? fun param => param.1 == name) = some param →
      getOptionValue options name = param.2

theorem find_eq_none {str s : List Byte} (other : str.take s.length ≠ s) : find str s = none := by
  simp [find, other]

/-- The first place where a text stands, or none. -/
def FindsFirst (str s : List Byte) : Option Nat → Prop
  | some i => s <+: str.drop i ∧ ∀ j < i, ¬ s <+: str.drop j
  | none => ¬ s <:+: str

theorem find_append (s rest : List Byte) : find (s ++ rest) s = some 0 := by
  simp only [find, length_append, take_left, beq_self_eq_true]
  rw [show s.length + rest.length + 1 - s.length = rest.length + 1 by omega, range_succ_eq_map]
  rfl

/-- Every turn compares at the start, so nothing is found behind it. -/
theorem find_first_iff (str s : List Byte) : FindsFirst str s (find str s) ↔ s <+: str ∨
    ¬ s <:+: str := by
  by_cases starts : s <+: str
  · obtain ⟨_, rfl⟩ := starts
    simp [find_append, FindsFirst]
  · have missed : find str s = none := find_eq_none fun same => starts (same ▸ take_prefix _ str)
    simp [missed, FindsFirst, starts]

/-- `b` in `ab`. -/
theorem find_misses : find [0x61, 0x62] [0x62] = none ∧ ¬ FindsFirst [0x61, 0x62] [0x62]
    (find [0x61, 0x62] [0x62]) :=
  ⟨by decide, fun first => first ⟨[0x61], [], by decide⟩⟩

theorem option_legal (legal : Legal param) : option param.text = ⟨param.text, []⟩ := by
  obtain ⟨_, value⟩ := param
  obtain ⟨char, rest, rfl⟩ := exists_cons_of_ne_nil legal.named
  have other : char ≠ 0x3D := fun same => legal.plain (same ▸ mem_cons_self)
  have missed : find (Param.text (char :: rest, value)) [0x3D] = none :=
    find_eq_none (by simpa [Param.text] using other)
  rw [option, missed]

theorem cstring_append {text rest : List Byte} (ended : 0 ∉ text) :
    cstring (text ++ 0 :: rest) = some text := by
  induction text with
  | nil => rfl
  | cons _ _ ih =>
    obtain ⟨other, later⟩ := not_or.mp (mt mem_cons.mpr ended)
    rw [cons_append, cstring, if_neg (Ne.symm other), ih later]
    rfl

theorem parse_stores (legal : ∀ param ∈ params, Legal param) (rest : List Byte)
    (options : List ParamOption) :
    parse params.length (blob params ++ rest) options = some (options ++ params.map fun param =>
      ⟨param.text, []⟩) := by
  induction params generalizing options with
  | nil => simp [parse]
  | cons param params ih =>
    obtain ⟨first, later⟩ := forall_mem_cons.mp legal
    have bytes : blob (param :: params) ++ rest = param.text ++ 0 :: (blob params ++ rest) :=
      by simp [blob]
    have onward : (param.text ++ 0 :: (blob params ++ rest)).drop (param.text.length + 1) =
        blob params ++ rest := by
      simp [drop_append]
    rw [length_cons, parse, bytes, cstring_append first.ended, Option.bind_eq_bind,
      Option.bind_some, onward,
      option_legal first, ih later]
    simp

/-- Parameters are never found again under their names. -/
theorem init_roundTrips_iff {bi : BootInfo} {params : List Param} (passed : Passes bi params) :
    ∃ options, init bi = some options ∧ (RoundTrips options params ↔ params = []) := by
  obtain ⟨rest, bytes⟩ := passed.bytes
  have stored := parse_stores passed.legal rest []
  refine ⟨_, (if_neg (by have := passed.version; omega)).trans
    (by rw [passed.count, ← bytes, stored]), ?_⟩
  cases params with
  | nil => simp [RoundTrips, haveOption]
  | cons param params =>
    simp only [reduceCtorEq, iff_false]
    intro trips
    -- the first name would be the whole text of a parameter, but it has no separator
    have listed := (trips param.1).1.mpr mem_cons_self
    obtain ⟨other, _, same⟩ : ∃ other ∈ param :: params, other.text = param.1 := by
      simpa [haveOption] using listed
    exact (passed.legal param mem_cons_self).plain (same ▸ mem_append_right _ mem_cons_self)

def single : BootInfo := ⟨3, [0x61, 0x3D, 0x62, 0], 1⟩

theorem single_passes : Passes single [([0x61], [0x62])] where
  version := by decide
  legal := forall_mem_singleton.mpr ⟨by decide, by decide, by decide⟩
  bytes := by decide
  count := rfl

theorem init_roundTrips_iff_single : ∃ options, init single = some options ∧
    (RoundTrips options [([0x61], [0x62])] ↔ [([0x61], [0x62])] = ([] : List Param)) :=
  init_roundTrips_iff single_passes

theorem init_misses : Passes single [([0x61], [0x62])] ∧
    init single = some [⟨[0x61, 0x3D, 0x62], []⟩] ∧
    haveOption [⟨[0x61, 0x3D, 0x62], []⟩] [0x61] = false ∧ getOptionValue [⟨[0x61, 0x3D, 0x62], []⟩]
      [0x61] = [] :=
  ⟨single_passes, by decide, by decide, by decide⟩

end Nx.Params
