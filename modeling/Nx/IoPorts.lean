import Nx.Words
import Nx.Transitions

/-!
I/O port permissions, kernel/source/arch/x86_64/descriptors/tss.cpp.
-/

namespace Nx.IoPorts

open Words Transitions Function List

/-! The map of a process. -/

/-- For a byte of the bitmap its bits, where a set bit allows the port. The tree
map is the list of its entries in order of the keys. -/
structure PortMap where
  entries : List (BitVec 16 × BitVec 8)
  ascending : (entries.map Prod.fst).Pairwise (· < ·)
  bounded : ∀ key ∈ entries.map Prod.fst, key.toNat < 0x2000

def PortMap.empty : PortMap := ⟨[], by simp, by simp⟩

def findOrInsert (change : BitVec 8 → BitVec 8) (key : BitVec 16) :
    List (BitVec 16 × BitVec 8) → List (BitVec 16 × BitVec 8)
  | [] => [(key, change 0)]
  | (first, value) :: rest =>
    if key = first then (first, change value) :: rest
    else if key < first then (key, change 0) :: (first, value) :: rest
    else (first, value) :: findOrInsert change key rest

def valueAt : List (BitVec 16 × BitVec 8) → BitVec 16 → BitVec 8
  | [], _ => 0
  | (first, value) :: rest, key => if key = first then value else valueAt rest key
variable {entries : List (BitVec 16 × BitVec 8)} {ports : PortMap}

theorem mem_findOrInsert : other ∈ (findOrInsert change key entries).map Prod.fst ↔ other = key ∨
    other ∈ entries.map Prod.fst := by
  induction entries with
  | nil => simp [findOrInsert]
  | cons _ _ ih =>
    unfold findOrInsert
    split
    · next same => simp [same]
    split
    · simp
    · simp only [map_cons, mem_cons, ih]
      tauto

theorem findOrInsert_ascending (ascending : (entries.map Prod.fst).Pairwise (· < ·)) :
    ((findOrInsert change key entries).map Prod.fst).Pairwise (· < ·) := by
  induction entries with
  | nil => simp [findOrInsert]
  | cons _ _ ih =>
    have ⟨above, tail⟩ := pairwise_cons.mp ascending
    unfold findOrInsert
    split
    · exact ascending
    · next different =>
      split
      · next below =>
        refine pairwise_cons.mpr ⟨?_, ascending⟩
        intro later member
        rcases mem_cons.mp member with same | inRest
        · exact same ▸ below
        · exact BitVec.lt_trans below (above later inRest)
      · next notBelow =>
        refine pairwise_cons.mpr ⟨?_, ih tail⟩
        intro later member
        rcases mem_findOrInsert.mp member with same | inRest
        · subst same
          bv_omega
        · exact above later inRest

theorem valueAt_absent (absent : key ∉ entries.map Prod.fst) : valueAt entries key = 0 := by
  induction entries with
  | nil => rfl
  | cons _ _ ih =>
    simp only [map_cons, mem_cons, not_or] at absent
    rw [valueAt, if_neg absent.1, ih absent.2]

def byteOf (port : BitVec 16) : BitVec 16 := port / 8

def bitOf (port : BitVec 16) : Nat := port.toNat % 8

theorem byteOf_toNat (port : BitVec 16) : (byteOf port).toNat = port.toNat / 8 := by
  simp [byteOf]

theorem byteOf_lt (port : BitVec 16) : (byteOf port).toNat < 0x2000 := by
  have bound := port.isLt
  rw [byteOf_toNat]
  omega

def maskOf (port : BitVec 16) : BitVec 8 := 1#8 <<< bitOf port

def setIOPortPerms (ports : PortMap) (port : BitVec 16) (allowed : Bool) : PortMap where
  entries :=
    findOrInsert (fun value => if allowed then value ||| maskOf port else value &&& ~~~ maskOf port)
      (byteOf port) ports.entries
  ascending := findOrInsert_ascending ports.ascending
  bounded := by
    intro key member
    rcases mem_findOrInsert.mp member with same | earlier
    · exact same ▸ byteOf_lt port
    · exact ports.bounded key earlier

def PortMap.allows (ports : PortMap) (port : BitVec 16) : Bool :=
  (valueAt ports.entries (byteOf port)).getLsbD (bitOf port)

/-! The TSS. -/

abbrev Tss := Nat → BitVec 8

def memset (tss : Tss) (offset : Nat) (value : BitVec 8) (count : Nat) : Tss :=
  fun index => if offset ≤ index ∧ index < offset + count then value else tss index

def store (tss : Tss) (offset width value : Nat) : Tss :=
  fun index =>
    if offset ≤ index ∧ index < offset + width then
      BitVec.ofNat 8 (value / 256 ^ (index - offset))
    else tss index

def sizeofTss : Nat := 104

def bitmapSize : Nat := 0x2000

def tssSize : Nat := sizeofTss + bitmapSize

def rsp0At : Nat := 4

def istAt (i : Nat) : Nat := 36 + 8 * i

def iopbOffsetAt : Nat := 102

def Tss.iopbOffset (tss : Tss) : Nat :=
  (tss iopbOffsetAt).toNat + 256 * (tss (iopbOffsetAt + 1)).toNat

def createTSS (memory : Tss) (ists : Nat → Word) : Tss :=
  let tss := (range 7).foldl (fun tss i => store tss (istAt i) 8 (ists i).toNat)
      (memset memory 0 0 sizeofTss)
  memset tss sizeofTss 0xFF bitmapSize

def setRSP0 (tss : Tss) (rsp0 : Word) : Tss := store tss rsp0At 8 rsp0.toNat

def setBitmap (tss : Tss) : List (BitVec 16 × BitVec 8) → Tss
  | [] => tss
  | (key, value) :: rest =>
    setBitmap (update tss (sizeofTss + key.toNat) (~~~ value)) rest

def updateIOPB (tss : Tss) (ports : PortMap) : Tss :=
  match ports.entries with
  | [] => store tss iopbOffsetAt 2 0
  | entries => setBitmap (store tss iopbOffsetAt 2 sizeofTss) entries

def accessible (tss : Tss) (port : BitVec 16) : Bool :=
  decide (tss.iopbOffset < tssSize) && !(tss (tss.iopbOffset + port.toNat / 8)).getLsbD (bitOf port)

theorem store_outside (outside : index < offset ∨ offset + width ≤ index) :
    store tss offset width value index = tss index := by
  apply if_neg
  omega

theorem store_iopbOffset (small : value < 256) :
    (store tss iopbOffsetAt 2 value).iopbOffset = value := by
  have high : value / 256 = 0 := Nat.div_eq_of_lt small
  simp [Tss.iopbOffset, store, high, Nat.mod_eq_of_lt small]

theorem setBitmap_below (entries : List (BitVec 16 × BitVec 8)) (below : index < sizeofTss) :
    setBitmap tss entries index = tss index := by
  induction entries generalizing tss with
  | nil => rfl
  | cons _ _ ih =>
    rw [setBitmap, ih, update_of_ne]
    omega

theorem setBitmap_absent (absent : key ∉ entries.map Prod.fst) :
    setBitmap tss entries (sizeofTss + key.toNat) = tss (sizeofTss + key.toNat) := by
  induction entries generalizing tss with
  | nil => rfl
  | cons head _ ih =>
    simp only [map_cons, mem_cons, not_or] at absent
    have apart : sizeofTss + key.toNat ≠ sizeofTss + head.1.toNat := by
      intro same
      exact absent.1 (BitVec.eq_of_toNat_eq (Nat.add_left_cancel same))
    rw [setBitmap, ih absent.2, update_of_ne apart]

theorem setBitmap_present (ascending : (entries.map Prod.fst).Pairwise (· < ·))
    (present : key ∈ entries.map Prod.fst) :
    setBitmap tss entries (sizeofTss + key.toNat) = ~~~ valueAt entries key := by
  induction entries generalizing tss with
  | nil => simp at present
  | cons head rest ih =>
    have ⟨above, tail⟩ := pairwise_cons.mp ascending
    by_cases same : key = head.1
    · have absent : key ∉ rest.map Prod.fst := by
        intro later
        exact BitVec.lt_irrefl _ (same ▸ above key later)
      rw [setBitmap, setBitmap_absent absent, valueAt, if_pos same, same, update_self]
    · have later : key ∈ rest.map Prod.fst := by
        simpa [same] using present
      rw [setBitmap, ih tail later, valueAt, if_neg same]

theorem updateIOPB_nil (empty : ports.entries = []) :
    updateIOPB tss ports = store tss iopbOffsetAt 2 0 := by
  unfold updateIOPB
  rw [empty]

theorem updateIOPB_entries (some_ : ports.entries ≠ []) :
    updateIOPB tss ports = setBitmap (store tss iopbOffsetAt 2 sizeofTss) ports.entries := by
  unfold updateIOPB
  split
  · next empty => exact absurd empty some_
  · rfl

theorem updateIOPB_reserved : updateIOPB tss ports 0 = tss 0 := by
  have outside (value : Nat) : store tss iopbOffsetAt 2 value 0 = tss 0 :=
    store_outside (.inl (by decide))
  by_cases empty : ports.entries = []
  · rw [updateIOPB_nil empty, outside]
  · rw [updateIOPB_entries empty, setBitmap_below _ (by decide), outside]

theorem updateIOPB_offset (some_ : ports.entries ≠ []) :
    (updateIOPB tss ports).iopbOffset = sizeofTss := by
  rw [updateIOPB_entries some_, Tss.iopbOffset, setBitmap_below _ (by decide),
    setBitmap_below _ (by decide)]
  exact store_iopbOffset (by decide)

theorem updateIOPB_absent (some_ : ports.entries ≠ []) (absent : key ∉ ports.entries.map Prod.fst) :
    updateIOPB tss ports (sizeofTss + key.toNat) = tss (sizeofTss + key.toNat) := by
  rw [updateIOPB_entries some_, setBitmap_absent absent]
  exact store_outside (.inr (by simp only [iopbOffsetAt, sizeofTss]; omega))

theorem updateIOPB_present (present : key ∈ ports.entries.map Prod.fst) :
    updateIOPB tss ports (sizeofTss + key.toNat) = ~~~ valueAt ports.entries key := by
  have some_ : ports.entries ≠ [] := by
    intro empty
    simp [empty] at present
  rw [updateIOPB_entries some_, setBitmap_present ports.ascending present]

theorem updateIOPB_accessible (some_ : ports.entries ≠ []) (port : BitVec 16) :
    accessible (updateIOPB tss ports) port =
      !(updateIOPB tss ports (sizeofTss + (byteOf port).toNat)).getLsbD (bitOf port) := by
  rw [accessible, updateIOPB_offset some_, byteOf_toNat]
  rfl

/-! Processes and context switches. -/

structure Cpu (Process : Type) where
  tss : Tss
  ioPorts : Process → PortMap

inductive Op (Process : Type) where
  | setIOPortPerms (process : Process) (port : BitVec 16) (allowed : Bool)
  | switchTo (process : Process) (kernelStackTop : Word)

variable {Process : Type} [DecidableEq Process]

def Cpu.init (memory : Tss) (ists : Nat → Word) : Cpu Process :=
  ⟨createTSS memory ists, fun _ => .empty⟩

def Cpu.switchTo (cpu : Cpu Process) (process : Process) (kernelStackTop : Word) : Cpu Process :=
  { cpu with tss := updateIOPB (setRSP0 cpu.tss kernelStackTop) (cpu.ioPorts process) }

def Cpu.next (cpu : Cpu Process) : Op Process → Cpu Process
  | .setIOPortPerms process port allowed =>
    { cpu with
      ioPorts := update cpu.ioPorts process (setIOPortPerms (cpu.ioPorts process) port allowed) }
  | .switchTo process kernelStackTop => cpu.switchTo process kernelStackTop

def Step (before : Cpu Process) (op : Op Process) (after : Cpu Process) : Prop :=
  before.next op = after

def Isolated (move : Move (Cpu Process) (Op Process)) : Prop :=
  match move.label with
  | .setIOPortPerms _ _ _ => True
  | .switchTo process _ =>
    ∀ port, accessible move.after.tss port = (move.after.ioPorts process).allows port

/-- The incoming map is not empty, and the bitmap denies everything in the bytes
that the map says nothing about. -/
def Clean (move : Move (Cpu Process) (Op Process)) : Prop :=
  match move.label with
  | .setIOPortPerms _ _ _ => True
  | .switchTo process _ =>
    (move.before.ioPorts process).entries ≠ [] ∧ ∀ key : BitVec 16, key.toNat < bitmapSize →
        key ∉ (move.before.ioPorts process).entries.map Prod.fst →
          move.before.tss (sizeofTss + key.toNat) = 0xFF

def Reserved (cpu : Cpu Process) : Prop := cpu.tss 0 = 0

omit [DecidableEq Process] in
theorem init_reserved (memory : Tss) (ists : Nat → Word) :
    Reserved (Cpu.init memory ists : Cpu Process) := by
  simp [Reserved, Cpu.init, createTSS, memset, store, istAt, sizeofTss, range, range.loop]

omit [DecidableEq Process] in
theorem switchTo_reserved (reserved : Reserved before) (process : Process) (kernelStackTop : Word) :
    Reserved (before.switchTo process kernelStackTop) := by
  have kept : (before.switchTo process kernelStackTop).tss 0 = before.tss 0 :=
    updateIOPB_reserved.trans (store_outside (.inl (by decide)))
  exact kept.trans reserved

theorem setRSP0_bitmap (tss : Tss) (rsp0 : Word) (index : Nat) :
    setRSP0 tss rsp0 (sizeofTss + index) = tss (sizeofTss + index) := by
  apply store_outside
  simp only [rsp0At, sizeofTss]
  omega

theorem exists_port {key : BitVec 16} (bound : key.toNat < bitmapSize) (small : bit < 8) :
    ∃ port, byteOf port = key ∧ bitOf port = bit := by
  have fits : 8 * key.toNat + bit < 2 ^ 16 := by
    simp only [bitmapSize] at bound
    omega
  have value : (BitVec.ofNat 16 (8 * key.toNat + bit)).toNat = 8 * key.toNat + bit := by
    rw [BitVec.toNat_ofNat, Nat.mod_eq_of_lt fits]
  refine ⟨BitVec.ofNat 16 (8 * key.toNat + bit), ?_, ?_⟩
  · apply BitVec.eq_of_toNat_eq
    rw [byteOf_toNat, value]
    omega
  · rw [bitOf, value]
    omega

theorem allOnes_bit (small : bit < 8) : (0xFF : BitVec 8).getLsbD bit = true := by
  have ones : (0xFF : BitVec 8) = BitVec.allOnes 8 := rfl
  rw [ones, BitVec.getLsbD_allOnes]
  exact decide_eq_true small

theorem granted_of_clean (some_ : ports.entries ≠ []) (clean : ∀ key : BitVec 16, key.toNat <
    bitmapSize →
    key ∉ ports.entries.map Prod.fst → tss (sizeofTss + key.toNat) = 0xFF) (port : BitVec 16) :
    accessible (updateIOPB tss ports) port = ports.allows port := by
  have small : bitOf port < 8 := Nat.mod_lt _ (by decide)
  rw [updateIOPB_accessible some_]
  by_cases present : byteOf port ∈ ports.entries.map Prod.fst
  · rw [updateIOPB_present present, BitVec.getLsbD_not, PortMap.allows]
    simp [small]
  · rw [updateIOPB_absent some_ present, clean _ (byteOf_lt port) present, allOnes_bit small,
      PortMap.allows, valueAt_absent present]
    simp

theorem entries_of_granted (reserved : tss 0 = 0)
    (granted : ∀ port, accessible (updateIOPB tss ports) port = ports.allows port) :
      ports.entries ≠ [] := by
  intro empty
  have first := granted 0
  have offset : (updateIOPB tss ports).iopbOffset = 0 := by
    rw [updateIOPB_nil empty]
    exact store_iopbOffset (by decide)
  have denied : ports.allows 0 = false := by
    simp [PortMap.allows, empty, valueAt]
  have byte : updateIOPB tss ports 0 = 0 := updateIOPB_reserved.trans reserved
  rw [denied, accessible, offset] at first
  simp [byte, tssSize, sizeofTss] at first

theorem clean_of_granted (some_ : ports.entries ≠ [])
    (granted : ∀ port, accessible (updateIOPB tss ports) port = ports.allows port)
    {key : BitVec 16} (bound : key.toNat < bitmapSize)
    (absent : key ∉ ports.entries.map Prod.fst) : tss (sizeofTss + key.toNat) = 0xFF := by
  apply BitVec.eq_of_getLsbD_eq
  intro bit small
  -- the port of this bit is not in the map
  obtain ⟨port, byte, here⟩ := exists_port bound small
  have denied := granted port
  rw [updateIOPB_accessible some_, PortMap.allows, byte, here, updateIOPB_absent some_ absent,
    valueAt_absent absent] at denied
  rw [allOnes_bit small]
  simpa using denied

omit [DecidableEq Process] in
theorem switchTo_isolated_iff (reserved : Reserved before) (process : Process)
    (kernelStackTop : Word) :
    Isolated ⟨before, .switchTo process kernelStackTop, before.switchTo process kernelStackTop⟩ ↔
    Clean ⟨before, .switchTo process kernelStackTop, before.switchTo process kernelStackTop⟩ := by
  have bitmap := setRSP0_bitmap before.tss kernelStackTop
  have first : setRSP0 before.tss kernelStackTop 0 = 0 :=
    (store_outside (.inl (by decide))).trans reserved
  constructor
  · intro granted
    have some_ := entries_of_granted first granted
    refine ⟨some_, ?_⟩
    intro key bound absent
    rw [← bitmap]
    exact clean_of_granted some_ granted bound absent
  · rintro ⟨some_, clean⟩
    apply granted_of_clean some_
    intro key bound absent
    rw [bitmap]
    exact clean key bound absent

/-- Every switch gives the process exactly its own ports if and only if every
switch finds a map with an entry and no port left over from another process. -/
theorem ports_isolated_iff (memory : Tss) (ists : Nat → Word) {last : Cpu Process}
    {moves : List (Move (Cpu Process) (Op Process))}
      (run : Run Step (Cpu.init memory ists) moves last) :
    (∀ move ∈ moves, Isolated move) ↔ ∀ move ∈ moves, Clean move := by
  refine run_exact Reserved Clean Isolated ?_ ?_ run (init_reserved memory ists)
  · rintro ⟨before, op, after⟩ reserved step clean
    cases op with
    | setIOPortPerms process port allowed =>
      obtain rfl : before.next (.setIOPortPerms process port allowed) = after := step
      exact ⟨reserved, trivial⟩
    | switchTo process kernelStackTop =>
      obtain rfl : before.switchTo process kernelStackTop = after := step
      exact ⟨switchTo_reserved reserved process kernelStackTop,
        (switchTo_isolated_iff reserved process kernelStackTop).mpr clean⟩
  · rintro ⟨before, op, after⟩ reserved step isolated
    cases op with
    | setIOPortPerms process => trivial
    | switchTo process kernelStackTop =>
      obtain rfl : before.switchTo process kernelStackTop = after := step
      exact (switchTo_isolated_iff reserved process kernelStackTop).mp isolated

def Cpu.tryNext (cpu : Cpu Process) (op : Op Process) : Option (Cpu Process) := some (cpu.next op)

theorem tryNext_step (before : Cpu Process) (op : Op Process) (after : Cpu Process)
    (stepped : before.tryNext op = some after) : Step before op after :=
  Option.some.inj stepped

def sameByte : List (Op Bool) :=
  [.setIOPortPerms true 0x60 true, .setIOPortPerms false 0x64 true, .switchTo true 0x9000,
    .switchTo false 0xA000]

theorem ports_isolated_same_byte : ∃ moves last, Run Step (Cpu.init (fun _ => 0) fun _ => 0 :
    Cpu Bool) moves last ∧
    moves.map Move.label = sameByte ∧ ∀ move ∈ moves, Isolated move := by
  let start : Cpu Bool := Cpu.init (fun _ => 0) fun _ => 0
  let trail := trace Cpu.tryNext start sameByte
  have run : Run Step start trail.1 trail.2 := trace_run _ tryNext_step start sameByte
  refine ⟨trail.1, trail.2, run, rfl, (ports_isolated_iff _ _ run).mpr ?_⟩
  have fresh {key : BitVec 16} (bound : key.toNat < bitmapSize) :
      start.tss (sizeofTss + key.toNat) = 0xFF := if_pos ⟨by omega, by omega⟩
  intro _ member
  simp only [trail, sameByte, trace, Cpu.tryNext, mem_cons, not_mem_nil, or_false] at member
  rcases member with rfl | rfl | rfl | rfl
  · trivial
  · trivial
  · exact ⟨by decide, fun key bound _ => fresh bound⟩
  · refine ⟨by decide, ?_⟩
    intro key bound absent
    -- the first switch wrote the one byte that both maps have
    have kept : updateIOPB (setRSP0 start.tss 0x9000) (setIOPortPerms .empty 0x60 true)
        (sizeofTss + key.toNat) = setRSP0 start.tss 0x9000 (sizeofTss + key.toNat) :=
      updateIOPB_absent (by decide) absent
    exact kept.trans ((setRSP0_bitmap _ _ _).trans (fresh bound))

/-- A process without ports runs with the TSS itself as its bitmap, and a process
with a port runs with the ports of the one before it. -/
theorem ports_leak :
    (∃ moves last, Run Step (Cpu.init (fun _ => 0) fun _ => 0 : Cpu Bool) moves last ∧
    (∀ process, (last.ioPorts process).entries = []) ∧ ∃ move ∈ moves, ¬ Isolated move) ∧
    ∃ moves last, Run Step (Cpu.init (fun _ => 0) fun _ => 0 : Cpu Bool) moves last ∧
    (∀ process, (last.ioPorts process).entries ≠ []) ∧ ∃ move ∈ moves, ¬ Isolated move := by
  constructor
  · refine ⟨_, _, trace_run _ tryNext_step _ [.switchTo true 0],
      by decide, _, mem_singleton_self _, ?_⟩
    intro isolated
    exact absurd (isolated 0) (by decide)
  · refine ⟨_, _, trace_run _ tryNext_step _ [.setIOPortPerms true 8 true,
      .setIOPortPerms false 0x60 true,
      .switchTo true 0, .switchTo false 0], by decide, _, mem_cons_of_mem _
      (mem_cons_of_mem _ (mem_cons_of_mem _ (mem_singleton_self _))), ?_⟩
    intro isolated
    exact absurd (isolated 8) (by decide)

end Nx.IoPorts
