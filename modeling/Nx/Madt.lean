import Nx.Scans

/-!
`readMADT` of kernel/source/acpi/madt.cpp up to the end of its walks, with `checkTable` of
tables.cpp and with `registerCPU`, `addIOAPIC` and `addISAIRQMapping`, to which the records go.
-/

namespace Nx.Madt

open Scans List

structure Cpu where
  bsp : Bool
  id : Nat
  lApicId : Nat
  localApic : Nat
  deriving DecidableEq

structure Ioapic where
  id : Nat
  baseAddr : Nat
  gsiBase : Nat
  deriving DecidableEq

structure Registry where
  lApicAddr : Nat
  cpus : List Cpu
  ioApics : List Ioapic
  isaIrqMapping : List (Nat × Nat)
  deriving DecidableEq

section Tables

variable (madt : Bytes)

def lengthOf : Nat := fieldAt madt 4 4

def read (offset count : Nat) : Except Stop Nat := readField madt (lengthOf madt) offset count

def checkTable : Except Stop Bool := do
  let length ← read madt 4 4
  pure ((List.range length).foldl (fun sum i => sum + madt i) 0 == 0)

def visit (type : Byte) (callback : Nat → Registry → Except Stop Registry) (ofs : Nat)
    (reg : Registry) : Except Stop (Option Nat × Registry) := do
  let recType ← readByte madt (lengthOf madt) ofs
  let reg ← (if recType = type then callback ofs reg else pure reg)
  let recLength ← readByte madt (lengthOf madt) (ofs + 1)
  pure (some (ofs + recLength.toNat), reg)

def iterateTables (type : Byte) (callback : Nat → Registry → Except Stop Registry) (fuel : Nat)
    (reg : Registry) : Except Stop Registry := do
  let len ← read madt 4 4
  let (_, after) ← scan len (visit madt type callback) fuel 44 reg
  pure after

def onLapicAddr (rec : Nat) (reg : Registry) : Except Stop Registry := do
  let lapicAddress ← read madt (rec + 4) 8
  pure { reg with lApicAddr := lapicAddress }

def onLapic (rec : Nat) (reg : Registry) : Except Stop Registry := do
  let flags ← read madt (rec + 4) 4
  let processorId ← read madt (rec + 2) 1
  let apicId ← read madt (rec + 3) 1
  if flags % 2 = 1 then
    pure { reg with cpus := reg.cpus ++ [⟨reg.cpus.isEmpty, processorId, apicId, reg.lApicAddr⟩] }
  else pure reg

def onIoapic (rec : Nat) (reg : Registry) : Except Stop Registry := do
  let id ← read madt (rec + 2) 1
  let ioApicAddress ← read madt (rec + 4) 4
  let globalSysInterruptBase ← read madt (rec + 8) 4
  pure { reg with ioApics := reg.ioApics ++ [⟨id, ioApicAddress, globalSysInterruptBase⟩] }

def addISAIRQMapping (isa irq : Nat) (reg : Registry) : Except Stop Registry :=
  if reg.ioApics = [] then .error (.abort "IoApics.size() > 0")
  else if isa ∈ reg.isaIrqMapping.map Prod.fst then .ok reg
  else .ok { reg with isaIrqMapping := reg.isaIrqMapping ++ [(isa, irq)] }

def onIntSource (rec : Nat) (reg : Registry) : Except Stop Registry := do
  let irqSource ← read madt (rec + 3) 1
  let globalSysInterrupt ← read madt (rec + 4) 4
  addISAIRQMapping irqSource globalSysInterrupt reg

def readMADT (fuel : Nat) : Except Stop Registry := do
  if ← checkTable madt then
    let localApicAddr ← read madt 36 4
    let reg ← iterateTables madt 5 (onLapicAddr madt) fuel ⟨localApicAddr, [], [], []⟩
    let reg ← iterateTables madt 0 (onLapic madt) fuel reg
    let reg ← iterateTables madt 1 (onIoapic madt) fuel reg
    iterateTables madt 2 (onIntSource madt) fuel reg
  else pure ⟨0, [], [], []⟩

/-! The records of a table, which its lengths lead to from offset 44 on. -/

def Walk : List Nat → Nat → Prop
  | [], ofs => lengthOf madt ≤ ofs
  | rec :: rest, ofs => rec = ofs ∧ ofs < lengthOf madt ∧ 0 < (madt (ofs + 1)).toNat ∧
      Walk rest (ofs + (madt (ofs + 1)).toNat)

def recordsOf (records : List Nat) (type : Byte) : List Nat :=
  records.filter fun rec => madt rec = type

end Tables

/-- How much of a record is read. -/
def readsOf (type : Byte) : Nat :=
  if type = 0 ∨ type = 2 then 8 else if type = 1 ∨ type = 5 then 12 else 2

structure WellFormed (madt : Bytes) (records : List Nat) : Prop where
  walk : Walk madt records 44
  address : 40 ≤ lengthOf madt
  inside : ∀ rec ∈ records, rec + readsOf (madt rec) ≤ lengthOf madt
  enabled : ∀ rec ∈ recordsOf madt records 0, fieldAt madt (rec + 4) 4 % 2 = 1
  served : recordsOf madt records 2 ≠ [] → recordsOf madt records 1 ≠ []
  distinct : ((recordsOf madt records 2).map fun rec => fieldAt madt (rec + 3) 1).Nodup

def cpuKey (madt : Bytes) (rec : Nat) : Nat × Nat :=
  (fieldAt madt (rec + 2) 1, fieldAt madt (rec + 3) 1)

def ioapicAt (madt : Bytes) (rec : Nat) : Ioapic :=
  ⟨fieldAt madt (rec + 2) 1, fieldAt madt (rec + 4) 4, fieldAt madt (rec + 8) 4⟩

structure Registered (madt : Bytes) (lapics ioapics overrides : List Nat) (reg : Registry) :
    Prop where
  cpus : reg.cpus.map (fun cpu => (cpu.id, cpu.lApicId)) = lapics.map (cpuKey madt)
  ioApics : reg.ioApics = ioapics.map (ioapicAt madt)
  isaIrqMapping : reg.isaIrqMapping =
    overrides.map fun rec => (fieldAt madt (rec + 3) 1, fieldAt madt (rec + 4) 4)

/-- Four walks, none of more turns than the table has bytes, no read outside of it, and every record
registered once. -/
def Registers (madt : Bytes) : Prop :=
  ∃ records reg, Walk madt records 44 ∧ readMADT madt (lengthOf madt) = .ok reg ∧
    Registered madt (recordsOf madt records 0) (recordsOf madt records 1)
      (recordsOf madt records 2) reg

variable {fuel : Nat} {reg after : Registry} {callback : Nat → Registry → Except Stop Registry}

theorem readsOf_ge (type : Byte) : 2 ≤ readsOf type := by
  unfold readsOf
  split_ifs <;> omega

theorem read_inside {offset count : Nat} (inside : offset + count ≤ lengthOf madt) :
    read madt offset count = .ok (fieldAt madt offset count) := readField_inside inside

/-- The callback on the records one after the other. -/
def onEach (callback : Nat → Registry → Except Stop Registry) :
    List Nat → Registry → Except Stop Registry
  | [], reg => .ok reg
  | rec :: rest, reg => callback rec reg >>= onEach callback rest

theorem scan_onEach (walk : Walk madt records ofs)
    (inside : ∀ rec ∈ records, rec + 2 ≤ lengthOf madt)
    (enough : lengthOf madt ≤ ofs + fuel) :
    scan (lengthOf madt) (visit madt type callback) fuel ofs reg =
      onEach callback (recordsOf madt records type) reg >>= fun reg => pure (true, reg) := by
  induction records generalizing ofs fuel reg with
  | nil =>
    have past : ¬ ofs < lengthOf madt := Nat.not_lt.mpr walk
    cases fuel <;> exact if_neg past
  | cons rec rest ih =>
    obtain ⟨rfl, more, positive, later⟩ := walk
    obtain ⟨here, others⟩ := forall_mem_cons.mp inside
    obtain ⟨fuel, rfl⟩ : ∃ less, fuel = less + 1 := Nat.exists_eq_add_one_of_ne_zero (by omega)
    have turn : visit madt type callback rec reg =
        (if madt rec = type then callback rec reg else pure reg) >>=
        fun reg => pure (some (rec + (madt (rec + 1)).toNat), reg) := by
      rw [visit, readByte_inside (by omega), readByte_inside (by omega)]
      rfl
    rw [scan, if_pos more, turn]
    by_cases same : madt rec = type
    · have first : recordsOf madt (rec :: rest) type = rec :: recordsOf madt rest type := by
        simp [recordsOf, same]
      rw [if_pos same, first, onEach]
      cases called : callback rec reg with
      | error => rfl
      | ok => exact ih later others (by omega)
    · have skipped : recordsOf madt (rec :: rest) type = recordsOf madt rest type := by
        simp [recordsOf, same]
      rw [if_neg same, skipped]
      exact ih later others (by omega)

/-- A walk that ends has read the length of every record. -/
theorem scan_inside (walk : Walk madt records ofs)
    (done : scan (lengthOf madt) (visit madt type callback) fuel ofs reg = .ok (flag, last)) :
    ∀ rec ∈ records, rec + 2 ≤ lengthOf madt := by
  induction records generalizing ofs fuel reg with
  | nil => exact forall_mem_nil _
  | cons rec rest ih =>
    obtain ⟨rfl, more, positive, later⟩ := walk
    rcases scan_ok done with ⟨past, _⟩ | ⟨_, less, next, _, turn, ends⟩
    · omega
    obtain ⟨_, _, turn⟩ := ok_of_bind turn
    obtain ⟨_, _, turn⟩ := ok_of_bind turn
    obtain ⟨_, read, turn⟩ := ok_of_bind turn
    obtain ⟨below, rfl⟩ := readByte_ok read
    cases turn
    obtain ⟨none_, _⟩ | ⟨_, ⟨⟩, goesOn⟩ := ends
    · cases none_
    · exact forall_mem_cons.mpr ⟨by omega, ih later goesOn⟩

theorem iterateTables_eq (long : 8 ≤ lengthOf madt) (walk : Walk madt records 44)
    (inside : ∀ rec ∈ records, rec + 2 ≤ lengthOf madt) :
    iterateTables madt type callback (lengthOf madt) reg = onEach callback
      (recordsOf madt records type) reg := by
  have walked : scan (lengthOf madt) (visit madt type callback) (lengthOf madt) 44 reg =
      onEach callback (recordsOf madt records type) reg >>= fun reg => pure (true, reg) :=
    scan_onEach walk inside (by omega)
  refine (bind_ok (read_inside (by omega))).trans ?_
  change scan (lengthOf madt) (visit madt type callback) (lengthOf madt) 44 reg >>= _ = _
  rw [walked]
  cases onEach callback (recordsOf madt records type) reg <;> rfl

theorem iterateTables_inside (walk : Walk madt records 44)
    (done : iterateTables madt type callback fuel reg = .ok after) : ∀ rec ∈ records,
      rec + 2 ≤ lengthOf madt := by
  obtain ⟨len, read, done⟩ := ok_of_bind done
  have long := readField_ok (by decide) read
  obtain rfl := Except.ok.inj ((read_inside long).symm.trans read)
  obtain ⟨_, walked, _⟩ := ok_of_bind done
  exact scan_inside walk walked

/-- If each call keeps what is known of the records so far, all calls end with it. -/
theorem onEach_ends (Inv : List Nat → Registry → Prop)
    (each : ∀ done rec rest reg, todo = done ++ rec :: rest → Inv done reg →
      ∃ after, callback rec reg = .ok after ∧ Inv (done ++ [rec]) after) (start : Inv [] reg) :
    ∃ after, onEach callback todo reg = .ok after ∧ Inv todo after := by
  have general (rest : List Nat) : ∀ done reg, todo = done ++ rest → Inv done reg →
      ∃ after, onEach callback rest reg = .ok after ∧ Inv todo after := by
    induction rest with
    | nil =>
      intro done reg split holds
      exact ⟨reg, rfl, by rwa [split, append_nil]⟩
    | cons rec rest ih =>
      intro done reg split holds
      obtain ⟨after, called, kept⟩ := each done rec rest reg split holds
      rw [onEach, bind_ok called]
      exact ih (done ++ [rec]) after (by simp [split]) kept
  exact general todo [] reg rfl start

/-- What each call keeps is kept by all, and every record is called for. -/
theorem onEach_ok (Inv : List Nat → Registry → Prop) (Good : Nat → Prop)
    (each : ∀ done rec reg after, Inv done reg → callback rec reg = .ok after → Good rec ∧
      Inv (done ++ [rec]) after)
    (start : Inv [] reg) (done : onEach callback todo reg = .ok after) :
    (∀ rec ∈ todo, Good rec) ∧ Inv todo after := by
  have general (rest : List Nat) : ∀ past reg, Inv past reg → onEach callback rest reg = .ok after →
      (∀ rec ∈ rest, Good rec) ∧ Inv (past ++ rest) after := by
    induction rest with
    | nil =>
      intro past reg holds done
      cases done
      exact ⟨forall_mem_nil _, by rwa [append_nil]⟩
    | cons rec rest ih =>
      intro past reg holds done
      obtain ⟨middle, called, done⟩ := ok_of_bind done
      obtain ⟨good, kept⟩ := each past rec reg middle holds called
      obtain ⟨others, last⟩ := ih _ middle kept done
      exact ⟨forall_mem_cons.mpr ⟨good, others⟩, by simpa using last⟩
  simpa using general todo [] reg start done

section Callbacks

variable {rec : Nat} {lapics ioapics done : List Nat}

theorem onLapicAddr_keeps (inside : rec + 12 ≤ lengthOf madt)
    (registered : Registered madt [] [] [] reg) :
    ∃ after, onLapicAddr madt rec reg = .ok after ∧ Registered madt [] [] [] after := by
  rw [onLapicAddr, read_inside (by omega)]
  exact ⟨_, rfl, registered.cpus, registered.ioApics, registered.isaIrqMapping⟩

theorem onLapic_registers (inside : rec + 8 ≤ lengthOf madt)
    (enabled : fieldAt madt (rec + 4) 4 % 2 = 1)
    (registered : Registered madt done [] [] reg) :
    ∃ after, onLapic madt rec reg = .ok after ∧ Registered madt (done ++ [rec]) [] [] after := by
  rw [onLapic, read_inside (by omega), read_inside (by omega), read_inside (by omega)]
  refine ⟨_, if_pos enabled, ?_, registered.ioApics, registered.isaIrqMapping⟩
  simp [registered.cpus, cpuKey]

theorem onIoapic_registers (inside : rec + 12 ≤ lengthOf madt)
    (registered : Registered madt lapics done [] reg) :
    ∃ after, onIoapic madt rec reg = .ok after ∧ Registered madt lapics (done ++ [rec])
      [] after := by
  rw [onIoapic, read_inside (by omega), read_inside (by omega), read_inside (by omega)]
  refine ⟨_, rfl, registered.cpus, ?_, registered.isaIrqMapping⟩
  simp [registered.ioApics, ioapicAt]

theorem onIntSource_registers (inside : rec + 8 ≤ lengthOf madt) (served : ioapics ≠ [])
    (fresh : fieldAt madt (rec + 3) 1 ∉ done.map fun rec => fieldAt madt (rec + 3) 1)
    (registered : Registered madt lapics ioapics done reg) :
    ∃ after, onIntSource madt rec reg = .ok after ∧ Registered madt lapics ioapics
      (done ++ [rec]) after := by
  have some_ : reg.ioApics ≠ [] := by simpa [registered.ioApics] using served
  have unmapped : fieldAt madt (rec + 3) 1 ∉ reg.isaIrqMapping.map Prod.fst := by
    simpa [registered.isaIrqMapping] using fresh
  rw [onIntSource, read_inside (by omega), read_inside (by omega)]
  refine ⟨_, (if_neg some_).trans (if_neg unmapped), registered.cpus, registered.ioApics, ?_⟩
  simp [registered.isaIrqMapping]

end Callbacks

theorem registers_of_wellFormed (valid : checkTable madt = .ok true)
    (wf : WellFormed madt records) :
    Registers madt := by
  have long := wf.address
  have sized (type : Byte) : ∀ rec ∈ recordsOf madt records type, rec + readsOf type ≤
      lengthOf madt := by
    intro rec member
    obtain ⟨listed, same⟩ := mem_filter.mp member
    exact of_decide_eq_true same ▸ wf.inside rec listed
  have current {done rest : List Nat} {rec : Nat} {type : Byte}
      (split : recordsOf madt records type = done ++ rec :: rest) :
        rec ∈ recordsOf madt records type := by
    simp [split]
  have earlier {done rest : List Nat} {rec : Nat} (split : recordsOf madt records 2 = done ++
      rec :: rest) :
      fieldAt madt (rec + 3) 1 ∉ done.map fun rec => fieldAt madt (rec + 3) 1 := by
    have distinct := wf.distinct
    rw [split, map_append, map_cons, nodup_middle, nodup_cons, mem_append, not_or] at distinct
    exact distinct.1.1
  have two : ∀ rec ∈ records, rec + 2 ≤ lengthOf madt := by
    intro rec listed
    have := wf.inside rec listed
    have := readsOf_ge (madt rec)
    omega
  have start : Registered madt [] [] [] ⟨fieldAt madt 36 4, [], [], []⟩ := ⟨rfl, rfl, rfl⟩
  obtain ⟨_, walked1, bare⟩ := onEach_ends (fun _ => Registered madt [] [] [])
    (fun _ rec _ _ split => onLapicAddr_keeps (sized 5 rec (current split))) start
  obtain ⟨_, walked2, cpus⟩ := onEach_ends (Registered madt · [] [])
    (fun _ rec _ _ split => onLapic_registers (sized 0 rec (current split))
      (wf.enabled rec (current split))) bare
  obtain ⟨_, walked3, ioApics⟩ := onEach_ends (Registered madt _ · [])
    (fun _ rec _ _ split => onIoapic_registers (sized 1 rec (current split))) cpus
  obtain ⟨last, walked4, overrides⟩ := onEach_ends (Registered madt _ _)
    (fun _ rec _ _ split => onIntSource_registers (sized 2 rec (current split))
      (wf.served (ne_nil_of_mem (current split))) (earlier split)) ioApics
  refine ⟨records, last, wf.walk, (bind_ok valid).trans ?_, overrides⟩
  apply (bind_ok (read_inside (by omega))).trans
  have turns (type : Byte) (callback : Nat → Registry → Except Stop Registry) (reg : Registry) :
      iterateTables madt type callback (lengthOf madt) reg =
        onEach callback (recordsOf madt records type) reg := iterateTables_eq (by omega) wf.walk two
  exact (bind_ok ((turns 5 _ _).trans walked1)).trans ((bind_ok ((turns 0 _ _).trans walked2)).trans
    ((bind_ok ((turns 1 _ _).trans walked3)).trans ((turns 2 _ _).trans walked4)))

/-! What a registration tells of the table. -/

section Inversion

variable {rec : Nat}

theorem onLapicAddr_ok (done : onLapicAddr madt rec reg = .ok after) :
    rec + 12 ≤ lengthOf madt ∧ after.cpus = reg.cpus ∧ after.ioApics = reg.ioApics ∧
      after.isaIrqMapping = reg.isaIrqMapping := by
  obtain ⟨_, read, done⟩ := ok_of_bind done
  have := readField_ok (by decide) read
  cases done
  exact ⟨by omega, rfl, rfl, rfl⟩

theorem onLapic_ok (done : onLapic madt rec reg = .ok after) : rec + 8 ≤ lengthOf madt ∧
    (fieldAt madt (rec + 4) 4 % 2 = 1 ∧ after.cpus.length = reg.cpus.length + 1 ∨
      fieldAt madt (rec + 4) 4 % 2 ≠ 1 ∧ after.cpus.length = reg.cpus.length) ∧
    after.ioApics = reg.ioApics ∧ after.isaIrqMapping = reg.isaIrqMapping := by
  obtain ⟨flags, read, done⟩ := ok_of_bind done
  have inside := readField_ok (by decide) read
  obtain rfl := Except.ok.inj ((read_inside inside).symm.trans read)
  obtain ⟨_, _, done⟩ := ok_of_bind done
  obtain ⟨_, _, done⟩ := ok_of_bind done
  refine ⟨by omega, ?_⟩
  split at done
  next on =>
    cases done
    exact ⟨.inl ⟨on, by simp⟩, rfl, rfl⟩
  next off =>
    cases done
    exact ⟨.inr ⟨off, rfl⟩, rfl, rfl⟩

theorem onIoapic_ok (done : onIoapic madt rec reg = .ok after) :
    rec + 12 ≤ lengthOf madt ∧ after.cpus = reg.cpus ∧ after.isaIrqMapping = reg.isaIrqMapping := by
  obtain ⟨_, _, done⟩ := ok_of_bind done
  obtain ⟨_, _, done⟩ := ok_of_bind done
  obtain ⟨_, read, done⟩ := ok_of_bind done
  have := readField_ok (by decide) read
  cases done
  exact ⟨by omega, rfl, rfl⟩

theorem onIntSource_ok (distinct : (reg.isaIrqMapping.map Prod.fst).Nodup)
    (done : onIntSource madt rec reg = .ok after) : (rec + 8 ≤ lengthOf madt ∧ reg.ioApics ≠ []) ∧
    after.cpus = reg.cpus ∧ after.ioApics = reg.ioApics ∧
      (after.isaIrqMapping.map Prod.fst).Nodup := by
  obtain ⟨_, _, done⟩ := ok_of_bind done
  obtain ⟨_, read, done⟩ := ok_of_bind done
  have inside := readField_ok (by decide) read
  rw [addISAIRQMapping] at done
  split at done
  · cases done
  next some_ =>
    refine ⟨⟨by omega, some_⟩, ?_⟩
    split at done
    · cases done
      exact ⟨rfl, rfl, distinct⟩
    next fresh =>
      cases done
      refine ⟨rfl, rfl, ?_⟩
      rw [map_append, map_singleton, nodup_append]
      refine ⟨distinct, nodup_singleton _, fun key listed other same equal => ?_⟩
      obtain rfl : other = _ := mem_singleton.mp same
      exact fresh (equal ▸ listed)

end Inversion

theorem wellFormed_of_registers (valid : checkTable madt = .ok true) (registers : Registers madt) :
    ∃ records, WellFormed madt records := by
  obtain ⟨records, last, walk, done, registered⟩ := registers
  obtain ⟨_, checked, done⟩ := ok_of_bind done
  obtain rfl := Except.ok.inj (valid.symm.trans checked)
  obtain ⟨_, readAddr, done⟩ := ok_of_bind done
  have long := readField_ok (by decide) readAddr
  obtain ⟨bare, walk1, done⟩ := ok_of_bind done
  obtain ⟨withCpus, walk2, done⟩ := ok_of_bind done
  obtain ⟨served, walk3, walk4⟩ := ok_of_bind done
  have two := iterateTables_inside walk walk1
  rw [iterateTables_eq (by omega) walk two] at walk1 walk2 walk3 walk4
  obtain ⟨inside5, noCpus⟩ := onEach_ok (fun _ reg => reg.cpus = [] ∧ reg.isaIrqMapping = [])
    (· + 12 ≤ lengthOf madt) (fun _ _ _ _ holds called => by
      obtain ⟨inside, cpus, _, mapping⟩ := onLapicAddr_ok called
      exact ⟨inside, cpus.trans holds.1, mapping.trans holds.2⟩) ⟨rfl, rfl⟩ walk1
  -- as many processors as records only if all are enabled
  obtain ⟨inside0, atMost, allEnabled, noMapping⟩ :=
    onEach_ok (fun done reg => reg.cpus.length ≤ done.length ∧
      (reg.cpus.length = done.length → ∀ rec ∈ done, fieldAt madt (rec + 4) 4 % 2 = 1) ∧
        reg.isaIrqMapping = [])
    (· + 8 ≤ lengthOf madt) (fun past rec _ _ holds called => by
      obtain ⟨inside, either, _, mapping⟩ := onLapic_ok called
      obtain ⟨atMost, all, none_⟩ := holds
      refine ⟨inside, ?_, ?_, mapping.trans none_⟩
      · rw [length_append, length_singleton]
        omega
      · intro equal
        rw [length_append, length_singleton] at equal
        rcases either with ⟨on, _⟩ | ⟨_, _⟩
        · exact forall_mem_append.mpr ⟨all (by omega), forall_mem_singleton.mpr on⟩
        · omega) ⟨by simp [noCpus.1], fun _ => forall_mem_nil _, noCpus.2⟩ walk2
  obtain ⟨inside1, sameCpus, noMapping⟩ := onEach_ok
    (fun _ reg => reg.cpus = withCpus.cpus ∧ reg.isaIrqMapping = []) (· + 12 ≤ lengthOf madt)
    (fun _ _ _ _ holds called => by
      obtain ⟨inside, cpus, mapping⟩ := onIoapic_ok called
      exact ⟨inside, cpus.trans holds.1, mapping.trans holds.2⟩) ⟨rfl, noMapping⟩ walk3
  obtain ⟨inside2, sameCpusToo, sameIoapics, distinct⟩ :=
    onEach_ok (fun _ reg => reg.cpus = withCpus.cpus ∧
      reg.ioApics = served.ioApics ∧ (reg.isaIrqMapping.map Prod.fst).Nodup)
    (fun rec => rec + 8 ≤ lengthOf madt ∧ served.ioApics ≠ []) (fun _ _ _ _ holds called => by
      obtain ⟨⟨inside, some_⟩, cpus, ioApics, keys⟩ := onIntSource_ok holds.2.2 called
      exact ⟨⟨inside, holds.2.1 ▸ some_⟩, cpus.trans holds.1, ioApics.trans holds.2.1, keys⟩)
    ⟨sameCpus, rfl, by simp [noMapping]⟩ walk4
  have ofType {type : Byte} {rec : Nat} (listed : rec ∈ records) (same : madt rec = type) :
      rec ∈ recordsOf madt records type := mem_filter.mpr ⟨listed, decide_eq_true same⟩
  refine ⟨records, walk, by omega, ?_, allEnabled ?_, ?_, ?_⟩
  · intro rec listed
    rw [readsOf]
    split_ifs with short long
    · rcases short with zero | isTwo
      · exact inside0 rec (ofType listed zero)
      · exact (inside2 rec (ofType listed isTwo)).1
    · rcases long with one | five
      · exact inside1 rec (ofType listed one)
      · exact inside5 rec (ofType listed five)
    · exact two rec listed
  · have lengths := congrArg length registered.cpus
    rw [length_map, length_map, sameCpusToo] at lengths
    exact lengths
  · intro some_ none_
    obtain ⟨rec, listed⟩ := exists_mem_of_ne_nil _ some_
    apply (inside2 rec listed).2
    rw [← sameIoapics, registered.ioApics, none_, map_nil]
  · have keys := distinct
    rw [registered.isaIrqMapping, map_map] at keys
    exact keys

/-- The records are registered, each once, within as many turns as the table has bytes and without a
read outside of it, exactly if the table is well formed. -/
theorem readMADT_registers_iff (valid : checkTable madt = .ok true) :
    Registers madt ↔ ∃ records, WellFormed madt records :=
  ⟨wellFormed_of_registers valid, fun ⟨_, wf⟩ => registers_of_wellFormed valid wf⟩

def blank (length checksum : Byte) : Bytes :=
  fun i => if i = 4 then length else if i = 9 then checksum else 0

def oneCpu : Bytes := fun i => if i = 45 then 8 else if i = 48 then 1 else blank 52 195 i

theorem readMADT_registers_one : Registers oneCpu := by
  have walk : Walk oneCpu [44] 44 :=
    ⟨rfl, by decide +kernel, by decide +kernel, by unfold Walk; decide +kernel⟩
  exact (readMADT_registers_iff (by decide +kernel)).mpr
    ⟨[44], walk, by decide +kernel, by decide +kernel,
    by decide +kernel, by decide +kernel, by decide +kernel⟩

/-- A record of length 0 is met for ever; the length of a record behind the end is read. -/
theorem readMADT_misbehaves : checkTable (blank 46 210) = .ok true ∧
    (∀ fuel, readMADT (blank 46 210) fuel = .error .endless) ∧ checkTable (blank 45 211) =
      .ok true ∧
    readMADT (blank 45 211) 45 = .error (.readOutside 45) := by
  refine ⟨by decide +kernel, ?_, by decide +kernel, by decide +kernel⟩
  intro fuel
  have stays (reg : Registry) : visit (blank 46 210) 5 (onLapicAddr (blank 46 210)) 44 reg =
      .ok (some 44, reg) := rfl
  have length : read (blank 46 210) 4 4 = .ok 46 := by decide +kernel
  have walk : iterateTables (blank 46 210) 5 (onLapicAddr (blank 46 210)) fuel ⟨0, [], [], []⟩ =
      .error .endless := by
    refine (bind_ok length).trans (bind_error (scan_endless (· = 44) ?_ fuel rfl))
    rintro _ reg rfl
    exact ⟨by decide, 44, reg, stays reg, rfl⟩
  have valid : checkTable (blank 46 210) = .ok true := by decide +kernel
  have addr : read (blank 46 210) 36 4 = .ok 0 := by decide +kernel
  exact (bind_ok valid).trans ((bind_ok addr).trans (bind_error walk))

end Nx.Madt
