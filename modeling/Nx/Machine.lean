import Nx.Outcomes
import Nx.Paging
import Nx.Physical
import Nx.Vmregion

/-!
The state that the memory code of the kernel works on, and its accesses to memory. Processes are
known by their `processId`; 0 is the kernel process.
-/

namespace Nx.Machine

open Words Paging Physical Vmregion Outcomes Function
open BitVec (ofNat)

inductive SchedulerInitPhase where
  | uninitialised
  | kernelProcessInit
  | readyToRegisterCPUs
  | bootstrapCPURegistered
  | schedulerStarted
  deriving DecidableEq

def SchedulerInitPhase.rank : SchedulerInitPhase → Nat
  | .uninitialised => 0
  | .kernelProcessInit => 1
  | .readyToRegisterCPUs => 2
  | .bootstrapCPURegistered => 3
  | .schedulerStarted => 4

/-- `held` is the extent allocator whose `mutex` the thread holds while it waits
for a page of new nodes. -/
structure World where
  mem : Memory
  pmm : Pmm
  store : SharedStore
  procs : Nat → AddressSpace
  current : Nat
  initPhase : SchedulerInitPhase
  held : Option (Nat × AddressSpaceType)

def World.cr3 (world : World) : Word := (world.procs world.current).theCR3

def World.setProc (world : World) (proc : Nat) (space : AddressSpace) : World :=
  { world with procs := update world.procs proc space }

theorem World.setProc_self (world : World) (proc : Nat) (space : AddressSpace) :
    (world.setProc proc space).procs proc = space := update_self _ _ _

theorem World.setProc_of_ne (world : World) (differs : other ≠ proc) (space : AddressSpace) :
    (world.setProc proc space).procs other = world.procs other :=
  update_of_ne differs _ _

abbrev Kernel (α : Type) := Program World Abort α

def refuse (cond : Bool) (abort : Abort) : Kernel PUnit :=
  if cond then throw abort else pure ⟨⟩

def onlyIf (cond : Bool) (program : Kernel PUnit) : Kernel PUnit :=
  if cond then program else pure ⟨⟩

def assertThat (cond : Bool) (text : String) : Kernel PUnit :=
  refuse (!cond) (.assertFailed text)

def load (page : Word) (index : Index) : Kernel Word := do
  let world ← get
  match translate world.mem world.cr3 page with
  | none => throw (.unmappedAccess page)
  | some frame => pure (world.mem frame index)

def store (page : Word) (index : Index) (value : Word) : Kernel PUnit := do
  let world ← get
  match translate world.mem world.cr3 page with
  | none => throw (.unmappedAccess page)
  | some frame =>
    set { world with
      mem := update world.mem frame (update (world.mem frame) index value) }

def clearWords (page : Word) : Nat → Kernel PUnit
  | 0 => pure ⟨⟩
  | count + 1 => do
    clearWords page count
    store page (ofNat 9 count) 0

def clearPage (page : Word) : Kernel PUnit := clearWords page 512

def copyWords (dest src : Word) : Nat → Kernel PUnit
  | 0 => pure ⟨⟩
  | count + 1 => do
    copyWords dest src count
    let value ← load src (ofNat 9 count)
    store dest (ofNat 9 count) value

def copyPage (dest src : Word) : Kernel PUnit := copyWords dest src 512

def pmmAllocate (num : Word) (below4G : Bool) : Kernel Word := do
  let world ← get
  match world.pmm.allocate num below4G with
  | .error abort => throw abort
  | .ok (phys, pmm) => do
    set { world with pmm := pmm }
    pure phys

variable {cond : Bool} {page frame : Word} {index : Index}

section Ends

variable {world : World}

theorem refuse_ends (fails : cond = true → failed abort) :
    Ends (refuse cond abort) world (fun _ after => cond = false ∧ after = world) failed := by
  cases cond with
  | true => exact ends_throw _ (fails rfl)
  | false => exact ends_pure _ ⟨rfl, rfl⟩

theorem refuse_then (fails : cond = true → failed abort)
    (rest : cond = false → Ends (next ⟨⟩) world done failed) :
    Ends (refuse cond abort >>= next) world done failed := by
  exact ends_read (refuse_ends fails) fun _ passed => rest passed

theorem assertThat_ends (fails : cond = false → failed (.assertFailed text)) :
    Ends (assertThat cond text) world (fun _ after => cond = true ∧ after = world) failed := by
  refine ends_imp (refuse_ends ?_) ?_
  · simpa using fails
  · simp

theorem assertThat_then (holds : cond = true) (rest : Ends (next ⟨⟩) world done failed) :
    Ends (assertThat cond text >>= next) world done failed := by
  exact ends_read (assertThat_ends fun refuted => absurd holds (by simp [refuted])) fun _ _ => rest

theorem assertThat_any (rest : cond = true → Ends (next ⟨⟩) world done fun _ => True) :
    Ends (assertThat cond text >>= next) world done fun _ => True :=
  ends_read (assertThat_ends fun _ => trivial) fun _ passed => rest passed

section

variable (maps : translate world.mem world.cr3 page = some frame)
include maps

theorem load_ends : Ends (load page index) world (fun value after => value = world.mem frame index ∧
    after = world) failed := by
  apply ends_get
  simp only [maps]
  exact ends_pure _ ⟨rfl, rfl⟩

theorem load_then {next : Word → Kernel α} (rest :
    Ends (next (world.mem frame index)) world done failed) :
    Ends (load page index >>= next) world done failed := by
  apply ends_read (load_ends maps)
  rintro _ rfl
  exact rest

theorem store_ends {value : Word} :
    Ends (store page index value) world (fun _ after => after = { world with
        mem := update world.mem frame (update (world.mem frame) index value) })
      failed := by
  apply ends_get
  simp only [maps]
  exact ends_set _ rfl

end

def MapsFirmly (world : World) (page frame : Word) : Prop :=
  ∀ mem : Memory, (∀ other ≠ frame, mem other = world.mem other) → translate mem world.cr3 page =
    some frame

def partly (count : Nat) (new old : Index → Word) : Index → Word :=
  fun index => if index.toNat < count then new index else old index

theorem partly_zero (new old : Index → Word) : partly 0 new old = old := by
  funext index
  simp [partly]

theorem partly_all (new old : Index → Word) : partly 512 new old = new := by
  funext index
  rw [partly, if_pos index.isLt]

theorem partly_self (count : Nat) (old : Index → Word) : partly count old old = old := by
  funext index
  simp [partly]

theorem partly_succ (below : count < 512) (new old : Index → Word) :
    update (partly count new old) (ofNat 9 count) (new (ofNat 9 count)) =
      partly (count + 1) new old := by
  have atCount : (ofNat 9 count).toNat = count := by
    rw [BitVec.toNat_ofNat]
    exact Nat.mod_eq_of_lt below
  funext index
  by_cases here : index = ofNat 9 count
  · rw [here, update_self, partly, atCount, if_pos (Nat.lt_succ_self count)]
  · have other : index.toNat ≠ count := by
      intro same
      apply here
      apply BitVec.eq_of_toNat_eq
      rw [atCount, same]
    have step : index.toNat < count ↔ index.toNat < count + 1 := by omega
    rw [update_of_ne here, partly, partly]
    simp only [step]

theorem clearWords_ends (firm : MapsFirmly world page frame) (count : Nat) (below : count ≤ 512) :
    Ends (clearWords page count) world (fun _ after => after = { world with
        mem := update world.mem frame (partly count (fun _ => 0) (world.mem frame)) })
      failed := by
  induction count with
  | zero =>
    apply ends_pure
    simp [partly_zero]
  | succ _ ih =>
    apply ends_seq (ih (by omega))
    intro _ middle moved
    have maps : translate middle.mem middle.cr3 page = some frame := by
      rw [moved]
      apply firm
      intro _ differs
      simp [differs]
    apply ends_imp (store_ends maps)
    intro _ _ stored
    rw [stored, moved]
    dsimp only
    rw [update_self, update_idem, partly_succ below]

theorem clearPage_ends (firm : MapsFirmly world page frame) :
    Ends (clearPage page) world (fun _ after =>
    after = { world with mem := update world.mem frame fun _ => 0 }) failed := by
  unfold clearPage
  apply ends_imp (clearWords_ends firm 512 le_rfl)
  intro _ _ cleared
  rw [cleared, partly_all]

section

variable (firm : MapsFirmly world dest frame) (source : ∀ mem : Memory,
  (∀ other ≠ frame, mem other = world.mem other) → translate mem world.cr3 src = some from_)
include firm source

theorem copyWords_ends (count : Nat) (below : count ≤ 512) :
    Ends (copyWords dest src count) world (fun _ after => after = { world with
        mem := update world.mem frame (partly count (world.mem from_) (world.mem frame)) })
      failed := by
  induction count with
  | zero =>
    apply ends_pure
    simp [partly_zero]
  | succ count ih =>
    apply ends_seq (ih (by omega))
    intro _ middle moved
    have kept : ∀ other ≠ frame, middle.mem other = world.mem other := by
      intro _ differs
      rw [moved]
      simp [differs]
    have cr3 : middle.cr3 = world.cr3 := by rw [moved]; rfl
    have reads : middle.mem from_ (ofNat 9 count) = world.mem from_ (ofNat 9 count) := by
      by_cases same : from_ = frame
      · rw [moved, same]
        simp [partly_self]
      · rw [kept from_ same]
    have fromMaps : translate middle.mem middle.cr3 src = some from_ := by
      rw [cr3]
      exact source _ kept
    have toMaps : translate middle.mem middle.cr3 dest = some frame := by
      rw [cr3]
      exact firm _ kept
    apply ends_seq (load_ends fromMaps)
    rintro _ _ ⟨loaded, rfl⟩
    apply ends_imp (store_ends toMaps)
    intro _ _ stored
    rw [stored, loaded, reads, moved]
    dsimp only
    rw [update_self, update_idem, partly_succ below]

theorem copyPage_ends : Ends (copyPage dest src) world (fun _ after => after = { world with
        mem := update world.mem frame (world.mem from_) }) failed := by
  unfold copyPage
  apply ends_imp (copyWords_ends firm source 512 le_rfl)
  intro _ _ copied
  rw [copied, partly_all]

end

theorem pmmAllocate_ends (sound : world.pmm.Sound) (empty : ∀ abort, world.pmm.supply = 0 →
    failed abort) :
    Ends (pmmAllocate 1 false) world (fun phys after => after = { world with pmm := after.pmm } ∧
    Takes world.pmm after.pmm phys) failed := by
  apply ends_get
  cases allocated : world.pmm.allocate 1 false with
  | error abort => exact ends_throw _ (empty abort (allocate_error sound allocated))
  | ok =>
    apply ends_put
    exact ends_pure _ ⟨rfl, allocate_takes sound allocated⟩

end Ends

end Nx.Machine
