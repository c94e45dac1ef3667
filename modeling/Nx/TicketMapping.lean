import Nx.UserSpaces
import Nx.Memticket

/-!
Memory tickets and the address space they are collected into: kernel/source/ipc/memticket.cpp and
kernel/source/syscall/sc_memticket.cpp over the extents and the page tables.
-/

namespace Nx.TicketMapping

open Words Paging Physical Extmm Vmregion Machine Virtmap Outcomes PageTables Mapping Evolution
  FaultEffects ExtmmLedger UserSpaces Transitions Memticket

structure TicketWorld where
  world : World
  st : Tickets Nat

abbrev TicketKernel (α : Type) := Program TicketWorld Abort α

def onWorld (program : Kernel α) : TicketKernel α := do
  let tw ← get
  match program.run tw.world with
  | .error abort => throw abort
  | .ok (value, world) => do
    set { tw with world := world }
    pure value

def recordCollection (proc ticketId : Nat) (virt : Word) : TicketKernel PUnit := do
  let tw ← get
  match Memticket.collectMemticket tw.st proc ticketId virt with
  | .error abort => throw abort
  | .ok (_, st) =>
    set { tw with
      st := st
      world := tw.world.setProc proc { tw.world.procs proc with
        sharedRegions := (st.procs proc).sharedRegions } }

def collectMemticket (ticketId : Nat) : TicketKernel MemTicket := do
  let tw ← get
  match tw.st.tickets ticketId with
  | none => pure ⟨0, 0, 0⟩
  | some tik => do
    let virt ← onWorld (allocateAddrSpace tik.numPages .user none)
    recordCollection tw.world.current ticketId virt
    let pageflags := (if tik.flags &&& memticketFlagWrite != 0 then pageWrite else 0) ||| pageUser
    onWorld (mapLazy virt tik.numPages pageflags (some tw.world.current))
    pure ⟨virt, tik.userLen, tik.id⟩

def createMemoryTicket (len flags : Word) : TicketKernel Nat := do
  let tw ← get
  let (id, st) := createMemticket tw.st len flags
  set { tw with st := st }
  pure id

def collectMemoryTicket (ticketId : Nat) : TicketKernel MemTicket :=
  if ticketId = 0 then pure ⟨0, 0, 0⟩ else collectMemticket ticketId

def TicketWorld.switch (tw : TicketWorld) (proc : Nat) : TicketWorld :=
  { tw with world := { tw.world with current := proc } }

theorem onWorld_ends {tw} {failed : Abort → Prop} {program} {done : α → World → Prop}
    (ends : Ends program tw.world done failed) :
    Ends (onWorld program) tw (fun value after => ∃ world, done value world ∧
      after = { tw with world := world })
      failed := by
  apply ends_get
  cases ends with
  | normal result holds =>
    rw [result]
    apply ends_put
    exact ends_pure _ ⟨_, holds, rfl⟩
  | aborted result holds =>
    rw [result]
    exact ends_throw _ holds

theorem recordCollection_ends (tw : TicketWorld) {proc ticketId} {virt} {tik}
    (found : tw.st.tickets ticketId = some tik)
    (fresh : ⟨virt, tik.numPages, ticketId⟩ ∉ (tw.st.procs proc).sharedRegions) :
    Ends (recordCollection proc ticketId virt) tw
      (fun _ after => ∃ space : AddressSpace, after.world = tw.world.setProc proc space ∧
        space.theCR3 = (tw.world.procs proc).theCR3 ∧ space.vmmStates =
          (tw.world.procs proc).vmmStates ∧
        (∃ counted : MemoryTicket Nat, after.st.tickets ticketId = some counted ∧
          counted.numPages = tik.numPages ∧ counted.userLen = tik.userLen ∧ counted.id = tik.id) ∧
        (after.st.procs proc).sharedRegions = (tw.st.procs proc).sharedRegions ++
          [⟨virt, tik.numPages, ticketId⟩] ∧
        ∀ other ≠ proc, after.st.procs other = tw.st.procs other) (fun _ => False) := by
  apply ends_get
  unfold Memticket.collectMemticket
  rw [found]
  dsimp only
  rw [if_neg fresh]
  dsimp only
  apply ends_set
  refine ⟨_, rfl, rfl, rfl, ⟨_, Function.update_self _ _ _, rfl, rfl, rfl⟩, ?_, ?_⟩
  · simp
  · intro _ differs
    simp [differs]

section Lower

variable {virt : Word} {num : Nat} (aligned : virt.toNat % 4096 = 0)
  (lower : virt.toNat + 4096 * num ≤ 2 ^ 47)

include lower

theorem lower_page (inside : i < num) : (pageAt virt i).toNat < 2 ^ 47 ∧
    (indexPML4 (pageAt virt i)).toNat < 256 := by
  have at_ := pageAt_toNat virt (show 4096 * i < 2 ^ 64 by omega)
  rw [Nat.mod_eq_of_lt (by omega)] at at_
  rw [indexPML4, index_toNat]
  omega

include aligned

theorem lower_span : Span virt num where
  aligned := aligned
  canonical := fun _ inside => .inl (lower_page lower inside).1
  own := fun _ inside => own_of_low (lower_page lower inside).2

end Lower

theorem mapLazy_ends (tables : Tables roots world) {proc}
    (self : proc.getD world.current = world.current)
    {virt num flags} (aligned : virt.toNat % 4096 = 0)
      (lower : virt.toNat + 4096 * num.toNat ≤ 2 ^ 47)
    (absentFlag : flags &&& pagePresent = 0)
    (absent : ∀ i < num.toNat, present (entryAt world.mem world.cr3 (pageAt virt i)) = false)
    (supply : 3 * num.toNat ≤ world.pmm.supply) : Ends (mapLazy virt num flags proc) world
      (fun _ after =>
    Rewrites roots (leavesOf world.cr3 virt num.toNat) (3 * num.toNat) world after)
      (fun _ => False) := by
  apply assertThat_then ((isPageAligned_iff virt).mpr aligned)
  apply assertThat_then (by simpa using absentFlag)
  have short : 4096 * num.toNat ≤ 2 ^ 52 := by omega
  apply ends_mono (mapZeroPages_ends tables self (lower_span aligned lower) short absent
    fun i below high =>
    absurd high (BitVec.not_lt.mpr (Nat.le_of_lt_succ (lower_page lower below).2)))
  · exact fun _ _ done => done.1
  · intro _ _
    omega

/-! What holds between the calls. -/

/-- Tables and allocators are in order, and no shared region begins at a free address. -/
structure Orderly (roots : Set Word) (tw : TicketWorld) : Prop where
  tables : Tables roots tw.world
  roots : ∀ proc, (tw.world.procs proc).theCR3 ∈ roots
  spaces : ∀ proc, UserSpace (tw.switch proc).world
  shared : ∀ proc, ∀ svmr ∈ (tw.st.procs proc).sharedRegions,
    svmr.addr.toNat / 4096 ∉ (userState (tw.switch proc).world).freePages

theorem Orderly.switch {roots} {tw} (orderly : Orderly roots tw) (proc : Nat) :
    Orderly roots (tw.switch proc) :=
  ⟨switch_tables orderly.tables (orderly.roots proc), orderly.roots, orderly.spaces, orderly.shared⟩

def Offers (tw : TicketWorld) (id : Nat) (len : Word) : Prop :=
  ∀ tik, tw.st.tickets id = some tik → tik.numPages = Vmm.mmapPages len ∧ tik.userLen = len ∧
    tik.id = id ∧ len ≠ 0

/-- The current process has the addresses for the ticket, unmapped, and there are frames for
the tables. -/
def Collectable (tw : TicketWorld) (id : Nat) : Prop :=
  ∀ tik, tw.st.tickets id = some tik →
    ∃ virt st, (userState tw.world).allocate tik.numPages (fun _ _ => true) = .ok (virt, st) ∧
      virt ≠ 0 ∧
      (∀ i < tik.numPages.toNat, present (entryAt tw.world.mem tw.world.cr3 (pageAt virt i)) =
        false) ∧
      3 * tik.numPages.toNat ≤ tw.world.pmm.supply

/-- A null ticket and nothing changed, or a range for `len` bytes that was free before. -/
def Collected (before : TicketWorld) (id : Nat) (len : Word) (ret : MemTicket)
    (after : TicketWorld) : Prop :=
  (ret = ⟨0, 0, 0⟩ ∧ after = before) ∨
    ret.ticketId = id ∧ ret.len = len ∧ ∃ num, len.toNat ≤ 4096 * num ∧ UserRange ret.ptr num ∧
      FreeRange (userState before.world) ret.ptr num

/-- The current process has the ticket at an address that its allocator gave out. -/
structure Placed (roots : Set Word) (tw : TicketWorld) (id : Nat) (tik : MemoryTicket Nat)
    (virt : Word) (st : State)
    (after : TicketWorld) : Prop where
  tables : Tables roots after.world
  theCR3 : ∀ proc, (after.world.procs proc).theCR3 = (tw.world.procs proc).theCR3
  held : after.world.held = tw.world.held
  mine : userState (after.switch tw.world.current).world = st
  others : ∀ proc ≠ tw.world.current, userState (after.switch proc).world = userState
    (tw.switch proc).world
  counted : ∃ counted : MemoryTicket Nat, after.st.tickets id = some counted ∧
    counted.numPages = tik.numPages ∧ counted.userLen = tik.userLen ∧ counted.id = tik.id
  shared : (after.st.procs tw.world.current).sharedRegions =
    (tw.st.procs tw.world.current).sharedRegions ++ [⟨virt, tik.numPages, id⟩]
  sharedOthers : ∀ proc ≠ tw.world.current, after.st.procs proc = tw.st.procs proc

section Collect

variable {tw : TicketWorld} {id : Nat}

theorem collectMemticket_ends (tables : Tables roots tw.world) (found : tw.st.tickets id = some tik)
    (some : tik.numPages ≠ 0) (unheld : tw.world.held ≠ Option.some (tw.world.current, .user))
    (allocated : (userState tw.world).allocate tik.numPages (fun _ _ => true) = .ok (virt, st))
    (fresh : ⟨virt, tik.numPages, id⟩ ∉ (tw.st.procs tw.world.current).sharedRegions)
      (aligned : virt.toNat % 4096 = 0)
    (lower : virt.toNat + 4096 * tik.numPages.toNat ≤ 2 ^ 47)
    (absent : ∀ i < tik.numPages.toNat, present
      (entryAt tw.world.mem tw.world.cr3 (pageAt virt i)) = false)
    (supply : 3 * tik.numPages.toNat ≤ tw.world.pmm.supply) :
      Ends (collectMemticket id) tw (fun ret after =>
    ret = ⟨virt, tik.userLen, tik.id⟩ ∧ Placed roots tw id tik virt st after) (fun _ => False) := by
  apply ends_get
  rw [found]
  apply ends_call (onWorld_ends (allocateAddrSpace_ends some .user none))
  · rintro _ (held | ⟨_, other, allocatedToo, misaligned⟩)
    · exact unheld held
    · cases allocated.symm.trans allocatedToo
      exact misaligned aligned
  rintro _ _ ⟨world, ⟨_, _, _, allocatedToo, isWorld⟩, rfl⟩
  cases allocated.symm.trans allocatedToo
  have ⟨toReserved, _⟩ := evolves_of_setProc tables isWorld
  apply ends_call (recordCollection_ends { tw with world := world } found fresh)
  · exact fun _ impossible => impossible
  rintro _ recorded ⟨_, isRecorded, theCR3, vmmStates, counted, regions, others⟩
  dsimp only at isRecorded theCR3 vmmStates regions others
  have kept : ∀ proc, (recorded.world.procs proc).theCR3 = (world.procs proc).theCR3 := by
    intro proc
    rw [isRecorded]
    by_cases mine : proc = tw.world.current
    · rw [mine, World.setProc_self, theCR3]
    · rw [World.setProc_of_ne _ mine]
  have toRecorded : Evolves roots noLeaf world recorded.world := by
    refine Evolves.ofSameMemory toReserved.tables ?_ ?_ kept ?_ ?_ <;> rw [isRecorded] <;> rfl
  have cr3 : recorded.world.cr3 = tw.world.cr3 := toRecorded.cr3.trans toReserved.cr3
  have self : (Option.some tw.world.current).getD recorded.world.current = recorded.world.current :=
    (toRecorded.current.trans toReserved.current).symm
  have sameMem : recorded.world.mem = tw.world.mem := by
    rw [isRecorded, isWorld]
    rfl
  have samePmm : recorded.world.pmm = tw.world.pmm := by
    rw [isRecorded, isWorld]
    rfl
  apply ends_call (onWorld_ends (mapLazy_ends toRecorded.tables self aligned lower ?_
    (by rw [sameMem, cr3]; exact absent) (by rw [samePmm]; exact supply)))
  · exact fun _ impossible => impossible
  · rintro _ _ ⟨mapped, rewrites, rfl⟩
    apply ends_pure
    have undisturbed := rewrites.undisturbed
    refine ⟨rfl, rewrites.tables, ?_, ?_, ?_, ?_, counted, regions, others⟩
    · intro proc
      rw [undisturbed.theCR3, kept, toReserved.theCR3]
    · exact undisturbed.held.trans (toRecorded.held.trans toReserved.held)
    · show (mapped.procs tw.world.current).vmmStates .user = st
      rw [undisturbed.vmmStates, isRecorded, World.setProc_self, vmmStates, isWorld,
        Option.getD_none,
        World.setProc_self]
      dsimp only
      rw [Function.update_self]
    · intro proc differs
      show (mapped.procs proc).vmmStates .user = (tw.world.procs proc).vmmStates .user
      rw [undisturbed.vmmStates, isRecorded, World.setProc_of_ne _ differs, isWorld,
        Option.getD_none,
        World.setProc_of_ne _ differs]
  · split <;> decide

theorem Placed.orderly (placed : Placed roots tw id tik virt st after) (orderly : Orderly roots tw)
    (some : tik.numPages ≠ 0)
    (allocated : (userState tw.world).allocate tik.numPages (fun _ _ => true) = .ok (virt, st))
    (nonzero : virt ≠ 0) : Orderly roots after := by
  have ⟨space, fewer, taken⟩ := (orderly.spaces tw.world.current).taken
      (after.switch tw.world.current).world some
    allocated nonzero placed.held rfl placed.mine
  refine ⟨placed.tables, ?_, ?_, ?_⟩
  · intro proc
    rw [placed.theCR3]
    exact orderly.roots proc
  · intro proc
    by_cases same : proc = tw.world.current
    · rw [same]
      exact space
    · have ⟨unheld, sound, apart, range⟩ := orderly.spaces proc
      rw [← placed.others proc same] at sound apart range
      exact ⟨placed.held ▸ unheld, sound, apart, range⟩
  · intro proc svmr listed
    by_cases same : proc = tw.world.current
    · rw [same] at listed ⊢
      rcases List.mem_append.mp (placed.shared ▸ listed) with older | new
      · exact fun isFree => orderly.shared _ svmr older (fewer isFree)
      · rw [List.mem_singleton.mp new]
        exact taken
    · rw [placed.others proc same]
      rw [placed.sharedOthers proc same] at listed
      exact orderly.shared proc svmr listed

theorem collect_ends (orderly : Orderly roots tw) (offers : Offers tw id len)
    (fits : len.toNat + 4095 < 2 ^ 64)
    (collectable : Collectable tw id) : Ends (collectMemticket id) tw
      (fun ret after => Collected tw id len ret after ∧
    Orderly roots after ∧ Offers after id len) (fun _ => False) := by
  cases found : tw.st.tickets id with
  | none =>
    apply ends_get
    rw [found]
    exact ends_pure _ ⟨.inl ⟨rfl, rfl⟩, orderly, offers⟩
  | some tik =>
    obtain ⟨pages, userLen, isId, nonempty⟩ := offers tik found
    obtain ⟨virt, _, allocated, nonzero, absent, supply⟩ := collectable tik found
    have some : tik.numPages ≠ 0 := by
      rw [pages]
      exact mmapPages_ne_zero fits nonempty
    have space : UserSpace tw.world := orderly.spaces tw.world.current
    have ⟨user, free⟩ := space.allocates some allocated nonzero
    -- the addresses were free, so no shared region begins there
    have fresh : (⟨virt, tik.numPages, id⟩ : SharedVMRegion) ∉
        (tw.st.procs tw.world.current).sharedRegions :=
      fun listed => orderly.shared tw.world.current _ listed (free 0 (Nat.pos_of_ne_zero fun zero =>
        some (BitVec.eq_of_toNat_eq zero)))
    have below := user.below
    apply ends_imp (collectMemticket_ends orderly.tables found some space.unheld allocated fresh
      user.aligned
      (by omega) absent supply)
    rintro _ _ ⟨rfl, placed⟩
    refine ⟨.inr ⟨isId, userLen, tik.numPages.toNat, ?_, user, free⟩,
      placed.orderly orderly some allocated nonzero, ?_⟩
    · rw [pages, mmapPages_toNat fits]
      omega
    · intro _ isLater
      obtain ⟨_, isCounted, sameNum, sameLen, sameId⟩ := placed.counted
      cases isCounted.symm.trans isLater
      exact ⟨sameNum.trans pages, sameLen.trans userLen, sameId.trans isId, nonempty⟩

end Collect

/-! Runs. -/

def CollectStep (id : Nat) (before : TicketWorld) (proc : Nat) (after : TicketWorld) : Prop :=
  ∃ ret, (collectMemoryTicket id).run (before.switch proc) = .ok (ret, after)

def Prepared (id : Nat) (move : Move TicketWorld Nat) :
    Prop := Collectable (move.before.switch move.label) id

theorem collectMemoryTicket_ends {id} (orderly : Orderly roots tw) (offers : Offers tw id len)
    (fits : len.toNat + 4095 < 2 ^ 64) (collectable : Collectable tw id) :
      Ends (collectMemoryTicket id) tw
    (fun ret after => Collected tw id len ret after ∧ Orderly roots after ∧ Offers after id len)
      (fun _ => False) := by
  unfold collectMemoryTicket
  split
  · exact ends_pure _ ⟨.inl ⟨rfl, rfl⟩, orderly, offers⟩
  · exact collect_ends orderly offers fits collectable

theorem create_offers {roots} {tw} (orderly : Orderly roots tw)
    (unused : ∀ id, tw.st.ticketIdCounter < id →
    tw.st.tickets id = none) (young : tw.st.ticketIdCounter < 2 ^ 64 - 1) (len flags : Word) :
    Ends (createMemoryTicket len flags) tw (fun id after => Orderly roots after ∧
      Offers after id len) (fun _ =>
    False) := by
  apply ends_get
  unfold createMemticket
  by_cases empty : len = 0
  · rw [if_pos empty]
    apply ends_put
    apply ends_pure
    refine ⟨orderly, fun tik found => ?_⟩
    rw [unused _ young] at found
    cases found
  · rw [if_neg empty]
    apply ends_put
    apply ends_pure
    refine ⟨⟨orderly.tables, orderly.roots, orderly.spaces, orderly.shared⟩, fun _ found => ?_⟩
    cases (Function.update_self _ _ _).symm.trans found
    exact ⟨rfl, rfl, rfl, empty⟩

/-- A ticket whose page count does not wrap around can be collected again and again, by any
process that has the addresses and frames for it. -/
theorem tickets_safe {roots : Set Word} {start : TicketWorld} (orderly : Orderly roots start)
    (unused : ∀ id, start.st.ticketIdCounter < id → start.st.tickets id = none)
    (young : start.st.ticketIdCounter < 2 ^ 64 - 1) (len flags : Word)
      (fits : len.toNat + 4095 < 2 ^ 64) :
    ∃ id created, (createMemoryTicket len flags).run start = .ok (id, created) ∧
      ∀ (moves : List (Move TicketWorld Nat)) (last : TicketWorld),
        Run (CollectStep id) created moves last →
        (∀ move ∈ moves, Prepared id move) → ∀ tw ∈ visited created moves, ∀ proc,
          Collectable (tw.switch proc) id →
          ∃ ret after, (collectMemoryTicket id).run (tw.switch proc) = .ok (ret, after) ∧
            Collected (tw.switch proc) id len ret after := by
  obtain ⟨id, created, made, orderlyCreated, offers⟩ :=
    ends_exists (create_offers orderly unused young len flags)
  refine ⟨id, created, made, ?_⟩
  intro _ _ run prepared tw reached proc collectable
  have ⟨orderlyNow, offersNow⟩ := run_guarded (fun tw => Orderly roots tw ∧ Offers tw id len)
      (Prepared id) (by
      rintro move ⟨orderlyBefore, offersBefore⟩ ⟨ret, ran⟩ ready
      exact (ends_of_ok (collectMemoryTicket_ends (orderlyBefore.switch move.label) offersBefore
        fits ready) ran).2)
    run ⟨orderlyCreated, offers⟩ prepared tw reached
  obtain ⟨ret, after, ran, collected, _⟩ := ends_exists
    (collectMemoryTicket_ends (orderlyNow.switch proc) offersNow fits collectable)
  exact ⟨ret, after, ran, collected⟩

def youngTickets : TicketWorld := ⟨youngWorld 0 1, ⟨0, fun _ => none, fun _ => ⟨[], []⟩⟩⟩

theorem youngTickets_orderly : Orderly youngRoots youngTickets :=
  ⟨youngWorld_tables 0 1, youngWorld_root, youngWorld_userSpace, nofun⟩

/-- Two pages, for a process that has sixteen. -/
theorem tickets_safe_young : ∃ id created, (createMemoryTicket 0x1800 0).run youngTickets =
    .ok (id, created) ∧
    ∃ ret after, (collectMemoryTicket id).run (created.switch 1) = .ok (ret, after) ∧
    Collected (created.switch 1) id 0x1800 ret after := by
  obtain ⟨id, created, ran, safe⟩ := tickets_safe youngTickets_orderly (fun _ _ => rfl)
      (by decide) 0x1800 0 (by decide)
  refine ⟨id, created, ran, safe [] created (.refl created) (List.forall_mem_nil _) created
    (by simp [visited]) 1 ?_⟩
  cases ran
  intro tik found
  have pages : tik.numPages = 2 := by
    cases found
    rfl
  rw [pages]
  have user : UserRange 0x400000 (2 : Word).toNat := ⟨by decide, by decide, by decide⟩
  refine ⟨0x400000, _, rfl, by decide, fun i inside => ?_, by decide⟩
  exact youngWorld_absent user inside

def greedyTickets : TicketWorld := { youngTickets with st := (createMemticket youngTickets.st 0x11000 0).2 }

/-- The page count of the largest lengths wraps around to zero, which no allocator takes. A
ticket of seventeen pages, where sixteen addresses are left, is mapped from address zero on. -/
theorem collect_misbehaves : (createMemoryTicket 0xFFFFFFFFFFFFFFFF 0 >>= collectMemoryTicket).run
    youngTickets =
      .error (.extmmZeroPages "vmm/kernel") ∧ (createMemoryTicket 0x11000 0).run youngTickets =
        .ok (1, greedyTickets) ∧
    ∃ ret after, (collectMemoryTicket 1).run greedyTickets = .ok (ret, after) ∧
      ret = ⟨0, 0x11000, 1⟩ ∧
      (after.st.procs 1).sharedRegions = [⟨0, 17, 1⟩] := by
  refine ⟨rfl, rfl, ?_⟩
  have tables : Tables youngRoots greedyTickets.world := youngWorld_tables 0 1
  have found : greedyTickets.st.tickets 1 =
      some ⟨1, memticketFlagRead ||| memticketFlagWrite, 0x11000, 17, 0, fun _ => []⟩ := rfl
  have aligned : (0 : Word).toNat % 4096 = 0 := rfl
  have lower : (0 : Word).toNat + 4096 * (17 : Word).toNat ≤ 2 ^ 47 := by decide
  have absent : ∀ i < (17 : Word).toNat,
      present (entryAt (youngWorld 0 1).mem (youngWorld 0 1).cr3 (pageAt 0 i)) = false := by
    intro i inside
    rw [youngWorld_unmapped (youngWorld_tables 0 1).current
      ((lower_span aligned lower).own i inside)]
    decide
  obtain ⟨ret, after, ran, isRet, placed⟩ := ends_exists
    (collectMemticket_ends tables found (by decide) nofun rfl nofun aligned lower absent
      (by decide))
  exact ⟨ret, after, ran, isRet, placed.shared⟩

end Nx.TicketMapping
