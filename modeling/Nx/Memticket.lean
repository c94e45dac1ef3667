import Nx.Vmregion
import Nx.Transitions

/-!
Memory tickets, kernel/source/ipc/memticket.cpp.
-/

namespace Nx.Memticket


open Words Transitions Vmregion Function List

variable {Proc : Type} [DecidableEq Proc]

structure MemoryTicket (Proc : Type) where
  id : Nat
  flags : Word
  userLen : Word
  numPages : Word
  refcount : Nat
  collectors : Proc → List SharedVMRegion

structure ProcTickets where
  collectedTickets : List Nat
  sharedRegions : List SharedVMRegion

structure Tickets (Proc : Type) where
  ticketIdCounter : Nat
  tickets : Nat → Option (MemoryTicket Proc)
  procs : Proc → ProcTickets

structure MemTicket where
  ptr : Word
  len : Word
  ticketId : Nat
  deriving DecidableEq

def memticketFlagRead : Word := 0x01
def memticketFlagWrite : Word := 0x02

def MemoryTicket.ref (tik : MemoryTicket Proc) : MemoryTicket Proc :=
  { tik with refcount := tik.refcount + 1 }

def MemoryTicket.deref (tik : MemoryTicket Proc) : MemoryTicket Proc × Bool :=
  let refcount := if tik.refcount = 0 then 2 ^ 64 - 1 else tik.refcount - 1
  ({ tik with refcount := refcount }, refcount == 0)

def createMemticket (st : Tickets Proc) (len flags : Word) : Nat × Tickets Proc :=
  if len = 0 then (2 ^ 64 - 1, st)
  else
    let pages := (len + pageSize - 1) / pageSize
    let flags := if flags = 0 then memticketFlagRead ||| memticketFlagWrite else flags
    let id := st.ticketIdCounter + 1
    (id, { st with
      ticketIdCounter := id
      tickets := update st.tickets id (some ⟨id, flags, len, pages, 0, fun _ => []⟩) })

/-- `virt` is the address space that was found for the ticket. Adding the same
shared region twice aborts in `addSharedRegion`. -/
def collectMemticket (st : Tickets Proc) (proc : Proc) (ticketId : Nat) (virt : Word) :
    Except Abort (MemTicket × Tickets Proc) :=
  match st.tickets ticketId with
  | none => .ok (⟨0, 0, 0⟩, st)
  | some tik =>
    let svmr : SharedVMRegion := ⟨virt, tik.numPages, ticketId⟩
    let record := st.procs proc
    if svmr ∈ record.sharedRegions then .error .vmregionDuplicateRegion
    else
      let record : ProcTickets :=
        { collectedTickets := record.collectedTickets ++ [ticketId]
          sharedRegions := record.sharedRegions ++ [svmr] }
      let tik := { tik.ref with
        collectors := update tik.collectors proc (svmr :: tik.collectors proc) }
      .ok (⟨virt, tik.userLen, tik.id⟩, { st with
        tickets := update st.tickets ticketId (some tik)
        procs := update st.procs proc record })

/-- The process's list loses the id only with the last collection of the
ticket, and then all its occurrences. Returns the tickets it destroyed. -/
def releaseMemticket (st : Tickets Proc) (proc : Proc) (ticket : MemTicket) :
    Tickets Proc × List Nat :=
  match st.tickets ticket.ticketId with
  | none => (st, [])
  | some tik =>
    match (tik.collectors proc).find? (fun svmr => svmr.addr == ticket.ptr) with
    | none => (st, [])
    | some svmr =>
      let left := (tik.collectors proc).eraseP fun svmr => svmr.addr == ticket.ptr
      let record := st.procs proc
      let record : ProcTickets :=
        { collectedTickets :=
            if left.isEmpty then record.collectedTickets.filter (fun id => id != tik.id)
            else record.collectedTickets
          sharedRegions := record.sharedRegions.filter fun other => other != svmr }
      let (tik, gone) := MemoryTicket.deref
        { tik with collectors := update tik.collectors proc left }
      ({ st with
          tickets := update st.tickets ticket.ticketId (if gone then none else some tik)
          procs := update st.procs proc record },
        if gone then [ticket.ticketId] else [])

def cleanupTickets : List Nat → (Nat → Option (MemoryTicket Proc)) →
    (Nat → Option (MemoryTicket Proc)) × List Nat
  | [], tickets => (tickets, [])
  | id :: rest, tickets =>
    match tickets id with
    | none => cleanupTickets rest tickets
    | some tik =>
      if tik.deref.2 then
        let later := cleanupTickets rest (update tickets id none)
        (later.1, id :: later.2)
      else cleanupTickets rest (update tickets id (some tik.deref.1))

def cleanupProcessTickets (st : Tickets Proc) (proc : Proc) : Tickets Proc × List Nat :=
  let cleaned := cleanupTickets (st.procs proc).collectedTickets st.tickets
  ({ st with tickets := cleaned.1 }, cleaned.2)

/-! What the processes hold, kept apart from the kernel's own records. -/

structure Collection (Proc : Type) where
  proc : Proc
  addr : Word
  ticket : Nat
  deriving DecidableEq

structure System (Proc : Type) where
  st : Tickets Proc
  alive : Finset Proc
  held : List (Collection Proc)
  destroyed : List Nat

inductive Op (Proc : Type) where
  | create (len flags : Word)
  | collect (proc : Proc) (ticketId : Nat) (virt : Word)
  | release (proc : Proc) (ticket : MemTicket)
  | die (proc : Proc)
  | spawn (proc : Proc)

/-- A collection is held from a collect that returned the ticket until its
address is released or its process dies. Processes are known by their address: a new one may be
where a dead one was, and then the entries for it in `collectors` are still there. -/
inductive Step : System Proc → Op Proc → System Proc → Prop where
  | create (sys : System Proc) (len flags : Word) :
      Step sys (.create len flags)
        { sys with st := (createMemticket sys.st len flags).2, destroyed := [] }
  | collect (sys : System Proc) (proc : Proc) (ticketId : Nat) (virt : Word)
      (ticket : MemTicket) (st : Tickets Proc) (alive : proc ∈ sys.alive)
      (done : collectMemticket sys.st proc ticketId virt = .ok (ticket, st)) :
      Step sys (.collect proc ticketId virt)
        { sys with
          st := st
          held := if ticket.ticketId = 0 then sys.held
            else ⟨proc, ticket.ptr, ticket.ticketId⟩ :: sys.held
          destroyed := [] }
  | release (sys : System Proc) (proc : Proc) (ticket : MemTicket)
      (alive : proc ∈ sys.alive) :
      Step sys (.release proc ticket)
        { sys with
          st := (releaseMemticket sys.st proc ticket).1
          held := sys.held.erase ⟨proc, ticket.ptr, ticket.ticketId⟩
          destroyed := (releaseMemticket sys.st proc ticket).2 }
  | die (sys : System Proc) (proc : Proc) (alive : proc ∈ sys.alive) :
      Step sys (.die proc)
        { st := (cleanupProcessTickets sys.st proc).1
          alive := sys.alive.erase proc
          held := sys.held.filter fun collection => collection.proc != proc
          destroyed := (cleanupProcessTickets sys.st proc).2 }
  | spawn (sys : System Proc) (proc : Proc) (absent : proc ∉ sys.alive) :
      Step sys (.spawn proc)
        { sys with
          st := { sys.st with procs := update sys.st.procs proc ⟨[], []⟩ }
          alive := insert proc sys.alive
          destroyed := [] }

def heldAt (held : List (Collection Proc)) (proc : Proc) (id : Nat) : List Word :=
  (held.filter fun collection => collection.proc == proc && collection.ticket == id).map
    Collection.addr

def holders (held : List (Collection Proc)) (id : Nat) : Nat :=
  held.countP fun collection => collection.ticket == id

theorem heldAt_cons (first : Collection Proc) (held : List (Collection Proc)) (proc : Proc)
    (id : Nat) :
    heldAt (first :: held) proc id =
      if first.proc = proc ∧ first.ticket = id then first.addr :: heldAt held proc id
      else heldAt held proc id := by
  by_cases same : first.proc = proc ∧ first.ticket = id
  · simp [heldAt, same]
  · rw [if_neg same]
    rw [not_and_or] at same
    rcases same with other | other
    · simp [heldAt, other]
    · simp [heldAt, other]

omit [DecidableEq Proc] in
theorem holders_cons (first : Collection Proc) (held : List (Collection Proc)) (id : Nat) :
    holders (first :: held) id =
      if first.ticket = id then holders held id + 1 else holders held id := by
  by_cases same : first.ticket = id
  · simp [holders, same]
  · simp [holders, same]

section

variable (held : List (Collection Proc))
include held

theorem mem_heldAt (proc : Proc) (id : Nat) (addr : Word) :
    addr ∈ heldAt held proc id ↔ ⟨proc, addr, id⟩ ∈ held := by
  simp only [heldAt, mem_map, mem_filter, Bool.and_eq_true, beq_iff_eq]
  constructor
  · rintro ⟨_, ⟨member, rfl, rfl⟩, rfl⟩
    exact member
  · intro member
    exact ⟨_, ⟨member, rfl, rfl⟩, rfl⟩

theorem heldAt_erase (gone : Collection Proc) (proc : Proc) (id : Nat) :
    heldAt (held.erase gone) proc id =
      if gone.proc = proc ∧ gone.ticket = id then (heldAt held proc id).erase gone.addr
      else heldAt held proc id := by
  induction held with
  | nil => simp [heldAt]
  | cons first _ ih =>
    by_cases same : first = gone
    · subst same
      rw [erase_cons_head, heldAt_cons]
      by_cases match_ : first.proc = proc ∧ first.ticket = id
      · simp [match_]
      · simp [match_]
    · rw [erase_cons_tail (by simpa using same), heldAt_cons, heldAt_cons, ih]
      by_cases atGone : gone.proc = proc ∧ gone.ticket = id
      · by_cases atFirst : first.proc = proc ∧ first.ticket = id
        · have differs : first.addr ≠ gone.addr := by
            intro _
            apply same
            cases first
            cases gone
            simp_all
          simp only [atGone, atFirst, and_self, ↓reduceIte]
          rw [erase_cons_tail (by simpa using differs)]
        · simp [atGone, atFirst]
      · simp [atGone]

theorem holders_split (proc : Proc) (id : Nat) : holders held id = (heldAt held proc id).length +
      holders (held.filter fun collection => collection.proc != proc) id := by
  induction held with
  | nil => simp [holders, heldAt]
  | cons first _ ih =>
    rw [holders_cons, heldAt_cons, filter_cons]
    by_cases mine : first.proc = proc
    · by_cases same : first.ticket = id
      · simp [mine, same, ih]
        omega
      · simp [mine, same, ih]
    · by_cases same : first.ticket = id
      · simp [mine, same, ih, holders_cons]
        omega
      · simp [mine, same, ih, holders_cons]

theorem heldAt_filter (dead proc : Proc) (id : Nat) (other : proc ≠ dead) :
    heldAt (held.filter fun collection => collection.proc != dead) proc id =
      heldAt held proc id := by
  induction held with
  | nil => rfl
  | cons first _ ih =>
    rw [filter_cons, heldAt_cons]
    by_cases mine : first.proc = dead
    · simp [mine, ih, Ne.symm other]
    · simp [mine, ih, heldAt_cons]

end

/-! One `deref` for every entry: what is left of a ticket depends only on how
often its id is in the list. -/

omit [DecidableEq Proc] in
theorem deref_positive (tik : MemoryTicket Proc) (positive : 0 < tik.refcount) :
    tik.deref = ({ tik with refcount := tik.refcount - 1 }, tik.refcount - 1 == 0) := by
  have nonzero : tik.refcount ≠ 0 := by omega
  simp [MemoryTicket.deref, nonzero]

def remaining : Option (MemoryTicket Proc) → Nat → Option (MemoryTicket Proc)
  | none, _ => none
  | some tik, times =>
    if times < tik.refcount ∨ times = 0 then
      some { tik with refcount := tik.refcount - times }
    else none

omit [DecidableEq Proc] in
@[simp] theorem remaining_zero (entry : Option (MemoryTicket Proc)) :
    remaining entry 0 = entry := by
  cases entry <;> simp [remaining]

omit [DecidableEq Proc] in
theorem remaining_succ (tik : MemoryTicket Proc) (positive : 0 < tik.refcount) (times : Nat) :
    remaining (some tik) (times + 1) = remaining (if tik.deref.2 then none else some tik.deref.1)
      times := by
  rw [deref_positive tik positive]
  by_cases last : tik.refcount = 1
  · simp [remaining, last]
  · have stays : (tik.refcount - 1 == 0) = false := by
      rw [beq_eq_false_iff_ne]
      omega
    simp only [remaining, stays, Bool.false_eq_true, ↓reduceIte]
    by_cases few : times + 1 < tik.refcount
    · rw [if_pos (.inl few), if_pos (.inl (by omega)), Nat.sub_sub, Nat.add_comm 1]
    · rw [if_neg (by omega), if_neg (by omega)]

def Counted (ids : List Nat) (tickets : Nat → Option (MemoryTicket Proc)) : Prop :=
  ∀ id ∈ ids, ∀ tik, tickets id = some tik → 0 < tik.refcount

variable {id : Nat} {sys : System Proc} {tik : MemoryTicket Proc} {proc : Proc} {ticket : MemTicket}

omit [DecidableEq Proc] in
theorem Counted.next {rest} {tickets : Nat → Option (MemoryTicket Proc)} {left}
    (counted : Counted (id :: rest) tickets)
    (positive : ∀ tik, left = some tik → 0 < tik.refcount) :
      Counted rest (update tickets id left) := by
  intro other member tik found
  by_cases same : other = id
  · subst same
    rw [update_self] at found
    exact positive tik found
  · rw [update_of_ne same] at found
    exact counted other (mem_cons_of_mem _ member) tik found

omit [DecidableEq Proc] in
theorem cleanupTickets_some (id : Nat) (rest : List Nat)
    (tickets : Nat → Option (MemoryTicket Proc)) (tik : MemoryTicket Proc)
      (found : tickets id = some tik) :
    cleanupTickets (id :: rest) tickets =
      let later := cleanupTickets rest (update tickets id (if tik.deref.2 then none else some tik.deref.1))
      (later.1, if tik.deref.2 then id :: later.2 else later.2) := by
  by_cases gone : tik.deref.2 = true
  · simp [cleanupTickets, found, gone]
  · simp [cleanupTickets, found, gone]

omit [DecidableEq Proc] in
theorem cleanupTickets_spec (ids : List Nat) (tickets : Nat → Option (MemoryTicket Proc))
    (counted : Counted ids tickets) (id : Nat) : (cleanupTickets ids tickets).1 id = remaining
      (tickets id)
    (ids.count id) ∧ (id ∈ (cleanupTickets ids tickets).2 ↔ tickets id ≠ none ∧
    remaining (tickets id) (ids.count id) = none) := by
  induction ids generalizing tickets with
  | nil => simp [cleanupTickets]
  | cons first rest ih =>
    cases found : tickets first with
    | none =>
      have tail := ih tickets fun other member => counted other (mem_cons_of_mem _ member)
      have unfolded : cleanupTickets (first :: rest) tickets = cleanupTickets rest tickets := by
        simp [cleanupTickets, found]
      rw [unfolded]
      by_cases same : first = id
      · rw [← same, found] at tail ⊢
        simpa [remaining] using tail
      · rw [count_cons_of_ne same]
        exact tail
    | some tik =>
      have positive := counted first (by simp) tik found
      have tail := ih (update tickets first (if tik.deref.2 then none else some tik.deref.1))
          (counted.next (by
          intro _ equal
          rw [deref_positive tik positive] at equal
          by_cases last : tik.refcount = 1
          · simp [last] at equal
          · have stays : (tik.refcount - 1 == 0) = false := by
              rw [beq_eq_false_iff_ne]
              omega
            simp only [stays, Bool.false_eq_true, ↓reduceIte, Option.some.injEq] at equal
            rw [← equal]
            show 0 < tik.refcount - 1
            omega))
      rw [cleanupTickets_some first rest tickets tik found]
      dsimp only
      by_cases same : first = id
      · subst same
        rw [update_self] at tail
        rw [found, count_cons_self, remaining_succ tik positive]
        refine ⟨tail.1, ?_⟩
        by_cases gone : tik.deref.2 = true
        · simp [gone, remaining]
        · simpa [gone] using tail.2
      · rw [update_of_ne (Ne.symm same)] at tail
        rw [count_cons_of_ne same]
        refine ⟨tail.1, ?_⟩
        by_cases gone : tik.deref.2 = true
        · simpa [gone, Ne.symm same] using tail.2
        · simpa [gone] using tail.2

structure Accurate (sys : System Proc) (id : Nat) (tik : MemoryTicket Proc) : Prop where
  keyed : tik.id = id
  positive : 0 < id
  bounded : id ≤ sys.st.ticketIdCounter
  mirrored : ∀ proc ∈ sys.alive, (tik.collectors proc).map SharedVMRegion.addr =
    heldAt sys.held proc id
  counted : tik.refcount = holders sys.held id

/-- The kernel's records agree with what the processes hold. A process's list
names a ticket at least as often as it holds it, and not at all once it holds
it no more. -/
structure Books (sys : System Proc) : Prop where
  accurate : ∀ id tik, sys.st.tickets id = some tik → Accurate sys id tik
  heldAlive : ∀ collection ∈ sys.held, collection.proc ∈ sys.alive
  heldKnown : ∀ collection ∈ sys.held, sys.st.tickets collection.ticket ≠ none
  listed : ∀ proc ∈ sys.alive, ∀ id, (heldAt sys.held proc id).length ≤
    (sys.st.procs proc).collectedTickets.count id ∧
    (heldAt sys.held proc id = [] → id ∉ (sys.st.procs proc).collectedTickets)

def RefcountsRight (sys : System Proc) : Prop :=
  ∀ id tik, sys.st.tickets id = some tik → tik.refcount = holders sys.held id

def DestroyedUnheld (sys : System Proc) : Prop :=
  ∀ id ∈ sys.destroyed, ∀ collection ∈ sys.held, collection.ticket ≠ id

/-- A dying process lists every ticket that some other process holds exactly as
often as it holds it itself. -/
def Balanced (move : Move (System Proc) (Op Proc)) : Prop :=
  ∀ proc, move.label = .die proc → ∀ collection ∈ move.before.held, collection.proc ≠ proc →
    (move.before.st.procs proc).collectedTickets.count collection.ticket =
      (heldAt move.before.held proc collection.ticket).length

/-- No ticket has collectors at the address of a new process. -/
def Unused (move : Move (System Proc) (Op Proc)) : Prop :=
  ∀ proc, move.label = .spawn proc → ∀ id tik, move.before.st.tickets id = some tik →
    tik.collectors proc = []

variable {held : List (Collection Proc)}

omit [DecidableEq Proc] in
theorem holders_pos : 0 < holders held id ↔ ∃ collection ∈ held, collection.ticket = id := by
  simp [holders]

theorem Books.holders_of_unknown (books : Books sys) (id : Nat)
    (unknown : sys.st.tickets id = none) : holders sys.held id = 0 := by
  by_contra some
  obtain ⟨collection, member, same⟩ := holders_pos.mp (Nat.pos_of_ne_zero some)
  exact books.heldKnown collection member (same ▸ unknown)

theorem heldAt_length_le (held : List (Collection Proc)) (proc : Proc) (id : Nat) :
    (heldAt held proc id).length ≤ holders held id := by
  rw [holders_split held proc id]
  omega

theorem Accurate.carry {after} (before : Accurate sys id tik)
    (alive : after.alive = sys.alive) (counter : sys.st.ticketIdCounter ≤ after.st.ticketIdCounter)
    (mirrors : ∀ proc, heldAt after.held proc id = heldAt sys.held proc id)
    (counts : holders after.held id = holders sys.held id) : Accurate after id tik := by
  constructor
  · exact before.keyed
  · exact before.positive
  · exact before.bounded.trans counter
  · intro proc member
    rw [mirrors]
    exact before.mirrored proc (alive ▸ member)
  · rw [counts]
    exact before.counted

theorem Books.relabel (books : Books sys) (destroyed : List Nat) :
    Books { sys with destroyed := destroyed } := by
  constructor
  · intro id tik found
    exact (books.accurate id tik found).carry rfl le_rfl (fun _ => rfl) rfl
  · exact books.heldAlive
  · exact books.heldKnown
  · exact books.listed

theorem create_books (books : Books sys) (len flags : Word) :
    Books { sys with st := (createMemticket sys.st len flags).2, destroyed := [] } := by
  by_cases empty : len = 0
  · simp only [createMemticket, empty, ↓reduceIte]
    exact books.relabel []
  simp only [createMemticket, empty, ↓reduceIte]
  have fresh : sys.st.tickets (sys.st.ticketIdCounter + 1) = none := by
    cases found : sys.st.tickets (sys.st.ticketIdCounter + 1) with
    | none => rfl
    | some tik =>
      have bounded := (books.accurate _ tik found).bounded
      omega
  have unheld := books.holders_of_unknown _ fresh
  constructor
  · intro id tik found
    dsimp only at found
    by_cases same : id = sys.st.ticketIdCounter + 1
    · subst same
      rw [update_self] at found
      cases found
      constructor
      · rfl
      · omega
      · exact le_refl _
      · intro proc _
        have none := heldAt_length_le sys.held proc (sys.st.ticketIdCounter + 1)
        rw [unheld] at none
        exact (length_eq_zero_iff.mp (Nat.le_zero.mp none)).symm
      · exact unheld.symm
    · rw [update_of_ne same] at found
      exact (books.accurate id tik found).carry rfl (Nat.le_succ _) (fun _ => rfl) rfl
  · exact books.heldAlive
  · intro collection member
    by_cases same : collection.ticket = sys.st.ticketIdCounter + 1
    · simp [same]
    · simpa [update_of_ne same] using books.heldKnown collection member
  · exact books.listed

variable {st : Tickets Proc}

theorem collect_books (books : Books sys) (alive : proc ∈ sys.alive)
    (done : collectMemticket sys.st proc ticketId virt = .ok (ticket, st)) : Books { sys with
      st := st
      held := if ticket.ticketId = 0 then sys.held
        else ⟨proc, ticket.ptr, ticket.ticketId⟩ :: sys.held
      destroyed := [] } := by
  unfold collectMemticket at done
  cases found : sys.st.tickets ticketId with
  | none =>
    simp only [found, Except.ok.injEq, Prod.mk.injEq] at done
    rcases done with ⟨rfl, rfl⟩
    exact books.relabel []
  | some tik =>
    have ⟨keyed, positive, bounded, mirrored, counted⟩ := books.accurate ticketId tik found
    simp only [found] at done
    split at done
    · cases done
    simp only [Except.ok.injEq, Prod.mk.injEq] at done
    rcases done with ⟨rfl, rfl⟩
    have nonzero : ticketId ≠ 0 := by omega
    simp only [MemoryTicket.ref, keyed, nonzero, ↓reduceIte]
    constructor
    · intro id other entry
      dsimp only at entry
      by_cases same : id = ticketId
      · subst same
        rw [update_self] at entry
        cases entry
        constructor
        · rfl
        · exact positive
        · exact bounded
        · intro holder holderAlive
          rw [heldAt_cons]
          by_cases mine : holder = proc
          · subst mine
            simp [mirrored holder holderAlive]
          · simp [mine, Ne.symm mine, mirrored holder holderAlive]
        · simp [holders_cons, counted]
      · rw [update_of_ne same] at entry
        refine (books.accurate id other entry).carry rfl le_rfl ?_ ?_
        · simp [heldAt_cons, Ne.symm same]
        · simp [holders_cons, Ne.symm same]
    · intro collection member
      rcases mem_cons.mp member with same | older
      · rw [same]
        exact alive
      · exact books.heldAlive collection older
    · intro collection member
      rcases mem_cons.mp member with new | older
      · simp [new]
      · by_cases same : collection.ticket = ticketId
        · simp [same]
        · simpa [update_of_ne same] using books.heldKnown collection older
    · intro holder holderAlive id
      have before := books.listed holder holderAlive id
      rw [heldAt_cons]
      by_cases mine : holder = proc
      · subst mine
        by_cases same : id = ticketId
        · subst same
          simpa using before.1
        · simpa [Ne.symm same, same] using before
      · simpa [mine, Ne.symm mine] using before

theorem Books.not_held_of_unfound (books : Books sys) (alive : proc ∈ sys.alive)
    (found : sys.st.tickets ticket.ticketId = some tik)
    (unfound : (tik.collectors proc).find? (fun svmr => svmr.addr == ticket.ptr) = none) :
    (⟨proc, ticket.ptr, ticket.ticketId⟩ : Collection Proc) ∉ sys.held := by
  rw [← mem_heldAt, ← (books.accurate _ tik found).mirrored proc alive]
  rw [find?_eq_none] at unfound
  intro member
  obtain ⟨svmr, collected, same⟩ := mem_map.mp member
  exact unfound svmr collected (by simpa using same)

theorem holders_erase {collection : Collection Proc} (member : collection ∈ held) (id : Nat) :
    holders held id = if collection.ticket = id then holders (held.erase collection) id + 1
      else holders (held.erase collection) id := by
  rw [← holders_cons]
  exact (perm_cons_erase member).countP_eq _

omit [DecidableEq Proc] in
theorem addrs_eraseP (regions : List SharedVMRegion) (ptr : Word) :
    (regions.eraseP fun svmr => svmr.addr == ptr).map SharedVMRegion.addr =
      (regions.map SharedVMRegion.addr).erase ptr := by
  rw [erase_eq_eraseP, eraseP_map]
  congr 2
  funext other
  simp [Bool.beq_comm]

/-- The ticket after a release that leaves others with it. -/
theorem Accurate.released {after : System Proc} {left : List SharedVMRegion}
    (accurate : Accurate sys id tik)
    (sameAlive : after.alive = sys.alive) (sameCounter : after.st.ticketIdCounter =
      sys.st.ticketIdCounter)
    (mine : left.map SharedVMRegion.addr = heldAt after.held proc id)
    (others : ∀ holder ≠ proc, heldAt after.held holder id = heldAt sys.held holder id)
    (here : tik.refcount = holders after.held id + 1) :
    Accurate after id { tik with collectors := update tik.collectors proc left, refcount :=
      tik.refcount - 1 } := by
  refine ⟨accurate.keyed, accurate.positive, sameCounter ▸ accurate.bounded, ?_, ?_⟩
  · intro holder holderAlive
    rw [sameAlive] at holderAlive
    by_cases owner : holder = proc
    · subst owner
      simpa using mine
    · rw [others holder owner, ← accurate.mirrored holder holderAlive]
      simp [owner]
  · dsimp only
    omega

section

variable (books : Books sys)
include books

/-- What a release leaves of the releasing process's list still covers what it
holds: the ticket is struck off only with its last region. -/
theorem release_listed {left : List SharedVMRegion} (alive : proc ∈ sys.alive)
    (heldNow : held = sys.held.erase ⟨proc, ticket.ptr, ticket.ticketId⟩)
    (mine : left.map SharedVMRegion.addr = heldAt held proc ticket.ticketId) (id : Nat) :
    let list := if left.isEmpty then
        (sys.st.procs proc).collectedTickets.filter (fun id => id != ticket.ticketId)
      else (sys.st.procs proc).collectedTickets
    (heldAt held proc id).length ≤ list.count id ∧ (heldAt held proc id = [] → id ∉ list) := by
  have before := books.listed proc alive id
  by_cases same : id = ticket.ticketId
  · subst same
    have fewer : (heldAt held proc ticket.ticketId).length ≤
        (heldAt sys.held proc ticket.ticketId).length := by
      rw [heldNow, heldAt_erase, if_pos ⟨rfl, rfl⟩]
      exact length_erase_le
    cases left with
    | nil =>
      rw [← mine]
      simp
    | cons =>
      refine ⟨fewer.trans before.1, ?_⟩
      rw [← mine]
      simp
  · have others : heldAt held proc id = heldAt sys.held proc id := by
      rw [heldNow, heldAt_erase, if_neg (fun both => same both.2.symm)]
    rw [others]
    dsimp only
    split
    · rw [count_filter (by simpa using same)]
      exact ⟨before.1, fun none listed => before.2 none (mem_of_mem_filter listed)⟩
    · exact before

section

variable (alive : proc ∈ sys.alive)
include alive

/-- A release that finds the address: the process's entry, the count and the
list all move with what it holds. -/
theorem release_found_books (found : sys.st.tickets ticket.ticketId = some tik)
    (search : (tik.collectors proc).find? (fun svmr => svmr.addr == ticket.ptr) = some svmr)
    (held : List (Collection Proc)) (heldNow :
      held = sys.held.erase ⟨proc, ticket.ptr, ticket.ticketId⟩) :
    Books { sys with
      st := (releaseMemticket sys.st proc ticket).1
      held := held
      destroyed := (releaseMemticket sys.st proc ticket).2 } ∧
    ∀ id ∈ (releaseMemticket sys.st proc ticket).2, holders held id = 0 := by
  have accurate := books.accurate _ tik found
  have member : (⟨proc, ticket.ptr, ticket.ticketId⟩ : Collection Proc) ∈ sys.held := by
    rw [← mem_heldAt, ← accurate.mirrored proc alive]
    have hit := find?_some search
    exact mem_map.mpr ⟨svmr, mem_of_find?_eq_some search, by simpa using hit⟩
  have fewer : ∀ id, holders sys.held id =
      if ticket.ticketId = id then holders held id + 1 else holders held id := by
    intro id
    rw [heldNow]
    exact holders_erase member id
  have here : tik.refcount = holders held ticket.ticketId + 1 := by
    rw [accurate.counted, fewer, if_pos rfl]
  have others : ∀ holder id, ¬ (proc = holder ∧ ticket.ticketId = id) →
      heldAt held holder id = heldAt sys.held holder id := by
    intro holder id differs
    rw [heldNow, heldAt_erase, if_neg differs]
  have mine : ((tik.collectors proc).eraseP fun svmr => svmr.addr == ticket.ptr).map
      SharedVMRegion.addr = heldAt held proc ticket.ticketId := by
    rw [heldNow, heldAt_erase, if_pos ⟨rfl, rfl⟩, ← accurate.mirrored proc alive, addrs_eraseP]
  have gone : (tik.refcount - 1 == 0) = decide (tik.refcount = 1) := by
    rw [Bool.eq_iff_iff, beq_iff_eq, decide_eq_true_iff]
    omega
  simp only [releaseMemticket, found, search]
  rw [deref_positive { tik with collectors := update tik.collectors proc _ }
    (show 0 < tik.refcount by omega)]
  simp only [gone, decide_eq_true_eq]
  constructor
  · constructor
    · intro id other entry
      dsimp only at entry
      by_cases same : id = ticket.ticketId
      · subst same
        rw [update_self] at entry
        by_cases last : tik.refcount = 1
        · rw [if_pos last] at entry
          cases entry
        rw [if_neg last] at entry
        cases entry
        exact accurate.released rfl rfl mine (fun holder other => others holder _ fun both =>
          other both.1.symm) here
      · rw [update_of_ne same] at entry
        refine (books.accurate id other entry).carry rfl le_rfl ?_ ?_
        · exact fun holder => others holder _ (fun both => same both.2.symm)
        · rw [fewer, if_neg (Ne.symm same)]
    · intro collection still
      rw [heldNow] at still
      exact books.heldAlive collection (mem_of_mem_erase still)
    · intro collection still
      dsimp only at still ⊢
      by_cases same : collection.ticket = ticket.ticketId
      · have more : 0 < holders held ticket.ticketId := holders_pos.mpr ⟨collection, still, same⟩
        have notLast : tik.refcount ≠ 1 := by omega
        simp [same, notLast]
      · rw [update_of_ne same]
        rw [heldNow] at still
        exact books.heldKnown collection (mem_of_mem_erase still)
    · intro holder holderAlive id
      dsimp only
      by_cases owner : holder = proc
      · subst owner
        rw [update_self, accurate.keyed]
        exact release_listed books alive heldNow mine id
      · rw [others holder id (fun both => owner both.1.symm), update_of_ne owner]
        exact books.listed holder holderAlive id
  · intro _ destroyed
    by_cases last : tik.refcount = 1
    · rw [if_pos last, mem_singleton] at destroyed
      subst destroyed
      omega
    · rw [if_neg last] at destroyed
      cases destroyed

theorem release_books : Books { sys with
      st := (releaseMemticket sys.st proc ticket).1
      held := sys.held.erase ⟨proc, ticket.ptr, ticket.ticketId⟩
      destroyed := (releaseMemticket sys.st proc ticket).2 } ∧
    ∀ id ∈ (releaseMemticket sys.st proc ticket).2,
      holders (sys.held.erase ⟨proc, ticket.ptr, ticket.ticketId⟩) id = 0 := by
  cases found : sys.st.tickets ticket.ticketId with
  | none =>
    have absent : (⟨proc, ticket.ptr, ticket.ticketId⟩ : Collection Proc) ∉ sys.held := by
      intro member
      exact books.heldKnown _ member found
    simp only [releaseMemticket, found, erase_of_not_mem absent]
    exact ⟨books.relabel [], by simp⟩
  | some tik =>
    cases search : (tik.collectors proc).find? (fun svmr => svmr.addr == ticket.ptr) with
    | none =>
      have absent := books.not_held_of_unfound alive found search
      simp only [releaseMemticket, found, search, erase_of_not_mem absent]
      exact ⟨books.relabel [], by simp⟩
    | some => exact release_found_books books alive found search _ rfl

/-- The state of a ticket after a process died: the list is read, not what the
process really held. -/
theorem die_tickets (id : Nat) : (cleanupProcessTickets sys.st proc).1.tickets id = remaining
    (sys.st.tickets id)
    ((sys.st.procs proc).collectedTickets.count id) ∧ (id ∈ (cleanupProcessTickets sys.st proc).2 ↔
    sys.st.tickets id ≠ none ∧
    remaining (sys.st.tickets id) ((sys.st.procs proc).collectedTickets.count id) = none) := by
  refine cleanupTickets_spec _ _ ?_ id
  intro other listed tik found
  rw [(books.accurate other tik found).counted]
  have some : heldAt sys.held proc other ≠ [] := fun none =>
    (books.listed proc alive other).2 none listed
  have positive := length_pos_iff.mpr some
  have := heldAt_length_le sys.held proc other
  omega

/-- The list names a ticket at least as often as the process holds it, so a
death never leaves a count too high. -/
theorem die_count (found : sys.st.tickets id = some tik) :
    tik.refcount = (heldAt sys.held proc id).length + holders (sys.held.filter fun collection =>
    collection.proc != proc) id ∧ (heldAt sys.held proc id).length ≤
      (sys.st.procs proc).collectedTickets.count id ∧
    ((heldAt sys.held proc id).length = 0 → (sys.st.procs proc).collectedTickets.count id = 0) := by
  have ⟨enough, unlisted⟩ := books.listed proc alive id
  refine ⟨?_, enough, ?_⟩
  · rw [(books.accurate id tik found).counted, holders_split sys.held proc id]
  · intro empty
    exact count_eq_zero.mpr (unlisted (length_eq_zero_iff.mp empty))

theorem die_ticket_balanced (found : sys.st.tickets id = some tik)
    (rest : others = holders (sys.held.filter fun collection => collection.proc != proc) id)
      (agrees : 0 < others →
    (sys.st.procs proc).collectedTickets.count id = (heldAt sys.held proc id).length) :
    (cleanupProcessTickets sys.st proc).1.tickets id = some { tik with refcount := others } ∨
    (cleanupProcessTickets sys.st proc).1.tickets id = none ∧ others = 0 := by
  have ⟨counted, enough, unlisted⟩ := die_count books alive found
  rw [(die_tickets books alive id).1, found, remaining]
  by_cases few : (sys.st.procs proc).collectedTickets.count id < tik.refcount ∨
      (sys.st.procs proc).collectedTickets.count id = 0
  · rw [if_pos few]
    have left : tik.refcount - (sys.st.procs proc).collectedTickets.count id = others := by
      omega
    exact .inl (by rw [left])
  · rw [if_neg few]
    exact .inr ⟨rfl, by omega⟩

theorem die_ticket_unbalanced (found : sys.st.tickets id = some tik)
    (rest : others = holders (sys.held.filter fun collection => collection.proc != proc) id)
    (differs : (sys.st.procs proc).collectedTickets.count id ≠ (heldAt sys.held proc id).length) :
    ∀ left, (cleanupProcessTickets sys.st proc).1.tickets id = some left → left.refcount ≠
      others := by
  have ⟨counted, enough, unlisted⟩ := die_count books alive found
  rw [(die_tickets books alive id).1, found, remaining]
  intro _ remains
  split at remains
  · cases remains
    dsimp only
    omega
  · cases remains

theorem die_books (balanced : ∀ id, 0 < holders (sys.held.filter fun collection =>
    collection.proc != proc) id →
      (sys.st.procs proc).collectedTickets.count id = (heldAt sys.held proc id).length) : Books
      { st := (cleanupProcessTickets sys.st proc).1
        alive := sys.alive.erase proc
        held := sys.held.filter fun collection => collection.proc != proc
        destroyed := (cleanupProcessTickets sys.st proc).2 } ∧
    ∀ id ∈ (cleanupProcessTickets sys.st proc).2,
      holders (sys.held.filter fun collection => collection.proc != proc) id = 0 := by
  have fates : ∀ id tik, sys.st.tickets id = some tik →
      (cleanupProcessTickets sys.st proc).1.tickets id = some { tik with
        refcount := holders (sys.held.filter fun collection => collection.proc != proc) id } ∨
      (cleanupProcessTickets sys.st proc).1.tickets id = none ∧
        holders (sys.held.filter fun collection => collection.proc != proc) id = 0 := by
    intro id tik found
    exact die_ticket_balanced books alive found rfl (balanced id)
  constructor
  · constructor
    · intro id tik entry
      dsimp only at entry
      cases found : sys.st.tickets id with
      | none =>
        rw [(die_tickets books alive id).1, found] at entry
        cases entry
      | some before =>
        have accurate := books.accurate id before found
        rcases fates id before found with kept | ⟨gone, _⟩
        · rw [kept] at entry
          cases entry
          constructor
          · exact accurate.keyed
          · exact accurate.positive
          · exact accurate.bounded
          · intro holder holderAlive
            have ⟨other, was⟩ := Finset.mem_erase.mp holderAlive
            rw [heldAt_filter _ _ _ _ other]
            exact accurate.mirrored holder was
          · rfl
        · rw [gone] at entry
          cases entry
    · intro collection member
      have ⟨was, other⟩ := mem_filter.mp member
      exact Finset.mem_erase.mpr ⟨by simpa using other, books.heldAlive collection was⟩
    · intro collection member
      dsimp only at member ⊢
      have was := (mem_filter.mp member).1
      have more := holders_pos.mpr ⟨collection, member, rfl⟩
      obtain ⟨tik, found⟩ := Option.ne_none_iff_exists'.mp (books.heldKnown collection was)
      rcases fates _ tik found with kept | ⟨_, unheld⟩
      · simp [kept]
      · omega
    · intro holder holderAlive id
      have ⟨other, was⟩ := Finset.mem_erase.mp holderAlive
      rw [heldAt_filter _ _ _ _ other]
      exact books.listed holder was id
  · intro id destroyed
    obtain ⟨known, gone⟩ := (die_tickets books alive id).2.mp destroyed
    obtain ⟨tik, found⟩ := Option.ne_none_iff_exists'.mp known
    rcases fates id tik found with kept | ⟨_, unheld⟩
    · rw [(die_tickets books alive id).1, gone] at kept
      cases kept
    · exact unheld

end

end

theorem spawn_books (books : Books sys) (absent : proc ∉ sys.alive)
    (unused : ∀ id tik, sys.st.tickets id = some tik → tik.collectors proc = []) : Books { sys with
      st := { sys.st with procs := update sys.st.procs proc ⟨[], []⟩ }
      alive := insert proc sys.alive
      destroyed := [] } := by
  have nothing (id : Nat) : heldAt sys.held proc id = [] := by
    rw [eq_nil_iff_forall_not_mem]
    intro addr member
    exact absent (books.heldAlive _ ((mem_heldAt sys.held proc id addr).mp member))
  constructor
  · intro id tik found
    have ⟨keyed, positive, bounded, mirrored, counted⟩ := books.accurate id tik found
    refine ⟨keyed, positive, bounded, ?_, counted⟩
    intro holder member
    rcases Finset.mem_insert.mp member with rfl | old
    · rw [unused id tik found, nothing id, map_nil]
    · exact mirrored holder old
  · intro collection member
    exact Finset.mem_insert_of_mem (books.heldAlive collection member)
  · exact books.heldKnown
  · intro holder member id
    rcases Finset.mem_insert.mp member with rfl | old
    · simp [nothing id]
    · have other : holder ≠ proc := by
        rintro rfl
        exact absent old
      simpa [other] using books.listed holder old id

omit [DecidableEq Proc] in
theorem destroyedUnheld_iff (sys : System Proc) :
    DestroyedUnheld sys ↔ ∀ id ∈ sys.destroyed, holders sys.held id = 0 := by
  simp [DestroyedUnheld, holders]

theorem step_books (move : Move (System Proc) (Op Proc)) (books : Books move.before)
    (step : Step move.before move.label move.after ∧ Unused move) (balanced : Balanced move) :
    Books move.after ∧ RefcountsRight move.after ∧ DestroyedUnheld move.after := by
  have kept : Books move.after ∧ DestroyedUnheld move.after := by
    rw [destroyedUnheld_iff]
    obtain ⟨_, _, _⟩ := move
    obtain ⟨step, unused⟩ := step
    dsimp only at books step ⊢
    cases step with
    | create len flags => exact ⟨create_books books len flags, by simp⟩
    | collect proc _ _ ticket _ alive done =>
      exact ⟨collect_books books alive done, by simp⟩
    | release proc ticket alive => exact release_books books alive
    | die proc alive =>
      apply die_books books alive
      intro id held
      obtain ⟨collection, member, rfl⟩ := holders_pos.mp held
      have ⟨was, other⟩ := mem_filter.mp member
      exact balanced proc rfl collection was (by simpa using other)
    | spawn proc absent => exact ⟨spawn_books books absent (unused proc rfl), by simp⟩
  exact ⟨kept.1, fun id tik found => (kept.1.accurate id tik found).counted, kept.2⟩

/-- A death with too long a list shows: a count is wrong afterwards, or a
ticket was destroyed that somebody holds. -/
theorem step_balanced (move : Move (System Proc) (Op Proc)) (books : Books move.before)
    (step : Step move.before move.label move.after ∧ Unused move)
    (right : RefcountsRight move.after ∧ DestroyedUnheld move.after) : Balanced move := by
  obtain ⟨before, _, _⟩ := move
  obtain ⟨step, _⟩ := step
  dsimp only at books step
  rintro proc rfl collection member other
  cases step with
  | die _ alive =>
    obtain ⟨_, found⟩ := Option.ne_none_iff_exists'.mp (books.heldKnown collection member)
    have others : 0 < holders (before.held.filter fun collection => collection.proc != proc)
        collection.ticket :=
      holders_pos.mpr ⟨collection, mem_filter.mpr ⟨member, by simpa using other⟩, rfl⟩
    have ⟨table, destroyed⟩ := die_tickets books alive collection.ticket
    by_contra differs
    cases entry : (cleanupProcessTickets before.st proc).1.tickets collection.ticket with
    | none =>
      have gone := destroyed.mpr ⟨by simp [found], table.symm.trans entry⟩
      have unheld := (destroyedUnheld_iff _).mp right.2 collection.ticket gone
      dsimp only at unheld
      omega
    | some left =>
      exact die_ticket_unbalanced books alive found rfl differs left entry
        (right.1 collection.ticket left entry)

/-- The state before any ticket exists; a process that has not started yet is
one that holds nothing. -/
def boot (alive : Finset Proc) : System Proc :=
  { st := ⟨0, fun _ => none, fun _ => ⟨[], []⟩⟩
    alive := alive
    held := []
    destroyed := [] }

theorem boot_books (alive : Finset Proc) : Books (boot alive) := by
  constructor <;> simp [boot, heldAt]

/-- Along a run every refcount is the number of collections held by processes
still alive, and no step destroys a ticket that is held after it, if and only
if every process that dies lists the tickets others hold exactly as often as it
holds them. A new process is not where a collector of a ticket was. -/
theorem refcounts_right_iff (alive : Finset Proc) {last : System Proc}
    {moves : List (Move (System Proc) (Op Proc))} (run : Run Step (boot alive) moves last)
    (unused : ∀ move ∈ moves, Unused move) :
    ((∀ sys ∈ visited (boot alive) moves, RefcountsRight sys) ∧
      ∀ move ∈ moves, DestroyedUnheld move.after) ↔ ∀ move ∈ moves, Balanced move := by
  rw [← run_exact Books Balanced (fun move => RefcountsRight move.after ∧
    DestroyedUnheld move.after)
    step_books step_balanced (run_and Unused run unused) (boot_books alive)]
  have initially : RefcountsRight (boot alive) := by
    intro _ _ found
    cases found
  simp only [visited, forall_mem_cons, initially, true_and, forall_mem_map]
  exact ⟨fun both move member => ⟨both.1 move member, both.2 move member⟩,
    fun all => ⟨fun move member => (all move member).1, fun move member => (all move member).2⟩⟩

/-- One process collects a ticket, another that was started later collects it too and dies. -/
theorem refcounts_right_one_death :
    ∃ moves last, Run Step (boot ({false} : Finset Bool)) moves last ∧
    (∃ move ∈ moves, move.label = .die true ∧ move.after.held = [⟨false, 0x1000, 1⟩]) ∧
    (∀ sys ∈ visited (boot {false}) moves, RefcountsRight sys) ∧ ∀ move ∈ moves,
      DestroyedUnheld move.after := by
  have run := Run.next (Step.spawn (boot ({false} : Finset Bool)) true (by decide))
    (Run.next (Step.create _ 4096 0)
      (Run.next (Step.collect _ false 1 0x1000 ⟨0x1000, 4096, 1⟩ _ (by decide) rfl)
        (Run.next (Step.collect _ true 1 0x2000 ⟨0x2000, 4096, 1⟩ _ (by decide) rfl)
          (Run.next (Step.die _ true (by decide)) (Run.refl _)))))
  refine ⟨_, _, run, ?_, (refcounts_right_iff _ run ?_).mpr ?_⟩
  · simp only [mem_cons, exists_eq_or_imp]
    exact .inr (.inr (.inr (.inr (.inl ⟨trivial, by decide⟩))))
  · simp only [forall_mem_cons, not_mem_nil, false_implies, implies_true, and_true]
    refine ⟨?_, ?_, ?_, ?_, ?_⟩
    · rintro _ ⟨⟩ id tik ⟨⟩
    · rintro proc ⟨⟩
    · rintro proc ⟨⟩
    · rintro proc ⟨⟩
    · rintro proc ⟨⟩
  · simp only [forall_mem_cons, not_mem_nil, false_implies, implies_true, and_true]
    refine ⟨?_, ?_, ?_, ?_, ?_⟩
    · rintro proc ⟨⟩
    · rintro proc ⟨⟩
    · rintro proc ⟨⟩
    · rintro proc ⟨⟩
    · rintro _ ⟨⟩
      decide

/-- A process collects a ticket twice, releases one of the two and dies. Its
list still names the ticket twice, and the ticket is destroyed although the
other process holds it. -/
theorem release_then_death_destroys_held : ¬ ∀ (alive : Finset Bool) (last : System Bool)
    (moves : List (Move (System Bool) (Op Bool))), Run Step (boot alive) moves last →
    (∀ sys ∈ visited (boot alive) moves, RefcountsRight sys) ∧ ∀ move ∈ moves,
      DestroyedUnheld move.after := by
  intro claimed
  have run := Run.next (Step.create (boot ({false, true} : Finset Bool)) 4096 0)
    (Run.next (Step.collect _ true 1 0x1000 ⟨0x1000, 4096, 1⟩ _ (by decide) rfl)
      (Run.next (Step.collect _ true 1 0x2000 ⟨0x2000, 4096, 1⟩ _ (by decide) rfl)
        (Run.next (Step.collect _ false 1 0x1000 ⟨0x1000, 4096, 1⟩ _ (by decide) rfl)
          (Run.next (Step.release _ true ⟨0x2000, 4096, 1⟩ (by decide))
            (Run.next (Step.die _ true (by decide)) (Run.refl _))))))
  have unheld := (claimed _ _ _ run).2
  simp only [forall_mem_cons] at unheld
  obtain ⟨-, -, -, -, -, died, -⟩ := unheld
  exact died 1 (by decide) ⟨false, 0x1000, 1⟩ (by decide) rfl

end Nx.Memticket
