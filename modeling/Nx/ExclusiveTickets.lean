import Nx.Memticket

/-!
Exclusive memory tickets, kernel/source/ipc/memticket.cpp.
-/

namespace Nx.ExclusiveTickets

open Words Transitions Memticket Function List

variable {Proc : Type}

def memticketFlagExclusive : Word := 0x04

def Exclusive (sys : System Proc) (id : Nat) : Prop :=
  ∃ tik, sys.st.tickets id = some tik ∧ tik.flags &&& memticketFlagExclusive ≠ 0

def OneHolder (sys : System Proc) : Prop :=
  ∀ id, Exclusive sys id → ∀ a ∈ sys.held, ∀ b ∈ sys.held, a.ticket = id → b.ticket = id →
    a.proc = b.proc

def Fair (before : System Proc) (op : Op Proc) : Prop :=
  ∀ proc id virt, op = .collect proc id virt → Exclusive before id →
    ∀ collection ∈ before.held, collection.ticket = id → collection.proc = proc

def Living [DecidableEq Proc] (before : System Proc) (op : Op Proc) (after : System Proc) : Prop :=
  Step before op after ∧ ∀ proc, op ≠ .die proc

structure Inv (sys : System Proc) : Prop where
  ids : ∀ id tik, sys.st.tickets id = some tik → tik.id = id ∧ 0 < id ∧ id ≤ sys.st.ticketIdCounter
  held : ∀ collection ∈ sys.held, collection.ticket ≤ sys.st.ticketIdCounter
  one : OneHolder sys

/-- Tickets and collections are those of before. -/
theorem Inv.fewer (inv : Inv sys) {after : System Proc} (tickets : ∀ id tik, after.st.tickets id =
    some tik →
    ∃ old, sys.st.tickets id = some old ∧ old.id = tik.id ∧ old.flags = tik.flags)
    (counter : after.st.ticketIdCounter = sys.st.ticketIdCounter) (held : after.held ⊆ sys.held) :
      Inv after := by
  refine ⟨fun id tik found => ?_, fun collection listed =>
    ?_, fun id ⟨tik, found, flag⟩ a inA b inB => ?_⟩
  · obtain ⟨old, known, same, _⟩ := tickets id tik found
    rw [counter, ← same]
    exact inv.ids id old known
  · rw [counter]
    exact inv.held collection (held listed)
  · obtain ⟨old, known, _, same⟩ := tickets id tik found
    exact inv.one id ⟨old, known, same ▸ flag⟩ a (held inA) b (held inB)

variable [DecidableEq Proc]

theorem release_fewer (st : Tickets Proc) (proc : Proc) (ticket : MemTicket) (id : Nat)
    (tik : MemoryTicket Proc)
    (found : (releaseMemticket st proc ticket).1.tickets id = some tik) :
    ∃ old, st.tickets id = some old ∧ old.id = tik.id ∧ old.flags = tik.flags := by
  rw [releaseMemticket] at found
  split at found
  · exact ⟨tik, found, rfl, rfl⟩
  next old known =>
    split at found
    · exact ⟨tik, found, rfl, rfl⟩
    · simp only [update_apply] at found
      split at found
      next same =>
        subst same
        split at found
        · cases found
        · cases found
          exact ⟨old, known, rfl, rfl⟩
      next => exact ⟨tik, found, rfl, rfl⟩

theorem release_counter (st : Tickets Proc) (proc : Proc) (ticket : MemTicket) :
    (releaseMemticket st proc ticket).1.ticketIdCounter = st.ticketIdCounter := by
  rw [releaseMemticket]
  split
  · rfl
  · split <;> rfl

omit [DecidableEq Proc] in
theorem create_inv (inv : Inv sys) (len flags : Word) (destroyed : List Nat) :
    Inv { sys with st := (createMemticket sys.st len flags).2, destroyed := destroyed } := by
  rw [createMemticket]
  split
  · exact ⟨inv.ids, inv.held, inv.one⟩
  · refine ⟨fun id tik found => ?_, fun collection listed => (inv.held collection listed).trans
      (Nat.le_succ _), ?_⟩
    · simp only [update_apply] at found
      split at found
      next same =>
        cases found
        exact ⟨same.symm, by omega, same.le⟩
      next =>
        obtain ⟨isId, positive, below⟩ := inv.ids id tik found
        exact ⟨isId, positive, below.trans (Nat.le_succ _)⟩
    · rintro _ ⟨tik, found, flag⟩ a inA b inB rfl same
      -- nobody has collected the new ticket
      have old : a.ticket ≠ sys.st.ticketIdCounter + 1 := by
        have := inv.held a inA
        omega
      simp only [update_of_ne old] at found
      exact inv.one a.ticket ⟨tik, found, flag⟩ a inA b inB rfl same

/-- A ticket that is there is handed out, exclusive or not. -/
theorem collect_done {st after : Tickets Proc} {id : Nat}
    (done : collectMemticket st proc id virt = .ok (ticket, after)) : st.tickets id = none ∧
      ticket.ticketId = 0 ∧
    after = st ∨ ∃ tik collectors, st.tickets id = some tik ∧ ticket.ticketId = tik.id ∧
    after.ticketIdCounter = st.ticketIdCounter ∧ after.tickets = update st.tickets id (some
    { tik.ref with collectors := collectors }) := by
  rw [collectMemticket] at done
  split at done
  next absent =>
    cases done
    exact .inl ⟨absent, rfl, rfl⟩
  next tik found =>
    dsimp only at done
    split at done
    · cases done
    · cases done
      exact .inr ⟨tik, _, found, rfl, rfl, rfl⟩

theorem collect_inv (inv : Inv sys) {id : Nat}
    (done : collectMemticket sys.st proc id virt = .ok (ticket, st)) (after : System Proc)
      (same : after = { sys with
      st := st
      held := if ticket.ticketId = 0 then sys.held else
        ⟨proc, ticket.ptr, ticket.ticketId⟩ :: sys.held
      destroyed := [] }) :
    (Fair sys (.collect proc id virt) → Inv after) ∧
      (OneHolder after → Fair sys (.collect proc id virt)) := by
  rcases collect_done done with ⟨absent, zero, rfl⟩ | ⟨tik, _, found, isId, counter, tickets⟩
  · rw [if_pos zero] at same
    subst same
    refine ⟨fun _ => ⟨inv.ids, inv.held, inv.one⟩, ?_⟩
    rintro _ _ _ _ ⟨⟩ ⟨tik, found, _⟩
    cases absent.symm.trans found
  · obtain ⟨key, positive, below⟩ := inv.ids id tik found
    rw [isId, key, if_neg positive.ne'] at same
    have exclusive (other : Nat) : Exclusive after other ↔ Exclusive sys other := by
      simp only [Exclusive, same, tickets, update_apply]
      by_cases here : other = id
      · simp [here, found, MemoryTicket.ref]
      · simp [here]
    constructor
    · intro fair
      refine ⟨fun other new isNew => ?_, ?_, ?_⟩
      · simp only [same, tickets, update_apply] at isNew
        rw [same, counter]
        split at isNew
        next here =>
          cases isNew
          exact here ▸ ⟨key, positive, below⟩
        next => exact inv.ids other new isNew
      · rw [same, counter]
        exact forall_mem_cons.mpr ⟨below, inv.held⟩
      · intro other isExclusive
        rw [exclusive] at isExclusive
        have mine (collection : Collection Proc) (listed : collection ∈ sys.held)
            (ofTicket : collection.ticket = id)
            (isOther : id = other) : collection.proc = proc :=
          fair proc id virt rfl (isOther ▸ isExclusive) collection listed ofTicket
        rw [same]
        rintro a inA b inB ofA ofB
        rcases mem_cons.mp inA with rfl | inA <;> rcases mem_cons.mp inB with rfl | inB
        · rfl
        · exact (mine b inB (ofB.trans ofA.symm) ofA).symm
        · exact mine a inA (ofA.trans ofB.symm) ofB
        · exact inv.one other isExclusive a inA b inB ofA ofB
    · rintro one _ _ _ ⟨⟩ isExclusive collection listed ofTicket
      refine one id ((exclusive id).mpr isExclusive) collection ?_ ⟨proc, ticket.ptr, id⟩ ?_
        ofTicket rfl
      · simp [same, listed]
      · simp [same]

theorem living_exact (inv : Inv sys) {after : System Proc} (living : Living sys op after) :
    (Fair sys op → Inv after) ∧ (OneHolder after → Fair sys op) := by
  obtain ⟨step, lives⟩ := living
  cases step with
  | create len flags => exact ⟨fun _ => create_inv inv len flags [], fun _ => nofun⟩
  | collect proc _ _ ticket _ alive done => exact collect_inv inv done _ rfl
  | release proc ticket =>
    exact ⟨fun _ => inv.fewer (release_fewer sys.st proc ticket) (release_counter ..) erase_subset,
      fun _ => nofun⟩
  | die proc => exact absurd rfl (lives proc)
  | spawn => exact ⟨fun _ => inv.fewer (fun _ tik found => ⟨tik, found, rfl, rfl⟩)
      rfl (Subset.refl _), fun _ => nofun⟩

/-- Along a run exclusive tickets have one holder exactly if nobody collects one that somebody else
has. -/
theorem one_holder_iff (alive : Finset Proc) {last : System Proc}
    {moves : List (Move (System Proc) (Op Proc))}
    (run : Run Living (boot alive) moves last) :
    (∀ move ∈ moves, OneHolder move.after) ↔ ∀ move ∈ moves, Fair move.before move.label := by
  refine run_exact Inv (fun move => Fair move.before move.label)
    (fun move => OneHolder move.after) ?_ ?_ run
    ⟨nofun, nofun, nofun⟩
  · intro move inv living fair
    have kept := (living_exact inv living).1 fair
    exact ⟨kept, kept.one⟩
  · exact fun _ inv living => (living_exact inv living).2

theorem one_holder_alone :
    ∃ moves last, Run Living (boot ({false, true} : Finset Bool)) moves last ∧
    moves.map Move.label = [.create 4096 4, .collect false 1 0x1000] ∧ ∀ move ∈ moves,
      OneHolder move.after := by
  have run : Run Living (boot ({false, true} : Finset Bool)) _ _ := .next ⟨.create _ 4096 4, nofun⟩
    (.next ⟨.collect _ false 1 0x1000 ⟨0x1000, 4096, 1⟩ _ (by decide) rfl, nofun⟩ (.refl _))
  refine ⟨_, _, run, rfl, (one_holder_iff _ run).mpr
    (forall_mem_cons.mpr ⟨nofun, forall_mem_singleton.mpr ?_⟩)⟩
  rintro _ _ _ ⟨⟩ _ _ ⟨⟩

/-- Two processes collect a ticket that was created as an exclusive one. -/
theorem two_holders : ∃ moves last, Run Living (boot ({false, true} : Finset Bool)) moves last ∧
    moves.map Move.label = [.create 4096 4, .collect false 1 0x1000, .collect true 1 0x1000] ∧
    last.held = [⟨true, 0x1000, 1⟩, ⟨false, 0x1000, 1⟩] ∧ ¬ OneHolder last := by
  have run : Run Living (boot ({false, true} : Finset Bool)) _ _ := .next ⟨.create _ 4096 4, nofun⟩
    (.next ⟨.collect _ false 1 0x1000 ⟨0x1000, 4096, 1⟩ _ (by decide) rfl, nofun⟩
      (.next ⟨.collect _ true 1 0x1000 ⟨0x1000, 4096, 1⟩ _ (by decide) rfl, nofun⟩ (.refl _)))
  refine ⟨_, _, run, rfl, rfl, fun one => ?_⟩
  have same := one 1 ⟨_, rfl, by decide⟩ ⟨true, 0x1000, 1⟩ (by simp) ⟨false, 0x1000, 1⟩
      (by simp) rfl rfl
  cases same

end Nx.ExclusiveTickets
