import Nx.Physical
import Nx.Vmregion

/-!
Write faults on one copy-on-write page, the present branch of `handlePageFault`
(kernel/source/mm/page_fault.cpp), by any number of threads of one process.
-/

namespace Nx.CowRaces

open Words Physical Vmregion Transitions Function

variable {Thread : Type} [DecidableEq Thread]

abbrev Offset := Fin 4096
abbrev Byte := BitVec 8

inductive Handler where
  | idle
  | allocate (flags : Word)
  | map (flags phys : Word)
  | record (phys : Word)
  | copy
  deriving DecidableEq

/-- `taken` are the frames the handlers allocated, `stored` is the last byte
that was stored at each offset; neither is known to the kernel. -/
structure Kernel (Thread : Type) where
  pmm : Pmm
  store : SharedStore
  space : AddressSpace
  entry : Word
  mem : Word → Offset → Byte
  handlers : Thread → Handler
  taken : List (Thread × Word)
  stored : Offset → Option Byte

open Kernel hiding mem

inductive Op (Thread : Type) where
  | fault (thread : Thread) (errorCode : Word)
  | run (thread : Thread)
  | store (thread : Thread) (offset : Offset) (value : Byte)

def Kernel.goto (kernel : Kernel Thread) (thread : Thread) (handler : Handler) : Kernel Thread :=
  { kernel with handlers := update kernel.handlers thread handler }

/-- The fault is taken and the flags are read. A fault that goes to the other
branch is not a step here. -/
def Kernel.fault (kernel : Kernel Thread) (thread : Thread) (errorCode : Word) :
    Option (Kernel Thread) :=
  let flags := kernel.entry &&& flagMask
  if errorCode &&& 0x8 ≠ 0 then some kernel
  else if flags &&& pageCopyOnWrite = 0 then some kernel
  else if errorCode &&& 0x1 = 0 ∨ flags &&& pagePresent = 0 then none
  else if errorCode &&& 0x2 = 0 then some kernel
  else some (kernel.goto thread (.allocate flags))

def cowEntry (phys flags : Word) : Word :=
  phys ||| (((flags &&& ~~~ pageCopyOnWrite) ||| pageWrite) ||| pagePresent)

def Kernel.copyOrClear (page : Word) (kernel : Kernel Thread) :
    Except Abort (Word → Offset → Byte) :=
  if present kernel.entry then
    let oldPhys := pageAlign kernel.entry
    let frame := entryFrame kernel.entry
    if oldPhys ≠ kernel.pmm.zeroPageAddr then
      .ok (update kernel.mem frame (kernel.mem (entryFrame oldPhys)))
    else .ok (update kernel.mem frame fun _ => 0)
  else .error (.getPhysNotMapped page .page)

def Kernel.run (page : Word) (kernel : Kernel Thread) (thread : Thread) :
    Except Abort (Kernel Thread) :=
  match kernel.handlers thread with
  | .idle => .ok kernel
  | .allocate flags => do
    let (phys, pmm) ← kernel.pmm.allocate 1 false
    pure ({ kernel with pmm := pmm, taken := (thread, phys) :: kernel.taken }.goto thread
      (.map flags phys))
  | .map flags phys =>
    .ok ({ kernel with entry := cowEntry phys flags }.goto thread (.record phys))
  | .record phys => do
    let (_, space, store) ← kernel.space.addPhysicalMapping kernel.store page phys
    pure ({ kernel with space := space, store := store }.goto thread .copy)
  | .copy => do
    let mem ← kernel.copyOrClear page
    pure ({ kernel with mem := mem }.goto thread .idle)

/-- A store goes through only if the entry allows it; otherwise the thread has
to fault first. -/
def Kernel.next (page : Word) (kernel : Kernel Thread) : Op Thread → Option (Kernel Thread)
  | .fault thread errorCode =>
    if kernel.handlers thread = .idle then kernel.fault thread errorCode else none
  | .run thread => (kernel.run page thread).toOption
  | .store thread offset value =>
    if kernel.handlers thread = .idle ∧ present kernel.entry = true ∧
      kernel.entry &&& pageWrite ≠ 0 then
      let frame := entryFrame kernel.entry
      some { kernel with
        mem := update kernel.mem frame (update (kernel.mem frame) offset value)
        stored := update kernel.stored offset (some value) }
    else none

def Step (page : Word) (before : Kernel Thread) (op : Op Thread) (after : Kernel Thread) : Prop :=
  before.next page op = some after

def StoresReadable (kernel : Kernel Thread) : Prop :=
  ∀ offset value, kernel.stored offset = some value →
    kernel.mem (entryFrame kernel.entry) offset = value

/-- With no handler running, at most one frame was taken for the page, and it
is the one mapped and the one on record. -/
def OneFrame (page : Word) (kernel : Kernel Thread) : Prop :=
  (∀ thread, kernel.handlers thread = .idle) → kernel.taken ≠ [] →
    ∃ thread frame, kernel.taken = [(thread, frame)] ∧ entryFrame kernel.entry = frame ∧
      kernel.space.backing kernel.store page = some frame

structure Unwritten (kernel : Kernel Thread) : Prop where
  pmm : kernel.pmm.Sound
  entry : kernel.entry &&& (pagePresent ||| pageWrite ||| pageCopyOnWrite) =
    pagePresent ||| pageCopyOnWrite
  idle : ∀ thread, kernel.handlers thread = .idle
  taken : kernel.taken = []
  stored : ∀ offset, kernel.stored offset = none

/-- Unless the step maps a new frame over a page that is copy-on-write no more. -/
def mapsCow (move : Move (Kernel Thread) (Op Thread)) : Bool :=
  match move.label with
  | .run thread =>
    match move.before.handlers thread with
    | .map _ _ => move.before.entry &&& pageCopyOnWrite != 0
    | _ => true
  | _ => true

def Handler.Early (zeroPage : Word) : Handler → Prop
  | .idle => True
  | .allocate flags => flags &&& flagMask = flags
  | .map flags phys => flags &&& flagMask = flags ∧ IsFrame phys ∧ phys ≠ zeroPage
  | .record _ => False
  | .copy => False

/-- Before any handler mapped its frame: the frames taken are still in hand. -/
structure Untouched (kernel : Kernel Thread) : Prop where
  cow : kernel.entry &&& (pagePresent ||| pageWrite ||| pageCopyOnWrite) =
    pagePresent ||| pageCopyOnWrite
  early : ∀ thread, (kernel.handlers thread).Early kernel.pmm.zeroPageAddr
  inHand : ∀ pair ∈ kernel.taken, ∃ flags, kernel.handlers pair.1 = .map flags pair.2
  counted : ∀ thread flags phys, kernel.handlers thread = .map flags phys →
    (thread, phys) ∈ kernel.taken
  stored : ∀ offset, kernel.stored offset = none

/-- After `winner` mapped `frame`: everybody else is still before the mapping. -/
structure Broken (page : Word) (winner : Thread) (frame : Word) (kernel : Kernel Thread) :
    Prop where
  mapped : ∃ flags, flags &&& flagMask = flags ∧ kernel.entry = cowEntry frame flags
  isFrame : IsFrame frame
  notZeroPage : frame ≠ kernel.pmm.zeroPageAddr
  early : ∀ thread ≠ winner, (kernel.handlers thread).Early kernel.pmm.zeroPageAddr
  late : kernel.handlers winner = .record frame ∨
    (kernel.handlers winner = .copy ∨ kernel.handlers winner = .idle) ∧
      kernel.space.backing kernel.store page = some frame
  winnerTook : (winner, frame) ∈ kernel.taken
  inHand : ∀ pair ∈ kernel.taken, pair = (winner, frame) ∨
    pair.1 ≠ winner ∧ ∃ flags, kernel.handlers pair.1 = .map flags pair.2
  stored : ∀ offset value, kernel.stored offset = some value → kernel.mem frame offset = value

structure Guarded (page : Word) (kernel : Kernel Thread) : Prop where
  pmm : kernel.pmm.Sound
  distinct : kernel.taken.Nodup
  phase : Untouched kernel ∨ ∃ winner frame, Broken page winner frame kernel

variable {kernel after : Kernel Thread}

theorem cowFlags_within (within : flags &&& flagMask = flags) :
    ((flags &&& ~~~ pageCopyOnWrite) ||| pageWrite ||| pagePresent) &&& flagMask =
      (flags &&& ~~~ pageCopyOnWrite) ||| pageWrite ||| pagePresent := by
  have kept : flags &&& ~~~ pageCopyOnWrite &&& flagMask = flags &&& ~~~ pageCopyOnWrite := by
    rw [BitVec.and_assoc, BitVec.and_comm (~~~ pageCopyOnWrite), ← BitVec.and_assoc, within]
  rw [BitVec.and_or_distrib_right, BitVec.and_or_distrib_right, kept]
  rfl

theorem cowEntry_reads (frame : IsFrame phys) (within : flags &&& flagMask = flags) :
    entryFrame (cowEntry phys flags) = phys ∧ pageAlign (cowEntry phys flags) = phys ∧
    cowEntry phys flags &&& pageCopyOnWrite = 0#64 := by
  refine ⟨entryFrame_or frame (cowFlags_within within), pageAlign_or frame (cowFlags_within within),
    ?_⟩
  rw [cowEntry, BitVec.and_or_distrib_right, BitVec.and_or_distrib_right,
    BitVec.and_or_distrib_right, frame.and_eq_zero (by decide), BitVec.and_assoc,
    show ~~~ pageCopyOnWrite &&& pageCopyOnWrite = 0#64 from by decide, BitVec.and_zero]
  rfl

omit [DecidableEq Thread] in
theorem Untouched.bits (untouched : Untouched kernel) :
    kernel.entry &&& pageCopyOnWrite ≠ 0 ∧ kernel.entry &&& pageWrite = 0 := by
  have part : ∀ mask : Word, (pagePresent ||| pageWrite ||| pageCopyOnWrite) &&& mask = mask →
      kernel.entry &&& mask = (pagePresent ||| pageCopyOnWrite) &&& mask := by
    intro _ inside
    rw [← untouched.cow, BitVec.and_assoc, inside]
  constructor
  all_goals
    rw [part _ (by decide)]
    decide

theorem Untouched.goto (untouched : Untouched kernel)
    (noFrame : ∀ flags phys, kernel.handlers thread ≠ .map flags phys)
    (nextNoFrame : ∀ flags phys, handler ≠ .map flags phys)
      (early : handler.Early kernel.pmm.zeroPageAddr) :
    Untouched (kernel.goto thread handler) where
  cow := untouched.cow
  early := by
    intro other
    by_cases same : other = thread
    · subst same
      simpa [Kernel.goto] using early
    · simpa [Kernel.goto, same] using untouched.early other
  inHand := by
    intro pair member
    obtain ⟨flags, position⟩ := untouched.inHand pair member
    have other : pair.1 ≠ thread := by
      rintro same
      rw [same] at position
      exact noFrame _ _ position
    exact ⟨flags, by simpa [Kernel.goto, other] using position⟩
  counted := by
    intro other flags phys position
    by_cases same : other = thread
    · subst same
      simp only [Kernel.goto, update_self] at position
      exact absurd position (nextNoFrame flags phys)
    · simp only [Kernel.goto, update_of_ne same] at position
      exact untouched.counted other flags phys position
  stored := untouched.stored

theorem Guarded.fault (guarded : Guarded page kernel) (idle : kernel.handlers thread = .idle)
    (taken : kernel.fault thread errorCode = some after) : Guarded page after := by
  unfold Kernel.fault at taken
  dsimp only at taken
  split at taken
  · cases taken
    exact guarded
  split at taken
  · cases taken
    exact guarded
  split at taken
  · cases taken
  split at taken
  · cases taken
    exact guarded
  cases taken
  rename_i _ cow _ _
  refine ⟨guarded.pmm, guarded.distinct, ?_⟩
  rcases guarded.phase with untouched | ⟨_, _, broken⟩
  · left
    apply untouched.goto
    · intro flags phys
      simp [idle]
    · simp
    · exact and_within _ _
  · obtain ⟨flags, within, entry⟩ := broken.mapped
    have clear := (cowEntry_reads broken.isFrame within).2.2
    rw [entry, BitVec.and_assoc, show flagMask &&& pageCopyOnWrite =
      pageCopyOnWrite from by decide] at cow
    exact absurd clear cow

variable {pmm : Pmm} {thread : Thread} {flags phys : Word}

theorem map_elsewhere (phys : Word) (position : kernel.handlers thread = .allocate flags)
    {pair : Thread × Word} (held : ∃ flags, kernel.handlers pair.1 = .map flags pair.2) :
    pair.1 ≠ thread ∧ ∃ flags', update kernel.handlers thread (.map flags phys) pair.1 =
      .map flags' pair.2 := by
  obtain ⟨flags', here⟩ := held
  have other : pair.1 ≠ thread := by
    intro same
    rw [same, position] at here
    cases here
  exact ⟨other, flags', by simpa [other] using here⟩

section

variable (position : kernel.handlers thread = .allocate flags)
  (zeroPage : pmm.zeroPageAddr = kernel.pmm.zeroPageAddr)
  (isFrame : IsFrame phys) (notZero : phys ≠ pmm.zeroPageAddr)
include position zeroPage isFrame notZero

theorem early_allocate {other : Thread} (early :
    (kernel.handlers other).Early kernel.pmm.zeroPageAddr) :
    (update kernel.handlers thread (.map flags phys) other).Early pmm.zeroPageAddr := by
  by_cases same : other = thread
  · subst same
    rw [position] at early
    rw [update_self]
    exact ⟨early, isFrame, notZero⟩
  · rw [update_of_ne same, zeroPage]
    exact early

theorem Untouched.allocate (untouched : Untouched kernel) : (thread, phys) ∉ kernel.taken ∧
    Untouched ({ kernel with pmm := pmm, taken := (thread, phys) :: kernel.taken }.goto thread
      (.map flags phys)) := by
  constructor
  · intro member
    exact (map_elsewhere phys position (untouched.inHand _ member)).1 rfl
  constructor
  · exact untouched.cow
  · exact fun other => early_allocate position zeroPage isFrame notZero (untouched.early other)
  · intro pair member
    rcases List.mem_cons.mp member with same | older
    · exact ⟨flags, by simp [same, Kernel.goto]⟩
    · exact (map_elsewhere _ position (untouched.inHand pair older)).2
  · intro other flags' phys' held
    by_cases same : other = thread
    · subst same
      simp only [Kernel.goto, update_self, Handler.map.injEq] at held
      simp [Kernel.goto, held.2]
    · simp only [Kernel.goto, update_of_ne same] at held
      exact List.mem_cons_of_mem _ (untouched.counted other flags' phys' held)
  · exact untouched.stored

theorem Broken.allocate (broken : Broken page winner frame kernel) :
    (thread, phys) ∉ kernel.taken ∧ Broken page winner frame
        ({ kernel with pmm := pmm, taken := (thread, phys) :: kernel.taken }.goto thread
          (.map flags phys)) := by
  have notWinner : thread ≠ winner := by
    rintro rfl
    rcases broken.late with at_ | ⟨at_ | at_, _⟩
    all_goals
      rw [position] at at_
      cases at_
  constructor
  · intro member
    rcases broken.inHand _ member with same | ⟨_, held⟩
    · exact notWinner (Prod.mk.inj same).1
    · exact (map_elsewhere phys position held).1 rfl
  constructor
  · exact broken.mapped
  · exact broken.isFrame
  · simpa [goto, zeroPage] using broken.notZeroPage
  · intro other notOther
    exact early_allocate position zeroPage isFrame notZero (broken.early other notOther)
  · simpa [goto, Ne.symm notWinner] using broken.late
  · exact List.mem_cons_of_mem _ broken.winnerTook
  · intro pair member
    rcases List.mem_cons.mp member with same | older
    · right
      rw [same]
      exact ⟨notWinner, flags, by simp [goto]⟩
    · rcases broken.inHand pair older with won | ⟨other, held⟩
      · exact .inl won
      · exact .inr ⟨other, (map_elsewhere _ position held).2⟩
  · exact broken.stored

end

theorem Guarded.allocate (guarded : Guarded page kernel)
    (position : kernel.handlers thread = .allocate flags)
    (done : kernel.run page thread = .ok after) : Guarded page after := by
  simp only [run, position] at done
  cases allocated : kernel.pmm.allocate 1 false with
  | error =>
    rw [allocated] at done
    cases done
  | ok result =>
    obtain ⟨phys, pmm⟩ := result
    rw [allocated] at done
    cases done
    have takes := allocate_takes guarded.pmm allocated
    have isFrame := guarded.pmm.isFrame takes.wasFree
    have notZero : phys ≠ pmm.zeroPageAddr := by
      rw [takes.zeroPage]
      rintro rfl
      exact guarded.pmm.zeroTaken takes.wasFree
    rcases guarded.phase with untouched | ⟨winner, frame, broken⟩
    · have ⟨fresh, still⟩ := untouched.allocate position takes.zeroPage isFrame notZero
      exact ⟨takes.sound, List.nodup_cons.mpr ⟨fresh, guarded.distinct⟩, .inl still⟩
    · have ⟨fresh, still⟩ := broken.allocate position takes.zeroPage isFrame notZero
      exact ⟨takes.sound, List.nodup_cons.mpr ⟨fresh, guarded.distinct⟩,
        .inr ⟨winner, frame, still⟩⟩

theorem Guarded.map (guarded : Guarded page kernel)
    (position : kernel.handlers thread = .map flags phys)
    (cow : kernel.entry &&& pageCopyOnWrite ≠ 0) (done : kernel.run page thread = .ok after) :
      Guarded page after := by
  simp only [run, position] at done
  cases done
  rcases guarded.phase with untouched | ⟨_, _, broken⟩
  · have ⟨within, isFrame, notZero⟩ : (Handler.map flags phys).Early kernel.pmm.zeroPageAddr :=
      position ▸ untouched.early thread
    refine ⟨guarded.pmm, guarded.distinct, .inr ⟨thread, phys, ?_⟩⟩
    constructor
    · exact ⟨flags, within, rfl⟩
    · exact isFrame
    · exact notZero
    · intro other notThread
      simpa [goto, notThread] using untouched.early other
    · exact .inl (by simp [goto])
    · exact untouched.counted thread flags phys position
    · intro pair member
      obtain ⟨held, inHand⟩ := untouched.inHand pair member
      by_cases same : pair.1 = thread
      · left
        rw [same, position] at inHand
        cases inHand
        exact Prod.ext same rfl
      · exact .inr ⟨same, held, by simpa [goto, same] using inHand⟩
    · intro offset _ known
      have nothing := untouched.stored offset
      exact absurd (known.symm.trans nothing) (by simp)
  · obtain ⟨_, within, entry⟩ := broken.mapped
    rw [entry] at cow
    exact absurd (cowEntry_reads broken.isFrame within).2.2 cow

theorem Guarded.late (guarded : Guarded page kernel) (thread : Thread)
    (notEarly : ¬ (kernel.handlers thread).Early kernel.pmm.zeroPageAddr) :
    ∃ frame, Broken page thread frame kernel := by
  rcases guarded.phase with untouched | ⟨winner, frame, broken⟩
  · exact absurd (untouched.early thread) notEarly
  · by_cases same : thread = winner
    · exact ⟨frame, same ▸ broken⟩
    · exact absurd (broken.early thread same) notEarly

theorem Broken.goto (broken : Broken page winner frame kernel) (late : handler = .copy ∨
    handler = .idle)
    (recorded : kernel.space.backing kernel.store page = some frame) :
    Broken page winner frame (kernel.goto winner handler) where
  mapped := broken.mapped
  isFrame := broken.isFrame
  notZeroPage := broken.notZeroPage
  early := by
    intro thread other
    simpa [Kernel.goto, other] using broken.early thread other
  late := by
    right
    exact ⟨by simpa [Kernel.goto] using late, recorded⟩
  winnerTook := broken.winnerTook
  inHand := by
    intro pair member
    rcases broken.inHand pair member with won | ⟨other, flags, held⟩
    · exact .inl won
    · exact .inr ⟨other, flags, by simpa [Kernel.goto, other] using held⟩
  stored := broken.stored

theorem Guarded.record (guarded : Guarded page kernel)
    (position : kernel.handlers thread = .record phys)
    (done : kernel.run page thread = .ok after) : Guarded page after := by
  obtain ⟨frame, broken⟩ := guarded.late thread (by simp [position, Handler.Early])
  have mine : phys = frame := by
    rcases broken.late with at_ | ⟨at_ | at_, _⟩
    all_goals
      rw [position] at at_
      cases at_
    rfl
  subst mine
  simp only [run, position] at done
  cases added : kernel.space.addPhysicalMapping kernel.store page phys with
  | error =>
    rw [added] at done
    cases done
  | ok result =>
    obtain ⟨_, space, store⟩ := result
    rw [added] at done
    cases done
    have recorded := backing_addPhysicalMapping added
    have moved : Broken page thread phys { kernel with space := space, store := store } := by
      constructor
      · exact broken.mapped
      · exact broken.isFrame
      · exact broken.notZeroPage
      · exact broken.early
      · exact .inl position
      · exact broken.winnerTook
      · exact broken.inHand
      · exact broken.stored
    exact ⟨guarded.pmm, guarded.distinct, .inr ⟨thread, phys, moved.goto (.inl rfl) recorded⟩⟩

omit [DecidableEq Thread] in
theorem Broken.copyOrClear_self (broken : Broken page winner frame kernel)
    (done : kernel.copyOrClear page = .ok mem) : mem = kernel.mem := by
  obtain ⟨_, within, entry⟩ := broken.mapped
  have ⟨frameRead, physRead, _⟩ := cowEntry_reads broken.isFrame within
  unfold copyOrClear at done
  rw [entry, frameRead, physRead] at done
  split at done
  · simp only [ne_eq, broken.notZeroPage, not_false_eq_true, ↓reduceIte, Except.ok.injEq] at done
    rw [← done, broken.isFrame, update_eq_self]
  · cases done

theorem Guarded.copy (guarded : Guarded page kernel) (position : kernel.handlers thread = .copy)
    (done : kernel.run page thread = .ok after) : Guarded page after := by
  obtain ⟨frame, broken⟩ := guarded.late thread (by simp [position, Handler.Early])
  have recorded : kernel.space.backing kernel.store page = some frame := by
    rcases broken.late with at_ | ⟨_, recorded⟩
    · rw [position] at at_
      cases at_
    · exact recorded
  simp only [run, position] at done
  cases copied : kernel.copyOrClear page with
  | error =>
    rw [copied] at done
    cases done
  | ok =>
    rw [copied] at done
    cases done
    rw [broken.copyOrClear_self copied]
    exact ⟨guarded.pmm, guarded.distinct, .inr ⟨thread, frame, broken.goto (.inr rfl) recorded⟩⟩

theorem Guarded.store (guarded : Guarded page kernel)
    (done : kernel.next page (.store thread offset value) = some after) : Guarded page after := by
  simp only [next] at done
  split at done
  · rename_i allowed
    cases done
    refine ⟨guarded.pmm, guarded.distinct, ?_⟩
    rcases guarded.phase with untouched | ⟨winner, frame, broken⟩
    · exact absurd untouched.bits.2 allowed.2.2
    · obtain ⟨_, within, entry⟩ := broken.mapped
      have atFrame : entryFrame kernel.entry = frame := by
        rw [entry]
        exact (cowEntry_reads broken.isFrame within).1
      right
      refine ⟨winner, frame, ⟨broken.mapped, broken.isFrame, broken.notZeroPage, broken.early,
        broken.late, broken.winnerTook, broken.inHand, ?_⟩⟩
      intro other read known
      dsimp only at known ⊢
      rw [atFrame, update_self]
      by_cases same : other = offset
      · subst same
        rw [update_self] at known ⊢
        exact Option.some.inj known
      · rw [update_of_ne same] at known ⊢
        exact broken.stored other read known
  · cases done

theorem step_guarded (page : Word) (move : Move (Kernel Thread) (Op Thread))
    (guarded : Guarded page move.before)
    (step : Step page move.before move.label move.after) (cow : mapsCow move = true) :
      Guarded page move.after := by
  obtain ⟨before, label, after⟩ := move
  dsimp only [Step] at guarded step ⊢
  cases label with
  | fault thread =>
    simp only [next] at step
    split at step
    · rename_i idle
      exact guarded.fault idle step
    · cases step
  | store thread => exact guarded.store step
  | run thread =>
    have done : before.run page thread = .ok after := by
      cases result : before.run page thread with
      | error => simp [next, result, Except.toOption] at step
      | ok => simpa [next, result, Except.toOption] using step
    cases position : before.handlers thread with
    | idle =>
      simp only [run, position] at done
      cases done
      exact guarded
    | allocate flags => exact guarded.allocate position done
    | map _ phys =>
      simp only [mapsCow, position, bne_iff_ne] at cow
      exact guarded.map position cow done
    | record => exact guarded.record position done
    | copy => exact guarded.copy position done

omit [DecidableEq Thread] in
theorem Unwritten.guarded (unwritten : Unwritten kernel) : Guarded page kernel := by
  refine ⟨unwritten.pmm, by simp [unwritten.taken], .inl ?_⟩
  constructor
  · exact unwritten.entry
  · intro thread
    rw [unwritten.idle thread]
    trivial
  · simp [unwritten.taken]
  · intro thread _ _ position
    rw [unwritten.idle thread] at position
    cases position
  · exact unwritten.stored

omit [DecidableEq Thread] in
theorem Guarded.storesReadable (guarded : Guarded page kernel) : StoresReadable kernel := by
  intro offset value known
  rcases guarded.phase with untouched | ⟨_, _, broken⟩
  · rw [untouched.stored offset] at known
    cases known
  · obtain ⟨_, within, entry⟩ := broken.mapped
    rw [entry, (cowEntry_reads broken.isFrame within).1]
    exact broken.stored offset value known

omit [DecidableEq Thread] in
theorem Guarded.oneFrame (guarded : Guarded page kernel) : OneFrame page kernel := by
  intro idle some
  rcases guarded.phase with untouched | ⟨winner, frame, broken⟩
  · obtain ⟨pair, member⟩ := List.exists_mem_of_ne_nil _ some
    obtain ⟨flags, held⟩ := untouched.inHand pair member
    rw [idle pair.1] at held
    cases held
  · obtain ⟨flags, within, entry⟩ := broken.mapped
    refine ⟨winner, frame, ?_, ?_, ?_⟩
    · have only : ∀ pair ∈ kernel.taken, pair = (winner, frame) := by
        intro pair member
        rcases broken.inHand pair member with won | ⟨_, _, held⟩
        · exact won
        · rw [idle pair.1] at held
          cases held
      have copies := List.eq_replicate_of_mem only
      have distinct := guarded.distinct
      rw [copies, List.nodup_replicate] at distinct
      have positive := List.length_pos_iff.mpr some
      rw [copies, show kernel.taken.length = 1 from by omega]
      rfl
    · rw [entry, (cowEntry_reads broken.isFrame within).1]
    · rcases broken.late with at_ | ⟨_, recorded⟩
      · rw [idle winner] at at_
        cases at_
      · exact recorded

/-- In a run whose handlers map their frame only over a page that still is
copy-on-write, no store is lost, and with no handler running the page has the
one frame that was taken for it. -/
theorem cow_faults_lose_no_store (page : Word) {start last : Kernel Thread}
    {moves : List (Move (Kernel Thread) (Op Thread))} (unwritten : Unwritten start)
    (run : Run (Step page) start moves last) (cow : ∀ move ∈ moves, mapsCow move = true) :
    ∀ kernel ∈ visited start moves, StoresReadable kernel ∧ OneFrame page kernel := by
  have throughout := run_guarded (Guarded page) (fun move => mapsCow move = true)
    (step_guarded page) run unwritten.guarded cow
  intro kernel member
  exact ⟨(throughout kernel member).storesReadable, (throughout kernel member).oneFrame⟩

/-- The page at 0x400000 in a region of its own, backed by the zero page at
0x5000, and sixteen free frames from 0x10000. -/
def zeroedPage : Kernel Bool where
  pmm := ⟨{ Extmm.State.init "pmm" 0 0 with head := [⟨0x10000, 16⟩] }, 0, 0x5000⟩
  store := fun _ _ => none
  space := ⟨0, [⟨0x400000, 1, fun _ => none⟩], [], fun _ => Extmm.State.init "vmm" 0 0, []⟩
  entry := 0x5205
  mem := fun _ _ => 0
  handlers := fun _ => .idle
  taken := []
  stored := fun _ => none

theorem zeroedPage_unwritten : Unwritten zeroedPage := by
  constructor
  · apply sound_of_single rfl
    · constructor
      · decide
      · decide
      · decide
    · decide
    · rfl
    · rw [free_single rfl]
      decide
  · decide
  · intro _
    rfl
  · rfl
  · intro _
    rfl

def servedThenStored : List (Op Bool) :=
  [.fault true 0x7, .run true, .run true, .run true, .run true, .store true 0 0x2A,
    .store false 1 0x2B]

theorem cow_faults_lose_no_store_served :
    let trail := trace (next 0x400000) zeroedPage servedThenStored
    Unwritten zeroedPage ∧ Run (Step 0x400000) zeroedPage trail.1 trail.2 ∧ trail.1.length = 7 ∧
      ∀ kernel ∈ visited zeroedPage trail.1, StoresReadable kernel ∧ OneFrame 0x400000 kernel := by
  have run : Run (Step 0x400000) zeroedPage _ _ :=
    trace_run (next 0x400000) (fun _ _ _ stepped => stepped) zeroedPage servedThenStored
  exact ⟨zeroedPage_unwritten, run,
    by decide, cow_faults_lose_no_store 0x400000 zeroedPage_unwritten run (by decide)⟩

/-- Both threads fault and read the flags; one is served and stores, then the
other goes on and maps its own frame over the page. -/
def preempted : List (Op Bool) :=
  [.fault true 0x7, .fault false 0x7, .run true, .run true, .run true, .run true,
    .store true 0 0x2A, .run false, .run false]

theorem second_handler_loses_store : ¬ ∀ (page : Word) (start last : Kernel Bool)
    (moves : List (Move (Kernel Bool) (Op Bool))), Unwritten start →
      Run (Step page) start moves last →
    ∀ kernel ∈ visited start moves, StoresReadable kernel ∧ OneFrame page kernel := by
  intro claimed
  let trail := trace (next 0x400000) zeroedPage preempted
  have run : Run (Step 0x400000) zeroedPage trail.1 trail.2 :=
    trace_run (next 0x400000) (fun _ _ _ stepped => stepped) zeroedPage preempted
  have readable := (claimed _ _ _ _ zeroedPage_unwritten run _ (run_last_visited run)).1
  exact absurd (readable 0 0x2A (by decide)) (by decide)

end Nx.CowRaces
