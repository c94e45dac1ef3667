import Nx.Physical
import Nx.Vmregion

/-!
Faults on shared pages, the not-present branch of `handlePageFault`
(kernel/source/mm/page_fault.cpp).
-/

namespace Nx.SharedFaults

open Words Physical Vmregion Transitions Function List

variable {Proc Thread : Type} [DecidableEq Proc] [DecidableEq Thread]

inductive Handler where
  | idle
  | lookup (page flags : Word)
  | allocate (page flags : Word)
  | record (page flags phys : Word)
  | map (page flags phys : Word)
  deriving DecidableEq

structure Kernel (Proc Thread : Type) where
  pmm : Pmm
  store : SharedStore
  spaces : Proc → AddressSpace
  entries : Proc → Word → Word
  handlers : Thread → Handler

inductive Op (Thread : Type) where
  | fault (thread : Thread) (cr2 errorCode : Word)
  | run (thread : Thread)

def Kernel.goto (kernel : Kernel Proc Thread) (thread : Thread) (handler : Handler) :
    Kernel Proc Thread :=
  { kernel with handlers := update kernel.handlers thread handler }

section Homes

variable (home : Thread → Proc)

def Kernel.fault (kernel : Kernel Proc Thread) (thread : Thread) (cr2 errorCode : Word) :
    Kernel Proc Thread :=
  if errorCode &&& 0x8 ≠ 0 then kernel
  else
    let page := pageAlign cr2
    let flags := kernel.entries (home thread) page &&& flagMask
    if flags &&& pageCopyOnWrite ≠ 0 ∧ (errorCode &&& 0x1 = 0 ∨ flags &&& pagePresent = 0) then
      kernel.goto thread (.lookup page flags)
    else kernel

def lazyEntry (phys flags : Word) : Word :=
  phys ||| (((flags &&& ~~~ pageCopyOnWrite) ||| pagePresent) ||| pagePresent)

def Kernel.run (kernel : Kernel Proc Thread) (thread : Thread) :
    Except Abort (Kernel Proc Thread) :=
  let proc := home thread
  match kernel.handlers thread with
  | .idle => .ok kernel
  | .lookup page flags =>
    match (kernel.spaces proc).lookupVirtualMapping kernel.store page with
    | (none, _) => .ok (kernel.goto thread .idle)
    | (some _, none) => .ok (kernel.goto thread (.allocate page flags))
    | (some _, some phys) => .ok (kernel.goto thread (.map page flags phys))
  | .allocate page flags => do
    let (phys, pmm) ← kernel.pmm.allocate 1 false
    pure ({ kernel with pmm := pmm }.goto thread (.record page flags phys))
  | .record page flags phys => do
    let (_, space, store) ← (kernel.spaces proc).addPhysicalMapping kernel.store page phys
    pure ({ kernel with
      spaces := update kernel.spaces proc space
      store := store }.goto thread (.map page flags phys))
  | .map page flags phys =>
    .ok ({ kernel with
      entries := update kernel.entries proc
        (update (kernel.entries proc) page (lazyEntry phys flags)) }.goto thread .idle)

def Kernel.next (kernel : Kernel Proc Thread) : Op Thread → Option (Kernel Proc Thread)
  | .fault thread cr2 errorCode =>
    if kernel.handlers thread = .idle then some (kernel.fault home thread cr2 errorCode)
    else none
  | .run thread => (kernel.run home thread).toOption

def Step (before : Kernel Proc Thread) (op : Op Thread) (after : Kernel Proc Thread) : Prop :=
  before.next home op = some after

def MapsTo (kernel : Kernel Proc Thread) (ticket : Nat) (proc : Proc) (index frame : Word) : Prop :=
  ∃ svmr ∈ (kernel.spaces proc).sharedRegions, svmr.backingPhysPages = ticket ∧
    index < svmr.numPages ∧
    present (kernel.entries proc (svmr.addr + ofsPages index)) = true ∧
    entryFrame (kernel.entries proc (svmr.addr + ofsPages index)) = frame

def StaysShared (ticket : Nat) (kernel : Kernel Proc Thread) : Prop :=
  ∀ index left right leftFrame rightFrame,
    MapsTo kernel ticket left index leftFrame → MapsTo kernel ticket right index rightFrame →
      leftFrame = rightFrame ∧ kernel.store ticket index = some leftFrame

structure Layout (space : AddressSpace) : Prop where
  fits : ∀ svmr ∈ space.sharedRegions, svmr.addr.toNat + 4096 * svmr.numPages.toNat < 2 ^ 64
  sharedApart : ∀ left ∈ space.sharedRegions, ∀ right ∈ space.sharedRegions, ∀ virt,
    left.contains virt = true → right.contains virt = true → left = right
  privateApart : ∀ svmr ∈ space.sharedRegions, ∀ virt, svmr.contains virt = true →
    ∀ vmr ∈ space.regions, vmr.contains virt = false

structure Collected (ticket : Nat) (kernel : Kernel Proc Thread) : Prop where
  pmm : kernel.pmm.Sound
  layout : ∀ proc, Layout (kernel.spaces proc)
  idle : ∀ thread, kernel.handlers thread = .idle
  frames : ∀ index frame, kernel.store ticket index = some frame → IsFrame frame
  recorded : ∀ proc index frame, MapsTo kernel ticket proc index frame → kernel.store ticket index =
    some frame

def recordsOnce (ticket : Nat) (move : Move (Kernel Proc Thread) (Op Thread)) : Bool :=
  match move.label with
  | .fault _ _ _ => true
  | .run thread =>
    match move.before.handlers thread with
    | .record page _ _ =>
      (move.before.spaces (home thread)).sharedRegions.all fun svmr =>
        !(svmr.backingPhysPages == ticket && svmr.contains page) ||
          (move.before.store ticket (svmr.pageIdx page)).isNone
    | _ => true

end Homes

def HandlerRight (ticket : Nat) (space : AddressSpace) (store : SharedStore) : Handler → Prop
  | .idle => True
  | .lookup _ flags => flags &&& flagMask = flags
  | .allocate _ flags => flags &&& flagMask = flags
  | .record _ flags phys => flags &&& flagMask = flags ∧ IsFrame phys
  | .map page flags phys => flags &&& flagMask = flags ∧
      ∀ svmr ∈ space.sharedRegions, svmr.backingPhysPages = ticket →
        svmr.contains page = true → store ticket (svmr.pageIdx page) = some phys

structure Coherent (home : Thread → Proc) (ticket : Nat) (kernel : Kernel Proc Thread) : Prop where
  pmm : kernel.pmm.Sound
  layout : ∀ proc, Layout (kernel.spaces proc)
  handlers : ∀ thread, HandlerRight ticket (kernel.spaces (home thread)) kernel.store
    (kernel.handlers thread)
  frames : ∀ index frame, kernel.store ticket index = some frame → IsFrame frame
  recorded : ∀ proc index frame, MapsTo kernel ticket proc index frame → kernel.store ticket index =
    some frame

variable {kernel after : Kernel Proc Thread} {page flags phys : Word}

omit [DecidableEq Proc] [DecidableEq Thread] in
theorem Collected.coherent (collected : Collected ticket kernel) : Coherent home ticket kernel where
  pmm := collected.pmm
  layout := collected.layout
  handlers := by
    intro thread
    rw [collected.idle thread]
    trivial
  frames := collected.frames
  recorded := collected.recorded

omit [DecidableEq Proc] [DecidableEq Thread] in
theorem Coherent.staysShared (coherent : Coherent home ticket kernel) :
    StaysShared ticket kernel := by
  intro index left right leftFrame rightFrame mapsLeft mapsRight
  have atLeft := coherent.recorded left index leftFrame mapsLeft
  have atRight := coherent.recorded right index rightFrame mapsRight
  exact ⟨Option.some.inj (atLeft.symm.trans atRight), atLeft⟩

omit [DecidableEq Proc] in
theorem Coherent.goto (coherent : Coherent home ticket kernel) (thread : Thread) (handler : Handler)
    (right : HandlerRight ticket (kernel.spaces (home thread)) kernel.store handler) :
    Coherent home ticket (kernel.goto thread handler) where
  pmm := coherent.pmm
  layout := coherent.layout
  handlers := by
    intro other
    by_cases same : other = thread
    · subst same
      simpa [Kernel.goto] using right
    · simpa [Kernel.goto, same] using coherent.handlers other
  frames := coherent.frames
  recorded := coherent.recorded

omit [DecidableEq Proc] in
theorem Coherent.fault (coherent : Coherent home ticket kernel) (thread : Thread)
    (cr2 errorCode : Word) : Coherent home ticket (kernel.fault home thread cr2 errorCode) := by
  unfold Kernel.fault
  split
  · exact coherent
  · dsimp only
    split
    · exact coherent.goto thread _ (and_within _ _)
    · exact coherent

theorem Layout.found_unique (layout : Layout space)
    (search : space.sharedRegions.find? (SharedVMRegion.contains virt) = some found)
    (member : svmr ∈ space.sharedRegions) (inside : svmr.contains virt = true) : svmr = found :=
  layout.sharedApart svmr member found (mem_of_find?_eq_some search) virt inside (find?_some search)

theorem Layout.lookup_shared (layout : Layout space) (store : SharedStore)
    (member : svmr ∈ space.sharedRegions) (inside : svmr.contains virt = true) :
    space.lookupVirtualMapping store virt = (some virt, store svmr.backingPhysPages
      (svmr.pageIdx virt)) := by
  cases search : space.sharedRegions.find? (SharedVMRegion.contains virt) with
  | none =>
    have outside := find?_eq_none.mp search svmr member
    exact absurd inside outside
  | some =>
    rw [layout.found_unique search member inside]
    simp only [AddressSpace.lookupVirtualMapping, search, SharedVMRegion.lookup]

theorem Layout.reback (layout : Layout space) (shape : space.regions = lower ++ vmr :: upper)
    (backing : Word → Option Word) : Layout { space with
      regions := lower ++ { vmr with backingPhysPages := backing } :: upper } where
  fits := layout.fits
  sharedApart := layout.sharedApart
  privateApart := by
    intro svmr member virt inside other listed
    have outside := layout.privateApart svmr member virt inside
    rw [shape] at outside
    rcases mem_append.mp listed with below | above
    · exact outside other (by simp [below])
    · rcases mem_cons.mp above with same | later
      · rw [same]
        exact outside vmr (by simp)
      · exact outside other (by simp [later])

theorem Coherent.lookup (coherent : Coherent home ticket kernel)
    (position : kernel.handlers thread = .lookup page flags)
    (done : kernel.run home thread = .ok after) : Coherent home ticket after := by
  have within : flags &&& flagMask = flags := by
    simpa [position, HandlerRight] using coherent.handlers thread
  simp only [Kernel.run, position] at done
  split at done
  · cases done
    exact coherent.goto thread .idle trivial
  · cases done
    exact coherent.goto thread _ within
  · rename_i phys found
    cases done
    apply coherent.goto thread
    refine ⟨within, ?_⟩
    intro _ member owned inside
    rw [(coherent.layout _).lookup_shared kernel.store member inside, owned] at found
    exact (Prod.mk.inj found).2

theorem Coherent.allocate (coherent : Coherent home ticket kernel)
    (position : kernel.handlers thread = .allocate page flags)
    (done : kernel.run home thread = .ok after) : Coherent home ticket after := by
  have within : flags &&& flagMask = flags := by
    simpa [position, HandlerRight] using coherent.handlers thread
  simp only [Kernel.run, position] at done
  cases allocated : kernel.pmm.allocate 1 false with
  | error =>
    rw [allocated] at done
    cases done
  | ok taken =>
    rw [allocated] at done
    cases done
    have takes := allocate_takes coherent.pmm allocated
    have moved : Coherent home ticket { kernel with pmm := taken.2 } :=
      ⟨takes.sound, coherent.layout, coherent.handlers, coherent.frames, coherent.recorded⟩
    exact moved.goto thread _ ⟨within, coherent.pmm.isFrame takes.wasFree⟩

/-- A handler that relies on the ticket still may after a frame was recorded
where there was none. -/
theorem HandlerRight.recorded {spaceAfter} (right : HandlerRight ticket space store handler)
    (sameRegions : spaceAfter.sharedRegions = space.sharedRegions)
    (keeps : ∀ index frame, store ticket index = some frame → storeAfter ticket index =
      some frame) :
    HandlerRight ticket spaceAfter storeAfter handler := by
  cases handler with
  | idle => trivial
  | lookup page flags | allocate page flags | record page flags phys => exact right
  | map =>
    refine ⟨right.1, ?_⟩
    intro svmr member owned inside
    rw [sameRegions] at member
    exact keeps _ _ (right.2 svmr member owned inside)

theorem addPhysicalMapping_shared (layout : Layout before) (frame : IsFrame phys)
    (framed : ∀ index found, known ticket index = some found → IsFrame found)
    (once : ∀ svmr ∈ before.sharedRegions, svmr.backingPhysPages = ticket →
      svmr.contains page = true →
    known ticket (svmr.pageIdx page) = none)
    (added : before.addPhysicalMapping known page phys = .ok (old, space, store)) :
    space.sharedRegions = before.sharedRegions ∧ Layout space ∧
      (∀ index found, known ticket index = some found →
    store ticket index = some found) ∧ (∀ index found, store ticket index = some found →
      IsFrame found) ∧
    ∀ svmr ∈ space.sharedRegions, svmr.backingPhysPages = ticket → svmr.contains page = true →
    store ticket (svmr.pageIdx page) = some phys := by
  rcases addPhysicalMapping_cases added with
    ⟨lower, vmr, upper, shape, inside, _, rfl, rfl⟩ | ⟨_, svmr, search, rfl, rfl⟩
  · refine ⟨rfl, layout.reback shape _, fun _ _ there => there, framed, ?_⟩
    intro svmr member _ covered
    have outside := layout.privateApart svmr member page covered vmr (by simp [shape])
    exact absurd inside (by simp [outside])
  · have inside := find?_some search
    have member := mem_of_find?_eq_some search
    refine ⟨rfl, layout, ?_, ?_, ?_⟩
    · intro index found there
      by_cases owned : svmr.backingPhysPages = ticket
      · have free := once svmr member owned inside
        have other : index ≠ svmr.pageIdx page := by
          rintro rfl
          rw [free] at there
          cases there
        simpa [owned, other] using there
      · simpa [update_of_ne (Ne.symm owned)] using there
    · intro index found there
      by_cases owned : svmr.backingPhysPages = ticket
      · by_cases here : index = svmr.pageIdx page
        · simp only [owned, here, update_self, Option.some.injEq] at there
          rwa [← there]
        · simp only [owned, update_self, update_of_ne here] at there
          exact framed index found there
      · rw [update_of_ne (Ne.symm owned)] at there
        exact framed index found there
    · intro _ listed owned covered
      rw [layout.found_unique search listed covered] at owned ⊢
      simp [owned]

theorem Coherent.record (coherent : Coherent home ticket kernel)
    (position : kernel.handlers thread = .record page flags phys)
    (once : ∀ svmr ∈ (kernel.spaces (home thread)).sharedRegions, svmr.backingPhysPages = ticket →
    svmr.contains page = true → kernel.store ticket (svmr.pageIdx page) = none)
    (done : kernel.run home thread = .ok after) : Coherent home ticket after := by
  have ⟨within, frame⟩ : flags &&& flagMask = flags ∧ IsFrame phys := by
    simpa [position, HandlerRight] using coherent.handlers thread
  have layout := coherent.layout (home thread)
  simp only [Kernel.run, position] at done
  cases added : (kernel.spaces (home thread)).addPhysicalMapping kernel.store page phys with
  | error =>
    rw [added] at done
    cases done
  | ok result =>
    obtain ⟨_, space, store⟩ := result
    rw [added] at done
    cases done
    obtain ⟨sameRegions, layoutAfter, keeps, frames, here⟩ :=
      addPhysicalMapping_shared layout frame coherent.frames once added
    have regions : ∀ proc, (update kernel.spaces (home thread) space proc).sharedRegions =
        (kernel.spaces proc).sharedRegions := by
      intro proc
      by_cases same : proc = home thread
      · subst same
        simpa using sameRegions
      · simp [same]
    have recorded : Coherent home ticket { kernel with
        spaces := update kernel.spaces (home thread) space, store := store } := by
      constructor
      · exact coherent.pmm
      · intro proc
        by_cases same : proc = home thread
        · subst same
          simpa using layoutAfter
        · simpa [same] using coherent.layout proc
      · intro other
        exact (coherent.handlers other).recorded (regions _) keeps
      · exact frames
      · rintro proc index found ⟨svmr, member, owned, below, mapped⟩
        rw [regions] at member
        exact keeps _ _ (coherent.recorded proc index found ⟨svmr, member, owned, below, mapped⟩)
    exact recorded.goto thread _ ⟨within, by simpa using here⟩

theorem entryFrame_lazyEntry (frame : IsFrame phys) (within : flags &&& flagMask = flags) :
    entryFrame (lazyEntry phys flags) = phys := by
  apply entryFrame_or frame
  have kept : flags &&& ~~~ pageCopyOnWrite &&& flagMask = flags &&& ~~~ pageCopyOnWrite := by
    rw [BitVec.and_assoc, BitVec.and_comm (~~~ pageCopyOnWrite), ← BitVec.and_assoc, within]
  rw [BitVec.and_or_distrib_right, BitVec.and_or_distrib_right, kept,
    show pagePresent &&& flagMask = pagePresent from by decide]

theorem Coherent.map (coherent : Coherent home ticket kernel)
    (position : kernel.handlers thread = .map page flags phys)
    (done : kernel.run home thread = .ok after) : Coherent home ticket after := by
  have ⟨within, right⟩ : HandlerRight ticket (kernel.spaces (home thread)) kernel.store
      (.map page flags phys) := position ▸ coherent.handlers thread
  simp only [Kernel.run, position] at done
  cases done
  have mapped : Coherent home ticket { kernel with
      entries := update kernel.entries (home thread)
        (update (kernel.entries (home thread)) page (lazyEntry phys flags)) } := by
    constructor
    · exact coherent.pmm
    · exact coherent.layout
    · exact coherent.handlers
    · exact coherent.frames
    · rintro proc index frame ⟨svmr, member, owned, below, isPresent, atFrame⟩
      by_cases here : proc = home thread ∧ svmr.addr + ofsPages index = page
      · obtain ⟨rfl, rfl⟩ := here
        have ⟨inside, indexed⟩ := SharedVMRegion.page_index
            ((coherent.layout _).fits svmr member) below
        have known := right svmr member owned inside
        rw [indexed] at known
        have entry : entryFrame (lazyEntry phys flags) = frame := by simpa using atFrame
        rwa [← entry, entryFrame_lazyEntry (coherent.frames _ _ known) within]
      · apply coherent.recorded proc index frame
        have same : update kernel.entries (home thread)
            (update (kernel.entries (home thread)) page (lazyEntry phys flags)) proc
            (svmr.addr + ofsPages index) = kernel.entries proc (svmr.addr + ofsPages index) := by
          by_cases mine : proc = home thread
          · subst mine
            have other : svmr.addr + ofsPages index ≠ page := fun at_ => here ⟨rfl, at_⟩
            simp [other]
          · simp [mine]
        dsimp only at isPresent atFrame
        rw [same] at isPresent atFrame
        exact ⟨svmr, member, owned, below, isPresent, atFrame⟩
  exact mapped.goto thread .idle trivial

theorem step_coherent (home : Thread → Proc) (ticket : Nat)
    (move : Move (Kernel Proc Thread) (Op Thread))
    (coherent : Coherent home ticket move.before)
      (step : Step home move.before move.label move.after)
    (once : recordsOnce home ticket move = true) : Coherent home ticket move.after := by
  obtain ⟨before, label, after⟩ := move
  dsimp only [Step] at coherent step ⊢
  cases label with
  | fault thread cr2 errorCode =>
    simp only [Kernel.next] at step
    split at step
    · cases step
      exact coherent.fault thread cr2 errorCode
    · cases step
  | run thread =>
    have done : before.run home thread = .ok after := by
      cases result : before.run home thread with
      | error => simp [Kernel.next, result, Except.toOption] at step
      | ok => simpa [Kernel.next, result, Except.toOption] using step
    cases position : before.handlers thread with
    | idle =>
      simp only [Kernel.run, position] at done
      cases done
      exact coherent
    | lookup page flags => exact coherent.lookup position done
    | allocate page flags => exact coherent.allocate position done
    | record page flags phys =>
      refine coherent.record position ?_ done
      intro svmr member owned inside
      simp only [recordsOnce, position, all_eq_true] at once
      simpa [owned, inside] using once svmr member
    | map page => exact coherent.map position done

/-- In a run that records a frame for a page of the ticket only where none is
recorded, all processes that have the page mapped share the recorded frame. -/
theorem stays_shared (home : Thread → Proc) (ticket : Nat) {start last : Kernel Proc Thread}
    {moves : List (Move (Kernel Proc Thread) (Op Thread))} (collected : Collected ticket start)
    (run : Run (Step home) start moves last) (once : ∀ move ∈ moves,
      recordsOnce home ticket move = true) :
    ∀ kernel ∈ visited start moves, StaysShared ticket kernel := by
  have throughout := run_guarded (Coherent home ticket)
      (fun move => recordsOnce home ticket move = true)
    (step_coherent home ticket) run collected.coherent once
  intro kernel member
  exact (throughout kernel member).staysShared

/-- Two processes that collected the one page of ticket 7 at 0x400000, mapped
lazily, and sixteen free frames from 0x10000. -/
def twoCollectors : Kernel Bool Bool where
  pmm := ⟨{ Extmm.State.init "pmm" 0 0 with head := [⟨0x10000, 16⟩] }, 0, 0x5000⟩
  store := fun _ _ => none
  spaces := fun _ => ⟨0, [], [⟨0x400000, 1, 7⟩], fun _ => Extmm.State.init "vmm" 0 0, []⟩
  entries := fun _ page => if page = 0x400000 then 0x5206 else 0
  handlers := fun _ => .idle

theorem twoCollectors_collected : Collected 7 twoCollectors := by
  constructor
  · apply sound_of_single rfl
    · constructor
      · decide
      · decide
      · decide
    · decide
    · rfl
    · rw [free_single rfl]
      decide
  · intro proc
    constructor
    · simp [twoCollectors]
    · simp [twoCollectors]
    · simp [twoCollectors]
  · simp [twoCollectors]
  · simp [twoCollectors]
  · rintro _ index _ ⟨_, member, _, below, isPresent, -⟩
    simp only [twoCollectors, mem_singleton] at member
    subst member
    have zero : index = 0 := by
      apply BitVec.eq_of_toNat_eq
      exact Nat.lt_one_iff.mp below
    rw [zero] at isPresent
    exact absurd isPresent (by decide +revert)

def servedInTurn : List (Op Bool) :=
  [.fault true 0x400000 0, .run true, .run true, .run true, .run true, .fault false 0x400000 0,
    .run false, .run false]

theorem stays_shared_served_in_turn : let trail := trace (Kernel.next id) twoCollectors servedInTurn
    Collected 7 twoCollectors ∧ Run (Step id) twoCollectors trail.1 trail.2 ∧
      trail.1.length = 8 ∧ trail.2.entries false 0x400000 = 0x10007 ∧
      ∀ kernel ∈ visited twoCollectors trail.1, StaysShared 7 kernel := by
  have run : Run (Step id) twoCollectors _ _ :=
    trace_run (Kernel.next id) (fun _ _ _ stepped => stepped) twoCollectors servedInTurn
  exact ⟨twoCollectors_collected, run,
    by decide, by decide, stays_shared id 7 twoCollectors_collected run (by decide)⟩

/-- Both processes fault, look up the page and find no frame; each allocates
one and records it, the second over the first. -/
def racingFaults : List (Op Bool) :=
  [.fault true 0x400000 0, .fault false 0x400000 0, .run true, .run false, .run true, .run false,
    .run true, .run false, .run true, .run false]

theorem racing_faults_split_page : ¬ ∀ (start last : Kernel Bool Bool)
    (moves : List (Move (Kernel Bool Bool) (Op Bool))), Collected 7 start →
      Run (Step id) start moves last →
    ∀ kernel ∈ visited start moves, StaysShared 7 kernel := by
  intro claimed
  let trail := trace (Kernel.next id) twoCollectors racingFaults
  have run : Run (Step id) twoCollectors trail.1 trail.2 :=
    trace_run (Kernel.next id) (fun _ _ _ stepped => stepped) twoCollectors racingFaults
  have shared := claimed _ _ _ twoCollectors_collected run _ (run_last_visited run)
  have first : MapsTo trail.2 7 true 0 0x10000 :=
    ⟨⟨0x400000, 1, 7⟩, by decide, rfl, by decide, by decide, by decide⟩
  have second : MapsTo trail.2 7 false 0 0x11000 :=
    ⟨⟨0x400000, 1, 7⟩, by decide, rfl, by decide, by decide, by decide⟩
  exact absurd (shared 0 true false 0x10000 0x11000 first second).1 (by decide)

end Nx.SharedFaults
