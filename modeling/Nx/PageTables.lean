import Nx.Virtmap

/-!
What the functions of virtmap.cpp do to a forest of page tables.
-/

namespace Nx.PageTables

open Words Radix Paging Physical Vmregion Machine Virtmap Outcomes Function List

structure Tables (roots : Set Word) (world : World) : Prop where
  forest : paging.Forest world.mem roots
  frames : ∀ root ∈ roots, IsFrame root
  loops : ∀ root ∈ roots, link (world.mem root 510) = some root
  current : world.cr3 ∈ roots
  pmm : world.pmm.Sound
  fresh : ∀ frame, world.pmm.Free frame → ¬ paging.Reached world.mem roots frame

def untracked (space : AddressSpace) : AddressSpace := { space with allocatedPhysPages := [] }

structure Undisturbed (before after : World) : Prop where
  store : after.store = before.store
  current : after.current = before.current
  initPhase : after.initPhase = before.initPhase
  held : after.held = before.held
  zeroPage : after.pmm.zeroPageAddr = before.pmm.zeroPageAddr
  procs : ∀ proc, untracked (after.procs proc) = untracked (before.procs proc)

abbrev Leaves := Word → List Index → Index → Prop

structure Rewrites (roots : Set Word) (changed : Leaves) (cost : Nat) (before after : World) :
    Prop where
  tables : Tables roots after
  entries : ∀ root ∈ roots, ∀ path, paging.Inside path → path.length = 3 → ∀ index,
    ¬ changed root path index →
    paging.lookup after.mem root path index = paging.lookup before.mem root path index
  down : ∀ root ∈ roots, ∀ path, paging.Inside path → path.length ≤ 3 → ∀ table,
    paging.descend before.mem root path = some table →
    paging.descend after.mem root path = some table
  slots : ∀ root ∈ roots, ∀ slot, ¬ paging.own slot → after.mem root slot = before.mem root slot
  data : ∀ frame, ¬ paging.Reached after.mem roots frame → after.mem frame = before.mem frame
  free : ∀ frame, after.pmm.Free frame → before.pmm.Free frame
  reached : ∀ frame, paging.Reached after.mem roots frame →
    paging.Reached before.mem roots frame ∨ before.pmm.Free frame
  supply : before.pmm.supply ≤ after.pmm.supply + cost
  undisturbed : Undisturbed before after

def leafOfPage (root virt : Word) : Leaves := fun other path index =>
  path = tablePath virt ∧ index = indexPageTable virt ∧ (other = root ∨ indexPML4 virt = 511)

def noLeaf : Leaves := fun _ _ _ => False

theorem Undisturbed.refl (world : World) : Undisturbed world world :=
  ⟨rfl, rfl, rfl, rfl, rfl, fun _ => rfl⟩

theorem Undisturbed.trans (left : Undisturbed first second) (right : Undisturbed second third) :
    Undisturbed first third where
  store := right.store.trans left.store
  current := right.current.trans left.current
  initPhase := right.initPhase.trans left.initPhase
  held := right.held.trans left.held
  zeroPage := right.zeroPage.trans left.zeroPage
  procs := fun proc => (right.procs proc).trans (left.procs proc)

variable {before after : World} {table phys flags virt : Word} {path : List Index} {index : Index}
  {mem : Memory}

variable {world : World} {root : Word} {slot : Index}

theorem Undisturbed.theCR3 (undisturbed : Undisturbed before after) (proc : Nat) :
    (after.procs proc).theCR3 = (before.procs proc).theCR3 := by
  have same := congrArg AddressSpace.theCR3 (undisturbed.procs proc)
  exact same

theorem Undisturbed.vmmStates (undisturbed : Undisturbed before after) (proc : Nat) :
    (after.procs proc).vmmStates = (before.procs proc).vmmStates := by
  have same := congrArg AddressSpace.vmmStates (undisturbed.procs proc)
  exact same

theorem Undisturbed.cr3 (undisturbed : Undisturbed before after) : after.cr3 = before.cr3 := by
  rw [World.cr3, World.cr3, undisturbed.current, undisturbed.theCR3]

theorem Tables.isFrame (tables : Tables roots world) :
    IsFrame world.cr3 := tables.frames _ tables.current

theorem Tables.window (tables : Tables roots world) : Window world.mem world.cr3 510 world.cr3 :=
  ⟨tables.loops _ tables.current, tables.loops _ tables.current⟩

theorem root_reached (mem : Memory) (isRoot : root ∈ roots) :
    paging.Reached mem roots root := ⟨root, isRoot, [], inside_nil, Nat.zero_le _, rfl⟩

theorem Rewrites.refl (tables : Tables roots world) : Rewrites roots noLeaf 0 world world where
  tables := tables
  entries := fun _ _ _ _ _ _ _ => rfl
  down := fun _ _ _ _ _ _ there => there
  slots := fun _ _ _ _ => rfl
  data := fun _ _ => rfl
  free := fun _ free => free
  reached := fun _ reached => .inl reached
  supply := le_refl _
  undisturbed := .refl world

theorem Rewrites.still_reached (rewrites : Rewrites roots changed cost before after)
    (reached : paging.Reached before.mem roots frame) : paging.Reached after.mem roots frame := by
  obtain ⟨root, isRoot, path, inside, short, there⟩ := reached
  exact ⟨root, isRoot, path, inside, short, rewrites.down root isRoot path inside short _ there⟩

theorem Rewrites.trans (left : Rewrites roots firstChanged firstCost first second)
    (right : Rewrites roots secondChanged secondCost second third)
    (covers : ∀ root path index, firstChanged root path index ∨ secondChanged root path index →
      changed root path index) : Rewrites roots changed (firstCost + secondCost) first third where
  tables := right.tables
  entries := by
    intro root isRoot path inside length index unchanged
    rw [right.entries root isRoot path inside length index
      (fun touched => unchanged (covers _ _ _ (.inr touched))),
      left.entries root isRoot path inside length index
        (fun touched => unchanged (covers _ _ _ (.inl touched)))]
  down := by
    intro root isRoot path inside short table there
    exact right.down root isRoot path inside short table
      (left.down root isRoot path inside short table there)
  slots := by
    intro root isRoot slot foreign
    rw [right.slots root isRoot slot foreign, left.slots root isRoot slot foreign]
  data := by
    intro frame outside
    rw [right.data frame outside, left.data frame fun reached =>
      outside (right.still_reached reached)]
  free := fun frame free => left.free frame (right.free frame free)
  reached := by
    intro frame reached
    rcases right.reached frame reached with older | free
    · exact left.reached frame older
    · exact .inr (left.free frame free)
  supply := by
    have := left.supply
    have := right.supply
    omega
  undisturbed := left.undisturbed.trans right.undisturbed

theorem Rewrites.window (rewrites : Rewrites roots changed cost before after)
    (current : before.cr3 ∈ roots) (foreign : ¬ paging.own slot) (isRoot : root ∈ roots)
    (window : Window before.mem before.cr3 slot root) : Window after.mem after.cr3 slot root where
  opens := by
    rw [rewrites.undisturbed.cr3, rewrites.slots _ current slot foreign]
    exact window.opens
  loops := by
    rw [rewrites.slots root isRoot slot foreign]
    exact window.loops

/-! A store to a page table. -/

theorem slot_ne_edit (tables : Tables roots world) (isRoot : root ∈ roots)
    (inside : paging.Inside (path ++ [index]))
    (short : path.length ≤ 3) (here : paging.descend world.mem root path = some table)
      (otherRoot : other ∈ roots)
    (foreign : ¬ paging.own slot) : (other, slot) ≠ (table, index) := by
  intro same
  cases same
  obtain ⟨empty, _⟩ := tables.forest.unique root isRoot table otherRoot path [] table
    inside.of_append inside_nil short (Nat.zero_le _) here rfl
  subst empty
  exact foreign (inside index rfl)

theorem store_leaf_rewrites (tables : Tables roots world) (isRoot : root ∈ roots)
    (inside : paging.Inside path) (length : path.length = 3)
    (here : paging.descend world.mem root path = some table) (index : Index) (value : Word) :
    let after : World := { world with
      mem := update world.mem table (update (world.mem table) index value) }
    Rewrites roots (fun other walked at_ => walked = path ∧ at_ = index ∧
        (other = root ∨ path.head? = some 511)) 0 world after ∧
      paging.lookup after.mem root path index = value := by
  intro after
  have pathSome : path ≠ [] := by
    rintro rfl
    cases length
  have edit : paging.Edits world.mem after.mem roots root path index table := by
    constructor
    · exact isRoot
    · exact (inside_append pathSome).mpr inside
    · exact length.le
    · exact here
    · intro seen at_ _ other
      by_cases sameTable : seen = table
      · subst sameTable
        have otherIndex : at_ ≠ index := fun same => other (by rw [same])
        simp [after, otherIndex]
      · simp [after, sameTable]
  have reached := tables.forest.reached_leaf edit length
  constructor
  · constructor
    · constructor
      · exact tables.forest.leaf edit length
      · exact tables.frames
      · intro other otherRoot
        rw [edit.same other 510 (root_reached _ otherRoot)
          (slot_ne_edit tables isRoot edit.inside edit.short here otherRoot (by simp [paging]))]
        exact tables.loops other otherRoot
      · exact tables.current
      · exact tables.pmm
      · intro frame free isTable
        exact tables.fresh frame free ((reached frame).mp isTable)
    · intro other otherRoot walked walkedInside walkedLength _ unchanged
      apply tables.forest.lookup_leaf edit length otherRoot walkedInside walkedLength.le
      intro there same
      obtain ⟨samePath, related⟩ := tables.forest.path_unique edit otherRoot walkedInside
          walkedLength.le there
      exact unchanged ⟨samePath, same, related⟩
    · intro other otherRoot _ walkedInside short _ _
      rwa [tables.forest.descend_leaf edit length otherRoot walkedInside short]
    · intro other otherRoot slot foreign
      exact edit.same other slot (root_reached _ otherRoot)
        (slot_ne_edit tables isRoot edit.inside edit.short here otherRoot foreign)
    · intro frame outside
      have other : frame ≠ table := by
        rintro rfl
        exact outside ((reached frame).mpr edit.reached)
      simp [after, other]
    · exact fun _ free => free
    · intro frame isTable
      exact .inl ((reached frame).mp isTable)
    · exact le_refl _
    · exact ⟨rfl, rfl, rfl, rfl, rfl, fun _ => rfl⟩
  · have still := tables.forest.descend_leaf edit length isRoot inside length.le
    simp only [Shape.lookup, still, here]
    simp [after]

/-! A fresh table linked in. -/

structure TableFlags (flags : Word) : Prop where
  within : flags &&& flagMask = flags
  present : present flags = true
  small : large flags = false
  executable : flags &&& pageNx = 0#64

theorem TableFlags.link (table : TableFlags flags) (frame : IsFrame phys) :
    link (phys ||| flags) = some phys := by
  have small : large (phys ||| flags) = false := by
    rw [large, or_and_flags frame (by decide)]
    exact table.small
  simp [Paging.link, present_or frame, table.present, small, entryFrame_or frame table.within]

theorem link_edits (tables : Tables roots world) (isRoot : root ∈ roots)
    (inside : paging.Inside (path ++ [index]))
    (above : path.length < 3) (here : paging.descend world.mem root path = some table)
      (free : world.pmm.Free phys)
    (written : ∀ other ≠ phys, mem other = update world.mem table
      (update (world.mem table) index value) other) :
    paging.Edits world.mem mem roots root path index table ∧ mem table index = value ∧
    paging.descend mem root path = some table := by
  have notFresh : ∀ seen, paging.Reached world.mem roots seen → seen ≠ phys := by
    rintro seen reached rfl
    exact tables.fresh seen free reached
  have edit : paging.Edits world.mem mem roots root path index table := by
    constructor
    · exact isRoot
    · exact inside
    · exact above.le
    · exact here
    · intro seen at_ reached other
      rw [written seen (notFresh seen reached)]
      by_cases sameTable : seen = table
      · subst sameTable
        have otherIndex : at_ ≠ index := fun same => other (by rw [same])
        simp [otherIndex]
      · simp [sameTable]
  refine ⟨edit, ?_, ?_⟩
  · rw [written table (notFresh table edit.reached)]
    simp
  · rw [tables.forest.descend_away edit isRoot inside.of_append edit.short, here]
    intro _ split
    have lengths := congrArg List.length split
    simp at lengths

theorem link_translates {roots} {world} (tables : Tables roots world)
    {root table phys flags} {path} {index slot} (isRoot : root ∈ roots)
    (inside : paging.Inside (path ++ [index])) (above : path.length < 3)
    (here : paging.descend world.mem root path = some table) (free : world.pmm.Free phys)
    (tableFlags : TableFlags flags) (foreign : ¬ paging.own slot)
      (window : Window world.mem world.cr3 slot root) {mem}
    (written : ∀ other ≠ phys, mem other = update world.mem table
      (update (world.mem table) index (phys ||| flags)) other) :
    translate mem world.cr3 (tableAddr slot path) = some table ∧
      translate mem world.cr3 (tableAddr slot (path ++ [index])) = some phys := by
  obtain ⟨edit, value, still⟩ := link_edits tables isRoot inside above here free written
  have unmoved : ∀ other ∈ roots, mem other slot = world.mem other slot := by
    intro other otherRoot
    exact edit.same other slot (root_reached _ otherRoot)
      (slot_ne_edit tables isRoot inside above.le here otherRoot foreign)
  have windowAfter : Window mem world.cr3 slot root := by
    constructor
    · rw [unmoved _ tables.current]
      exact window.opens
    · rw [unmoved root isRoot]
      exact window.loops
  constructor
  · exact windowAfter.translate_tableAddr tables.isFrame above.le still
  · apply windowAfter.translate_tableAddr tables.isFrame
    · rw [length_append, length_singleton]
      exact above
    · rw [descend_snoc index still, value]
      exact tableFlags.link (tables.pmm.isFrame free)

theorem link_rewrites (tables : Tables roots before) (isRoot : root ∈ roots)
    (inside : paging.Inside (path ++ [index])) (above : path.length < 3)
    (here : paging.descend before.mem root path = some table)
    (missing : present (before.mem table index) = false) (tableFlags : TableFlags flags)
    (takes : Takes before.pmm after.pmm phys) (undisturbed : Undisturbed before after)
    (memory : after.mem = update (update before.mem table
      (update (before.mem table) index (phys ||| flags))) phys fun _ => 0) :
    Rewrites roots noLeaf 1 before after ∧ paging.descend after.mem root (path ++ [index]) =
      some phys := by
  have written : ∀ other ≠ phys, after.mem other = update before.mem table
      (update (before.mem table) index (phys ||| flags)) other := by
    intro other differs
    rw [memory, update_of_ne differs]
  obtain ⟨edit, value, still⟩ := link_edits tables isRoot inside above here takes.wasFree written
  have links : paging.Links before.mem after.mem roots root path index table phys := by
    refine ⟨edit, above, ?_, ?_, tables.fresh phys takes.wasFree, ?_⟩
    · show link (before.mem table index) = none
      simp [Paging.link, missing]
    · rw [value]
      exact tableFlags.link (tables.pmm.isFrame takes.wasFree)
    · intro at_
      rw [memory, update_self]
      rfl
  have reached := tables.forest.reached_link links
  have unmoved : ∀ other ∈ roots, ∀ slot, ¬ paging.own slot → after.mem other slot =
      before.mem other slot := by
    intro other otherRoot slot foreign
    exact edit.same other slot (root_reached _ otherRoot)
      (slot_ne_edit tables isRoot inside above.le here otherRoot foreign)
  constructor
  · constructor
    · constructor
      · exact tables.forest.link links
      · exact tables.frames
      · intro other otherRoot
        rw [unmoved other otherRoot 510 (by simp [paging])]
        exact tables.loops other otherRoot
      · rw [undisturbed.cr3]
        exact tables.current
      · exact takes.sound
      · intro frame free isTable
        obtain ⟨wasFree, other⟩ := (takes.free frame).mp free
        rcases (reached frame).mp isTable with older | same
        · exact tables.fresh frame wasFree older
        · exact other same
    · intro other otherRoot walked walkedInside length at_ _
      exact tables.forest.lookup_link links otherRoot walkedInside length at_
    · intro _ otherRoot _ walkedInside short seen there
      exact (tables.forest.descend_link links otherRoot walkedInside short seen).mpr (.inl there)
    · exact unmoved
    · intro frame outside
      have notFresh : frame ≠ phys := fun same => outside ((reached frame).mpr (.inr same))
      have notTable : frame ≠ table := by
        rintro rfl
        exact outside ((reached frame).mpr (.inl edit.reached))
      rw [written frame notFresh, update_of_ne notTable]
    · exact fun frame free => ((takes.free frame).mp free).1
    · intro frame isTable
      rcases (reached frame).mp isTable with older | rfl
      · exact .inl older
      · exact .inr takes.wasFree
    · exact takes.supply.le
    · exact undisturbed
  · rw [descend_snoc index still, value]
    exact tableFlags.link (tables.pmm.isFrame takes.wasFree)

/-! The functions. -/

theorem allocPhysTracked_ends {proc} (sound : world.pmm.Sound) :
    Ends (allocPhysTracked proc) world (fun phys after =>
    after.mem = world.mem ∧ Takes world.pmm after.pmm phys ∧ Undisturbed world after) (fun _ =>
    world.pmm.supply = 0) := by
  apply ends_seq (pmmAllocate_ends sound fun _ empty => empty)
  rintro phys _ ⟨moved, takes⟩
  have nonzero : phys ≠ 0 := sound.ne_zero takes.wasFree
  apply assertThat_then (by simpa using nonzero)
  apply ends_get
  apply ends_put
  apply ends_pure
  split
  · rw [moved]
    refine ⟨rfl, takes, rfl, rfl, rfl, rfl, takes.zeroPage, ?_⟩
    intro other
    by_cases same : other = proc
    · subst same
      simp [World.setProc, untracked]
    · simp [World.setProc, same]
  · rw [moved]
    exact ⟨rfl, takes, rfl, rfl, rfl, rfl, takes.zeroPage, fun _ => rfl⟩

theorem Rewrites.cheaper (rewrites : Rewrites roots changed cost before after)
    (cheap : cost ≤ bound)
    (covers : ∀ root path index, changed root path index → wider root path index) :
    Rewrites roots wider bound before after :=
  { rewrites with
    entries := fun root isRoot path inside length index unchanged =>
      rewrites.entries root isRoot path inside length index fun touched =>
        unchanged (covers _ _ _ touched)
    supply := rewrites.supply.trans (Nat.add_le_add_left cheap _) }

theorem ensureTable_ends (tables : Tables roots world) (isRoot : root ∈ roots)
    (foreign : ¬ paging.own slot)
    (window : Window world.mem world.cr3 slot root) (virt : Word) (proc : Nat) (level : Level)
      (path : List Index)
    (index : Index) (inside : paging.Inside (path ++ [index])) (above : path.length < 3)
    (here : paging.descend world.mem root path = some table) (tableFlags : TableFlags flags) :
    Ends (ensureTable virt proc flags (tableAddr slot path) index (tableAddr slot (path ++ [index]))
      level) world
    (fun _ after => Rewrites roots noLeaf 1 world after ∧
    ∃ next, paging.descend after.mem root (path ++ [index]) = some next)
      (fun _ => world.pmm.supply = 0) := by
  apply load_then (window.translate_tableAddr tables.isFrame above.le here)
  split
  · rename_i there
    obtain ⟨next, linked⟩ := tables.forest.linked root isRoot path index table inside above
        here there
    apply ends_pure
    refine ⟨(Rewrites.refl tables).cheaper (Nat.zero_le 1) (fun _ _ _ none => none), next, ?_⟩
    rw [descend_snoc index here]
    exact linked
  · rename_i missing
    rw [Bool.not_eq_true] at missing
    apply ends_seq (allocPhysTracked_ends tables.pmm)
    rintro phys middle ⟨memory, takes, undisturbed⟩
    apply assertThat_then (by simpa using tables.pmm.ne_zero takes.wasFree)
    have cr3 := undisturbed.cr3
    have upper : translate middle.mem middle.cr3 (tableAddr slot path) = some table := by
      rw [memory, cr3]
      exact window.translate_tableAddr tables.isFrame above.le here
    apply ends_seq (store_ends upper)
    rintro _ linked stored
    have sameCr3 : linked.cr3 = world.cr3 := by
      rw [stored]
      exact cr3
    have linkedMem : linked.mem = update world.mem table
        (update (world.mem table) index (phys ||| flags)) := by
      rw [stored, memory]
    have seen := fun (mem : Memory) => @link_translates roots world tables root table phys flags
      path index slot isRoot inside above here takes.wasFree tableFlags foreign window mem
    have firm : MapsFirmly linked (tableAddr slot (path ++ [index])) phys := by
      intro mem written
      rw [sameCr3]
      apply (seen mem _).2
      intro other differs
      rw [written other differs, linkedMem]
    apply ends_seq (clearPage_ends firm)
    rintro _ after cleared
    have afterMem : after.mem = update (update world.mem table
        (update (world.mem table) index (phys ||| flags))) phys fun _ => 0 := by
      rw [cleared, linkedMem]
    have afterUndisturbed : Undisturbed world after := by
      rw [cleared, stored]
      exact ⟨undisturbed.store, undisturbed.current, undisturbed.initPhase, undisturbed.held,
        undisturbed.zeroPage, undisturbed.procs⟩
    have afterTakes : Takes world.pmm after.pmm phys := by
      rw [cleared, stored]
      exact takes
    have again : translate after.mem after.cr3 (tableAddr slot path) = some table := by
      rw [afterUndisturbed.cr3]
      apply (seen after.mem _).1
      intro _ differs
      rw [afterMem, update_of_ne differs]
    obtain ⟨rewrites, down⟩ := link_rewrites tables isRoot inside above here missing tableFlags
      afterTakes afterUndisturbed afterMem
    have value : after.mem table index &&& pageNx = 0#64 := by
      have notFresh : table ≠ phys := by
        rintro rfl
        exact tables.fresh table takes.wasFree ⟨root, isRoot, path, inside.of_append,
          above.le, here⟩
      rw [afterMem, update_of_ne notFresh, update_self, update_self,
        or_and_flags (tables.pmm.isFrame takes.wasFree) (by decide)]
      exact tableFlags.executable
    apply load_then again
    refine ends_imp (refuse_ends ?_) ?_
    · intro refused
      rw [value] at refused
      exact absurd refused (by decide)
    · rintro _ _ ⟨_, rfl⟩
      exact ⟨rewrites, phys, down⟩

theorem entryAt_of_descend (down : paging.descend mem root (tablePath virt) = some table) :
    entryAt mem root virt = mem table (indexPageTable virt) := by
  simp only [entryAt, Shape.lookup, down]

theorem inside_of_own (own : paging.own (indexPML4 virt)) (rest : List Index) :
    paging.Inside (indexPML4 virt :: rest) := by
  intro _ head
  cases head
  exact own

theorem store_page_rewrites (tables : Tables roots world) (isRoot : root ∈ roots)
    (own : paging.own (indexPML4 virt)) (down : paging.descend world.mem root (tablePath virt) =
      some table)
    (stored : after = { world with
      mem := update world.mem table (update (world.mem table) (indexPageTable virt) value) }) :
    Rewrites roots (leafOfPage root virt) 0 world after ∧ entryAt after.mem root virt = value := by
  obtain ⟨rewrites, written⟩ := store_leaf_rewrites tables isRoot (inside_of_own own _) rfl down
    (indexPageTable virt) value
  subst stored
  refine ⟨rewrites.cheaper le_rfl ?_, written⟩
  rintro _ _ _ ⟨samePath, sameIndex, related⟩
  refine ⟨samePath, sameIndex, related.imp_right fun head => ?_⟩
  simpa [tablePath] using head

theorem defaultFlags_table (index : Index) :
    TableFlags (if 255 < index then pageWrite ||| pagePresent
      else pageUser ||| pageWrite ||| pagePresent) := by
  split
  · constructor <;> decide
  · constructor <;> decide

inductive MapRefused (world : World) (root virt flags : Word) (overwrite : Bool) : Prop where
  | reserved (slot : ¬ paging.own (indexPML4 virt))
  | highUser (high : 255 < indexPML4 virt) (user : flags &&& pageUser ≠ 0)
  | mapped (keep : overwrite = false) (there : present (entryAt world.mem root virt) = true)
  | exhausted (few : world.pmm.supply < 3)

theorem mapThrough_ends (tables : Tables roots world) (isRoot : root ∈ roots)
    (foreign : ¬ paging.own slot)
    (window : Window world.mem world.cr3 slot root) (virt phys flags : Word) (proc : Nat)
      (overwrite : Bool) :
    Ends (mapThrough slot virt phys flags proc overwrite) world (fun _ after =>
    Rewrites roots (leafOfPage root virt) 3 world after ∧ paging.own (indexPML4 virt) ∧
    (255 < indexPML4 virt → flags &&& pageUser = 0) ∧
    (overwrite = false → present (entryAt world.mem root virt) = false) ∧
      entryAt after.mem root virt = phys ||| flags)
    (fun _ => MapRefused world root virt flags overwrite) := by
  apply refuse_then
  · intro reserved
    apply MapRefused.reserved
    simp only [Bool.or_eq_true, beq_iff_eq] at reserved
    rintro ⟨not509, not510⟩
    exact reserved.elim not510 not509
  intro allowed
  have own : paging.own (indexPML4 virt) := by
    simp only [Bool.or_eq_false_iff, beq_eq_false_iff_ne] at allowed
    exact ⟨allowed.2, allowed.1⟩
  have tableFlags := defaultFlags_table (indexPML4 virt)
  apply refuse_then
  · intro refused
    simp only [Bool.and_eq_true, decide_eq_true_eq, bne_iff_ne] at refused
    exact MapRefused.highUser refused.1 refused.2
  intro lowOrPrivate
  have user : 255 < indexPML4 virt → flags &&& pageUser = 0 := by simpa using lowOrPrivate
  have current := tables.current
  apply ends_call (ensureTable_ends tables isRoot foreign window virt proc .pdpt []
    (indexPML4 virt) (inside_of_own own []) (by simp) rfl tableFlags)
  · intro _ empty
    exact MapRefused.exhausted (by omega)
  rintro _ _ ⟨toFirst, _, firstDown⟩
  have firstWindow := toFirst.window current foreign isRoot window
  apply ends_call (ensureTable_ends toFirst.tables isRoot foreign firstWindow virt proc
    .pdir [indexPML4 virt] (indexPDPT virt) (inside_of_own own _) (by simp) firstDown tableFlags)
  · intro _ empty
    have spent := toFirst.supply
    exact MapRefused.exhausted (by omega)
  rintro _ _ ⟨toSecond, _, secondDown⟩
  have secondWindow := toSecond.window toFirst.tables.current foreign isRoot firstWindow
  apply ends_call (ensureTable_ends toSecond.tables isRoot foreign secondWindow virt proc
    .ptab [indexPML4 virt, indexPDPT virt] (indexPageDir virt) (inside_of_own own _) (by simp)
    secondDown tableFlags)
  · intro _ _
    have spent := toFirst.supply
    have spentToo := toSecond.supply
    exact MapRefused.exhausted (by omega)
  rintro _ third ⟨toThird, ptab, thirdDown⟩
  have thirdWindow := toThird.window toSecond.tables.current foreign isRoot secondWindow
  have whole : Rewrites roots noLeaf (1 + 1 + 1) world third :=
    (toFirst.trans toSecond (fun _ _ _ touched => touched.elim id id)).trans toThird
      (fun _ _ _ touched => touched.elim id id)
  have maps := thirdWindow.translate_tableAddr toThird.tables.isFrame (by simp) thirdDown
  have entry : third.mem ptab (indexPageTable virt) = entryAt world.mem root virt := by
    rw [← entryAt_of_descend thirdDown]
    exact whole.entries root isRoot _ (inside_of_own own _) rfl _ id
  apply load_then maps
  apply refuse_then
  · intro refused
    rw [entry] at refused
    simp only [Bool.and_eq_true, Bool.not_eq_true'] at refused
    exact MapRefused.mapped refused.1 refused.2
  intro absent
  rw [entry] at absent
  apply ends_imp (store_ends maps)
  intro _ _ stored
  obtain ⟨written, value⟩ := store_page_rewrites toThird.tables isRoot own thirdDown stored
  refine ⟨whole.trans written (fun _ _ _ touched => touched.elim False.elim id), own, user,
    ?_, value⟩
  intro keep
  simpa [keep] using absent

inductive Leaf (world : World) (root virt : Word) : Except Level Word → Prop where
  | missing (level : Level) (zero : entryAt world.mem root virt = 0) :
      Leaf world root virt (.error level)
  | found {table : Word} (down : paging.descend world.mem root (tablePath virt) = some table) :
      Leaf world root virt (.ok (world.mem table (indexPageTable virt)))

theorem entryAt_missing (split : tablePath virt = path ++ index :: rest)
    (here : paging.descend mem root path = some table)
      (missing : present (mem table index) = false) :
    entryAt mem root virt = 0 := by
  have unlinked : paging.link (mem table index) = none := by
    simp [paging, link, missing]
  have none : paging.descend mem root (tablePath virt) = none := by
    rw [split, descend_append, here]
    simp [Shape.descend, unlinked]
  simp only [entryAt, Shape.lookup, none]
  rfl

def Walkable (mem : Memory) (root virt : Word) : Prop :=
  ∀ path index rest table, tablePath virt = path ++ index :: rest →
    paging.descend mem root path = some table → present (mem table index) = true →
    ∃ next, paging.descend mem root (path ++ [index]) = some next

theorem walkable_of_own (tables : Tables roots world) (isRoot : root ∈ roots)
    (own : paging.own (indexPML4 virt)) : Walkable world.mem root virt := by
  intro path index _ table split here there
  have lengths := congrArg List.length split
  simp only [tablePath, length_append, length_cons, length_nil] at lengths
  have inside : paging.Inside (path ++ [index]) := by
    intro first head
    have whole : (tablePath virt).head? = some first := by
      rw [split, append_cons, List.head?_append, head]
      rfl
    cases whole
    exact own
  have above : path.length < 3 := by omega
  obtain ⟨next, linked⟩ := tables.forest.linked root isRoot path index table inside above here there
  exact ⟨next, by rw [descend_snoc index here, linked]⟩

theorem leafThrough_ends (isFrame : IsFrame world.cr3)
    (window : Window world.mem world.cr3 slot root) (walkable : Walkable world.mem root virt)
      (failed : Abort → Prop) :
    Ends (leafThrough slot virt) world (fun found after => Leaf world root virt found ∧
      after = world) failed := by
  have seen : ∀ path table, path.length ≤ 3 → paging.descend world.mem root path = some table →
      translate world.mem world.cr3 (tableAddr slot path) = some table :=
    fun _ _ short down => window.translate_tableAddr isFrame short down
  have atRoot : paging.descend world.mem root [] = some root := rfl
  apply load_then (seen [] root (by simp) atRoot)
  split
  · rename_i missing
    exact ends_pure _ ⟨.missing _ (entryAt_missing rfl atRoot (by simpa using missing)), rfl⟩
  rename_i there
  obtain ⟨pdpt, firstDown⟩ := walkable [] _ _ root rfl atRoot (by simpa using there)
  apply load_then (seen [indexPML4 virt] pdpt (by simp) firstDown)
  split
  · rename_i missing
    exact ends_pure _ ⟨.missing _ (entryAt_missing rfl firstDown (by simpa using missing)), rfl⟩
  rename_i there
  obtain ⟨pdir, secondDown⟩ := walkable [indexPML4 virt] _ _ pdpt rfl firstDown
      (by simpa using there)
  apply load_then (seen [indexPML4 virt, indexPDPT virt] pdir (by simp) secondDown)
  split
  · rename_i missing
    exact ends_pure _ ⟨.missing _ (entryAt_missing rfl secondDown (by simpa using missing)), rfl⟩
  rename_i there
  obtain ⟨ptab, thirdDown⟩ := walkable [indexPML4 virt, indexPDPT virt] _ [] pdir rfl secondDown
      (by simpa using there)
  apply load_then (seen (tablePath virt) ptab (by simp [tablePath]) thirdDown)
  exact ends_pure _ ⟨.found thirdDown, rfl⟩

theorem unmapThrough_ends (tables : Tables roots world) (isRoot : root ∈ roots)
    (window : Window world.mem world.cr3 slot root) (base : Word)
      (own : paging.own (indexPML4 virt)) (ignore : Bool) :
    Ends (unmapThrough slot base virt ignore) world (fun _ after =>
    Rewrites roots (leafOfPage root virt) 0 world after ∧ present (entryAt after.mem root virt) =
      false) (fun _ =>
    present (entryAt world.mem root virt) = false) := by
  have same : present (entryAt world.mem root virt) = false →
      Rewrites roots (leafOfPage root virt) 0 world world ∧
        present (entryAt world.mem root virt) = false :=
    fun absent => ⟨(Rewrites.refl tables).cheaper le_rfl (fun _ _ _ none => none.elim), absent⟩
  apply refuse_then
  · intro reserved
    exact absurd (beq_iff_eq.mp reserved) own.2
  intro _
  apply ends_read (leafThrough_ends tables.isFrame window (walkable_of_own tables isRoot own) _)
  intro found leaf
  cases leaf with
  | missing _ zero =>
    have absent : present (entryAt world.mem root virt) = false := by
      rw [zero]
      rfl
    apply ends_imp (refuse_ends fun _ => absent)
    rintro _ _ ⟨_, rfl⟩
    exact same absent
  | @found _ down =>
    have maps := window.translate_tableAddr tables.isFrame (by simp [tablePath]) down
    have entry := entryAt_of_descend down
    dsimp only
    split
    · rename_i missing
      rw [← entry] at missing
      have absent : present (entryAt world.mem root virt) = false := by simpa using missing
      split
      · exact ends_pure _ (same absent)
      · split
        · -- a copy-on-write mark without a page is taken away
          apply ends_imp (store_ends maps)
          intro _ after stored
          obtain ⟨rewrites, value⟩ := store_page_rewrites tables isRoot own down stored
          refine ⟨rewrites, ?_⟩
          rw [value, ← entry]
          exact present_and absent _
        · exact ends_throw _ absent
    · apply ends_imp (store_ends maps)
      intro _ _ stored
      obtain ⟨rewrites, value⟩ := store_page_rewrites tables isRoot own down stored
      exact ⟨rewrites, by rw [value]; rfl⟩

end Nx.PageTables
