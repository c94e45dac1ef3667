import Nx.BucketCopies
import Nx.FiniteMaps
import Nx.NamedObjects
import Nx.Transitions

/-!
Runs of several hash maps over one memory, next to finite maps.
-/

namespace Nx.BucketRuns

open Outcomes Cells BucketMaps BucketChains BucketGrowth BucketOps BucketCopies FiniteMaps
  Function List
open NamedObjects Transitions

variable {Name Ptr K V : Type}

/-! Commands. -/

inductive Op (K V : Type) where
  | insert (key : K) (value : V)
  /-- The value that `operator []` refers to. -/
  | index (key : K)
  /-- An assignment through `operator []`. -/
  | assign (key : K) (value : V)
  | remove (key : K)
  | clear
  | find (key : K)
  | size
  /-- From `begin` to `end`. -/
  | iterate
  deriving DecidableEq

def Op.allocates : Op K V → Prop
  | .insert _ _ | .index _ | .assign _ _ | .clear => True
  | .remove _ | .find _ | .size | .iterate => False

inductive Result (K V : Type) where
  | done
  | value (value : V)
  | removed (removed : Bool)
  | found (value : Option V)
  | count (count : Nat)
  | entries (entries : List (K × V))
  deriving DecidableEq

inductive Command (Name K V : Type) where
  | construct (target : Name)
  | copyConstruct (target source : Name)
  | perform (target : Name) (op : Op K V)
  deriving DecidableEq

section Programs

variable [DecidableEq Ptr] [DecidableEq K] [Inhabited V] (hash : K → Nat)

def perform (self : HashMap Ptr) : Op K V → Program (Heap Ptr K V) Fault (Result K V × HashMap Ptr)
  | .insert key value => do
    let out ← insert hash self key value
    pure (.done, out.2)
  | .index key => do
    let out ← index hash self key
    let here ← loadBucket out.1
    pure (.value here.value, out.2)
  | .assign key value => do
    let out ← index hash self key
    storeBucket out.1 ({ · with value := value })
    pure (.done, out.2)
  | .remove key => do
    let out ← remove hash self key
    pure (.removed out.1, out.2)
  | .clear => do
    let cleared ← clear hash self
    pure (.done, cleared)
  | .find key => do
    let it ← find hash self key
    match it.node with
    | none => pure (.found none, self)
    | some node => do
      let here ← loadBucket (some node)
      pure (.found (some here.value), self)
  | .size => pure (.count self.cnt, self)
  | .iterate => do
    let entries ← iterate self
    pure (.entries entries, self)

abbrev Maps (Name Ptr K V : Type) := World Name Ptr (Cell Ptr K V) (HashMap Ptr)

def run [DecidableEq Name] : Command Name K V → Program (Maps Name Ptr K V) Fault (Result K V)
  | .construct target => do
    newObject target
    setObject target {}
    pure .done
  | .copyConstruct target source => do
    newObject target
    let other ← getObject source
    let map ← onMemory (copy other)
    setObject target map
    pure .done
  | .perform target op => do
    let map ← getObject target
    let out ← onMemory (perform hash map op)
    setObject target out.2
    pure out.1

def Step [DecidableEq Name] (before : Maps Name Ptr K V) (label : Command Name K V × Result K V)
    (after : Maps Name Ptr K V) : Prop :=
  (run hash label.1).run before = .ok (label.2, after)

end Programs

/-! Finite maps. -/

section Finite

variable [DecidableEq K] [Inhabited V]

inductive Does (map : FiniteMap K V) : Op K V → Result K V → FiniteMap K V → Prop where
  | insert {key value} (absent : key ∉ map) : Does map (.insert key value) .done
      (map.insert key value)
  | index {key value} (isValue : value = (map.lookup key).getD default) :
      Does map (.index key) (.value value) (map.insert key value)
  | assign {key value} : Does map (.assign key value) .done (map.insert key value)
  | remove {key} : Does map (.remove key) (.removed (decide (key ∈ map))) (map.erase key)
  | clear : Does map .clear .done ∅
  | find {key} : Does map (.find key) (.found (map.lookup key)) map
  | size : Does map .size (.count map.keys.card) map
  | iterate {entries} (lists : Lists entries map) : Does map .iterate (.entries entries) map

abbrev Finite (Name K V : Type) := Name → Option (FiniteMap K V)

inductive Finite.Step [DecidableEq Name] (maps : Finite Name K V) :
    Command Name K V × Result K V → Finite Name K V → Prop where
  | construct {target} (absent : maps target = none) :
      Step maps (.construct target, .done) (update maps target (some ∅))
  | copyConstruct {target source map} (absent : maps target = none)
      (there : maps source = some map) :
      Step maps (.copyConstruct target source, .done) (update maps target (some map))
  | perform {target op map result map'} (there : maps target = some map)
      (does : Does map op result map') :
      Step maps (.perform target op, result) (update maps target (some map'))

end Finite

/-! One map. -/

structure Represents (hash : K → Nat) (map : HashMap Ptr) (mem : Heap Ptr K V)
    (chains : List (List (Entry Ptr K V))) (finite : FiniteMap K V) : Prop where
  holds : Holds hash map mem chains
  lists : Lists (chains.flatten.map content) finite

structure Became (hash : K → Nat) (map : HashMap Ptr) (mem : Heap Ptr K V)
    (chains : List (List (Entry Ptr K V))) (turned : HashMap Ptr) (after : Heap Ptr K V)
    (chains' : List (List (Entry Ptr K V))) (finite : FiniteMap K V) : Prop where
  turned : Turned hash map mem chains turned after chains'
  lists : Lists (chains'.flatten.map content) finite

section Operations

variable {hash : K → Nat} {self : HashMap Ptr} {mem : Heap Ptr K V} {key : K} {value : V}
variable {chains : List (List (Entry Ptr K V))} {finite : FiniteMap K V} {failed : Fault → Prop}

theorem Represents.mem_iff (represents : Represents hash self mem chains finite) :
    key ∈ finite ↔ ∃ entry ∈ chains.flatten, entry.key = key := by
  rw [represents.lists.mem_iff, map_map, mem_map]
  rfl

theorem Represents.became (represents : Represents hash self mem chains finite) :
    Became hash self mem chains self mem chains finite :=
  ⟨⟨represents.holds, changed_refl _ _⟩, represents.lists⟩

theorem content_middle (xs ys : List (List (Entry Ptr K V))) (front back : List (Entry Ptr K V))
    (entry : Entry Ptr K V) : ((xs ++ (front ++ entry :: back) :: ys).flatten.map content).Perm
      (content entry :: (xs ++ (front ++ back) :: ys).flatten.map content) :=
  (flatten_insert front back).map content

variable [DecidableEq K]

theorem Represents.lookup (represents : Represents hash self mem chains finite)
    (member : entry ∈ chains.flatten) :
    finite.lookup entry.key = some entry.value :=
  represents.lists.lookup_eq_some.mpr (mem_map.mpr ⟨entry, member, rfl⟩)

theorem find_refined (represents : Represents hash self mem chains finite) (key : K) :
    Ends (find hash self key) mem (fun it same => ((it.node = none ∧ finite.lookup key = none) ∨
        ∃ xs ys front back entry, chains = xs ++ (front ++ entry :: back) :: ys ∧ entry.key = key ∧
          it = ⟨some entry.addr, xs.length⟩ ∧ finite.lookup key = some entry.value) ∧ same = mem)
            failed := by
  apply ends_imp (find_ends represents.holds.stored)
  rintro ⟨_, _⟩ _ ⟨⟨isNode, isIdx⟩, rfl⟩
  refine ⟨?_, rfl⟩
  cases found : latest hash chains key with
  | none =>
    rw [found] at isNode
    refine .inl ⟨isNode, Finmap.lookup_eq_none.mpr ?_⟩
    rw [represents.mem_iff]
    rintro ⟨_, there⟩
    cases found.symm.trans ((latest_iff represents.holds.home represents.holds.keys).mpr there)
  | some entry =>
    obtain ⟨xs, ys, front, back, isChains, place, isKey⟩ := latest_split found
    rw [found] at isNode
    cases isNode
    cases isIdx (Option.some_ne_none _)
    refine .inr ⟨xs, ys, front, back, entry, isChains, isKey, by rw [place]; rfl, ?_⟩
    rw [← isKey]
    exact represents.lookup (by simp [isChains])

variable [DecidableEq Ptr]

section

variable (represents : Represents hash self mem chains finite)
include represents

theorem insert_refined (absent : key ∉ finite) :
    Ends (insert hash self key value) mem (fun out after =>
    ∃ xs ys front back entry, out.1.node = some entry.addr ∧ entry.key = key ∧ entry.value = value ∧
    Became hash self mem chains out.2 after (xs ++ (front ++ entry :: back) :: ys)
      (finite.insert key value))
    (· = .noMemory) := by
  have others : ∀ entry ∈ chains.flatten, entry.key ≠ key := by
    intro entry member isKey
    exact absent (represents.mem_iff.mpr ⟨entry, member, isKey⟩)
  apply ends_imp (insert_ends represents.holds others)
  rintro _ _ ⟨xs, ys, chain, node, isNode, perm, turned⟩
  refine ⟨xs, ys, [], chain, ⟨node, key, value⟩, isNode, rfl, rfl, turned, ?_⟩
  have lists : Lists ((key, value) :: chains.flatten.map content) (finite.insert key value) :=
    represents.lists.insert absent
  exact lists.perm (perm.map content)

theorem index_refined [Inhabited V] : Ends (index hash self key) mem (fun out after =>
    ∃ xs ys front back entry, out.1 = some entry.addr ∧ entry.key = key ∧
    entry.value = (finite.lookup key).getD default ∧
    Became hash self mem chains out.2 after (xs ++ (front ++ entry :: back) :: ys)
      (finite.insert key entry.value))
    (· = .noMemory) := by
  apply ends_read (find_refined represents key)
  rintro _ (⟨node, absent⟩ | ⟨xs, ys, front, back, entry, rfl, isKey, rfl, there⟩)
  · rw [if_pos node]
    apply ends_seq (insert_refined represents (Finmap.lookup_eq_none.mp absent))
    rintro _ _ ⟨xs, ys, front, back, entry, isNode, isKey, isValue, became⟩
    refine ends_pure _ ⟨xs, ys, front, back, entry, isNode, isKey, ?_, ?_⟩
    · rw [absent, isValue]
      rfl
    · rw [isValue]
      exact became
  · rw [if_neg (Option.some_ne_none _)]
    refine ends_pure _ ⟨xs, ys, front, back, entry, rfl, isKey, ?_, ?_⟩
    · rw [there]
      rfl
    · rw [insert_lookup there]
      exact represents.became

theorem remove_refined :
    Ends (remove hash self key) mem (fun out after => out.1 = decide (key ∈ finite) ∧
    ∃ chains', Became hash self mem chains out.2 after chains' (finite.erase key)) failed := by
  apply ends_read (find_refined represents key)
  rintro _ (⟨node, absent⟩ | ⟨xs, ys, front, back, entry, rfl, isKey, rfl, there⟩)
  · have notMem := Finmap.lookup_eq_none.mp absent
    rw [if_pos node]
    refine ends_pure _ ⟨(decide_eq_false notMem).symm, chains, ?_⟩
    rw [erase_absent notMem]
    exact represents.became
  · have member := Finmap.mem_of_lookup_eq_some there
    rw [if_neg (Option.some_ne_none _)]
    apply ends_seq (erase_ends represents.holds.stored)
    rintro _ _ erased
    refine ends_pure _ ⟨(decide_eq_true member).symm, _, erased.turned represents.holds, ?_⟩
    have lists := represents.lists.perm (content_middle xs ys front back entry).symm
    rw [content, isKey] at lists
    exact lists.erase

end

section Performs

variable [Inhabited V]

def Refined (hash : K → Nat) (self : HashMap Ptr) (mem : Heap Ptr K V)
    (chains : List (List (Entry Ptr K V))) (finite : FiniteMap K V) (op : Op K V) : Prop :=
  Ends (perform hash self op) mem (fun out after => ∃ chains' finite',
    Does finite op out.1 finite' ∧
      Became hash self mem chains out.2 after chains' finite')
    (fun fault => fault = .noMemory ∧ op.allocates)

theorem assign_refined (represents : Represents hash self mem chains finite) :
    Refined hash self mem chains finite (.assign key value) := by
  apply ends_call (index_refined represents) (fun _ noMemory => ⟨noMemory, trivial⟩)
  rintro ⟨node, _⟩ _ ⟨xs, ys, front, back, entry, rfl, rfl, _, became⟩
  have node := (linked_back (became.turned.holds.table.linked _ mem_append_cons_self)).1
  refine ends_storeBucket node (ends_pure _
    ⟨xs ++ (front ++ { entry with value := value } :: back) :: ys, _, .assign, ?_, ?_⟩)
  · have revalued := revalued became.turned.holds value
    exact ⟨revalued.holds, became.turned.changed.trans revalued.changed⟩
  · refine Lists.perm ?_ (content_middle xs ys front back { entry with value := value })
    have lists := became.lists.perm (content_middle xs ys front back entry).symm
    rw [← Finmap.insert_insert]
    exact lists.assign

theorem perform_refined (represents : Represents hash self mem chains finite) (op : Op K V)
    (legal : ∀ key value, op = .insert key value → key ∉ finite) :
      Refined hash self mem chains finite op := by
  cases op with
  | insert key value =>
    have absent := legal key value rfl
    apply ends_call (insert_refined represents absent) (fun _ noMemory => ⟨noMemory, trivial⟩)
    rintro _ after ⟨xs, ys, front, back, entry, _, _, _, became⟩
    exact ends_pure _ ⟨_, _, .insert absent, became⟩
  | index key =>
    apply ends_call (index_refined represents) (fun _ noMemory => ⟨noMemory, trivial⟩)
    rintro ⟨node, turned⟩ after ⟨xs, ys, front, back, entry, rfl, _, isValue, became⟩
    have node := (linked_back (became.turned.holds.table.linked _ mem_append_cons_self)).1
    exact ends_loadBucket node (ends_pure _ ⟨_, _, .index isValue, became⟩)
  | assign key => exact assign_refined represents
  | remove key =>
    apply ends_seq (remove_refined represents)
    rintro ⟨_, turned⟩ after ⟨rfl, chains', became⟩
    exact ends_pure _ ⟨chains', _, .remove, became⟩
  | clear =>
    apply ends_call (clear_ends represents.holds) (fun _ noMemory => ⟨noMemory, trivial⟩)
    rintro _ _ ⟨chains', empty, turned⟩
    refine ends_pure _ ⟨chains', ∅, .clear, turned, ?_⟩
    rw [empty]
    exact lists_nil
  | find key =>
    apply ends_read (find_refined represents key)
    rintro _ (⟨node, absent⟩ | ⟨_, _, _, _, _, rfl, rfl, rfl, there⟩)
    · rw [node, ← absent]
      exact ends_pure _ ⟨_, _, .find, represents.became⟩
    · have node := (linked_back (represents.holds.table.linked _ mem_append_cons_self)).1
      apply ends_loadBucket node
      dsimp only
      rw [← there]
      exact ends_pure _ ⟨_, _, .find, represents.became⟩
  | size =>
    have count : self.cnt = finite.keys.card := by
      rw [represents.holds.cnt, represents.lists.card_keys, length_map]
    refine ends_pure _ ⟨chains, finite, ?_, represents.became⟩
    rw [count]
    exact .size
  | iterate =>
    apply ends_read (iterate_ends represents.holds)
    rintro _ rfl
    exact ends_pure _ ⟨_, _, .iterate represents.lists, represents.became⟩

end Performs

end Operations

/-! Several maps. -/

abbrev Shape (Ptr K V : Type) := List (List (Entry Ptr K V)) × FiniteMap K V

def Holding (hash : K → Nat) (map : HashMap Ptr) (mem : Heap Ptr K V) (shape : Shape Ptr K V) :
    Prop :=
  Represents hash map mem shape.1 shape.2

def OwnsCells (map : HashMap Ptr) (shape : Shape Ptr K V) : Ptr → Prop := Owns map.ptr shape.1

theorem framed (hash : K → Nat) :
    Framed (Holding hash : HashMap Ptr → Heap Ptr K V → Shape Ptr K V → Prop) OwnsCells := by
  constructor
  · intro map _ shape _ holding owns
    exact holding.holds.table.live owns
  · intro _ _ _ _ holding same made
    have holds := holding.holds
    exact ⟨⟨holds.buckets, holds.table.congr same, holds.home, holds.keys, holds.cnt,
      holds.bound.trans made⟩, holding.lists⟩

abbrev AllHold (hash : K → Nat) (maps : Maps Name Ptr K V) (shapes : Name → Shape Ptr K V) : Prop :=
  Good (Holding hash) OwnsCells maps shapes

def finites (maps : Maps Name Ptr K V) (shapes : Name → Shape Ptr K V) : Finite Name K V :=
  fun name => (maps.objects name).map fun _ => (shapes name).2

section Worlds

variable {hash : K → Nat} {maps : Maps Name Ptr K V} {shapes : Name → Shape Ptr K V}
variable {target source : Name} {map : HashMap Ptr}

theorem finites_there (there : maps.objects target = some map) :
    finites maps shapes target = some (shapes target).2 := by
  rw [finites, there]
  rfl

theorem finites_absent : finites maps shapes target = none ↔ maps.objects target = none := by
  rw [finites, Option.map_eq_none_iff]

theorem finites_put [DecidableEq Name] {chains : List (List (Entry Ptr K V))} :
    finites (maps.put target map)
    (update shapes target (chains, finite)) = update (finites maps shapes) target
      (some finite) := by
  funext name
  by_cases same : name = target
  · subst same
    simp [finites]
  · simp [finites, update_of_ne same]

theorem has_iff (there : maps.objects target = some map) (addr : Ptr) :
    Has OwnsCells maps shapes target addr ↔ Owns map.ptr (shapes target).1 addr := by
  constructor
  · rintro ⟨_, isMap, owns⟩
    cases there.symm.trans isMap
    exact owns
  · exact fun owns => ⟨map, there, owns⟩

variable [DecidableEq Name] [DecidableEq Ptr] [DecidableEq K] [Inhabited V]

def lacks (hash : K → Nat) (maps : Maps Name Ptr K V) (target : Name) (key : K) : Bool :=
  match maps.objects target with
  | none => true
  | some map =>
    match (find hash map key).run maps.mem with
    | .ok (it, _) => it.node.isNone
    | .error _ => false

def Legal (hash : K → Nat) (maps : Maps Name Ptr K V) : Command Name K V → Prop
  | .perform target (.insert key _) => lacks hash maps target key
  | _ => True

def Misnamed (maps : Finite Name K V) : Command Name K V → Prop
  | .construct target => maps target ≠ none
  | .copyConstruct target source => maps target ≠ none ∨ maps source = none
  | .perform target _ => maps target = none

def Command.allocates : Command Name K V → Prop
  | .construct _ => False
  | .copyConstruct _ _ => True
  | .perform _ op => op.allocates

def InOrder (hash : K → Nat) (maps : Maps Name Ptr K V) (finite : Finite Name K V) : Prop :=
  ∃ shapes, AllHold hash maps shapes ∧ finite = finites maps shapes

def Proceeds (hash : K → Nat) (maps : Maps Name Ptr K V) (finite : Finite Name K V)
    (command : Command Name K V) : Prop :=
  Ends (run hash command) maps
    (fun result after => ∃ next, Finite.Step finite (command, result) next ∧
      InOrder hash after next)
    (fun fault => fault = .noMemory ∧ command.allocates ∨ fault = .access ∧ Misnamed finite command)

omit [DecidableEq Name] [DecidableEq Ptr] [Inhabited V] in
theorem absent_of_lacks (good : AllHold hash maps shapes) (there : maps.objects target = some map)
    (isLacking : lacks hash maps target key) : key ∉ (shapes target).2 := by
  have represents : Represents hash map maps.mem (shapes target).1 (shapes target).2 :=
    good.holds target map there
  obtain ⟨_, _, result, found, _⟩ := ends_exists (find_refined represents key)
  simp only [lacks, there, result, Option.isNone_iff_eq_none] at isLacking
  rcases found with ⟨_, absent⟩ | ⟨_, _, _, _, _, _, _, isIt, _⟩
  · exact Finmap.lookup_eq_none.mp absent
  · rw [isIt] at isLacking
    cases isLacking

theorem construct_proceeds (good : AllHold hash maps shapes) :
    Proceeds hash maps (finites maps shapes) (.construct target) := by
  apply ends_newObject (fun taken => .inr ⟨rfl, fun absent => taken (finites_absent.mp absent)⟩)
  intro there
  refine ends_setObject (ends_pure _ ⟨_, .construct (finites_absent.mpr there),
    update shapes target ([], ∅), ?_, finites_put.symm⟩)
  refine good.update (framed hash) ⟨⟨rfl, ⟨.inl ⟨rfl, rfl⟩, ?_, nodup_nil⟩, ?_, nodup_nil, rfl,
    Nat.zero_le _⟩, lists_nil⟩ ⟨fun _ _ _ => rfl, ?_, le_refl _⟩
  · intro chain listed
    cases listed
  · intro _ _ found
    cases found
  · rintro _ (isTable | member)
    · cases isTable
    · cases member

theorem copyConstruct_proceeds (good : AllHold hash maps shapes) :
    Proceeds hash maps (finites maps shapes) (.copyConstruct target source) := by
  apply ends_newObject (fun taken => .inr ⟨rfl, .inl fun absent =>
    taken (finites_absent.mp absent)⟩)
  intro there
  apply ends_getObject (fun absent => .inr ⟨rfl, .inr (finites_absent.mpr absent)⟩)
  intro other origin
  have represents := good.holds source other origin
  refine ends_onMemory (ends_mono (copy_ends represents.holds) ?_ fun _ noMemory =>
    .inl ⟨noMemory, trivial⟩)
  rintro _ _ ⟨copies, holds, same, fresh, spared⟩
  refine ends_setObject (ends_pure _ ⟨_, .copyConstruct (finites_absent.mpr there)
    (finites_there origin),
    update shapes target (copies, (shapes source).2), ?_, finites_put.symm⟩)
  refine good.update (framed hash) ⟨holds, ?_⟩ ⟨fun addr _ => spared.cells addr, ?_, spared.made⟩
  · rw [same]
    exact represents.lists
  · exact fun addr owns => .inr (fresh addr owns)

theorem perform_proceeds (good : AllHold hash maps shapes) {op : Op K V}
    (legal : Legal hash maps (.perform target op)) : Proceeds hash maps (finites maps shapes)
      (.perform target op) := by
  apply ends_getObject (fun absent => .inr ⟨rfl, finites_absent.mpr absent⟩)
  intro map there
  have represents := good.holds target map there
  have isLegal : ∀ key value, op = .insert key value → key ∉ (shapes target).2 := by
    rintro _ _ rfl
    exact absent_of_lacks good there legal
  refine ends_onMemory (ends_mono (perform_refined represents op isLegal) ?_ fun _ => .inl)
  rintro ⟨_, _⟩ _ ⟨chains, finite, does, became⟩
  refine ends_setObject (ends_pure _ ⟨_, .perform (finites_there there) does,
    update shapes target (chains, finite), ?_, finites_put.symm⟩)
  have changed := became.turned.changed
  refine good.update (framed hash) ⟨became.turned.holds, became.lists⟩ ⟨?_, ?_, changed.made⟩
  · intro addr outside
    exact changed.kept addr fun owns => outside ((has_iff there addr).mpr owns)
  · intro addr owns
    exact (changed.gained addr owns).imp (has_iff there addr).mpr id

theorem inOrder_proceeds (inOrder : InOrder hash maps finite) (command : Command Name K V)
    (legal : Legal hash maps command) : Proceeds hash maps finite command := by
  obtain ⟨_, good, rfl⟩ := inOrder
  cases command with
  | construct target => exact construct_proceeds good
  | copyConstruct target => exact copyConstruct_proceeds good
  | perform => exact perform_proceeds good legal

theorem step_inOrder (move : Move (Maps Name Ptr K V) (Command Name K V × Result K V))
    (finite : Finite Name K V) (inOrder : InOrder hash move.before finite)
    (step : Step hash move.before move.label move.after)
      (legal : Legal hash move.before move.label.1) :
    ∃ next, Finite.Step finite move.label next ∧ InOrder hash move.after next :=
  ends_of_ok (inOrder_proceeds inOrder move.label.1 legal) step

/-- For every hash function, maps to which no key is inserted twice run as finite
maps do, whatever is found, counted and listed. In the end every command goes on so:
it can fail only for lack of memory, or for a map that is not there. -/
theorem hashmap_refines_finmap (hash : K → Nat) (mem : Heap Ptr K V) {last : Maps Name Ptr K V}
    {moves : List (Move (Maps Name Ptr K V) (Command Name K V × Result K V))}
    (run : Run (Step hash) ⟨mem, fun _ => none⟩ moves last)
    (legal : ∀ move ∈ moves, Legal hash move.before move.label.1) :
    ∃ finiteMoves finite, Run Finite.Step (fun _ => none) finiteMoves finite ∧
      finiteMoves.map Move.label = moves.map Move.label ∧ InOrder hash last finite ∧
      ∀ command, Legal hash last command → Proceeds hash last finite command := by
  have start : InOrder hash (⟨mem, fun _ => none⟩ : Maps Name Ptr K V) fun _ => none :=
    ⟨fun _ => ([], ∅), good_start mem _, rfl⟩
  obtain ⟨finiteMoves, finite, finiteRun, labels, inOrder⟩ :=
    run_simulated (InOrder hash) (fun move => Legal hash move.before move.label.1) step_inOrder run
      legal start
  exact ⟨finiteMoves, finite, finiteRun, labels, inOrder, inOrder_proceeds inOrder⟩

def next? [DecidableEq V] (hash : K → Nat) (maps : Maps Name Ptr K V)
    (label : Command Name K V × Result K V) : Option (Maps Name Ptr K V) :=
  answered id ((run hash label.1).run maps) label.2

theorem step_of_next? [DecidableEq V] (hash : K → Nat) (maps : Maps Name Ptr K V)
    (label : Command Name K V × Result K V) (after : Maps Name Ptr K V)
    (moved : next? hash maps label = some after) : Step hash maps label after := by
  obtain ⟨_, done, ⟨⟩⟩ := ok_of_answered moved
  exact done

end Worlds

instance [DecidableEq K] (hash : K → Nat) (maps : Maps Name Ptr K V) (command : Command Name K V) :
    Decidable (Legal hash maps command) := by
  unfold Legal
  split <;> infer_instance

def noMaps : Maps Nat Nat Nat Nat := ⟨⟨fun _ => none, List.range 40, 0⟩, fun _ => none⟩

def filling (key : Nat) : Command Nat Nat Nat × Result Nat Nat :=
  (.perform 0 (.insert key key), .done)

def copying : List (Command Nat Nat Nat × Result Nat Nat) :=
  [(.copyConstruct 1 0, .done), (.perform 1 (.remove 3), .removed true),
    (.perform 0 (.find 3), .found (some 3)), (.perform 1 (.find 3), .found none),
    (.perform 1 .size, .count 10), (.perform 0 (.assign 3 7), .done),
    (.perform 0 (.index 3), .value 7), (.perform 0 .clear, .done),
    (.perform 0 (.index 5), .value 0), (.perform 0 .iterate, .entries [(5, 0)])]

/-- Eleven keys in two chains, which take the table from 16 to 32 buckets, and a copy. -/
def growing : List (Command Nat Nat Nat × Result Nat Nat) :=
  (.construct 0, .done) :: ((List.range 11).map filling ++ copying)

theorem hashmap_refines_finmap_growing : let ran := trace (next? (· % 2)) noMaps growing
    ran.1.length = 22 ∧ ∃ finiteMoves finite, Run Finite.Step (fun _ => none) finiteMoves finite ∧
      finiteMoves.map Move.label = ran.1.map Move.label ∧ InOrder (· % 2) ran.2 finite ∧
      ∀ command, Legal (· % 2) ran.2 command → Proceeds (· % 2) ran.2 finite command := by
  intro ran
  have legal : ∀ move ∈ ran.1, Legal (· % 2) move.before move.label.1 := by decide +kernel
  exact ⟨by decide +kernel, hashmap_refines_finmap _ noMaps.mem (trace_run _ (step_of_next? _) _ _) legal⟩

end Nx.BucketRuns
