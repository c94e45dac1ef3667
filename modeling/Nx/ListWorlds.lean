import Nx.ListCopies

/-!
Runs of several lists. Each command is followed on sequences; the lists that are
not its target come out in order in any case.
-/

namespace Nx.ListWorlds


open Outcomes Cells DoubleLinks LinkedLists ListRefinement Transitions ListTransfers
  ListCopies Function
open Sequences (put Named lookup)

variable {Name Ptr T : Type}

def Empty (world : World Name Ptr T) (name : Name) : Prop :=
  ∀ list, world.lists name = some list → list.cnt = 0
  deriving Decidable

def Careful (world : World Name Ptr T) : Command Name T → Prop
  | .copyConstruct _ source => Empty world source
  | .moveConstruct _ source => Empty world source
  | .copyAssign target source => target = source ∨ Empty world source
  | .moveAssign target source => target = source ∨ Empty world source
  | .clear target => Empty world target
  | _ => True

instance [DecidableEq Name] (world : World Name Ptr T) (command : Command Name T) :
    Decidable (Careful world command) := by
  unfold Careful
  split <;> infer_instance

def written : Command Name T → Option Name
  | .copyConstruct target _ => some target
  | .moveConstruct target _ => some target
  | .copyAssign target _ => some target
  | .moveAssign target _ => some target
  | .clear target => some target
  | _ => none

/-- No memory is left for an operation that makes a node, or for a copy. -/
def Starved (world : World Name Ptr T) (command : Command Name T) (fault : Fault) : Prop :=
  match command with
  | .perform _ op => OutOfMemory world.mem op fault
  | .copyConstruct _ _ | .copyAssign _ _ => fault = .noMemory
  | .construct _ | .moveConstruct _ _ | .moveAssign _ _ | .clear _ | .destroy _ => False

variable [DecidableEq Name] [DecidableEq Ptr]

structure Outcome (world : World Name Ptr T) (items : Name → List (Ptr × T))
    (command : Command Name T)
    (result : Result T) (after : World Name Ptr T) (items' : Name → List (Ptr × T))
      (seqs : Named Name T) : Prop where
  expected : Sequences.run (named world items) command = .ok (result, seqs)
  careful : Careful world command → Good after items' ∧ seqs = named after items'
  others : ∀ target, written command = some target → Good (after.drop target) items' ∧
    ∀ name ≠ target, seqs name = named after items' name
  broken : ¬ Careful world command → (∃ target source, command = .moveAssign target source) ∨
    ∃ target list seq, written command = some target ∧ after.lists target = some list ∧
      seqs target = some seq ∧ ¬ Behaves list after.mem seq

def Followed (world : World Name Ptr T) (items : Name → List (Ptr × T)) (command : Command Name T) :
    Prop :=
  Ends (run command) world (fun result after => ∃ items' seqs,
    Outcome world items command result after items' seqs)
    (fun fault => Starved world command fault ∨
      Sequences.run (named world items) command = .error fault)

variable {seqs : Named Name T} {name : Name}

section Commands

variable {world base : World Name Ptr T} {items items' : Name → List (Ptr × T)}
  {list other : Container Ptr}

theorem outcome_good (careful : Careful world command) (good : Good after items')
    (expected : Sequences.run (named world items) command = .ok (result, named after items')) :
    Outcome world items command result after items' (named after items') :=
  ⟨expected, fun _ => ⟨good, rfl⟩, fun target _ => ⟨good.drop target, fun _ _ => rfl⟩,
    fun careless => absurd careful careless⟩

theorem outcome_target (isWritten : written command = some target)
    (good : Good (base.drop target) items')
    (expected : Sequences.run (named world items) command = .ok (.done, put seqs target seq))
    (same : ∀ name ≠ target, seqs name = named base items' name) (careful : Careful world command →
      seq = [] ∧
    list.head = none ∧ list.cnt = 0) (broken : ¬ Careful world command →
    (∃ target source, command = .moveAssign target source) ∨ ¬ Behaves list base.mem seq) :
    Outcome world items command .done (base.put target list) (update items' target [])
      (put seqs target seq) := by
  have elsewhere : ∀ name ≠ target, put seqs target seq name =
      named (base.put target list) (update items' target []) name := by
    intro name differs
    rw [named_put]
    simp only [put, update_of_ne differs]
    exact same name differs
  have after (list : Container Ptr) (head : list.head = none) (cnt : list.cnt = 0) :
      Good (base.put target list) (update items' target []) := by
    refine good.put ⟨trivial, List.nodup_nil, head, fun nonempty => absurd rfl nonempty, cnt,
      Nat.zero_le _⟩ ?_
    simp
  refine ⟨expected, ?_, ?_, ?_⟩
  · intro isCareful
    obtain ⟨empty, head, cnt⟩ := careful isCareful
    refine ⟨after list head cnt, ?_⟩
    rw [named_put, empty]
    funext name
    by_cases here : name = target
    · subst here
      simp [put]
    · simp only [put, update_of_ne here]
      exact same name here
  · intro _ isName
    cases isWritten.symm.trans isName
    refine ⟨?_, elsewhere⟩
    -- what is in the target makes no difference to the others
    have dropped := (after {} rfl rfl).drop target
    simpa [World.put, World.drop] using dropped
  · intro careless
    rcases broken careless with move | misbehaves
    · exact .inl move
    · exact .inr ⟨target, list, seq, isWritten, by simp [World.put], by simp [put], misbehaves⟩

omit [DecidableEq Name] [DecidableEq Ptr] in
theorem empty_iff (good : Good world items) (there : world.lists source = some other) :
    Empty world source ↔ items source = [] := by
  rw [← (good.holds source other there).empty_iff]
  constructor
  · intro empty
    exact empty other there
  · intro count _ isFound
    cases there.symm.trans isFound
    exact count

omit [DecidableEq Name] [DecidableEq Ptr] in
theorem nonempty_values (good : Good world items) (there : world.lists source = some other)
    (careless : ¬ Empty world source) : values (items source) ≠ [] ∧ (items source).length ≠ 0 := by
  rw [empty_iff good there] at careless
  refine ⟨?_, fun zero => careless (List.length_eq_zero_iff.mp zero)⟩
  intro none
  exact careless (List.map_eq_nil_iff.mp none)

section Reading

variable {β : Type}

omit [DecidableEq Ptr] [DecidableEq Name] in
theorem ends_lookup {next : Container Ptr → Program (World Name Ptr T) Fault β}
    (good : Good world items)
    (absent : lookup (named world items) name = .error .access → failed .access)
    (rest : ∀ list, world.lists name = some list → lookup (named world items) name =
      .ok (values (items name)) →
    Holds list world.mem (items name) → world.lists name ≠ none →
      Ends (next list) world done failed) :
    Ends (getList name >>= next) world done failed := by
  refine ends_bind (ends_get ?_)
  rw [lookup, named] at absent
  cases there : world.lists name with
  | none =>
    rw [there] at absent
    exact ends_throw _ (absent rfl)
  | some list =>
    obtain ⟨found, holds, present⟩ := good.present there
    exact ends_pure _ (rest list there found holds present)

omit [DecidableEq Name] [DecidableEq Ptr] in
theorem ends_vacant (taken : Sequences.absent (named world items) name = .error .access →
    failed .access)
    (rest : world.lists name = none → Ends (next ⟨⟩) world done failed) :
    Ends (newList name >>= next) world done failed := by
  refine ends_bind (ends_get ?_)
  rw [Sequences.absent, named] at taken
  cases there : world.lists name with
  | none => exact ends_pure _ (rest there)
  | some =>
    rw [there] at taken
    exact ends_throw _ (taken rfl)

end Reading

theorem construct_followed (good : Good world items) (target : Name) :
    Followed world items (.construct target) := by
  apply ends_vacant (fun taken => .inr (by rw [Sequences.run, taken]; rfl))
  intro there
  refine ends_setList (ends_pure _ ⟨update items target [], _, outcome_good trivial ?_ ?_⟩)
  · exact (good.drop target).put ⟨trivial, List.nodup_nil, rfl, fun _ => rfl, rfl, Nat.zero_le _⟩
      (by simp)
  · rw [Sequences.run, absent_named there, named_put]
    rfl

theorem copyConstruct_followed (good : Good world items) (target source : Name) :
    Followed world items (.copyConstruct target source) := by
  apply ends_vacant (fun taken => .inr (by rw [Sequences.run, taken]; rfl))
  intro there
  apply ends_lookup good
    (fun absent => .inr (by rw [Sequences.run, absent_named there, absent]; rfl))
  intro _ origin found holds _
  have expected : Sequences.run (named world items) (.copyConstruct target source) =
      .ok (.done, put (named world items) target (values (items source))) := by
    rw [Sequences.run, absent_named there, found]
    rfl
  refine ends_onNodes (ends_mono (clone_ends holds) ?_ fun _ => .inl)
  rintro _ _ ⟨headless, count, spared⟩
  refine ends_setList (ends_pure _ ⟨_, _, outcome_target rfl
    ((good.spared spared).drop target) expected (fun _ _ => rfl) ?_ ?_⟩)
  · intro careful
    have empty := (empty_iff good origin).mp careful
    rw [empty] at count ⊢
    exact ⟨rfl, headless, count⟩
  · intro careless
    obtain ⟨nonempty, counted⟩ := nonempty_values good origin careless
    exact .inr (not_behaves_headless headless (count ▸ counted) nonempty)

theorem copyAssign_followed (good : Good world items) (target source : Name) :
    Followed world items (.copyAssign target source) := by
  apply ends_lookup good (fun absent => .inr (by rw [Sequences.run, absent]; rfl))
  intro list there mine _ present
  apply ends_lookup good (fun absent => .inr (by rw [Sequences.run, mine, absent]; rfl))
  intro _ origin found holds _
  have expected : Sequences.run (named world items) (.copyAssign target source) =
      .ok (.done, put (named world items) target (values (items source))) := by
    rw [Sequences.run, mine, found]
    rfl
  by_cases same : target = source
  · rw [if_pos same]
    refine ends_pure _ ⟨items, _, outcome_good (.inl same) good ?_⟩
    rw [expected, ← same, put_named_self there]
  · rw [if_neg same]
    refine ends_onNodes (ends_mono (clone_ends holds) ?_ fun _ => .inl)
    rintro _ _ ⟨headless, count, spared⟩
    have copied := good.spared spared
    refine ends_onNodes (ends_imp (freeHead_ends (copied.holds target list there)) ?_)
    rintro _ _ within
    refine ends_setList (ends_pure _ ⟨_, _, outcome_target rfl
      (copied.within present within) expected (fun _ _ => rfl) ?_ ?_⟩)
    · rintro (isSame | careful)
      · exact absurd isSame same
      · have empty := (empty_iff good origin).mp careful
        rw [empty] at count ⊢
        exact ⟨rfl, headless, count⟩
    · intro careless
      have isFull : ¬ Empty world source := fun empty => careless (.inr empty)
      obtain ⟨nonempty, counted⟩ := nonempty_values good origin isFull
      exact .inr (not_behaves_headless headless (count ▸ counted) nonempty)

omit [DecidableEq Ptr] in
theorem put_comm (differs : target ≠ source) :
    (world.put target list).put source other = (world.put source other).put target list := by
  simp only [World.put, update_comm differs]

omit [DecidableEq Ptr] in
theorem Good.movedFrom (good : Good (world.drop target) items) (differs : target ≠ source) :
    Good ((world.put source (emptied other)).drop target) (update items source []) := by
  have emptied : Good ((world.drop target).put source (emptied other)) (update items source []) :=
    (good.drop source).put ⟨trivial, List.nodup_nil, rfl, fun nonempty => absurd rfl nonempty, rfl,
      Nat.zero_le _⟩ (by simp)
  simpa only [World.put, World.drop, update_comm differs.symm] using emptied

omit [DecidableEq Ptr] in
theorem named_moved (differs : target ≠ source) (seq : List T) :
    put (put (named world items) target seq) source [] =
      put (named (world.put source list) (update items source [])) target seq := by
  rw [named_put]
  exact update_comm differs _ _ _

section

variable (good : Good world items)
include good

theorem moveConstruct_followed (target source : Name) :
    Followed world items (.moveConstruct target source) := by
  apply ends_vacant (fun taken => .inr (by rw [Sequences.run, taken]; rfl))
  intro there
  apply ends_lookup good
    (fun absent => .inr (by rw [Sequences.run, absent_named there, absent]; rfl))
  intro other origin found holds _
  have differs : target ≠ source := by
    rintro rfl
    cases there.symm.trans origin
  have expected : Sequences.run (named world items) (.moveConstruct target source) =
      .ok (.done, put (named (world.put source (emptied other))
        (update items source [])) target (values (items source))) := by
    rw [Sequences.run, absent_named there, found, ← named_moved differs]
    rfl
  refine ends_setList (ends_setList (ends_pure _ ?_))
  rw [put_comm differs]
  refine ⟨_, _, outcome_target rfl (Good.movedFrom (good.drop target) differs) expected
    (fun _ _ => rfl) ?_ ?_⟩
  · intro careful
    have empty := (empty_iff good origin).mp careful
    rw [holds.head, holds.cnt, empty]
    exact ⟨rfl, rfl, rfl⟩
  · intro careless
    obtain ⟨nonempty, counted⟩ := nonempty_values good origin careless
    exact .inr (not_behaves_tailless rfl (holds.cnt ▸ counted) nonempty)

theorem moveAssign_followed (target source : Name) :
    Followed world items (.moveAssign target source) := by
  apply ends_lookup good (fun absent => .inr (by rw [Sequences.run, absent]; rfl))
  intro _ _ mine holdsMine present
  apply ends_lookup good (fun absent => .inr (by rw [Sequences.run, mine, absent]; rfl))
  intro other origin found holds _
  by_cases same : target = source
  · rw [if_pos same]
    refine ends_pure _ ⟨items, _, outcome_good (.inl same) good ?_⟩
    rw [Sequences.run, mine, found]
    exact if_pos same
  · rw [if_neg same]
    refine ends_onNodes (ends_imp (freeHead_ends holdsMine) ?_)
    rintro _ mem within
    have expected : Sequences.run (named world items) (.moveAssign target source) =
        .ok (.done, put (named ({ world with mem := mem }.put source (emptied other))
          (update items source [])) target (values (items source))) := by
      rw [Sequences.run, mine, found, ← named_moved same]
      exact if_neg same
    refine ends_setList (ends_setList (ends_pure _ ?_))
    rw [put_comm same]
    refine ⟨_, _, outcome_target rfl (Good.movedFrom (good.within present within) same) expected
      (fun _ _ => rfl) ?_ fun _ => .inl ⟨target, source, rfl⟩⟩
    rintro (isSame | careful)
    · exact absurd isSame same
    · have empty := (empty_iff good origin).mp careful
      rw [holds.head, holds.cnt, empty]
      exact ⟨rfl, rfl, rfl⟩

theorem clear_followed (target : Name) : Followed world items (.clear target) := by
  apply ends_lookup good (fun absent => .inr (by rw [Sequences.run, absent]; rfl))
  intro list there mine holds present
  have expected : Sequences.run (named world items) (.clear target) =
      .ok (.done, put (named world items) target []) := by
    rw [Sequences.run, mine]
    rfl
  refine ends_onNodes (ends_imp (clear_ends holds) ?_)
  rintro _ mem ⟨rfl, within, gone⟩
  refine ends_setList (ends_pure _ ⟨_, _, outcome_target rfl (good.within present within) expected
    (fun _ _ => rfl) ?_ ?_⟩)
  · intro careful
    have empty := (empty_iff good there).mp careful
    refine ⟨rfl, ?_, rfl⟩
    rw [holds.head, empty]
    rfl
  · intro careless
    obtain ⟨_, counted⟩ := nonempty_values good there careless
    obtain ⟨item, rest, isCons⟩ : ∃ item rest, items target = item :: rest :=
      List.exists_cons_of_length_pos (Nat.pos_of_ne_zero counted)
    rw [isCons] at gone
    have head : list.head = some item.1 := by
      rw [holds.head, isCons]
      rfl
    have made : mem.made ≠ 0 := by
      have bound := holds.bound.trans within.made
      omega
    exact .inr (not_behaves_dangling head (gone item.1 List.mem_cons_self) made)

theorem destroy_followed (target : Name) : Followed world items (.destroy target) := by
  apply ends_lookup good (fun absent => .inr (by rw [Sequences.run, absent]; rfl))
  intro _ _ mine holds present
  refine ends_onNodes (ends_imp (freeHead_ends holds) ?_)
  rintro _ _ within
  refine ends_get (ends_bind (ends_set _ (ends_pure _
    ⟨items, _, outcome_good trivial (good.within present within) ?_⟩)))
  rw [Sequences.run, mine, named_drop]
  rfl

theorem perform_followed (target : Name) (op : Op T) :
    Followed world items (.perform target op) := by
  apply ends_lookup good (fun absent => .inr (by rw [Sequences.run, absent]; rfl))
  intro _ _ mine holds present
  refine ends_onNodes (ends_mono (perform_refined holds op) ?_ ?_)
  · rintro ⟨_, _⟩ _ ⟨own, turned, same⟩
    have live : ∀ name, world.lists name ≠ none → ∀ addr ∈ addrs (items name),
        world.mem.cells addr ≠ none := by
      intro name isThere addr listed
      obtain ⟨found, isFound⟩ := Option.ne_none_iff_exists'.mp isThere
      obtain ⟨_, isNode⟩ := linked_live (good.holds name found isFound).linked listed
      rw [isNode]
      exact Option.some_ne_none _
    refine ends_setList (ends_pure _
      ⟨update items target own, _, outcome_good trivial (Good.put ?_ turned.holds ?_) ?_⟩)
    · refine good.others ?_ turned.changed.made
      intro name differs isThere addr listed
      exact turned.changed.kept addr (good.apart name target differs isThere present addr listed)
        (live name isThere addr listed)
    · intro name differs isThere addr mineNow others
      rcases turned.changed.gained addr mineNow with before | free
      · exact good.apart target name differs.symm present isThere addr before others
      · exact live name isThere addr others free
    · rw [Sequences.run, mine, named_put]
      change (Sequence.perform _ op >>= _) = _
      rw [same]
      rfl
  · rintro _ (noMemory | aborts)
    · exact .inl noMemory
    · right
      rw [Sequences.run, mine]
      change (Sequence.perform _ op >>= _) = _
      rw [aborts]
      rfl

theorem command_followed (command : Command Name T) : Followed world items command := by
  cases command with
  | construct target => exact construct_followed good target
  | copyConstruct target source => exact copyConstruct_followed good target source
  | moveConstruct target source => exact moveConstruct_followed good target source
  | copyAssign target source => exact copyAssign_followed good target source
  | moveAssign target source => exact moveAssign_followed good target source
  | clear target => exact clear_followed good target
  | destroy target => exact destroy_followed good target
  | perform target op => exact perform_followed good target op

end

end Commands

def Represented (world : World Name Ptr T) (seqs : Named Name T) (name : Name) : Prop :=
  match world.lists name, seqs name with
  | none, none => True
  | some list, some seq => Behaves list world.mem seq
  | _, _ => False

omit [DecidableEq Name] in
theorem represented_of_good {world} {items : Name → List (Ptr × T)}
    (good : Good world items) (same : seqs name = named world items name) :
      Represented world seqs name := by
  rw [Represented, same, named]
  cases there : world.lists name with
  | none => trivial
  | some list => exact behaves_of_holds (good.holds name list there)

theorem represented_drop {world : World Name Ptr T} (differs : name ≠ target) :
    Represented (world.drop target) seqs name ↔ Represented world seqs name := by
  simp only [Represented, World.drop, update_of_ne differs]

def Proceeds (world : World Name Ptr T) (seqs : Named Name T) (command : Command Name T) : Prop :=
  Ends (run command) world (fun result after => ∃ seqs',
    Sequences.Step seqs (command, result) seqs' ∧
      (∀ name, written command ≠ some name → Represented after seqs' name) ∧
      (Careful world command → ∀ name, Represented after seqs' name) ∧
      (¬ Careful world command → (∃ target source, command = .moveAssign target source) ∨
        ∃ target, written command = some target ∧ ¬ Represented after seqs' target))
    (fun fault => Starved world command fault ∨ Sequences.run seqs command = .error fault)

omit [DecidableEq Name] [DecidableEq Ptr] in
theorem careful_of_unwritten (world : World Name Ptr T) (unwritten : written command = none) :
    Careful world command := by
  cases command with
  | construct | destroy | perform => trivial
  | copyConstruct | moveConstruct | copyAssign | moveAssign | clear => cases unwritten

theorem proceeds_of_good {world : World Name Ptr T} {items : Name → List (Ptr × T)}
    (good : Good world items) (command : Command Name T) :
      Proceeds world (named world items) command := by
  apply ends_imp (command_followed good command)
  rintro _ after ⟨_, seqs', outcome⟩
  have whole (careful : Careful world command) (name : Name) : Represented after seqs' name := by
    obtain ⟨goodAfter, same⟩ := outcome.careful careful
    exact represented_of_good goodAfter (congrFun same name)
  refine ⟨seqs', outcome.expected, ?_, whole, ?_⟩
  · intro name notWritten
    cases isWritten : written command with
    | none => exact whole (careful_of_unwritten world isWritten) name
    | some target =>
      have differs : name ≠ target := by
        rintro rfl
        exact notWritten isWritten
      obtain ⟨goodOthers, same⟩ := outcome.others target isWritten
      rw [← represented_drop differs]
      refine represented_of_good goodOthers ((same name differs).trans ?_)
      rw [named_drop, update_of_ne differs]
  · intro careless
    rcases outcome.broken careless with move | ⟨target, _, _, isWritten, there, expected,
      misbehaves⟩
    · exact .inl move
    · refine .inr ⟨target, isWritten, ?_⟩
      rw [Represented, there, expected]
      exact misbehaves

def InOrder (world : World Name Ptr T) (seqs : Named Name T) : Prop :=
  ∃ items, Good world items ∧ seqs = named world items

theorem step_inOrder (move : Move (World Name Ptr T) (Command Name T × Result T))
    (seqs : Named Name T) (inOrder : InOrder move.before seqs)
    (step : Step move.before move.label move.after) (careful : Careful move.before move.label.1) :
    ∃ next, Sequences.Step seqs move.label next ∧ InOrder move.after next := by
  obtain ⟨_, good, rfl⟩ := inOrder
  obtain ⟨items', seqs', outcome⟩ := ends_of_ok (command_followed good move.label.1) step
  exact ⟨seqs', outcome.expected, items', outcome.careful careful⟩

omit [DecidableEq Name] [DecidableEq Ptr] in
theorem inOrder_start (mem : Nodes Ptr T) :
    InOrder (⟨mem, fun _ => none⟩ : World Name Ptr T) fun _ => none := by
  refine ⟨fun _ => [], ⟨?_, ?_⟩, rfl⟩
  · intro name list there
    cases there
  · intro _ _ _ there
    exact absurd rfl there

/-- As long as only empty lists are copied, moved and cleared, every list goes on
exactly as its sequence. The lists that were copied or moved from do in any case;
what a list with elements was copied to or move-constructed to, and what was
cleared, does not. -/
theorem transfers_followed (mem : Nodes Ptr T) {last : World Name Ptr T}
    {moves : List (Move (World Name Ptr T) (Command Name T × Result T))}
    (run : Run Step ⟨mem, fun _ => none⟩ moves last)
      (careful : ∀ move ∈ moves, Careful move.before move.label.1) :
    ∃ seqMoves seqs, Run Sequences.Step (fun _ => none) seqMoves seqs ∧ seqMoves.map Move.label =
      moves.map Move.label ∧
      (∀ name, Represented last seqs name) ∧ ∀ command, Proceeds last seqs command := by
  obtain ⟨seqMoves, _, seqRun, labels, items, good, rfl⟩ :=
    run_simulated InOrder (fun move => Careful move.before move.label.1) step_inOrder run careful
      (inOrder_start mem)
  exact ⟨seqMoves, named last items, seqRun, labels, fun _ => represented_of_good good rfl,
    proceeds_of_good good⟩

def next? [DecidableEq T] (world : World Name Ptr T) (label : Command Name T × Result T) :
    Option (World Name Ptr T) :=
  answered id ((run label.1).run world) label.2

theorem step_of_next? [DecidableEq T] (world : World Name Ptr T) (label : Command Name T × Result T)
    (after : World Name Ptr T) (moved : next? world label = some after) :
      Step world label after := by
  obtain ⟨_, done, ⟨⟩⟩ := ok_of_answered moved
  exact done

def noLists : World Nat Nat String := ⟨⟨fun _ => none, [1, 2, 3, 4], 0⟩, fun _ => none⟩

def passingEmpty : List (Command Nat String × Result String) :=
  [(.construct 0, .done), (.construct 1, .done), (.perform 0 (.append "a"), .done),
    (.copyConstruct 2 1, .done), (.perform 2 (.append "b"), .done), (.moveAssign 0 1, .done),
    (.clear 1, .done), (.perform 0 (.prepend "c"), .done), (.perform 0 .popBack, .value "c")]

theorem transfers_followed_passing_empty : let ran := trace next? noLists passingEmpty
    ran.1.length = 9 ∧ ∃ seqMoves seqs, Run Sequences.Step (fun _ => none) seqMoves seqs ∧
      seqMoves.map Move.label = ran.1.map Move.label ∧
      (∀ name, Represented ran.2 seqs name) ∧ ∀ command, Proceeds ran.2 seqs command := by
  intro ran
  have careful : ∀ move ∈ ran.1, Careful move.before move.label.1 := by decide
  exact ⟨by decide, transfers_followed noLists.mem (trace_run _ step_of_next? _ _) careful⟩

def results : List (Command Name T) → World Name Ptr T → Except Fault (List (Result T))
  | [], _ => .ok []
  | command :: rest, world => do
    let (result, after) ← (run command).run world
    let later ← results rest after
    pure (result :: later)

def Sequences.results : List (Command Name T) → Named Name T → Except Fault (List (Result T))
  | [], _ => .ok []
  | command :: rest, seqs => do
    let (result, after) ← Sequences.run seqs command
    let later ← Sequences.results rest after
    pure (result :: later)

def holding (commands : List (Command Nat String)) : List (Command Nat String) :=
  [.construct 0, .perform 0 (.append "a")] ++ commands

/-- A copy is not there for `popFront`, what was moved not for `popBack`, and what
was cleared is still there for `append`. -/
theorem transferred_list_faults :
    (results (holding [.copyConstruct 1 0, .perform 1 .popFront]) noLists = .error .access ∧
      Sequences.results (holding [.copyConstruct 1 0, .perform 1 .popFront]) (fun _ => none) =
        .ok [.done, .done, .done, .value "a"]) ∧
    (results (holding [.moveConstruct 1 0, .perform 1 .popBack]) noLists = .error .access ∧
      Sequences.results (holding [.moveConstruct 1 0, .perform 1 .popBack]) (fun _ => none) =
        .ok [.done, .done, .done, .value "a"]) ∧
    results (holding [.clear 0, .perform 0 (.append "b")]) noLists = .error .access ∧
      Sequences.results (holding [.clear 0, .perform 0 (.append "b")]) (fun _ => none) =
        .ok [.done, .done, .done, .done] :=
  ⟨⟨rfl, rfl⟩, ⟨rfl, rfl⟩, rfl, rfl⟩

end Nx.ListWorlds
