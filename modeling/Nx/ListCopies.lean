import Nx.ListTransfers

/-!
What is left of a list after it was copied, moved or cleared. As long as only empty lists are, every
list goes on as its sequence does.
-/

namespace Nx.ListCopies

open Outcomes Cells DoubleLinks LinkedLists ListRefinement ListTransfers Function Option Sequences

variable {Name Ptr T α β : Type} {mem : Nodes Ptr T} {world : World Name Ptr T}

/-! How a list goes on. -/

/-- Some operations, one after the other, show on a list what they show on a
sequence. Nothing follows an abort; and nothing is asked once memory is out. -/
def Matches [DecidableEq Ptr] : List (Op T) → Container Ptr → Nodes Ptr T → List T → Prop
  | [], _, _, _ => True
  | op :: rest, list, mem, seq =>
    match (perform list op).run mem, Sequence.perform seq op with
    | .error fault, .error expected => OutOfMemory mem op fault ∨ fault = expected
    | .error fault, .ok _ => OutOfMemory mem op fault
    | .ok _, .error _ => False
    | .ok ((result, list'), mem'), .ok (expected, seq') =>
      result = expected ∧ Matches rest list' mem' seq'

def Behaves [DecidableEq Ptr] (list : Container Ptr) (mem : Nodes Ptr T) (seq : List T) : Prop :=
  ∀ ops, Matches ops list mem seq

section Behaviour

variable [DecidableEq Ptr] {list : Container Ptr}

theorem behaves_of_holds (holds : Holds list mem items) : Behaves list mem (values items) := by
  intro ops
  induction ops generalizing list mem items with
  | nil => trivial
  | cons op _ ih =>
    rw [Matches]
    cases perform_refined holds op with
    | @normal out _ result matched =>
      obtain ⟨_, turned, same⟩ := matched
      rw [result, same]
      exact ⟨rfl, ih turned.holds⟩
    | @aborted _ result matched =>
      rw [result]
      cases expected : Sequence.perform (values items) op with
      | error =>
        rcases matched with noMemory | same
        · exact .inl noMemory
        · rw [expected] at same
          cases same
          exact .inr rfl
      | ok =>
        rcases matched with noMemory | same
        · exact noMemory
        · rw [expected] at same
          cases same

theorem not_behaves (op : Op T) (faults : Ends (perform list op) mem (fun _ _ => False)
    (· = .access))
    (expected : Sequence.perform seq op = .ok out) : ¬ Behaves list mem seq := by
  intro behaves
  have first := behaves [op]
  rw [Matches, expected] at first
  cases faults with
  | normal result holds => exact holds
  | aborted result access =>
    rw [result, access] at first
    cases first.1

theorem not_behaves_headless (headless : list.head = none) (counted : list.cnt ≠ 0)
    (nonempty : seq ≠ []) : ¬ Behaves list mem seq := by
  cases seq with
  | nil => exact absurd rfl nonempty
  | cons =>
    refine not_behaves .popFront ?_ rfl
    rw [perform, popFront, if_neg counted, headless]
    exact ends_bind (ends_load_dead rfl rfl)

theorem not_behaves_tailless (tailless : list.tail = none) (counted : list.cnt ≠ 0)
    (nonempty : seq ≠ []) : ¬ Behaves list mem seq := by
  rcases List.eq_nil_or_concat seq with rfl | ⟨front, val, rfl⟩
  · exact absurd rfl nonempty
  · have expected : Sequence.perform (front.concat val) .popBack = .ok (.value val, front) := by
      simp [Sequence.perform, Sequence.popBack]
    refine not_behaves .popBack ?_ expected
    rw [perform, popBack, if_neg counted, tailless]
    exact ends_bind (ends_load_dead rfl rfl)

theorem not_behaves_dangling {addr} (head : list.head = some addr)
    (freed : mem.cells addr = none) (made : mem.made ≠ 0) : ¬ Behaves list mem seq := by
  refine not_behaves .iterate ?_ rfl
  obtain ⟨_, isFuel⟩ := Nat.exists_eq_succ_of_ne_zero made
  rw [perform, Container.begin, head, iterate]
  refine ends_bind (ends_get ?_)
  rw [isFuel]
  exact ends_load_dead freed rfl

end Behaviour

/-! The loops of `clone` and `clear`. -/

section Loops

variable {start : Nodes Ptr T}

theorem linked_spared (spared : Spared start mem) (linked : Linked start.cells before items after) :
    Linked mem.cells before items after := by
  refine linked_congr ?_ linked
  intro addr listed
  obtain ⟨_, live⟩ := linked_live linked listed
  apply spared.cells addr
  rw [live]
  exact some_ne_none _

variable [DecidableEq Ptr]

theorem cloneLoop_ends {dst} (linked : Linked start.cells before items none)
    (enough : items.length ≤ fuel)
    (spared : Spared start mem) (new : ∀ addr, dst = some addr → start.cells addr = none ∧
      mem.cells addr ≠ none) :
    Ends (cloneLoop fuel (first items none) dst none) mem (fun ends after => ends.2 = none ∧
      Spared start after)
    (· = .noMemory) := by
  induction items generalizing mem before dst fuel with
  | nil =>
    cases fuel with
    | zero | succ fuel => exact ends_pure _ ⟨rfl, spared⟩
  | cons item _ ih =>
    cases fuel with
    | zero => exact absurd enough (by simp)
    | succ =>
      refine ends_load (linked_spared spared linked).1 (ends_allocate (fun _ => rfl) ?_)
      intro nd supply free
      have fresh := spared.free free
      have more := Nat.le_of_succ_le_succ enough
      have grown : Spared start (mem.extend nd ⟨item.2, none, none⟩ supply) := spared.extend fresh
      cases dst with
      | none =>
        refine ends_bind (ends_pure _ (ends_load (linked_spared grown linked).1 ?_))
        apply ih linked.2 more grown
        rintro addr ⟨⟩
        exact ⟨fresh, by simp⟩
      | some last =>
        obtain ⟨unused, live⟩ := new last rfl
        obtain ⟨node, there⟩ := ne_none_iff_exists'.mp live
        have differs : last ≠ nd := by
          rintro rfl
          exact live free
        apply ends_modify ((extend_other differs).trans there)
        apply ends_modify ((put_other differs.symm).trans extend_self)
        have changed : Spared start (((mem.extend nd ⟨item.2, none, none⟩ supply).put last
            { node with next := some nd }).put nd ⟨item.2, some last, none⟩) :=
          (grown.put unused).put fresh
        refine ends_bind (ends_pure _ (ends_load (linked_spared changed linked).1 ?_))
        apply ih linked.2 more changed
        rintro _ ⟨⟩
        exact ⟨fresh, by simp⟩

theorem clone_ends {other} (holds : Holds other mem items) :
    Ends (clone other) mem (fun copy after =>
    copy.head = none ∧ copy.cnt = items.length ∧ Spared mem after) (· = .noMemory) := by
  apply ends_get
  rw [holds.head]
  apply ends_seq (cloneLoop_ends holds.linked holds.bound (spared_refl mem) (by simp))
  rintro _ _ ⟨front, spared⟩
  exact ends_pure _ ⟨front, holds.cnt, spared⟩

theorem clearLoop_ends (linked : Linked mem.cells before items none) (nodup : (addrs items).Nodup)
    (enough : items.length ≤ fuel) : Ends (clearLoop fuel (first items none)) mem (fun _ after =>
    Within (· ∈ addrs items) mem after ∧ ∀ addr ∈ addrs items, after.cells addr = none) failed := by
  induction items generalizing mem before fuel with
  | nil =>
    cases fuel with
    | zero | succ fuel => exact ends_pure _ ⟨within_refl _ _, by simp⟩
  | cons item _ ih =>
    cases fuel with
    | zero => exact absurd enough (by simp)
    | succ =>
      obtain ⟨off, restNodup⟩ := List.nodup_cons.mp nodup
      refine ends_load linked.1 (ends_deallocate linked.1 ?_)
      apply ends_imp (ih (Linked.drop linked.2 off) restNodup (Nat.le_of_succ_le_succ enough))
      rintro _ _ ⟨within, gone⟩
      refine ⟨(within_drop List.mem_cons_self).trans (within.mono fun _ => List.mem_cons_of_mem _),
        ?_⟩
      intro addr listed
      rcases List.mem_cons.mp listed with same | later
      · rw [same, within.cells item.1 off, drop_self]
      · exact gone addr later

theorem clear_ends (holds : Holds list mem items) : Ends (clear list) mem (fun cleared after =>
    cleared = { list with cnt := 0 } ∧ Within (· ∈ addrs items) mem after ∧
    ∀ addr ∈ addrs items, after.cells addr = none) failed := by
  apply ends_get
  rw [holds.head]
  apply ends_seq (clearLoop_ends holds.linked holds.nodup holds.bound)
  rintro _ _ ⟨within, gone⟩
  refine ends_pure _ ⟨?_, within, gone⟩
  rw [← holds.head]

theorem freeHead_ends (holds : Holds list mem items) :
    Ends (deallocate list.head) mem (fun _ after => Within (· ∈ addrs items) mem after) failed := by
  rw [holds.head]
  cases items with
  | nil => exact ends_get (ends_pure _ (within_refl _ _))
  | cons =>
    apply ends_get
    simp only [first_cons, holds.linked.1]
    exact ends_set _ (within_drop List.mem_cons_self)

end Loops

/-! Worlds. -/

theorem ends_onNodes {program} {next : α → Program (World Name Ptr T) Fault β}
    (first : Ends program world.mem (fun value mem =>
      Ends (next value) { world with mem := mem } done failed) failed) :
    Ends (onNodes program >>= next) world done failed := by
  refine ends_bind (ends_get ?_)
  cases first with
  | normal result rest =>
    rw [result]
    exact ends_bind (ends_set _ (ends_pure _ rest))
  | aborted result holds =>
    rw [result]
    exact ends_throw _ holds

theorem ends_setList [DecidableEq Name] (rest : Ends (next ⟨⟩) (world.put name list) done failed) :
    Ends (setList name list >>= next) world done failed :=
  ends_bind (ends_get (ends_set _ rest))

/-! Lists that are in order, each with its own nodes. -/

section Order

structure Good (world : World Name Ptr T) (items : Name → List (Ptr × T)) : Prop where
  holds : ∀ name list, world.lists name = some list → Holds list world.mem (items name)
  apart : ∀ name other, name ≠ other → world.lists name ≠ none → world.lists other ≠ none →
    ∀ addr ∈ addrs (items name), addr ∉ addrs (items other)

def named (world : World Name Ptr T) (items : Name → List (Ptr × T)) : Named Name T :=
  fun name => (world.lists name).map fun _ => values (items name)

variable [DecidableEq Name]

theorem drop_some (there : (world.drop target).lists name = some list) :
    name ≠ target ∧ world.lists name = some list := by
  by_cases same : name = target
  · subst same
    simp [World.drop] at there
  · rw [World.drop] at there
    exact ⟨same, (update_of_ne same _ _).symm.trans there⟩

theorem drop_ne_none (there : (world.drop target).lists name ≠ none) :
    name ≠ target ∧ world.lists name ≠ none := by
  obtain ⟨_, isList⟩ := ne_none_iff_exists'.mp there
  obtain ⟨differs, before⟩ := drop_some isList
  exact ⟨differs, by rw [before]; exact some_ne_none _⟩

theorem Good.others (good : Good world items) (kept : ∀ name ≠ target, world.lists name ≠ none →
    ∀ addr ∈ addrs (items name), mem.cells addr = world.mem.cells addr)
      (made : world.mem.made ≤ mem.made) :
    Good ({ world with mem := mem }.drop target) items := by
  constructor
  · intro name list there
    obtain ⟨differs, before⟩ := drop_some there
    have holds := good.holds name list before
    refine { holds with linked := linked_congr ?_ holds.linked, bound := holds.bound.trans made }
    exact kept name differs (by rw [before]; exact some_ne_none _)
  · intro name other differs there thereToo
    exact good.apart name other differs (drop_ne_none there).2 (drop_ne_none thereToo).2

theorem Good.within (good : Good world items) (there : world.lists target ≠ none)
    (within : Within (· ∈ addrs (items target)) world.mem mem) :
    Good ({ world with mem := mem }.drop target) items := by
  refine good.others ?_ within.made
  intro name differs present addr listed
  exact within.cells addr (good.apart name target differs present there addr listed)

theorem Good.drop (good : Good world items) (target : Name) : Good (world.drop target) items :=
  good.others (fun _ _ _ _ _ => rfl) (le_refl world.mem.made)

omit [DecidableEq Name] in
theorem Good.spared (good : Good world items) (spared : Spared world.mem mem) :
    Good { world with mem := mem } items := by
  refine ⟨?_, good.apart⟩
  intro name list there
  have holds := good.holds name list there
  exact { holds with linked := linked_spared spared holds.linked, bound :=
    holds.bound.trans spared.made }

omit [DecidableEq Name] in
theorem Good.present (good : Good world items) (there : world.lists target = some list) :
    lookup (named world items) target = .ok (values (items target)) ∧
      Holds list world.mem (items target) ∧
    world.lists target ≠ none := by
  refine ⟨?_, good.holds target list there, ?_⟩
  · rw [lookup, named, there]
    rfl
  · rw [there]
    exact some_ne_none _

omit [DecidableEq Name] in
theorem absent_named (absent : world.lists target = none) :
    Sequences.absent (named world items) target = .ok ⟨⟩ := by
  rw [Sequences.absent, named, absent]
  rfl

theorem named_put (own : List (Ptr × T)) : named (world.put target list)
    (update items target own) = put (named world items) target (values own) := by
  funext name
  by_cases same : name = target
  · subst same
    simp [named, World.put, put]
  · simp [named, World.put, put, update_of_ne same]

theorem put_named_self (there : world.lists target = some list) :
    put (named world items) target (values (items target)) = named world items := by
  apply update_eq_self_iff.mpr
  rw [named, there]
  rfl

theorem named_drop : named (world.drop target) items = update (named world items) target none := by
  funext name
  by_cases same : name = target
  · subst same
    simp [named, World.drop]
  · simp [named, World.drop, update_of_ne same]

theorem Good.put (good : Good (world.drop target) items) (holds : Holds list world.mem own)
    (fresh : ∀ name ≠ target, world.lists name ≠ none → ∀ addr ∈ addrs own,
      addr ∉ addrs (items name)) :
    Good (world.put target list) (update items target own) := by
  have before : ∀ name ≠ target, (world.put target list).lists name =
      (world.drop target).lists name := by
    intro name differs
    simp [World.put, World.drop, update_of_ne differs]
  constructor
  · intro name found there
    by_cases same : name = target
    · subst same
      simp only [World.put, update_self, Option.some.injEq] at there
      subst there
      rw [update_self]
      exact holds
    · rw [before name same] at there
      rw [update_of_ne same]
      exact good.holds name found there
  · intro name other differs there thereToo addr listed
    by_cases same : name = target
    · subst same
      rw [update_self] at listed
      rw [update_of_ne differs.symm]
      rw [before other differs.symm] at thereToo
      exact fresh other differs.symm (drop_ne_none thereToo).2 addr listed
    · rw [update_of_ne same] at listed
      rw [before name same] at there
      by_cases sameToo : other = target
      · subst sameToo
        rw [update_self]
        intro own
        exact fresh name same (drop_ne_none there).2 addr own listed
      · rw [update_of_ne sameToo]
        rw [before other sameToo] at thereToo
        exact good.apart name other differs there thereToo addr listed

end Order

end Nx.ListCopies
