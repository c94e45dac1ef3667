import Nx.LinkedLists
import Nx.Transitions

/-!
A list holds a sequence: what every operation does to the nodes is what it does to
the sequence.
-/

namespace Nx.ListRefinement

open Outcomes Cells DoubleLinks LinkedLists Option
open List hiding after next prev

variable {Ptr T : Type} {mem : Nodes Ptr T}

/-- The list consists of these items. The tail of an empty list is not used. -/
structure Holds (list : Container Ptr) (mem : Nodes Ptr T) (items : List (Ptr × T)) : Prop where
  linked : Linked mem.cells none items none
  nodup : (addrs items).Nodup
  head : list.head = first items none
  tail : items ≠ [] → list.tail = last none items
  cnt : list.cnt = items.length
  bound : items.length ≤ mem.made

theorem begin_eq (holds : Holds self mem items) : self.begin = first items none := holds.head

def Tidy (list : Container Ptr) : Prop := list.cnt = 0 → list.tail = none

structure Turned (list : Container Ptr) (mem : Nodes Ptr T) (items : List (Ptr × T))
    (turned : Container Ptr) (after : Nodes Ptr T) (items' : List (Ptr × T)) : Prop where
  holds : Holds turned after items'
  changed : Changed (· ∈ addrs items) (· ∈ addrs items') mem after
  tidy : Tidy list → Tidy turned

theorem nodup_middle (nodup : (addrs (xs ++ item :: ys)).Nodup) :
    (addrs xs).Nodup ∧ (addrs ys).Nodup ∧
    item.1 ∉ addrs xs ∧ item.1 ∉ addrs ys ∧ ∀ addr ∈ addrs xs, addr ∉ addrs ys := by
  rw [addrs_append, addrs_cons] at nodup
  obtain ⟨front, later, apart⟩ := nodup_append'.mp nodup
  obtain ⟨outside, back⟩ := nodup_cons.mp later
  refine ⟨front, back, fun member => apart member mem_cons_self, outside, ?_⟩
  intro _ member
  exact fun memberToo => apart member (mem_cons_of_mem _ memberToo)

theorem nodup_insert (val : T) (nodup : (addrs (xs ++ ys)).Nodup)
    (fresh : node ∉ addrs (xs ++ ys)) : (addrs (xs ++ (node, val) :: ys)).Nodup := by
  rw [addrs_append] at nodup fresh
  rw [addrs_append, addrs_cons]
  exact (List.nodup_middle.mpr (nodup_cons.mpr ⟨fresh, nodup⟩))

theorem Holds.outside (holds : Holds self mem items) (free : mem.cells addr = none) :
    addr ∉ addrs items := by
  intro member
  obtain ⟨_, live⟩ := linked_live holds.linked member
  rw [free] at live
  cases live

theorem Holds.within (holds : Holds self mem items) (within : Within changed mem after)
    (apart : ∀ addr ∈ addrs items, ¬ changed addr) : Holds self after items :=
  { holds with
    linked := linked_within holds.linked within apart
    bound := holds.bound.trans within.made }

theorem Holds.empty_iff (holds : Holds self mem items) : self.cnt = 0 ↔ items = [] := by
  rw [holds.cnt]
  exact length_eq_zero_iff

theorem linked_splice (front : Linked cells none xs (some node))
    (there : cells node = some ⟨val, last none xs, first ys none⟩)
      (back : Linked cells (some node) ys none) :
    Linked cells none (xs ++ (node, val) :: ys) none :=
  linked_append.mpr ⟨front, there, back⟩

theorem mem_front (listed : addr ∈ addrs xs) : addr ∈ addrs (xs ++ ys) := by
  rw [addrs_append]
  exact mem_append_left _ listed

theorem mem_back (listed : addr ∈ addrs ys) : addr ∈ addrs (xs ++ ys) := by
  rw [addrs_append]
  exact mem_append_right _ listed

theorem length_insert (xs ys : List (Ptr × T)) (item : Ptr × T) :
    (xs ++ item :: ys).length = (xs ++ ys).length + 1 := by
  simp only [length_append, length_cons]
  omega

/-! Iterators. -/

theorem increment_ends {item} {β : Type} {next : Option Ptr → Program (Nodes Ptr T) Fault β}
    {done : β → Nodes Ptr T → Prop} (linked : Linked mem.cells before (item :: items) none)
    (rest : Ends (next (first items none)) mem done failed) :
      Ends (increment (some item.1) >>= next) mem done failed :=
  ends_bind (ends_load linked.1 (ends_pure _ rest))

theorem advance_ends (steps : Nat) (linked : Linked mem.cells before items none) :
    Ends (advance steps (first items none)) mem
      (fun it same => (∃ xs ys, items = xs ++ ys ∧ xs.length = steps ∧ it = first ys none) ∧
        same = mem)
      (fun fault => fault = .abort "out of range!" ∧ items.length < steps) := by
  induction steps generalizing items before with
  | zero => exact ends_pure _ ⟨⟨[], items, rfl, rfl, rfl⟩, rfl⟩
  | succ steps ih =>
    cases items with
    | nil =>
      refine ends_bind (ends_throw _ ⟨rfl, ?_⟩)
      exact Nat.succ_pos _
    | cons item =>
      apply increment_ends linked
      refine ends_mono (ih linked.2) ?_ ?_
      · rintro _ _ ⟨⟨xs, ys, split, steps, there⟩, rfl⟩
        exact ⟨⟨item :: xs, ys, congrArg (item :: ·) split, congrArg (· + 1) steps, there⟩, rfl⟩
      · rintro _ ⟨text, short⟩
        exact ⟨text, Nat.succ_lt_succ short⟩

theorem collect_ends {fuel} (linked : Linked mem.cells before items none)
    (enough : items.length ≤ fuel) :
    Ends (collect fuel (first items none)) mem (fun vals same => vals = values items ∧ same = mem)
      failed := by
  induction items generalizing before fuel with
  | nil =>
    cases fuel with
    | zero | succ fuel => exact ends_pure _ ⟨rfl, rfl⟩
  | cons _ _ ih =>
    cases fuel with
    | zero => exact absurd enough (by simp)
    | succ =>
      refine ends_load linked.1 (increment_ends linked ?_)
      apply ends_read (ih linked.2 (Nat.le_of_succ_le_succ enough))
      rintro _ rfl
      exact ends_pure _ ⟨rfl, rfl⟩

theorem iterate_ends (linked : Linked mem.cells before items none)
    (enough : items.length ≤ mem.made) :
    Ends (iterate (first items none)) mem (fun vals same => vals = values items ∧ same = mem)
      failed :=
  ends_get (collect_ends linked enough)

section Insertions

variable [DecidableEq Ptr] {node : Ptr}

abbrev Touched (items : List (Ptr × T)) (node addr : Ptr) : Prop := addr ∈ addrs items ∨ addr = node

theorem Linked.put (linked : Linked mem.cells before xs after) (fresh : node ∉ addrs xs) :
    Linked (mem.put node cell).cells before xs after :=
  linked_congr (fun _ listed => put_other fun same => fresh (same ▸ listed)) linked

theorem Holds.extend (holds : Holds self mem items) (free : mem.cells node = none) :
    Holds self (mem.extend node cell supply) items := by
  have within : Within (· = node) mem (mem.extend node cell supply) := within_extend rfl
  exact holds.within within fun _ listed same => holds.outside free (same ▸ listed)

theorem linkLast_ends (holds : Holds self mem xs) (fresh : node ∉ addrs xs)
    (there : mem.cells node = some ⟨val, prev, next⟩) (room : xs.length + 1 ≤ mem.made) :
      Ends (linkLast self node) mem
    (fun self' after => Holds self' after (xs ++ [(node, val)]) ∧
      Within (Touched xs node) mem after) failed := by
  rw [← append_nil xs] at holds fresh
  have nodup := nodup_insert val holds.nodup fresh
  rw [append_nil] at holds fresh
  have length : (xs ++ [(node, val)]).length = xs.length + 1 := length_append
  have count : self.cnt + 1 = (xs ++ [(node, val)]).length := by rw [holds.cnt, length]
  rw [← length] at room
  have inside : Touched xs node node := .inr rfl
  cases xs with
  | nil =>
    have head : self.head = none := holds.head
    rw [linkLast, head]
    refine ends_modify there (ends_modify put_self (ends_pure _ ⟨?_, ?_⟩))
    · exact ⟨⟨put_self, trivial⟩, nodup, rfl, fun _ => rfl, count, room⟩
    · exact (within_put inside).trans (within_put inside)
  | cons item rest =>
    have head : self.head = some item.1 := holds.head
    obtain ⟨final, _, isLast⟩ := last_mem none (cons_ne_nil item rest)
    have tail : self.tail = some final.1 := (holds.tail (cons_ne_nil _ _)).trans isLast
    rw [linkLast, head, tail]
    apply ends_modify there
    -- the last node, which is `tail`
    have step (change : Node Ptr T → Node Ptr T) :
        modifyIf (last none (item :: rest)) change = modify (some final.1) change := by
      rw [isLast]
      rfl
    rw [getD_some, ← step]
    apply ends_setNext (Linked.put holds.linked fresh) holds.nodup
    intro relinked linked within
    have still : relinked.cells node = some ⟨val, some final.1, next⟩ :=
      (within.cells node fresh).trans put_self
    refine ends_modify still (ends_pure _ ⟨?_, ?_⟩)
    · refine ⟨?_, nodup, rfl, fun _ => ?_, count, room.trans within.made⟩
      · refine linked_append.mpr ⟨Linked.put linked fresh, ?_, trivial⟩
        rw [isLast]
        exact put_self
      · rw [last_append]
        rfl
    · exact (within_put inside).trans ((within.mono fun _ => .inl).trans (within_put inside))

theorem linkBefore_ends (holds : Holds self mem (xs ++ ys)) (fresh : node ∉ addrs (xs ++ ys))
    (there : mem.cells node = some ⟨val, prev, next⟩) (room : (xs ++ ys).length + 1 ≤ mem.made) :
    Ends (linkBefore self (first ys none) node) mem
      (fun self' after => Holds self' after (xs ++ (node, val) :: ys) ∧
    Within (Touched (xs ++ ys) node) mem after) failed := by
  cases ys with
  | nil =>
    rw [append_nil] at *
    exact linkLast_ends holds fresh there room
  | cons item later =>
    have nodup := nodup_insert val holds.nodup fresh
    obtain ⟨xsNodup, ysNodup, xsFresh, ysFresh, apart⟩ := nodup_middle nodup
    obtain ⟨xsLinked, ysLinked⟩ := linked_append.mp holds.linked
    have inside : Touched (xs ++ item :: later) node node := .inr rfl
    apply ends_load (linked_split holds.linked)
    refine ends_modify there (ends_modify put_self ?_)
    apply ends_setPrev (Linked.put (Linked.put ysLinked ysFresh) ysFresh) ysNodup
    intro middle ysNow ysWithin
    have xsStill : Linked middle.cells none xs (some item.1) :=
      linked_within (Linked.put (Linked.put xsLinked xsFresh) xsFresh) ysWithin apart
    apply ends_setNext xsStill xsNodup
    intro _ xsNow xsWithin
    refine ends_pure _ ⟨?_, ?_⟩
    · refine ⟨linked_splice xsNow ?_ ?_, nodup, ?_, fun _ => ?_, ?_, ?_⟩
      · exact (xsWithin.cells node xsFresh).trans ((ysWithin.cells node ysFresh).trans put_self)
      · exact linked_within ysNow xsWithin fun addr listed listedToo => apart addr listedToo listed
      · cases xs with
        | nil => rfl
        | cons front rest =>
          obtain ⟨_, _, isLast⟩ := last_mem none (cons_ne_nil front rest)
          dsimp only
          rw [isLast, if_neg (some_ne_none _)]
          exact holds.head
      · rw [last_append]
        apply (holds.tail (by simp)).trans
        rw [last_append]
        rfl
      · rw [length_insert, holds.cnt]
      · rw [length_insert]
        exact room.trans (ysWithin.made.trans xsWithin.made)
    · exact (within_put inside).trans ((within_put inside).trans
        ((ysWithin.mono fun _ listed => .inl (mem_back listed)).trans
          (xsWithin.mono fun _ listed => .inl (mem_front listed))))

theorem linkAfter_ends (holds : Holds self mem (xs ++ item :: ys))
    (fresh : node ∉ addrs (xs ++ item :: ys))
    (there : mem.cells node = some ⟨val, prev, next⟩) (room : (xs ++ item :: ys).length + 1 ≤
      mem.made) :
    Ends (linkAfter self (some item.1) node) mem (fun self' after =>
    Holds self' after (xs ++ item :: (node, val) :: ys) ∧
    Within (Touched (xs ++ item :: ys) node) mem after) failed := by
  have position := linked_split holds.linked
  -- the new node comes between the items up to `item` and the rest
  obtain ⟨front, isFront⟩ : ∃ front, front = xs ++ [item] := ⟨_, rfl⟩
  have ends : last none front = some item.1 := by rw [isFront, last_append]; rfl
  have split (rest : List (Ptr × T)) : xs ++ item :: rest = front ++ rest := by simp [isFront]
  rw [split] at holds fresh room ⊢
  rw [split]
  have nodup := nodup_insert val holds.nodup fresh
  obtain ⟨xsNodup, ysNodup, xsFresh, ysFresh, apart⟩ := nodup_middle nodup
  obtain ⟨xsLinked, ysLinked⟩ := linked_append.mp holds.linked
  have inside : Touched (front ++ ys) node node := .inr rfl
  have step (change : Node Ptr T → Node Ptr T) :
      modifyIf (last none front) change = modify (some item.1) change := by
    rw [ends]
    rfl
  refine ends_load position (ends_modify there (ends_modify put_self ?_))
  rw [← step]
  apply ends_setNext (Linked.put (Linked.put xsLinked xsFresh) xsFresh) xsNodup
  intro middle xsNow xsWithin
  have ysStill : Linked middle.cells (last none front) ys none :=
    linked_within (Linked.put (Linked.put ysLinked ysFresh) ysFresh) xsWithin
      fun addr listed listedToo => apart addr listedToo listed
  apply ends_setPrev ysStill ysNodup
  intro _ ysNow ysWithin
  refine ends_pure _ ⟨?_, ?_⟩
  · refine ⟨linked_splice ?_ ?_ ysNow, nodup, ?_, fun _ => ?_, ?_, ?_⟩
    · exact linked_within xsNow ysWithin apart
    · rw [ends]
      exact (ysWithin.cells node ysFresh).trans ((xsWithin.cells node xsFresh).trans put_self)
    · rw [isFront]
      apply holds.head.trans
      rw [isFront]
      simp
    · have tail := holds.tail (by simp [isFront])
      rw [last_append] at tail ⊢
      cases ys with
      | nil =>
        dsimp only
        rw [tail, last_nil, ends, if_pos rfl]
        rfl
      | cons second later =>
        obtain ⟨final, member, isLast⟩ := last_mem none (cons_ne_nil second later)
        have atEnd : self.tail = some final.1 := by
          rw [tail, ← isLast]
          rfl
        have differs : final.1 ≠ item.1 := by
          intro same
          apply apart item.1 (by simp [isFront])
          rw [← same]
          exact mem_map_of_mem member
        dsimp only
        rw [atEnd, if_neg (fun same => differs (Option.some.inj same)), ← isLast]
        rfl
    · rw [length_insert, holds.cnt]
    · rw [length_insert]
      exact room.trans (xsWithin.made.trans ysWithin.made)
  · exact (within_put inside).trans ((within_put inside).trans
      ((xsWithin.mono fun _ listed => .inl (mem_front listed)).trans
        (ysWithin.mono fun _ listed => .inl (mem_back listed))))

theorem inserted {mem after} (free : mem.cells node = none)
    (holds : Holds self' after (xs ++ (node, val) :: ys))
    (within : Within (Touched (xs ++ ys) node) (mem.extend node cell supply) after) :
    Turned self mem (xs ++ ys) self' after (xs ++ (node, val) :: ys) := by
  refine ⟨holds, ⟨?_, ?_, ?_⟩, ?_⟩
  · intro addr outside live
    have differs : addr ≠ node := by
      rintro rfl
      exact live free
    exact (within.cells addr fun touched => touched.elim outside differs).trans
      (extend_other differs)
  · intro _ listed
    rw [addrs_append, addrs_cons] at listed
    rcases mem_append.mp listed with front | later
    · exact .inl (mem_front front)
    · rcases mem_cons.mp later with same | back
      · exact .inr (same ▸ free)
      · exact .inl (mem_back back)
  · exact (Nat.le_succ _).trans within.made
  · intro _ empty
    rw [holds.cnt, length_insert] at empty
    exact absurd empty (Nat.succ_ne_zero _)

theorem insertBefore_ends (holds : Holds self mem (xs ++ ys)) (val : T)
    (noMemory : mem.Exhausted → failed .noMemory) :
    Ends (insertBefore self (first ys none) val) mem (fun self' after =>
    ∃ node, Turned self mem (xs ++ ys) self' after (xs ++ (node, val) :: ys)) failed := by
  apply ends_allocate noMemory
  intro node supply free
  have fresh := holds.outside free
  have still : Holds self (mem.extend node ⟨val, none, none⟩ supply) (xs ++ ys) := holds.extend free
  have room : (xs ++ ys).length + 1 ≤ (mem.extend node ⟨val, none, none⟩ supply).made :=
    Nat.succ_le_succ holds.bound
  apply ends_imp (linkBefore_ends still fresh extend_self room)
  rintro _ _ ⟨now, within⟩
  exact ⟨node, inserted free now within⟩

theorem insertAfter_ends (holds : Holds self mem (xs ++ item :: ys)) (val : T)
    (noMemory : mem.Exhausted → failed .noMemory) :
    Ends (insertAfter self (some item.1) val) mem (fun self' after =>
    ∃ node, Turned self mem (xs ++ item :: ys) self' after (xs ++ item :: (node, val) :: ys))
      failed := by
  apply ends_allocate noMemory
  intro node supply free
  have fresh := holds.outside free
  have still : Holds self (mem.extend node ⟨val, none, none⟩ supply) (xs ++ item :: ys) :=
    holds.extend free
  have room : (xs ++ item :: ys).length + 1 ≤ (mem.extend node ⟨val, none, none⟩ supply).made :=
    Nat.succ_le_succ holds.bound
  apply ends_imp (linkAfter_ends still fresh extend_self room)
  rintro _ _ ⟨now, within⟩
  have split (rest : List (Ptr × T)) : xs ++ item :: rest = (xs ++ [item]) ++ rest := by simp
  rw [split] at now within
  refine ⟨node, ?_⟩
  rw [split ys, split ((node, val) :: ys)]
  exact inserted free now within

variable {item : Ptr × T}

theorem removed (rest : items = xs ++ ys) (within : Within (· ∈ addrs items) mem middle)
    (holds : Holds self' (middle.drop item.1) items) (tail : self'.tail = last none items) :
    Turned self mem (xs ++ item :: ys) self' (middle.drop item.1) items := by
  subst rest
  have more : ∀ addr ∈ addrs (xs ++ ys), addr ∈ addrs (xs ++ item :: ys) := by
    intro addr listed
    rw [addrs_append] at listed
    rcases mem_append.mp listed with front | back
    · exact mem_front front
    · exact mem_back (mem_cons_of_mem _ back)
  refine ⟨holds, ⟨?_, fun addr listed => .inl (more addr listed), within.made⟩, ?_⟩
  · intro addr outside _
    have differs : addr ≠ item.1 := by
      rintro rfl
      exact outside (mem_back mem_cons_self)
    exact (drop_other differs).trans (within.cells addr fun listed => outside (more addr listed))
  · intro _ empty
    rw [tail, holds.empty_iff.mp empty]
    rfl

theorem Linked.drop (linked : Linked mem.cells before xs after) (outside : node ∉ addrs xs) :
    Linked (mem.drop node).cells before xs after :=
  linked_congr (fun _ listed => drop_other fun same => outside (same ▸ listed)) linked

theorem deleteNode_ends (holds : Holds self mem (xs ++ item :: ys)) :
    Ends (deleteNode self (some item.1)) mem
    (fun out after => out.1 = first ys none ∧ Turned self mem (xs ++ item :: ys) out.2 after
      (xs ++ ys)) failed := by
  have here := linked_split holds.linked
  obtain ⟨xsNodup, ysNodup, xsOff, ysOff, apart⟩ := nodup_middle holds.nodup
  obtain ⟨xsLinked, _, ysLinked⟩ := linked_append.mp holds.linked
  refine ends_load here (ends_setNext xsLinked xsNodup ?_)
  intro middle xsNow xsWithin
  have hereStill := (xsWithin.cells item.1 xsOff).trans here
  have ysStill : Linked middle.cells (some item.1) ys none :=
    linked_within ysLinked xsWithin fun addr listed listedToo => apart addr listedToo listed
  refine ends_load hereStill (ends_setPrev ysStill ysNodup ?_)
  intro after ysNow ysWithin
  have hereLast := (ysWithin.cells item.1 ysOff).trans hereStill
  refine ends_load hereLast (ends_deallocate hereLast (ends_pure _ ⟨rfl, ?_⟩))
  have xsLast : Linked after.cells none xs (first ys none) := linked_within xsNow ysWithin apart
  have tail : (if self.tail = some item.1 then last none xs else self.tail) = last none
      (xs ++ ys) := by
    rw [holds.tail (by simp), last_append, last_append]
    cases ys with
    | nil => exact if_pos rfl
    | cons second later =>
      obtain ⟨final, member, isLast⟩ := last_mem (some second.1) (cons_ne_nil second later)
      have differs : some final.1 ≠ some item.1 := by
        intro same
        exact ysOff (Option.some.inj same ▸ mem_map_of_mem member)
      exact if_neg fun same => differs (isLast.symm.trans same)
  have head : (if self.head = some item.1 then first ys none else self.head) =
      first (xs ++ ys) none := by
    rw [holds.head]
    cases xs with
    | nil => exact if_pos rfl
    | cons =>
      refine if_neg fun same => xsOff ?_
      rw [← Option.some.inj same]
      exact mem_cons_self
  have bound := holds.bound
  rw [length_insert] at bound
  refine removed rfl ((xsWithin.mono fun _ => mem_front).trans (ysWithin.mono fun _ => mem_back)) ?_
    tail
  refine ⟨?_, ?_, head, fun _ => tail, ?_, ?_⟩
  · exact linked_append.mpr ⟨Linked.drop xsLast xsOff, Linked.drop ysNow ysOff⟩
  · rw [addrs_append]
    exact nodup_append'.mpr ⟨xsNodup, ysNodup, fun addr => apart addr⟩
  · dsimp only
    rw [holds.cnt, length_insert]
    rfl
  · exact (Nat.le_of_succ_le bound).trans (xsWithin.made.trans ysWithin.made)

theorem popFront_ends (holds : Holds self mem (item :: ys)) :
    Ends (popFront self) mem (fun out after =>
    out.1 = item.2 ∧ Turned self mem (item :: ys) out.2 after ys) failed := by
  have nonempty : self.cnt ≠ 0 := by
    rw [holds.cnt]
    exact Nat.succ_ne_zero _
  have cnt : self.cnt - 1 = ys.length := by
    rw [holds.cnt]
    rfl
  obtain ⟨off, ysNodup⟩ := nodup_cons.mp holds.nodup
  have bound := Nat.le_of_succ_le holds.bound
  rw [popFront, if_neg nonempty, holds.head]
  apply ends_load holds.linked.1
  cases ys with
  | nil =>
    refine ends_bind (ends_pure _ (ends_deallocate holds.linked.1 (ends_pure _ ⟨rfl, ?_⟩)))
    have gone : Holds ⟨none, none, self.cnt - 1⟩ (mem.drop item.1) ([] : List (Ptr × T)) :=
      ⟨trivial, nodup_nil, rfl, fun _ => rfl, cnt, Nat.zero_le _⟩
    exact removed (nil_append []).symm (within_refl _ _) gone rfl
  | cons second later =>
    apply ends_setPrev holds.linked.2 ysNodup
    intro _ ysNow within
    have old := (within.cells item.1 off).trans holds.linked.1
    refine ends_load ysNow.1 (ends_bind (ends_pure _ (ends_deallocate old (ends_pure _ ⟨rfl, ?_⟩))))
    have tail : (if first later none = none then some second.1 else self.tail) = last none
        (second :: later) := by
      rw [holds.tail (cons_ne_nil _ _)]
      cases later with
      | nil => rfl
      | cons => exact if_neg (some_ne_none _)
    exact removed (nil_append _).symm within ⟨Linked.drop ysNow off, ysNodup, rfl,
      fun _ => tail, cnt, bound.trans within.made⟩ tail

theorem popBack_ends (holds : Holds self mem (xs ++ [item])) :
    Ends (popBack self) mem (fun out after =>
    out.1 = item.2 ∧ Turned self mem (xs ++ [item]) out.2 after xs) failed := by
  have nonempty : self.cnt ≠ 0 := by
    rw [holds.cnt, length_insert]
    exact Nat.succ_ne_zero _
  have cnt : self.cnt - 1 = xs.length := by
    rw [holds.cnt, length_insert, append_nil]
    rfl
  have isLast : self.tail = some item.1 := by
    rw [holds.tail (by simp), last_append]
    rfl
  have old := linked_split holds.linked
  obtain ⟨xsNodup, _, off, _, _⟩ := nodup_middle holds.nodup
  have linked := (linked_append.mp holds.linked).1
  have bound := holds.bound
  rw [length_insert, append_nil] at bound
  rw [popBack, if_neg nonempty, isLast]
  apply ends_load old
  rcases eq_nil_or_concat xs with rfl | ⟨front, final, rfl⟩
  · refine ends_bind (ends_pure _ (ends_deallocate old (ends_pure _ ⟨rfl, ?_⟩)))
    have gone : Holds ⟨none, none, self.cnt - 1⟩ (mem.drop item.1) ([] : List (Ptr × T)) :=
      ⟨trivial, nodup_nil, rfl, fun _ => rfl, cnt, Nat.zero_le _⟩
    exact removed (append_nil []).symm (within_refl _ _) gone rfl
  · rw [concat_eq_append] at *
    have ends : last none (front ++ [final]) = some final.1 := by
      rw [last_append]
      rfl
    have step (change : Node Ptr T → Node Ptr T) :
        modifyIf (last none (front ++ [final])) change = modify (some final.1) change := by
      rw [ends]
      rfl
    simp only [ends]
    rw [← step]
    apply ends_setNext linked xsNodup
    intro _ xsNow within
    have oldStill := (within.cells item.1 off).trans old
    refine ends_load (linked_split xsNow) (ends_bind
      (ends_pure _ (ends_deallocate oldStill (ends_pure _ ⟨rfl, ?_⟩))))
    have head : (if last none front = none then some final.1 else self.head) =
        first (front ++ [final]) none := by
      rw [holds.head]
      cases front with
      | nil => rfl
      | cons second later =>
        obtain ⟨_, _, isThird⟩ := last_mem none (cons_ne_nil second later)
        rw [isThird]
        exact if_neg (some_ne_none _)
    exact removed (append_nil _).symm within ⟨Linked.drop xsNow off, xsNodup, head,
      fun _ => ends.symm, cnt, (Nat.le_of_succ_le bound).trans within.made⟩ ends.symm

variable {self : Container Ptr} {items : List (Ptr × T)}

/-- An operation that makes a node finds none in the supply. -/
def OutOfMemory (mem : Nodes Ptr T) (op : Op T) (fault : Fault) : Prop :=
  fault = .noMemory ∧ op.Allocates ∧ mem.Exhausted

/-- An operation on a list does what it does on a sequence, unless there is no
memory left. -/
def Refined (self : Container Ptr) (mem : Nodes Ptr T) (items : List (Ptr × T)) (op : Op T) :
    Prop :=
  Ends (perform self op) mem (fun out after => ∃ items', Turned self mem items out.2 after items' ∧
      Sequence.perform (values items) op = .ok (out.1, values items'))
    (fun fault => OutOfMemory mem op fault ∨ Sequence.perform (values items) op = .error fault)

omit [DecidableEq Ptr] in
theorem turned_refl (holds : Holds self mem items) : Turned self mem items self mem items :=
  ⟨holds, changed_refl _ mem, fun tidy => tidy⟩

theorem insertIdx_middle (xs ys : List T) (val : T) :
    (xs ++ ys).insertIdx xs.length val = xs ++ val :: ys := by
  induction xs with
  | nil => rfl
  | cons _ _ ih => simp [ih]

section

variable (holds : Holds self mem items)
include holds

theorem append_refined (val : T) : Refined self mem items (.append val) := by
  rw [← append_nil items] at holds ⊢
  apply ends_seq (insertBefore_ends holds val fun left => .inl ⟨rfl, trivial, left⟩)
  rintro _ _ ⟨_, turned⟩
  refine ends_pure _ ⟨_, turned, ?_⟩
  simp [Sequence.perform]

theorem prepend_refined (val : T) : Refined self mem items (.prepend val) := by
  rw [Refined, perform, prepend, begin_eq holds]
  have front : Holds self mem ([] ++ items) := holds
  apply ends_seq (insertBefore_ends front val fun left => .inl ⟨rfl, trivial, left⟩)
  rintro _ _ ⟨_, turned⟩
  exact ends_pure _ ⟨_, turned, rfl⟩

theorem insertBefore_refined (index : Nat) (val : T) :
    Refined self mem items (.insertBefore index val) := by
  rw [Refined, perform, begin_eq holds]
  refine ends_call (advance_ends index holds.linked) ?_ ?_
  · rintro _ ⟨rfl, short⟩
    right
    rw [Sequence.perform, Sequence.insertBefore, values_length, if_pos short]
  · rintro _ _ ⟨⟨xs, _, rfl, rfl, rfl⟩, rfl⟩
    apply ends_seq (insertBefore_ends holds val fun left => .inl ⟨rfl, trivial, left⟩)
    rintro _ _ ⟨_, turned⟩
    refine ends_pure _ ⟨_, turned, ?_⟩
    have place : (values xs).length = xs.length := values_length
    rw [Sequence.perform, Sequence.insertBefore, if_neg (by simp), values_append, ← place,
      insertIdx_middle, values_append, values_cons]

theorem insertAfter_refined (index : Nat) (val : T) :
    Refined self mem items (.insertAfter index val) := by
  rw [Refined, perform, begin_eq holds]
  refine ends_call (advance_ends index holds.linked) ?_ ?_
  · rintro _ ⟨rfl, short⟩
    right
    rw [Sequence.perform, Sequence.insertAfter, values_length, if_pos short]
  · rintro _ _ ⟨⟨xs, ys, rfl, rfl, rfl⟩, rfl⟩
    cases ys with
    | nil =>
      refine ends_bind (ends_allocate (fun left => .inl ⟨rfl, trivial, left⟩) ?_)
      intro node _ _
      refine ends_throw _ (.inr ?_)
      rw [Sequence.perform, Sequence.insertAfter, if_neg (by simp), if_pos (by simp)]
    | cons item later =>
      apply ends_seq (insertAfter_ends holds val fun left => .inl ⟨rfl, trivial, left⟩)
      rintro _ _ ⟨_, turned⟩
      refine ends_pure _ ⟨_, turned, ?_⟩
      have place : (values (xs ++ [item])).length = xs.length + 1 := by simp
      have split (rest : List (Ptr × T)) : xs ++ item :: rest = (xs ++ [item]) ++ rest := by simp
      rw [Sequence.perform, Sequence.insertAfter, if_neg (by simp), if_neg (by simp), ← place,
        split later, values_append, insertIdx_middle]
      simp

theorem popFront_refined : Refined self mem items .popFront := by
  cases items with
  | nil =>
    have empty : self.cnt = 0 := holds.cnt
    rw [Refined, perform, popFront, if_pos empty]
    exact ends_bind (ends_bind (ends_throw _ (.inr rfl)))
  | cons =>
    apply ends_seq (popFront_ends holds)
    rintro ⟨_, _⟩ _ ⟨rfl, turned⟩
    exact ends_pure _ ⟨_, turned, rfl⟩

theorem popBack_refined : Refined self mem items .popBack := by
  rcases eq_nil_or_concat items with rfl | ⟨_, _, rfl⟩
  · have empty : self.cnt = 0 := holds.cnt
    rw [Refined, perform, popBack, if_pos empty]
    exact ends_bind (ends_bind (ends_throw _ (.inr rfl)))
  · rw [concat_eq_append] at *
    apply ends_seq (popBack_ends holds)
    rintro ⟨_, _⟩ _ ⟨rfl, turned⟩
    refine ends_pure _ ⟨_, turned, ?_⟩
    simp [Sequence.perform, Sequence.popBack]

theorem erase_refined (index : Nat) : Refined self mem items (.erase index) := by
  rw [Refined, perform, begin_eq holds]
  refine ends_call (advance_ends index holds.linked) ?_ ?_
  · rintro _ ⟨rfl, short⟩
    right
    rw [Sequence.perform, Sequence.erase, values_length, if_pos short]
  · rintro it same ⟨⟨xs, ys, rfl, rfl, rfl⟩, rfl⟩
    cases ys with
    | nil =>
      -- `end()` is not erased, and it is what is returned
      refine ends_bind (ends_pure _ ?_)
      have nothing : Linked same.cells none ([] : List (Ptr × T)) none := trivial
      apply ends_read (iterate_ends nothing (Nat.zero_le _))
      rintro rest rfl
      refine ends_pure _ ⟨_, turned_refl holds, ?_⟩
      rw [Sequence.perform, Sequence.erase, if_neg (by simp), drop_of_length_le (by simp),
        eraseIdx_of_length_le (by simp)]
      rfl
    | cons _ later =>
      apply ends_seq (deleteNode_ends holds)
      rintro ⟨_, _⟩ after ⟨rfl, turned⟩
      have linked := (linked_append.mp turned.holds.linked).2
      have bound : later.length ≤ after.made := by
        have whole := turned.holds.bound
        rw [length_append] at whole
        omega
      apply ends_read (iterate_ends linked bound)
      rintro _ rfl
      refine ends_pure _ ⟨_, turned, ?_⟩
      have place : (values xs).length = xs.length := values_length
      rw [Sequence.perform, Sequence.erase, if_neg (by simp), eraseIdx_eq_take_drop_succ,
        values_append, values_append, values_cons, ← place, take_left, ← drop_drop,
        drop_left]
      rfl

theorem front_refined : Refined self mem items .front := by
  cases items with
  | nil =>
    have empty : self.cnt = 0 := holds.cnt
    rw [Refined, perform, front, if_pos empty]
    exact ends_bind (ends_bind (ends_throw _ (.inr rfl)))
  | cons =>
    have nonempty : self.cnt ≠ 0 := by
      rw [holds.cnt]
      exact Nat.succ_ne_zero _
    rw [Refined, perform, front, if_neg nonempty, holds.head]
    refine ends_bind (ends_load holds.linked.1
      (ends_pure _ (ends_pure _ ⟨_, turned_refl holds, rfl⟩)))

theorem back_refined : Refined self mem items .back := by
  rcases eq_nil_or_concat items with rfl | ⟨_, item, rfl⟩
  · have empty : self.cnt = 0 := holds.cnt
    rw [Refined, perform, back, if_pos empty]
    exact ends_bind (ends_bind (ends_throw _ (.inr rfl)))
  · rw [concat_eq_append] at *
    have nonempty : self.cnt ≠ 0 := by
      rw [holds.cnt, length_insert]
      exact Nat.succ_ne_zero _
    have isLast : self.tail = some item.1 := by
      rw [holds.tail (by simp), last_append]
      rfl
    rw [Refined, perform, back, if_neg nonempty, isLast]
    refine ends_bind (ends_load (linked_split holds.linked)
      (ends_pure _ (ends_pure _ ⟨_, turned_refl holds, ?_⟩)))
    simp [Sequence.perform, Sequence.back]

theorem perform_refined (op : Op T) : Refined self mem items op := by
  cases op with
  | append val => exact append_refined holds val
  | prepend val => exact prepend_refined holds val
  | insertBefore index val => exact insertBefore_refined holds index val
  | insertAfter index val => exact insertAfter_refined holds index val
  | popFront => exact popFront_refined holds
  | popBack => exact popBack_refined holds
  | erase index => exact erase_refined holds index
  | front => exact front_refined holds
  | back => exact back_refined holds
  | iterate =>
    rw [Refined, perform, begin_eq holds]
    apply ends_read (iterate_ends holds.linked holds.bound)
    rintro _ rfl
    exact ends_pure _ ⟨_, turned_refl holds, rfl⟩
  | size =>
    have size : self.size = (values items).length := holds.cnt.trans values_length.symm
    rw [Refined, perform, size]
    exact ends_pure _ ⟨_, turned_refl holds, rfl⟩

end

end Insertions

end Nx.ListRefinement
