import Nx.Words

/-!
`destroyThread` of kernel/source/scheduler/thread.cpp, down to the array that holds the threads of a
process: `remove_all_if` of krt/types/impl/iterutils.h and `erase_at` of krt/types/impl/arraylike.h.
-/

namespace Nx.ThreadArray

open Words List

universe u

structure Slots (α : Type u) where
  mem : Nat → α
  cnt : Nat

open Slots

variable {α : Type u}

def Slots.toList (self : Slots α) : List α := (List.range self.cnt).map self.mem

/-- The memory of the array with the slots that were touched so far. -/
structure Traced (α : Type u) where
  mem : Nat → α
  touched : List Nat

/-- `self->ptr[slot].~ElmTy()` -/
def Traced.destroy (self : Traced α) (slot : Nat) : Traced α :=
  { self with touched := self.touched ++ [slot] }

/-- `self->ptr[target] = move(self->ptr[source])` -/
def Traced.move (self : Traced α) (target source : Nat) : Traced α :=
  ⟨Function.update self.mem target (self.mem source), self.touched ++ [source, target]⟩

/-- The destructors of `num` slots from `idx` on. -/
def destroyAll (idx num : Nat) (self : Traced α) : Traced α :=
  ((List.range num).map (idx + ·)).foldl Traced.destroy self

/-- The moves into `steps` slots from `idx` on. -/
def shift (idx num : Nat) : Nat → Traced α → Traced α
  | 0, self => self
  | steps + 1, self => (shift idx num steps self).move (idx + steps) (idx + steps + num)

/-- The loop runs to the count, so its last turns read slots behind the array. -/
def Slots.eraseTraced (self : Slots α) (idx num : Nat) : Except Abort (Traced α × Nat) :=
  if self.cnt ≤ idx then .error (.eraseOutOfRange idx self.cnt)
  else if self.cnt < idx + num then .error (.eraseTooMany num idx (self.cnt - idx))
  else if idx + num = self.cnt then .ok (destroyAll idx num ⟨self.mem, []⟩, self.cnt - num)
  else .ok (shift idx num (self.cnt - idx) (destroyAll idx num ⟨self.mem, []⟩), self.cnt - num)

def Slots.eraseAt (self : Slots α) (idx num : Nat) : Except Abort (Slots α) :=
  (self.eraseTraced idx num).map fun (traced, cnt) => ⟨traced.mem, cnt⟩

/-- The slots that `erase_at` destroys, reads and writes. -/
def Slots.eraseSlots (self : Slots α) (idx num : Nat) : List Nat :=
  match self.eraseTraced idx num with
  | .ok (traced, _) => traced.touched
  | .error _ => []

@[simp]
theorem destroyAll_eq (idx num : Nat) (self : Traced α) :
    destroyAll idx num self = ⟨self.mem, self.touched ++ (List.range num).map (idx + ·)⟩ := by
  rw [destroyAll]
  induction (List.range num).map (idx + ·) generalizing self with
  | nil => simp
  | cons _ _ ih => simp [ih, Traced.destroy]

theorem Slots.eraseAt_cnt {self after : Slots α} (erased : self.eraseAt idx 1 = .ok after) :
    idx < self.cnt ∧ after.cnt = self.cnt - 1 := by
  unfold eraseAt eraseTraced at erased
  split at erased
  · cases erased
  rename_i inside
  split at erased
  · cases erased
  split at erased
  all_goals
    cases erased
    exact ⟨by omega, rfl⟩

/-- The loop of `remove_all_if`, from the iterator on. The predicate may look at
the memory of the array as it is by then. -/
def Slots.removeFrom (matches_ : (Nat → α) → α → Bool) (self : Slots α) (it : Nat) :
    Except Abort (Slots α) :=
  if self.cnt ≤ it then .ok self
  else if matches_ self.mem (self.mem it) then
    match _shrinks : self.eraseAt it 1 with
    | .error abort => .error abort
    | .ok after => after.removeFrom matches_ it
  else self.removeFrom matches_ (it + 1)
termination_by self.cnt - it
decreasing_by
  · have := eraseAt_cnt _shrinks
    omega
  · omega

def Slots.removeAllIf (self : Slots α) (matches_ : (Nat → α) → α → Bool) : Except Abort (Slots α) :=
  self.removeFrom matches_ 0

structure Thread where
  threadId : Word
  deriving DecidableEq

structure Process where
  processId : Word
  threads : Slots Thread

/-- `destroyThread(&proc->threads[i])`, and whether `destroyProcess` is called.
The predicate reads the id through the pointer, from slot `i`. -/
def destroyThread (proc : Process) (i : Nat) : Except Abort (Process × Bool) := do
  let left ← proc.threads.removeAllIf fun mem t => t.threadId == (mem i).threadId
  pure ({ proc with threads := left }, left.cnt == 0)

/-! What `erase_at` does to the slots. -/

def PrefixEq (count : Nat) (before after : Nat → α) : Prop :=
  ∀ index < count, after index = before index

theorem shift_apply (idx num steps : Nat) (self : Traced α) (index : Nat) :
    (shift idx num steps self).mem index =
      if idx ≤ index ∧ index < idx + steps then self.mem (index + num) else self.mem index := by
  induction steps generalizing index with
  | zero => rw [if_neg (by omega), shift]
  | succ steps ih =>
    rw [shift, Traced.move]
    dsimp only
    rcases eq_or_ne index (idx + steps) with rfl | other
    · -- the slot that is read is not written yet
      rw [Function.update_self, ih, if_neg (by omega), if_pos (by omega)]
    · rw [Function.update_of_ne other, ih]
      exact if_congr (by omega) rfl rfl

theorem shift_touched (idx num steps : Nat) (self : Traced α) :
    (shift idx num steps self).touched = self.touched ++
      (List.range steps).flatMap fun step => [idx + step + num, idx + step] := by
  induction steps with
  | zero => simp [shift]
  | succ steps ih => simp [shift, Traced.move, ih, List.range_succ]

theorem Slots.eraseAt_one (self : Slots α) (inside : idx < self.cnt) : ∃ after,
    self.eraseAt idx 1 = .ok after ∧ after.cnt = self.cnt - 1 ∧
      PrefixEq idx self.mem after.mem := by
  unfold eraseAt eraseTraced
  rw [if_neg (by omega), if_neg (by omega), destroyAll_eq]
  split
  · exact ⟨_, rfl, rfl, fun _ _ => rfl⟩
  · exact ⟨_, rfl, rfl, fun index _ => (shift_apply idx 1 _ _ index).trans (if_neg (by omega))⟩

theorem Slots.eraseSlots_eq (self : Slots α) (inside : idx < self.cnt)
    (enough : idx + num ≤ self.cnt) : self.eraseSlots idx num = (List.range num).map (idx + ·) ++
      if idx + num = self.cnt then []
      else (List.range (self.cnt - idx)).flatMap fun step => [idx + step + num, idx + step] := by
  unfold eraseSlots eraseTraced
  rw [if_neg (by omega), if_neg (by omega), destroyAll_eq]
  by_cases last : idx + num = self.cnt
  · simp [last]
  · simp [last, shift_touched]

theorem Slots.toList_take {before after : Slots α} {count : Nat} (cnt : after.cnt = count)
    (fits : count ≤ before.cnt)
    (same : PrefixEq count before.mem after.mem) : after.toList = before.toList.take count := by
  rw [toList, toList, cnt, ← map_take, take_range, Nat.min_eq_left fits]
  apply map_congr_left
  intro index low
  exact same index (mem_range.mp low)

def Slots.RemovesRange (self : Slots α) (idx num : Nat) : Prop :=
  (∃ after, self.eraseAt idx num = .ok after ∧
    after.toList = self.toList.take idx ++ self.toList.drop (idx + num)) ∧
    ∀ slot ∈ self.eraseSlots idx num, slot < self.cnt

theorem Slots.eraseAt_range (self : Slots α) (inside : idx < self.cnt)
    (enough : idx + num ≤ self.cnt) :
    ∃ after, self.eraseAt idx num = .ok after ∧
    after.toList = self.toList.take idx ++ self.toList.drop (idx + num) := by
  unfold eraseAt eraseTraced
  rw [if_neg (by omega), if_neg (by omega), destroyAll_eq]
  split
  · rename_i last
    refine ⟨_, rfl, ?_⟩
    rw [drop_of_length_le (by simp [toList, last]), append_nil]
    exact toList_take (by simp; omega) inside.le fun _ _ => rfl
  · refine ⟨_, rfl, ext_getElem (by simp [toList]; omega) ?_⟩
    intro _ low _
    simp only [toList, length_map, length_range] at low
    simp only [toList, getElem_map, getElem_range, shift_apply, getElem_append, length_take,
      length_map,
      length_range, getElem_take, getElem_drop]
    split_ifs <;> first | omega | (congr 1; omega) | rfl

/-- The elements are right. The slots behind the last one are left alone when no element moves. -/
theorem eraseAt_removes_range_iff {self : Slots α} (inside : idx < self.cnt)
    (enough : idx + num ≤ self.cnt) :
    self.RemovesRange idx num ↔ idx + num = self.cnt ∨ num = 0 := by
  have trace := self.eraseSlots_eq inside enough
  constructor
  · rintro ⟨_, slots⟩
    by_contra moves
    have last : self.cnt - 1 + num ∈ self.eraseSlots idx num := by
      rw [trace, if_neg (by tauto)]
      refine mem_append_right _ (mem_flatMap.mpr ⟨self.cnt - 1 - idx, mem_range.mpr (by omega), ?_⟩)
      simp only [mem_cons, not_mem_nil, or_false]
      omega
    have := slots _ last
    omega
  · intro _
    refine ⟨self.eraseAt_range inside enough, ?_⟩
    intro _ touched
    rw [trace] at touched
    rcases mem_append.mp touched with gone | moved
    · obtain ⟨step, low, rfl⟩ := mem_map.mp gone
      have := mem_range.mp low
      omega
    · split at moved
      · cases moved
      · obtain ⟨_, low, either⟩ := mem_flatMap.mp moved
        have := mem_range.mp low
        simp only [mem_cons, not_mem_nil, or_false] at either
        omega

theorem eraseAt_removes_range_last : (⟨id, 2⟩ : Slots Nat).RemovesRange 1 1 :=
  (eraseAt_removes_range_iff (by decide) (by decide)).mpr (.inl rfl)

/-- The first of two elements: the slot behind the second is read. -/
theorem eraseAt_reads_behind : 2 ∈ (⟨id, 2⟩ : Slots Nat).eraseSlots 0 1 ∧
    ¬ (⟨id, 2⟩ : Slots Nat).RemovesRange 0 1 :=
  ⟨by decide, fun removes => absurd (removes.2 2 (by decide)) (by decide)⟩

/-! A slot that is compared with itself always matches. -/

/-- Once the iterator is at the thread, everything from there on goes: after
every removal the next thread is in the slot that the pointer names. -/
theorem removeFrom_at (i count : Nat) (self : Slots Thread) (size : self.cnt = i + count) :
    ∃ after, self.removeFrom
    (fun mem t => t.threadId == (mem i).threadId) i = .ok after ∧ after.cnt = i ∧
      PrefixEq i self.mem after.mem := by
  induction count generalizing self with
  | zero =>
    rw [removeFrom, if_pos (by omega)]
    exact ⟨self, rfl, by omega, fun _ _ => rfl⟩
  | succ _ ih =>
    have inside : i < self.cnt := by omega
    obtain ⟨next, erased, _, same⟩ := self.eraseAt_one inside
    obtain ⟨after, removed, cntAfter, sameAfter⟩ := ih next (by omega)
    refine ⟨after, ?_, cntAfter, ?_⟩
    · rw [removeFrom, if_neg (by omega), if_pos (by simp)]
      split
      · rename_i abort error
        rw [erased] at error
        cases error
      · rename_i other ok
        rw [erased] at ok
        cases ok
        exact removed
    · intro index low
      rw [sameAfter index low, same index low]

theorem removeFrom_below {self : Slots Thread} (inside : i < self.cnt)
    (distinct : ∀ j < i, (self.mem j).threadId ≠ (self.mem i).threadId) (left : Nat) : left ≤ i →
      self.removeFrom
    (fun mem t => t.threadId == (mem i).threadId) (i - left) = self.removeFrom (fun mem t =>
    t.threadId == (mem i).threadId) i := by
  induction left with
  | zero => simp
  | succ left ih =>
    intro _
    have other := distinct (i - (left + 1)) (by omega)
    rw [removeFrom, if_neg (by omega), if_neg (by simpa using other), show i - (left + 1) + 1 =
      i - left by omega]
    exact ih (by omega)

theorem destroyThread_slots {proc : Process} (inside : i < proc.threads.cnt)
    (distinct : ∀ j < i, (proc.threads.mem j).threadId ≠ (proc.threads.mem i).threadId) :
    ∃ after, destroyThread proc i = .ok (after, i == 0) ∧ after.threads.cnt = i ∧
    PrefixEq i proc.threads.mem after.threads.mem := by
  obtain ⟨left, removed, cnt, same⟩ := removeFrom_at i (proc.threads.cnt - i) proc.threads
      (by omega)
  have reached := removeFrom_below inside distinct i le_rfl
  rw [Nat.sub_self, removed] at reached
  refine ⟨{ proc with threads := left }, ?_, cnt, same⟩
  rw [destroyThread, removeAllIf, reached, ← cnt]
  rfl

theorem destroyThread_leaves {proc : Process} (inside : i < proc.threads.cnt)
    (distinct : ∀ j < i, (proc.threads.mem j).threadId ≠ (proc.threads.mem i).threadId) :
    ∃ after, destroyThread proc i = .ok (after, i == 0) ∧ after.threads.toList =
      proc.threads.toList.take i := by
  obtain ⟨after, done, cnt, same⟩ := destroyThread_slots inside distinct
  exact ⟨after, done, toList_take cnt (by omega) same⟩

def RemovesOne (proc : Process) (i : Nat) : Prop :=
  ∃ after destroyed, destroyThread proc i = .ok (after, destroyed) ∧
    after.threads.toList = proc.threads.toList.eraseIdx i ∧
    (destroyed = true ↔ proc.threads.cnt = 1)

theorem destroyThread_removes_one_iff {proc : Process} {i : Nat} (inside : i < proc.threads.cnt)
    (distinct : ∀ j < proc.threads.cnt, ∀ k < proc.threads.cnt,
      (proc.threads.mem j).threadId = (proc.threads.mem k).threadId → j = k) :
    RemovesOne proc i ↔ i + 1 = proc.threads.cnt := by
  have others : ∀ j < i, (proc.threads.mem j).threadId ≠ (proc.threads.mem i).threadId := by
    intro j _ same
    have := distinct j (by omega) i inside same
    omega
  obtain ⟨after, done, left⟩ := destroyThread_leaves inside others
  have size : proc.threads.toList.length = proc.threads.cnt := by simp [toList]
  constructor
  · rintro ⟨_, _, doneToo, exactly, _⟩
    cases done.symm.trans doneToo
    rw [left] at exactly
    have lengths := congrArg List.length exactly
    rw [length_take, length_eraseIdx_of_lt (by omega), size] at lengths
    omega
  · intro _
    refine ⟨after, i == 0, done, ?_, ?_⟩
    · rw [left, eraseIdx_eq_take_drop_succ, drop_of_length_le (by omega), append_nil]
    · rw [beq_iff_eq]
      omega

def numbered (count : Nat) : Process := ⟨1, fun index => ⟨BitVec.ofNat 64 (index + 1)⟩, count⟩

/-- The last of two threads. -/
theorem destroyThread_removes_last : RemovesOne (numbered 2) 1 :=
  (destroyThread_removes_one_iff (by decide) (by decide)).mpr rfl

/-- The first of two: both are gone, and the process with them. -/
theorem destroyThread_removes_both : ∃ after,
    destroyThread (numbered 2) 0 = .ok (after, true) ∧ after.threads.toList = [] ∧
      ¬ RemovesOne (numbered 2) 0 := by
  have inside : 0 < (numbered 2).threads.cnt := by decide
  obtain ⟨after, done, left⟩ := destroyThread_leaves inside (by simp)
  refine ⟨after, done, left, ?_⟩
  rintro ⟨_, _, doneToo, _, onlyLast⟩
  cases done.symm.trans doneToo
  exact absurd (onlyLast.mp rfl) (by decide)

end Nx.ThreadArray
