import Nx.SmallStrings

/-!
Which buffer belongs to which string, and what every operation does to that.
-/

namespace Nx.StringBuffers

open Outcomes SmallStrings Function Option
open State hiding next setStr

/-! Buffers and who they belong to. -/

inductive Housed (st : State) (obj : Obj) (str : Str) : Prop where
  | short (ptr : str.ptr = .inlineBuffer obj) (cap : str.cap ≤ ssoBufSize)
      (cnt : str.cnt + 1 ≤ ssoBufSize)
  | long {addr size : Nat} (ptr : str.ptr = .heap addr) (sized : st.sizes addr = some size)
      (cap : str.cap ≤ size) (cnt : str.cnt + 1 ≤ size)

structure Sound (st : State) : Prop where
  housed : ∀ obj str, st.strs obj = some str → Housed st obj str
  alone : ∀ obj other str strOther addr, st.strs obj = some str →
    st.strs other = some strOther → str.ptr = .heap addr → strOther.ptr = .heap addr → obj = other
  small : ∀ addr size, st.sizes addr = some size → size < 2 ^ 63 ∧ addr < st.next

structure SameShape (before after : State) : Prop where
  strs : after.strs = before.strs
  sizes : after.sizes = before.sizes
  next : after.next = before.next

variable {other src dst : Obj} {α : Type} {ptr : Ptr} {size ofs addr atleast : Nat}
  {bytes : List Byte} {source target : Str}
variable {st after : State}

theorem Sound.congr (sound : Sound st) (same : SameShape st after) : Sound after := by
  constructor
  · intro obj str there
    rw [same.strs] at there
    cases sound.housed obj str there with
    | short ptr cap cnt => exact .short ptr cap cnt
    | long ptr sized cap cnt => exact .long ptr (same.sizes ▸ sized) cap cnt
  · rw [same.strs]
    exact sound.alone
  · rw [same.sizes, same.next]
    exact sound.small

theorem drop_other (differs : other ≠ obj) : (st.drop obj).strs other = st.strs other :=
  update_of_ne differs _ _

theorem drop_some (there : (st.drop obj).strs other = some found) :
    other ≠ obj ∧ st.strs other = some found := by
  by_cases same : other = obj
  · subst same
    simp [drop] at there
  · exact ⟨same, (drop_other same).symm.trans there⟩

theorem Sound.drop (sound : Sound st) (obj : Obj) : Sound (st.drop obj) := by
  constructor
  · intro other found there
    cases sound.housed other found (drop_some there).2 with
    | short ptr cap cnt => exact .short ptr cap cnt
    | long ptr sized cap cnt => exact .long ptr sized cap cnt
  · intro first second one two addr here there
    exact sound.alone first second one two addr (drop_some here).2 (drop_some there).2
  · exact sound.small

/-- One string is put in place of another. The buffers of the rest stay, and none
of them is the new one's. -/
theorem Sound.replace (sound : Sound (st.drop obj))
    (strs : after.strs = update st.strs obj (some str))
    (kept : ∀ other found addr, other ≠ obj → st.strs other = some found → found.ptr = .heap addr →
    after.sizes addr = st.sizes addr ∧ str.ptr ≠ .heap addr) (housed : Housed after obj str)
    (small : ∀ addr size, after.sizes addr = some size → size < 2 ^ 63 ∧ addr < after.next) :
      Sound after := by
  have elsewhere : ∀ other found, other ≠ obj → after.strs other = some found → st.strs other =
      some found := by
    intro other found differs there
    rw [strs, update_of_ne differs] at there
    exact there
  have here : after.strs obj = some str := by rw [strs, update_self]
  constructor
  · intro other found there
    by_cases same : other = obj
    · subst same
      cases here.symm.trans there
      exact housed
    · have before := elsewhere other found same there
      cases sound.housed other found ((drop_other same).trans before) with
      | short ptr cap cnt => exact .short ptr cap cnt
      | long ptr sized cap cnt =>
        exact .long ptr ((kept other found _ same before ptr).1.trans sized) cap cnt
  · intro first second one two addr firstThere secondThere onePtr twoPtr
    by_cases firstSame : first = obj
    · by_cases secondSame : second = obj
      · exact firstSame.trans secondSame.symm
      · subst firstSame
        cases here.symm.trans firstThere
        have before := elsewhere second two secondSame secondThere
        exact absurd onePtr (kept second two addr secondSame before twoPtr).2
    · have before := elsewhere first one firstSame firstThere
      by_cases secondSame : second = obj
      · subst secondSame
        cases here.symm.trans secondThere
        exact absurd twoPtr (kept first one addr firstSame before onePtr).2
      · exact sound.alone first second one two addr ((drop_other firstSame).trans before)
          ((drop_other secondSame).trans (elsewhere second two secondSame secondThere))
            onePtr twoPtr
  · exact small

theorem sizeAt_inline (st : State) (owner : Obj) :
    st.sizeAt (.inlineBuffer owner) = (st.strs owner).map fun _ => ssoBufSize := by
  simp [sizeAt, buffer, Function.comp_def]

theorem sizeAt_heap (st : State) (addr : Nat) : st.sizeAt (.heap addr) = st.sizes addr := rfl

theorem SameShape.sizeAt (same : SameShape st after) (ptr : Ptr) :
    after.sizeAt ptr = st.sizeAt ptr := by
  cases ptr with
  | null => rfl
  | inlineBuffer => rw [sizeAt_inline, sizeAt_inline, same.strs]
  | heap => rw [sizeAt_heap, sizeAt_heap, same.sizes]

theorem Housed.sizeAt (housed : Housed st obj str) (there : ∃ found, st.strs obj = some found) :
    ∃ size, st.sizeAt str.ptr = some size ∧ str.cap ≤ size ∧ str.cnt + 1 ≤ size := by
  cases housed with
  | short ptr cap cnt =>
    obtain ⟨_, isThere⟩ := there
    refine ⟨ssoBufSize, ?_, cap, cnt⟩
    rw [ptr, sizeAt_inline, isThere]
    rfl
  | @long _ size ptr sized cap cnt =>
    refine ⟨size, ?_, cap, cnt⟩
    rw [ptr]
    exact sized

theorem Sound.represented (sound : Sound st) : Represented st := by
  intro obj str there
  exact (sound.housed obj str there).sizeAt ⟨str, there⟩

theorem Housed.cnt_lt (sound : Sound st) (housed : Housed st obj str) : str.cnt + 1 < 2 ^ 63 := by
  cases housed with
  | short ptr cap cnt =>
    unfold ssoBufSize at cnt
    omega
  | long _ sized _ _ =>
    have small := (sound.small _ _ sized).1
    omega

/-! The primitives. -/

theorem getStr_then (there : st.strs obj = some str) (rest : Ends (next str) st done failed) :
    Ends (getStr obj >>= next) st done failed := by
  apply ends_bind
  apply ends_get
  rw [there]
  exact ends_pure _ rest

theorem getStr_any (missing : st.strs obj = none → failed (.noString obj))
    (rest : ∀ str, st.strs obj = some str →
    Ends (next str) st done failed) : Ends (getStr obj >>= next) st done failed := by
  cases there : st.strs obj with
  | some str => exact getStr_then there (rest str there)
  | none =>
    apply ends_bind
    apply ends_get
    rw [there]
    exact ends_throw _ (missing there)

theorem setStr_then {next : PUnit → Code α} (rest :
    Ends (next ⟨⟩) (st.setStr obj str) done failed) :
    Ends (setStr obj str >>= next) st done failed := by
  apply ends_bind
  apply ends_get
  exact ends_set _ rest

theorem readBytes_ends {num : Nat} (sized : st.sizeAt ptr = some size) (inside : num ≤ size) :
    Ends (readBytes ptr num) st (fun bytes after => bytes.length = num ∧ after = st) failed := by
  apply ends_get
  obtain ⟨_, found, rfl⟩ := map_eq_some_iff.mp sized
  rw [found]
  dsimp only
  rw [if_pos inside]
  exact ends_pure _ ⟨by simp, rfl⟩

theorem setBytes_sameShape (st : State) (ptr : Ptr) (bytes : Nat → Byte) :
    SameShape st (st.setBytes ptr bytes) := by
  cases ptr with
  | null | inlineBuffer owner => exact ⟨rfl, rfl, rfl⟩
  | heap addr =>
    refine ⟨rfl, ?_, rfl⟩
    funext other
    by_cases same : other = addr
    · subst same
      simp [sizes, setBytes, Function.comp_def]
    · simp [sizes, setBytes, same]

theorem writeBytes_ends (sized : st.sizeAt ptr = some size) (inside : ofs + bytes.length ≤ size) :
    Ends (writeBytes ptr ofs bytes) st (fun _ after => SameShape st after) failed := by
  apply ends_get
  obtain ⟨_, found, rfl⟩ := map_eq_some_iff.mp sized
  rw [found]
  dsimp only
  rw [if_pos inside]
  exact ends_set _ (setBytes_sameShape st ptr _)

theorem writeBytes_overflows (sized : st.sizeAt ptr = some size)
    (outside : size < ofs + bytes.length) {done : PUnit →
    State → Prop} : Ends (writeBytes ptr ofs bytes) st done fun fault => fault.memory = true := by
  apply ends_get
  obtain ⟨_, found, rfl⟩ := map_eq_some_iff.mp sized
  rw [found]
  dsimp only
  rw [if_neg (by omega)]
  exact ends_throw _ rfl

theorem allocate_ends (size : Nat) :
    Ends (allocate size) st (fun ptr after => size < 2 ^ 63 ∧ ptr = .heap st.next ∧
    after.strs = st.strs ∧ after.sizes = update st.sizes st.next (some size) ∧
      after.next = st.next + 1) (fun fault =>
    fault = .allocReturnedNull ∧ 2 ^ 63 ≤ size) := by
  apply ends_get
  by_cases large : 2 ^ 63 ≤ size
  · rw [if_pos large]
    exact ends_bind (ends_throw _ ⟨rfl, large⟩)
  · rw [if_neg large]
    apply ends_put
    refine ends_pure _ ⟨by omega, rfl, rfl, ?_, rfl⟩
    funext other
    by_cases same : other = st.next
    · subst same
      simp [sizes]
    · simp [sizes, same]

def releasedSizes (st : State) : Ptr → Nat → Option Nat
  | .heap addr => update st.sizes addr none
  | _ => st.sizes

theorem release_ends (housed : Housed st obj str) :
    Ends (release obj str.ptr) st (fun _ after => after.strs = st.strs ∧
    after.sizes = releasedSizes st str.ptr ∧ after.next = st.next) failed := by
  cases housed with
  | short ptr cap cnt =>
    rw [ptr, release, if_neg (by simp)]
    exact ends_pure _ ⟨rfl, rfl, rfl⟩
  | @long addr _ ptr sized _ _ =>
    rw [ptr, release, if_pos (by simp)]
    apply ends_get
    rw [sizes, map_eq_some_iff] at sized
    obtain ⟨_, found, _⟩ := sized
    dsimp only
    rw [found]
    refine ends_set _ ⟨rfl, ?_, rfl⟩
    funext other
    by_cases same : other = addr
    · subst same
      simp [sizes, releasedSizes]
    · simp [sizes, releasedSizes, same]

/-! Growing. -/

/-- The string has room for `atleast` bytes and a zero now; nothing else about it
and the other strings has changed. -/
structure Reserved (before after : State) (obj : Obj) (str : Str) (atleast : Nat) : Prop where
  sound : Sound after
  self : ∃ ptr cap, after.strs obj = some ⟨ptr, str.cnt, cap⟩ ∧ wrap (atleast + 1) ≤ cap
  others : ∀ other ≠ obj, after.strs other = before.strs other

theorem releasedSizes_some (sized : releasedSizes st ptr addr = some size) :
    st.sizes addr = some size := by
  cases ptr with
  | null | inlineBuffer owner => exact sized
  | heap old =>
    by_cases same : addr = old
    · subst same
      simp [releasedSizes] at sized
    · rwa [releasedSizes, update_of_ne same] at sized

theorem releasedSizes_of_ne (differs : ptr ≠ .heap addr) :
    releasedSizes st ptr addr = st.sizes addr := by
  cases ptr with
  | null | inlineBuffer owner => rfl
  | heap old =>
    have apart : addr ≠ old := by
      rintro rfl
      exact differs rfl
    rw [releasedSizes, update_of_ne apart]

theorem Sound.other_apart (sound : Sound st) (there : st.strs obj = some str)
    (differs : other ≠ obj)
    (otherThere : st.strs other = some found) (ptr : found.ptr = .heap addr) :
    str.ptr ≠ .heap addr ∧ addr < st.next := by
  constructor
  · intro same
    exact differs (sound.alone other obj found str addr otherThere there ptr same)
  · cases sound.housed other found otherThere with
    | short inlinePtr => simp [inlinePtr] at ptr
    | long heapPtr sized =>
      rw [heapPtr] at ptr
      cases ptr
      exact (sound.small _ _ sized).2

theorem Housed.ne_next (housed : Housed st obj str) (sound : Sound st) :
    str.ptr ≠ .heap st.next := by
  cases housed with
  | short ptr => simp [ptr]
  | long ptr sized =>
    have apart := (sound.small _ _ sized).2
    rw [ptr]
    intro same
    cases same
    omega

theorem Housed.allocated (housed : Housed st obj str) (sound : Sound st)
    (sizes : after.sizes = update st.sizes st.next (some room)) : Housed after obj str := by
  cases housed with
  | short ptr cap cnt => exact .short ptr cap cnt
  | @long addr size ptr sized cap cnt =>
    have apart := (sound.small _ _ sized).2
    refine .long ptr (?_ : after.sizes addr = some size) cap cnt
    rw [sizes, update_of_ne (by omega)]
    exact sized

theorem Housed.sizeAt_allocated (housed : Housed st obj str) (sound : Sound st)
    (strs : after.strs = st.strs)
    (sizes : after.sizes = update st.sizes st.next (some room))
    (sized : st.sizeAt str.ptr = some size) : after.sizeAt str.ptr = some size := by
  cases housed with
  | short ptr =>
    rw [ptr] at sized ⊢
    rwa [sizeAt_inline, strs, ← sizeAt_inline]
  | long ptr oldSized =>
    rw [ptr] at sized ⊢
    have apart := (sound.small _ _ oldSized).2
    rw [sizeAt_heap, sizes, update_of_ne (by omega)]
    exact sized

theorem implReserve_enough (there : st.strs obj = some str)
    (enough : wrap (atleast + 1) ≤ str.cap) :
    Ends (implReserve obj atleast) st (fun grown after => grown = false ∧ after = st) failed := by
  apply getStr_then there
  rw [if_pos enough]
  exact ends_pure _ ⟨rfl, rfl⟩

theorem implReserve_grows (sound : Sound st) (there : st.strs obj = some str)
    (more : str.cap < wrap (atleast + 1)) (room : str.cnt ≤ newSize str.cap (wrap (atleast + 1))) :
    Ends (implReserve obj atleast) st (fun grown after => grown = true ∧
      newSize str.cap (wrap (atleast + 1)) < 2 ^ 63 ∧
        after.strs = update st.strs obj (some { str with
          ptr := .heap st.next, cap := newSize str.cap (wrap (atleast + 1)) }) ∧
        after.sizes = update st.sizes st.next (some (newSize str.cap (wrap (atleast + 1)))) ∧
        after.next = st.next + 1)
      (fun fault => fault = .allocReturnedNull) := by
  apply getStr_then there
  rw [if_neg (by omega)]
  apply ends_call (allocate_ends _)
  · rintro _ ⟨rfl, _⟩
    rfl
  rintro _ allocated ⟨small, rfl, strs, sizes, next⟩
  have ⟨size, sized, _, cnt⟩ := (sound.housed obj str there).sizeAt ⟨str, there⟩
  have sizedNow := (sound.housed obj str there).sizeAt_allocated sound strs sizes sized
  apply ends_read (readBytes_ends sizedNow (by omega))
  intro _ _
  have fresh : allocated.sizeAt (.heap st.next) = some (newSize str.cap (wrap (atleast + 1))) := by
    rw [sizeAt_heap, sizes, update_self]
  apply ends_seq (writeBytes_ends fresh (by omega))
  intro _ _ same
  apply setStr_then
  refine ends_pure _ ⟨rfl, small, ?_, ?_, ?_⟩
  · rw [State.setStr, same.strs, strs]
  · rw [← sizes, ← same.sizes]
    rfl
  · rw [← next, ← same.next]
    rfl

theorem reserve_ends (sound : Sound st) (there : st.strs obj = some str) (atleast : Nat)
    (room : str.cap < wrap (atleast + 1) → str.cnt + 1 ≤ newSize str.cap (wrap (atleast + 1))) :
    Ends (reserve obj atleast) st (fun _ after => Reserved st after obj str atleast) (fun fault =>
    fault.memory = false ∧ str.cap < wrap (atleast + 1)) := by
  apply getStr_then there
  by_cases enough : wrap (atleast + 1) ≤ str.cap
  · apply ends_seq (implReserve_enough there enough)
    rintro _ _ ⟨rfl, rfl⟩
    exact ends_pure _ ⟨sound, ⟨str.ptr, str.cap, there, enough⟩, fun _ _ => rfl⟩
  have fits := room (by omega)
  apply ends_call (implReserve_grows sound there (by omega) (by omega))
  · rintro _ rfl
    exact ⟨rfl, by omega⟩
  rintro _ grown ⟨rfl, small, strs, sizes, next⟩
  rw [if_pos rfl]
  -- the old buffer is still there, and not the new one
  have oldHoused : Housed grown obj str := (sound.housed obj str there).allocated sound sizes
  apply ends_imp (release_ends oldHoused)
  rintro _ after ⟨afterStrs, afterSizes, afterNext⟩
  rw [strs] at afterStrs
  rw [next] at afterNext
  have oldPtr := (sound.housed obj str there).ne_next sound
  have newSized : after.sizes st.next = some (newSize str.cap (wrap (atleast + 1))) := by
    rw [afterSizes, releasedSizes_of_ne oldPtr, sizes, update_self]
  refine ⟨?_, ⟨.heap st.next, newSize str.cap (wrap (atleast + 1)), ?_, ?_⟩, ?_⟩
  · apply Sound.replace (sound.drop obj) afterStrs
    · intro other _ addr differs otherThere ptr
      have ⟨oldApart, below⟩ := sound.other_apart there differs otherThere ptr
      rw [afterSizes, releasedSizes_of_ne oldApart, sizes, update_of_ne (by omega)]
      refine ⟨rfl, ?_⟩
      intro same
      cases same
      omega
    · exact .long rfl newSized (le_refl _) fits
    · intro addr size sized
      rw [afterSizes] at sized
      have before := releasedSizes_some sized
      rw [sizes] at before
      rw [afterNext]
      by_cases same : addr = st.next
      · subst same
        rw [update_self] at before
        cases before
        exact ⟨small, by omega⟩
      · rw [update_of_ne same] at before
        have ⟨oldSmall, below⟩ := sound.small addr size before
        exact ⟨oldSmall, by omega⟩
  · rw [afterStrs, update_self]
  · unfold newSize
    omega
  · intro _ differs
    rw [afterStrs, update_of_ne differs]

/-! The operations. -/

section Operations

variable {obj : Obj} {str : Str} {text : List Byte}

theorem setStr_sizeAt (there : st.strs obj = some str) (new : Str) (ptr : Ptr) :
    (st.setStr obj new).sizeAt ptr = st.sizeAt ptr := by
  cases ptr with
  | null | heap addr => rfl
  | inlineBuffer owner =>
    rw [sizeAt_inline, sizeAt_inline]
    by_cases same : owner = obj
    · subst same
      simp [State.setStr, there]
    · simp [State.setStr, same]

theorem Sound.recount (sound : Sound st) (there : st.strs obj = some ⟨ptr, cnt, cap⟩)
    (room : new + 1 ≤ cap)
    (same : SameShape (st.setStr obj ⟨ptr, new, cap⟩) after) : Sound after := by
  apply Sound.replace (sound.drop obj) same.strs
  · intro _ _ addr differs otherThere otherPtr
    have apart := (sound.other_apart there differs otherThere otherPtr).1
    exact ⟨congrFun same.sizes addr, apart⟩
  · cases sound.housed obj _ there with
    | short home small =>
      exact .short home small (le_trans room small)
    | @long addr size home sized small =>
      exact .long home (same.sizes ▸ sized : after.sizes addr = some size) small
        (le_trans room small)
  · rw [same.sizes, same.next]
    exact sound.small

theorem newObject_ends (obj : Obj) (str : Str) :
    Ends (newObject obj str) st (fun _ after => st.strs obj = none ∧
    SameShape (st.setStr obj str) after) (fun fault => fault.memory = false ∧
      st.strs obj ≠ none) := by
  apply ends_get
  cases there : st.strs obj with
  | some => exact ends_throw _ ⟨rfl, by simp⟩
  | none => exact ends_set _ ⟨rfl, rfl, rfl, rfl⟩

theorem finish_ends (sound : Sound st) (there : st.strs obj = some ⟨ptr, cnt, cap⟩)
    (sized : st.sizeAt ptr = some size) (capFits : cap ≤ size) (count : new = ofs + bytes.length)
    (room : new + 1 ≤ cap) : Ends (do
        writeBytes ptr ofs bytes
        setStr obj ⟨ptr, new, cap⟩
        writeBytes ptr new [0]) st
      (fun _ after => Sound after ∧ after.strs = update st.strs obj (some ⟨ptr, new, cap⟩))
        failed := by
  apply ends_seq (writeBytes_ends sized (by omega))
  intro _ written same
  apply setStr_then
  have thereNow : written.strs obj = some ⟨ptr, cnt, cap⟩ := by rw [same.strs, there]
  have soundNow := sound.congr same
  have sizedNow : (written.setStr obj ⟨ptr, new, cap⟩).sizeAt ptr = some size := by
    rw [setStr_sizeAt thereNow, same.sizeAt, sized]
  apply ends_imp (writeBytes_ends sizedNow (by simpa using (by omega : new + 1 ≤ size)))
  intro _ _ last
  refine ⟨soundNow.recount thereNow room last, ?_⟩
  rw [last.strs, State.setStr, same.strs]

structure Constructed (before after : State) (obj : Obj) (cnt : Nat) : Prop where
  wasFree : before.strs obj = none
  sound : Sound after
  self : ∃ ptr cap, after.strs obj = some ⟨ptr, cnt, cap⟩
  others : ∀ other ≠ obj, after.strs other = before.strs other

theorem wrap_of_lt (small : num < 2 ^ 64) : wrap num = num := Nat.mod_eq_of_lt small

theorem Sound.emptied (sound : Sound st)
    (same : SameShape (st.setStr src ⟨.inlineBuffer src, 0, ssoBufSize⟩) after) : Sound after := by
  apply Sound.replace (sound.drop src) same.strs
  · intro _ _ addr _ _ _
    exact ⟨congrFun same.sizes addr, by simp⟩
  · exact .short rfl (le_refl ssoBufSize) (show 0 + 1 ≤ ssoBufSize by decide)
  · rw [same.sizes, same.next]
    exact sound.small

theorem construct_ends (sound : Sound st) (obj : Obj) (small : text.length < 2 ^ 63) :
    Ends (construct obj text) st
    (fun _ after => Constructed st after obj text.length) (fun fault => fault.memory = false ∧
    (st.strs obj = none → ssoBufSize ≤ text.length)) := by
  apply ends_call (newObject_ends obj _)
  · rintro _ ⟨quiet, there⟩
    exact ⟨quiet, fun missing => absurd missing there⟩
  rintro _ made ⟨wasFree, same⟩
  have there : made.strs obj = some ⟨.inlineBuffer obj, 0, ssoBufSize⟩ := by
    rw [same.strs]
    exact update_self _ _ _
  have soundNow := sound.emptied same
  have others : ∀ other ≠ obj, made.strs other = st.strs other := by
    intro other differs
    rw [same.strs]
    exact update_of_ne differs _ _
  by_cases empty : text = []
  · rw [if_pos empty, empty]
    exact ends_pure _ ⟨wasFree, soundNow, ⟨_, _, there⟩, others⟩
  rw [if_neg empty]
  apply ends_call (reserve_ends soundNow there text.length
    (fun _ => le_trans (show 0 + 1 ≤ 16 by decide) (le_max_left _ _)))
  · rintro _ ⟨quiet, more⟩
    rw [wrap_of_lt (by omega)] at more
    exact ⟨quiet, fun _ => Nat.lt_succ_iff.mp more⟩
  rintro _ ready reserved
  obtain ⟨ptr, cap, readyThere, room⟩ := reserved.self
  rw [wrap_of_lt (by omega)] at room
  have ⟨size, sized, capFits, _⟩ := (reserved.sound.housed obj _ readyThere).sizeAt ⟨_, readyThere⟩
  apply getStr_then readyThere
  apply setStr_then
  have sizedNow : (ready.setStr obj ⟨ptr, text.length, cap⟩).sizeAt ptr = some size := by
    rw [setStr_sizeAt readyThere]
    exact sized
  have countedSound : Sound (ready.setStr obj ⟨ptr, text.length, cap⟩) :=
    reserved.sound.recount readyThere room ⟨rfl, rfl, rfl⟩
  apply ends_seq (writeBytes_ends sizedNow (by dsimp only at capFits; omega))
  intro _ written first
  have stillSized : written.sizeAt ptr = some size := (first.sizeAt ptr).trans sizedNow
  apply ends_imp (writeBytes_ends stillSized
    (by simpa using (by dsimp only at capFits; omega : text.length + 1 ≤ size))) _
  intro _ after last
  have strs : after.strs = update ready.strs obj (some ⟨ptr, text.length, cap⟩) := by
    rw [last.strs, first.strs]
    rfl
  refine ⟨wasFree, (countedSound.congr first).congr last, ⟨ptr, cap, ?_⟩, ?_⟩
  · rw [strs, update_self]
  · intro other differs
    rw [strs, update_of_ne differs, reserved.others other differs, others other differs]

theorem copyConstruct_ends (sound : Sound st) (obj other : Obj) :
    Ends (copyConstruct obj other) st (fun _ after =>
    ∃ source, st.strs other = some source ∧ Constructed st after obj source.cnt)
      (fun fault => fault.memory = false ∧
    ∀ source, st.strs other = some source → st.strs obj = none → ssoBufSize ≤ source.cnt) := by
  apply getStr_any
  · intro missing
    exact ⟨rfl, fun source there => by simp [missing] at there⟩
  intro source there
  have housed := sound.housed other source there
  have ⟨size, sized, _, cnt⟩ := housed.sizeAt ⟨source, there⟩
  apply ends_read (readBytes_ends sized (by omega))
  intro _ length
  have small := housed.cnt_lt sound
  apply ends_mono (construct_ends sound obj (by omega))
  · intro _ _ constructed
    exact ⟨source, there, length ▸ constructed⟩
  · rintro _ ⟨quiet, long⟩
    refine ⟨quiet, ?_⟩
    intro _ foundThere missing
    cases there.symm.trans foundThere
    exact length ▸ long missing

def Overstated (st : State) (obj : Obj) : Prop :=
  ∃ str, st.strs obj = some str ∧ str.ptr = .inlineBuffer obj ∧ ssoBufSize < str.cap

theorem Overstated.not_represented (overstated : Overstated st obj) : ¬ Represented st := by
  intro represented
  obtain ⟨str, there, ptr, _⟩ := overstated
  obtain ⟨_, sized, cap, _⟩ := represented obj str there
  rw [ptr, sizeAt_inline, there] at sized
  cases sized
  dsimp only at cap
  omega

/-- The source ends up empty, the target with what the source had. Only if the
target keeps a capacity above that of its inline buffer is the result unsound. -/
structure Moved (before after : State) (dst src : Obj) (source target : Str) : Prop where
  self : ∃ ptr cap, after.strs dst = some ⟨ptr, source.cnt, cap⟩
  emptied : after.strs src = some ⟨.inlineBuffer src, 0, ssoBufSize⟩
  others : ∀ other ≠ dst, other ≠ src → after.strs other = before.strs other
  sound : (source.cnt < ssoBufSize → target.cap ≤ ssoBufSize) → Sound after
  broken : source.cnt < ssoBufSize → ssoBufSize < target.cap → Overstated after dst

theorem drop_setStr (differs : dst ≠ src) (st : State) (str : Str) :
    (st.setStr src str).drop dst = (st.drop dst).setStr src str := by
  simp [drop, State.setStr, update_comm differs]

section Contents

variable (differs : dst ≠ src) (sound : Sound (st.drop dst))
variable (dstThere : st.strs dst = some target) (srcThere : st.strs src = some source)

include differs sound

theorem rest_sound : Sound ((st.setStr src ⟨.inlineBuffer src, 0, ssoBufSize⟩).drop dst) := by
  rw [drop_setStr differs]
  exact sound.emptied ⟨rfl, rfl, rfl⟩

include dstThere srcThere

theorem moveContents_short (short : source.cnt < ssoBufSize) :
    Ends (moveContents dst src) st (fun _ after => Moved st after dst src source target)
      failed := by
  apply getStr_then srcThere
  apply getStr_then dstThere
  apply setStr_then
  rw [if_pos short]
  apply setStr_then
  have srcDropped : (st.drop dst).strs src = some source := (drop_other differs.symm).trans srcThere
  have housed := sound.housed src source srcDropped
  have ⟨size, sized, _, cnt⟩ := housed.sizeAt ⟨source, srcDropped⟩
  obtain ⟨middle, middleDef⟩ : ∃ middle, middle =
      (st.setStr src { source with cnt := 0 }).setStr dst
    { target with ptr := .inlineBuffer dst, cnt := source.cnt } := ⟨_, rfl⟩
  rw [← middleDef]
  have middleDst : middle.strs dst = some ⟨.inlineBuffer dst, source.cnt, target.cap⟩ := by
    rw [middleDef]
    exact update_self _ _ _
  have middleSized : middle.sizeAt source.ptr = some size := by
    have firstDst : (st.setStr src { source with cnt := 0 }).strs dst = some target := by
      rw [← dstThere]
      exact update_of_ne differs _ _
    rw [middleDef, setStr_sizeAt firstDst, setStr_sizeAt srcThere]
    cases housed with
    | short ptr =>
      rw [ptr, sizeAt_inline] at sized ⊢
      rwa [srcThere, ← srcDropped]
    | long ptr =>
      rw [ptr] at sized ⊢
      exact sized
  apply ends_read (readBytes_ends middleSized (by omega))
  intro _ _
  have inlineSized : middle.sizeAt (.inlineBuffer dst) = some ssoBufSize := by
    rw [sizeAt_inline, middleDst]
    rfl
  apply ends_seq (writeBytes_ends inlineSized (by omega))
  intro _ _ first
  apply ends_seq (writeBytes_ends ((first.sizeAt _).trans inlineSized) (by simpa using short))
  intro _ closed second
  apply ends_get
  apply ends_set
  obtain ⟨after, afterDef⟩ : ∃ after, after = closed.setStr src
      ⟨.inlineBuffer src, 0, ssoBufSize⟩ := ⟨_, rfl⟩
  rw [← afterDef]
  have strs : after.strs = update (update st.strs src (some ⟨.inlineBuffer src, 0, ssoBufSize⟩)) dst
      (some ⟨.inlineBuffer dst, source.cnt, target.cap⟩) := by
    rw [afterDef, State.setStr, second.strs, first.strs, middleDef]
    dsimp only [State.setStr]
    rw [update_comm differs, update_idem]
  have sizes : after.sizes = st.sizes := by
    have outer : after.sizes = closed.sizes := by
      rw [afterDef]
      rfl
    rw [outer, second.sizes, first.sizes, middleDef]
    rfl
  have next : after.next = st.next := by
    have outer : after.next = closed.next := by
      rw [afterDef]
      rfl
    rw [outer, second.next, first.next, middleDef]
    rfl
  have afterDst : after.strs dst = some ⟨.inlineBuffer dst, source.cnt, target.cap⟩ := by
    rw [strs, update_self]
  constructor
  · exact ⟨_, _, afterDst⟩
  · rw [strs, update_of_ne differs.symm, update_self]
  · intro other notDst notSrc
    rw [strs, update_of_ne notDst, update_of_ne notSrc]
  · intro careful
    apply Sound.replace (rest_sound differs sound) strs
    · intro _ _ addr _ _ _
      exact ⟨congrFun sizes addr, by simp⟩
    · exact .short rfl (careful short) short
    · rw [sizes, next]
      exact sound.small
  · intro _ large
    exact ⟨_, afterDst, rfl, large⟩

theorem moveContents_long (long : ¬ source.cnt < ssoBufSize) :
    Ends (moveContents dst src) st (fun _ after => Moved st after dst src source target)
      failed := by
  apply getStr_then srcThere
  apply getStr_then dstThere
  apply setStr_then
  rw [if_neg long]
  apply setStr_then
  apply ends_get
  apply ends_set
  obtain ⟨after, afterDef⟩ : ∃ after, after =
    ((st.setStr src { source with cnt := 0 }).setStr dst
      ⟨source.ptr, source.cnt, source.cap⟩).setStr
      src ⟨.inlineBuffer src, 0, ssoBufSize⟩ := ⟨_, rfl⟩
  rw [← afterDef]
  have strs : after.strs = update (update st.strs src (some ⟨.inlineBuffer src, 0, ssoBufSize⟩)) dst
      (some source) := by
    rw [afterDef]
    dsimp only [State.setStr]
    rw [update_comm differs, update_idem]
  have srcDropped : (st.drop dst).strs src = some source := (drop_other differs.symm).trans srcThere
  constructor
  · exact ⟨source.ptr, source.cap, by rw [strs, update_self]⟩
  · rw [strs, update_of_ne differs.symm, update_self]
  · intro other notDst notSrc
    rw [strs, update_of_ne notDst, update_of_ne notSrc]
  · intro _
    apply Sound.replace (rest_sound differs sound) strs
    · intro other found addr notDst there ptr
      refine ⟨by rw [afterDef]; rfl, ?_⟩
      -- only the source had this buffer, and it has let go of it
      intro same
      by_cases isSrc : other = src
      · subst isSrc
        simp only [State.setStr, update_self, Option.some.injEq] at there
        rw [← there] at ptr
        cases ptr
      · simp only [State.setStr, update_of_ne isSrc] at there
        have before : (st.drop dst).strs other = some found := (drop_other notDst).trans there
        exact isSrc (sound.alone other src found source addr before srcDropped ptr same)
    · cases sound.housed src source srcDropped with
      | short _ _ cnt => exact absurd (by omega) long
      | @long addr size ptr sized cap cnt =>
        refine .long ptr (?_ : after.sizes addr = some size) cap cnt
        rw [afterDef]
        exact sized
    · rw [afterDef]
      exact sound.small
  · intro short
    exact absurd short long

theorem moveContents_ends :
    Ends (moveContents dst src) st (fun _ after => Moved st after dst src source target)
      failed := by
  by_cases short : source.cnt < ssoBufSize
  · exact moveContents_short differs sound dstThere srcThere short
  · exact moveContents_long differs sound dstThere srcThere short

end Contents

section

variable (sound : Sound st)
include sound

theorem moveConstruct_ends (obj other : Obj) :
    Ends (moveConstruct obj other) st (fun _ after => Sound after ∧
    ∀ third ≠ obj, st.strs third = none → after.strs third = none)
      (fun fault => fault.memory = false) := by
  refine getStr_any (fun _ => rfl) ?_
  intro source there
  apply ends_call (newObject_ends obj _) (fun _ aborted => aborted.1)
  rintro _ made ⟨wasFree, same⟩
  have differs : obj ≠ other := by
    rintro rfl
    rw [there] at wasFree
    cases wasFree
  have objThere : made.strs obj = some ⟨.null, 0, 0⟩ := by
    rw [same.strs]
    exact update_self _ _ _
  have otherThere : made.strs other = some source := by
    rw [same.strs, ← there]
    exact update_of_ne differs.symm _ _
  have soundRest : Sound (made.drop obj) := by
    apply (sound.drop obj).congr
    refine ⟨?_, same.sizes, same.next⟩
    rw [drop, same.strs]
    exact update_idem _ _ _
  apply ends_imp (moveContents_ends differs soundRest objThere otherThere)
  intro _ _ moved
  refine ⟨moved.sound (fun _ => Nat.zero_le _), ?_⟩
  intro third notObj missing
  have notOther : third ≠ other := by
    rintro rfl
    rw [there] at missing
    cases missing
  rw [moved.others third notObj notOther, same.strs, ← missing]
  exact update_of_ne notObj _ _

theorem moveAssign_ends (differs : obj ≠ other) : Ends (moveAssign obj other) st (fun _ after =>
    ∃ target source, st.strs obj = some target ∧ st.strs other = some source ∧
      Moved st after obj other source target)
    (fun fault => fault.memory = false ∧ (st.strs obj = none ∨ st.strs other = none)) := by
  rw [moveAssign, if_pos differs]
  apply getStr_any (fun missing => ⟨rfl, .inl missing⟩)
  intro target there
  apply ends_seq (release_ends (sound.housed obj target there))
  rintro _ released ⟨strs, sizes, next⟩
  have objThere : released.strs obj = some target := by rw [strs, there]
  have soundRest : Sound (released.drop obj) := by
    constructor
    · intro third found thirdThere
      have ⟨notObj, before⟩ := drop_some thirdThere
      rw [strs] at before
      cases sound.housed third found before with
      | short ptr cap cnt => exact .short ptr cap cnt
      | @long addr size ptr sized cap cnt =>
        refine .long ptr (?_ : released.sizes addr = some size) cap cnt
        have apart := (sound.other_apart there notObj before ptr).1
        rw [sizes, releasedSizes_of_ne apart]
        exact sized
    · intro first second one two addr firstThere secondThere
      apply sound.alone first second one two addr
      · rw [← strs]
        exact (drop_some firstThere).2
      · rw [← strs]
        exact (drop_some secondThere).2
    · intro addr size sized
      have before : releasedSizes st target.ptr addr = some size := by
        rw [← sizes]
        exact sized
      have ⟨small, below⟩ := sound.small addr size (releasedSizes_some before)
      exact ⟨small, next ▸ below⟩
  cases otherThere : st.strs other with
  | none =>
    apply getStr_any (fun _ => ⟨rfl, .inr rfl⟩)
    intro source found
    rw [strs, otherThere] at found
    cases found
  | some source =>
    apply ends_imp (moveContents_ends differs soundRest objThere (by rw [strs, otherThere]))
    intro _ _ moved
    refine ⟨target, source, there, rfl, ?_⟩
    constructor
    · exact moved.self
    · exact moved.emptied
    · intro third notObj notOther
      rw [moved.others third notObj notOther, strs]
    · exact moved.sound
    · exact moved.broken

theorem copyAssign_ends (noTemp : st.strs none = none) {obj other : Nat} (differs : obj ≠ other) :
    Ends (copyAssign obj other) st (fun _ after => after.strs none = none ∧ ∃ target source,
      st.strs obj = some target ∧
    st.strs other = some source ∧ ((source.cnt < ssoBufSize → target.cap ≤ ssoBufSize) →
      Sound after) ∧
    (source.cnt < ssoBufSize → ssoBufSize < target.cap → Overstated after obj))
      (fun fault => fault.memory = false ∧
    ∀ target source, st.strs obj = some target → st.strs other = some source →
      ssoBufSize ≤ source.cnt) := by
  have distinct : (some obj : Obj) ≠ some other := by simpa using differs
  rw [copyAssign, if_pos distinct]
  apply ends_call (copyConstruct_ends sound none other)
  · rintro _ ⟨quiet, long⟩
    exact ⟨quiet, fun _ source _ there => long source there noTemp⟩
  rintro _ _ ⟨source, there, constructed⟩
  obtain ⟨ptr, _, copiedTemp⟩ := constructed.self
  have sameObj := constructed.others (some obj) (by simp)
  apply ends_call (moveAssign_ends constructed.sound (by simp))
  · rintro _ ⟨quiet, missing | missing⟩
    · refine ⟨quiet, fun target _ objThere => ?_⟩
      rw [← sameObj, missing] at objThere
      cases objThere
    · rw [copiedTemp] at missing
      cases missing
  rintro _ assigned ⟨target, temp, objThere, tempThere, moved⟩
  have counts : temp.cnt = source.cnt := by
    rw [copiedTemp] at tempThere
    cases tempThere
    rfl
  apply getStr_then moved.emptied
  apply ends_bind
  apply ends_pure
  apply ends_get
  apply ends_set
  have tempGone : (assigned.drop none).strs none = none := by simp [drop]
  refine ⟨tempGone, target, source, ?_, there, ?_, ?_⟩
  · rw [← sameObj]
    exact objThere
  · intro careful
    exact (moved.sound (counts ▸ careful)).drop none
  · intro short large
    obtain ⟨str, strThere, ptr, above⟩ := moved.broken (counts ▸ short) large
    exact ⟨str, (drop_other (by simp)).trans strThere, ptr, above⟩

theorem appendBytes_ends {count : Nat} (small : count < 2 ^ 63) {source : Code (List Byte)}
    (reads : ∀ str ready, st.strs obj = some str → Reserved st ready obj str
      (wrap (str.cnt + count)) →
    Ends source ready (fun bytes after => bytes.length = count ∧ after = ready)
      (fun fault => fault.memory = false)) :
    Ends (appendBytes obj count source) st (fun _ after => Sound after ∧
    ∀ other ≠ obj, after.strs other = st.strs other) (fun fault => fault.memory = false) := by
  refine getStr_any (fun _ => rfl) ?_
  intro self there
  have cntSmall := (sound.housed obj self there).cnt_lt sound
  have total : wrap (self.cnt + count) = self.cnt + count := wrap_of_lt (by omega)
  have totalZero : wrap (self.cnt + count + 1) = self.cnt + count + 1 := wrap_of_lt (by omega)
  apply ends_call (reserve_ends sound there _ (by
    rw [total, totalZero]
    intro _
    unfold newSize
    omega)) (fun _ aborted => aborted.1)
  rintro _ ready reserved
  obtain ⟨_, _, readyThere, room⟩ := reserved.self
  rw [total, totalZero] at room
  have ⟨size, sized, capFits, _⟩ := (reserved.sound.housed obj _ readyThere).sizeAt ⟨_, readyThere⟩
  apply getStr_then readyThere
  apply ends_read (reads self ready there reserved)
  intro _ _
  dsimp only at capFits ⊢
  rw [total]
  apply ends_imp (finish_ends reserved.sound readyThere sized capFits (by omega) room)
  rintro _ _ ⟨soundAfter, strs⟩
  refine ⟨soundAfter, ?_⟩
  intro other differs
  rw [strs, update_of_ne differs, reserved.others other differs]

theorem append_ends (obj other : Obj) : Ends (append obj other) st (fun _ after => Sound after ∧
    ∀ third ≠ obj, after.strs third = st.strs third) (fun fault => fault.memory = false) := by
  refine getStr_any (fun _ => rfl) ?_
  intro source there
  have small := (sound.housed other source there).cnt_lt sound
  apply appendBytes_ends sound (by omega)
  intro _ ready selfThere reserved
  -- the source may be the string itself, in its new buffer by now
  have readyThere : ∃ now, ready.strs other = some now ∧ now.cnt = source.cnt := by
    by_cases same : other = obj
    · subst same
      obtain ⟨_, _, now, _⟩ := reserved.self
      cases there.symm.trans selfThere
      exact ⟨_, now, rfl⟩
    · exact ⟨source, (reserved.others other same).trans there, rfl⟩
  obtain ⟨now, nowThere, counts⟩ := readyThere
  have ⟨size, sized, _, cnt⟩ := (reserved.sound.housed other now nowThere).sizeAt ⟨now, nowThere⟩
  apply getStr_then nowThere
  rw [← counts]
  exact readBytes_ends sized (by omega)

theorem reserve_careless (there : st.strs obj = some str) (more : str.cap < wrap (atleast + 1))
    (less : newSize str.cap (wrap (atleast + 1)) < str.cnt + 1) :
    Ends (reserve obj atleast) st (fun _ after => ¬ Represented after)
      (fun fault => fault.memory = true) := by
  have housed := sound.housed obj str there
  have cntSmall := housed.cnt_lt sound
  have ⟨size, sized, _, cnt⟩ := housed.sizeAt ⟨str, there⟩
  apply getStr_then there
  apply ends_bind
  apply getStr_then there
  rw [if_neg (by omega)]
  apply ends_call (allocate_ends _)
  · rintro _ ⟨_, _⟩
    omega
  rintro _ allocated ⟨_, rfl, strs, sizes, _⟩
  have sizedNow := housed.sizeAt_allocated sound strs sizes sized
  apply ends_read (readBytes_ends sizedNow (by omega))
  intro _ _
  have fresh : allocated.sizeAt (.heap st.next) = some (newSize str.cap (wrap (atleast + 1))) := by
    rw [sizeAt_heap, sizes, update_self]
  by_cases overflows : newSize str.cap (wrap (atleast + 1)) < str.cnt
  · exact ends_bind (writeBytes_overflows fresh (by omega))
  -- the text just fits, but its zero does not
  apply ends_seq (writeBytes_ends fresh (by omega))
  intro _ written same
  apply setStr_then
  apply ends_pure
  rw [if_pos rfl]
  have releasable : Housed (written.setStr obj { str with
      ptr := .heap st.next, cap := newSize str.cap (wrap (atleast + 1)) }) obj str :=
    housed.allocated sound (by rw [← sizes, ← same.sizes]; rfl)
  apply ends_mono (release_ends releasable) _ (fun _ aborted => absurd aborted id)
  rintro _ after ⟨afterStrs, afterSizes, _⟩ represented
  obtain ⟨_, sizedNew, _, fits⟩ := represented obj { str with
      ptr := .heap st.next, cap := newSize str.cap (wrap (atleast + 1)) } (by
    rw [afterStrs]
    exact update_self _ _ _)
  have newSized : after.sizeAt (.heap st.next) = some (newSize str.cap (wrap (atleast + 1))) := by
    rw [sizeAt_heap, afterSizes, releasedSizes_of_ne (housed.ne_next sound), ← fresh, sizeAt_heap,
      ← same.sizes]
    rfl
  cases newSized.symm.trans sizedNew
  dsimp only at fits
  omega

theorem appendText_ends (obj : Obj) (small : text.length < 2 ^ 63) :
    Ends (appendBytes obj text.length (pure text)) st
    (fun _ after => Sound after ∧ ∀ other ≠ obj, after.strs other = st.strs other) (fun fault =>
    fault.memory = false) := by
  apply appendBytes_ends sound small
  intro _ _ _ _
  exact ends_pure _ ⟨rfl, rfl⟩

end

end Operations

end Nx.StringBuffers
