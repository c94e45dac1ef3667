import Nx.Transitions

/-!
`ps2::circularbuf` of drivers/devices/ps2/source/keyboard.h, a ring of `N` cells that is meant to
keep the newest elements.
-/

namespace Nx.RingBuffers

open Transitions Function List Nat

variable {T : Type} [Inhabited T] {N : Nat}

structure CircularBuf (T : Type) (N : Nat) where
  ptr : Nat → T
  readIdx : Nat
  writeIdx : Nat
  cnt : Nat

def CircularBuf.new : CircularBuf T N := ⟨fun _ => default, 0, 0, 0⟩

def write (buf : CircularBuf T N) (x : T) : CircularBuf T N where
  ptr := update buf.ptr buf.writeIdx x
  readIdx := buf.readIdx
  writeIdx := (buf.writeIdx + 1) % N
  cnt := min (buf.cnt + 1) N

def read (buf : CircularBuf T N) : T × CircularBuf T N :=
  if buf.cnt = 0 then (default, buf)
  else (buf.ptr buf.readIdx, { buf with readIdx := (buf.readIdx + 1) % N, cnt := buf.cnt - 1 })

def peek (buf : CircularBuf T N) (i : Nat) : T :=
  if buf.cnt = 0 then default else buf.ptr ((buf.readIdx + i) % N)

def peeked (buf : CircularBuf T N) : List T := (range buf.cnt).map (peek buf)

/-- Reads until the buffer is empty. -/
def drained : Nat → CircularBuf T N → List T
  | 0, _ => []
  | fuel + 1, buf => if buf.cnt = 0 then [] else (read buf).1 :: drained fuel (read buf).2

inductive Op (T : Type) where
  | write (x : T)
  | read

/-- The buffer beside what was written and not yet read, of which the newest `N` are to be kept. -/
structure Watched (T : Type) (N : Nat) where
  buf : CircularBuf T N
  unread : List T

def newest (N : Nat) (xs : List T) : List T := xs.drop (xs.length - N)

def Watched.next (watched : Watched T N) : Op T → Watched T N
  | .write x => ⟨write watched.buf x, newest N (watched.unread ++ [x])⟩
  | .read => ⟨(read watched.buf).2, watched.unread.tail⟩

def Step (before : Watched T N) (op : Op T) (after : Watched T N) : Prop := after = before.next op

def start : Watched T N := ⟨.new, []⟩

def Shows (watched : Watched T N) : Prop :=
  peeked watched.buf = watched.unread ∧ drained watched.buf.cnt watched.buf = watched.unread

/-- Nothing is written to a full buffer, unless it has one cell only. -/
def Roomy (move : Move (Watched T N) (Op T)) : Prop :=
  ∀ x, move.label = .write x → N = 1 ∨ move.before.buf.cnt < N

/-! The indices of a buffer that holds a list. -/

structure Holds (buf : CircularBuf T N) (xs : List T) : Prop where
  fits : xs.length ≤ N
  size : buf.cnt = xs.length
  reads : buf.readIdx < N
  writes : buf.writeIdx = (buf.readIdx + xs.length) % N
  cells : ∀ i (below : i < xs.length), buf.ptr ((buf.readIdx + i) % N) = xs[i]

variable {buf : CircularBuf T N} {x : T} {xs : List T}

theorem holds_new (positive : 0 < N) : Holds (.new : CircularBuf T N) [] :=
  ⟨zero_le N, rfl, positive, (zero_mod N).symm, nofun⟩

omit [Inhabited T] in
theorem write_holds (holds : Holds buf xs) (room : xs.length < N) :
    Holds (write buf x) (xs ++ [x]) := by
  constructor
  · simpa using room
  · simp only [write, holds.size, length_append, length_singleton]
    omega
  · exact holds.reads
  · simp only [write, holds.writes, length_append, length_singleton, mod_add_mod, add_assoc]
  · intro i below
    rw [length_append, length_singleton] at below
    rcases Nat.lt_succ_iff_lt_or_eq.mp below with old | rfl
    · -- another cell than the one that is written
      have other : (buf.readIdx + i) % N ≠ (buf.readIdx + xs.length) % N := by
        intro same
        have congruent : i ≡ xs.length [MOD N] := ModEq.add_left_cancel' buf.readIdx same
        exact old.ne (congruent.eq_of_lt_of_lt (old.trans room) room)
      simp only [write, holds.writes, update_of_ne other, holds.cells i old,
        getElem_append_left old]
    · simp [write, holds.writes]

omit [Inhabited T] in
/-- With one cell the element that is replaced is the oldest one. -/
theorem write_holds_one {buf : CircularBuf T 1} (holds : Holds buf xs) :
    Holds (write buf x) [x] := by
  have first : buf.writeIdx = 0 := by
    rw [holds.writes, mod_one]
  refine ⟨le_rfl, by simp [write], holds.reads, by simp [write, mod_one], ?_⟩
  intro i _
  simp [write, first, mod_one]

theorem read_holds (holds : Holds buf (x :: xs)) : (read buf).1 = x ∧ Holds (read buf).2 xs := by
  have nonempty : buf.cnt ≠ 0 := by simp [holds.size]
  have fits := holds.fits
  have head := holds.cells 0 (succ_pos _)
  rw [add_zero, mod_eq_of_lt holds.reads] at head
  rw [length_cons] at fits
  rw [read, if_neg nonempty]
  refine ⟨head, by omega, by simp [holds.size], mod_lt _ (by omega), ?_, ?_⟩
  · simp only [holds.writes, length_cons, mod_add_mod, add_assoc, add_comm 1]
  · intro i below
    have cell := holds.cells (i + 1) (succ_lt_succ below)
    simpa [mod_add_mod, add_assoc, add_comm 1] using cell

theorem read_empty (holds : Holds buf []) : read buf = (default, buf) := if_pos holds.size

theorem peeked_eq (holds : Holds buf xs) : peeked buf = xs := by
  apply ext_getElem
  · simp [peeked, holds.size]
  · intro i _ below
    have nonempty : buf.cnt ≠ 0 := by
      rw [holds.size]
      omega
    simp [peeked, peek, nonempty, holds.cells i below]

theorem drained_eq (holds : Holds buf xs) : drained xs.length buf = xs := by
  induction xs generalizing buf with
  | nil => rfl
  | cons x _ ih =>
    have ⟨value, rest⟩ := read_holds holds
    rw [length_cons, drained, if_neg (by simp [holds.size]), value, ih rest]

def Inv (watched : Watched T N) : Prop := Holds watched.buf watched.unread

theorem shows_of_inv {watched : Watched T N} (inv : Inv watched) : Shows watched :=
  ⟨peeked_eq inv, by rw [inv.size]; exact drained_eq inv⟩

theorem step_inv (move : Move (Watched T N) (Op T)) (inv : Inv move.before)
    (step : Step move.before move.label move.after) (roomy : Roomy move) : Inv move.after := by
  obtain ⟨before, op, after⟩ := move
  obtain rfl : after = before.next op := step
  cases op with
  | write x =>
    by_cases room : before.unread.length < N
    · have kept : newest N (before.unread ++ [x]) = before.unread ++ [x] := by
        rw [newest, Nat.sub_eq_zero_of_le (by simpa using room), drop_zero]
      rw [Inv, Watched.next, kept]
      exact write_holds inv room
    · have full : before.unread.length = N := inv.fits.antisymm (not_lt.mp room)
      obtain rfl : N = 1 := (roomy x rfl).resolve_right (by rw [inv.size, full]; exact lt_irrefl N)
      have last : newest 1 (before.unread ++ [x]) = [x] := by simp [newest]
      rw [Inv, Watched.next, last]
      exact write_holds_one inv
  | read =>
    cases unread : before.unread with
    | nil =>
      rw [Inv, unread] at inv
      simpa [Inv, Watched.next, unread, read_empty inv] using inv
    | cons =>
      rw [Inv, unread] at inv
      simpa [Inv, Watched.next, unread] using (read_holds inv).2

/-- A buffer that is not written to while it is full shows the elements that are not yet read, in
the order they were written. -/
theorem newest_kept (positive : 0 < N) {moves : List (Move (Watched T N) (Op T))}
    {last : Watched T N}
    (run : Run Step start moves last) (roomy : ∀ move ∈ moves, Roomy move) :
    ∀ watched ∈ visited start moves, Shows watched := by
  intro watched member
  have inv := run_guarded Inv Roomy step_inv run (holds_new positive) roomy watched member
  exact shows_of_inv inv

/-- Two writes and a read of three cells. -/
def roundMoves : List (Move (Watched Nat 3) (Op Nat)) :=
  let first := start.next (.write 1)
  let second := first.next (.write 2)
  [⟨start, .write 1, first⟩, ⟨first, .write 2, second⟩, ⟨second, .read, second.next .read⟩]

theorem newest_kept_round : (∃ last, Run Step start roundMoves last ∧ last.unread = [2]) ∧
    ∀ watched ∈ visited start roundMoves, Shows watched := by
  have run : Run Step start roundMoves _ := .next rfl (.next rfl (.next rfl (.refl _)))
  refine ⟨⟨_, run, rfl⟩, newest_kept (by decide) run ?_⟩
  simp [roundMoves, Roomy, start, Watched.next, write, CircularBuf.new]

/-- The third element takes the place of the first, where the next read looks. -/
theorem newest_misplaced : ∃ (moves : List (Move (Watched Nat 2) (Op Nat))) (last : Watched Nat 2),
    Run Step start moves last ∧ last.unread = [2, 3] ∧ peeked last.buf = [3, 2] ∧ ¬ Shows last := by
  refine ⟨_, ((start.next (.write 1)).next (.write 2)).next (.write 3),
    .next rfl (.next rfl (.next rfl (.refl _))),
    rfl, rfl, ?_⟩
  rintro ⟨shown, _⟩
  cases shown

end Nx.RingBuffers
