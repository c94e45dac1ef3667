import Mathlib

/-!
Scans of a buffer whose size is known: reads that must stay inside, and loops that go on where a
record says that the next one is.
-/

namespace Nx.Scans

abbrev Byte := BitVec 8

inductive Stop where
  | readOutside (offset : Nat)
  | endless
  | abort (text : String)
  deriving DecidableEq

abbrev Bytes := Nat → Byte

def readByte (bytes : Bytes) (size offset : Nat) : Except Stop Byte :=
  if offset < size then .ok (bytes offset) else .error (.readOutside offset)

def fieldAt (bytes : Bytes) (offset : Nat) : Nat → Nat
  | 0 => 0
  | count + 1 => (bytes offset).toNat + 256 * fieldAt bytes (offset + 1) count

def readField (bytes : Bytes) (size offset : Nat) : Nat → Except Stop Nat
  | 0 => .ok 0
  | count + 1 => do
    let low ← readByte bytes size offset
    let high ← readField bytes size (offset + 1) count
    pure (low.toNat + 256 * high)

variable {size : Nat}

theorem readByte_inside (inside : offset < size) :
    readByte bytes size offset = .ok (bytes offset) := if_pos inside

theorem readField_inside (inside : offset + count ≤ size) :
    readField bytes size offset count = .ok (fieldAt bytes offset count) := by
  induction count generalizing offset with
  | zero => rfl
  | succ _ ih =>
    rw [readField, readByte_inside (by omega), ih (by omega)]
    rfl

variable {σ α β : Type}

variable {next : α → Except Stop β}

theorem bind_ok (done : first = .ok value) : (first >>= next) = next value := by
  rw [done]
  rfl

theorem bind_error (stopped : first = .error stop) : (first >>= next) = .error stop := by
  rw [stopped]
  rfl

theorem ok_of_bind (done : (first >>= next) = .ok result) :
    ∃ value, first = .ok value ∧ next value = .ok result := by
  cases first with
  | error => cases done
  | ok value => exact ⟨value, rfl, done⟩

theorem readByte_ok (done : readByte bytes size offset = .ok byte) :
    offset < size ∧ byte = bytes offset := by
  rw [readByte] at done
  split at done
  next inside => exact ⟨inside, (Except.ok.inj done).symm⟩
  next => cases done

theorem readField_ok (some_ : 0 < count) (done : readField bytes size offset count = .ok value) :
    offset + count ≤ size := by
  induction count generalizing offset value with
  | zero => omega
  | succ count ih =>
    obtain ⟨_, read, done⟩ := ok_of_bind done
    obtain ⟨_, rest, _⟩ := ok_of_bind done
    have here := (readByte_ok read).1
    rcases Nat.eq_zero_or_pos count with rfl | more
    · omega
    · have := ih more rest
      omega

/-- `while(ofs < size)`: the body gives the next offset, or nothing to return false. -/
def scan (size : Nat) (body : Nat → σ → Except Stop (Option Nat × σ)) :
    Nat → Nat → σ → Except Stop (Bool × σ)
  | 0, ofs, state => if ofs < size then .error .endless else .ok (true, state)
  | fuel + 1, ofs, state =>
    if ofs < size then do
      match ← body ofs state with
      | (none, after) => pure (false, after)
      | (some next, after) => scan size body fuel next after
    else .ok (true, state)

variable {body : Nat → σ → Except Stop (Option Nat × σ)}

theorem scan_ends (Inv : Nat → σ → Prop) (Done : Bool → σ → Prop)
    (finished : ∀ ofs state, size ≤ ofs → Inv ofs state →
    Done true state) (turn : ∀ ofs state, ofs < size → Inv ofs state →
    (∃ next after, body ofs state = .ok (some next, after) ∧ ofs < next ∧ Inv next after) ∨
    ∃ after, body ofs state = .ok (none, after) ∧ Done false after) (enough : size ≤ ofs + fuel)
    (holds : Inv ofs state) : ∃ flag after, scan size body fuel ofs state = .ok (flag, after) ∧
      Done flag after := by
  induction fuel generalizing ofs state with
  | zero =>
    have past : ¬ ofs < size := by omega
    exact ⟨true, state, if_neg past, finished ofs state (by omega) holds⟩
  | succ _ ih =>
    rw [scan]
    split
    next more =>
      rcases turn ofs state more holds with ⟨next, after, went, _, kept⟩ | ⟨after, left, done⟩
      · rw [went]
        exact ih (by omega) kept
      · rw [left]
        exact ⟨false, after, rfl, done⟩
    next _ => exact ⟨true, state, rfl, finished ofs state (by omega) holds⟩

theorem scan_ok (done : scan size body fuel ofs state = .ok (flag, last)) :
    size ≤ ofs ∧ flag = true ∧ last = state ∨
    ofs < size ∧ ∃ less next after, body ofs state = .ok (next, after) ∧
      (next = none ∧ flag = false ∧ last = after ∨
        ∃ there, next = some there ∧ scan size body less there after = .ok (flag, last)) := by
  cases fuel with
  | zero =>
    rw [scan] at done
    split at done
    · cases done
    · cases done
      exact .inl ⟨by omega, rfl, rfl⟩
  | succ fuel =>
    rw [scan] at done
    split at done
    next more =>
      obtain ⟨⟨next, after⟩, went, done⟩ := ok_of_bind done
      refine .inr ⟨more, fuel, next, after, went, ?_⟩
      cases next with
      | none =>
        cases done
        exact .inl ⟨rfl, rfl, rfl⟩
      | some there => exact .inr ⟨there, rfl, done⟩
    next =>
      cases done
      exact .inl ⟨by omega, rfl, rfl⟩

/-- One turn goes from an offset to another, in some state. -/
def Follows (size : Nat) (body : Nat → σ → Except Stop (Option Nat × σ)) (ofs there : Nat) : Prop :=
  ofs < size ∧ ∃ state after, body ofs state = .ok (some there, after)

/-- Where the state does not matter for the way, a scan that ends never comes back. -/
theorem scan_acyclic (same : ∀ ofs state state' next next' after after', body ofs state =
    .ok (next, after) →
      body ofs state' = .ok (next', after') → next = next')
    (done : scan size body fuel ofs state = .ok (flag, last)) :
    ¬ Relation.TransGen (Follows size body) ofs ofs := by
  induction fuel generalizing ofs state with
  | zero =>
    intro cycle
    obtain ⟨_, ⟨more, _⟩, _⟩ := Relation.TransGen.head'_iff.mp cycle
    rw [scan, if_pos more] at done
    cases done
  | succ fuel ih =>
    intro cycle
    obtain ⟨there, follows, back⟩ := Relation.TransGen.head'_iff.mp cycle
    have ⟨more, _, _, turn⟩ := follows
    rw [scan, if_pos more] at done
    obtain ⟨⟨next, after⟩, went, done⟩ := ok_of_bind done
    obtain rfl := same _ _ _ _ _ _ _ went turn
    exact ih done (.tail' back follows)

theorem scan_endless (Inv : Nat → Prop)
    (turn : ∀ ofs state, Inv ofs → ofs < size ∧ ∃ next after, body ofs state =
      .ok (some next, after) ∧ Inv next)
    (fuel : Nat) (holds : Inv ofs) : scan size body fuel ofs state = .error .endless := by
  induction fuel generalizing ofs state with
  | zero => exact if_pos (turn ofs state holds).1
  | succ _ ih =>
    obtain ⟨more, _, _, went, kept⟩ := turn ofs state holds
    rw [scan, if_pos more, went]
    exact ih kept

end Nx.Scans
