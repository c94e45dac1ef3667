import Nx.Words
import Nx.Chains
import Nx.Transitions

/-!
The lock-free chunk lists of kernel/source/mm/_heap_impl.h: `getChunkFromList` and `addChunkToList`
on one list, with `cas16` of kernel/source/arch/x86_64/atomic/cas.s.
-/

namespace Nx.ChunkLists

open Words Chains Transitions Function List

variable {Thread Chunk : Type} {all : List Chunk}

structure ListHead (Chunk : Type) where
  id : Word
  chunk : Option Chunk
  deriving DecidableEq

/-- Where a thread is. `get` and `add` hold the halves of `orig` read so far. -/
inductive Position (Chunk : Type) where
  | idle
  | get (id : Option Word) (chunk : Option (Option Chunk))
  | getLoop (orig : ListHead Chunk)
  | getSwap (orig next : ListHead Chunk)
  | add (arg : Chunk) (id : Option Word) (chunk : Option (Option Chunk))
  | addLoop (arg : Chunk) (orig : ListHead Chunk)
  | addSwap (arg : Chunk) (orig next : ListHead Chunk)

structure State (Thread Chunk : Type) where
  list : ListHead Chunk
  next : Chunk → Option Chunk
  positions : Thread → Position Chunk
  owned : List (Thread × Chunk)

inductive Op (Thread Chunk : Type) where
  | callGet (thread : Thread)
  | callAdd (thread : Thread) (arg : Chunk)
  /-- A thread writes to a chunk of its own between two calls. -/
  | write (thread : Thread) (chunk : Chunk) (next : Option Chunk)
  | readId (thread : Thread)
  | readChunk (thread : Thread)
  | step (thread : Thread)

section Semantics

variable [DecidableEq Thread] [DecidableEq Chunk]

def State.goto (st : State Thread Chunk) (thread : Thread) (position : Position Chunk) :
    State Thread Chunk :=
  { st with positions := update st.positions thread position }

def afterGet : Option Word → Option (Option Chunk) → Position Chunk
  | some id, some chunk => .getLoop ⟨id, chunk⟩
  | id, chunk => .get id chunk

def afterAdd (arg : Chunk) : Option Word → Option (Option Chunk) → Position Chunk
  | some id, some chunk => .addLoop arg ⟨id, chunk⟩
  | id, chunk => .add arg id chunk

def State.next? (st : State Thread Chunk) : Op Thread Chunk → Option (State Thread Chunk)
  | .callGet thread =>
    match st.positions thread with
    | .idle => some (st.goto thread (.get none none))
    | _ => none
  | .callAdd thread arg =>
    match st.positions thread with
    | .idle => if (thread, arg) ∈ st.owned then some (st.goto thread (.add arg none none)) else none
    | _ => none
  | .write thread chunk next =>
    match st.positions thread with
    | .idle =>
      if (thread, chunk) ∈ st.owned then
        some { st with next := update st.next chunk next }
      else none
    | _ => none
  | .readId thread =>
    match st.positions thread with
    | .get none chunk => some (st.goto thread (afterGet (some st.list.id) chunk))
    | .add arg none chunk => some (st.goto thread (afterAdd arg (some st.list.id) chunk))
    | _ => none
  | .readChunk thread =>
    match st.positions thread with
    | .get id none => some (st.goto thread (afterGet id (some st.list.chunk)))
    | .add arg id none => some (st.goto thread (afterAdd arg id (some st.list.chunk)))
    | _ => none
  | .step thread =>
    match st.positions thread with
    | .getLoop orig =>
      match orig.chunk with
      | none => some (st.goto thread .idle)
      | some chunk => some (st.goto thread (.getSwap orig ⟨orig.id + 1, st.next chunk⟩))
    | .getSwap orig next =>
      match orig.chunk with
      | none => none
      | some chunk =>
        if st.list = orig then
          some ({ st with list := next, owned := (thread, chunk) :: st.owned }.goto thread .idle)
        else some (st.goto thread (.getLoop st.list))
    | .addLoop arg orig =>
      some ({ st with next := update st.next arg orig.chunk }.goto thread
        (.addSwap arg orig ⟨orig.id + 1, some arg⟩))
    | .addSwap arg orig next =>
      if st.list = orig then
        some ({ st with list := next, owned := st.owned.erase (thread, arg) }.goto thread .idle)
      else some (st.goto thread (.addLoop arg st.list))
    | _ => none

def Step (before : State Thread Chunk) (op : Op Thread Chunk) (after : State Thread Chunk) : Prop :=
  before.next? op = some after

end Semantics

def NoWrap (move : Move (State Thread Chunk) (Op Thread Chunk)) : Prop :=
  move.before.list.id.toNat ≤ move.after.list.id.toNat

/-- Every chunk of `all` is met exactly once on the list or is owned by exactly one
thread, and there are no others. -/
structure Accounts (st : State Thread Chunk) (items all : List Chunk) : Prop where
  chain : Chain st.next st.list.chunk items
  order : (items ++ st.owned.map Prod.snd).Perm all
  distinct : all.Nodup

/-- What a thread relies on. The id it has read is not ahead of the list's; so if
the list is still what it has read, nothing happened in between. -/
def Relies (st : State Thread Chunk) (thread : Thread) : Position Chunk → Prop
  | .idle => True
  | .get id _ => ∀ seen, id = some seen → seen.toNat ≤ st.list.id.toNat
  | .getLoop orig => orig.id.toNat ≤ st.list.id.toNat
  | .getSwap orig next => orig.id.toNat ≤ st.list.id.toNat ∧ next.id = orig.id + 1 ∧
      ∀ chunk, orig.chunk = some chunk → st.list = orig → next.chunk = st.next chunk
  | .add arg id _ => (thread, arg) ∈ st.owned ∧
      ∀ seen, id = some seen → seen.toNat ≤ st.list.id.toNat
  | .addLoop arg orig => (thread, arg) ∈ st.owned ∧ orig.id.toNat ≤ st.list.id.toNat
  | .addSwap arg orig next => (thread, arg) ∈ st.owned ∧ orig.id.toNat ≤ st.list.id.toNat ∧
      next = ⟨orig.id + 1, some arg⟩ ∧ st.next arg = orig.chunk

structure Consistent (st : State Thread Chunk) (all : List Chunk) : Prop where
  accounts : ∃ items, Accounts st items all
  relies : ∀ thread, Relies st thread (st.positions thread)

variable {chunk arg : Chunk} {next orig : ListHead Chunk}

section Ownership

variable {st : State Thread Chunk} {items : List Chunk}

section

variable (accounts : Accounts st items all)
include accounts

theorem Accounts.nodup : (items ++ st.owned.map Prod.snd).Nodup :=
  accounts.order.nodup_iff.mpr accounts.distinct

theorem Accounts.not_listed (owned : (thread, chunk) ∈ st.owned) : chunk ∉ items := by
  intro listed
  have apart := (nodup_append'.mp accounts.nodup).2.2
  exact apart listed (mem_map_of_mem (f := Prod.snd) owned)

theorem Accounts.one_owner (owned : (thread, chunk) ∈ st.owned)
    (ownedToo : (other, chunk) ∈ st.owned) :
    other = thread := by
  have distinct := (nodup_append'.mp accounts.nodup).2.1
  exact congrArg Prod.fst (inj_on_of_nodup_map distinct ownedToo owned rfl)

theorem Accounts.head_listed (head : st.list.chunk = some chunk) :
    ∃ rest, items = chunk :: rest ∧ Chain st.next (st.next chunk) rest := by
  have chain := accounts.chain
  rw [head] at chain
  exact chain_of_some chain

end

variable {after : State Thread Chunk}

theorem relies_update [DecidableEq Thread] (positions : Thread → Position Chunk)
    (moved : after.positions = update positions thread position)
      (mine : Relies after thread position)
    (others : ∀ other ≠ thread, Relies after other (positions other)) (other : Thread) :
    Relies after other (after.positions other) := by
  rw [moved]
  by_cases same : other = thread
  · subst same
    rw [update_self]
    exact mine
  · rw [update_of_ne same]
    exact others other same

theorem Relies.congr (list : after.list = st.list) (next : after.next = st.next)
    (owned : after.owned = st.owned)
    {position} (relies : Relies st thread position) : Relies after thread position := by
  cases position with
  | idle => trivial
  | _ => simpa only [Relies, list, next, owned] using relies

theorem Consistent.goto [DecidableEq Thread] (consistent : Consistent st all)
    (relies : Relies st thread position) :
    Consistent (st.goto thread position) all := by
  obtain ⟨items, accounts⟩ := consistent.accounts
  refine ⟨⟨items, accounts.chain, accounts.order, accounts.distinct⟩, ?_⟩
  refine relies_update st.positions rfl (relies.congr rfl rfl rfl) ?_
  intro other _
  exact (consistent.relies other).congr rfl rfl rfl

/-- A thread writes to a chunk it owns. What another thread relies on is about the
head of the list, or about a chunk of its own. -/
theorem Relies.write [DecidableEq Chunk] (accounts : Accounts st items all)
    (owned : (thread, chunk) ∈ st.owned) (differs : other ≠ thread) (value : Option Chunk)
    (relies : Relies st other position) : Relies { st with next := update st.next chunk value }
      other position := by
  cases position with
  | getSwap orig next =>
    refine ⟨relies.1, relies.2.1, ?_⟩
    intro head isHead unchanged
    have apart : head ≠ chunk := by
      rintro rfl
      have listHead : st.list.chunk = some head := by
        rw [show st.list = orig from unchanged]
        exact isHead
      obtain ⟨_, rfl, _⟩ := accounts.head_listed listHead
      exact accounts.not_listed owned mem_cons_self
    dsimp only
    rw [update_of_ne apart]
    exact relies.2.2 head isHead unchanged
  | addSwap arg =>
    have apart : arg ≠ chunk := by
      rintro rfl
      exact differs (accounts.one_owner owned relies.1)
    refine ⟨relies.1, relies.2.1, relies.2.2.1, ?_⟩
    dsimp only
    rw [update_of_ne apart]
    exact relies.2.2.2
  | _ => exact relies

theorem Accounts.write [DecidableEq Chunk] (accounts : Accounts st items all)
    (owned : (thread, chunk) ∈ st.owned)
    (value : Option Chunk) : Accounts { st with next := update st.next chunk value } items all := by
  refine ⟨?_, accounts.order, accounts.distinct⟩
  refine chain_congr ?_ accounts.chain
  intro item listed
  have apart : item ≠ chunk := by
    rintro rfl
    exact accounts.not_listed owned listed
  exact update_of_ne apart _ _

/-- A swap that went through. The id is new, so whoever read the head before will
fail; and nobody else's chunks have changed hands. -/
theorem Relies.swap {owned} (newer : st.list.id.toNat < next.id.toNat)
    (kept : ∀ chunk, (other, chunk) ∈ st.owned → (other, chunk) ∈ owned) {position}
    (relies : Relies st other position) : Relies { st with list := next, owned := owned } other
      position := by
  cases position with
  | idle => trivial
  | get id chunk => exact fun seen known => (relies seen known).trans newer.le
  | getLoop orig => exact le_trans relies newer.le
  | getSwap orig candidate =>
    refine ⟨relies.1.trans newer.le, relies.2.1, ?_⟩
    intro chunk _ unchanged
    have behind := relies.1
    have same : next = orig := unchanged
    rw [same] at newer
    omega
  | add arg =>
    exact ⟨kept arg relies.1, fun seen known => (relies.2 seen known).trans newer.le⟩
  | addLoop arg orig => exact ⟨kept arg relies.1, relies.2.trans newer.le⟩
  | addSwap arg =>
    exact ⟨kept arg relies.1, relies.2.1.trans newer.le, relies.2.2⟩

theorem next_id {id : Word} (noWrap : id.toNat ≤ (id + 1).toNat) : id.toNat < (id + 1).toNat := by
  rw [BitVec.toNat_add] at noWrap ⊢
  have one : (1 : Word).toNat = 1 := rfl
  omega

theorem relies_afterGet {id} {chunk} (behind : ∀ seen, id = some seen →
    seen.toNat ≤ st.list.id.toNat) :
    Relies st thread (afterGet id chunk) := by
  cases id with
  | none => exact behind
  | some seen =>
    cases chunk with
    | none => exact behind
    | some => exact behind seen rfl

theorem relies_afterAdd {id} {chunk} (owned : (thread, arg) ∈ st.owned)
    (behind : ∀ seen, id = some seen → seen.toNat ≤ st.list.id.toNat) :
      Relies st thread (afterAdd arg id chunk) := by
  cases id with
  | none => exact ⟨owned, behind⟩
  | some seen =>
    cases chunk with
    | none => exact ⟨owned, behind⟩
    | some => exact ⟨owned, behind seen rfl⟩

theorem seen_now (seen : Word) (now : some st.list.id = some seen) :
    seen.toNat ≤ st.list.id.toNat := by
  cases now
  exact le_refl _

end Ownership

section Moves

variable [DecidableEq Thread] [DecidableEq Chunk] {st after : State Thread Chunk} {thread : Thread}

theorem Consistent.write (consistent : Consistent st all) (owned : (thread, chunk) ∈ st.owned)
    (value : Option Chunk) (mine : Relies { st with next := update st.next chunk value } thread
      position) :
    Consistent ({ st with next := update st.next chunk value }.goto thread position) all := by
  obtain ⟨items, accounts⟩ := consistent.accounts
  have written := accounts.write owned value
  refine ⟨⟨items, written.chain, written.order, written.distinct⟩, ?_⟩
  refine relies_update st.positions rfl (mine.congr rfl rfl rfl) ?_
  intro other differs
  exact ((consistent.relies other).write accounts owned differs value).congr rfl rfl rfl

omit [DecidableEq Chunk] in
/-- A pop that went through: `next.chunk` was read from the head when the list was
what it still is. -/
theorem Consistent.popped (consistent : Consistent st all) (head : st.list.chunk = some chunk)
    (following : next.chunk = st.next chunk) (newer : st.list.id.toNat < next.id.toNat) :
    Consistent ({ st with list := next, owned := (thread, chunk) :: st.owned }.goto thread .idle)
      all := by
  obtain ⟨_, accounts⟩ := consistent.accounts
  obtain ⟨rest, rfl, chain⟩ := accounts.head_listed head
  refine ⟨⟨rest, ?_, ?_, accounts.distinct⟩, ?_⟩
  · rw [← following] at chain
    exact chain
  · have moved : (rest ++ chunk :: st.owned.map Prod.snd).Perm
        (chunk :: rest ++ st.owned.map Prod.snd) := perm_middle
    exact moved.trans accounts.order
  · refine relies_update st.positions rfl trivial ?_
    intro other _
    refine Relies.congr rfl rfl rfl ((consistent.relies other).swap newer ?_)
    intro _ owned
    exact mem_cons_of_mem _ owned

section

variable (consistent : Consistent st all)
include consistent

theorem Consistent.pushed (owned : (thread, arg) ∈ st.owned) (head : next.chunk = some arg)
    (following : st.next arg = st.list.chunk) (newer : st.list.id.toNat < next.id.toNat) :
    Consistent ({ st with list := next, owned := st.owned.erase (thread, arg) }.goto thread .idle)
      all := by
  obtain ⟨items, accounts⟩ := consistent.accounts
  refine ⟨⟨arg :: items, ⟨head, ?_⟩, ?_, accounts.distinct⟩, ?_⟩
  · have chain := accounts.chain
    rw [← following] at chain
    exact chain
  · have taken : (arg :: (st.owned.erase (thread, arg)).map Prod.snd).Perm
        (st.owned.map Prod.snd) := ((perm_cons_erase owned).map Prod.snd).symm
    have moved : (arg :: items ++ (st.owned.erase (thread, arg)).map Prod.snd).Perm
        (items ++ arg :: (st.owned.erase (thread, arg)).map Prod.snd) := perm_middle.symm
    exact moved.trans ((taken.append_left items).trans accounts.order)
  · refine relies_update st.positions rfl trivial ?_
    intro other differs
    refine Relies.congr rfl rfl rfl ((consistent.relies other).swap newer ?_)
    intro _ ownedToo
    refine (mem_erase_of_ne ?_).mpr ownedToo
    intro same
    exact differs (congrArg Prod.fst same)

theorem Consistent.getStep (position : st.positions thread = .getLoop orig)
    (step : Step st (.step thread) after) :
    Consistent after all := by
  have behind : orig.id.toNat ≤ st.list.id.toNat := by
    have relies := consistent.relies thread
    rwa [position] at relies
  simp only [Step, State.next?, position] at step
  split at step
  · cases step
    exact consistent.goto trivial
  next chunk isHead =>
    cases step
    refine consistent.goto ⟨behind, rfl, ?_⟩
    intro _ alsoHead _
    rw [isHead] at alsoHead
    cases alsoHead
    rfl

theorem Consistent.getSwap (position : st.positions thread = .getSwap orig next)
    (step : Step st (.step thread) after)
    (noWrap : st.list.id.toNat ≤ after.list.id.toNat) : Consistent after all := by
  have relies := consistent.relies thread
  rw [position] at relies
  obtain ⟨_, advanced, following⟩ := relies
  simp only [Step, State.next?, position] at step
  split at step
  · cases step
  next chunk isHead =>
    split at step
    next unchanged =>
      cases step
      have newer : st.list.id.toNat < next.id.toNat := by
        change st.list.id.toNat ≤ next.id.toNat at noWrap
        rw [advanced, ← unchanged] at noWrap ⊢
        exact next_id noWrap
      exact consistent.popped (unchanged ▸ isHead) (following chunk isHead unchanged) newer
    next changed =>
      cases step
      exact consistent.goto (le_refl st.list.id.toNat)

theorem Consistent.addStep (position : st.positions thread = .addLoop arg orig)
    (step : Step st (.step thread) after) :
    Consistent after all := by
  have relies := consistent.relies thread
  rw [position] at relies
  obtain ⟨owned, behind⟩ := relies
  simp only [Step, State.next?, position] at step
  cases step
  exact consistent.write owned orig.chunk ⟨owned, behind, rfl, update_self _ _ _⟩

theorem Consistent.addSwap (position : st.positions thread = .addSwap arg orig next)
    (step : Step st (.step thread) after) (noWrap : st.list.id.toNat ≤ after.list.id.toNat) :
      Consistent after all := by
  have relies := consistent.relies thread
  rw [position] at relies
  obtain ⟨owned, _, rfl, following⟩ := relies
  simp only [Step, State.next?, position] at step
  split at step
  next unchanged =>
    cases step
    subst unchanged
    exact consistent.pushed owned rfl following (next_id noWrap)
  next changed =>
    cases step
    exact consistent.goto ⟨owned, le_refl st.list.id.toNat⟩

theorem Consistent.readId (step : Step st (.readId thread) after) : Consistent after all := by
  have relies := consistent.relies thread
  simp only [Step, State.next?] at step
  split at step
  next position =>
    cases step
    exact consistent.goto (relies_afterGet seen_now)
  next position =>
    cases step
    rw [position] at relies
    exact consistent.goto (relies_afterAdd relies.1 seen_now)
  · cases step

theorem Consistent.readChunk (step : Step st (.readChunk thread) after) : Consistent after all := by
  have relies := consistent.relies thread
  simp only [Step, State.next?] at step
  split at step
  next position =>
    cases step
    rw [position] at relies
    exact consistent.goto (relies_afterGet relies)
  next position =>
    cases step
    rw [position] at relies
    exact consistent.goto (relies_afterAdd relies.1 relies.2)
  · cases step

theorem Consistent.between (call : op = .callGet thread ∨ (∃ arg, op = .callAdd thread arg) ∨
    ∃ chunk value, op = .write thread chunk value) (step : Step st op after) :
      Consistent after all := by
  rcases call with rfl | ⟨_, rfl⟩ | ⟨chunk, value, rfl⟩
  · simp only [Step, State.next?] at step
    split at step
    · cases step
      exact consistent.goto (fun _ none => nomatch none)
    · cases step
  · simp only [Step, State.next?] at step
    split at step
    · split at step
      next owned =>
        cases step
        exact consistent.goto ⟨owned, fun _ none => nomatch none⟩
      · cases step
    · cases step
  · simp only [Step, State.next?] at step
    split at step
    next position =>
      split at step
      next owned =>
        cases step
        have idle : st.positions = update st.positions thread .idle := by
          rw [← position, update_eq_self]
        have written : Consistent ({ st with next := update st.next chunk value }.goto
            thread .idle) all := consistent.write owned value trivial
        rw [State.goto] at written
        rwa [← idle] at written
      · cases step
    · cases step

end

theorem Consistent.step (move : Move (State Thread Chunk) (Op Thread Chunk))
    (consistent : Consistent move.before all)
    (step : Step move.before move.label move.after) (noWrap : NoWrap move) :
      Consistent move.after all := by
  obtain ⟨st, op, _⟩ := move
  cases op with
  | callGet thread => exact consistent.between (.inl rfl) step
  | callAdd thread arg => exact consistent.between (.inr (.inl ⟨arg, rfl⟩)) step
  | write thread chunk value => exact consistent.between (.inr (.inr ⟨chunk, value, rfl⟩)) step
  | readId thread => exact consistent.readId step
  | readChunk thread => exact consistent.readChunk step
  | step thread =>
    cases position : st.positions thread with
    | getLoop orig => exact consistent.getStep position step
    | getSwap orig next => exact consistent.getSwap position step noWrap
    | addLoop arg orig => exact consistent.addStep position step
    | addSwap => exact consistent.addSwap position step noWrap
    | idle | get | add =>
      simp only [Step, State.next?, position] at step
      cases step

def Initial (st : State Thread Chunk) (all : List Chunk) : Prop :=
  (∀ thread, st.positions thread = .idle) ∧ ∃ items, Accounts st items all

/-- However the calls of any number of threads interleave, as long as the id does
not wrap, the list ends after finitely many chunks, each chunk is either on it once
or in the hands of one thread, and no chunk is lost or made up. -/
theorem chunks_accounted {start last : State Thread Chunk} {all : List Chunk}
    {moves : List (Move (State Thread Chunk) (Op Thread Chunk))} (initial : Initial start all)
    (run : Run Step start moves last) (noWrap : ∀ move ∈ moves, NoWrap move) :
    ∀ st ∈ visited start moves, ∃ items, Chain st.next st.list.chunk items ∧ items.Nodup ∧
      (items ++ st.owned.map Prod.snd).Perm all ∧
      ∀ chunk ∈ all, (items.count chunk = 1 ∧ ∀ thread, (thread, chunk) ∉ st.owned) ∨
        (chunk ∉ items ∧ ∃! thread, (thread, chunk) ∈ st.owned) := by
  have consistent : Consistent start all := by
    refine ⟨initial.2, ?_⟩
    intro thread
    rw [initial.1 thread]
    trivial
  have always := run_guarded (fun st => Consistent st all) NoWrap Consistent.step run
      consistent noWrap
  intro st reached
  obtain ⟨items, accounts⟩ := (always st reached).accounts
  refine ⟨items, accounts.chain, chain_nodup accounts.chain, accounts.order, ?_⟩
  intro chunk known
  by_cases listed : chunk ∈ items
  · left
    refine ⟨count_eq_one_of_mem (chain_nodup accounts.chain) listed, ?_⟩
    intro thread owned
    exact accounts.not_listed owned listed
  · right
    refine ⟨listed, ?_⟩
    have somewhere := accounts.order.mem_iff.mpr known
    obtain ⟨⟨thread, _⟩, owned, rfl⟩ :=
      mem_map.mp ((mem_append.mp somewhere).resolve_left listed)
    exact ⟨thread, owned, fun _ ownedToo => accounts.one_owner owned ownedToo⟩

end Moves

def twoChunks : State Bool (Fin 2) where
  list := ⟨0, some 0⟩
  next := fun chunk => if chunk = 0 then some 1 else none
  positions := fun _ => .idle
  owned := []

/-- One thread has read that chunk 1 follows chunk 0. Before it swaps, the other
pops both and pushes chunk 0 back. -/
def popAgain : List (Op Bool (Fin 2)) :=
  [.callGet false, .readId false, .readChunk false, .step false,
    .callGet true, .readChunk true, .readId true, .step true, .step true,
    .callGet true, .readChunk true, .readId true, .step true, .step true,
    .callAdd true 0, .readId true, .readChunk true, .step true, .step true,
    .step false, .step false, .step false]

theorem chunks_accounted_pop_again : let ran := trace State.next? twoChunks popAgain
    ran.1.length = 22 ∧ ran.2.list = ⟨4, none⟩ ∧ ran.2.owned = [(false, 0), (true, 1)] ∧
    ∃ items, Chain ran.2.next ran.2.list.chunk items ∧ items.Nodup ∧
      (items ++ ran.2.owned.map Prod.snd).Perm [0, 1] ∧
      ∀ chunk ∈ [0, 1], (items.count chunk = 1 ∧ ∀ thread, (thread, chunk) ∉ ran.2.owned) ∨
        (chunk ∉ items ∧ ∃! thread, (thread, chunk) ∈ ran.2.owned) := by
  intro ran
  have run : Run Step twoChunks ran.1 ran.2 := trace_run _ (fun _ _ _ => id) _ _
  have initial : Initial twoChunks [0, 1] :=
    ⟨fun _ => rfl, [0, 1], ⟨rfl, rfl, rfl⟩, .refl _, by decide⟩
  have noWrap : ∀ move ∈ ran.1, NoWrap move := by
    change ∀ move ∈ ran.1, move.before.list.id.toNat ≤ move.after.list.id.toNat
    decide +kernel
  exact ⟨by decide +kernel, by decide +kernel, by decide +kernel,
    chunks_accounted initial run noWrap ran.2 (run_last_visited run)⟩

end Nx.ChunkLists
