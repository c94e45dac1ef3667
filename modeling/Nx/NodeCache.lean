import Nx.Paths
import Nx.Transitions

/-!
The node cache of the kernel's file system layer: kernel/source/filesystems/nodecache.cpp, and
`openNode`, `closeNode`, `open` and `close` of kernel/source/filesystems/vfs.cpp.
-/

namespace Nx.NodeCache

open Scans Paths Transitions Function List

abbrev Store := List (List (Text × Nat))

structure Node where
  refcount : Nat
  path : Text

/-- `path` is what the file was opened with. -/
structure File where
  path : Text
  node : Nat
  deriving DecidableEq

structure Vfs where
  mountedFilesystems : List Text
  store : Store
  nodes : Nat → Option Node
  nodeIdCounter : Nat
  files : List File

def fetchFrom : List Text → Store → Option Nat → Option Nat
  | [], _, ret => ret
  | comp :: rest, map :: store, _ =>
    match map.lookup comp with
    | some node => fetchFrom rest store (some node)
    | none => none
  | _ :: _, [], _ => none

def fetch (store : Store) (path : Text) : Except Stop (Option Nat) := do
  let comps ← splitPathComponents path
  pure (if store.length < comps.length then none else fetchFrom comps store none)

def insert (store : Store) (path : Text) (node : Nat) : Except Stop Store := do
  let comps ← splitPathComponents path
  -- a difference below zero is one of nearly 2^64 maps
  if comps.length < store.length then .error .endless
  else
    let store := store ++ List.replicate (comps.length - store.length) []
    let map := store.getD (comps.length - 1) []
    if (map.lookup path).isSome then .error (.abort "something already exists at path!")
    else pure (store.set (comps.length - 1) (map ++ [(path, node)]))

def evict (store : Store) (path : Text) : Except Stop Store := do
  let comps ← splitPathComponents path
  if store.length < comps.length then .error (.abort "this->store.size() >= comps.size()")
  else pure (store.modify (comps.length - 1) (List.filter fun entry => entry.1 ≠ comps.getLastD []))

def createNode (vfs : Vfs) (path : Text) : Except Stop (Nat × Vfs) := do
  let comps ← splitPathComponents path
  match ← getFilesystemAtPath vfs.mountedFilesystems comps with
  | none => .error (.readOutside 0)
  | some mountpoint =>
    let fsm ← splitPathComponents mountpoint
    let node : Node := ⟨1, concatPath (comps.drop fsm.length)⟩
    pure (vfs.nodeIdCounter, { vfs with
      nodes := update vfs.nodes vfs.nodeIdCounter (some node), nodeIdCounter :=
        vfs.nodeIdCounter + 1 })

def openNode (vfs : Vfs) (path : Text) (opens : Bool) : Except Stop (Option Nat × Vfs) := do
  match ← fetch vfs.store path with
  | some id =>
    let shared := (vfs.nodes id).map fun node => { node with refcount := node.refcount + 1 }
    pure (some id, { vfs with nodes := update vfs.nodes id shared })
  | none =>
    let (id, vfs) ← createNode vfs path
    let store ← insert vfs.store path id
    pure (if opens then some id else none, { vfs with store })

def closeNode (vfs : Vfs) (id : Nat) : Except Stop Vfs :=
  match vfs.nodes id with
  | none => .error (.readOutside id)
  | some node =>
    if node.refcount = 1 then do
      let store ← evict vfs.store node.path
      pure { vfs with store, nodes := update vfs.nodes id none }
    else pure { vfs with nodes := update vfs.nodes id (some { node with refcount := node.refcount - 1 }) }

inductive Call where
  | open_ (path : Text) (opensNode opensFile : Bool)
  | close (file : File)

def perform (vfs : Vfs) : Call → Except Stop Vfs
  | .open_ path opensNode opensFile => do
    let comps ← splitPathComponents path
    match ← getFilesystemAtPath vfs.mountedFilesystems comps with
    | none => pure vfs
    | some _ =>
      let (node, vfs) ← openNode vfs path opensNode
      match node with
      | none => pure vfs
      | some node =>
        pure (if opensFile then { vfs with files := vfs.files ++ [⟨path, node⟩] } else vfs)
  | .close file => closeNode { vfs with files := vfs.files.erase file } file.node

def Step (before : Vfs) (call : Call) (after : Vfs) : Prop := perform before call = .ok after

def Shared (vfs : Vfs) : Prop := ∀ a ∈ vfs.files, ∀ b ∈ vfs.files, a.path = b.path → a.node = b.node

def Counted (vfs : Vfs) : Prop := ∀ entry ∈ vfs.store.flatten, ∃ node, vfs.nodes entry.2 =
    some node ∧
  node.refcount = (vfs.files.filter (·.node = entry.2)).length

structure Lawful (move : Move Vfs Call) : Prop where
  shared : Shared move.after
  counted : Counted move.after
  failed : ∀ path opensNode opensFile, move.label = .open_ path opensNode opensFile →
    move.after.files = move.before.files → move.after.store = move.before.store
  evicted : ∀ file, move.label = .close file → move.after.store.flatten =
    if ∃ other ∈ move.after.files, other.path = file.path then move.before.store.flatten
    else move.before.store.flatten.filter (·.1 ≠ file.path)

def boot (mounts : List Text) : Vfs := ⟨mounts, [], fun _ => none, 0, []⟩

def opening (path : List Text) : Call := .open_ (pathText path) true true

structure Inv (vfs : Vfs) : Prop where
  absolute : ∀ entry ∈ vfs.store.flatten, slash ∈ entry.1
  entries : ∀ entry ∈ vfs.store.flatten, entry.2 < vfs.nodeIdCounter
  files : ∀ file ∈ vfs.files, file.node < vfs.nodeIdCounter ∧
    file.path ∈ vfs.store.flatten.map Prod.fst
  shared : Shared vfs
  counted : Counted vfs

variable {vfs after : Vfs} {store : Store} {path : List Text} {id : Nat}

theorem split_path (plain : Plain path) (some_ : path ≠ []) :
    splitPathComponents (pathText path) = .ok path := by
  rw [splitPathComponents, split_pathText _ plain, if_neg some_]

theorem slash_mem_pathText (some_ : path ≠ []) : slash ∈ pathText path := by
  obtain ⟨_, _, rfl⟩ := exists_cons_of_ne_nil some_
  simp [pathText, concatPath]

theorem lookup_none {map : List (Text × Nat)} {key : Text} (absent : ∀ entry ∈ map, entry.1 ≠ key) :
    map.lookup key = none := by
  induction map with
  | nil => rfl
  | cons _ _ ih =>
    obtain ⟨first, rest_⟩ := forall_mem_cons.mp absent
    rw [lookup_cons, beq_false_of_ne (Ne.symm first)]
    exact ih rest_

/-- No component is a key. -/
theorem fetch_none (absolute : ∀ entry ∈ store.flatten, slash ∈ entry.1) (plain : Plain path)
    (some_ : path ≠ []) :
    fetch store (pathText path) = .ok none := by
  rw [fetch, bind_ok (split_path plain some_)]
  split
  · rfl
  · obtain ⟨first, _, rfl⟩ := exists_cons_of_ne_nil some_
    cases store with
    | nil => rfl
    | cons map =>
      have absent : map.lookup first = none := lookup_none fun entry listed same =>
        (plain first mem_cons_self).2 (same ▸ absolute entry
          (mem_flatten_of_mem mem_cons_self listed))
      simp [fetchFrom, absent, pure, Except.pure]

theorem getD_subset (store : Store) (level : Nat) : store.getD level [] ⊆ store.flatten := by
  intro _ listed
  rw [getD_eq_getElem?_getD] at listed
  cases found : store[level]? with
  | none => simp [found] at listed
  | some =>
    rw [found] at listed
    exact mem_flatten_of_mem (mem_of_getElem? found) listed

theorem insert_fresh (plain : Plain path) (some_ : path ≠ []) (deep : store.length ≤ path.length)
    (fresh : pathText path ∉ store.flatten.map Prod.fst) :
      ∃ after, insert store (pathText path) id = .ok after ∧
    after.length = path.length ∧ ∀ entry, entry ∈ after.flatten ↔ entry ∈ store.flatten ∨
    entry = (pathText path, id) := by
  have level : 0 < path.length := length_pos_iff.mpr some_
  rw [insert, bind_ok (split_path plain some_), if_neg (Nat.not_lt.mpr deep)]
  have same : (store ++ List.replicate (path.length - store.length) []).flatten = store.flatten :=
    by simp
  have length : (store ++ List.replicate (path.length - store.length) []).length = path.length :=
    by simp; omega
  generalize store ++ List.replicate (path.length - store.length) [] = padded at same length
  dsimp only
  have absent : (padded.getD (path.length - 1) []).lookup (pathText path) = none :=
    lookup_none fun entry listed isKey =>
    fresh (mem_map.mpr ⟨entry, same ▸ getD_subset padded _ listed, isKey⟩)
  rw [absent, if_neg (by simp)]
  refine ⟨_, rfl, by rw [length_set, length], fun _ => ?_⟩
  have split : padded = padded.take (path.length - 1) ++ padded.getD (path.length - 1) [] ::
      padded.drop (path.length - 1 + 1) := by
    rw [getD_eq_getElem _ _ (by omega), cons_getElem_drop_succ, take_append_drop]
  have changed : padded.set (path.length - 1)
      (padded.getD (path.length - 1) [] ++ [(pathText path, id)]) =
      padded.take (path.length - 1) ++ (padded.getD (path.length - 1) [] ++
        [(pathText path, id)]) ::
        padded.drop (path.length - 1 + 1) := by
    rw [set_eq_take_append_cons_drop, if_pos (by omega)]
  rw [changed, ← same]
  nth_rewrite 4 [split]
  simp only [flatten_append, flatten_cons, mem_append, mem_singleton]
  tauto

variable {mountpoint : Text}

theorem mounted_split (found : getFilesystemAtPath mounts path = .ok (some mountpoint)) :
    ∃ fsm, splitPathComponents mountpoint = .ok fsm := by
  unfold getFilesystemAtPath at found
  induction mounts with
  | nil => cases found
  | cons first _ ih =>
    rw [firstMounted] at found
    cases isSplit : splitPathComponents first with
    | error =>
      rw [bind_error isSplit] at found
      cases found
    | ok fsm =>
      rw [bind_ok isSplit] at found
      split at found
      · cases found
        exact ⟨fsm, isSplit⟩
      · exact ih found

theorem opening_done (inv : Inv vfs) (plain : Plain path) (some_ : path ≠ [])
    (found : getFilesystemAtPath vfs.mountedFilesystems path = .ok (some mountpoint))
    (deep : vfs.store.length ≤ path.length) (fresh :
      pathText path ∉ vfs.store.flatten.map Prod.fst) :
    ∃ node store, node.refcount = 1 ∧ store.length = path.length ∧
      (∀ entry, entry ∈ store.flatten ↔ entry ∈ vfs.store.flatten ∨
        entry = (pathText path, vfs.nodeIdCounter)) ∧
      perform vfs (opening path) = .ok { vfs with
        store, nodes := update vfs.nodes vfs.nodeIdCounter (some node), nodeIdCounter :=
          vfs.nodeIdCounter + 1
        files := vfs.files ++ [⟨pathText path, vfs.nodeIdCounter⟩] } := by
  obtain ⟨fsm, isSplit⟩ := mounted_split found
  obtain ⟨store, inserted, length, entries⟩ :=
    @insert_fresh vfs.store path vfs.nodeIdCounter plain some_ deep fresh
  refine ⟨⟨1, concatPath (path.drop fsm.length)⟩, store, rfl, length, entries, ?_⟩
  have created : createNode vfs (pathText path) = .ok _ := (bind_ok (split_path plain some_)).trans
    ((bind_ok found).trans (bind_ok isSplit))
  have opened : openNode vfs (pathText path) true = .ok _ :=
    (bind_ok (fetch_none inv.absolute plain some_)).trans
    ((bind_ok created).trans (bind_ok inserted))
  exact (bind_ok (split_path plain some_)).trans ((bind_ok found).trans (bind_ok opened))

structure Opened (vfs after : Vfs) (path : Text) : Prop where
  mounts : after.mountedFilesystems = vfs.mountedFilesystems
  entries : ∀ entry, entry ∈ after.store.flatten ↔ entry ∈ vfs.store.flatten ∨
    entry = (path, vfs.nodeIdCounter)
  created : ∃ node, node.refcount = 1 ∧ after.nodes = update vfs.nodes vfs.nodeIdCounter (some node)
  counter : after.nodeIdCounter = vfs.nodeIdCounter + 1
  files : after.files = vfs.files ++ [⟨path, vfs.nodeIdCounter⟩]

variable {text : Text}

section

variable (opened : Opened vfs after text)
include opened

theorem Opened.keys (key : Text) :
    key ∈ after.store.flatten.map Prod.fst ↔ key ∈ vfs.store.flatten.map Prod.fst ∨ key = text := by
  simp only [mem_map, opened.entries]
  constructor
  · rintro ⟨entry, old | rfl, rfl⟩
    · exact .inl ⟨entry, old, rfl⟩
    · exact .inr rfl
  · rintro (⟨entry, old, rfl⟩ | rfl)
    · exact ⟨entry, .inl old, rfl⟩
    · exact ⟨_, .inr rfl, rfl⟩

theorem Opened.shared (inv : Inv vfs) (fresh : text ∉ vfs.store.flatten.map Prod.fst) :
    Shared after := by
  have different : ∀ file ∈ vfs.files, file.path ≠ text :=
    fun file listed same => fresh (same ▸ (inv.files file listed).2)
  intro a inA b inB same
  rw [opened.files, mem_append, mem_singleton] at inA inB
  rcases inA with oldA | rfl <;> rcases inB with oldB | rfl
  · exact inv.shared a oldA b oldB same
  · exact absurd same (different a oldA)
  · exact absurd same.symm (different b oldB)
  · rfl

theorem Opened.counted (inv : Inv vfs) : Counted after := by
  obtain ⟨node, one, nodes⟩ := opened.created
  intro entry listed
  -- the new node has the new file only, and no other node gets one
  rw [nodes, opened.files, filter_append, length_append]
  rcases (opened.entries entry).mp listed with old | rfl
  · have below := inv.entries entry old
    obtain ⟨known, _, count⟩ := inv.counted entry old
    refine ⟨known, by rwa [update_of_ne below.ne], ?_⟩
    simp [count, below.ne']
  · have unused : vfs.files.filter (·.node = vfs.nodeIdCounter) = [] := by
      simpa using fun file listed => (inv.files file listed).1.ne
    exact ⟨node, update_self .., by simp [one, unused]⟩

theorem Opened.keeps (inv : Inv vfs) (absolute : slash ∈ text)
    (fresh : text ∉ vfs.store.flatten.map Prod.fst) : Inv after := by
  refine ⟨fun entry listed => ?_, fun entry listed => ?_, fun file listed =>
    ?_, opened.shared inv fresh,
    opened.counted inv⟩
  · rcases (opened.entries entry).mp listed with old | rfl
    · exact inv.absolute entry old
    · exact absolute
  · rw [opened.counter]
    rcases (opened.entries entry).mp listed with old | rfl
    · exact (inv.entries entry old).trans (Nat.lt_succ_self _)
    · exact Nat.lt_succ_self _
  · rw [opened.counter, opened.keys]
    rw [opened.files, mem_append, mem_singleton] at listed
    rcases listed with old | rfl
    · exact ⟨(inv.files file old).1.trans (Nat.lt_succ_self _), .inl (inv.files file old).2⟩
    · exact ⟨Nat.lt_succ_self _, .inr rfl⟩

theorem Opened.lawful (kept : Inv after) (a b : Bool) : Lawful ⟨vfs, .open_ text a b, after⟩ := by
  refine ⟨kept.shared, kept.counted, fun _ _ _ _ same => ?_, nofun⟩
  rw [opened.files] at same
  simp at same

end

def Openable (mounts : List Text) (path : List Text) : Prop :=
  Plain path ∧ path ≠ [] ∧ ∃ mountpoint, getFilesystemAtPath mounts path = .ok (some mountpoint)

theorem openings_lawful {paths : List (List Text)} (inv : Inv vfs)
    (openable : ∀ path ∈ paths, Openable vfs.mountedFilesystems path) (distinct : paths.Nodup)
    (deeper : paths.Pairwise fun a b => a.length ≤ b.length)
    (fresh : ∀ path ∈ paths, vfs.store.length ≤ path.length ∧
      pathText path ∉ vfs.store.flatten.map Prod.fst) :
    ∃ moves last, Run Step vfs moves last ∧ moves.map Move.label = paths.map opening ∧
      ∀ move ∈ moves, Lawful move := by
  -- what is left to open is new and not shorter than what the cache has room for
  induction paths generalizing vfs with
  | nil => exact ⟨[], vfs, .refl vfs, rfl, nofun⟩
  | cons path _ ih =>
    obtain ⟨⟨plain, some_, _, found⟩, openable⟩ := forall_mem_cons.mp openable
    obtain ⟨⟨deep, new⟩, fresh⟩ := forall_mem_cons.mp fresh
    obtain ⟨notLater, distinct⟩ := nodup_cons.mp distinct
    obtain ⟨behind, deeper⟩ := pairwise_cons.mp deeper
    obtain ⟨node, store, one, length, entries, done⟩ := opening_done inv plain some_ found deep new
    generalize isAfter : Vfs.mk _ store _ _ _ = after at done
    have opened : Opened vfs after (pathText path) := by
      subst isAfter
      exact ⟨rfl, entries, ⟨node, one, rfl⟩, rfl, rfl⟩
    have kept := opened.keeps inv (slash_mem_pathText some_) new
    obtain ⟨_, last, run, labels, lawful⟩ := ih kept (opened.mounts ▸ openable) distinct deeper
        fun other later => by
      refine ⟨?_, fun listed => ?_⟩
      · rw [← isAfter]
        exact length.le.trans (behind other later)
      · rcases (opened.keys _).mp listed with old | same
        · exact (fresh other later).2 old
        · have ⟨isPlain, nonempty, _⟩ := openable other later
          have equal := (split_path isPlain nonempty).symm.trans
              ((congrArg _ same).trans (split_path plain some_))
          exact notLater (Except.ok.inj equal ▸ later)
    exact ⟨_, last, .next done run, congrArg (opening path :: ·) labels,
      forall_mem_cons.mpr ⟨opened.lawful kept _ _, lawful⟩⟩

/-- All goes well where nothing is ever closed, the driver always succeeds, no path is opened twice
and none after a longer one. -/
theorem opens_lawful {mounts : List Text} {paths : List (List Text)}
    (openable : ∀ path ∈ paths, Openable mounts path)
    (distinct : paths.Nodup) (deeper : paths.Pairwise fun a b => a.length ≤ b.length) :
    ∃ moves last, Run Step (boot mounts) moves last ∧ moves.map Move.label = paths.map opening ∧
      ∀ move ∈ moves, Lawful move :=
  openings_lawful ⟨nofun, nofun, nofun, nofun, nofun⟩ openable distinct deeper fun _ _ =>
    ⟨Nat.zero_le _, nofun⟩

/-- `/a` is mounted, and `/a/a` and `/a/b` are opened. -/
theorem opens_lawful_two : ∃ moves last, Run Step (boot [pathText [[0x61]]]) moves last ∧
    moves.map Move.label = [opening [[0x61], [0x61]], opening [[0x61], [0x62]]] ∧ ∀ move ∈ moves,
      Lawful move := by
  have openable (char : Byte) (plain : char ≠ slash) :
      Openable [pathText [[0x61]]] [[0x61], [char]] :=
    ⟨by simpa [Plain, slash] using Ne.symm plain, nofun, _, rfl⟩
  exact @opens_lawful _ [_, _]
    (by simpa using ⟨openable 0x61 (by decide), openable 0x62 (by decide)⟩)
    (by decide) (by decide)

/-- The same file is opened again; one is opened after a longer path; the driver does not find one;
one is closed. -/
theorem calls_misbehave : let vfs := boot [pathText [[0x61]]]
    let path : List Text := [[0x61], [0x62]]
    (∃ after, perform vfs (opening path) = .ok after ∧
      perform after (opening path) = .error (.abort "something already exists at path!")) ∧
    (∃ after, perform vfs (opening path) = .ok after ∧ perform after (opening [[0x61]]) =
      .error .endless) ∧
    (∃ after, Step vfs (.open_ (pathText path) false true) after ∧
      ¬ Lawful ⟨vfs, .open_ (pathText path) false true, after⟩) ∧
    ∃ opened after, Step vfs (opening path) opened ∧ Step opened (.close ⟨pathText path, 0⟩) after ∧
      ¬ Lawful ⟨opened, .close ⟨pathText path, 0⟩, after⟩ := by
  refine ⟨⟨_, rfl, rfl⟩, ⟨_, rfl, rfl⟩, ⟨_, rfl, fun lawful => ?_⟩, _, _, rfl, rfl,
    fun lawful => ?_⟩
  · exact absurd (lawful.failed _ _ _ rfl rfl) (by decide)
  · exact absurd (lawful.evicted _ rfl) (by decide)

end Nx.NodeCache
