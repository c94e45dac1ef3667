import Nx.Scans

/-!
Paths and mount points: kernel/source/filesystems/util.cpp with `getFilesystemAtPath` of
kernel/source/filesystems/vfs.cpp, and services/vfs-svr/source/util.cpp.
-/

namespace Nx.Paths

open Scans List

abbrev Text := List Byte

def slash : Byte := 0x2F

def skipSeparators (outside : Stop) : Text → Except Stop Text
  | [] => .error outside
  | char :: rest => if char = slash then skipSeparators outside rest else .ok (char :: rest)

def collect : Text → Text → List Text → List Text
  | [], current, ret => if 0 < current.length then ret ++ [current] else ret
  | char :: rest, current, ret =>
    if char = slash then collect rest [] (ret ++ [current]) else collect rest
      (current ++ [char]) ret

def splitWith (outside : Stop) (path : Text) : Except Stop (List Text) :=
  if path = [slash] then .ok [[slash]]
  else do
    let rest ← skipSeparators outside path
    pure (collect rest [] [])

def splitPathComponents (path : Text) : Except Stop (List Text) :=
  splitWith (.abort "operator[]: index %zu out of range (size: %zu)") path

def serverSplitPathComponents (path : Text) : Except Stop (List Text) :=
  splitWith (.readOutside path.length) path

def concatPath (components : List Text) : Text := components.flatMap (slash :: ·)

def runs (path : Text) : List Text := (path.splitOnP (· == slash)).filter (· ≠ [])

/-- A path that is not only separators, and has something between any two separators behind the
leading ones. -/
def Tame (path : Text) : Prop :=
  (∃ char ∈ path, char ≠ slash) ∧ [] ∉ ((path.dropWhile (· == slash)).splitOnP
    (· == slash)).dropLast

def Plain (components : List Text) : Prop := ∀ component ∈ components, component ≠ [] ∧
    slash ∉ component

theorem modifyHead_nil_append (parts : List Text) : parts.modifyHead ([] ++ ·) = parts := by
  cases parts <;> rfl

theorem collect_runs {rest current : Text} (ret : List Text)
    (tame : [] ∉ ((rest.splitOnP (· == slash)).modifyHead (current ++ ·)).dropLast) :
    collect rest current ret = ret ++ ((rest.splitOnP (· == slash)).modifyHead
      (current ++ ·)).filter (· ≠ []) := by
  induction rest generalizing current ret with
  | nil =>
    rw [collect]
    cases current <;> simp
  | cons char _ ih =>
    by_cases same : char = slash
    · have isSlash : (char == slash) = true := by simp [same]
      rw [splitOnP_cons_eq_if_modifyHead, if_pos isSlash, modifyHead_cons, append_nil] at tame ⊢
      rw [dropLast_cons_of_ne_nil (splitOnP_ne_nil _ _), mem_cons, not_or] at tame
      rw [collect, if_pos same, ih _ (by rw [modifyHead_nil_append]; exact tame.2),
        modifyHead_nil_append]
      simp [Ne.symm tame.1]
    · have other : ¬ (char == slash) = true := by simp [same]
      rw [splitOnP_cons_eq_if_modifyHead, if_neg other, modifyHead_modifyHead] at tame ⊢
      have joined : (current ++ ·) ∘ cons char = (current ++ [char] ++ ·) := by
        funext more
        simp
      rw [joined] at tame ⊢
      rw [collect, if_neg same, ih _ tame]

theorem skipSeparators_some (some_ : ∃ char ∈ path, char ≠ slash) :
    skipSeparators outside path = .ok (path.dropWhile (· == slash)) := by
  induction path with
  | nil => simp at some_
  | cons char _ ih =>
    rw [skipSeparators]
    by_cases same : char = slash
    · rw [if_pos same, ih (by simpa [same] using some_), dropWhile_cons_of_pos (by simp [same])]
    · rw [if_neg same, dropWhile_cons_of_neg (by simp [same])]

theorem runs_dropWhile (path : Text) : runs (path.dropWhile (· == slash)) = runs path := by
  induction path with
  | nil => rfl
  | cons char _ ih =>
    by_cases same : char = slash
    · rw [dropWhile_cons_of_pos (by simp [same]), ih]
      simp [runs, splitOnP_cons_eq_if_modifyHead, same]
    · rw [dropWhile_cons_of_neg (by simp [same])]

theorem split_tame (outside : Stop) (tame : Tame path) :
    splitWith outside path = .ok (runs path) := by
  obtain ⟨some_, _⟩ := tame
  have other : path ≠ [slash] := by
    rintro rfl
    simp at some_
  rw [splitWith, if_neg other, bind_ok (skipSeparators_some some_), ← runs_dropWhile]
  refine congrArg Except.ok ((collect_runs [] ?_).trans ?_)
  · rwa [modifyHead_nil_append]
  · rw [modifyHead_nil_append, nil_append, runs]

variable {components : List Text}

theorem splitOnP_concat (plain : Plain (component :: components)) :
    (component ++ concatPath components).splitOnP (· == slash) = component :: components := by
  have clear (other : Text) (free : slash ∉ other) : ∀ char ∈ other, (char == slash) = false := by
    intro _ listed
    simpa using ne_of_mem_of_not_mem listed free
  induction components generalizing component with
  | nil =>
    rw [concatPath, flatMap_nil, append_nil]
    exact splitOnP_eq_singleton (clear _ (plain component (by simp)).2)
  | cons second rest ih =>
    have later : (second ++ concatPath rest).splitOnP (· == slash) = second :: rest :=
      ih fun other listed => plain other (mem_cons_of_mem _ listed)
    rw [concatPath, flatMap_cons, cons_append,
      splitOnP_append_cons_of_forall_mem (clear _ (plain component (by simp)).2) _ (by simp)]
    exact congrArg _ later

theorem concat_tame (plain : Plain components) (some_ : components ≠ []) :
    Tame (concatPath components) ∧ runs (concatPath components) = components := by
  obtain ⟨component, rest, rfl⟩ := exists_cons_of_ne_nil some_
  have ⟨nonempty, free⟩ := plain component (by simp)
  obtain ⟨char, more, rfl⟩ := exists_cons_of_ne_nil nonempty
  have other : char ≠ slash := fun same => free (by simp [same])
  have path : concatPath ((char :: more) :: rest) = slash :: (char :: more ++ concatPath rest) :=
    rfl
  have behind : (concatPath ((char :: more) :: rest)).dropWhile (· == slash) = char :: more ++
      concatPath rest := by
    rw [path, dropWhile_cons_of_pos (by simp), cons_append, dropWhile_cons_of_neg (by simp [other])]
  refine ⟨⟨⟨char, by simp [path], other⟩, ?_⟩, ?_⟩
  · rw [behind, splitOnP_concat plain]
    exact fun empty => (plain [] (mem_of_mem_dropLast empty)).1 rfl
  · rw [← runs_dropWhile, behind, runs, splitOnP_concat plain]
    exact filter_eq_self.mpr fun component listed => by simpa using (plain component listed).1

theorem skipSeparators_none (only : ¬ ∃ char ∈ path, char ≠ slash) :
    skipSeparators outside path = .error outside := by
  induction path with
  | nil => rfl
  | cons char _ ih =>
    have isSlash : char = slash := by simpa using fun other => only ⟨char, by simp, other⟩
    rw [skipSeparators, if_pos isSlash]
    exact ih fun ⟨other, listed, differs⟩ => only ⟨other, mem_cons_of_mem _ listed, differs⟩

/-- An empty part in front of the last one is collected. -/
theorem collect_empty {rest current : Text} {ret : List Text} (empty : [] ∈ ret ∨
      [] ∈ ((rest.splitOnP (· == slash)).modifyHead (current ++ ·)).dropLast) :
    [] ∈ collect rest current ret := by
  induction rest generalizing current ret with
  | nil =>
    have kept : [] ∈ ret := by simpa using empty
    rw [collect]
    split <;> simp [kept]
  | cons char _ ih =>
    by_cases same : char = slash
    · have isSlash : (char == slash) = true := by simp [same]
      rw [splitOnP_cons_eq_if_modifyHead, if_pos isSlash, modifyHead_cons, append_nil,
        dropLast_cons_of_ne_nil (splitOnP_ne_nil _ _), mem_cons] at empty
      rw [collect, if_pos same]
      apply ih
      rw [modifyHead_nil_append, mem_append, mem_singleton]
      tauto
    · have other : ¬ (char == slash) = true := by simp [same]
      rw [splitOnP_cons_eq_if_modifyHead, if_neg other, modifyHead_modifyHead] at empty
      rw [collect, if_neg same]
      refine ih (empty.imp_right fun listed => ?_)
      have joined : (current ++ ·) ∘ cons char = (current ++ [char] ++ ·) := by
        funext more
        simp
      rwa [joined] at listed

/-- What splitting a path should give, in both implementations. -/
def Canonical (path : Text) : Prop :=
  ∃ components, splitPathComponents path = .ok components ∧
    serverSplitPathComponents path = .ok components ∧
    components = if path = [slash] then [[slash]] else runs path

theorem tame_of_split (other : path ≠ [slash]) (split : splitWith outside path = .ok (runs path)) :
    Tame path := by
  rw [splitWith, if_neg other] at split
  by_cases some_ : ∃ char ∈ path, char ≠ slash
  · refine ⟨some_, fun empty => ?_⟩
    rw [bind_ok (skipSeparators_some some_)] at split
    have collected : collect (path.dropWhile (· == slash)) [] [] = runs path := Except.ok.inj split
    have listed : [] ∈ runs path :=
      collected ▸ collect_empty (.inr (by rwa [modifyHead_nil_append]))
    simp [runs] at listed
  · rw [skipSeparators_none some_] at split
    cases split

/-- The kernel and the server split exactly `/` and the tame paths as they should; what `concatPath`
makes is split back. -/
theorem split_canonical_iff (path : Text) :
    (Canonical path ↔ path = [slash] ∨ Tame path) ∧
    ∀ components, Plain components → components ≠ [] →
      splitPathComponents (concatPath components) = .ok components ∧
      serverSplitPathComponents (concatPath components) = .ok components := by
  refine ⟨⟨?_, ?_⟩, fun _ plain some_ => ?_⟩
  · rintro ⟨_, split, _, rfl⟩
    by_cases isRoot : path = [slash]
    · exact .inl isRoot
    · rw [if_neg isRoot] at split
      exact .inr (tame_of_split isRoot split)
  · rintro (rfl | tame)
    · exact ⟨_, rfl, rfl, rfl⟩
    · refine ⟨runs path, split_tame _ tame, split_tame _ tame, (if_neg ?_).symm⟩
      rintro rfl
      simpa using tame.1
  · obtain ⟨tame, same⟩ := concat_tame plain some_
    exact ⟨(split_tame _ tame).trans (congrArg _ same), (split_tame _ tame).trans (congrArg _ same)⟩

/-- `//a/b/` -/
theorem split_canonical_slashes :
    ∃ components, splitPathComponents [slash, slash, 0x61, slash, 0x62, slash] = .ok components ∧
      components = [[0x61], [0x62]] := by
  have tame : Tame [slash, slash, 0x61, slash, 0x62, slash] :=
    ⟨⟨0x61, by decide⟩, by decide +kernel⟩
  obtain ⟨_, split, _, rfl⟩ := (split_canonical_iff _).1.mpr (.inr tame)
  exact ⟨_, split, by decide +kernel⟩

/-- The empty path and `//` are indexed behind their end; `a//b` has an empty component. -/
theorem split_misbehaves :
    splitPathComponents [] = .error (.abort "operator[]: index %zu out of range (size: %zu)") ∧
    serverSplitPathComponents [slash, slash] = .error (.readOutside 2) ∧
    splitPathComponents [0x61, slash, slash, 0x62] = .ok [[0x61], [], [0x62]] ∧
    runs [0x61, slash, slash, 0x62] = [[0x61], [0x62]] := by
  decide +kernel

/-! ## Mount points -/

def isPathSubset (total subset : List Text) : Bool :=
  if total.length < subset.length then false else (subset.zip total).all fun pair =>
    pair.1 == pair.2

/-- The loop over the mounted filesystems, which are their mount points here. -/
def firstMounted (split : Text → Except Stop (List Text)) (pathcomps : List Text) :
    List Text → Except Stop (Option Text)
  | [] => .ok none
  | mountpoint :: rest => do
    let fsm ← split mountpoint
    if isPathSubset pathcomps fsm then pure (some mountpoint) else firstMounted split pathcomps rest

def getFilesystemAtPath (mountedFilesystems : List Text) (pathcomps : List Text) :
    Except Stop (Option Text) :=
  firstMounted splitPathComponents pathcomps mountedFilesystems

def getFilesystemForPath (mountedFilesystems : List Text) (path : Text) :
    Except Stop (Option Text) := do
  let xs ← serverSplitPathComponents path
  firstMounted serverSplitPathComponents xs mountedFilesystems

def pathText (components : List Text) : Text :=
  if components = [] then [slash] else concatPath components

def Resolves (mounts : List (List Text)) (path : List Text) : Option Text → Prop
  | some mountpoint => ∃ mount ∈ mounts, pathText mount = mountpoint ∧ mount <+: path ∧
      ∀ other ∈ mounts, other <+: path → other.length ≤ mount.length
  | none => ∀ mount ∈ mounts, ¬ mount <+: path

/-- The mount point, other than `/`, that is mounted first among the prefixes of the path is the
longest of them; and where `/` is mounted, the path is `/` or has another prefix among the mount
points. -/
structure Favourable (mounts : List (List Text)) (path : List Text) : Prop where
  first : ∀ mount, mounts.find? (fun mount => mount ≠ [] ∧ mount <+: path) = some mount →
    ∀ other ∈ mounts, other <+: path → other.length ≤ mount.length
  root : [] ∈ mounts → path = [] ∨ ∃ mount ∈ mounts, mount ≠ [] ∧ mount <+: path

theorem isPathSubset_iff (total subset : List Text) :
    isPathSubset total subset = true ↔ subset <+: total := by
  induction subset generalizing total with
  | nil => simp [isPathSubset]
  | cons _ _ ih =>
    cases total with
    | nil => simp [isPathSubset]
    | cons _ more =>
      have rest_ := ih more
      simp only [isPathSubset, length_cons, Nat.add_lt_add_iff_right, zip_cons_cons,
        all_cons] at rest_ ⊢
      rw [cons_prefix_cons, ← rest_]
      split <;> simp [*]

theorem split_pathText (outside : Stop) (plain : Plain components) :
    splitWith outside (pathText components) =
      .ok (if components = [] then [[slash]] else components) := by
  rw [pathText]
  split
  next => rfl
  next some_ =>
    have ⟨tame, same⟩ := concat_tame plain some_
    rw [split_tame outside tame, same]

theorem subset_iff (plain : Plain mount) (isPath : Plain path) :
    isPathSubset (if path = [] then [[slash]] else path) (if mount = [] then [[slash]] else mount) =
      true ↔
      if mount = [] then path = [] else mount <+: path := by
  have notRoot (components : List Text) (plain : Plain components) (rest : List Text) :
      components ≠ [slash] :: rest := by
    rintro rfl
    exact (plain [slash] (by simp)).2 (by simp)
  rw [isPathSubset_iff]
  by_cases isRoot : mount = []
  · rw [if_pos isRoot, if_pos isRoot]
    by_cases empty : path = []
    · simp [empty]
    · rw [if_neg empty]
      refine ⟨fun ⟨rest, same⟩ => absurd same.symm (notRoot path isPath rest), fun same =>
        absurd same empty⟩
  · rw [if_neg isRoot, if_neg isRoot]
    by_cases empty : path = []
    · rw [if_pos empty, empty, prefix_nil]
      refine ⟨fun isPrefix => ?_, fun same => absurd same isRoot⟩
      obtain ⟨_, more, rfl⟩ := exists_cons_of_ne_nil isRoot
      exact absurd rfl ((cons_prefix_cons.mp isPrefix).1 ▸ notRoot _ plain more)
    · rw [if_neg empty]

/-- The mount points that the loop takes for prefixes: `/` only where the path is `/`. -/
def Hit (path mount : List Text) : Prop := if mount = [] then path = [] else mount <+: path

instance decidableHit (path mount : List Text) : Decidable (Hit path mount) :=
  inferInstanceAs (Decidable (if mount = [] then path = [] else mount <+: path))

theorem firstMounted_find {mounts : List (List Text)} (splits : ∀ components, Plain components →
      split (pathText components) = .ok (if components = [] then [[slash]] else components))
    (plain : ∀ mount ∈ mounts, Plain mount) (isPath : Plain path) :
    (split (pathText path) >>= fun comps => firstMounted split comps (mounts.map pathText)) =
      .ok ((mounts.find? (Hit path ·)).map pathText) := by
  rw [bind_ok (splits path isPath)]
  induction mounts with
  | nil => rfl
  | cons mount rest ih =>
    obtain ⟨here, later⟩ := forall_mem_cons.mp plain
    have iff : _ ↔ Hit path mount := subset_iff here isPath
    rw [map_cons, firstMounted, bind_ok (splits mount here)]
    by_cases hit : Hit path mount
    · rw [if_pos (iff.mpr hit), find?_cons_of_pos (by simpa using hit)]
      rfl
    · rw [if_neg (iff.not.mpr hit), find?_cons_of_neg (by simpa using hit), ih later]

theorem pathText_injective (plain : Plain components) (plain' : Plain other)
    (same : pathText components = pathText other) : components = other := by
  have split := (split_pathText .endless plain).symm.trans
    ((congrArg _ same).trans (split_pathText .endless plain'))
  have notRoot (components : List Text) (plain : Plain components) : components ≠ [[slash]] := by
    rintro rfl
    exact (plain [slash] (by simp)).2 (by simp)
  by_cases empty : components = [] <;> by_cases empty' : other = []
  · rw [empty, empty']
  · simp [empty, empty', (notRoot other plain').symm] at split
  · simp [empty, empty', notRoot components plain] at split
  · simpa [empty, empty'] using split

/-- The first one that is hit is the longest prefix exactly under the condition. -/
theorem find_resolves_iff (plain : ∀ mount ∈ mounts, Plain mount) :
    Resolves mounts path ((mounts.find? (Hit path ·)).map pathText) ↔ Favourable mounts path := by
  by_cases empty : path = []
  · subst empty
    have onlyRoot (mount : List Text) : Hit [] mount ↔ mount = [] := by
      by_cases isRoot : mount = [] <;> simp [Hit, isRoot]
    refine iff_of_true ?_ ⟨fun mount first => ?_, fun _ => .inl rfl⟩
    · cases found : mounts.find? (Hit [] ·) with
      | none =>
        intro mount listed isPrefix
        exact find?_eq_none.mp found mount listed (by simpa [onlyRoot] using isPrefix)
      | some mount =>
        refine ⟨mount, mem_of_find?_eq_some found, rfl, ?_, fun other _ isPrefix => ?_⟩
        · simpa [onlyRoot] using find?_some found
        · simp [prefix_nil.mp isPrefix]
    · have := find?_some first
      simp at this
  · have others : (fun mount => decide (Hit path mount)) = fun mount =>
      decide (mount ≠ [] ∧ mount <+: path) := by
      funext mount
      by_cases isRoot : mount = [] <;> simp [Hit, isRoot, empty]
    rw [others]
    cases found : mounts.find? fun mount => decide (mount ≠ [] ∧ mount <+: path) with
    | none =>
      have passed (mount : List Text) (listed : mount ∈ mounts) (some_ : mount ≠ []) :
          ¬ mount <+: path := by
        simpa [some_] using find?_eq_none.mp found mount listed
      refine ⟨fun resolves => ⟨fun _ first => absurd (found.symm.trans first) (by simp),
        fun listed =>
        absurd nil_prefix (resolves [] listed)⟩, fun favourable mount listed isPrefix => ?_⟩
      have isRoot : mount = [] := by
        by_contra some_
        exact passed mount listed some_ isPrefix
      rcases favourable.root (isRoot ▸ listed) with same | ⟨other, listed, some_, isPrefix⟩
      · exact empty same
      · exact passed other listed some_ isPrefix
    | some mount =>
      have listed := mem_of_find?_eq_some found
      have matched : mount ≠ [] ∧ mount <+: path := by simpa using find?_some found
      constructor
      · rintro ⟨best, bestListed, same, _, longest⟩
        obtain rfl := pathText_injective (plain best bestListed) (plain mount listed) same
        refine ⟨fun other first => ?_, fun _ => .inr ⟨best, listed, matched⟩⟩
        obtain rfl := Option.some.inj (found.symm.trans first)
        exact longest
      · exact fun favourable => ⟨mount, listed, rfl, matched.2, favourable.first mount found⟩

/-- Both functions find the longest prefix exactly under the condition. -/
theorem mounts_resolved_iff {mounts : List (List Text)} {path : List Text}
    (plain : ∀ mount ∈ mounts, Plain mount) (isPath : Plain path) :
    ((∃ found, (splitPathComponents (pathText path) >>=
        getFilesystemAtPath (mounts.map pathText)) = .ok found ∧ Resolves mounts path found) ↔
      Favourable mounts path) ∧
    ((∃ found, getFilesystemForPath (mounts.map pathText) (pathText path) = .ok found ∧
        Resolves mounts path found) ↔ Favourable mounts path) := by
  have splits (outside : Text → Stop) (components : List Text) (plain : Plain components) :
      splitWith (outside (pathText components)) (pathText components) =
        .ok (if components = [] then [[slash]] else components) := split_pathText _ plain
  have kernel : (splitPathComponents (pathText path) >>= getFilesystemAtPath
      (mounts.map pathText)) =
      .ok ((mounts.find? (Hit path ·)).map pathText) :=
    firstMounted_find (splits fun _ => _) plain isPath
  have server : getFilesystemForPath (mounts.map pathText) (pathText path) =
      .ok ((mounts.find? (Hit path ·)).map pathText) :=
    firstMounted_find (splits fun path => .readOutside path.length) plain isPath
  rw [← find_resolves_iff plain]
  constructor
  · exact ⟨fun ⟨_, done, resolves⟩ => Except.ok.inj (kernel.symm.trans done) ▸ resolves,
      fun resolves => ⟨_, kernel, resolves⟩⟩
  · exact ⟨fun ⟨_, done, resolves⟩ => Except.ok.inj (server.symm.trans done) ▸ resolves,
      fun resolves => ⟨_, server, resolves⟩⟩

/-- `/a/b` is mounted before `/a`. -/
theorem mounts_resolved_nested : ∃ found, getFilesystemForPath
      ([[[0x61], [0x62]], [[0x61]]].map pathText) (pathText [[0x61], [0x62], [0x63]]) = .ok found ∧
    Resolves [[[0x61], [0x62]], [[0x61]]] [[0x61], [0x62], [0x63]] found := by
  refine (mounts_resolved_iff (by unfold Plain; decide +kernel)
    (by unfold Plain; decide +kernel)).2.mpr
    ⟨?_, by decide +kernel⟩
  have first : [[[0x61], [0x62]], [[0x61]]].find?
      (fun mount : List Text => mount ≠ [] ∧ mount <+: [[0x61], [0x62], [0x63]]) =
      some [[0x61], [0x62]] := by decide +kernel
  intro mount same
  obtain rfl := Option.some.inj (first.symm.trans same)
  decide +kernel

/-- The other way round, `/a` is found for `/a/b/c`; where only `/` is mounted, nothing is found for
`/a`. -/
theorem mounts_missed : getFilesystemForPath [pathText [[0x61]], pathText [[0x61], [0x62]]]
    (pathText [[0x61], [0x62], [0x63]]) = .ok (some (pathText [[0x61]])) ∧
      ¬ Resolves [[[0x61]], [[0x61], [0x62]]]
    [[0x61], [0x62], [0x63]] (some (pathText [[0x61]])) ∧
    (splitPathComponents (pathText [[0x61]]) >>= getFilesystemAtPath [pathText []]) = .ok none ∧
      ¬ Resolves [[]]
    [[0x61]] none := by
  refine ⟨by decide +kernel, ?_, by decide +kernel, fun none_ => none_ [] (by simp) nil_prefix⟩
  rintro ⟨mount, listed, text, _, longest⟩
  have short : mount.length = 1 := by
    rcases mem_pair.mp listed with rfl | rfl
    · rfl
    · exact absurd text (by decide +kernel)
  have := longest [[0x61], [0x62]] (by simp) (by decide +kernel)
  simp [short] at this

end Nx.Paths
