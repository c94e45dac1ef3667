import Nx.AvlTrees

/-!
Search in a tree whose labels are in the order of their keys.
-/

namespace Nx.SearchTrees

open AvlTrees List

variable {α K : Type} [LinearOrder K] (keyOf : α → K)

def Sorted (labels : List α) : Prop := labels.Pairwise fun first second =>
  keyOf first < keyOf second

def sideOf (key here : K) : Side := if key < here then .left else .right

def locate (key : K) : List (Frame α) → Marked α → List (Frame α) × Marked α
  | way, .nil => (way, .nil)
  | way, .node left label mark right =>
    if keyOf label = key then (way, .node left label mark right)
    else if key < keyOf label then locate key (⟨.left, label, mark, right⟩ :: way) left
    else locate key (⟨.right, label, mark, left⟩ :: way) right

def Fits (key : K) (way : List (Frame α)) : Prop :=
  ∀ frame ∈ way, keyOf frame.label ≠ key ∧ frame.side = sideOf key (keyOf frame.label)

section Locate

variable {keyOf} {tree left right : Marked α} {mark : Mark}

variable (keyOf) in
theorem plug_locate (key : K) (way : List (Frame α)) (tree : Marked α) :
    plug (locate keyOf key way tree).1 (locate keyOf key way tree).2 = plug way tree := by
  induction tree generalizing way with
  | nil => rfl
  | node _ _ _ _ ihLeft ihRight =>
    rw [locate]
    split
    · rfl
    · split
      · exact ihLeft _
      · exact ihRight _

theorem fits_locate (tree : Marked α) (fits : Fits keyOf key way) :
    Fits keyOf key (locate keyOf key way tree).1 := by
  induction tree generalizing way with
  | nil => exact fits
  | node _ _ _ _ ihLeft ihRight =>
    rw [locate]
    split
    · exact fits
    next differs =>
      split
      next less =>
        refine ihLeft (forall_mem_cons.mpr ⟨⟨differs, ?_⟩, fits⟩)
        rw [sideOf, if_pos less]
      next notLess =>
        refine ihRight (forall_mem_cons.mpr ⟨⟨differs, ?_⟩, fits⟩)
        rw [sideOf, if_neg notLess]

theorem key_locate (tree : Marked α)
    (found : (locate keyOf key way tree).2 = .node left label mark right) : keyOf label = key := by
  induction tree generalizing way with
  | nil => cases found
  | node _ _ _ _ ihLeft ihRight =>
    rw [locate] at found
    split at found
    next same =>
      cases found
      exact same
    next =>
      split at found
      · exact ihLeft found
      · exact ihRight found

theorem Fits.between (fits : Fits keyOf key way)
    (sorted : Sorted keyOf (before way ++ tree.toList ++ after way)) :
    (∀ label ∈ before way, keyOf label < key) ∧ ∀ label ∈ after way, key < keyOf label := by
  induction way generalizing tree with
  | nil => simp
  | cons frame rest ih =>
    obtain ⟨⟨differs, isSide⟩, fitsRest⟩ := forall_mem_cons.mp fits
    have sortedRest : Sorted keyOf (before rest ++ (frame.plug tree).toList ++ after rest) := by
      rw [toList_framePlug]
      simpa using sorted
    obtain ⟨low, high⟩ := ih fitsRest sortedRest
    obtain ⟨_, label, _, _⟩ := frame
    rw [toList_framePlug] at sortedRest
    have own : Sorted keyOf (_ ++ _) := (pairwise_append.mp (pairwise_append.mp sortedRest).1).2.1
    have ownBefore := (pairwise_append.mp (pairwise_append.mp own).1).1
    have ownAfter := (pairwise_append.mp own).2.1
    dsimp only at differs isSide
    by_cases less : key < keyOf label
    · rw [sideOf, if_pos less] at isSide
      subst isSide
      refine ⟨by simpa [Frame.before] using low, ?_⟩
      intro other member
      rcases mem_append.mp member with own | above
      · rcases mem_cons.mp own with same | inSibling
        · exact same ▸ less
        · exact less.trans ((pairwise_cons.mp ownAfter).1 other inSibling)
      · exact high other above
    · have greater : keyOf label < key := lt_of_le_of_ne (not_lt.mp less) differs
      rw [sideOf, if_neg less] at isSide
      subst isSide
      refine ⟨?_, by simpa [Frame.after] using high⟩
      intro other member
      rcases mem_append.mp member with above | own
      · exact low other above
      · rcases mem_append.mp own with inSibling | same
        · have below := (pairwise_append.mp ownBefore).2.2 other inSibling label (by simp)
          exact below.trans greater
        · rw [mem_singleton.mp same]
          exact greater

theorem locate_absent (sorted : Sorted keyOf tree.toList)
    (absent : (locate keyOf key [] tree).2 = .nil) :
    (∀ label ∈ before (locate keyOf key [] tree).1, keyOf label < key) ∧
    (∀ label ∈ after (locate keyOf key [] tree).1, key < keyOf label) ∧
    tree.toList = before (locate keyOf key [] tree).1 ++ after (locate keyOf key [] tree).1 := by
  have whole := congrArg Marked.toList (plug_locate keyOf key [] tree)
  rw [toList_plug, absent, Marked.toList, append_nil] at whole
  have fits : Fits keyOf key (locate keyOf key [] tree).1 := fits_locate tree (by simp [Fits])
  have sortedToo : Sorted keyOf (before (locate keyOf key [] tree).1 ++ Marked.nil.toList ++
      after (locate keyOf key [] tree).1) := by
    rw [Marked.toList, append_nil, whole]
    exact sorted
  obtain ⟨low, high⟩ := fits.between sortedToo
  exact ⟨low, high, whole.symm⟩

theorem sorted_insert (sorted : Sorted keyOf (low ++ high))
    (below : ∀ other ∈ low, keyOf other < keyOf label)
    (above : ∀ other ∈ high, keyOf label < keyOf other) : Sorted keyOf (low ++ label :: high) := by
  obtain ⟨sortedLow, sortedHigh, between⟩ := pairwise_append.mp sorted
  refine pairwise_append.mpr ⟨sortedLow, pairwise_cons.mpr ⟨above, sortedHigh⟩, ?_⟩
  intro first isLow second isHigh
  rcases mem_cons.mp isHigh with same | later
  · exact same ▸ below first isLow
  · exact between first isLow second later

end Locate

end Nx.SearchTrees
