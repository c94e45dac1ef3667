import Mathlib

/-!
kernel/source/console/fallback/fallbackconsole.cpp.
-/

namespace Nx.FallbackConsole

open List

/-- A framebuffer with room for a character, the font and the colours. -/
structure Screen where
  width : Nat
  height : Nat
  scan : Nat
  theFont : BitVec 8 → Nat → BitVec 8
  fg : BitVec 32
  bg : BitVec 32
  wide : width ≤ scan
  column : 1 ≤ (width - 2 * 12) / 9
  row : 1 ≤ (height - 2 * 6) / 16

structure Cursor where
  x : Nat
  y : Nat

/-- Pixels are numbered from the start of the framebuffer. -/
inductive Access where
  | store (pixel : Nat) (colour : BitVec 32)
  | move (target source : Nat)

variable (screen : Screen)

def Screen.vtWidth : Nat := (screen.width - 2 * 12) / 9

def Screen.vtHeight : Nat := (screen.height - 2 * 6) / 16

def memfill4b (start : Nat) (colour : BitVec 32) (count : Nat) : List Access :=
  (range count).map fun i => .store (start + i) colour

def draw (c : BitVec 8) (x y : Nat) : List Access :=
  if c = 0 then []
  else
    let x := x + 12
    let y := y + 6
    (if c = 0x20 ∨ 126 < c.toInt then
      (range 16).flatMap fun i => memfill4b ((y + i) * screen.scan + x) screen.bg 9
    else []) ++
      (range 16).flatMap fun row => (range 8).map fun col =>
        .store (x + y * screen.scan + row * screen.scan + col)
          (if (screen.theFont c row <<< col).msb then screen.fg else screen.bg)

def scrollIfNecessary (cursor : Cursor) : List Access × Cursor :=
  if cursor.y = screen.vtHeight then
    ((range ((screen.vtHeight - 1) * 16 * screen.scan)).map (fun i =>
        .move (screen.scan * 6 + i) (screen.scan * (6 + 16) + i)) ++
      memfill4b ((6 + (screen.vtHeight - 1) * 16) * screen.scan) screen.bg (screen.scan * 16),
      { cursor with y := cursor.y - 1 })
  else ([], cursor)

def putchar (c : BitVec 8) (cursor : Cursor) : List Access × Cursor :=
  if c.toInt < 32 ∨ 126 < c.toInt then
    -- carriage return, line feed and backspace
    if c = 0x0D then ([], { cursor with x := 0 })
    else if c = 0x0A then scrollIfNecessary screen ⟨0, cursor.y + 1⟩
    else if c = 0x08 then
      if 0 < cursor.x then (draw screen 0x20 ((cursor.x - 1) * 9) (cursor.y * 16),
        { cursor with x := cursor.x - 1 })
      else if 0 < cursor.y then
        (draw screen 0x20 ((screen.vtWidth - 1) * 9) ((cursor.y - 1) * 16),
          ⟨screen.vtWidth - 1, cursor.y - 1⟩)
      else ([], cursor)
    else ([], cursor)
  else
    let drawn := draw screen c (cursor.x * 9) (cursor.y * 16)
    if cursor.x + 1 = screen.vtWidth then
      let (scrolled, cursor) := scrollIfNecessary screen ⟨0, cursor.y + 1⟩
      (drawn ++ scrolled, cursor)
    else (drawn, { cursor with x := cursor.x + 1 })

def putchars : List (BitVec 8) → Cursor → List Access × Cursor
  | [], cursor => ([], cursor)
  | c :: text, cursor =>
    let (accesses, cursor) := putchar screen c cursor
    let (later, cursor) := putchars text cursor
    (accesses ++ later, cursor)

def OnScreen (cursor : Cursor) : Prop := cursor.x < screen.vtWidth ∧ cursor.y < screen.vtHeight

def Access.Inside : Access → Prop
  | .store pixel _ => pixel < screen.scan * screen.height
  | .move target source => target < screen.scan * screen.height ∧
      source < screen.scan * screen.height

def Stays (result : List Access × Cursor) : Prop :=
  (∀ access ∈ result.1, access.Inside screen) ∧ OnScreen screen result.2

variable {screen}

theorem rows_inside (fits : rows ≤ screen.height) (inRows : pixel < screen.scan * rows) :
    pixel < screen.scan * screen.height :=
  inRows.trans_le (Nat.mul_le_mul_left _ fits)

theorem draw_inside (c : BitVec 8) (column : x < screen.vtWidth) (row : y < screen.vtHeight) :
    ∀ access ∈ draw screen c (x * 9) (y * 16), access.Inside screen := by
  have right : x * 9 + 12 + 9 ≤ screen.scan := by
    have wide := screen.wide
    unfold Screen.vtWidth at column
    omega
  have bottom : y * 16 + 6 + 16 ≤ screen.height := by
    unfold Screen.vtHeight at row
    omega
  -- a pixel of the cell lies in one of the rows above its lower edge
  have inCell {i j : Nat} (low : i ∈ range 16) (left : j < 9) :
      (y * 16 + 6 + i) * screen.scan + (x * 9 + 12) + j < screen.scan * screen.height := by
    have low := mem_range.mp low
    refine @rows_inside screen (y * 16 + 6 + i + 1) _ (by omega) ?_
    nlinarith
  intro _ listed
  unfold draw at listed
  split at listed
  · cases listed
  · rcases mem_append.mp listed with filled | drawn
    · split at filled
      · obtain ⟨i, low, filled⟩ := mem_flatMap.mp filled
        obtain ⟨j, left, rfl⟩ := mem_map.mp filled
        exact inCell low (mem_range.mp left)
      · cases filled
    · obtain ⟨i, low, drawn⟩ := mem_flatMap.mp drawn
      obtain ⟨j, left, rfl⟩ := mem_map.mp drawn
      calc x * 9 + 12 + (y * 16 + 6) * screen.scan + i * screen.scan + j
          = (y * 16 + 6 + i) * screen.scan + (x * 9 + 12) + j := by ring
        _ < screen.scan * screen.height := inCell low ((mem_range.mp left).trans (by decide))

theorem scroll_stays (below : y ≤ screen.vtHeight) :
    Stays screen (scrollIfNecessary screen ⟨0, y⟩) := by
  have row : 1 ≤ screen.vtHeight := screen.row
  have bottom : 16 * (screen.vtHeight - 1) + 22 ≤ screen.height := by
    unfold Screen.vtHeight at row ⊢
    omega
  unfold scrollIfNecessary
  split
  next last =>
    refine ⟨?_, screen.column, show y - 1 < _ by dsimp only at last; omega⟩
    intro _ listed
    -- both the lines that move up and the one that is cleared end at `bottom`
    rcases mem_append.mp listed with moved | filled
    · obtain ⟨i, low, rfl⟩ := mem_map.mp moved
      have low := mem_range.mp low
      exact ⟨rows_inside bottom (by nlinarith), rows_inside bottom (by nlinarith)⟩
    · obtain ⟨i, low, rfl⟩ := mem_map.mp filled
      have low := mem_range.mp low
      apply rows_inside bottom
      nlinarith
  next above => exact ⟨forall_mem_nil _, screen.column, lt_of_le_of_ne below above⟩

theorem putchar_stays (c : BitVec 8) (onScreen : OnScreen screen cursor) :
    Stays screen (putchar screen c cursor) := by
  obtain ⟨column, row⟩ := onScreen
  have scrolled := scroll_stays (Nat.succ_le_of_lt row)
  unfold putchar
  split
  · split_ifs
    · exact ⟨forall_mem_nil _, screen.column, row⟩
    · exact scrolled
    · have left : cursor.x - 1 < screen.vtWidth := by omega
      exact ⟨draw_inside 0x20 left row, left, row⟩
    · have last : screen.vtWidth - 1 < screen.vtWidth := by omega
      have above : cursor.y - 1 < screen.vtHeight := by omega
      exact ⟨draw_inside 0x20 last above, last, above⟩
    · exact ⟨forall_mem_nil _, column, row⟩
    · exact ⟨forall_mem_nil _, column, row⟩
  · have drawn := draw_inside c column row
    dsimp only
    split
    · exact ⟨forall_mem_append.mpr ⟨drawn, scrolled.1⟩, scrolled.2⟩
    next more => exact ⟨drawn, lt_of_le_of_ne column more, row⟩

/-- Whatever is written, the cursor stays on the screen and the pixels inside the framebuffer. -/
theorem putchars_stay (screen : Screen) (text : List (BitVec 8)) :
    Stays screen (putchars screen text ⟨0, 0⟩) := by
  suffices later : ∀ cursor, OnScreen screen cursor →
      Stays screen (putchars screen text cursor) from
    later ⟨0, 0⟩ ⟨screen.column, screen.row⟩
  induction text with
  | nil => exact fun _ onScreen => ⟨forall_mem_nil _, onScreen⟩
  | cons c _ ih =>
    intro _ onScreen
    obtain ⟨inside, now⟩ := putchar_stays c onScreen
    obtain ⟨insideLater, last⟩ := ih _ now
    exact ⟨forall_mem_append.mpr ⟨inside, insideLater⟩, last⟩

/-- Two columns and two rows. -/
def small : Screen := ⟨42, 44, 42, fun _ _ => 0x7E, 0xFFFFFF, 0, by decide, by decide, by decide⟩

/-- The text fills both rows, scrolls, and a backspace goes back to the end of the first one. -/
theorem putchars_stay_small : (putchars small [0x61, 0x62, 0x63, 0x64, 0x08] ⟨0, 0⟩).2 = ⟨1, 0⟩ ∧
    Stays small (putchars small [0x61, 0x62, 0x63, 0x64, 0x08] ⟨0, 0⟩) :=
  ⟨rfl, putchars_stay small _⟩

end Nx.FallbackConsole
