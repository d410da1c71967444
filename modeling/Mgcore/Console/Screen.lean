import Mgcore.Base
import Mathlib.Data.List.Range

/-!
# The screen

The output half of `src/kernel/console.c`: 512 rows of history in a ring, the row and column of the cursor, the view
of 25 rows on it, and the VGA memory with its cursor. Row numbers are `size_t`: every sum is taken modulo `wordSize`. An access
to `g_history` or to the VGA memory outside its bounds is `none`.
-/

namespace Mgcore
open Function

def vgaWidth : Nat := 80
def vgaHeight : Nat := 25
def historyLines : Nat := 512  -- `CONSOLE_HISTORY_LINES`

structure RgbColor where
  r : UInt8
  g : UInt8
  b : UInt8
  deriving DecidableEq

def vgaPalette : List RgbColor :=
  [⟨0x00, 0x00, 0x00⟩, ⟨0x00, 0x00, 0xAA⟩, ⟨0x00, 0xAA, 0x00⟩, ⟨0x00, 0xAA, 0xAA⟩,
    ⟨0xAA, 0x00, 0x00⟩, ⟨0xAA, 0x00, 0xAA⟩, ⟨0xAA, 0x55, 0x00⟩, ⟨0xAA, 0xAA, 0xAA⟩,
    ⟨0x55, 0x55, 0x55⟩, ⟨0x55, 0x55, 0xFF⟩, ⟨0x55, 0xFF, 0x55⟩, ⟨0x55, 0xFF, 0xFF⟩,
    ⟨0xFF, 0x55, 0x55⟩, ⟨0xFF, 0x55, 0xFF⟩, ⟨0xFF, 0xFF, 0x55⟩, ⟨0xFF, 0xFF, 0xFF⟩]

/-- `serial` holds the bytes sent to the serial port, `hwCursor` the value of the CRTC registers `0x0E` and `0x0F`. -/
structure Screen where
  history : Nat → Nat → UInt16
  absRow : Nat
  col : Nat
  viewStart : Nat
  followTail : Bool
  attr : UInt8
  fg : RgbColor
  bg : RgbColor
  vga : Nat → UInt16
  hwCursor : UInt16
  serial : List UInt8

/-- The globals before `console_init`. -/
def bootScreen : Screen where
  history _ _ := 0
  absRow := 0
  col := 0
  viewStart := 0
  followTail := false
  attr := 0
  fg := ⟨0, 0, 0⟩
  bg := ⟨0, 0, 0⟩
  vga _ := 0
  hwCursor := 0
  serial := []

def vgaCell (attr c : UInt8) : UInt16 := attr.toUInt16 <<< 8 ||| c.toUInt16

def vgaBlank (attr : UInt8) : UInt16 := vgaCell attr 0x20

/-! ## Serial output -/

def serialWrite (s : Screen) (bytes : List UInt8) : Screen := { s with serial := s.serial ++ bytes }

def serialPutc (s : Screen) (c : UInt8) : Screen := serialWrite s [c]

def ansiColor (code : String) (color : RgbColor) : List UInt8 :=
  ascii ("\x1b[" ++ code ++ ";2;" ++ toString color.r ++ ";" ++ toString color.g ++ ";" ++ toString color.b ++ "m")

def serialEmitAnsiColor (s : Screen) : Screen := serialWrite s (ansiColor "38" s.fg ++ ansiColor "48" s.bg)

/-! ## Colours -/

def colorDistance (c p : RgbColor) : Nat :=
  let dr : Int := c.r.toNat - p.r.toNat
  let dg : Int := c.g.toNat - p.g.toNat
  let db : Int := c.b.toNat - p.b.toNat
  (dr * dr + dg * dg + db * db).toNat

def colorNearestVgaIndex (c : RgbColor) : UInt8 :=
  (vgaPalette.zipIdx.foldl
    (fun best entry =>
      if colorDistance c entry.1 < best.2 then (entry.2.toUInt8, colorDistance c entry.1) else best)
    (0, 0xFFFFFFFF)).1

def consoleUpdateAttr (s : Screen) : Screen :=
  { s with attr := colorNearestVgaIndex s.bg <<< 4 ||| colorNearestVgaIndex s.fg }

/-! ## History -/

def historyMinAbsRow (s : Screen) : Nat :=
  let next := (s.absRow + 1) % wordSize
  if historyLines < next then next - historyLines else 0

def viewportMaxStart (s : Screen) : Nat :=
  if vgaHeight - 1 ≤ s.absRow then s.absRow - (vgaHeight - 1) else 0

def historyStore (s : Screen) (slot col : Nat) (value : UInt16) : Option Screen :=
  if slot < historyLines ∧ col < vgaWidth then
    some { s with history := update s.history slot (update (s.history slot) col value) }
  else none

def historyLoad (s : Screen) (slot col : Nat) : Option UInt16 :=
  if slot < historyLines ∧ col < vgaWidth then some (s.history slot col) else none

def historyClearRow (s : Screen) (absRow : Nat) : Option Screen :=
  (List.range vgaWidth).foldlM (fun s col => historyStore s (absRow % historyLines) col (vgaBlank s.attr)) s

/-- `*history_cell(abs_row, col) = value;` -/
def setHistoryCell (s : Screen) (absRow col : Nat) (value : UInt16) : Option Screen :=
  historyStore s (absRow % historyLines) col value

/-! ## The view -/

def cursorPlace (s : Screen) : Nat × Nat :=
  if s.viewStart ≤ s.absRow ∧ s.absRow < (s.viewStart + vgaHeight) % wordSize then (s.absRow - s.viewStart, s.col)
  else (vgaHeight - 1, vgaWidth - 1)

def vgaUpdateHwCursor (s : Screen) : Screen :=
  { s with hwCursor := UInt16.ofNat ((cursorPlace s).1 * vgaWidth + (cursorPlace s).2) }

def vgaStore (vga : Nat → UInt16) (index : Nat) (value : UInt16) : Option (Nat → UInt16) :=
  if index < vgaWidth * vgaHeight then some (update vga index value) else none

-- One step of the inner loop of `vga_render_view`; the branch does not depend on the column.
def vgaRenderCell (s : Screen) (row : Nat) (vga : Nat → UInt16) (col : Nat) : Option (Nat → UInt16) :=
  let absRow := (s.viewStart + row) % wordSize
  if absRow < historyMinAbsRow s ∨ s.absRow < absRow then vgaStore vga (row * vgaWidth + col) (vgaBlank s.attr)
  else do
    let value ← historyLoad s (absRow % historyLines) col
    vgaStore vga (row * vgaWidth + col) value

def vgaRenderRow (s : Screen) (vga : Nat → UInt16) (row : Nat) : Option (Nat → UInt16) :=
  (List.range vgaWidth).foldlM (vgaRenderCell s row) vga

def vgaRenderView (s : Screen) : Option Screen := do
  let vga ← (List.range vgaHeight).foldlM (vgaRenderRow s) s.vga
  some (vgaUpdateHwCursor { s with vga })

def viewportClamp (s : Screen) : Screen :=
  let minStart := historyMinAbsRow s
  let maxStart := viewportMaxStart s
  let s := if s.viewStart < minStart then { s with viewStart := minStart } else s
  if maxStart < s.viewStart then { s with viewStart := maxStart } else s

def viewportAfterOutput (s : Screen) : Screen :=
  if s.followTail then { s with viewStart := viewportMaxStart s } else viewportClamp s

/-! ## Output -/

def advanceNewLine (s : Screen) : Option Screen :=
  let s := { s with absRow := (s.absRow + 1) % wordSize, col := 0 }
  historyClearRow s s.absRow

def consoleWriteVisibleChar (s : Screen) (c : UInt8) : Option Screen := do
  let s ← setHistoryCell s s.absRow s.col (vgaCell s.attr c)
  let s := { s with col := s.col + 1 }
  if vgaWidth ≤ s.col then advanceNewLine s else some s

/-- Both cases of a backspace end with the cell under the cursor cleared. -/
def consoleBackspace (s : Screen) : Option Screen :=
  if 0 < s.col then
    let s := { s with col := s.col - 1 }
    setHistoryCell s s.absRow s.col (vgaBlank s.attr)
  else if 0 < s.absRow then
    let s := { s with absRow := s.absRow - 1, col := vgaWidth - 1 }
    setHistoryCell s s.absRow s.col (vgaBlank s.attr)
  else some s

/-- What `console_putc` does before it moves the view. -/
def consoleType (s : Screen) (c : UInt8) : Option Screen :=
  if c = 0x0D then some { s with col := 0 }
  else if c = 0x0A then advanceNewLine s
  else if c = 0x08 then consoleBackspace s
  else if c = 0x09 then
    (List.range (4 - s.col % 4)).foldlM (fun s _ => consoleWriteVisibleChar s 0x20) s
  else if 0x20 ≤ c then consoleWriteVisibleChar s c
  else some s

def consolePutc (s : Screen) (c : UInt8) : Option Screen := do
  let s := if c = 0x0A then serialPutc s 0x0D else s
  let s := serialPutc s c
  let s ← consoleType s c
  vgaRenderView (viewportAfterOutput s)

/-- The input ring, which it also empties, is in `Console`. -/
def consoleClear (s : Screen) : Option Screen := do
  let s := { s with
    absRow := 0, col := 0, viewStart := 0, followTail := true, fg := ⟨0xC0, 0xC0, 0xC0⟩, bg := ⟨0x00, 0x00, 0x00⟩ }
  let s := consoleUpdateAttr s
  let s ← (List.range historyLines).foldlM historyClearRow s
  let s ← historyClearRow s 0
  let s := serialWrite s (ascii "\x1b[0m")
  vgaRenderView (serialEmitAnsiColor s)

def consoleSetColorRgb (s : Screen) (fg bg : RgbColor) : Screen :=
  serialEmitAnsiColor (consoleUpdateAttr { s with fg, bg })

/-! ## Scrolling -/

/-- `a - b` in `size_t`. -/
def sizeSub (a b : Nat) : Nat := (a + wordSize - b) % wordSize

def scrolledStart (s : Screen) (deltaLines : Int) : Nat :=
  let minStart := historyMinAbsRow s
  let maxStart := viewportMaxStart s
  if 0 < deltaLines then
    let delta := deltaLines.toNat
    if sizeSub s.viewStart minStart < delta then minStart else sizeSub s.viewStart delta
  else
    let delta := (-deltaLines).toNat
    if maxStart < (s.viewStart + delta) % wordSize then maxStart else (s.viewStart + delta) % wordSize

def consoleScrollView (s : Screen) (deltaLines : Int) : Option Screen :=
  if deltaLines = 0 then some s
  else
    let maxStart := viewportMaxStart s
    let s := { s with viewStart := scrolledStart s deltaLines }
    vgaRenderView { s with followTail := s.viewStart = maxStart }

def consoleViewToBottom (s : Screen) : Option Screen :=
  vgaRenderView { s with viewStart := viewportMaxStart s, followTail := true }

end Mgcore
