import Mgcore.Console.Scrollback
import Mgcore.Console.View

/-!
# What is seen on the screen

`Terminal` is a screen of 25 rows over a paper that forgets nothing: what is printed goes on the paper, what is scrolled
moves the screen over its last 512 rows. The VGA memory and the hardware cursor show this terminal after every call. A
colour does not redraw anything, so the empty rows below the text keep the colour they were last drawn in.
-/

namespace Mgcore

open Lib

structure Terminal where
  paper : Paper
  top : Nat
  follow : Bool
  shownAttr : UInt8

def Terminal.fresh : Terminal := { paper := Paper.fresh 0x07, top := 0, follow := true, shownAttr := 0x07 }

def Paper.firstRow (p : Paper) : Nat := p.row - 511
def Paper.lastTop (p : Paper) : Nat := p.row - 24

def Terminal.look (t : Terminal) (top : Nat) (follow : Bool) : Terminal := { t with top, follow, shownAttr := t.paper.attr }

def Terminal.scroll (t : Terminal) (deltaLines : Int) : Terminal :=
  if deltaLines = 0 then t
  else
    let top :=
      if 0 < deltaLines then max t.paper.firstRow (t.top - deltaLines.toNat)
      else min t.paper.lastTop (t.top + (-deltaLines).toNat)
    t.look top (top = t.paper.lastTop)

def Terminal.print (t : Terminal) (c : UInt8) : Terminal :=
  let t := { t with paper := t.paper.putc c }
  t.look (if t.follow then t.paper.lastTop else min (max t.top t.paper.firstRow) t.paper.lastTop) t.follow

def Terminal.step (t : Terminal) : ScreenCall → Terminal
  | .putc c => t.print c
  | .scrollView deltaLines => t.scroll deltaLines
  | .viewToBottom => t.look t.paper.lastTop true
  | .setColorRgb fg bg => { t with paper := { t.paper with attr := colorNearestVgaIndex bg <<< 4 ||| colorNearestVgaIndex fg } }
  | .clear => Terminal.fresh

def Terminal.cell (t : Terminal) (row col : Nat) : UInt16 :=
  if t.top + row ≤ t.paper.row then t.paper.rows (t.top + row) col else vgaBlank t.shownAttr

def Terminal.cursor (t : Terminal) : Nat :=
  if t.top ≤ t.paper.row ∧ t.paper.row < t.top + 25 then (t.paper.row - t.top) * 80 + t.paper.col else 24 * 80 + 79

/-- What the serial port is sent for a call, whatever the state. -/
def serialBytes : ScreenCall → List UInt8
  | .putc c => if c = 0x0A then [0x0D, c] else [c]
  | .setColorRgb fg bg => ansiColor "38" fg ++ ansiColor "48" bg
  | .clear => ascii "\x1b[0m" ++ (ansiColor "38" ⟨0xC0, 0xC0, 0xC0⟩ ++ ansiColor "48" ⟨0x00, 0x00, 0x00⟩)
  | _ => []

structure Displays (s : Screen) (t : Terminal) : Prop where
  cells : ∀ row < 25, ∀ col < 80, s.vga (row * 80 + col) = t.cell row col
  cursor : s.hwCursor = UInt16.ofNat t.cursor

/-! ## Drawing -/

/-- The state behind what is seen. -/
structure Backs (s : Screen) (t : Terminal) : Prop where
  copies : Copies s t.paper
  top : s.viewStart = t.top
  follow : s.followTail = t.follow
  first : t.paper.firstRow ≤ t.top
  last : t.top ≤ t.paper.lastTop
  tail : t.follow → t.top = t.paper.lastTop

theorem Backs.rendered {s : Screen} {t : Terminal} (backs : Backs s t) (drawn : t.shownAttr = t.paper.attr) :
    Displays (rendered s) t := by
  have row := backs.copies.row
  have below := backs.copies.below
  have last := backs.last
  have first := backs.first
  unfold Paper.lastTop at last
  unfold Paper.firstRow at first
  have room : t.top + 25 < wordSize := by
    unfold wordSize at below ⊢
    omega
  constructor
  · intro r high c wide
    have place : (r * 80 + c) / 80 = r ∧ (r * 80 + c) % 80 = c := by omega
    have straight : (s.viewStart + r) % wordSize = t.top + r := by
      rw [backs.top]
      exact Nat.mod_eq_of_lt (by omega)
    have oldest : historyMinAbsRow s = t.paper.row - 511 := by rw [historyMinAbsRow_eq below, row]
    show shown s (r * 80 + c) = _
    rw [shown, vgaWidth, vgaHeight, place.1, place.2, if_pos high, shownCell, Terminal.cell]
    rw [straight, oldest, row]
    by_cases text : t.top + r ≤ t.paper.row
    · rw [if_neg (by omega), if_pos text]
      exact backs.copies.cells (t.top + r) c (by omega) (Or.inl text) wide
    · rw [if_pos (by omega), if_neg text, backs.copies.attr, drawn]
  · have straight : (s.viewStart + 25) % wordSize = t.top + 25 := by
      rw [backs.top]
      exact Nat.mod_eq_of_lt (by omega)
    show UInt16.ofNat ((cursorPlace s).1 * vgaWidth + (cursorPlace s).2) = _
    rw [Terminal.cursor, cursorPlace, vgaHeight, straight, backs.top, row, backs.copies.col]
    split_ifs <;> rfl

/-! ## One call -/

/-- Enough rows are left that no sum of row numbers wraps. -/
def Terminal.Roomy (t : Terminal) : Prop := t.paper.row + 386 < wordSize

/-- The condition of `NoLostRow`, for a call. -/
def Terminal.KeepsRows (t : Terminal) : ScreenCall → Prop
  | .putc c => NoLostRow t.paper c
  | _ => True

structure Mirrors (s : Screen) (t : Terminal) : Prop where
  backs : Backs s t
  displays : Displays s t

theorem Backs.mirrors {s : Screen} {t : Terminal} (backs : Backs s t) (drawn : t.shownAttr = t.paper.attr) :
    Mirrors (Mgcore.rendered s) t where
  backs := ⟨backs.copies.of_sameText ⟨rfl, rfl, rfl, rfl⟩, backs.top, backs.follow, backs.first, backs.last,
    backs.tail⟩
  displays := backs.rendered drawn

theorem Paper.firstRow_le (p : Paper) : p.firstRow ≤ p.lastTop := by
  unfold Paper.firstRow Paper.lastTop
  omega

theorem Copies.maxStart {s : Screen} {p : Paper} (copies : Copies s p) : viewportMaxStart s = p.lastTop :=
  (viewportMaxStart_eq s).trans (congrArg (· - 24) copies.row)

theorem Copies.minRow {s : Screen} {p : Paper} (copies : Copies s p) : historyMinAbsRow s = p.firstRow :=
  (historyMinAbsRow_eq copies.below).trans (congrArg (· - 511) copies.row)

theorem viewportAfterOutput_view {s : Screen} {p : Paper} (copies : Copies s p) :
    (viewportAfterOutput s).viewStart =
        (if s.followTail then p.lastTop else min (max s.viewStart p.firstRow) p.lastTop) ∧
      (viewportAfterOutput s).followTail = s.followTail ∧ (viewportAfterOutput s).serial = s.serial := by
  have ordered := p.firstRow_le
  unfold viewportAfterOutput
  split_ifs with follow
  · exact ⟨copies.maxStart, rfl, rfl⟩
  · simp only [viewportClamp, copies.maxStart, copies.minRow]
    split_ifs with below above above
    · change p.lastTop < p.firstRow at above
      omega
    · exact ⟨show p.firstRow = _ by omega, rfl, rfl⟩
    · exact ⟨show p.lastTop = _ by omega, rfl, rfl⟩
    · exact ⟨by omega, rfl, rfl⟩

/-- What output does not touch before it moves the view. -/
structure SameView (s t : Screen) : Prop where
  viewStart : t.viewStart = s.viewStart
  followTail : t.followTail = s.followTail
  serial : t.serial = s.serial

theorem SameView.refl (s : Screen) : SameView s s := ⟨rfl, rfl, rfl⟩

theorem SameView.trans {s t u : Screen} (first : SameView s t) (second : SameView t u) : SameView s u :=
  ⟨second.viewStart.trans first.viewStart, second.followTail.trans first.followTail, second.serial.trans first.serial⟩

theorem written_sameView (s : Screen) (c : UInt8) : SameView s (written s c) := by
  simp only [written]
  split_ifs <;> exact ⟨rfl, rfl, rfl⟩

theorem spaces_sameView (s : Screen) (n : Nat) : SameView s ((fun s => written s 0x20)^[n] s) := by
  induction n generalizing s with
  | zero => exact SameView.refl s
  | succ n ih => exact (written_sameView s 0x20).trans (ih _)

theorem typed_sameView (s : Screen) (c : UInt8) : SameView s (typed s c) := by
  obtain ⟨-, same⟩ | ⟨-, same⟩ | ⟨-, same⟩ | ⟨-, same⟩ | ⟨-, same⟩ | ⟨-, -, -, -, same⟩ := typed_cases s c
  all_goals rw [same]
  · exact ⟨rfl, rfl, rfl⟩
  · exact ⟨rfl, rfl, rfl⟩
  · unfold backspaced
    split_ifs <;> exact ⟨rfl, rfl, rfl⟩
  · exact spaces_sameView s _
  · exact written_sameView s c
  · exact SameView.refl s

theorem Mirrors.putc {s : Screen} {t : Terminal} {c : UInt8} (mirrors : Mirrors s t) (room : t.Roomy)
    (kept : NoLostRow t.paper c) :
    ∃ u, consolePutc s c = some u ∧ Mirrors u (t.print c) ∧ u.serial = s.serial ++ serialBytes (.putc c) := by
  have backs := mirrors.backs
  have sent : serialPutc (if c = 0x0A then serialPutc s 0x0D else s) c = serialWrite s (serialBytes (.putc c)) := by
    by_cases line : c = 0x0A
    · simp [serialBytes, serialPutc, serialWrite, line]
    · simp [serialBytes, serialPutc, serialWrite, line]
  have before : Copies (serialWrite s (serialBytes (.putc c))) t.paper := backs.copies.of_sameText ⟨rfl, rfl, rfl, rfl⟩
  have after : Copies (typed (serialWrite s (serialBytes (.putc c))) c) (t.paper.putc c) := by
    refine before.typed (fun _ => ?_) kept
    have room' : t.paper.row + 386 < wordSize := room
    omega
  have same := typed_sameView (serialWrite s (serialBytes (.putc c))) c
  have steps : consolePutc s c = some (rendered (viewportAfterOutput (typed (serialWrite s (serialBytes (.putc c))) c))) := by
    simp only [consolePutc, sent]
    rw [consoleType_eq (s := serialWrite s _) backs.copies.inside]
    exact vgaRenderView_eq _
  generalize typed (serialWrite s (serialBytes (.putc c))) c = v at after same steps
  obtain ⟨view, follow, serial⟩ := viewportAfterOutput_view after
  have top : v.viewStart = t.top := same.viewStart.trans backs.top
  have tail : v.followTail = t.follow := same.followTail.trans backs.follow
  have ordered := (t.paper.putc c).firstRow_le
  refine ⟨_, steps, Backs.mirrors ?_ rfl, serial.trans same.serial⟩
  rw [top, tail] at view
  refine ⟨after.of_sameText (viewportAfterOutput_sameText v), view, follow.trans tail, ?_, ?_, fun on => if_pos on⟩
  · show (t.paper.putc c).firstRow ≤
      if t.follow then (t.paper.putc c).lastTop else min (max t.top (t.paper.putc c).firstRow) (t.paper.putc c).lastTop
    split_ifs <;> omega
  · show (if t.follow then (t.paper.putc c).lastTop else min (max t.top (t.paper.putc c).firstRow) (t.paper.putc c).lastTop) ≤
      (t.paper.putc c).lastTop
    split_ifs <;> omega

theorem Mirrors.scroll {s : Screen} {t : Terminal} {deltaLines : Int} (mirrors : Mirrors s t) (room : t.Roomy)
    (range : ScreenCall.InMouseRange (.scrollView deltaLines)) :
    ∃ u, consoleScrollView s deltaLines = some u ∧ Mirrors u (t.scroll deltaLines) ∧ u.serial = s.serial := by
  have backs := mirrors.backs
  by_cases zero : deltaLines = 0
  · exact ⟨s, if_pos zero, by rwa [Terminal.scroll, if_pos zero], rfl⟩
  have ordered := t.paper.firstRow_le
  have first := backs.first
  have last := backs.last
  have start : scrolledStart s deltaLines =
      if 0 < deltaLines then max t.paper.firstRow (t.top - deltaLines.toNat)
      else min t.paper.lastTop (t.top + (-deltaLines).toNat) := by
    have small : -384 ≤ deltaLines := range.1
    have room' : t.paper.row + 386 < wordSize := room
    have far : t.paper.lastTop ≤ t.paper.row := Nat.sub_le _ _
    simp only [scrolledStart, backs.copies.maxStart, backs.copies.minRow, backs.top]
    rw [sizeSub_of_le first (by omega), Nat.mod_eq_of_lt (show t.top + (-deltaLines).toNat < wordSize by omega)]
    split_ifs with up short down
    · omega
    · rw [sizeSub_of_le (by omega) (by omega)]
      omega
    · omega
    · omega
  refine ⟨_, consoleScrollView_eq zero, ?_, rfl⟩
  rw [Terminal.scroll, if_neg zero]
  refine Backs.mirrors ⟨backs.copies.of_sameText ⟨rfl, rfl, rfl, rfl⟩, start, ?_, ?_, ?_, fun on => of_decide_eq_true on⟩ rfl
  · show decide (scrolledStart s deltaLines = viewportMaxStart s) = _
    rw [start, backs.copies.maxStart]
    rfl
  · show t.paper.firstRow ≤ ite _ _ _
    split_ifs <;> omega
  · show ite _ _ _ ≤ t.paper.lastTop
    split_ifs <;> omega

theorem Mirrors.viewToBottom {s : Screen} {t : Terminal} (mirrors : Mirrors s t) :
    ∃ u, consoleViewToBottom s = some u ∧ Mirrors u (t.look t.paper.lastTop true) ∧ u.serial = s.serial := by
  refine ⟨_, vgaRenderView_eq _, Backs.mirrors ?_ rfl, rfl⟩
  have copies := mirrors.backs.copies
  exact ⟨copies.of_sameText ⟨rfl, rfl, rfl, rfl⟩, copies.maxStart, rfl, t.paper.firstRow_le, Nat.le_refl _, fun _ => rfl⟩

theorem Mirrors.setColorRgb {s : Screen} {t : Terminal} (mirrors : Mirrors s t) (fg bg : RgbColor) :
    Mirrors (consoleSetColorRgb s fg bg) (t.step (.setColorRgb fg bg)) := by
  have backs := mirrors.backs
  have copies := backs.copies
  refine ⟨⟨?_, backs.top, backs.follow, backs.first, backs.last, backs.tail⟩, mirrors.displays.cells, mirrors.displays.cursor⟩
  exact ⟨copies.row, copies.col, rfl, copies.inside, copies.below, copies.cells⟩

theorem mirrors_clear (s : Screen) :
    ∃ u, consoleClear s = some u ∧ Mirrors u Terminal.fresh ∧ u.serial = s.serial ++ serialBytes .clear := by
  obtain ⟨u, steps, cleared⟩ := consoleClear_cleared s
  have drawn : ∃ v, u = rendered v ∧ v.serial = s.serial ++ serialBytes .clear := by
    simp only [consoleClear, clearAll_eq, historyClearRow_eq, Option.bind_eq_bind, Option.bind_some, vgaRenderView_eq] at steps
    cases steps
    refine ⟨_, rfl, ?_⟩
    simp [serialEmitAnsiColor, serialWrite, serialBytes, consoleUpdateAttr, Screen.clearRow]
  obtain ⟨v, rfl, serial⟩ := drawn
  refine ⟨_, steps, Backs.mirrors ?_ rfl, serial⟩
  have copies := cleared.copies
  exact ⟨copies.of_sameText ⟨rfl, rfl, rfl, rfl⟩, cleared.viewStart, cleared.followTail, Nat.le_refl 0, Nat.le_refl 0,
    fun _ => rfl⟩

theorem Mirrors.step {s : Screen} {t : Terminal} {call : ScreenCall} (mirrors : Mirrors s t) (room : t.Roomy)
    (range : call.InMouseRange) (kept : t.KeepsRows call) :
    ∃ u, screenStep s call = some u ∧ Mirrors u (t.step call) ∧ u.serial = s.serial ++ serialBytes call := by
  cases call with
  | putc c => exact mirrors.putc room kept
  | scrollView deltaLines =>
      obtain ⟨u, steps, after, serial⟩ := mirrors.scroll room range
      exact ⟨u, steps, after, by simp [serial, serialBytes]⟩
  | viewToBottom =>
      obtain ⟨u, steps, after, serial⟩ := mirrors.viewToBottom
      exact ⟨u, steps, after, by simp [serial, serialBytes]⟩
  | setColorRgb fg bg => exact ⟨_, rfl, mirrors.setColorRgb fg bg, rfl⟩
  | clear => exact mirrors_clear s

/-! ## Runs -/

theorem Mirrors.inv {s : Screen} {t : Terminal} (mirrors : Mirrors s t) : s.Inv := by
  have backs := mirrors.backs
  have copies := backs.copies
  have below := copies.below
  have inside : t.paper.col < 80 := copies.col ▸ copies.inside
  refine ⟨copies.inside, by omega, ⟨?_, ?_, fun on => ?_⟩, ?_⟩
  · rw [copies.minRow, backs.top]
    exact backs.first
  · rw [copies.maxStart, backs.top]
    exact backs.last
  · rw [copies.maxStart, backs.top]
    exact backs.tail (backs.follow ▸ on)
  · have small : t.cursor < 2000 := by
      unfold Terminal.cursor
      split_ifs <;> omega
    rw [mirrors.displays.cursor, UInt16.toNat_ofNat', Nat.mod_eq_of_lt (by omega)]
    exact small

theorem Mirrors.run {s : Screen} {t : Terminal} {calls : List ScreenCall} (mirrors : Mirrors s t)
    (range : ∀ call ∈ calls, call.InMouseRange) (room : t.paper.row + calls.length + 386 < wordSize)
    (kept : Along (fun t call => some (Terminal.step t call)) Terminal.KeepsRows t calls) :
    ∃ u, Lib.run screenStep s calls = some u ∧ Mirrors u (calls.foldl Terminal.step t) ∧
      u.serial = s.serial ++ calls.flatMap serialBytes := by
  induction calls generalizing s t with
  | nil => exact ⟨s, rfl, mirrors, by simp⟩
  | cons call calls ih =>
      obtain ⟨first, rest⟩ := List.forall_mem_cons.mp range
      rw [List.length_cons] at room
      obtain ⟨v, steps, after, sent⟩ := mirrors.step (by unfold Terminal.Roomy; omega) first kept.1
      have row := screenStep_absRow_le mirrors.inv steps
      rw [after.backs.copies.row, mirrors.backs.copies.row] at row
      obtain ⟨u, reaches, last, serial⟩ := ih after rest (by omega) (kept.2 _ rfl)
      refine ⟨u, by rw [run_cons, steps]; exact reaches, last, ?_⟩
      rw [serial, sent, List.flatMap_cons, List.append_assoc]

/-- After every call since `console_clear` the screen shows the terminal, and the serial port has been sent every call. -/
theorem display_shows_terminal (s : Screen) (calls : List ScreenCall) (range : ∀ call ∈ calls, call.InMouseRange)
    (short : calls.length + 386 < wordSize)
    (kept : Along (fun t call => some (Terminal.step t call)) Terminal.KeepsRows Terminal.fresh calls) :
    ∃ start, consoleClear s = some start ∧
      ∀ before, before <+: calls →
        ∃ t, run screenStep start before = some t ∧ Displays t (before.foldl Terminal.step Terminal.fresh) ∧
          t.serial = s.serial ++ serialBytes .clear ++ before.flatMap serialBytes := by
  obtain ⟨start, steps, mirrors, sent⟩ := mirrors_clear s
  refine ⟨start, steps, fun before shorter => ?_⟩
  have length := shorter.length_le
  obtain ⟨t, reaches, after, serial⟩ := mirrors.run (fun call member => range call (shorter.subset member))
    (by show 0 + before.length + 386 < wordSize; omega) (kept.of_prefix shorter)
  exact ⟨t, reaches, after.displays, by rw [serial, sent]⟩

-- A letter, a change of colour, a new line and a turn of the wheel.
theorem display_shows_terminal_letter :
    ∃ start, consoleClear bootScreen = some start ∧
      ∃ t, run screenStep start [.putc 0x41, .setColorRgb ⟨255, 255, 255⟩ ⟨0, 0, 170⟩, .putc 0x0A, .scrollView 3] = some t ∧
        t.vga 0 = vgaCell 0x07 0x41 := by
  obtain ⟨start, cleared, shows⟩ := display_shows_terminal bootScreen
    [.putc 0x41, .setColorRgb ⟨255, 255, 255⟩ ⟨0, 0, 170⟩, .putc 0x0A, .scrollView 3]
    (by simp [ScreenCall.InMouseRange]) (by decide)
    (by simp [Along, Terminal.KeepsRows, NoLostRow])
  obtain ⟨t, reaches, displays, -⟩ := shows _ (List.prefix_refl _)
  refine ⟨start, cleared, t, reaches, ?_⟩
  have first := displays.cells 0 (by decide) 0 (by decide)
  exact first.trans (by decide +kernel)

end Mgcore
