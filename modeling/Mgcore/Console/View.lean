import Mgcore.Console.Cells
import Mgcore.Lib.Run

/-!
# The view stays on the history

Every byte of output puts the view back between the oldest row of the history and the last screen, whatever was there
before. Scrolling keeps it there as long as its sum of the first row and the distance stays in `size_t`: the way up is
written as a comparison with a difference, the way down as a comparison of a sum that may wrap around.
-/

namespace Mgcore

open Lib

inductive ScreenCall
  | putc (c : UInt8)
  | scrollView (deltaLines : Int)
  | viewToBottom
  | setColorRgb (fg bg : RgbColor)
  | clear

def screenStep (s : Screen) : ScreenCall → Option Screen
  | .putc c => consolePutc s c
  | .scrollView deltaLines => consoleScrollView s deltaLines
  | .viewToBottom => consoleViewToBottom s
  | .setColorRgb fg bg => some (consoleSetColorRgb s fg bg)
  | .clear => consoleClear s

/-- `mouse_handle_irq` scrolls by three times an `int8_t`. -/
def ScreenCall.InMouseRange : ScreenCall → Prop
  | .scrollView deltaLines => -384 ≤ deltaLines ∧ deltaLines ≤ 381
  | _ => True

/-- The two differences that `console_scroll_view` takes, as far as it takes them. -/
def SubtractionsExact (s : Screen) (deltaLines : Int) : Prop :=
  0 < deltaLines →
    historyMinAbsRow s ≤ s.viewStart ∧
      (¬sizeSub s.viewStart (historyMinAbsRow s) < deltaLines.toNat → deltaLines.toNat ≤ s.viewStart)

structure Screen.ViewOk (s : Screen) : Prop where
  min_le : historyMinAbsRow s ≤ s.viewStart
  le_max : s.viewStart ≤ viewportMaxStart s
  follows : s.followTail → s.viewStart = viewportMaxStart s

/-- The state and every call from it: no index out of range, no difference below zero. -/
structure Screen.Safe (s : Screen) : Prop where
  col_lt : s.col < vgaWidth
  view : s.ViewOk
  cursor_lt : s.hwCursor.toNat < 2000
  inBounds : ∀ call : ScreenCall, (screenStep s call).isSome
  exact : ∀ deltaLines, SubtractionsExact s deltaLines

structure Screen.Inv (s : Screen) : Prop where
  col_lt : s.col < vgaWidth
  row_lt : s.absRow < wordSize
  view : s.ViewOk
  cursor_lt : s.hwCursor.toNat < 2000

/-- The way down does not wrap, or it wraps where `history_min_abs_row` does too. -/
def ScrollFits (s : Screen) : ScreenCall → Prop
  | .scrollView deltaLines =>
      deltaLines < 0 → s.viewStart + (-deltaLines).toNat < wordSize ∨ s.absRow = wordSize - 1
  | _ => True

/-! ## Bounds of the view -/

theorem min_le_max (s : Screen) : historyMinAbsRow s ≤ viewportMaxStart s := by
  have low := historyMinAbsRow_le s
  rw [viewportMaxStart_eq]
  omega

theorem viewportAfterOutput_ok (s : Screen) : (viewportAfterOutput s).ViewOk := by
  have ordered := min_le_max s
  unfold viewportAfterOutput
  split_ifs with follow
  · exact ⟨ordered, Nat.le_refl _, fun _ => rfl⟩
  · simp only [viewportClamp]
    split_ifs with below above above
    · exact absurd above (Nat.not_lt.mpr ordered)
    · exact ⟨Nat.le_refl _, ordered, fun on => absurd on follow⟩
    · exact ⟨ordered, Nat.le_refl _, fun on => absurd on follow⟩
    · exact ⟨Nat.not_lt.mp below, Nat.not_lt.mp above, fun on => absurd on follow⟩

theorem sizeSub_of_le {a b : Nat} (le : b ≤ a) (small : a < wordSize) : sizeSub a b = a - b := by
  unfold sizeSub
  unfold wordSize at small ⊢
  omega

theorem Screen.Inv.exact {s : Screen} (inv : s.Inv) (deltaLines : Int) : SubtractionsExact s deltaLines := by
  intro _
  have low := inv.view.min_le
  have high := inv.view.le_max
  have row := inv.row_lt
  rw [viewportMaxStart_eq] at high
  rw [sizeSub_of_le low (by omega)]
  exact ⟨low, fun short => by omega⟩

theorem scrolledStart_ok {s : Screen} (inv : s.Inv) {deltaLines : Int} (nonzero : deltaLines ≠ 0)
    (fits : ScrollFits s (.scrollView deltaLines)) (small : -384 ≤ deltaLines) :
    historyMinAbsRow s ≤ scrolledStart s deltaLines ∧ scrolledStart s deltaLines ≤ viewportMaxStart s := by
  have low := inv.view.min_le
  have high := inv.view.le_max
  have row := inv.row_lt
  have ordered := min_le_max s
  have max_eq := viewportMaxStart_eq s
  simp only [scrolledStart]
  split_ifs with up far past
  · exact ⟨Nat.le_refl _, ordered⟩
  · rw [sizeSub_of_le low (by omega)] at far
    rw [sizeSub_of_le (by omega) (by omega)]
    omega
  · exact ⟨ordered, Nat.le_refl _⟩
  · rcases fits (by omega) with straight | top
    · rw [Nat.mod_eq_of_lt straight] at past ⊢
      omega
    · rw [historyMinAbsRow_top top]
      exact ⟨Nat.zero_le _, Nat.not_lt.mp past⟩

theorem scrolledStart_wraps {s : Screen} (inv : s.Inv) {deltaLines : Int} (misfit : ¬ScrollFits s (.scrollView deltaLines))
    (small : -384 ≤ deltaLines) : scrolledStart s deltaLines < historyMinAbsRow s := by
  have high := inv.view.le_max
  have row := inv.row_lt
  simp only [ScrollFits, not_forall, not_or, Nat.not_lt] at misfit
  obtain ⟨down, wraps, notTop⟩ := misfit
  rw [viewportMaxStart_eq] at high
  unfold wordSize at row wraps notTop
  rw [historyMinAbsRow_eq (by unfold wordSize; omega)]
  simp only [scrolledStart, viewportMaxStart_eq]
  unfold wordSize
  rw [if_neg (by omega), if_neg (by omega)]
  omega

/-! ## One call -/

theorem cursorPlace_lt {s : Screen} (inside : s.col < vgaWidth) :
    (cursorPlace s).1 * vgaWidth + (cursorPlace s).2 < 2000 := by
  unfold cursorPlace
  unfold vgaWidth at inside
  unfold vgaWidth vgaHeight wordSize
  split_ifs <;> simp only <;> omega

theorem rendered_min (s : Screen) : historyMinAbsRow (rendered s) = historyMinAbsRow s := rfl

theorem rendered_inv {s : Screen} (inside : s.col < vgaWidth) (row : s.absRow < wordSize) (view : s.ViewOk) :
    (rendered s).Inv where
  col_lt := inside
  row_lt := row
  view := ⟨view.min_le, view.le_max, view.follows⟩
  cursor_lt := by
    have small := cursorPlace_lt inside
    simp only [rendered, UInt16.toNat_ofNat']
    omega

theorem viewportAfterOutput_kept (s : Screen) :
    (viewportAfterOutput s).col = s.col ∧ (viewportAfterOutput s).absRow = s.absRow := by
  unfold viewportAfterOutput
  split_ifs
  · exact ⟨rfl, rfl⟩
  · simp only [viewportClamp]
    split_ifs <;> exact ⟨rfl, rfl⟩

theorem typed_row_lt {s : Screen} (inside : s.col < vgaWidth) (row : s.absRow < wordSize) (c : UInt8) :
    (typed s c).absRow < wordSize := by
  rw [typed_absRow inside]
  split_ifs
  · exact Nat.mod_lt _ (by decide)
  · exact Nat.lt_of_le_of_lt (Nat.sub_le _ _) row
  · exact row

theorem consolePutc_inv {s : Screen} (inside : s.col < vgaWidth) (row : s.absRow < wordSize) (c : UInt8) :
    ∃ t, consolePutc s c = some t ∧ t.Inv := by
  obtain ⟨bytes, steps⟩ := consolePutc_eq inside c
  refine ⟨_, steps, ?_⟩
  obtain ⟨sameCol, sameRow⟩ := viewportAfterOutput_kept (typed (serialWrite s bytes) c)
  apply rendered_inv
  · rw [sameCol]
    exact typed_col_lt (s := serialWrite s bytes) inside c
  · rw [sameRow]
    exact typed_row_lt (s := serialWrite s bytes) inside row c
  · exact viewportAfterOutput_ok _

def scrolled (s : Screen) (deltaLines : Int) : Screen :=
  { s with
    viewStart := scrolledStart s deltaLines
    followTail := scrolledStart s deltaLines = viewportMaxStart s }

theorem consoleScrollView_eq {s : Screen} {deltaLines : Int} (nonzero : deltaLines ≠ 0) :
    consoleScrollView s deltaLines = some (rendered (scrolled s deltaLines)) := by
  rw [consoleScrollView, if_neg nonzero]
  exact vgaRenderView_eq _

theorem consoleScrollView_inv {s : Screen} (inv : s.Inv) {deltaLines : Int}
    (fits : ScrollFits s (.scrollView deltaLines)) (small : -384 ≤ deltaLines) :
    ∃ t, consoleScrollView s deltaLines = some t ∧ t.Inv := by
  by_cases zero : deltaLines = 0
  · exact ⟨s, if_pos zero, inv⟩
  · obtain ⟨low, high⟩ := scrolledStart_ok inv zero fits small
    refine ⟨_, consoleScrollView_eq zero, rendered_inv (s := scrolled s deltaLines) inv.col_lt inv.row_lt ?_⟩
    exact ⟨low, high, fun on => of_decide_eq_true on⟩

theorem consoleViewToBottom_inv {s : Screen} (inv : s.Inv) : ∃ t, consoleViewToBottom s = some t ∧ t.Inv :=
  ⟨_, vgaRenderView_eq _, rendered_inv inv.col_lt inv.row_lt ⟨min_le_max s, Nat.le_refl _, fun _ => rfl⟩⟩

theorem Screen.Cleared.inv {s : Screen} (cleared : s.Cleared) : s.Inv where
  col_lt := by rw [cleared.col]; exact Nat.zero_lt_succ 79
  row_lt := by rw [cleared.absRow]; decide
  view := by
    refine ⟨?_, ?_, fun _ => ?_⟩
    all_goals simp [historyMinAbsRow, viewportMaxStart, cleared.absRow, cleared.viewStart, vgaHeight, historyLines,
      wordSize]
  cursor_lt := by rw [cleared.hwCursor]; decide

theorem screenStep_inv {s : Screen} {call : ScreenCall} (inv : s.Inv) (range : call.InMouseRange)
    (fits : ScrollFits s call) : ∃ t, screenStep s call = some t ∧ t.Inv := by
  cases call with
  | putc c => exact consolePutc_inv inv.col_lt inv.row_lt c
  | scrollView deltaLines => exact consoleScrollView_inv inv fits range.1
  | viewToBottom => exact consoleViewToBottom_inv inv
  | setColorRgb fg bg =>
      exact ⟨_, rfl, inv.col_lt, inv.row_lt, ⟨inv.view.min_le, inv.view.le_max, inv.view.follows⟩, inv.cursor_lt⟩
  | clear =>
      obtain ⟨t, steps, cleared⟩ := consoleClear_cleared s
      exact ⟨t, steps, cleared.inv⟩

-- Also a call that leaves the invariant stays within the arrays.
theorem screenStep_isSome {s : Screen} (inv : s.Inv) (call : ScreenCall) : (screenStep s call).isSome := by
  cases call with
  | putc c =>
      obtain ⟨t, steps, -⟩ := consolePutc_inv inv.col_lt inv.row_lt c
      exact Option.isSome_of_eq_some steps
  | scrollView deltaLines =>
      by_cases zero : deltaLines = 0
      · exact Option.isSome_of_eq_some (if_pos zero)
      · exact Option.isSome_of_eq_some (consoleScrollView_eq zero)
  | viewToBottom => exact Option.isSome_of_eq_some (vgaRenderView_eq _)
  | setColorRgb fg bg => rfl
  | clear =>
      obtain ⟨t, steps, -⟩ := consoleClear_cleared s
      exact Option.isSome_of_eq_some steps

theorem Screen.Inv.safe {s : Screen} (inv : s.Inv) : s.Safe :=
  ⟨inv.col_lt, inv.view, inv.cursor_lt, screenStep_isSome inv, inv.exact⟩

theorem screenStep_absRow_le {s t : Screen} {call : ScreenCall} (inv : s.Inv) (steps : screenStep s call = some t) :
    t.absRow ≤ s.absRow + 1 := by
  cases call with
  | putc c =>
      obtain ⟨bytes, same⟩ := consolePutc_eq inv.col_lt c
      cases steps.symm.trans same
      have row := typed_absRow (s := serialWrite s bytes) inv.col_lt c
      have wrapped : (s.absRow + 1) % wordSize ≤ s.absRow + 1 := Nat.mod_le _ _
      change (viewportAfterOutput _).absRow ≤ _
      rw [(viewportAfterOutput_kept _).2, row]
      change ite _ ((s.absRow + 1) % wordSize) (ite _ (s.absRow - 1) s.absRow) ≤ _
      split_ifs <;> omega
  | scrollView deltaLines =>
      by_cases zero : deltaLines = 0
      · cases steps.symm.trans (if_pos zero : consoleScrollView s deltaLines = some s)
        exact Nat.le_succ _
      · cases steps.symm.trans (consoleScrollView_eq zero)
        exact Nat.le_succ _
  | viewToBottom =>
      cases steps.symm.trans (vgaRenderView_eq _)
      exact Nat.le_succ _
  | setColorRgb fg bg =>
      cases steps
      exact Nat.le_succ _
  | clear =>
      obtain ⟨u, same, cleared⟩ := consoleClear_cleared s
      cases steps.symm.trans same
      rw [cleared.absRow]
      exact Nat.zero_le _

/-! ## Runs -/

theorem scrollFits_of_row {s : Screen} {call : ScreenCall} (inv : s.Inv) (range : call.InMouseRange)
    (room : s.absRow + 384 < wordSize) : ScrollFits s call := by
  cases call with
  | scrollView deltaLines =>
      intro _
      have small : -384 ≤ deltaLines := range.1
      have high := inv.view.le_max
      rw [viewportMaxStart_eq] at high
      exact .inl (by omega)
  | _ => trivial

theorem along_scrollFits {s : Screen} {calls : List ScreenCall} (inv : s.Inv)
    (range : ∀ call ∈ calls, call.InMouseRange) (short : s.absRow + calls.length + 384 ≤ wordSize) :
    Along screenStep ScrollFits s calls := by
  induction calls generalizing s with
  | nil => trivial
  | cons call calls ih =>
      obtain ⟨first, rest⟩ := List.forall_mem_cons.mp range
      rw [List.length_cons] at short
      have fits := scrollFits_of_row inv first (by omega)
      refine ⟨fits, fun t steps => ?_⟩
      obtain ⟨u, same, after⟩ := screenStep_inv inv first fits
      cases steps.symm.trans same
      have row := screenStep_absRow_le inv steps
      exact ih after rest (by omega)

/-- From `console_clear` on, the calls of a run are safe exactly if no scroll down wraps, and it takes more than
`2 ^ 64 - 384` calls to come to one that does. -/
theorem view_stays_on_history (s : Screen) (calls : List ScreenCall) (range : ∀ call ∈ calls, call.InMouseRange) :
    ∃ start, consoleClear s = some start ∧
      ((∀ before, before <+: calls → ∃ t, run screenStep start before = some t ∧ t.Safe) ↔
        Along screenStep ScrollFits start calls) ∧
      (calls.length + 384 ≤ wordSize → Along screenStep ScrollFits start calls) := by
  obtain ⟨start, steps, cleared⟩ := consoleClear_cleared s
  have allowed : Along screenStep (fun _ call => call.InMouseRange) start calls :=
    along_of_forall (fun call member _ => range call member) start
  refine ⟨start, steps, ?_, fun short => ?_⟩
  · refine prefixes_reach_iff_along (P := Screen.Safe) (fun s inv => Screen.Inv.safe inv) ?_ ?_ allowed cleared.inv
    · intro s call inv first fits
      exact screenStep_inv inv first fits
    · intro s call inv first misfit
      cases call with
      | scrollView deltaLines =>
          have nonzero : deltaLines ≠ 0 := by
            rintro rfl
            exact misfit fun down => absurd down (by decide)
          refine ⟨_, consoleScrollView_eq nonzero, fun safe => ?_⟩
          exact absurd safe.view.min_le (Nat.not_le.mpr (scrolledStart_wraps inv misfit first.1))
      | _ => exact absurd trivial misfit
  · apply along_scrollFits cleared.inv range
    rw [cleared.absRow]
    omega

theorem view_stays_on_history_tab_scroll :
    ∃ start, consoleClear bootScreen = some start ∧
      ∀ before, before <+: [.putc 0x09, .scrollView 3, .putc 0x08, .scrollView (-384)] →
        ∃ t, run screenStep start before = some t ∧ t.Safe := by
  obtain ⟨start, cleared, safe, short⟩ :=
    view_stays_on_history bootScreen [.putc 0x09, .scrollView 3, .putc 0x08, .scrollView (-384)]
      (by simp [ScreenCall.InMouseRange])
  exact ⟨start, cleared, safe.mpr (short (by decide))⟩

theorem newLines_reach {s : Screen} (inv : s.Inv) {n : Nat} (room : s.absRow + n < wordSize) :
    ∃ t, run screenStep s (List.replicate n (.putc 0x0A)) = some t ∧ t.Inv ∧ t.absRow = s.absRow + n := by
  induction n generalizing s with
  | zero => exact ⟨s, rfl, inv, rfl⟩
  | succ n ih =>
      obtain ⟨bytes, steps⟩ := consolePutc_eq inv.col_lt 0x0A
      obtain ⟨u, same, after⟩ := consolePutc_inv inv.col_lt inv.row_lt 0x0A
      have row : u.absRow = s.absRow + 1 := by
        cases same.symm.trans steps
        change (viewportAfterOutput _).absRow = _
        rw [(viewportAfterOutput_kept _).2]
        exact Nat.mod_eq_of_lt (show s.absRow + 1 < wordSize by omega)
      obtain ⟨t, reaches, good, last⟩ := ih after (by omega)
      refine ⟨t, ?_, good, by omega⟩
      rw [List.replicate_succ, run_cons, screenStep, same]
      exact reaches

/-- On row `2 ^ 64 - 2` with the view at the bottom, nine notches down put the view on row 1. -/
theorem scroll_down_wraps_past_history :
    ∃ start t, consoleClear bootScreen = some start ∧
      run screenStep start (List.replicate (2 ^ 64 - 2) (.putc 0x0A) ++ [.viewToBottom, .scrollView (-27)]) = some t ∧
      t.viewStart < historyMinAbsRow t := by
  obtain ⟨start, steps, cleared⟩ := consoleClear_cleared bootScreen
  generalize count : 2 ^ 64 - 2 = n
  obtain ⟨u, reaches, inv, row⟩ := newLines_reach (n := n) cleared.inv (by rw [cleared.absRow]; unfold wordSize; omega)
  obtain ⟨v, bottom, good⟩ := consoleViewToBottom_inv inv
  have place : v.absRow = n ∧ v.viewStart = n - 24 := by
    cases bottom.symm.trans (vgaRenderView_eq _)
    have last := viewportMaxStart_eq u
    rw [row, cleared.absRow, Nat.zero_add] at last
    exact ⟨row.trans (by rw [cleared.absRow, Nat.zero_add]), last⟩
  have misfit : ¬ScrollFits v (.scrollView (-27)) := by
    simp only [ScrollFits, place]
    unfold wordSize
    omega
  have down : consoleScrollView v (-27) = some (rendered (scrolled v (-27))) := consoleScrollView_eq (by decide)
  have past : (scrolled v (-27)).viewStart < historyMinAbsRow (scrolled v (-27)) :=
    scrolledStart_wraps good misfit (by decide)
  refine ⟨start, rendered (scrolled v (-27)), steps, ?_, by rw [rendered_min]; exact past⟩
  rw [run_append, reaches]
  simp only [Option.bind_some, run_cons, screenStep, bottom, down]
  rfl

end Mgcore
