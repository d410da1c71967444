import Mgcore.Console.Screen
import Mgcore.Lib.Run
import Mathlib.Logic.Function.Iterate
import Mathlib.Tactic.SplitIfs

/-!
# What the screen functions do, cell by cell

Each loop of `Screen` is described by what it leaves in every cell, and no access of it is out of bounds as long as the
column is. `typed` is what a byte does to the history and the cursor, `shown` what the view leaves in the VGA memory.
-/

namespace Mgcore
open Function

open Lib

/-! ## History -/

def Screen.setCell (s : Screen) (row col : Nat) (value : UInt16) : Screen :=
  { s with
    history := update s.history (row % historyLines) (update (s.history (row % historyLines)) col value) }

def Screen.clearRow (s : Screen) (row : Nat) : Screen :=
  { s with
    history := update s.history (row % historyLines)
      fun j => if j < vgaWidth then vgaBlank s.attr else s.history (row % historyLines) j }

theorem slot_lt (row : Nat) : row % historyLines < historyLines := Nat.mod_lt row (Nat.zero_lt_succ 511)

theorem setHistoryCell_eq {s : Screen} {col : Nat} (inside : col < vgaWidth) (row : Nat) (value : UInt16) :
    setHistoryCell s row col value = some (s.setCell row col value) := by
  rw [setHistoryCell, historyStore, if_pos ⟨slot_lt row, inside⟩, Screen.setCell]

theorem historyClearRow_eq (s : Screen) (row : Nat) : historyClearRow s row = some (s.clearRow row) := by
  let state (n : Nat) : Screen :=
    { s with
      history := update s.history (row % historyLines)
        fun j => if j < n then vgaBlank s.attr else s.history (row % historyLines) j }
  have start : state 0 = s := by simp [state]
  have next (i : Nat) (less : i < vgaWidth) :
      historyStore (state i) (row % historyLines) i (vgaBlank (state i).attr) = some (state (i + 1)) := by
    rw [historyStore, if_pos ⟨slot_lt row, less⟩]
    simp only [state, update_self, update_idem]
    congr 3
    funext j
    rcases Nat.lt_trichotomy j i with before | rfl | after
    · rw [update_of_ne (by omega), if_pos before, if_pos (by omega)]
    · rw [update_self, if_pos (by omega)]
    · rw [update_of_ne (by omega), if_neg (by omega), if_neg (by omega)]
  have whole := foldlM_range_eq (fun s i => historyStore s (row % historyLines) i (vgaBlank s.attr)) state next
  rw [start] at whole
  exact whole

theorem clearAll_eq (s : Screen) :
    (List.range historyLines).foldlM historyClearRow s =
      some { s with history := fun i j =>
        if i < historyLines ∧ j < vgaWidth then vgaBlank s.attr else s.history i j } := by
  let state (n : Nat) : Screen :=
    { s with history := fun i j => if i < n ∧ j < vgaWidth then vgaBlank s.attr else s.history i j }
  have start : state 0 = s := by simp [state]
  have next (n : Nat) (less : n < historyLines) : historyClearRow (state n) n = some (state (n + 1)) := by
    rw [historyClearRow_eq, Screen.clearRow, Nat.mod_eq_of_lt less]
    simp only [state, Option.some.injEq, Screen.mk.injEq, and_true]
    funext i j
    rcases Nat.lt_trichotomy i n with before | rfl | after
    · rw [update_of_ne (by omega)]
      simp [before, Nat.lt_succ_of_lt before]
    · simp
    · rw [update_of_ne (by omega)]
      simp [show ¬i < n by omega, show ¬i < n + 1 by omega]
  have whole := foldlM_range_eq historyClearRow state next
  rw [start] at whole
  exact whole

/-! ## Output -/

def newLine (s : Screen) : Screen :=
  { s with absRow := (s.absRow + 1) % wordSize, col := 0 }.clearRow ((s.absRow + 1) % wordSize)

def written (s : Screen) (c : UInt8) : Screen :=
  let t := { s.setCell s.absRow s.col (vgaCell s.attr c) with col := s.col + 1 }
  if vgaWidth ≤ t.col then newLine t else t

def backspaced (s : Screen) : Screen :=
  if 0 < s.col then { s with col := s.col - 1 }.setCell s.absRow (s.col - 1) (vgaBlank s.attr)
  else if 0 < s.absRow then
    { s with absRow := s.absRow - 1, col := vgaWidth - 1 }.setCell (s.absRow - 1) (vgaWidth - 1) (vgaBlank s.attr)
  else s

def typed (s : Screen) (c : UInt8) : Screen :=
  if c = 0x0D then { s with col := 0 }
  else if c = 0x0A then newLine s
  else if c = 0x08 then backspaced s
  else if c = 0x09 then (fun s => written s 0x20)^[4 - s.col % 4] s
  else if 0x20 ≤ c then written s c
  else s

theorem typed_cases (s : Screen) (c : UInt8) :
    (c = 0x0D ∧ typed s c = { s with col := 0 }) ∨
      (c = 0x0A ∧ typed s c = newLine s) ∨
      (c = 0x08 ∧ typed s c = backspaced s) ∨
      (c = 0x09 ∧ typed s c = (fun s => written s 0x20)^[4 - s.col % 4] s) ∨
      (0x20 ≤ c ∧ typed s c = written s c) ∨
      (c < 0x20 ∧ c ≠ 0x0A ∧ c ≠ 0x08 ∧ c ≠ 0x09 ∧ typed s c = s) := by
  unfold typed
  split_ifs with enter line back tab printed
  · exact .inl ⟨enter, rfl⟩
  · exact .inr (.inl ⟨line, rfl⟩)
  · exact .inr (.inr (.inl ⟨back, rfl⟩))
  · exact .inr (.inr (.inr (.inl ⟨tab, rfl⟩)))
  · exact .inr (.inr (.inr (.inr (.inl ⟨printed, rfl⟩))))
  · exact .inr (.inr (.inr (.inr (.inr ⟨UInt8.not_le.mp printed, line, back, tab, rfl⟩))))

theorem advanceNewLine_eq (s : Screen) : advanceNewLine s = some (newLine s) := historyClearRow_eq _ _

theorem consoleWriteVisibleChar_eq {s : Screen} (inside : s.col < vgaWidth) (c : UInt8) :
    consoleWriteVisibleChar s c = some (written s c) := by
  rw [consoleWriteVisibleChar, setHistoryCell_eq inside]
  simp only [written, Option.bind_eq_bind, Option.bind_some, Screen.setCell, advanceNewLine_eq]
  split_ifs <;> rfl

theorem written_col_lt (s : Screen) (c : UInt8) : (written s c).col < vgaWidth := by
  simp only [written]
  split_ifs with full
  · exact Nat.zero_lt_succ 79
  · exact Nat.lt_of_not_le full

theorem spaces_col_lt {s : Screen} (inside : s.col < vgaWidth) (n : Nat) :
    ((fun s => written s 0x20)^[n] s).col < vgaWidth := by
  induction n generalizing s with
  | zero => exact inside
  | succ n ih => exact ih (written_col_lt _ 0x20)

theorem consoleBackspace_eq {s : Screen} (inside : s.col < vgaWidth) : consoleBackspace s = some (backspaced s) := by
  unfold consoleBackspace backspaced
  split_ifs with within above
  · exact setHistoryCell_eq (Nat.lt_of_le_of_lt (Nat.sub_le _ _) inside) ..
  · exact setHistoryCell_eq (Nat.lt_succ_self 79) ..
  · rfl

theorem consoleType_eq {s : Screen} (inside : s.col < vgaWidth) (c : UInt8) :
    consoleType s c = some (typed s c) := by
  have spaces (n : Nat) : (List.range n).foldlM (fun s _ => consoleWriteVisibleChar s 0x20) s =
      some ((fun s => written s 0x20)^[n] s) := by
    apply foldlM_range_eq _ fun n => (fun s => written s 0x20)^[n] s
    intro i _
    rw [iterate_succ_apply']
    exact consoleWriteVisibleChar_eq (spaces_col_lt inside i) 0x20
  unfold consoleType typed
  split_ifs
  · rfl
  · exact advanceNewLine_eq s
  · exact consoleBackspace_eq inside
  · exact spaces _
  · exact consoleWriteVisibleChar_eq inside c
  · rfl

/-! ## Where the cursor goes -/

theorem written_inside {s : Screen} (inside : s.col + 1 < vgaWidth) (c : UInt8) :
    (written s c).absRow = s.absRow ∧ (written s c).col = s.col + 1 := by
  simp only [written]
  rw [if_neg (Nat.not_le.mpr inside)]
  exact ⟨rfl, rfl⟩

theorem written_last {s : Screen} (last : s.col + 1 = vgaWidth) (c : UInt8) :
    (written s c).absRow = (s.absRow + 1) % wordSize ∧ (written s c).col = 0 := by
  simp only [written]
  rw [if_pos (Nat.le_of_eq last.symm)]
  exact ⟨rfl, rfl⟩

theorem spaces_inside {s : Screen} {n : Nat} (inside : s.col + n < vgaWidth) :
    ((fun s => written s 0x20)^[n] s).absRow = s.absRow ∧ ((fun s => written s 0x20)^[n] s).col = s.col + n := by
  induction n with
  | zero => exact ⟨rfl, rfl⟩
  | succ n ih =>
      obtain ⟨row, col⟩ := ih (by omega)
      rw [iterate_succ_apply']
      have step := written_inside (s := (fun s => written s 0x20)^[n] s) (by omega) 0x20
      rw [row, col] at step
      exact step

/-- The bytes after which the cursor is on the next row. A tab fills at most up to the end of the row. -/
def Advances (s : Screen) (c : UInt8) : Prop :=
  c = 0x0A ∨ c = 0x09 ∧ 76 ≤ s.col ∨ 0x20 ≤ c ∧ s.col = 79

instance (s : Screen) (c : UInt8) : Decidable (Advances s c) := inferInstanceAs (Decidable (_ ∨ _ ∨ _))

theorem written_absRow {s : Screen} (inside : s.col < vgaWidth) (c : UInt8) :
    (written s c).absRow = if s.col = 79 then (s.absRow + 1) % wordSize else s.absRow := by
  unfold vgaWidth at inside
  split_ifs with last
  · exact (written_last (by unfold vgaWidth; omega) c).1
  · exact (written_inside (by unfold vgaWidth; omega) c).1

theorem tabbed_absRow {s : Screen} (inside : s.col < vgaWidth) :
    ((fun s => written s 0x20)^[4 - s.col % 4] s).absRow =
      if 76 ≤ s.col then (s.absRow + 1) % wordSize else s.absRow := by
  unfold vgaWidth at inside
  obtain ⟨m, count⟩ : ∃ m, 4 - s.col % 4 = m + 1 := ⟨3 - s.col % 4, by omega⟩
  obtain ⟨row, col⟩ := spaces_inside (s := s) (n := m) (by unfold vgaWidth; omega)
  rw [count, iterate_succ_apply', written_absRow (by rw [col]; unfold vgaWidth; omega), row, col]
  exact if_congr (by omega) rfl rfl

theorem typed_absRow {s : Screen} (inside : s.col < vgaWidth) (c : UInt8) :
    (typed s c).absRow =
      if Advances s c then (s.absRow + 1) % wordSize
      else if c = 0x08 ∧ s.col = 0 then s.absRow - 1 else s.absRow := by
  obtain ⟨rfl, same⟩ | ⟨rfl, same⟩ | ⟨rfl, same⟩ | ⟨rfl, same⟩ | ⟨printed, same⟩ | ⟨low, line, back, tab, same⟩ :=
    typed_cases s c
  all_goals rw [same]
  · simp [Advances]
  · simp [Advances, newLine, Screen.clearRow]
  · have still : ¬Advances s 0x08 := by simp [Advances]
    rw [if_neg still, backspaced]
    rcases Nat.eq_zero_or_pos s.col with first | within
    · rcases Nat.eq_zero_or_pos s.absRow with top | below
      · simp [first, top]
      · simp [first, below, Screen.setCell]
    · simp [within, Nat.ne_of_gt within, Screen.setCell]
  · have full : Advances s 0x09 ↔ 76 ≤ s.col := by simp [Advances]
    simp [full, tabbed_absRow inside]
  · have line : c ≠ 0x0A := by rintro rfl; simp at printed
    have tab : c ≠ 0x09 := by rintro rfl; simp at printed
    have back : c ≠ 0x08 := by rintro rfl; simp at printed
    have full : Advances s c ↔ s.col = 79 := by simp [Advances, line, tab, printed]
    simp [full, back, written_absRow inside]
  · have still : ¬Advances s c := by simp [Advances, line, tab, UInt8.not_le.mpr low]
    simp [still, back]

theorem typed_col_lt {s : Screen} (inside : s.col < vgaWidth) (c : UInt8) : (typed s c).col < vgaWidth := by
  obtain ⟨-, same⟩ | ⟨-, same⟩ | ⟨-, same⟩ | ⟨-, same⟩ | ⟨-, same⟩ | ⟨-, -, -, -, same⟩ := typed_cases s c
  all_goals rw [same]
  · exact Nat.zero_lt_succ 79
  · exact Nat.zero_lt_succ 79
  · unfold backspaced
    split_ifs
    · exact Nat.lt_of_le_of_lt (Nat.sub_le _ _) inside
    · exact Nat.lt_succ_self 79
    · exact inside
  · exact spaces_col_lt inside _
  · exact written_col_lt _ c
  · exact inside

/-! ## The view -/

theorem viewportMaxStart_eq (s : Screen) : viewportMaxStart s = s.absRow - 24 := by
  unfold viewportMaxStart vgaHeight
  split_ifs <;> omega

theorem historyMinAbsRow_eq {s : Screen} (below : s.absRow + 1 < wordSize) : historyMinAbsRow s = s.absRow - 511 := by
  simp only [historyMinAbsRow, historyLines, Nat.mod_eq_of_lt below]
  split_ifs <;> omega

-- On the last row number the sum in `history_min_abs_row` is zero.
theorem historyMinAbsRow_top {s : Screen} (top : s.absRow = wordSize - 1) : historyMinAbsRow s = 0 := by
  simp [historyMinAbsRow, top, wordSize]

theorem historyMinAbsRow_le (s : Screen) : historyMinAbsRow s ≤ s.absRow - 511 := by
  have small : (s.absRow + 1) % wordSize ≤ s.absRow + 1 := Nat.mod_le _ _
  simp only [historyMinAbsRow]
  split_ifs with long
  · unfold historyLines at long ⊢
    omega
  · exact Nat.zero_le _

def shownCell (s : Screen) (row col : Nat) : UInt16 :=
  let absRow := (s.viewStart + row) % wordSize
  if absRow < historyMinAbsRow s ∨ s.absRow < absRow then vgaBlank s.attr else s.history (absRow % historyLines) col

def shown (s : Screen) (i : Nat) : UInt16 :=
  if i / vgaWidth < vgaHeight then shownCell s (i / vgaWidth) (i % vgaWidth) else s.vga i

def rendered (s : Screen) : Screen :=
  { s with vga := shown s, hwCursor := UInt16.ofNat ((cursorPlace s).1 * vgaWidth + (cursorPlace s).2) }

theorem vgaRenderRow_eq (s : Screen) (vga : Nat → UInt16) {row : Nat} (inside : row < vgaHeight) :
    vgaRenderRow s vga row =
      some fun i => if i / vgaWidth = row then shownCell s row (i % vgaWidth) else vga i := by
  let state (n i : Nat) : UInt16 :=
    if i / vgaWidth = row ∧ i % vgaWidth < n then shownCell s row (i % vgaWidth) else vga i
  have start : state 0 = vga := by simp [state]
  have done : state vgaWidth = fun i => if i / vgaWidth = row then shownCell s row (i % vgaWidth) else vga i := by
    funext i
    have below : i % vgaWidth < vgaWidth := Nat.mod_lt i (Nat.zero_lt_succ 79)
    simp only [state, below, and_true]
  have stored (i : Nat) (less : i < vgaWidth) :
      vgaStore (state i) (row * vgaWidth + i) (shownCell s row i) = some (state (i + 1)) := by
    unfold vgaWidth at less
    unfold vgaHeight at inside
    unfold vgaStore vgaWidth vgaHeight
    rw [if_pos (by omega)]
    congr 1
    funext k
    rw [update_apply]
    split_ifs with same
    · subst same
      have place : (row * 80 + i) / 80 = row ∧ (row * 80 + i) % 80 = i := by omega
      simp [state, vgaWidth, place]
    · have apart : (k / 80 = row ∧ k % 80 < i + 1) ↔ (k / 80 = row ∧ k % 80 < i) := by omega
      exact if_congr apart.symm rfl rfl
  have next (i : Nat) (less : i < vgaWidth) : vgaRenderCell s row (state i) i = some (state (i + 1)) := by
    have loaded : historyLoad s ((s.viewStart + row) % wordSize % historyLines) i =
        some (s.history ((s.viewStart + row) % wordSize % historyLines) i) := if_pos ⟨slot_lt _, less⟩
    rw [← stored i less, vgaRenderCell, shownCell, loaded]
    split_ifs <;> rfl
  have whole := foldlM_range_eq (vgaRenderCell s row) state next
  rw [start, done] at whole
  exact whole

theorem vgaRenderView_eq (s : Screen) : vgaRenderView s = some (rendered s) := by
  let state (n i : Nat) : UInt16 := if i / vgaWidth < n then shownCell s (i / vgaWidth) (i % vgaWidth) else s.vga i
  have start : state 0 = s.vga := by simp [state]
  have next (row : Nat) (less : row < vgaHeight) : vgaRenderRow s (state row) row = some (state (row + 1)) := by
    rw [vgaRenderRow_eq s (state row) less]
    congr 1
    funext i
    rcases Nat.lt_trichotomy (i / vgaWidth) row with before | rfl | after
    · simp only [state]
      rw [if_neg (by omega), if_pos before, if_pos (by omega)]
    · simp [state]
    · simp only [state]
      rw [if_neg (by omega), if_neg (by omega), if_neg (by omega)]
  have whole := foldlM_range_eq (vgaRenderRow s) state next
  rw [start] at whole
  rw [vgaRenderView, whole]
  rfl

theorem consolePutc_eq {s : Screen} (inside : s.col < vgaWidth) (c : UInt8) :
    ∃ bytes, consolePutc s c = some (rendered (viewportAfterOutput (typed (serialWrite s bytes) c))) := by
  refine ⟨if c = 0x0A then [0x0D, c] else [c], ?_⟩
  have sent : serialPutc (if c = 0x0A then serialPutc s 0x0D else s) c =
      serialWrite s (if c = 0x0A then [0x0D, c] else [c]) := by
    split_ifs <;> simp [serialPutc, serialWrite]
  simp only [consolePutc, sent]
  rw [consoleType_eq (s := serialWrite s _) inside]
  exact vgaRenderView_eq _

/-- The screen right after `console_clear`. -/
structure Screen.Cleared (s : Screen) : Prop where
  absRow : s.absRow = 0
  col : s.col = 0
  viewStart : s.viewStart = 0
  followTail : s.followTail = true
  hwCursor : s.hwCursor = 0
  attr : s.attr = 0x07
  blank : ∀ slot col, slot < historyLines → col < vgaWidth → s.history slot col = vgaBlank s.attr

theorem default_attr : colorNearestVgaIndex ⟨0x00, 0x00, 0x00⟩ <<< 4 ||| colorNearestVgaIndex ⟨0xC0, 0xC0, 0xC0⟩ = 0x07 := by
  decide

theorem consoleClear_cleared (s : Screen) : ∃ t, consoleClear s = some t ∧ t.Cleared := by
  simp only [consoleClear, clearAll_eq, historyClearRow_eq, Option.bind_eq_bind, Option.bind_some, vgaRenderView_eq]
  refine ⟨_, rfl, rfl, rfl, rfl, rfl, rfl, default_attr, ?_⟩
  intro slot col row inside
  by_cases first : slot = 0
  · subst first
    simp [rendered, serialEmitAnsiColor, serialWrite, Screen.clearRow, consoleUpdateAttr, inside]
  · simp [rendered, serialEmitAnsiColor, serialWrite, Screen.clearRow, consoleUpdateAttr, inside, row,
      update_of_ne first]

end Mgcore
