import Mgcore.Console.Cells
import Mgcore.Lib.Run

/-!
# The history and a console that forgets nothing

`Paper` keeps every row it ever had. The ring of 512 rows agrees with it on the rows that the view can show as long as the
current row only grows once it has passed row 511. A backspace at the start of a row `r` from 512 on goes back to row
`r - 1`, and `history_min_abs_row` then counts row `r - 512` as kept, whose place in the ring is that of row `r`.
-/

namespace Mgcore
open Function

open Lib

/-! ## The reference -/

structure Paper where
  rows : Nat → Nat → UInt16
  row : Nat
  col : Nat
  attr : UInt8

def Paper.fresh (attr : UInt8) : Paper := { rows := fun _ _ => vgaBlank attr, row := 0, col := 0, attr }

def Paper.setCell (p : Paper) (value : UInt16) : Paper :=
  { p with rows := update p.rows p.row (update (p.rows p.row) p.col value) }

def Paper.newLine (p : Paper) : Paper :=
  { p with rows := update p.rows (p.row + 1) fun _ => vgaBlank p.attr, row := p.row + 1, col := 0 }

def Paper.write (p : Paper) (c : UInt8) : Paper :=
  let q := { p.setCell (vgaCell p.attr c) with col := p.col + 1 }
  if vgaWidth ≤ q.col then q.newLine else q

def Paper.back (p : Paper) : Paper :=
  if 0 < p.col then { p with col := p.col - 1 }.setCell (vgaBlank p.attr)
  else if 0 < p.row then { p with row := p.row - 1, col := vgaWidth - 1 }.setCell (vgaBlank p.attr)
  else p

def Paper.putc (p : Paper) (c : UInt8) : Paper :=
  if c = 0x0D then { p with col := 0 }
  else if c = 0x0A then p.newLine
  else if c = 0x08 then p.back
  else if c = 0x09 then (fun p => Paper.write p 0x20)^[4 - p.col % 4] p
  else if 0x20 ≤ c then p.write c
  else p

/-! ## The relation -/

/-- The ring holds the reference's last 512 rows up to the current one, or the first 512. -/
structure Copies (s : Screen) (p : Paper) : Prop where
  row : s.absRow = p.row
  col : s.col = p.col
  attr : s.attr = p.attr
  inside : s.col < vgaWidth
  below : s.absRow + 1 < wordSize
  cells : ∀ r j, p.row ≤ r + 511 → r ≤ p.row ∨ r ≤ 511 → j < vgaWidth → s.history (r % historyLines) j = p.rows r j

/-- What the view can show of the ring is what the reference has there. -/
def Agrees (s : Screen) (p : Paper) : Prop :=
  ∀ r, historyMinAbsRow s ≤ r → r ≤ s.absRow → ∀ j < vgaWidth, s.history (r % historyLines) j = p.rows r j

theorem Copies.agrees {s : Screen} {p : Paper} (copies : Copies s p) : Agrees s p := by
  intro r low high j inside
  rw [historyMinAbsRow_eq copies.below, copies.row] at low
  rw [copies.row] at high
  exact copies.cells r j (by omega) (.inl high) inside

theorem slots_apart {r q : Nat} (ne : r ≠ q) (near : r < q + 512) (near' : q < r + 512) :
    r % historyLines ≠ q % historyLines := by
  unfold historyLines
  omega

structure SameText (s t : Screen) : Prop where
  history : t.history = s.history
  absRow : t.absRow = s.absRow
  col : t.col = s.col
  attr : t.attr = s.attr

theorem Copies.of_sameText {s t : Screen} {p : Paper} (copies : Copies s p) (same : SameText s t) : Copies t p where
  row := same.absRow.trans copies.row
  col := same.col.trans copies.col
  attr := same.attr.trans copies.attr
  inside := same.col ▸ copies.inside
  below := same.absRow ▸ copies.below
  cells := same.history ▸ copies.cells

/-! ## One byte -/

theorem Copies.store {s : Screen} {p : Paper} (copies : Copies s p) (value : UInt16) :
    Copies (s.setCell s.absRow s.col value) (p.setCell value) where
  row := copies.row
  col := copies.col
  attr := copies.attr
  inside := copies.inside
  below := copies.below
  cells := by
    intro r j low high inside
    simp only [Screen.setCell, Paper.setCell, copies.row, copies.col] at low high ⊢
    by_cases here : r = p.row
    · subst here
      rw [update_self, update_self, update_apply, update_apply, copies.cells p.row j low high inside]
    · have apart := slots_apart here (by omega) (by omega)
      rw [update_of_ne apart, update_of_ne here]
      exact copies.cells r j low high inside

theorem Copies.newLine {s : Screen} {p : Paper} (copies : Copies s p) (room : p.row + 2 < wordSize) :
    Copies (newLine s) p.newLine := by
  have next : (s.absRow + 1) % wordSize = p.row + 1 := by
    rw [copies.row]
    exact Nat.mod_eq_of_lt (by omega)
  refine ⟨next, rfl, copies.attr, Nat.zero_lt_succ 79, ?_, ?_⟩
  · change (s.absRow + 1) % wordSize + 1 < wordSize
    omega
  · intro r j low high inside
    simp only [Mgcore.newLine, Screen.clearRow, Paper.newLine, next, copies.attr] at low high ⊢
    clear room next
    by_cases here : r = p.row + 1
    · subst here
      rw [update_self, update_self, if_pos inside]
    · have apart := slots_apart here (by omega) (by omega)
      rw [update_of_ne apart, update_of_ne here]
      exact copies.cells r j (by omega) (by omega) inside

theorem Copies.move {s : Screen} {p : Paper} (copies : Copies s p) {col : Nat} (inside : col < vgaWidth) :
    Copies { s with col := col } { p with col := col } :=
  ⟨copies.row, rfl, copies.attr, inside, copies.below, copies.cells⟩

theorem Copies.write {s : Screen} {p : Paper} (copies : Copies s p) (room : p.col = 79 → p.row + 2 < wordSize)
    (c : UInt8) : Copies (written s c) (p.write c) := by
  have stored := copies.store (vgaCell p.attr c)
  have inside : p.col < 80 := copies.col ▸ copies.inside
  rw [copies.col] at stored
  simp only [written, Paper.write, copies.attr, copies.col]
  by_cases last : p.col = 79
  · rw [if_pos (by rw [last]; rfl), if_pos (by rw [last]; rfl)]
    exact stored.newLine (room last)
  · have within : p.col + 1 < vgaWidth := by unfold vgaWidth; omega
    rw [if_neg (Nat.not_le.mpr within), if_neg (Nat.not_le.mpr within)]
    exact stored.move within

theorem Copies.spaces {s : Screen} {p : Paper} (copies : Copies s p) {n : Nat} (inside : p.col + n ≤ 80)
    (room : p.col + n = 80 → p.row + 2 < wordSize) :
    Copies ((fun s => written s 0x20)^[n] s) ((fun p => Paper.write p 0x20)^[n] p) := by
  induction n with
  | zero => exact copies
  | succ n ih =>
      have before := ih (by omega) (by omega)
      obtain ⟨row, col⟩ := spaces_inside (s := s) (n := n) (by rw [copies.col]; unfold vgaWidth; omega)
      rw [before.row, copies.row] at row
      rw [before.col, copies.col] at col
      rw [iterate_succ_apply', iterate_succ_apply']
      exact before.write (fun last => by rw [row]; exact room (by omega)) 0x20

/-- The bytes that do not bring the row number to its last value, where `history_min_abs_row` wraps. -/
def RowBelow (p : Paper) (c : UInt8) : Prop :=
  c = 0x0A ∨ c = 0x09 ∧ 76 ≤ p.col ∨ 0x20 ≤ c ∧ p.col = 79 → p.row + 2 < wordSize

/-- A backspace that goes back over the start of a row of the second turn of the ring or a later one finds there
the row it will be taken for. -/
def NoLostRow (p : Paper) (c : UInt8) : Prop :=
  c = 0x08 → p.col = 0 → historyLines ≤ p.row → ∀ j < vgaWidth, p.rows p.row j = p.rows (p.row - historyLines) j

theorem Copies.up {s : Screen} {p : Paper} (copies : Copies s p) (kept : NoLostRow p 0x08) (first : p.col = 0)
    (above : 0 < p.row) :
    Copies { s with absRow := s.absRow - 1, col := vgaWidth - 1 } { p with row := p.row - 1, col := vgaWidth - 1 } := by
  refine ⟨congrArg (· - 1) copies.row, rfl, copies.attr, Nat.lt_succ_self 79, ?_, ?_⟩
  · have below := copies.below
    change s.absRow - 1 + 1 < wordSize
    omega
  · intro r j low high inside
    simp only at low high ⊢
    rcases Nat.lt_or_ge (r + 511) p.row with lost | old
    · -- the oldest row of the new window is the one whose place the current row has taken
      have turn : historyLines ≤ p.row := by unfold historyLines; omega
      have here : r = p.row - historyLines := by unfold historyLines; omega
      have slot : r % historyLines = p.row % historyLines := by rw [here, ← Nat.mod_eq_sub_mod turn]
      rw [slot, copies.cells p.row j (Nat.le_add_right _ _) (.inl (Nat.le_refl _)) inside]
      rw [kept rfl first turn j inside, here]
    · exact copies.cells r j old (by omega) inside

theorem Copies.back {s : Screen} {p : Paper} (copies : Copies s p) (kept : NoLostRow p 0x08) :
    Copies (backspaced s) p.back := by
  have sameRow := copies.row
  have sameCol := copies.col
  have blank : vgaBlank p.attr = vgaBlank s.attr := by rw [copies.attr]
  unfold backspaced Paper.back
  rw [blank]
  rcases Nat.eq_zero_or_pos s.col with first | within
  · rw [if_neg (show ¬0 < s.col by omega), if_neg (show ¬0 < p.col by omega)]
    rcases Nat.eq_zero_or_pos s.absRow with top | above
    · rw [if_neg (show ¬0 < s.absRow by omega), if_neg (show ¬0 < p.row by omega)]
      exact copies
    · rw [if_pos above, if_pos (show 0 < p.row by omega)]
      exact (copies.up kept (by omega) (by omega)).store (vgaBlank s.attr)
  · rw [if_pos within, if_pos (show 0 < p.col by omega), show p.col - 1 = s.col - 1 by omega]
    exact (copies.move (Nat.lt_of_le_of_lt (Nat.sub_le s.col 1) copies.inside)).store (vgaBlank s.attr)

theorem Copies.typed {s : Screen} {p : Paper} {c : UInt8} (copies : Copies s p) (room : RowBelow p c)
    (kept : NoLostRow p c) : Copies (typed s c) (p.putc c) := by
  have inside : p.col < 80 := copies.col ▸ copies.inside
  unfold Mgcore.typed Paper.putc
  split_ifs with enter line back tab printed
  · exact copies.move (Nat.zero_lt_succ 79)
  · exact copies.newLine (room (.inl line))
  · exact copies.back (back ▸ kept)
  · rw [copies.col]
    exact copies.spaces (by omega) fun full => room (.inr (.inl ⟨tab, by omega⟩))
  · exact copies.write (fun last => room (.inr (.inr ⟨printed, last⟩))) c
  · exact copies

theorem viewportAfterOutput_sameText (s : Screen) : SameText s (viewportAfterOutput s) := by
  simp only [viewportAfterOutput, viewportClamp]
  split_ifs <;> exact ⟨rfl, rfl, rfl, rfl⟩

theorem Copies.step {s : Screen} {p : Paper} (copies : Copies s p) (c : UInt8) :
    ∃ u t, Copies u p ∧ consolePutc s c = some t ∧ SameText (Mgcore.typed u c) t := by
  obtain ⟨bytes, steps⟩ := consolePutc_eq copies.inside c
  refine ⟨serialWrite s bytes, _, copies.of_sameText ⟨rfl, rfl, rfl, rfl⟩, steps, ?_⟩
  have viewed := viewportAfterOutput_sameText (Mgcore.typed (serialWrite s bytes) c)
  exact ⟨viewed.history, viewed.absRow, viewed.col, viewed.attr⟩

theorem Copies.putc {s : Screen} {p : Paper} {c : UInt8} (copies : Copies s p) (room : RowBelow p c)
    (kept : NoLostRow p c) : ∃ t, consolePutc s c = some t ∧ Copies t (p.putc c) := by
  obtain ⟨u, t, before, steps, text⟩ := copies.step c
  exact ⟨t, steps, (before.typed room kept).of_sameText text⟩

theorem backspaced_up {s : Screen} (first : s.col = 0) (above : 0 < s.absRow) :
    (backspaced s).absRow = s.absRow - 1 ∧
      ∀ slot, slot ≠ (s.absRow - 1) % historyLines → (backspaced s).history slot = s.history slot := by
  rw [backspaced, if_neg (Nat.not_lt.mpr (Nat.le_of_eq first)), if_pos above]
  exact ⟨rfl, fun slot apart => update_of_ne apart ..⟩

theorem Paper.back_up {p : Paper} (first : p.col = 0) (above : 0 < p.row) {r : Nat} (other : r ≠ p.row - 1) :
    p.back.rows r = p.rows r := by
  rw [Paper.back, if_neg (Nat.not_lt.mpr (Nat.le_of_eq first)), if_pos above]
  exact update_of_ne other ..

theorem Copies.lost {s : Screen} {p : Paper} {c : UInt8} (copies : Copies s p) (lost : ¬NoLostRow p c) :
    ∃ t, consolePutc s c = some t ∧ ¬Agrees t (p.putc c) := by
  -- the view can show row `row - 512`, and the ring has the row just left in its place
  simp only [NoLostRow, not_forall] at lost
  obtain ⟨rfl, first, turn, j, inside, differ⟩ := lost
  obtain ⟨u, t, before, steps, text⟩ := copies.step 0x08
  refine ⟨t, steps, fun agrees => differ ?_⟩
  have turn' : 512 ≤ p.row := turn
  have bound := before.below
  have row := before.row
  obtain ⟨up, others⟩ := backspaced_up (before.col.trans first) (show 0 < u.absRow by omega)
  have reached : t.absRow = p.row - 1 := by rw [text.absRow, ← row]; exact up
  have oldest : historyMinAbsRow t = p.row - historyLines := by
    rw [historyMinAbsRow_eq (by omega), reached]
    unfold historyLines
    omega
  have slot : (p.row - historyLines) % historyLines = p.row % historyLines := (Nat.mod_eq_sub_mod turn).symm
  have apart : p.row % historyLines ≠ (u.absRow - 1) % historyLines := by
    rw [row]
    exact slots_apart (by omega) (by omega) (by omega)
  have shows := agrees (p.row - historyLines) (Nat.le_of_eq oldest) (by rw [reached]; unfold historyLines; omega) j inside
  have paper : (p.putc 0x08).rows (p.row - historyLines) = p.rows (p.row - historyLines) :=
    Paper.back_up first (by omega) (by unfold historyLines; omega)
  rw [slot, text.history, paper] at shows
  change (backspaced u).history _ j = _ at shows
  rw [others _ apart, before.cells p.row j (Nat.le_add_right _ _) (.inl (Nat.le_refl _)) inside] at shows
  exact shows

/-! ## Runs -/

theorem Screen.Cleared.copies {s : Screen} (cleared : s.Cleared) : Copies s (Paper.fresh 0x07) where
  row := cleared.absRow
  col := cleared.col
  attr := cleared.attr
  inside := by rw [cleared.col]; exact Nat.zero_lt_succ 79
  below := by rw [cleared.absRow]; decide
  cells := by
    intro r j _ _ inside
    rw [cleared.blank _ j (slot_lt r) inside, cleared.attr]
    rfl

/-- In a run that stays below the last row number, the ring shows the rows of the reference after every byte exactly if
every backspace over the start of a row from 512 on finds equal rows. -/
theorem scrollback_agrees_with_paper (s : Screen) (bytes : List UInt8)
    (room : Along (fun p c => some (Paper.putc p c)) RowBelow (Paper.fresh 0x07) bytes) :
    ∃ start, consoleClear s = some start ∧
      ((∀ before, before <+: bytes →
          ∃ t, run consolePutc start before = some t ∧ Agrees t (before.foldl Paper.putc (Paper.fresh 0x07))) ↔
        Along (fun p c => some (Paper.putc p c)) NoLostRow (Paper.fresh 0x07) bytes) := by
  obtain ⟨start, steps, cleared⟩ := consoleClear_cleared s
  have holds : ∀ s p, Copies s p → Agrees s p := fun _ _ copies => copies.agrees
  refine ⟨start, steps, simulated_prefixes_iff holds ?_ ?_ room cleared.copies⟩
  · intro s p c copies below kept
    exact copies.putc below kept
  · intro s p c copies _ lost
    exact copies.lost lost

theorem scrollback_agrees_with_paper_two_lines :
    ∃ start, consoleClear bootScreen = some start ∧
      ∀ before, before <+: [0x41, 0x0A, 0x08, 0x42] →
        ∃ t, run consolePutc start before = some t ∧ Agrees t (before.foldl Paper.putc (Paper.fresh 0x07)) := by
  obtain ⟨start, steps, agrees⟩ := scrollback_agrees_with_paper bootScreen [0x41, 0x0A, 0x08, 0x42] (by
    simp [Along, RowBelow, Paper.putc, Paper.write, Paper.newLine, Paper.back, Paper.setCell, Paper.fresh, vgaWidth,
      wordSize])
  refine ⟨start, steps, agrees.mpr ?_⟩
  simp [Along, NoLostRow, Paper.putc, Paper.write, Paper.newLine, Paper.back, Paper.setCell, Paper.fresh, vgaWidth,
    historyLines]

theorem Paper.newLines (p : Paper) (n : Nat) :
    let q := (List.replicate (n + 1) 0x0A).foldl Paper.putc p
    q.row = p.row + (n + 1) ∧ q.col = 0 ∧ (∀ r ≤ p.row, q.rows r = p.rows r) ∧ ∀ j, q.rows q.row j = vgaBlank p.attr := by
  induction n generalizing p with
  | zero =>
      refine ⟨rfl, rfl, fun r low => ?_, fun j => ?_⟩
      · exact update_of_ne (show r ≠ p.row + 1 by omega) ..
      · change update p.rows (p.row + 1) (fun _ => vgaBlank p.attr) (p.row + 1) j = _
        rw [update_self]
  | succ n ih =>
      obtain ⟨row, col, rows, blank⟩ := ih p.newLine
      refine ⟨row.trans (Nat.add_right_comm p.row 1 (n + 1)), col, fun r low => ?_, blank⟩
      exact (rows r (Nat.le_succ_of_le low)).trans (update_of_ne (show r ≠ p.row + 1 by omega) ..)

theorem along_newLines {p : Paper} {n : Nat} (room : p.row + n + 1 < wordSize) :
    Along (fun p c => some (Paper.putc p c)) RowBelow p (List.replicate n 0x0A) := by
  induction n generalizing p with
  | zero => trivial
  | succ n ih =>
      refine ⟨fun _ => by omega, fun q steps => ?_⟩
      cases steps
      have next : p.newLine.row = p.row + 1 := rfl
      exact ih (p := p.newLine) (by omega)

theorem Copies.run {s : Screen} {p : Paper} {bytes : List UInt8} (copies : Copies s p)
    (room : Along (fun p c => some (Paper.putc p c)) RowBelow p bytes)
    (kept : Along (fun p c => some (Paper.putc p c)) NoLostRow p bytes) :
    ∃ t, Lib.run consolePutc s bytes = some t ∧ Copies t (bytes.foldl Paper.putc p) := by
  induction bytes generalizing s p with
  | nil => exact ⟨s, rfl, copies⟩
  | cons c bytes ih =>
      obtain ⟨u, steps, after⟩ := copies.putc room.1 kept.1
      obtain ⟨t, reaches, last⟩ := ih after (room.2 _ rfl) (kept.2 _ rfl)
      exact ⟨t, by rw [run_cons, steps]; exact reaches, last⟩

theorem backspace_parts {n : Nat} (turn : n + 1 = historyLines) {s : Screen} (cleared : s.Cleared) :
    ∃ t, run consolePutc s (0x41 :: List.replicate (n + 1) 0x0A ++ [0x08]) = some t ∧
      ¬Agrees t (List.foldl Paper.putc (Paper.fresh 0x07) (0x41 :: List.replicate (n + 1) 0x0A ++ [0x08])) := by
  have room : Along (fun p c => some (Paper.putc p c)) RowBelow (Paper.fresh 0x07)
      (0x41 :: List.replicate (n + 1) 0x0A) := by
    refine ⟨fun _ => by decide, fun q same => ?_⟩
    cases same
    apply along_newLines
    rw [turn]
    decide
  have kept : Along (fun p c => some (Paper.putc p c)) NoLostRow (Paper.fresh 0x07)
      (0x41 :: List.replicate (n + 1) 0x0A) := by
    apply along_of_forall
    intro c member p back
    rcases List.mem_cons.mp member with rfl | member
    · exact absurd back (by decide)
    · cases List.eq_of_mem_replicate member
      exact absurd back (by decide)
  obtain ⟨u, reaches, copies⟩ := cleared.copies.run room kept
  obtain ⟨row, col, rows, blank⟩ := Paper.newLines ((Paper.fresh 0x07).putc 0x41) n
  replace row := row.trans (congrArg (((Paper.fresh 0x07).putc 0x41).row + ·) turn)
  have lost : ¬NoLostRow (List.foldl Paper.putc (Paper.fresh 0x07) (0x41 :: List.replicate (n + 1) 0x0A)) 0x08 := by
    intro equal
    have turned : historyLines ≤
        (List.foldl Paper.putc ((Paper.fresh 0x07).putc 0x41) (List.replicate (n + 1) 0x0A)).row := by
      rw [row]
      exact Nat.le_add_left historyLines _
    have first := equal rfl col turned 0 (Nat.zero_lt_succ 79)
    rw [List.foldl_cons, blank, row, Nat.add_sub_cancel, rows _ (Nat.le_refl _)] at first
    have different : vgaBlank 0x07 ≠ vgaCell 0x07 0x41 := by decide
    exact different first
  obtain ⟨t, last, parted⟩ := copies.lost lost
  refine ⟨t, ?_, ?_⟩
  · rw [run_append, reaches]
    exact (run_cons consolePutc u 0x08 []).trans (by rw [last]; rfl)
  · rw [List.foldl_append]
    exact parted

/-- A letter in row 0, 512 new lines and a backspace: the view can show row 0 again, whose place is blank now. -/
theorem backspace_shows_overwritten_row :
    ∃ start t, consoleClear bootScreen = some start ∧
      run consolePutc start (0x41 :: List.replicate 512 0x0A ++ [0x08]) = some t ∧
      ¬Agrees t (List.foldl Paper.putc (Paper.fresh 0x07) (0x41 :: List.replicate 512 0x0A ++ [0x08])) := by
  obtain ⟨start, steps, cleared⟩ := consoleClear_cleared bootScreen
  obtain ⟨t, reaches, parted⟩ := backspace_parts (n := 511) rfl cleared
  exact ⟨start, t, steps, reaches, parted⟩

end Mgcore
