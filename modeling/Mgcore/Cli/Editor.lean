import Mgcore.Cli.Shell
import Mgcore.Lib.Run
import Mathlib.Tactic.SplitIfs

/-!
# The line editor

The reference is a text with a cursor. `cli_run` keeps `g_line`, its length and the cursor in step with it, except that
the test for Backspace and DEL also asks for a line that is not empty: on an empty line both fall through to the insertion
at the end of the loop.
-/

namespace Mgcore
open Function

open Lib

/-! ## The reference -/

inductive Key
  | ignored | escape | enter | home | toEnd | left | right | clear | recall | delete
  | insert (b : UInt8)
  deriving DecidableEq

def keyOf (c : UInt8) : Key :=
  if c = 0x0D then .ignored
  else if c = inputKeyEsc then .escape
  else if c = 0x0A then .enter
  else if c = inputKeyCtrlC ∨ c = inputKeyCtrlN then .clear
  else if c = inputKeyCtrlA then .home
  else if c = inputKeyCtrlE then .toEnd
  else if c = inputKeyCtrlB then .left
  else if c = inputKeyCtrlF then .right
  else if c = inputKeyCtrlP then .recall
  else if c = 0x08 ∨ c = 0x7F then .delete
  else .insert c

structure Editor where
  text : List UInt8 := []
  cursor : Nat := 0
  pending : EscState := .none
  submitted : List (List UInt8) := []

-- What a history recall shows is not the editor's business; no run here has one.
def Editor.press (e : Editor) : Key → Editor
  | .ignored | .recall => e
  | .escape => { e with pending := .escape }
  | .enter => { e with text := [], cursor := 0, submitted := e.submitted ++ [e.text] }
  | .home => { e with cursor := 0 }
  | .toEnd => { e with cursor := e.text.length }
  | .left => { e with cursor := e.cursor - 1 }
  | .right => { e with cursor := if e.cursor < e.text.length then e.cursor + 1 else e.cursor }
  | .clear => { e with text := [], cursor := 0 }
  | .delete =>
      if e.cursor = 0 then e else { e with text := e.text.eraseIdx (e.cursor - 1), cursor := e.cursor - 1 }
  | .insert b =>
      if e.text.length < 127 then { e with text := e.text.insertIdx e.cursor b, cursor := e.cursor + 1 } else e

/-- The key that a byte stands for; after `ESC` there is none. -/
def Editor.key (e : Editor) (c : UInt8) : Option Key :=
  match e.pending with
  | .none => some (keyOf c)
  | .escape => none
  | .bracket =>
      some (if c = 0x41 then .recall else if c = 0x42 then .clear else if c = 0x43 then .right
        else if c = 0x44 then .left else keyOf c)

def Editor.step (e : Editor) (c : UInt8) : Editor :=
  match e.key c with
  | some key => { e with pending := .none }.press key
  | none =>
      if c = 0x5B then { e with pending := .bracket } else { e with text := [], cursor := 0, pending := .none }

def NoRecall (e : Editor) (c : UInt8) : Prop := e.key c ≠ some .recall

def NoEmptyDelete (e : Editor) (c : UInt8) : Prop := e.key c = some .delete → e.text ≠ []

/-! ## The relation -/

def Shell.text (s : Shell) : List UInt8 := (List.range s.length).map s.line

def Shows (s : Shell) (e : Editor) : Prop :=
  s.text = e.text ∧ s.cursor = e.cursor ∧ s.submitted = e.submitted

structure Edits (s : Shell) (e : Editor) : Prop where
  text : s.text = e.text
  cursor : s.cursor = e.cursor
  pending : s.escState = e.pending
  submitted : s.submitted = e.submitted
  within : s.cursor ≤ s.length
  short : s.length ≤ 127

theorem Edits.shows {s : Shell} {e : Editor} (edits : Edits s e) : Shows s e :=
  ⟨edits.text, edits.cursor, edits.submitted⟩

@[simp] theorem Shell.text_length (s : Shell) : s.text.length = s.length := by
  simp [Shell.text]

theorem Edits.length {s : Shell} {e : Editor} (edits : Edits s e) : e.text.length = s.length := by
  rw [← edits.text, Shell.text_length]

theorem edits_print {s : Shell} {e : Editor} (edits : Edits s e) (bytes : List UInt8) : Edits (s.print bytes) e :=
  ⟨edits.text, edits.cursor, edits.pending, edits.submitted, edits.within, edits.short⟩

theorem lineBytes_eq {n : Nat} (short : n ≤ 127) (line : Nat → UInt8) :
    lineBytes line n = some ((List.range n).map line) :=
  if_pos (Nat.le_succ_of_le short)

theorem lineStore_eq {i : Nat} (inside : i ≤ 127) (line : Nat → UInt8) (b : UInt8) :
    lineStore line i b = some (update line i b) :=
  if_pos (Nat.lt_succ_of_le inside)

theorem renderLine_edits {s : Shell} {e : Editor} (edits : Edits s e) : ∃ t, renderLine s = some t ∧ Edits t e := by
  have before : s.cursor ≤ 127 := Nat.le_trans edits.within edits.short
  rw [renderLine, lineBytes_eq edits.short, lineBytes_eq before]
  refine ⟨_, rfl, ?_⟩
  simp only [printPrompt]
  exact edits_print (edits_print (edits_print (edits_print (edits_print edits _) _) _) _) _

theorem clearLine_eq (s : Shell) : clearLine s = some { s with line := update s.line 0 0, length := 0, cursor := 0 } := by
  rw [clearLine, lineStore_eq (Nat.zero_le _)]
  rfl

/-! ## The shifting loops -/

theorem lineMove_eq {dst src : Nat} (target : dst ≤ 127) (source : src ≤ 127) (line : Nat → UInt8) :
    lineMove line dst src = some (update line dst (line src)) := by
  have inside : src < cliMaxLine := Nat.lt_succ_of_le source
  rw [lineMove, lineLoad, if_pos inside]
  exact lineStore_eq target line (line src)

theorem deleteLoop_eq {length cursor : Nat} (line : Nat → UInt8) (inside : 0 < cursor) (within : cursor ≤ length)
    (short : length ≤ 127) :
    (List.range (length - cursor)).foldlM (fun line k => lineMove line (cursor - 1 + k) (cursor - 1 + k + 1)) line =
      some fun i => if cursor - 1 ≤ i ∧ i + 1 < length then line (i + 1) else line i := by
  let state (n i : Nat) : UInt8 := if cursor - 1 ≤ i ∧ i + 1 < cursor + n then line (i + 1) else line i
  have start : state 0 = line := by
    funext i
    exact if_neg (by omega)
  have next (k : Nat) (less : k < length - cursor) :
      lineMove (state k) (cursor - 1 + k) (cursor - 1 + k + 1) = some (state (k + 1)) := by
    rw [lineMove_eq (by omega) (by omega)]
    congr 1
    funext i
    simp only [state, update_apply]
    split_ifs <;> first | omega | rfl | (congr 1; omega)
  have whole := foldlM_range_eq (fun line k => lineMove line (cursor - 1 + k) (cursor - 1 + k + 1)) state next
  rw [start] at whole
  rw [whole]
  simp only [state, Nat.add_sub_cancel' within]

theorem insertLoop_eq {length cursor : Nat} (line : Nat → UInt8) (within : cursor ≤ length) (short : length ≤ 127) :
    (List.range (length - cursor)).foldlM (fun line k => lineMove line (length - k) (length - k - 1)) line =
      some fun i => if cursor < i ∧ i ≤ length then line (i - 1) else line i := by
  let state (n i : Nat) : UInt8 := if length < i + n ∧ i ≤ length then line (i - 1) else line i
  have start : state 0 = line := by
    funext i
    exact if_neg (by omega)
  have next (k : Nat) (less : k < length - cursor) :
      lineMove (state k) (length - k) (length - k - 1) = some (state (k + 1)) := by
    rw [lineMove_eq (by omega) (by omega)]
    congr 1
    funext i
    simp only [state, update_apply]
    split_ifs <;> first | omega | rfl | (congr 1; omega)
  have whole := foldlM_range_eq (fun line k => lineMove line (length - k) (length - k - 1)) state next
  rw [start] at whole
  rw [whole]
  congr 1
  funext i
  exact if_congr (by omega) rfl rfl

/-! ## One key -/

theorem deleteBefore_eq {s : Shell} (inside : 0 < s.cursor) (within : s.cursor ≤ s.length) (short : s.length ≤ 127) :
    deleteBefore s = renderLine { s with
      line := update (fun i => if s.cursor - 1 ≤ i ∧ i + 1 < s.length then s.line (i + 1) else s.line i) (s.length - 1) 0
      length := s.length - 1
      cursor := s.cursor - 1 } := by
  rw [deleteBefore, if_neg (Nat.ne_of_gt inside), deleteLoop_eq s.line inside within short, Option.bind_eq_bind,
    Option.bind_some, lineStore_eq (by omega), Option.bind_some]

theorem insertByte_eq {s : Shell} (within : s.cursor ≤ s.length) (room : s.length + 1 < cliMaxLine) (b : UInt8) :
    insertByte s b = renderLine { s with
      line := update (update (fun i => if s.cursor < i ∧ i ≤ s.length then s.line (i - 1) else s.line i) s.cursor b)
        (s.length + 1) 0
      length := s.length + 1
      cursor := s.cursor + 1 } := by
  have short : s.length + 1 ≤ 127 := Nat.le_of_lt_succ room
  rw [insertByte, if_pos room, insertLoop_eq s.line within (Nat.le_of_succ_le short), Option.bind_eq_bind,
    Option.bind_some, lineStore_eq (by omega), Option.bind_some, lineStore_eq short, Option.bind_some]

theorem deleteBefore_edits {s : Shell} {e : Editor} (edits : Edits s e) :
    ∃ t, deleteBefore s = some t ∧ Edits t (e.press .delete) := by
  have within := edits.within
  have short := edits.short
  have place := edits.cursor
  by_cases first : s.cursor = 0
  · refine ⟨s, if_pos first, ?_⟩
    rw [Editor.press, if_pos (by omega)]
    exact edits
  · rw [deleteBefore_eq (by omega) within short, Editor.press, if_neg (by omega)]
    apply renderLine_edits
    refine ⟨?_, by simp only [place], edits.pending, edits.submitted, by simp only; omega, by simp only; omega⟩
    simp only [← edits.text, ← place]
    apply List.ext_getElem
    · rw [Shell.text_length, List.length_eraseIdx_of_lt (by rw [Shell.text_length]; omega), Shell.text_length]
    · intro i less _
      rw [Shell.text_length] at less
      simp only at less
      simp only [Shell.text, List.getElem_eraseIdx, List.getElem_map, List.getElem_range]
      rw [update_of_ne (by omega)]
      split_ifs <;> first | omega | rfl

theorem insertByte_edits {s : Shell} {e : Editor} (edits : Edits s e) (b : UInt8) :
    ∃ t, insertByte s b = some t ∧ Edits t (e.press (.insert b)) := by
  have within := edits.within
  have place := edits.cursor
  have length := edits.length
  by_cases room : s.length + 1 < cliMaxLine
  · have room' : s.length + 1 < 128 := room
    rw [insertByte_eq within room, Editor.press, if_pos (by omega)]
    apply renderLine_edits
    refine ⟨?_, by simp only [place], edits.pending, edits.submitted, by simp only; omega, by simp only; omega⟩
    simp only [← edits.text, ← place]
    apply List.ext_getElem
    · rw [Shell.text_length, List.length_insertIdx_of_le_length (by rw [Shell.text_length]; omega), Shell.text_length]
    · intro i less _
      rw [Shell.text_length] at less
      simp only at less
      simp only [Shell.text, List.getElem_insertIdx, List.getElem_map, List.getElem_range]
      rw [update_of_ne (by omega), update_apply]
      split_ifs <;> first | omega | rfl
  · have room' : ¬s.length + 1 < 128 := room
    refine ⟨s, if_neg room, ?_⟩
    rw [Editor.press, if_neg (by omega)]
    exact edits

theorem edits_clear {s : Shell} {e : Editor} (edits : Edits s e) (line : Nat → UInt8) :
    Edits { s with line, length := 0, cursor := 0 } { e with text := [], cursor := 0 } :=
  ⟨rfl, rfl, edits.pending, edits.submitted, Nat.le_refl 0, Nat.zero_le _⟩

/-- The history behind an Enter: a copy of what the command has left of the line, or the history as it was. -/
def keptLine (s : Shell) (line : Nat → UInt8) : Nat → UInt8 :=
  if 0 < s.length then update (kstrncpy s.lastLine line (cliMaxLine - 1)) (cliMaxLine - 1) 0 else s.lastLine

theorem rememberLine_eq (s : Shell) :
    rememberLine s = some { s with lastLine := keptLine s s.line, hasLastLine := decide (0 < s.length) || s.hasLastLine } := by
  unfold rememberLine keptLine
  by_cases nonempty : 0 < s.length
  · simp only [nonempty, if_true, lineStore_eq (show cliMaxLine - 1 ≤ 127 from Nat.le_refl 127)]
    rfl
  · simp only [nonempty, if_false]
    rfl

theorem submitLine_eq (dispatch : (Nat → UInt8) → Nat → UInt8) {s : Shell} (short : s.length ≤ 127) :
    submitLine dispatch s = some (printPrompt (Shell.print { s with
      line := update (dispatch (update s.line s.length 0)) 0 0
      lastLine := keptLine s (dispatch (update s.line s.length 0))
      hasLastLine := decide (0 < s.length) || s.hasLastLine
      length := 0
      cursor := 0
      submitted := s.submitted ++ [s.text] } [0x0A])) := by
  have ended : (List.range s.length).map (update s.line s.length 0) = s.text := by
    rw [Shell.text]
    apply List.map_congr_left
    intro i member
    exact update_of_ne (Nat.ne_of_lt (List.mem_range.mp member)) ..
  rw [submitLine, lineStore_eq short]
  simp only [Option.bind_eq_bind, Option.bind_some, lineBytes_eq short, ended, rememberLine_eq, clearLine_eq]
  rfl

theorem submitLine_edits (dispatch : (Nat → UInt8) → Nat → UInt8) {s : Shell} {e : Editor} (edits : Edits s e) :
    ∃ t, submitLine dispatch s = some t ∧ Edits t (e.press .enter) := by
  rw [submitLine_eq dispatch edits.short, edits.text]
  refine ⟨_, rfl, edits_print (edits_print ?_ _) _⟩
  exact ⟨rfl, rfl, edits.pending, congrArg (· ++ [e.text]) edits.submitted, Nat.le_refl 0, Nat.zero_le _⟩

theorem edits_move {s : Shell} {e : Editor} (edits : Edits s e) {cursor : Nat} (within : cursor ≤ s.length) :
    Edits { s with cursor } { e with cursor } :=
  ⟨edits.text, rfl, edits.pending, edits.submitted, within, edits.short⟩

section
variable {s : Shell} {e : Editor} (edits : Edits s e)
include edits

theorem toEnd_edits : ∃ t, renderLine { s with cursor := s.length } = some t ∧ Edits t (e.press .toEnd) := by
  have moved := edits_move edits (Nat.le_refl s.length)
  rw [← edits.length] at moved ⊢
  exact renderLine_edits moved

theorem left_edits :
    ∃ t, (if 0 < s.cursor then renderLine { s with cursor := s.cursor - 1 } else some s) = some t ∧
      Edits t (e.press .left) := by
  have place := edits.cursor
  have within := edits.within
  rw [place]
  split_ifs with inside
  · exact renderLine_edits (edits_move edits (show e.cursor - 1 ≤ s.length by omega))
  · have still : s.cursor = e.cursor - 1 := by omega
    exact ⟨s, rfl, edits.text, still, edits.pending, edits.submitted, edits.within, edits.short⟩

theorem right_edits :
    ∃ t, (if s.cursor < s.length then renderLine { s with cursor := s.cursor + 1 } else some s) = some t ∧
      Edits t (e.press .right) := by
  change ∃ t, _ ∧ Edits t { e with cursor := if e.cursor < e.text.length then e.cursor + 1 else e.cursor }
  rw [edits.length, edits.cursor]
  split_ifs with inside
  · exact renderLine_edits (edits_move edits inside)
  · exact ⟨s, rfl, edits⟩

end

theorem cliKey_edits (dispatch : (Nat → UInt8) → Nat → UInt8) {s : Shell} {e : Editor} {c : UInt8} (edits : Edits s e)
    (noRecall : keyOf c ≠ .recall) (noEmptyDelete : keyOf c = .delete → e.text ≠ []) :
    ∃ t, cliKey dispatch s c = some t ∧ Edits t (e.press (keyOf c)) := by
  unfold cliKey
  by_cases ret : c = 0x0D
  · rw [if_pos ret]
    subst ret
    exact ⟨s, rfl, edits⟩
  rw [if_neg ret]
  by_cases esc : c = inputKeyEsc
  · rw [if_pos esc]
    subst esc
    exact ⟨_, rfl, edits.text, edits.cursor, rfl, edits.submitted, edits.within, edits.short⟩
  rw [if_neg esc]
  by_cases enter : c = 0x0A
  · rw [if_pos enter]
    subst enter
    exact submitLine_edits dispatch edits
  rw [if_neg enter]
  by_cases ctrlC : c = inputKeyCtrlC
  · rw [if_pos ctrlC, clearLine_eq]
    subst ctrlC
    exact ⟨_, rfl, edits_print (edits_clear (edits_print edits _) _) _⟩
  rw [if_neg ctrlC]
  by_cases ctrlA : c = inputKeyCtrlA
  · rw [if_pos ctrlA]
    subst ctrlA
    exact renderLine_edits (edits_move edits (Nat.zero_le _))
  rw [if_neg ctrlA]
  by_cases ctrlE : c = inputKeyCtrlE
  · rw [if_pos ctrlE]
    subst ctrlE
    exact toEnd_edits edits
  rw [if_neg ctrlE]
  by_cases ctrlB : c = inputKeyCtrlB
  · rw [if_pos ctrlB]
    subst ctrlB
    exact left_edits edits
  rw [if_neg ctrlB]
  by_cases ctrlF : c = inputKeyCtrlF
  · rw [if_pos ctrlF]
    subst ctrlF
    exact right_edits edits
  rw [if_neg ctrlF]
  have notRecall : c ≠ inputKeyCtrlP := by
    rintro rfl
    exact noRecall rfl
  rw [if_neg notRecall]
  by_cases ctrlN : c = inputKeyCtrlN
  · rw [if_pos ctrlN, clearLine_eq]
    subst ctrlN
    exact renderLine_edits (edits_clear edits _)
  rw [if_neg ctrlN]
  by_cases delete : c = 0x08 ∨ c = 0x7F
  · have key : keyOf c = .delete := by rcases delete with rfl | rfl <;> rfl
    have nonempty : 0 < s.length := by
      rw [← edits.length]
      exact List.length_pos_iff.mpr (noEmptyDelete key)
    rw [if_pos ⟨delete, nonempty⟩, key]
    exact deleteBefore_edits edits
  · have key : keyOf c = .insert c := by
      simp [keyOf, ret, esc, enter, ctrlC, ctrlN, ctrlA, ctrlE, ctrlB, ctrlF, notRecall, delete]
    rw [if_neg fun both => delete both.1, key]
    exact insertByte_edits edits c

theorem keyOf_arrowKey (c : UInt8) :
    keyOf (arrowKey c) =
      if c = 0x41 then .recall else if c = 0x42 then .clear else if c = 0x43 then .right
      else if c = 0x44 then .left else keyOf c := by
  unfold arrowKey
  split_ifs <;> rfl

theorem Editor.key_none {e : Editor} (plain : e.pending = .none) (c : UInt8) : e.key c = some (keyOf c) := by
  rw [Editor.key, plain]

theorem Editor.key_bracket {e : Editor} (bracket : e.pending = .bracket) (c : UInt8) :
    e.key c = some (keyOf (arrowKey c)) := by
  rw [Editor.key, bracket, keyOf_arrowKey]

theorem Editor.key_escape {e : Editor} (escape : e.pending = .escape) (c : UInt8) : e.key c = none := by
  rw [Editor.key, escape]

theorem edits_plain {s : Shell} {e : Editor} (edits : Edits s e) :
    Edits { s with escState := .none } { e with pending := .none } :=
  ⟨edits.text, edits.cursor, rfl, edits.submitted, edits.within, edits.short⟩

theorem cliStep_edits (dispatch : (Nat → UInt8) → Nat → UInt8) {s : Shell} {e : Editor} {c : UInt8} (edits : Edits s e)
    (noRecall : NoRecall e c) (noEmptyDelete : NoEmptyDelete e c) :
    ∃ t, cliStep dispatch s c = some t ∧ Edits t (e.step c) := by
  have same := edits.pending
  unfold NoRecall at noRecall
  unfold NoEmptyDelete at noEmptyDelete
  unfold cliStep Editor.step
  cases state : e.pending with
  | none =>
      rw [Editor.key_none state, Option.some.injEq] at noEmptyDelete
      rw [Editor.key_none state, ne_eq, Option.some.injEq] at noRecall
      have plain : Edits s { e with pending := .none } :=
        ⟨edits.text, edits.cursor, same.trans state, edits.submitted, edits.within, edits.short⟩
      rw [same, state, Editor.key_none state]
      exact cliKey_edits dispatch plain noRecall noEmptyDelete
  | escape =>
      rw [same, state, Editor.key_escape state]
      by_cases bracket : c = 0x5B
      · simp only [if_pos bracket]
        exact ⟨_, rfl, edits.text, edits.cursor, rfl, edits.submitted, edits.within, edits.short⟩
      · simp only [if_neg bracket, clearLine_eq]
        obtain ⟨t, steps, after⟩ := renderLine_edits (edits_clear edits (update s.line 0 0))
        exact ⟨{ t with escState := .none }, by simp only [Option.bind_eq_bind, Option.bind_some, steps], edits_plain after⟩
  | bracket =>
      rw [Editor.key_bracket state, Option.some.injEq] at noEmptyDelete
      rw [Editor.key_bracket state, ne_eq, Option.some.injEq] at noRecall
      rw [same, state, Editor.key_bracket state]
      exact cliKey_edits dispatch (edits_plain edits) noRecall noEmptyDelete

theorem cliKey_emptyDelete (dispatch : (Nat → UInt8) → Nat → UInt8) {s : Shell} {e : Editor} {c : UInt8}
    (edits : Edits s e) (key : keyOf c = .delete) (empty : e.text = []) :
    ∃ t, cliKey dispatch s c = some t ∧ t.text = [c] := by
  have length := edits.length
  rw [empty] at length
  have skip {p : Prop} [Decidable p] {a b : Key} (found : (if p then a else b) = .delete) (other : a ≠ .delete) :
      b = .delete := by
    split_ifs at found
    · exact absurd found other
    · exact found
  have delete : c = 0x08 ∨ c = 0x7F := by
    by_contra other
    unfold keyOf at key
    -- nine kinds of keys come before the deletion
    iterate 9 replace key := skip key (by simp)
    rw [if_neg other] at key
    cases key
  have insert : cliKey dispatch s c = insertByte s c := by
    rcases delete with rfl | rfl
    all_goals simp [cliKey, inputKeyEsc, inputKeyCtrlA, inputKeyCtrlB, inputKeyCtrlC, inputKeyCtrlE, inputKeyCtrlF,
      inputKeyCtrlN, inputKeyCtrlP, ← length]
  obtain ⟨t, steps, after⟩ := insertByte_edits edits c
  refine ⟨t, insert.trans steps, ?_⟩
  have start : e.cursor = 0 := by
    have := edits.within
    have := edits.cursor
    have := List.length_nil (α := UInt8)
    omega
  rw [after.text, Editor.press, if_pos (by rw [empty]; decide), start, empty]
  rfl

theorem cliStep_emptyDelete (dispatch : (Nat → UInt8) → Nat → UInt8) {s : Shell} {e : Editor} {c : UInt8}
    (edits : Edits s e) (broken : ¬NoEmptyDelete e c) : ∃ t, cliStep dispatch s c = some t ∧ ¬Shows t (e.step c) := by
  have same := edits.pending
  simp only [NoEmptyDelete, not_forall, ne_eq, not_not] at broken
  obtain ⟨key, empty⟩ := broken
  have still : (e.step c).text = [] := by
    rw [Editor.step, key]
    simp only [Editor.press]
    split_ifs
    · exact empty
    · simp [empty]
  have parts {t : Shell} {b : UInt8} (inserted : t.text = [b]) : ¬Shows t (e.step c) := by
    intro shows
    rw [Shows, still, inserted] at shows
    exact List.cons_ne_nil _ _ shows.1
  cases state : e.pending with
  | none =>
      rw [Editor.key_none state, Option.some.injEq] at key
      obtain ⟨t, steps, inserted⟩ := cliKey_emptyDelete dispatch edits key empty
      exact ⟨t, by rw [cliStep, same, state]; exact steps, parts inserted⟩
  | escape => rw [Editor.key_escape state] at key; cases key
  | bracket =>
      rw [Editor.key_bracket state, Option.some.injEq] at key
      obtain ⟨t, steps, inserted⟩ := cliKey_emptyDelete dispatch (edits_plain edits) key empty
      exact ⟨t, by rw [cliStep, same, state]; exact steps, parts inserted⟩

/-! ## Runs -/

theorem cliStart_edits (line lastLine : Nat → UInt8) (hasLastLine : Bool) :
    Edits (cliStart line lastLine hasLastLine) {} :=
  ⟨rfl, rfl, rfl, rfl, Nat.le_refl 0, Nat.zero_le _⟩

/-- Whatever a command leaves in the line buffer: in a stream without a recall the editor has the text and the cursor of the
reference after every byte exactly if no Backspace or DEL comes on an empty line. -/
theorem line_editor_follows_reference (dispatch : (Nat → UInt8) → Nat → UInt8) (line lastLine : Nat → UInt8)
    (hasLastLine : Bool) (bytes : List UInt8)
    (noRecall : Along (fun e c => some (Editor.step e c)) NoRecall {} bytes) :
    (∀ before, before <+: bytes →
        ∃ s, run (cliStep dispatch) (cliStart line lastLine hasLastLine) before = some s ∧
          Shows s (before.foldl Editor.step {})) ↔
      Along (fun e c => some (Editor.step e c)) NoEmptyDelete {} bytes := by
  have holds : ∀ s e, Edits s e → Shows s e := fun _ _ edits => edits.shows
  refine simulated_prefixes_iff holds ?_ ?_ noRecall (cliStart_edits line lastLine hasLastLine)
  · intro s e c edits plain nonempty
    exact cliStep_edits dispatch edits plain nonempty
  · intro s e c edits _ broken
    exact cliStep_emptyDelete dispatch edits broken

instance (e : Editor) (c : UInt8) : Decidable (NoRecall e c) := inferInstanceAs (Decidable (_ ≠ _))

instance (e : Editor) (c : UInt8) : Decidable (NoEmptyDelete e c) := inferInstanceAs (Decidable (_ → _))

-- "ab", Home, DEL, cursor right, Backspace, "c", Enter
theorem line_editor_follows_reference_short_line :
    Along (fun e c => some (Editor.step e c)) NoRecall {} [0x61, 0x62, 0x01, 0x7F, 0x1B, 0x5B, 0x43, 0x08, 0x63, 0x0A] ∧
      ∀ before, before <+: [0x61, 0x62, 0x01, 0x7F, 0x1B, 0x5B, 0x43, 0x08, 0x63, 0x0A] →
        ∃ s, run (cliStep id) (cliStart (fun _ => 0xFF) (fun _ => 0) false) before = some s ∧
          Shows s (before.foldl Editor.step {}) := by
  have plain : Along (fun e c => some (Editor.step e c)) NoRecall {}
      [0x61, 0x62, 0x01, 0x7F, 0x1B, 0x5B, 0x43, 0x08, 0x63, 0x0A] := by decide
  exact ⟨plain, (line_editor_follows_reference id (fun _ => 0xFF) (fun _ => 0) false _ plain).mpr (by decide)⟩

theorem backspace_on_empty_line_inserts :
    ∃ s, run (cliStep id) (cliStart (fun _ => 0) (fun _ => 0) false) [0x08] = some s ∧ s.text = [0x08] ∧
      s.cursor = 1 ∧ (List.foldl Editor.step {} [0x08]).text = [] :=
  ⟨_, rfl, by decide, rfl, by decide⟩

end Mgcore
