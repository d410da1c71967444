import Mgcore.Cli.Editor

/-!
# The line editor inside its buffer

Every byte, the recall of the last line included, keeps the cursor inside the line and the line with its NUL inside the
128 bytes of `g_line`. The editor's two loops are written here as they stand in `cli_run`, with `size_t` indices; inside
these bounds they end after as many rounds as there are characters behind the cursor.
-/

namespace Mgcore
open Function Lib

/-! ## The shifting loops -/

/-- `for (; i + 1 < length; ++i) g_line[i] = g_line[i + 1];` -/
def deleteLoop (length fuel i : Nat) (line : Nat → UInt8) : Option (Nat → UInt8) :=
  if (i + 1) % wordSize < length then
    match fuel with
    | 0 => none
    | fuel + 1 => (lineMove line i ((i + 1) % wordSize)).bind (deleteLoop length fuel ((i + 1) % wordSize))
  else some line

/-- `for (; i > cursor; --i) g_line[i] = g_line[i - 1];` -/
def insertLoop (cursor fuel i : Nat) (line : Nat → UInt8) : Option (Nat → UInt8) :=
  if cursor < i then
    match fuel with
    | 0 => none
    | fuel + 1 => (lineMove line i (i - 1)).bind (insertLoop cursor fuel (i - 1))
  else some line

theorem deleteLoop_fold {length fuel i n : Nat} (rounds : i + 1 + n = length) (short : length ≤ 127) (enough : n ≤ fuel)
    (line : Nat → UInt8) :
    deleteLoop length fuel i line = (List.range n).foldlM (fun line k => lineMove line (i + k) (i + k + 1)) line := by
  have word : (i + 1) % wordSize = i + 1 := Nat.mod_eq_of_lt (by unfold wordSize; omega)
  induction n generalizing fuel i line with
  | zero =>
      rw [deleteLoop.eq_def, word, if_neg (by omega)]
      rfl
  | succ n ih =>
      obtain ⟨fuel, rfl⟩ := Nat.exists_eq_add_of_le' (Nat.le_of_add_left_le enough)
      rw [deleteLoop, word, if_pos (by omega), List.range_succ_eq_map, List.foldlM_cons]
      simp only [List.foldlM_map]
      congr 1
      funext moved
      rw [ih (by omega) (by omega) moved (Nat.mod_eq_of_lt (by unfold wordSize; omega))]
      congr 1
      funext line k
      congr 1 <;> simp only [Nat.succ_eq_add_one] <;> omega

theorem insertLoop_fold {cursor fuel i n : Nat} (rounds : cursor + n = i) (enough : n ≤ fuel) (line : Nat → UInt8) :
    insertLoop cursor fuel i line = (List.range n).foldlM (fun line k => lineMove line (i - k) (i - k - 1)) line := by
  induction n generalizing fuel i line with
  | zero =>
      rw [insertLoop.eq_def, if_neg (by omega)]
      rfl
  | succ n ih =>
      obtain ⟨fuel, rfl⟩ := Nat.exists_eq_add_of_le' (Nat.le_of_add_left_le enough)
      rw [insertLoop, if_pos (by omega), List.range_succ_eq_map, List.foldlM_cons]
      simp only [List.foldlM_map]
      congr 1
      funext moved
      rw [ih (by omega) (by omega) moved]
      congr 1
      funext line k
      congr 1 <;> simp only [Nat.succ_eq_add_one] <;> omega

/-! ## The invariant -/

structure EditorInv (s : Shell) : Prop where
  within : s.cursor ≤ s.length
  short : s.length ≤ 127
  terminated : s.line s.length = 0
  history : ∃ i < cliMaxLine, s.lastLine i = 0

theorem ended_line (line : Nat → UInt8) (i : Nat) : update line i 0 i = 0 := update_self i 0 line

/-- The step returns, and leaves the editor inside its buffer. -/
def Stays (result : Option Shell) : Prop := ∃ t, result = some t ∧ EditorInv t

theorem Stays.some {s : Shell} (inv : EditorInv s) : Stays (Option.some s) := ⟨s, rfl, inv⟩

theorem Stays.bind {result : Option Shell} {next : Shell → Option Shell} (stays : Stays result)
    (goesOn : ∀ t, EditorInv t → Stays (next t)) : Stays (result.bind next) := by
  obtain ⟨t, rfl, inv⟩ := stays
  exact goesOn t inv

theorem Stays.ite {p : Prop} [Decidable p] {yes no : Option Shell} (left : p → Stays yes) (right : Stays no) :
    Stays (if p then yes else no) := by
  split_ifs with holds
  · exact left holds
  · exact right

namespace EditorInv
variable {s : Shell}

theorem print (inv : EditorInv s) (bytes : List UInt8) : EditorInv (s.print bytes) :=
  ⟨inv.within, inv.short, inv.terminated, inv.history⟩

theorem pending (inv : EditorInv s) (escState : EscState) : EditorInv { s with escState } :=
  ⟨inv.within, inv.short, inv.terminated, inv.history⟩

theorem move (inv : EditorInv s) {cursor : Nat} (within : cursor ≤ s.length) : EditorInv { s with cursor } :=
  ⟨within, inv.short, inv.terminated, inv.history⟩

theorem render (inv : EditorInv s) : Stays (renderLine s) := by
  rw [renderLine, lineBytes_eq inv.short, lineBytes_eq (Nat.le_trans inv.within inv.short)]
  refine ⟨_, rfl, ?_⟩
  simp only [printPrompt]
  exact ((((inv.print _).print _).print _).print _).print _

theorem clear (inv : EditorInv s) : Stays (clearLine s) := by
  rw [clearLine_eq]
  exact .some ⟨Nat.le_refl 0, Nat.zero_le _, ended_line s.line 0, inv.history⟩

theorem delete (inv : EditorInv s) : Stays (deleteBefore s) := by
  have within := inv.within
  have short := inv.short
  by_cases first : s.cursor = 0
  · rw [deleteBefore, if_pos first]
    exact .some inv
  · rw [deleteBefore_eq (by omega) within short]
    refine render ⟨Nat.sub_le_sub_right within 1, show s.length - 1 ≤ 127 by omega, ?_, inv.history⟩
    dsimp only
    exact ended_line _ _

theorem insert (inv : EditorInv s) (c : UInt8) : Stays (insertByte s c) := by
  by_cases room : s.length + 1 < cliMaxLine
  · rw [insertByte_eq inv.within room]
    refine render ⟨Nat.succ_le_succ inv.within, Nat.le_of_lt_succ room, ?_, inv.history⟩
    exact ended_line _ _
  · rw [insertByte, if_neg room]
    exact .some inv

/-- The line that a command leaves need not have a NUL; the copy of it does. -/
theorem kept (inv : EditorInv s) (line : Nat → UInt8) : ∃ i < cliMaxLine, keptLine s line i = 0 := by
  unfold keptLine
  split_ifs with nonempty
  · exact ⟨cliMaxLine - 1, by decide, ended_line _ (cliMaxLine - 1)⟩
  · exact inv.history

theorem submit (inv : EditorInv s) (dispatch : (Nat → UInt8) → Nat → UInt8) : Stays (submitLine dispatch s) := by
  rw [submitLine_eq dispatch inv.short]
  apply Stays.some
  apply print
  apply print
  let line := dispatch (update s.line s.length 0)
  exact ⟨Nat.le_refl 0, Nat.zero_le _, ended_line line 0, inv.kept line⟩

theorem recalls (inv : EditorInv s) : Stays (recallLine s) := by
  rw [recallLine]
  split_ifs with remembered
  · rw [lineStore_eq (show cliMaxLine - 1 ≤ 127 from Nat.le_refl 127), Option.bind_eq_bind, Option.bind_some]
    let line := update (kstrncpy s.line s.lastLine (cliMaxLine - 1)) (cliMaxLine - 1) 0
    have ended : line (cliMaxLine - 1) = 0 := ended_line _ _
    obtain ⟨length, found⟩ : ∃ length, kstrlen line = some length := by
      apply Option.isSome_iff_exists.mp
      rw [kstrlen, List.find?_isSome]
      exact ⟨cliMaxLine - 1, List.mem_range.mpr (by decide), decide_eq_true ended⟩
    have zero := List.find?_some found
    have inside := List.mem_range.mp (List.mem_of_find?_eq_some found)
    rw [found, Option.bind_eq_bind, Option.bind_some]
    exact render ⟨Nat.le_refl length, Nat.le_of_lt_succ inside, of_decide_eq_true zero, inv.history⟩
  · exact .some inv

theorem key (inv : EditorInv s) (dispatch : (Nat → UInt8) → Nat → UInt8) (c : UInt8) : Stays (cliKey dispatch s c) := by
  have within := inv.within
  unfold cliKey
  refine .ite (fun _ => .some inv) ?_
  refine .ite (fun _ => .some (inv.pending _)) ?_
  refine .ite (fun _ => inv.submit dispatch) ?_
  refine .ite (fun _ => (inv.print _).clear.bind fun t after => .some (after.print _)) ?_
  refine .ite (fun _ => (inv.move (Nat.zero_le _)).render) ?_
  refine .ite (fun _ => (inv.move (Nat.le_refl _)).render) ?_
  refine .ite (fun _ => .ite (fun _ => (inv.move (by omega)).render) (.some inv)) ?_
  refine .ite (fun _ => .ite (fun room => (inv.move room).render) (.some inv)) ?_
  refine .ite (fun _ => inv.recalls) ?_
  refine .ite (fun _ => inv.clear.bind fun t after => after.render) ?_
  exact .ite (fun _ => inv.delete) (inv.insert c)

theorem step (inv : EditorInv s) (dispatch : (Nat → UInt8) → Nat → UInt8) (c : UInt8) : Stays (cliStep dispatch s c) := by
  unfold cliStep
  split
  · split_ifs
    · exact .some (inv.pending _)
    · exact inv.clear.bind fun t after => after.render.bind fun u drawn => .some (drawn.pending _)
  · exact (inv.pending _).key dispatch (arrowKey c)
  · exact inv.key dispatch c

end EditorInv

/-! ## Runs -/

/-- Inside the bounds, with the loops that the next byte may start ending within 127 rounds. -/
structure EditorSafe (s : Shell) : Prop extends EditorInv s where
  deletes : 0 < s.cursor → ∃ line, deleteLoop s.length 127 (s.cursor - 1) s.line = some line
  inserts : ∃ line, insertLoop s.cursor 127 s.length s.line = some line

theorem EditorInv.safe {s : Shell} (inv : EditorInv s) : EditorSafe s := by
  have within := inv.within
  have short := inv.short
  refine ⟨inv, fun inside => ?_, ?_⟩
  · have rounds : s.cursor - 1 + 1 + (s.length - s.cursor) = s.length := by omega
    rw [deleteLoop_fold rounds short (by omega), deleteLoop_eq s.line inside within short]
    exact ⟨_, rfl⟩
  · rw [insertLoop_fold (Nat.add_sub_cancel' within) (by omega), insertLoop_eq s.line within short]
    exact ⟨_, rfl⟩

/-- The shell as `cli_run` finds it at boot. -/
def cliBoot : Shell := cliStart (fun _ => 0) (fun _ => 0) false

theorem EditorInv.boot : EditorInv cliBoot := ⟨Nat.le_refl 0, Nat.zero_le _, rfl, 0, by decide, rfl⟩

theorem EditorInv.run (dispatch : (Nat → UInt8) → Nat → UInt8) {s : Shell} (inv : EditorInv s) (bytes : List UInt8) :
    ∃ t, Lib.run (cliStep dispatch) s bytes = some t ∧ EditorInv t :=
  run_isSome (fun _ c inv _ => inv.step dispatch c) (fun _ _ => trivial) inv

/-- Whatever is typed and whatever the commands leave in the line: no access leaves the buffer, and every iteration finds
the editor inside its bounds. -/
theorem line_editor_stays_inside (dispatch : (Nat → UInt8) → Nat → UInt8) (bytes : List UInt8) :
    ∃ s, Lib.run (cliStep dispatch) cliBoot bytes = some s ∧ EditorSafe s := by
  obtain ⟨s, reaches, inv⟩ := EditorInv.boot.run dispatch bytes
  exact ⟨s, reaches, inv.safe⟩

end Mgcore
