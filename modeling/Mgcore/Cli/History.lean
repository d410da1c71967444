import Mgcore.Cli.Bounds
import Mgcore.Cli.Dispatch
import Mathlib.Data.List.GetD
import Mathlib.Data.List.TakeWhile

/-!
# The recalled line

`cli_run` hands `g_line` to `dispatch_line` and only then copies it to `g_last_line`. By that time the line is split: the
blank behind its first word has become a NUL, and the copy ends there. A command that stops the machine does not return, and
no key is read behind it.
-/

namespace Mgcore
open Function Lib

/-- `cmd_shutdown` and `cmd_reboot` stop the machine, and so does `cmd_mgctl` for two of its arguments. -/
def commandReturns : List (List UInt8) → Bool
  | [] => true
  | name :: arguments =>
      if name = ascii "shutdown" ∨ name = ascii "reboot" then false
      else if name = ascii "mgctl" ∧ arguments[0]? = some (ascii "power") then
        arguments[1]? ≠ some (ascii "shutdown") ∧ arguments[1]? ≠ some (ascii "reboot")
      else true

/-- What `dispatch_line` leaves in `g_line`; `none` is a command that does not return. -/
def dispatched (line : Nat → UInt8) : Option (Nat → UInt8) := do
  let (called, left) ← dispatchLine cliMaxLine line
  match called with
  | .command _ argv => if commandReturns (argumentTexts cliMaxLine left argv) then some left else none
  | _ => some left

/-- `cliStep` with the commands of the monitor: a command that does not return ends the run. -/
def shellStep (s : Shell) (c : UInt8) : Option Shell :=
  if c = 0x0A ∧ s.escState ≠ .escape then do
    let line ← lineStore s.line s.length 0
    let left ← dispatched line
    cliStep (fun _ => left) s c
  else cliStep (fun line => line) s c

/-! ## Copies -/

theorem HoldsText.getD {src : Nat → UInt8} {text : List UInt8} (holds : HoldsText src text) {i : Nat}
    (inside : i ≤ text.length) : src i = text.getD i 0 := by
  rw [List.getD_eq_getElem?_getD]
  cases found : text[i]? with
  | some c => exact holds.bytes i c found
  | none =>
      have last := Nat.le_antisymm inside (List.getElem?_eq_none_iff.mp found)
      rw [last]
      exact holds.terminated

theorem HoldsText.zero_iff {src : Nat → UInt8} {text : List UInt8} (holds : HoldsText src text) {i : Nat}
    (inside : i ≤ text.length) : src i = 0 ↔ text.length < i + 1 := by
  constructor
  · intro zero
    by_contra before
    have found := List.getElem?_eq_getElem (show i < text.length by omega)
    have same := holds.bytes i _ found
    rw [zero] at same
    exact holds.plain (same ▸ List.getElem_mem _)
  · intro last
    rw [show i = text.length by omega]
    exact holds.terminated

/-- A copy of a string, filled up with NULs. -/
theorem kstrncpy_eq {src : Nat → UInt8} {text : List UInt8} (holds : HoldsText src text) (dst : Nat → UInt8)
    (count i : Nat) : kstrncpy dst src count i = if i < count then text.getD i 0 else dst i := by
  let copied (n : Nat) : (Nat → UInt8) × Bool :=
    (fun i => if i < n then text.getD i 0 else dst i, decide (text.length < n))
  have next (n : Nat) : update (copied n).1 n (text.getD n 0) = (copied (n + 1)).1 := by
    funext i
    simp only [copied, update_apply]
    by_cases here : i = n
    · rw [if_pos here, if_pos (by omega), here]
    · rw [if_neg here]
      exact if_congr (by omega) rfl rfl
  have loop (n : Nat) : (List.range n).foldl
      (fun copy i => if copy.2 then (update copy.1 i 0, true) else (update copy.1 i (src i), decide (src i = 0)))
      (dst, false) = copied n := by
    induction n with
    | zero => simp [copied]
    | succ n ih =>
        rw [List.range_succ, List.foldl_append, ih, List.foldl_cons, List.foldl_nil]
        by_cases done : text.length < n
        · have zero : text.getD n 0 = 0 := List.getD_eq_default _ _ (Nat.le_of_lt done)
          rw [if_pos (decide_eq_true done), ← zero, next]
          exact Prod.ext rfl (decide_eq_true (Nat.lt_succ_of_lt done)).symm
        · rw [if_neg (by simpa [copied] using done), holds.getD (Nat.not_lt.mp done), next]
          refine Prod.ext rfl ?_
          rw [← holds.getD (Nat.not_lt.mp done)]
          exact decide_eq_decide.mpr (holds.zero_iff (Nat.not_lt.mp done))
  rw [kstrncpy, loop]

theorem copy_holds {src : Nat → UInt8} {text : List UInt8} (holds : HoldsText src text) (short : text.length ≤ 127)
    (dst : Nat → UInt8) : HoldsText (update (kstrncpy dst src (cliMaxLine - 1)) (cliMaxLine - 1) 0) text := by
  have size : cliMaxLine - 1 = 127 := rfl
  rw [size]
  refine ⟨holds.plain, fun i c found => ?_, ?_⟩
  · have inside := (List.getElem?_eq_some_iff.mp found).1
    rw [update_of_ne (by omega), kstrncpy_eq holds, if_pos (by omega), List.getD_eq_getElem?_getD, found, Option.getD_some]
  · by_cases full : text.length = 127
    · rw [full]
      exact ended_line _ _
    · rw [update_of_ne full, kstrncpy_eq holds, if_pos (by omega)]
      exact List.getD_eq_default _ _ (Nat.le_refl _)

theorem kstrlen_eq {line : Nat → UInt8} {text : List UInt8} (holds : HoldsText line text) (short : text.length ≤ 127) :
    kstrlen line = some text.length := by
  rw [kstrlen, List.find?_range_eq_some]
  refine ⟨decide_eq_true holds.terminated, List.mem_range.mpr (Nat.lt_succ_of_le short), fun i before => ?_⟩
  have zero := mt (holds.zero_iff (Nat.le_of_lt before)).mp (by omega)
  simpa using zero

/-! ## Submitting and recalling -/

theorem commandReturns_unknown {name : List UInt8} (unknown : name ∉ commandNames) (arguments : List (List UInt8)) :
    commandReturns (name :: arguments) = true := by
  have other (known : List UInt8) (listed : known ∈ commandNames) : name ≠ known := fun same => unknown (same ▸ listed)
  rw [commandReturns, if_neg, if_neg]
  · exact fun mgctl => other _ (by decide) mgctl.1
  · rintro (shutdown | reboot)
    · exact other _ (by decide) shutdown
    · exact other _ (by decide) reboot

/-- The line that is left holds the first word, and it is left exactly if the command returns. -/
theorem dispatched_spec {line : Nat → UInt8} {text : List UInt8} (holds : HoldsText line text) (short : text.length ≤ 127) :
    ∃ left, HoldsText left (firstWord text) ∧
      dispatched line = if commandReturns ((runs isBlank text).take cliMaxArgs) then some left else none := by
  have inside : text.length < cliMaxLine := Nat.lt_succ_of_le short
  obtain ⟨argv, left, returns, cut, texts⟩ := dispatchLine_spec (stringAt_zero.mpr holds) inside
  refine ⟨left, stringAt_zero.mp cut, ?_⟩
  rw [dispatched, returns, Option.bind_eq_bind, Option.bind_some]
  cases words : runs isBlank text with
  | nil => rfl
  | cons name arguments =>
      rw [words] at texts
      dsimp only
      by_cases known : name ∈ commandNames
      · rw [if_pos known]
        dsimp only
        rw [texts]
      · rw [if_neg known]
        exact (if_pos (commandReturns_unknown known _)).symm

theorem firstWord_initial (text : List UInt8) : firstWord text <+: text := by
  refine ⟨(text.dropWhile isBlank).dropWhile (!isBlank ·), ?_⟩
  rw [firstWord, List.append_assoc, List.takeWhile_append_dropWhile, List.takeWhile_append_dropWhile]

/-- The line that is kept for the history. -/
structure Remembers (s : Shell) (text : List UInt8) : Prop where
  present : s.hasLastLine = true
  line : HoldsText s.lastLine text
  short : text.length ≤ 127
  plain : s.escState = .none

theorem Shell.typed {s : Shell} (plain : 0 ∉ s.text) :
    HoldsText (update s.line s.length 0) s.text := by
  have size := s.text_length
  refine ⟨plain, fun i c found => ?_, by rw [size]; exact ended_line _ _⟩
  have inside := (List.getElem?_eq_some_iff.mp found).1
  rw [update_of_ne (by omega)]
  simpa [Shell.text, List.getElem?_range (show i < s.length by omega)] using found

theorem EditorInv.submit_remembers {s : Shell} (inv : EditorInv s) (filled : s.text ≠ []) (pending : s.escState = .none)
    {left : Nat → UInt8} (holds : HoldsText left (firstWord s.text)) :
    ∃ t, submitLine (fun _ => left) s = some t ∧ Remembers t (firstWord s.text) := by
  have short := inv.short
  have size := s.text_length
  have shorter := (firstWord_initial s.text).length_le
  have nonempty : 0 < s.length := by
    rw [← size]
    exact List.length_pos_iff.mpr filled
  have copied : HoldsText (keptLine s left) (firstWord s.text) := by
    rw [keptLine, if_pos nonempty]
    exact copy_holds holds (by omega) s.lastLine
  have present : (decide (0 < s.length) || s.hasLastLine) = true := by simp [nonempty]
  rw [submitLine_eq (fun _ => left) short]
  exact ⟨_, rfl, present, copied, by omega, pending⟩

theorem Remembers.recalls {s : Shell} {text : List UInt8} (remembers : Remembers s text) :
    ∃ t, recallLine s = some t ∧ HoldsText t.line text ∧ t.length = text.length ∧ t.cursor = text.length := by
  have short := remembers.short
  have copied := copy_holds remembers.line short s.line
  rw [recallLine, if_pos remembers.present, lineStore_eq (show cliMaxLine - 1 ≤ 127 from Nat.le_refl 127),
    Option.bind_eq_bind, Option.bind_some, kstrlen_eq copied short, Option.bind_eq_bind, Option.bind_some, renderLine,
    lineBytes_eq short]
  exact ⟨_, rfl, copied, rfl, rfl⟩

/-- Ctrl-P, and the cursor key that stands for it. -/
def recallKeys : List (List UInt8) := [[inputKeyCtrlP], [inputKeyEsc, 0x5B, 0x41]]

theorem recallKeys_run {s : Shell} (plain : s.escState = .none) {keys : List UInt8} (pressed : keys ∈ recallKeys) :
    run shellStep s keys = recallLine s := by
  obtain ⟨line, lastLine, hasLastLine, length, cursor, escState, submitted, output⟩ := s
  cases plain
  simp only [recallKeys, List.mem_cons, List.not_mem_nil, or_false] at pressed
  rcases pressed with rfl | rfl
  · exact Option.bind_fun_some _
  · exact Option.bind_fun_some _

theorem HoldsText.unique {line : Nat → UInt8} {first second : List UInt8} (holds : HoldsText line first)
    (other : HoldsText line second) : first = second := by
  have before {one two : List UInt8} (left : HoldsText line one) (right : HoldsText line two) :
      one.length ≤ two.length := by
    by_contra longer
    have inside := (left.zero_iff (i := two.length) (by omega)).mp right.terminated
    omega
  have length := Nat.le_antisymm (before holds other) (before other holds)
  refine List.ext_getElem length fun i left right => ?_
  exact (holds.bytes i _ (List.getElem?_eq_getElem left)).symm.trans (other.bytes i _ (List.getElem?_eq_getElem right))

/-- The editor holds `text`, with the cursor behind it. -/
def Recalled (s : Shell) (text : List UInt8) : Prop :=
  HoldsText s.line text ∧ s.length = text.length ∧ s.cursor = text.length

theorem Remembers.recalled_iff {s : Shell} {kept : List UInt8} (remembers : Remembers s kept) {keys : List UInt8}
    (pressed : keys ∈ recallKeys) (text : List UInt8) :
    (∃ t, run shellStep s keys = some t ∧ Recalled t text) ↔ kept = text := by
  obtain ⟨t, recalls, holds, length, cursor⟩ := remembers.recalls
  rw [recallKeys_run remembers.plain pressed, recalls]
  constructor
  · rintro ⟨_, ⟨⟩, other, -⟩
    exact holds.unique other
  · rintro rfl
    exact ⟨t, rfl, holds, length, cursor⟩

/-! ## After the Enter -/

theorem EditorInv.remembered {s : Shell} (inv : EditorInv s) :
    ∃ text, HoldsText s.lastLine text ∧ text.length ≤ 127 := by
  have exists_zero : ∃ i, s.lastLine i = 0 := by
    obtain ⟨i, -, zero⟩ := inv.history
    exact ⟨i, zero⟩
  have first := Nat.find_spec exists_zero
  have before (i : Nat) (less : i < Nat.find exists_zero) : s.lastLine i ≠ 0 := Nat.find_min exists_zero less
  refine ⟨(List.range (Nat.find exists_zero)).map s.lastLine, ⟨?_, fun i c found => ?_, ?_⟩, ?_⟩
  · simpa using before
  · obtain ⟨inside, rfl⟩ := List.getElem?_eq_some_iff.mp found
    simp
  · simpa using first
  · obtain ⟨i, less, zero⟩ := inv.history
    rw [List.length_map, List.length_range]
    exact Nat.le_of_lt_succ (Nat.lt_of_le_of_lt (Nat.find_min' exists_zero zero) less)

theorem EditorInv.reads {s t : Shell} (inv : EditorInv s) {c : UInt8} (steps : shellStep s c = some t) : EditorInv t := by
  have keeps (dispatch : (Nat → UInt8) → Nat → UInt8) (steps : cliStep dispatch s c = some t) : EditorInv t := by
    obtain ⟨u, returns, after⟩ := inv.step dispatch c
    cases steps.symm.trans returns
    exact after
  unfold shellStep at steps
  split_ifs at steps with enters
  · simp only [Option.bind_eq_bind, Option.bind_eq_some_iff] at steps
    obtain ⟨line, -, left, -, steps⟩ := steps
    exact keeps _ steps
  · exact keeps _ steps

/-- Behind a pending `ESC` the Enter only clears the line. -/
theorem enter_swallowed {s : Shell} (pending : s.escState = .escape) :
    ∃ t, shellStep s 0x0A = some t ∧ t.length = 0 ∧ t.escState = .none ∧ t.lastLine = s.lastLine ∧
      t.hasLastLine = s.hasLastLine := by
  rw [shellStep, if_neg (fun enters => enters.2 pending), cliStep, pending]
  simp only [show (0x0A : UInt8) ≠ 0x5B by decide, if_false, clearLine_eq, renderLine]
  exact ⟨_, rfl, rfl, rfl, rfl, rfl⟩

theorem EditorInv.enter {s : Shell} (inv : EditorInv s) (filled : s.text ≠ []) (plain : 0 ∉ s.text)
    (submits : s.escState ≠ .escape) :
    if commandReturns ((runs isBlank s.text).take cliMaxArgs) then ∃ t, shellStep s 0x0A = some t ∧ Remembers t (firstWord s.text)
    else shellStep s 0x0A = none := by
  obtain ⟨left, holds, dispatches⟩ := dispatched_spec (Shell.typed plain) (by rw [s.text_length]; exact inv.short)
  have enters : shellStep s 0x0A = (dispatched (update s.line s.length 0)).bind fun left => cliStep (fun _ => left) s 0x0A := by
    rw [shellStep, if_pos ⟨rfl, submits⟩, lineStore_eq inv.short, Option.bind_eq_bind, Option.bind_some]
  rw [dispatches] at enters
  split_ifs at enters ⊢ with returns
  · obtain ⟨t, submitted, remembers⟩ := (inv.pending .none).submit_remembers filled rfl holds
    refine ⟨t, ?_, remembers⟩
    rw [enters, Option.bind_some]
    obtain ⟨line, lastLine, hasLastLine, length, cursor, escState, earlier, output⟩ := s
    cases escState with
    | none => exact submitted
    | escape => exact absurd rfl submits
    | bracket => exact submitted
  · rw [enters, Option.bind_none]

theorem firstWord_eq_self (text : List UInt8) : firstWord text = text ↔ ∀ c ∈ text.dropWhile isBlank, ¬isBlank c := by
  have parts : text.takeWhile isBlank ++ text.dropWhile isBlank = text := List.takeWhile_append_dropWhile
  have same : firstWord text = text ↔ (text.dropWhile isBlank).takeWhile (!isBlank ·) = text.dropWhile isBlank := by
    nth_rewrite 2 [← parts]
    exact List.append_right_inj _
  rw [same, List.takeWhile_eq_self_iff]
  simp

/-- A line of one word is dispatched without further arguments. -/
theorem single_word_returns {text : List UInt8} (single : ∀ c ∈ text.dropWhile isBlank, ¬isBlank c) :
    commandReturns ((runs isBlank text).take cliMaxArgs) ↔ text.dropWhile isBlank ∉ [ascii "shutdown", ascii "reboot"] := by
  have blank : ∀ c ∈ text.takeWhile isBlank, isBlank c := fun c member => List.mem_takeWhile_imp member
  have parts : text = text.takeWhile isBlank ++ (text.dropWhile isBlank ++ []) := by
    rw [List.append_nil, List.takeWhile_append_dropWhile]
  by_cases empty : text.dropWhile isBlank = []
  · rw [empty, List.append_nil, List.append_nil] at parts
    rw [empty, parts, runs_breaks blank]
    exact iff_of_true rfl (by decide)
  · have ends : ∀ c, ([] : List UInt8).head? = some c → isBlank c := nofun
    have words := runs_first blank single empty ends
    rw [← parts] at words
    rw [words, List.drop_nil, runs_breaks (List.forall_mem_nil _), List.take_of_length_le (Nat.le_of_ble_eq_true rfl)]
    simp [commandReturns]

/-- The recall brings the line back: no blank follows a word in it and the word is not a command that stops the machine, or
the Enter was not one and the line is the one that was kept before. -/
def BringsBack (s : Shell) : Prop :=
  if s.escState = .escape then s.hasLastLine = true ∧ HoldsText s.lastLine s.text
  else (∀ c ∈ s.text.dropWhile isBlank, ¬isBlank c) ∧ s.text.dropWhile isBlank ∉ [ascii "shutdown", ascii "reboot"]

theorem recalled_line_iff (bytes : List UInt8) (s : Shell) (typed : run shellStep cliBoot bytes = some s)
    (filled : s.text ≠ []) (plain : 0 ∉ s.text) (keys : List UInt8) (pressed : keys ∈ recallKeys) :
    (∃ t, run shellStep cliBoot (bytes ++ 0x0A :: keys) = some t ∧ Recalled t s.text) ↔ BringsBack s := by
  have keeps (s : Shell) (c : UInt8) (t : Shell) (here : EditorInv s) (_ : True) (steps : shellStep s c = some t) : EditorInv t :=
    here.reads steps
  have inv : EditorInv s := run_invariant keeps (fun _ _ => trivial) EditorInv.boot typed
  rw [run_append, typed, Option.bind_some, run_cons, BringsBack]
  split_ifs with pending
  · obtain ⟨t, returns, length, plain, lastLine, hasLastLine⟩ := enter_swallowed pending
    rw [returns, Option.bind_some]
    by_cases present : s.hasLastLine = true
    · obtain ⟨kept, holds, short⟩ := inv.remembered
      have remembers : Remembers t kept := ⟨hasLastLine.trans present, lastLine.symm ▸ holds, short, plain⟩
      rw [remembers.recalled_iff pressed, and_iff_right present]
      constructor
      · rintro rfl
        exact holds
      · exact holds.unique
    · rw [recallKeys_run plain pressed, recallLine, if_neg (by rwa [hasLastLine])]
      refine iff_of_false ?_ fun both => present both.1
      rintro ⟨_, ⟨⟩, -, same, -⟩
      rw [length] at same
      exact filled (List.length_eq_zero_iff.mp same.symm)
  · have enters := inv.enter filled plain pending
    split_ifs at enters with returns
    · obtain ⟨t, submits, remembers⟩ := enters
      rw [submits, Option.bind_some, remembers.recalled_iff pressed, firstWord_eq_self]
      exact ⟨fun single => ⟨single, (single_word_returns single).mp returns⟩, fun both => both.1⟩
    · rw [enters, Option.bind_none]
      refine iff_of_false ?_ fun both => returns ((single_word_returns both.1).mpr both.2)
      rintro ⟨_, reaches, -⟩
      cases reaches

theorem single_word_recalled :
    ∃ s t, run shellStep cliBoot (ascii "help") = some s ∧ s.text = ascii "help" ∧
      run shellStep cliBoot (ascii "help" ++ 0x0A :: [inputKeyCtrlP]) = some t ∧
      Recalled t (ascii "help") := by
  have shows : (run shellStep cliBoot (ascii "help")).map (fun s => (s.text, s.escState)) = some (ascii "help", .none) := by
    decide +kernel
  obtain ⟨s, typed, values⟩ := Option.map_eq_some_iff.mp shows
  obtain ⟨text, pending⟩ := Prod.mk.inj values
  have recalled := recalled_line_iff (ascii "help") s typed (by rw [text]; decide) (by rw [text]; decide) [inputKeyCtrlP]
    (by decide)
  have back : BringsBack s := by
    rw [BringsBack, pending, if_neg (by decide), text]
    decide +kernel
  obtain ⟨t, returns, holds⟩ := recalled.mpr back
  exact ⟨s, t, typed, text, returns, text ▸ holds⟩

/-- `echo hi`, Enter, Ctrl-P: the editor shows `echo`. -/
theorem line_recalled_without_arguments :
    ∃ s t, run shellStep cliBoot (ascii "echo hi") = some s ∧ s.text = ascii "echo hi" ∧
      run shellStep cliBoot (ascii "echo hi" ++ 0x0A :: [inputKeyCtrlP]) = some t ∧
      t.text = ascii "echo" ∧ ¬Recalled t (ascii "echo hi") := by
  have typed : (run shellStep cliBoot (ascii "echo hi")).map Shell.text = some (ascii "echo hi") := by
    decide +kernel
  have recalls : (run shellStep cliBoot (ascii "echo hi" ++ 0x0A :: [inputKeyCtrlP])).map Shell.text = some (ascii "echo") := by
    decide +kernel
  obtain ⟨s, reaches, text⟩ := Option.map_eq_some_iff.mp typed
  obtain ⟨t, returns, shown⟩ := Option.map_eq_some_iff.mp recalls
  refine ⟨s, t, reaches, text, returns, shown, fun recalled => ?_⟩
  have length := recalled.2.1
  rw [← t.text_length, shown] at length
  exact absurd length (by decide)

end Mgcore
