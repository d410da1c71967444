import Mgcore.Base
import Mathlib.Data.List.Range

/-!
# The command line

The loop of `cli_run` in `src/cli/shell.c`, one step for each byte that it reads. `g_line` and `g_last_line` have 128
bytes; an access outside of them is `none`. What `dispatch_line` and the command it finds leave in `g_line` is a parameter;
a command that does not return ends the run.
-/

namespace Mgcore
open Function

def cliMaxLine : Nat := 128

def inputKeyEsc : UInt8 := 0x1B
def inputKeyCtrlA : UInt8 := 0x01
def inputKeyCtrlB : UInt8 := 0x02
def inputKeyCtrlC : UInt8 := 0x03
def inputKeyCtrlE : UInt8 := 0x05
def inputKeyCtrlF : UInt8 := 0x06
def inputKeyCtrlN : UInt8 := 0x0E
def inputKeyCtrlP : UInt8 := 0x10

/-- `esc_state`: nothing pending, after `ESC`, after `ESC [`. -/
inductive EscState
  | none | escape | bracket
  deriving DecidableEq

/-- `submitted` holds the lines that were given to `dispatch_line`, `output` the bytes that the editor itself printed. -/
structure Shell where
  line : Nat → UInt8
  lastLine : Nat → UInt8
  hasLastLine : Bool
  length : Nat
  cursor : Nat
  escState : EscState
  submitted : List (List UInt8)
  output : List UInt8

/-! ## The line buffer -/

def lineLoad (line : Nat → UInt8) (i : Nat) : Option UInt8 := if i < cliMaxLine then some (line i) else none

def lineStore (line : Nat → UInt8) (i : Nat) (b : UInt8) : Option (Nat → UInt8) :=
  if i < cliMaxLine then some (update line i b) else none

/-- `g_line[dst] = g_line[src];` -/
def lineMove (line : Nat → UInt8) (dst src : Nat) : Option (Nat → UInt8) := do
  let b ← lineLoad line src
  lineStore line dst b

def lineBytes (line : Nat → UInt8) (n : Nat) : Option (List UInt8) :=
  if n ≤ cliMaxLine then some ((List.range n).map line) else none

/-- `kstrncpy` between two line buffers: from the NUL on the rest is zero. -/
def kstrncpy (dst src : Nat → UInt8) (count : Nat) : Nat → UInt8 :=
  ((List.range count).foldl
    (fun copy i => if copy.2 then (update copy.1 i 0, true) else (update copy.1 i (src i), src i = 0)) (dst, false)).1

def kstrlen (line : Nat → UInt8) : Option Nat := (List.range cliMaxLine).find? fun i => line i = 0

/-! ## Output -/

def Shell.print (s : Shell) (bytes : List UInt8) : Shell := { s with output := s.output ++ bytes }

def printPrompt (s : Shell) : Shell := s.print (ascii "[mgcore-x86_64]" ++ ascii "_# ")

def renderLine (s : Shell) : Option Shell := do
  let whole ← lineBytes s.line s.length
  let before ← lineBytes s.line s.cursor
  let s := printPrompt (s.print [0x0D])
  let s := printPrompt (s.print (whole ++ [0x20, 0x0D]))
  some (s.print before)

/-! ## Keys -/

/-- `length = 0; cursor = 0; g_line[0] = '\0';` -/
def clearLine (s : Shell) : Option Shell := do
  let line ← lineStore s.line 0 0
  some { s with line, length := 0, cursor := 0 }

def rememberLine (s : Shell) : Option Shell :=
  if 0 < s.length then do
    let lastLine ← lineStore (kstrncpy s.lastLine s.line (cliMaxLine - 1)) (cliMaxLine - 1) 0
    some { s with lastLine, hasLastLine := true }
  else some s

def submitLine (dispatch : (Nat → UInt8) → Nat → UInt8) (s : Shell) : Option Shell := do
  let line ← lineStore s.line s.length 0
  let text ← lineBytes line s.length
  let s := { s with line := dispatch line, submitted := s.submitted ++ [text] }.print [0x0A]
  let s ← rememberLine s
  let s ← clearLine s
  some (printPrompt s)

def recallLine (s : Shell) : Option Shell :=
  if s.hasLastLine then do
    let line ← lineStore (kstrncpy s.line s.lastLine (cliMaxLine - 1)) (cliMaxLine - 1) 0
    let length ← kstrlen line
    renderLine { s with line, length, cursor := length }
  else some s

def deleteBefore (s : Shell) : Option Shell :=
  if s.cursor = 0 then some s
  else do
    -- `for (i = cursor - 1; i + 1 < length; ++i) g_line[i] = g_line[i + 1];`
    let line ← (List.range (s.length - s.cursor)).foldlM
      (fun line k => lineMove line (s.cursor - 1 + k) (s.cursor - 1 + k + 1)) s.line
    let line ← lineStore line (s.length - 1) 0
    renderLine { s with line, length := s.length - 1, cursor := s.cursor - 1 }

def insertByte (s : Shell) (c : UInt8) : Option Shell :=
  if s.length + 1 < cliMaxLine then do
    -- `for (i = length; i > cursor; --i) g_line[i] = g_line[i - 1];`
    let line ← (List.range (s.length - s.cursor)).foldlM
      (fun line k => lineMove line (s.length - k) (s.length - k - 1)) s.line
    let line ← lineStore line s.cursor c
    let line ← lineStore line (s.length + 1) 0
    renderLine { s with line, length := s.length + 1, cursor := s.cursor + 1 }
  else some s

/-- What a byte does when no escape sequence is pending. -/
def cliKey (dispatch : (Nat → UInt8) → Nat → UInt8) (s : Shell) (c : UInt8) : Option Shell :=
  if c = 0x0D then some s
  else if c = inputKeyEsc then some { s with escState := .escape }
  else if c = 0x0A then submitLine dispatch s
  else if c = inputKeyCtrlC then do
    let s ← clearLine (s.print (ascii "^C\n"))
    some (printPrompt s)
  else if c = inputKeyCtrlA then renderLine { s with cursor := 0 }
  else if c = inputKeyCtrlE then renderLine { s with cursor := s.length }
  else if c = inputKeyCtrlB then
    if 0 < s.cursor then renderLine { s with cursor := s.cursor - 1 } else some s
  else if c = inputKeyCtrlF then
    if s.cursor < s.length then renderLine { s with cursor := s.cursor + 1 } else some s
  else if c = inputKeyCtrlP then recallLine s
  else if c = inputKeyCtrlN then do
    let s ← clearLine s
    renderLine s
  else if (c = 0x08 ∨ c = 0x7F) ∧ 0 < s.length then deleteBefore s
  else insertByte s c

/-- The letter of a cursor key. -/
def arrowKey (c : UInt8) : UInt8 :=
  if c = 0x41 then inputKeyCtrlP
  else if c = 0x42 then inputKeyCtrlN
  else if c = 0x43 then inputKeyCtrlF
  else if c = 0x44 then inputKeyCtrlB
  else c

def cliStep (dispatch : (Nat → UInt8) → Nat → UInt8) (s : Shell) (c : UInt8) : Option Shell :=
  match s.escState with
  | .escape =>
      if c = 0x5B then some { s with escState := .bracket }
      else do
        let s ← clearLine s
        let s ← renderLine s
        some { s with escState := .none }
  | .bracket => cliKey dispatch { s with escState := .none } (arrowKey c)
  | .none => cliKey dispatch s c

/-- The locals of `cli_run` and the globals as they are found. -/
def cliStart (line lastLine : Nat → UInt8) (hasLastLine : Bool) : Shell :=
  printPrompt
    { line, lastLine, hasLastLine, length := 0, cursor := 0, escState := .none, submitted := [], output := [] }

end Mgcore
