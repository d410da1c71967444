import Mgcore.Cli.Echo
import Mgcore.Console.Input

/-!
# Printing on the console

`console_printf` of `src/kernel/console.c` formats into a buffer of 512 bytes on its stack and writes the string it finds
there; `console_writeln` does so with the braces of `console_write`, and ends the line.
-/

namespace Mgcore

def printfBufferSize : Nat := 512

/-- `console_printf`; `stack` is what the buffer held before. -/
def consolePrintf (stack : Nat → UInt8) (c : Console) (fmt : List UInt8) (args : List Arg) : Option Console := do
  let (_, buffer) ← kvsnprintf stack printfBufferSize fmt args
  let text ← stringFrom printfBufferSize buffer (printfBufferSize + 1) 0
  return consoleWriteN c text

theorem stringFrom_isSome {size : Nat} {line : Nat → UInt8} {stop : Nat} (zero : line stop = 0) (inside : stop < size)
    {fuel cursor : Nat} (before : cursor ≤ stop) (enough : stop < cursor + fuel) :
    ∃ text, stringFrom size line fuel cursor = some text := by
  induction fuel generalizing cursor with
  | zero => omega
  | succ fuel ih =>
      rw [stringFrom, charAt_eq (by omega), Option.bind_eq_bind, Option.bind_some]
      by_cases ended : line cursor = 0
      · exact ⟨[], if_pos ended⟩
      · have later : cursor ≠ stop := fun same => ended (same ▸ zero)
        obtain ⟨text, rest⟩ := ih (show cursor + 1 ≤ stop by omega) (by omega)
        rw [if_neg ended, rest]
        exact ⟨_, rfl⟩

theorem consolePrintf_returns (stack : Nat → UInt8) (c : Console) {fmt : List UInt8} {args : List Arg} {text : List UInt8}
    (renders : rendering fmt args = some text) : ∃ console, consolePrintf stack c fmt args = some console := by
  have size : printfBufferSize = 512 := rfl
  have ended : storeText stack printfBufferSize text (min text.length (printfBufferSize - 1)) = 0 := by
    rw [storeText, if_neg (Nat.lt_irrefl _), if_pos rfl]
  obtain ⟨shown, prints⟩ := stringFrom_isSome ended (show _ < printfBufferSize by omega) (Nat.zero_le _)
    (show _ < 0 + (printfBufferSize + 1) by omega)
  rw [consolePrintf, kvsnprintf_eq stack (by decide) renders, Option.bind_eq_bind, Option.bind_some]
  dsimp only
  rw [prints]
  exact ⟨_, rfl⟩

/-- A text that fits the buffer is written as it is. -/
theorem consolePrintf_eq (stack : Nat → UInt8) (c : Console) {fmt : List UInt8} {args : List Arg} {text : List UInt8}
    (renders : rendering fmt args = some text) (plain : 0 ∉ text) (fits : text.length < printfBufferSize) :
    consolePrintf stack c fmt args = some (consoleWriteN c text) := by
  have holds := stringAt_zero.mpr (storeText_holds stack plain fits)
  have shown := stringFrom_eq holds (show 0 + text.length < printfBufferSize by omega) (Nat.lt_succ_of_lt fits)
  rw [consolePrintf, kvsnprintf_eq stack (by decide) renders, Option.bind_eq_bind, Option.bind_some]
  dsimp only
  rw [shown]
  rfl

def consoleWriteln (stack : Nat → UInt8) (c : Console) (pattern : List UInt8) : Option Console := do
  let text ← consoleWrite stack pattern []
  return consoleWriteN c (text ++ [0x0A])

theorem consoleWriteln_eq (stack : Nat → UInt8) (c : Console) {pattern : List UInt8} (string : 0 ∉ pattern)
    (short : pattern.length < cliMaxLine) (plain : bracesText pattern [] = some pattern) :
    consoleWriteln stack c pattern = some (consoleWriteN c (pattern ++ [0x0A])) := by
  rw [consoleWriteln, consoleWrite_eq stack string short, plain]
  rfl

end Mgcore
