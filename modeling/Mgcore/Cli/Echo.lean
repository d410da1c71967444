import Mgcore.Cli.Dispatch
import Mgcore.Cli.Shell
import Mgcore.Text.Braces
import Mathlib.Algebra.Order.BigOperators.Group.List
import Mathlib.Data.List.Chain

/-!
# The echo command

`cmd_echo` of `src/cli/commands/builtin.c` gives each argument to `console_write` of `src/kernel/console.c`, as the
pattern and with no strings behind it. The results are the bytes that reach `console_putc`; a `va_arg` that has no
argument left is `none`.
-/

namespace Mgcore

def consoleBufferSize : Nat := 1024

/-- `console_write_plain`: the bytes up to the NUL. -/
def consoleWritePlain (buffer : Nat → UInt8) : Option (List UInt8) :=
  stringFrom consoleBufferSize buffer (consoleBufferSize + 1) 0

/-- `stack` is what the buffer held before. -/
def consoleWrite (stack : Nat → UInt8) (pattern : List UInt8) (args : List Arg) : Option (List UInt8) := do
  let (_, buffer) ← kvformatBraces stack consoleBufferSize (some pattern) args
  consoleWritePlain buffer

/-- The loop of `cmd_echo`, on the arguments from `argv[i]` on. -/
def echoLoop (stack : Nat → UInt8) : List (List UInt8) → Option (List UInt8)
  | [] => some []
  | arg :: rest => do
      let text ← consoleWrite stack arg []
      let more ← echoLoop stack rest
      some (text ++ ((if rest ≠ [] then [0x20] else []) ++ more))

def cmdEcho (stack : Nat → UInt8) (argv : List (List UInt8)) : Option (List UInt8) := do
  let text ← echoLoop stack argv.tail
  some (text ++ [0x0A])

/-! ## Patterns without strings -/

/-- Two bytes that `kvformat_braces` takes together. -/
def BracePair (c d : UInt8) : Prop :=
  c = char '{' ∧ d = char '{' ∨ c = char '}' ∧ d = char '}' ∨ c = char '{' ∧ d = char '}'

instance (c d : UInt8) : Decidable (BracePair c d) := inferInstanceAs (Decidable (_ ∨ _ ∨ _))

/-- Without strings a doubled brace is one brace, and `{}` asks for an argument that is not there. -/
theorem bracesText_pair (c d : UInt8) (pattern : List UInt8) : bracesText (c :: d :: pattern) [] =
    if BracePair c d then if c = d then (bracesText pattern []).map (c :: ·) else none
    else (bracesText (d :: pattern) []).map (c :: ·) := by
  rw [bracesText]
  by_cases opening : c = char '{' ∧ d = char '{'
  · rw [if_pos opening, if_pos (show BracePair c d from Or.inl opening), if_pos (opening.1.trans opening.2.symm), opening.1]
  by_cases closing : c = char '}' ∧ d = char '}'
  · rw [if_neg opening, if_pos closing, if_pos (show BracePair c d from Or.inr (Or.inl closing)),
      if_pos (closing.1.trans closing.2.symm), closing.1]
  by_cases hole : c = char '{' ∧ d = char '}'
  · rw [if_neg opening, if_neg closing, if_pos hole, if_pos (show BracePair c d from Or.inr (Or.inr hole)), if_neg]
    · rfl
    · rw [hole.1, hole.2]
      decide
  rw [if_neg opening, if_neg closing, if_neg hole, if_neg]
  rintro (pair | pair | pair)
  · exact opening pair
  · exact closing pair
  · exact hole pair

theorem bracesText_sublist {pattern text : List UInt8} (renders : bracesText pattern [] = some text) :
    text.Sublist pattern := by
  induction pattern using List.twoStepInduction generalizing text with
  | nil =>
      cases renders
      exact List.Sublist.refl _
  | singleton c =>
      cases renders
      exact List.Sublist.refl _
  | cons_cons c d pattern shorter ih =>
      rw [bracesText_pair] at renders
      split_ifs at renders with pair same
      · obtain ⟨rest, behind, rfl⟩ := Option.map_eq_some_iff.mp renders
        exact ((shorter behind).cons d).cons_cons c
      · obtain ⟨rest, behind, rfl⟩ := Option.map_eq_some_iff.mp renders
        exact (ih d behind).cons_cons c

theorem bracesText_self_iff (pattern : List UInt8) :
    bracesText pattern [] = some pattern ↔ pattern.IsChain fun c d => ¬BracePair c d := by
  induction pattern using List.twoStepInduction with
  | nil => exact iff_of_true rfl List.IsChain.nil
  | singleton c => exact iff_of_true rfl (List.IsChain.singleton c)
  | cons_cons c d pattern shorter ih =>
      rw [bracesText_pair, List.isChain_cons_cons]
      split_ifs with pair same
      · refine iff_of_false (fun renders => ?_) fun chain => chain.1 pair
        obtain ⟨rest, renders, whole⟩ := Option.map_eq_some_iff.mp renders
        cases whole
        exact absurd (bracesText_sublist renders).length_le (Nat.not_succ_le_self _)
      · exact iff_of_false nofun fun chain => chain.1 pair
      · rw [and_iff_right pair, ← ih d, Option.map_eq_some_iff]
        constructor
        · rintro ⟨rest, renders, whole⟩
          cases whole
          exact renders
        · exact fun renders => ⟨_, renders, rfl⟩

theorem consoleWrite_eq (stack : Nat → UInt8) {arg : List UInt8} (string : 0 ∉ arg) (short : arg.length < cliMaxLine) :
    consoleWrite stack arg [] = bracesText arg [] := by
  have room : consoleBufferSize ≠ 0 := by decide
  cases renders : bracesText arg [] with
  | none =>
      rw [consoleWrite, kvformatBraces, if_neg room, bracesLoop_eq, Option.getD_some, renders]
      rfl
  | some text =>
      have part := bracesText_sublist renders
      have plain : 0 ∉ text := fun zero => string (part.subset zero)
      have fits : text.length < consoleBufferSize := Nat.lt_of_le_of_lt part.length_le (Nat.lt_trans short (by decide))
      have holds := stringAt_zero.mpr (storeText_holds stack plain fits)
      rw [consoleWrite, kvformatBraces_eq stack room (show bracesText ((some arg).getD []) [] = some text from renders),
        Option.bind_eq_bind, Option.bind_some]
      exact stringFrom_eq holds (by rwa [Nat.zero_add]) (Nat.lt_succ_of_lt fits)

/-! ## The arguments -/

theorem intercalate_cons {α : Type*} (separator first : List α) (rest : List (List α)) :
    separator.intercalate (first :: rest) =
      first ++ ((if rest ≠ [] then separator else []) ++ separator.intercalate rest) := by
  cases rest with
  | nil => simp
  | cons second rest => simp

section
variable {stack : Nat → UInt8} {arg : List UInt8} {rest : List (List UInt8)} (strings : ∀ s ∈ rest, 0 ∉ s)
  (short : ∀ s ∈ rest, s.length < cliMaxLine)
include strings short

theorem echoLoop_sublist {text : List UInt8} (prints : echoLoop stack rest = some text) :
    text.Sublist ([0x20].intercalate rest) := by
  induction rest generalizing text with
  | nil =>
      cases prints
      exact List.Sublist.refl _
  | cons arg rest ih =>
      rw [List.forall_mem_cons] at strings short
      rw [echoLoop, consoleWrite_eq stack strings.1 short.1] at prints
      obtain ⟨shown, renders, prints⟩ := Option.bind_eq_some_iff.mp prints
      obtain ⟨more, behind, whole⟩ := Option.bind_eq_some_iff.mp prints
      cases whole
      rw [intercalate_cons]
      exact (bracesText_sublist renders).append ((List.Sublist.refl _).append (ih strings.2 short.2 behind))

theorem echoLoop_verbatim_iff :
    echoLoop stack rest = some ([0x20].intercalate rest) ↔ ∀ s ∈ rest, bracesText s [] = some s := by
  induction rest with
  | nil => exact iff_of_true rfl nofun
  | cons arg rest ih =>
      rw [List.forall_mem_cons] at strings short
      rw [List.forall_mem_cons, ← ih strings.2 short.2, echoLoop, consoleWrite_eq stack strings.1 short.1, intercalate_cons]
      constructor
      · intro prints
        obtain ⟨shown, renders, prints⟩ := Option.bind_eq_some_iff.mp prints
        obtain ⟨more, behind, whole⟩ := Option.bind_eq_some_iff.mp prints
        -- neither part can be longer than what it shows, so both are as long
        have first := bracesText_sublist renders
        have last := echoLoop_sublist strings.2 short.2 behind
        have lengths := congrArg List.length (Option.some.inj whole)
        have firstLength := first.length_le
        have lastLength := last.length_le
        simp only [List.length_append] at lengths
        have same := first.eq_of_length (by omega)
        have others := last.eq_of_length (by omega)
        exact ⟨by rwa [same] at renders, by rwa [others] at behind⟩
      · rintro ⟨renders, behind⟩
        rw [renders, behind]
        rfl

end

/-- Every string with its NUL lies in the line. -/
def FitsLine (argv : List (List UInt8)) : Prop := (argv.map fun s => s.length + 1).sum ≤ cliMaxLine

instance (argv : List (List UInt8)) : Decidable (FitsLine argv) := inferInstanceAs (Decidable (_ ≤ _))

theorem FitsLine.short {argv : List (List UInt8)} (fits : FitsLine argv) {s : List UInt8} (member : s ∈ argv) :
    s.length < cliMaxLine := by
  have known : s.length + 1 ∈ argv.map fun s => s.length + 1 := List.mem_map_of_mem member
  exact Nat.le_trans (List.single_le_sum (fun _ _ => Nat.zero_le _) _ known) fits

/-- The arguments are printed as they are exactly when no two braces that the patterns know stand side by side. -/
theorem echo_verbatim_iff (stack : Nat → UInt8) (argv : List (List UInt8)) (strings : ∀ s ∈ argv, 0 ∉ s)
    (fits : FitsLine argv) :
    cmdEcho stack argv = some ([0x20].intercalate argv.tail ++ [0x0A]) ↔
      ∀ s ∈ argv.tail, s.IsChain fun c d => ¬BracePair c d := by
  have known {s : List UInt8} (member : s ∈ argv.tail) : s ∈ argv := List.mem_of_mem_tail member
  have loop : echoLoop stack argv.tail = some ([0x20].intercalate argv.tail) ↔ _ :=
    echoLoop_verbatim_iff (fun s member => strings s (known member)) fun s member => fits.short (known member)
  simp only [← bracesText_self_iff]
  rw [← loop, cmdEcho]
  constructor
  · intro prints
    obtain ⟨text, printed, whole⟩ := Option.bind_eq_some_iff.mp prints
    rw [List.append_cancel_right (Option.some.inj whole)] at printed
    exact printed
  · intro printed
    rw [printed]
    rfl

theorem echo_verbatim_sample :
    cmdEcho (fun _ => 0xCC) [ascii "echo", [char 'a', char '{'], ascii "b"] =
      some [char 'a', char '{', 0x20, char 'b', 0x0A] :=
  (echo_verbatim_iff (fun _ => 0xCC) [ascii "echo", [char 'a', char '{'], ascii "b"] (by decide) (by decide)).mpr
    (by decide)

/-- `echo {{` prints one brace, and `echo {}` takes an argument that was not passed. -/
theorem echo_takes_arguments_as_patterns :
    (∃ argv, argv = [ascii "echo", [char '{', char '{']] ∧ (∀ s ∈ argv, 0 ∉ s) ∧ FitsLine argv ∧
      cmdEcho (fun _ => 0xCC) argv = some [char '{', 0x0A] ∧
      [0x20].intercalate argv.tail ++ [0x0A] = [char '{', char '{', 0x0A]) ∧
    ∃ argv, argv = [ascii "echo", [char '{', char '}']] ∧ (∀ s ∈ argv, 0 ∉ s) ∧ FitsLine argv ∧
      cmdEcho (fun _ => 0xCC) argv = none := by
  have first := consoleWrite_eq (fun _ => 0xCC) (show 0 ∉ [char '{', char '{'] by decide) (by decide)
  have second := consoleWrite_eq (fun _ => 0xCC) (show 0 ∉ [char '{', char '}'] by decide) (by decide)
  refine ⟨⟨_, rfl, by decide, by decide, ?_, by decide⟩, _, rfl, by decide, by decide, ?_⟩
  · rw [cmdEcho, List.tail_cons, echoLoop, first]
    rfl
  · rw [cmdEcho, List.tail_cons, echoLoop, second]
    rfl

end Mgcore
