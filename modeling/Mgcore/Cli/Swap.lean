import Mgcore.Cli.Echo
import Mgcore.Console.Printf
import Mgcore.Lib.Run
import Mgcore.Net.Address

/-!
# Numbers on the command line

`parse_u32`, `cmd_swap` and `cmd_ping` of `src/cli/commands/builtin.c`, and the page counts of `src/kernel/swap.c`. The
accumulator of `parse_u32` is a `size_t` and is never compared with a limit, so it holds the number that was typed modulo
the word size. A command is split in two here: what its arguments ask for, and what is then done.
-/

namespace Mgcore

open Lib

/-! ## Reading a number -/

def parseU32Loop : List UInt8 → UInt64 → Option UInt64
  | [], value => some value
  | c :: text, value =>
      if c < char '0' ∨ char '9' < c then none else parseU32Loop text (value * 10 + (c - char '0').toUInt64)

/-- The result, and what `*value_out` is after the call. -/
def parseU32 (text : List UInt8) (valueOut : UInt64) : Int × UInt64 :=
  if text = [] then (0, valueOut)
  else
    match parseU32Loop text 0 with
    | none => (0, valueOut)
    | some value => (1, value)

/-! ## Commands -/

inductive SwapRequest
  | usage | status | invalid | off
  | on (pages : UInt64)
  | use (pages : UInt64)
  deriving DecidableEq

/-- Which branch of `cmd_swap` is taken, with the page count that it gives to `swap_enable` or `swap_set_used_pages`. -/
def swapRequest : List (List UInt8) → SwapRequest
  | _ :: verb :: rest =>
      if verb = ascii "status" then .status
      else if verb = ascii "on" then
        match rest with
        | [] => .on 0
        | text :: _ => if (parseU32 text 0).1 = 0 then .invalid else .on (parseU32 text 0).2
      else if verb = ascii "off" then .off
      else if verb = ascii "use" then
        match rest with
        | [] => .invalid
        | text :: _ => if (parseU32 text 0).1 = 0 then .invalid else .use (parseU32 text 0).2
      else .usage
  | _ => .usage

inductive PingCommand
  | usage | invalid
  | ping (target : List UInt8) (count : UInt64)
  deriving DecidableEq

/-- Which branch of `cmd_ping` is taken, with what it gives to `net_ping`. -/
def pingCommand : List (List UInt8) → PingCommand
  | [_, target] => .ping target 4
  | _ :: target :: text :: _ =>
      if (parseU32 text 4).1 = 0 then .invalid else .ping target (parseU32 text 4).2
  | _ => .usage

/-! ## Page counts -/

structure Swap where
  totalPages : UInt64
  usedPages : UInt64
  enabled : Bool

def swapDefaultDivisor : UInt64 := 4
def swapMinDefaultPages : UInt64 := 64

def unsignedArg (n : UInt64) : Arg := .word n.toUInt32.toUInt64

def swapInit (stack : Nat → UInt8) (c : Console) (ramTotalPages : UInt64) : Option (Swap × Console) := do
  let total := ramTotalPages / swapDefaultDivisor
  let total := if total = 0 ∧ 0 < ramTotalPages then 1 else total
  let total := if total < swapMinDefaultPages ∧ swapMinDefaultPages ≤ ramTotalPages then swapMinDefaultPages else total
  let c ← consolePrintf stack c (ascii "swap: initialized capacity=%u pages state=off\n") [unsignedArg total]
  return ({ totalPages := total, usedPages := 0, enabled := false }, c)

def swapEnable (s : Swap) (totalPages : UInt64) : Int × Swap :=
  let s := if totalPages ≠ 0 then { s with totalPages } else s
  if s.totalPages = 0 then (-1, s)
  else
    let s := if s.totalPages < s.usedPages then { s with usedPages := s.totalPages } else s
    (0, { s with enabled := true })

def swapDisable (s : Swap) : Swap := { s with enabled := false, usedPages := 0 }

def swapSetUsedPages (s : Swap) (usedPages : UInt64) : Int × Swap :=
  if s.enabled = false then (-1, s)
  else if s.totalPages < usedPages then (-2, s)
  else (0, { s with usedPages })

def swapFreePages (s : Swap) : UInt64 := s.totalPages - s.usedPages

def cmdSwap (stack : Nat → UInt8) (s : Swap) (c : Console) (argv : List (List UInt8)) : Option (Int × Swap × Console) :=
  match swapRequest argv with
  | .usage => do
      let c ← consoleWriteln stack c (ascii "usage: swap status | on [pages] | off | use <pages>")
      return (-1, s, c)
  | .status => do
      let c ← consolePrintf stack c (ascii "swap: state=%s total=%u used=%u free=%u pages\n")
        [.text (some (if s.enabled then ascii "on" else ascii "off")), unsignedArg s.totalPages, unsignedArg s.usedPages,
          unsignedArg (swapFreePages s)]
      return (0, s, c)
  | .invalid => do
      let c ← consoleWriteln stack c (ascii "swap: invalid page count")
      return (-1, s, c)
  | .on pages => do
      let (rc, s) := swapEnable s pages
      if rc ≠ 0 then do
        let c ← consoleWriteln stack c (ascii "swap: enable failed (set pages > 0)")
        return (-1, s, c)
      else do
        let c ← consolePrintf stack c (ascii "swap: enabled total=%u pages\n") [unsignedArg s.totalPages]
        return (0, s, c)
  | .off => do
      let c ← consoleWriteln stack c (ascii "swap: disabled")
      return (0, swapDisable s, c)
  | .use pages => do
      let (rc, s) := swapSetUsedPages s pages
      if rc = -1 then do
        let c ← consoleWriteln stack c (ascii "swap: currently off (use 'swap on' first)")
        return (-1, s, c)
      else if rc = -2 then do
        let c ← consoleWriteln stack c (ascii "swap: usage exceeds configured capacity")
        return (-1, s, c)
      else do
        let c ← consolePrintf stack c (ascii "swap: used=%u free=%u pages\n")
          [unsignedArg s.usedPages, unsignedArg (swapFreePages s)]
        return (0, s, c)

/-! ## What is read -/

/-- A number in decimal, leading zeros allowed. -/
def Decimal (text : List UInt8) : Prop := text ≠ [] ∧ ∀ c ∈ text, Digit c

instance : DecidablePred Decimal := fun text => inferInstanceAs (Decidable (text ≠ [] ∧ ∀ c ∈ text, Digit c))

theorem not_digit_iff (c : UInt8) : c < char '0' ∨ char '9' < c ↔ ¬Digit c := by
  rw [Digit, not_and_or, UInt8.not_le, UInt8.not_le]

theorem digit_word {c : UInt8} (digit : Digit c) : (c - char '0').toUInt64 = UInt64.ofNat (digitValue c) := by
  apply UInt64.toNat_inj.mp
  have value := digit_toNat digit
  rw [UInt8.toNat_toUInt32] at value
  rw [UInt8.toNat_toUInt64, value.1, UInt64.toNat_ofNat_of_lt' (Nat.lt_of_le_of_lt value.2 (by decide))]

/-- The accumulator is the number read so far, modulo the word size. -/
theorem parseU32Loop_digits {text : List UInt8} (digits : ∀ c ∈ text, Digit c) (n : Nat) :
    parseU32Loop text (UInt64.ofNat n) = some (UInt64.ofNat (readNumeral digitValue 10 n text)) := by
  induction text generalizing n with
  | nil => rfl
  | cons c text ih =>
      obtain ⟨digit, rest⟩ := List.forall_mem_cons.mp digits
      have next : UInt64.ofNat n * 10 + (c - char '0').toUInt64 = UInt64.ofNat (n * 10 + digitValue c) := by
        rw [digit_word digit, UInt64.ofNat_add, UInt64.ofNat_mul]
        rfl
      have inside : ¬(c < char '0' ∨ char '9' < c) := by
        rw [not_digit_iff, not_not]
        exact digit
      rw [parseU32Loop, readNumeral_cons, if_neg inside, next, ih rest]

theorem parseU32Loop_other {text : List UInt8} (other : ¬∀ c ∈ text, Digit c) (value : UInt64) :
    parseU32Loop text value = none := by
  induction text generalizing value with
  | nil => exact absurd (List.forall_mem_nil Digit) other
  | cons c text ih =>
      rw [parseU32Loop]
      by_cases digit : Digit c
      · rw [List.forall_mem_cons, and_iff_right digit] at other
        rw [ih other, ite_self]
      · rw [if_pos ((not_digit_iff c).mpr digit)]

theorem parseU32_eq (text : List UInt8) (valueOut : UInt64) :
    parseU32 text valueOut = if Decimal text then (1, UInt64.ofNat (groupValue text)) else (0, valueOut) := by
  unfold parseU32
  by_cases empty : text = []
  · rw [if_pos empty, if_neg fun number : Decimal text => number.1 empty]
  · rw [if_neg empty, show (0 : UInt64) = UInt64.ofNat 0 from rfl]
    by_cases digits : ∀ c ∈ text, Digit c
    · rw [parseU32Loop_digits digits, if_pos (show Decimal text from ⟨empty, digits⟩)]
      rfl
    · rw [parseU32Loop_other digits, if_neg fun number : Decimal text => digits number.2]

/-- Numbers below 2^32 are read and everything else is refused, so that the commands pass on what was typed. -/
structure ReadsNumber (text : List UInt8) (valueOut : UInt64) : Prop where
  accepts : (parseU32 text valueOut).1 = 1 ↔ Decimal text ∧ groupValue text < 2 ^ 32
  value : Decimal text → groupValue text < 2 ^ 32 → (parseU32 text valueOut).2.toNat = groupValue text
  refuses : (parseU32 text valueOut).1 ≠ 1 → parseU32 text valueOut = (0, valueOut)
  swap : ∀ name spare pages, swapRequest (name :: ascii "on" :: text :: spare) = .on pages →
    pages.toNat = groupValue text
  ping : ∀ name target spare count, pingCommand (name :: target :: text :: spare) = .ping target count →
    count.toNat = groupValue text

theorem swapRequest_on (name text : List UInt8) (spare : List (List UInt8)) :
    swapRequest (name :: ascii "on" :: text :: spare) =
      if Decimal text then .on (UInt64.ofNat (groupValue text)) else .invalid := by
  have other : ascii "on" ≠ ascii "status" := by decide
  simp only [swapRequest, if_neg other, parseU32_eq]
  by_cases number : Decimal text
  · simp only [if_pos number]
    rfl
  · simp only [if_neg number]
    rfl

theorem pingCommand_count (name target text : List UInt8) (spare : List (List UInt8)) :
    pingCommand (name :: target :: text :: spare) =
      if Decimal text then .ping target (UInt64.ofNat (groupValue text)) else .invalid := by
  simp only [pingCommand, parseU32_eq]
  by_cases number : Decimal text
  · simp only [if_pos number]
    rfl
  · simp only [if_neg number]
    rfl

/-- Exactly the numbers from 2^32 on are not read as they should be: they are accepted. -/
theorem parse_u32_exact_iff (text : List UInt8) (valueOut : UInt64) :
    ReadsNumber text valueOut ↔ ¬(Decimal text ∧ 2 ^ 32 ≤ groupValue text) := by
  constructor
  · rintro reads ⟨number, large⟩
    have accepted : (parseU32 text valueOut).1 = 1 := by rw [parseU32_eq, if_pos number]
    exact absurd (reads.accepts.mp accepted).2 (Nat.not_lt.mpr large)
  intro small
  by_cases number : Decimal text
  · have below : groupValue text < 2 ^ 32 := Nat.not_le.mp fun large => small ⟨number, large⟩
    have exactly : (UInt64.ofNat (groupValue text)).toNat = groupValue text :=
      UInt64.toNat_ofNat_of_lt' (Nat.lt_trans below (by decide))
    have read := parseU32_eq text valueOut
    rw [if_pos number] at read
    refine ⟨?_, fun _ _ => ?_, fun refused => ?_, fun name spare pages asked => ?_, fun name target spare count asked => ?_⟩
    · rw [read]
      exact iff_of_true rfl ⟨number, below⟩
    · rw [read]
      exact exactly
    · rw [read] at refused
      exact absurd rfl refused
    · rw [swapRequest_on, if_pos number] at asked
      cases asked
      exact exactly
    · rw [pingCommand_count, if_pos number] at asked
      cases asked
      exact exactly
  · have read := parseU32_eq text valueOut
    rw [if_neg number] at read
    refine ⟨?_, fun known => absurd known number, fun _ => read, fun name spare pages asked => ?_,
      fun name target spare count asked => ?_⟩
    · rw [read]
      exact iff_of_false (show ¬(0 : Int) = 1 by decide) fun both => number both.1
    · rw [swapRequest_on, if_neg number] at asked
      cases asked
    · rw [pingCommand_count, if_neg number] at asked
      cases asked

/-- `swap on 18446744073709551617` asks for one page. -/
theorem large_number_wraps :
    parseU32 (ascii "18446744073709551617") 0 = (1, 1) ∧
      swapRequest [ascii "swap", ascii "on", ascii "18446744073709551617"] = .on 1 ∧
      ¬ReadsNumber (ascii "18446744073709551617") 0 := by
  have parsed : parseU32 (ascii "18446744073709551617") 0 = (1, 1) := by decide
  refine ⟨parsed, by decide, fun reads => ?_⟩
  have small := (reads.accepts.mp (by rw [parsed])).2
  exact absurd small (by decide)

/-! ## Every sequence of commands -/

/-- The free pages are not negative. -/
def SwapInv (s : Swap) : Prop := s.usedPages ≤ s.totalPages

namespace SwapInv
variable {s : Swap}

theorem enable (inv : SwapInv s) (pages : UInt64) : SwapInv (swapEnable s pages).2 := by
  unfold SwapInv at *
  by_cases none : pages = 0
  · simp only [swapEnable, none, ne_eq, not_true_eq_false, if_false]
    split_ifs with empty more
    · exact inv
    · exact UInt64.le_refl _
    · exact inv
  · simp only [swapEnable, ne_eq, none, not_false_eq_true, if_true, if_false]
    split_ifs with more
    · exact UInt64.le_refl _
    · exact UInt64.not_lt.mp more

theorem setUsed (inv : SwapInv s) (pages : UInt64) : SwapInv (swapSetUsedPages s pages).2 := by
  unfold swapSetUsedPages
  split_ifs with off large
  · exact inv
  · exact inv
  · exact UInt64.not_lt.mp large

theorem disable (s : Swap) : SwapInv (swapDisable s) := UInt64.zero_le

end SwapInv

section
variable (stack : Nat → UInt8) (c : Console)

theorem consoleWriteln_isSome {pattern : List UInt8}
    (plain : 0 ∉ pattern ∧ pattern.length < cliMaxLine ∧ bracesText pattern [] = some pattern) :
    (consoleWriteln stack c pattern).isSome := by
  obtain ⟨string, short, unchanged⟩ := plain
  rw [consoleWriteln_eq stack c string short unchanged]
  rfl

theorem consolePrintf_isSome {fmt : List UInt8} {args : List Arg} (renders : (rendering fmt args).isSome) :
    (consolePrintf stack c fmt args).isSome := by
  obtain ⟨text, known⟩ := Option.isSome_iff_exists.mp renders
  obtain ⟨after, prints⟩ := consolePrintf_returns stack c known
  rw [prints]
  rfl

end

/-- The command returns, and keeps the page counts in order. -/
def Keeps (result : Option (Int × Swap × Console)) : Prop := ∃ rc s c, result = some (rc, s, c) ∧ SwapInv s

theorem Keeps.print {printed : Option Console} (returns : printed.isSome) (rc : Int) {s : Swap} (inv : SwapInv s) :
    Keeps (printed.bind fun c => some (rc, s, c)) := by
  obtain ⟨c, rfl⟩ := Option.isSome_iff_exists.mp returns
  exact ⟨rc, s, c, rfl, inv⟩

theorem SwapInv.cmdSwap {s : Swap} (inv : SwapInv s) (stack : Nat → UInt8) (c : Console) (argv : List (List UInt8)) :
    Keeps (cmdSwap stack s c argv) := by
  unfold Mgcore.cmdSwap
  cases swapRequest argv with
  | usage => exact .print (consoleWriteln_isSome stack c (by decide +kernel)) (-1) inv
  | status => exact .print (consolePrintf_isSome stack c rfl) 0 inv
  | invalid => exact .print (consoleWriteln_isSome stack c (by decide +kernel)) (-1) inv
  | off => exact .print (consoleWriteln_isSome stack c (by decide +kernel)) 0 (SwapInv.disable s)
  | on pages =>
      have after := inv.enable pages
      dsimp only
      split_ifs
      · exact .print (consoleWriteln_isSome stack c (by decide +kernel)) (-1) after
      · exact .print (consolePrintf_isSome stack c rfl) 0 after
  | use pages =>
      have after := inv.setUsed pages
      dsimp only
      split_ifs
      · exact .print (consoleWriteln_isSome stack c (by decide +kernel)) (-1) after
      · exact .print (consoleWriteln_isSome stack c (by decide +kernel)) (-1) after
      · exact .print (consolePrintf_isSome stack c rfl) 0 after

theorem swapInit_keeps (stack : Nat → UInt8) (c : Console) (ramTotalPages : UInt64) :
    ∃ s after, swapInit stack c ramTotalPages = some (s, after) ∧ SwapInv s := by
  have printed (total : UInt64) : ∃ after,
      consolePrintf stack c (ascii "swap: initialized capacity=%u pages state=off\n") [unsignedArg total] = some after :=
    Option.isSome_iff_exists.mp (consolePrintf_isSome stack c rfl)
  obtain ⟨after, prints⟩ := printed _
  unfold swapInit
  dsimp only
  rw [prints]
  exact ⟨_, after, rfl, UInt64.zero_le⟩

def swapStep (stack : Nat → UInt8) (state : Swap × Console) (argv : List (List UInt8)) : Option (Swap × Console) :=
  (cmdSwap stack state.1 state.2 argv).map Prod.snd

/-- Whatever is typed, `swap_free_pages` does not wrap. -/
theorem swap_counts_in_order (stack : Nat → UInt8) (c : Console) (ramTotalPages : UInt64) (lines : List (List (List UInt8))) :
    ∃ start reached, swapInit stack c ramTotalPages = some start ∧ run (swapStep stack) start lines = some reached ∧
      (swapFreePages reached.1).toNat = reached.1.totalPages.toNat - reached.1.usedPages.toNat ∧ SwapInv reached.1 := by
  obtain ⟨s, after, starts, inv⟩ := swapInit_keeps stack c ramTotalPages
  have step (state : Swap × Console) (argv : List (List UInt8)) (inv : SwapInv state.1) :
      ∃ next, swapStep stack state argv = some next ∧ SwapInv next.1 := by
    obtain ⟨rc, t, console, returns, kept⟩ := inv.cmdSwap stack state.2 argv
    exact ⟨(t, console), by rw [swapStep, returns]; rfl, kept⟩
  have start : SwapInv (s, after).1 := inv
  obtain ⟨reached, runs, last⟩ : ∃ reached, run (swapStep stack) (s, after) lines = some reached ∧ SwapInv reached.1 :=
    run_isSome (fun state argv good _ => step state argv good) (fun argv _ => trivial) start
  exact ⟨(s, after), reached, starts, runs, UInt64.toNat_sub_of_le _ _ last, last⟩

end Mgcore
