import Mgcore.Cli.Swap

/-!
# Memory sizes

`print_mem_line` of `src/cli/commands/builtin.c`, with which `cmd_meminfo` prints its sizes. A size in MiB is printed as a
whole part and a number of hundredths with a point between them. The hundredths are printed without a leading zero, so that
those below 10 are read as tenths.
-/

namespace Mgcore

open Lib

def pageKib : UInt64 := 4  -- `PMM_PAGE_SIZE / 1024U`

def printMemLine (stack : Nat → UInt8) (c : Console) (label : List UInt8) (pages : UInt64) : Option Console :=
  let kib := pages * pageKib
  let mibWhole := kib / 1024
  let mibFrac := kib % 1024 * 100 / 1024
  consolePrintf stack c (ascii "%s: %u pages (%u KiB, %u.%u MiB)\n")
    [.text (some label), unsignedArg pages, unsignedArg kib, unsignedArg mibWhole, unsignedArg mibFrac]

/-! ## Decimal numbers -/

/-- The digits behind the point. -/
def fractionDigits (text : List UInt8) : List UInt8 := (text.dropWhile (· != char '.')).tail

/-- The number that a text with one or two digits behind the point denotes, in hundredths. -/
def hundredths (text : List UInt8) : Option Nat :=
  let whole := text.takeWhile (· != char '.')
  let fraction := fractionDigits text
  if Decimal whole ∧ Decimal fraction ∧ fraction.length ≤ 2 then
    some (groupValue whole * 100 + groupValue fraction * 10 ^ (2 - fraction.length))
  else none

def decimalText (n : Nat) : List UInt8 := numeral (symbolOf false) 10 n

theorem decimalText_decimal (n : Nat) : Decimal (decimalText n) := by
  refine ⟨numeral_ne_nil n, fun c member => ?_⟩
  obtain ⟨d, small, rfl⟩ := mem_numeral (by decide) member
  exact (symbolOf_decimal small).1

theorem groupValue_decimalText (n : Nat) : groupValue (decimalText n) = n :=
  readNumeral_numeral (by decide) (fun _ small => (symbolOf_decimal small).2.1) n

theorem decimalText_length (n : Nat) {k : Nat} (positive : 0 < k) : (decimalText n).length ≤ k ↔ n < 10 ^ k :=
  numeral_length_le_iff (by decide) positive

/-- Two numerals with a point between them. -/
def pointText (whole fraction : Nat) : List UInt8 := decimalText whole ++ char '.' :: decimalText fraction

theorem pointText_split (whole fraction : Nat) :
    (pointText whole fraction).takeWhile (· != char '.') = decimalText whole ∧
      fractionDigits (pointText whole fraction) = decimalText fraction := by
  have digits : ∀ c ∈ decimalText whole, (c != char '.') = true := by
    intro c member
    have digit := (decimalText_decimal whole).2 c member
    rw [bne_iff_ne]
    rintro rfl
    exact absurd digit (by decide)
  constructor
  · rw [pointText, List.takeWhile_append_of_pos digits, List.takeWhile_cons_of_neg (by simp), List.append_nil]
  · rw [fractionDigits, pointText, List.dropWhile_append_of_pos digits, List.dropWhile_cons_of_neg (by simp), List.tail_cons]

/-- Hundredths from 10 on take both places behind the point, those below 10 only the first. -/
theorem hundredths_pointText (whole : Nat) {fraction : Nat} (small : fraction < 100) :
    hundredths (pointText whole fraction) = some (whole * 100 + if fraction < 10 then fraction * 10 else fraction) ∧
      ((fractionDigits (pointText whole fraction)).length = 2 ↔ 10 ≤ fraction) := by
  obtain ⟨front, back⟩ := pointText_split whole fraction
  have positive := List.length_pos_of_ne_nil (decimalText_decimal fraction).1
  have short := (decimalText_length fraction (show 0 < 2 by decide)).mpr small
  have single := decimalText_length fraction (show 0 < 1 by decide)
  rw [pow_one] at single
  rw [back]
  refine ⟨?_, by omega⟩
  unfold hundredths
  rw [front, back]
  dsimp only
  rw [if_pos ⟨decimalText_decimal whole, decimalText_decimal fraction, short⟩, groupValue_decimalText,
    groupValue_decimalText]
  split_ifs with below
  · rw [show (decimalText fraction).length = 1 by omega]
    rfl
  · rw [show (decimalText fraction).length = 2 by omega, Nat.sub_self, pow_zero, Nat.mul_one]

/-! ## The line -/

/-- The line in front of the size in MiB. -/
def memLineFront (label : List UInt8) (pages : Nat) : List UInt8 :=
  label ++ (ascii ": " ++ (decimalText pages ++ (ascii " pages (" ++ (decimalText (pages * 4) ++ ascii " KiB, "))))

theorem rendering_memLine (label : List UInt8) (pages kib whole fraction : UInt64) (scaled : kib.toNat = pages.toNat * 4) :
    rendering (ascii "%s: %u pages (%u KiB, %u.%u MiB)\n")
        [.text (some label), .word pages, .word kib, .word whole, .word fraction] =
      some (memLineFront label pages.toNat ++ (pointText whole.toNat fraction.toNat ++ ascii " MiB)\n")) := by
  have shape : rendering (ascii "%s: %u pages (%u KiB, %u.%u MiB)\n")
        [.text (some label), .word pages, .word kib, .word whole, .word fraction] =
      some (label ++ (ascii ": " ++ (decimalText pages.toNat ++ (ascii " pages (" ++ (decimalText kib.toNat ++
        (ascii " KiB, " ++ (decimalText whole.toNat ++ (char '.' :: (decimalText fraction.toNat ++
          ascii " MiB)\n"))))))))) := rfl
  rw [shape, scaled, memLineFront, pointText]
  simp only [List.append_assoc, List.cons_append]

theorem toNat_unsigned {n : UInt64} (small : n.toNat < 2 ^ 32) : n.toUInt32.toUInt64.toNat = n.toNat := by
  rw [UInt32.toNat_toUInt64, UInt64.toNat_toUInt32, Nat.mod_eq_of_lt small]

theorem memLine_plain {label : List UInt8} (string : 0 ∉ label) (pages whole fraction : Nat) :
    0 ∉ memLineFront label pages ++ (pointText whole fraction ++ ascii " MiB)\n") := by
  have digits (n : Nat) : 0 ∉ decimalText n := fun member => absurd ((decimalText_decimal n).2 0 member) (by decide)
  have texts : 0 ∉ ascii ": " ∧ 0 ∉ ascii " pages (" ∧ 0 ∉ ascii " KiB, " ∧ 0 ∉ ascii " MiB)\n" ∧ 0 ≠ char '.' := by decide
  simp only [memLineFront, pointText, List.mem_append, List.mem_cons, string, digits, texts, or_self, not_false_eq_true]

/-- The size in MiB is printed as the decimal that it is exactly when its hundredths are 0 or at least 10. -/
theorem mem_line_decimal_iff (stack : Nat → UInt8) (c : Console) (label : List UInt8) (string : 0 ∉ label)
    (short : label.length ≤ 400) (pages : UInt64) (small : pages.toNat < 2 ^ 30) :
    ∃ text, printMemLine stack c label pages =
        some (consoleWriteN c (memLineFront label pages.toNat ++ (text ++ ascii " MiB)\n"))) ∧
      (hundredths text = some (pages.toNat * 4 * 100 / 1024) ↔ pages.toNat % 256 ≤ 2 ∨ 26 ≤ pages.toNat % 256) ∧
      ((fractionDigits text).length = 2 ↔ 26 ≤ pages.toNat % 256) := by
  have kib : (pages * pageKib).toNat = pages.toNat * 4 := by
    rw [UInt64.toNat_mul, show pageKib.toNat = 4 from rfl]
    omega
  have whole : (pages * pageKib / 1024).toNat = pages.toNat / 256 := by
    rw [UInt64.toNat_div, kib, show (1024 : UInt64).toNat = 1024 from rfl]
    omega
  have fraction : (pages * pageKib % 1024 * 100 / 1024).toNat = pages.toNat % 256 * 25 / 64 := by
    have rest : pages.toNat * 4 % 1024 = 4 * (pages.toNat % 256) := by omega
    rw [UInt64.toNat_div, UInt64.toNat_mul, UInt64.toNat_mod, kib, show (1024 : UInt64).toNat = 1024 from rfl,
      show (100 : UInt64).toNat = 100 from rfl, rest, Nat.mod_eq_of_lt (by omega)]
    omega
  obtain ⟨value, places⟩ := hundredths_pointText (pages.toNat / 256) (show pages.toNat % 256 * 25 / 64 < 100 by omega)
  have renders := rendering_memLine label pages.toUInt32.toUInt64 (pages * pageKib).toUInt32.toUInt64
    (pages * pageKib / 1024).toUInt32.toUInt64 (pages * pageKib % 1024 * 100 / 1024).toUInt32.toUInt64
    (by rw [toNat_unsigned (by omega), toNat_unsigned (by omega), kib])
  rw [toNat_unsigned (by omega), toNat_unsigned (by omega), toNat_unsigned (by omega), whole, fraction] at renders
  refine ⟨pointText (pages.toNat / 256) (pages.toNat % 256 * 25 / 64), ?_, ?_, ?_⟩
  · refine consolePrintf_eq stack c renders (memLine_plain string _ _ _) ?_
    have first := (decimalText_length pages.toNat (show 0 < 10 by decide)).mpr (by omega)
    have second := (decimalText_length (pages.toNat * 4) (show 0 < 10 by decide)).mpr (by omega)
    have third := (decimalText_length (pages.toNat / 256) (show 0 < 10 by decide)).mpr (by omega)
    have last := (decimalText_length (pages.toNat % 256 * 25 / 64) (show 0 < 10 by decide)).mpr (by omega)
    have texts : (ascii ": ").length = 2 ∧ (ascii " pages (").length = 8 ∧ (ascii " KiB, ").length = 6 ∧
      (ascii " MiB)\n").length = 6 := by decide
    have size : printfBufferSize = 512 := rfl
    simp only [memLineFront, pointText, List.length_append, List.length_cons]
    omega
  · have exactly : pages.toNat * 4 * 100 / 1024 = pages.toNat / 256 * 100 + pages.toNat % 256 * 25 / 64 := by omega
    rw [value, Option.some.injEq, exactly, Nat.add_right_inj]
    split_ifs <;> omega
  · rw [places]
    omega

/-- 26 pages are 0.10 MiB, and 512 pages are 2.0 MiB. -/
theorem mem_line_decimal_sample :
    (∃ text, printMemLine (fun _ => 0) {} (ascii "  ram.used ") 26 =
        some (consoleWriteN {} (memLineFront (ascii "  ram.used ") 26 ++ (text ++ ascii " MiB)\n"))) ∧
      hundredths text = some 10) ∧
    ∃ text, printMemLine (fun _ => 0) {} (ascii "  ram.total") 512 =
        some (consoleWriteN {} (memLineFront (ascii "  ram.total") 512 ++ (text ++ ascii " MiB)\n"))) ∧
      hundredths text = some 200 := by
  obtain ⟨first, prints, value, -⟩ := mem_line_decimal_iff (fun _ => 0) {} (ascii "  ram.used ") (by decide) (by decide) 26
    (by decide)
  obtain ⟨second, prints', value', -⟩ := mem_line_decimal_iff (fun _ => 0) {} (ascii "  ram.total") (by decide) (by decide)
    512 (by decide)
  exact ⟨⟨first, prints, value.mpr (Or.inr (by decide))⟩, second, prints', value'.mpr (Or.inl (by decide))⟩

/-- 3 pages are 0.01 MiB, and `0.1 MiB` is printed. -/
theorem small_fraction_misread :
    ∃ text, printMemLine (fun _ => 0) {} (ascii "  ram.used ") 3 =
        some (consoleWriteN {} (memLineFront (ascii "  ram.used ") 3 ++ (text ++ ascii " MiB)\n"))) ∧
      text = ascii "0.1" ∧ hundredths text = some 10 ∧ hundredths text ≠ some (3 * 4 * 100 / 1024) := by
  refine ⟨ascii "0.1", ?_, rfl, by decide +kernel, by decide +kernel⟩
  refine consolePrintf_eq (fun _ => 0) {} ?_ ?_ ?_
  · decide
  · decide
  · decide

end Mgcore
