import Mathlib.Data.Finset.Range
import Mathlib.Data.Finset.Card
import Mathlib.Logic.Function.Basic

/-!
# A packed bitmap

Bit `i` of a byte array is bit `i % 8` of byte `i / 8`. Setting and clearing one bit leaves all others alone, and
`zeros bitmap n` is the set of the clear ones below `n`: setting a bit erases it from that set, clearing one inserts it.
-/

namespace Mgcore.Lib
open Function

def bitMask (i : Nat) : UInt8 := 1 <<< UInt8.ofNat (i % 8)

def bitSet (bitmap : Nat → UInt8) (i : Nat) : Nat → UInt8 :=
  update bitmap (i / 8) (bitmap (i / 8) ||| bitMask i)

def bitClear (bitmap : Nat → UInt8) (i : Nat) : Nat → UInt8 :=
  update bitmap (i / 8) (bitmap (i / 8) &&& ~~~bitMask i)

def bitTest (bitmap : Nat → UInt8) (i : Nat) : Bool := bitmap (i / 8) &&& bitMask i ≠ 0

theorem bitMask_toBitVec (i : Nat) : (bitMask i).toBitVec = BitVec.twoPow 8 (i % 8) := by
  have small : i % 8 < 8 := Nat.mod_lt _ (by decide)
  have shift : (UInt8.ofNat (i % 8)).toBitVec % 8 = BitVec.ofNat 8 (i % 8) := by
    apply BitVec.eq_of_toNat_eq
    show (UInt8.ofNat (i % 8)).toNat % 8 = (BitVec.ofNat 8 (i % 8)).toNat
    rw [UInt8.toNat_ofNat', BitVec.toNat_ofNat]
    omega
  rw [bitMask, UInt8.toBitVec_shiftLeft, shift, BitVec.shiftLeft_eq', BitVec.twoPow_eq, BitVec.toNat_ofNat,
    Nat.mod_eq_of_lt (by omega)]
  rfl

theorem bitTest_eq (bitmap : Nat → UInt8) (i : Nat) :
    bitTest bitmap i = (bitmap (i / 8)).toBitVec.getLsbD (i % 8) := by
  have small : i % 8 < 8 := Nat.mod_lt _ (by decide)
  have nonzero : BitVec.twoPow 8 (i % 8) ≠ 0#8 := by
    intro zero
    have bit := congrArg (fun v => v.getLsbD (i % 8)) zero
    simp [small] at bit
  simp only [bitTest, ne_eq, ← UInt8.toBitVec_inj, UInt8.toBitVec_and, bitMask_toBitVec, BitVec.and_twoPow]
  cases (bitmap (i / 8)).toBitVec.getLsbD (i % 8) with
  | false => simp
  | true => simpa using nonzero

/-- Two bits are the same if they are in the same place of the same byte. -/
theorem bit_place {i j : Nat} (byte : j / 8 = i / 8) (place : i % 8 = j % 8) : j = i := by
  omega

theorem bitTest_bitSet (bitmap : Nat → UInt8) (i j : Nat) :
    bitTest (bitSet bitmap i) j = (bitTest bitmap j || decide (j = i)) := by
  rw [bitTest_eq, bitTest_eq, bitSet]
  have small : j % 8 < 8 := Nat.mod_lt _ (by decide)
  by_cases byte : j / 8 = i / 8
  · rw [byte, update_self, UInt8.toBitVec_or, bitMask_toBitVec, BitVec.getLsbD_or, BitVec.getLsbD_twoPow]
    by_cases place : i % 8 = j % 8
    · simp [bit_place byte place, small, place]
    · have other : j ≠ i := fun same => place (by rw [same])
      simp [place, other]
  · have other : j ≠ i := fun same => byte (by rw [same])
    simp [update_of_ne byte, other]

theorem bitTest_bitClear (bitmap : Nat → UInt8) (i j : Nat) :
    bitTest (bitClear bitmap i) j = (bitTest bitmap j && decide (j ≠ i)) := by
  rw [bitTest_eq, bitTest_eq, bitClear]
  have small : j % 8 < 8 := Nat.mod_lt _ (by decide)
  by_cases byte : j / 8 = i / 8
  · rw [byte, update_self, UInt8.toBitVec_and, UInt8.toBitVec_not, bitMask_toBitVec, BitVec.getLsbD_and,
      BitVec.getLsbD_not, BitVec.getLsbD_twoPow]
    by_cases place : i % 8 = j % 8
    · simp [bit_place byte place, small, place]
    · have other : j ≠ i := fun same => place (by rw [same])
      simp [place, other, small]
  · have other : j ≠ i := fun same => byte (by rw [same])
    simp [update_of_ne byte, other]

def zeros (bitmap : Nat → UInt8) (n : Nat) : Finset Nat := (Finset.range n).filter fun i => bitTest bitmap i = false

theorem mem_zeros {bitmap : Nat → UInt8} {n i : Nat} : i ∈ zeros bitmap n ↔ i < n ∧ bitTest bitmap i = false := by
  simp [zeros]

theorem zeros_bitSet (bitmap : Nat → UInt8) (n i : Nat) : zeros (bitSet bitmap i) n = (zeros bitmap n).erase i := by
  ext j
  simp only [Finset.mem_erase, mem_zeros, bitTest_bitSet, Bool.or_eq_false_iff, decide_eq_false_iff_not]
  exact ⟨fun h => ⟨h.2.2, h.1, h.2.1⟩, fun h => ⟨h.2.1, h.2.2, h.1⟩⟩

theorem zeros_bitClear (bitmap : Nat → UInt8) {n i : Nat} (inside : i < n) :
    zeros (bitClear bitmap i) n = insert i (zeros bitmap n) := by
  ext j
  simp only [Finset.mem_insert, mem_zeros, bitTest_bitClear, Bool.and_eq_false_iff, decide_eq_false_iff_not, not_not]
  constructor
  · rintro ⟨below, clear | same⟩
    · exact Or.inr ⟨below, clear⟩
    · exact Or.inl same
  · rintro (same | ⟨below, clear⟩)
    · exact ⟨same ▸ inside, Or.inr same⟩
    · exact ⟨below, Or.inl clear⟩

end Mgcore.Lib
