import Mathlib.Algebra.GroupWithZero.Nat
import Mathlib.Logic.Function.Basic

/-!
# Shared constants

The error numbers of `include/mgcore/errno.h` that the modelled functions return, and C string
literals as byte lists (the bytes before the terminating NUL).
-/

namespace Mgcore

def ascii (text : String) : List UInt8 := text.toList.map fun c => c.toNat.toUInt8

abbrev slash : UInt8 := 47

def hz : UInt64 := 100  -- `MGCORE_HZ`

def eNOENT : Int := 2
def eIO : Int := 5
def eNOEXEC : Int := 8
def eBADF : Int := 9
def eCHILD : Int := 10
def eNOMEM : Int := 12
def eNOTDIR : Int := 20
def eISDIR : Int := 21
def eINVAL : Int := 22
def eNFILE : Int := 23
def eMFILE : Int := 24
def eNOSPC : Int := 28
def eNOTEMPTY : Int := 39

abbrev wordSize : Nat := 2 ^ 64  -- of `size_t`

/-- A `size_t` read as `ssize_t`, or an `off_t` made from one. -/
def toSigned (n : Nat) : Int := if n % wordSize < 2 ^ 63 then n % wordSize else n % wordSize - wordSize

/-- A 64-bit argument cut to `int`. -/
def toInt (n : Int) : Int := n.bmod (2 ^ 32)

/-- An `off_t` read as `size_t`. -/
def toSize (n : Int) : Nat := (n % wordSize).toNat

theorem toSigned_of_lt {n : Nat} (small : n < 2 ^ 63) : toSigned n = n := by
  unfold toSigned wordSize
  rw [if_pos (by omega)]
  omega

theorem toSize_of_lt {n : Nat} (small : n < wordSize) : toSize n = n := by
  unfold toSize
  unfold wordSize at small ⊢
  omega

end Mgcore
