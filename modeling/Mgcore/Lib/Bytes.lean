import Mathlib.Data.List.Basic
import Mathlib.Tactic.SplitIfs
import Mgcore.Lib.Bits

/-!
# Reading a byte string

Every read goes through `bytes[i]?`, so a computation that answers `some` has read inside the string.
`bind_isSome` is the rule for a chain of reads: the first one succeeds, and so does the rest for whatever it
found. `be16Load`, `be32Load` and their stores are the big-endian fields of a packet. `slice` is the string
that a pointer and a length denote, and `tagged` reads one as a list of tagged values.
-/

namespace Mgcore.Lib

theorem bind_isSome {α β : Type} {x : Option α} {f : α → Option β} (first : x.isSome)
    (rest : ∀ a, x = some a → (f a).isSome) : (x >>= f).isSome := by
  obtain ⟨a, found⟩ := Option.isSome_iff_exists.mp first
  subst found
  exact rest a rfl

theorem ite_isSome {α : Type*} {p : Prop} [Decidable p] {x y : Option α} (yes : p → x.isSome)
    (no : ¬p → y.isSome) : (if p then x else y).isSome := by
  split_ifs with h
  · exact yes h
  · exact no h

theorem rejected_or {α : Type*} {p : Prop} [Decidable p] {a b : α} {x : Option α}
    (result : (if p then some a else x) = some b) : b = a ∨ ¬p ∧ x = some b := by
  split_ifs at result with h
  · exact Or.inl (Option.some.inj result).symm
  · exact Or.inr ⟨h, result⟩

theorem passed {α : Type*} {p : Prop} [Decidable p] {b : α} {x : Option α}
    (result : (if p then none else x) = some b) : ¬p ∧ x = some b := by
  split_ifs at result with h
  exact ⟨h, result⟩

theorem byte_isSome {bytes : List UInt8} {i : Nat} (h : i < bytes.length) : (bytes[i]?).isSome := by
  simp [h]

def be16Load (bytes : List UInt8) (i : Nat) : Option UInt16 := do
  let high ← bytes[i]?
  let low ← bytes[i + 1]?
  some ((high.toUInt16 <<< 8) ||| low.toUInt16)

def be32 (b0 b1 b2 b3 : UInt8) : UInt32 :=
  (b0.toUInt32 <<< 24) ||| (b1.toUInt32 <<< 16) ||| (b2.toUInt32 <<< 8) ||| b3.toUInt32

def be32Load (bytes : List UInt8) (i : Nat) : Option UInt32 := do
  let b0 ← bytes[i]?
  let b1 ← bytes[i + 1]?
  let b2 ← bytes[i + 2]?
  let b3 ← bytes[i + 3]?
  some (be32 b0 b1 b2 b3)

def be16Store (value : UInt16) : List UInt8 := [(value >>> 8).toUInt8, value.toUInt8]

def be32Store (value : UInt32) : List UInt8 :=
  [(value >>> 24).toUInt8, (value >>> 16).toUInt8, (value >>> 8).toUInt8, value.toUInt8]

@[simp] theorem be16Store_length (value : UInt16) : (be16Store value).length = 2 := by simp [be16Store]
@[simp] theorem be32Store_length (value : UInt32) : (be32Store value).length = 4 := by simp [be32Store]

theorem be16Load_isSome {bytes : List UInt8} {i : Nat} (h : i + 2 ≤ bytes.length) :
    (be16Load bytes i).isSome := by
  apply bind_isSome (byte_isSome (by omega))
  intro high _
  apply bind_isSome (byte_isSome (by omega))
  intro low _
  rfl

theorem be32Load_isSome {bytes : List UInt8} {i : Nat} (h : i + 4 ≤ bytes.length) :
    (be32Load bytes i).isSome := by
  apply bind_isSome (byte_isSome (by omega))
  intro b0 _
  apply bind_isSome (byte_isSome (by omega))
  intro b1 _
  apply bind_isSome (byte_isSome (by omega))
  intro b2 _
  apply bind_isSome (byte_isSome (by omega))
  intro b3 _
  rfl

theorem be32_toNat (b0 b1 b2 b3 : UInt8) :
    (be32 b0 b1 b2 b3).toNat = b0.toNat * 2 ^ 24 + b1.toNat * 2 ^ 16 + b2.toNat * 2 ^ 8 + b3.toNat := by
  have h0 := b0.toNat_lt
  have h1 := b1.toNat_lt
  have h2 := b2.toNat_lt
  have fits0 : b0.toNat <<< 24 < 2 ^ 32 := by simp only [Nat.shiftLeft_eq]; omega
  have fits1 : b1.toNat <<< 16 < 2 ^ 32 := by simp only [Nat.shiftLeft_eq]; omega
  have fits2 : b2.toNat <<< 8 < 2 ^ 32 := by simp only [Nat.shiftLeft_eq]; omega
  rw [← or_shifted_bytes h1 h2 b3.toNat_lt]
  simp only [be32, UInt32.toNat_or, UInt32.toNat_shiftLeft, UInt8.toNat_toUInt32]
  exact congrArg₂ _ (congrArg₂ _ (congrArg₂ _ (Nat.mod_eq_of_lt fits0) (Nat.mod_eq_of_lt fits1))
    (Nat.mod_eq_of_lt fits2)) rfl

theorem be32Load_be32Store (value : UInt32) (rest : List UInt8) :
    be32Load (be32Store value ++ rest) 0 = some value := by
  have bound := value.toNat_lt
  apply congrArg some
  apply UInt32.toNat_inj.mp
  rw [be32_toNat]
  simp only [UInt32.toNat_toUInt8, UInt32.toNat_shiftRight, Nat.shiftRight_eq_div_pow, UInt32.reduceToNat,
    Nat.reduceMod, Nat.reducePow]
  omega

section
variable (value : UInt16)

theorem high_byte_toNat : ((value >>> 8).toUInt8.toUInt16 <<< 8).toNat = (value.toNat / 2 ^ 8) <<< 8 := by
  have bound := value.toNat_lt
  have high : (value >>> 8).toUInt8.toUInt16.toNat = value.toNat / 2 ^ 8 := by
    simp only [UInt8.toNat_toUInt16, UInt16.toNat_toUInt8, UInt16.toNat_shiftRight, Nat.shiftRight_eq_div_pow,
      UInt16.reduceToNat, Nat.reduceMod]
    omega
  rw [UInt16.toNat_shiftLeft, high]
  simp only [UInt16.reduceToNat, Nat.reduceMod, Nat.shiftLeft_eq]
  omega

theorem low_byte_toNat : value.toUInt8.toUInt16.toNat = value.toNat % 2 ^ 8 := by
  rw [UInt8.toNat_toUInt16, UInt16.toNat_toUInt8]

theorem bytes_joined : (value >>> 8).toUInt8.toUInt16 <<< 8 ||| value.toUInt8.toUInt16 = value := by
  apply UInt16.toNat_inj.mp
  rw [UInt16.toNat_or, high_byte_toNat, low_byte_toNat, high_or_low]

theorem be16Load_be16Store (rest : List UInt8) : be16Load (be16Store value ++ rest) 0 = some value :=
  congrArg some (bytes_joined value)

end

section
variable {before : List UInt8} {i : Nat} (within : before.length ≤ i) (rest : List UInt8)
include within

theorem getElem?_past (k : Nat) : (before ++ rest)[i + k]? = rest[i - before.length + k]? := by
  rw [List.getElem?_append_right (by omega), show i + k - before.length = i - before.length + k by omega]

theorem be16Load_past : be16Load (before ++ rest) i = be16Load rest (i - before.length) := by
  unfold be16Load
  rw [getElem?_past within, List.getElem?_append_right within]

theorem be32Load_past : be32Load (before ++ rest) i = be32Load rest (i - before.length) := by
  unfold be32Load
  rw [getElem?_past within, getElem?_past within, getElem?_past within, List.getElem?_append_right within]

end

/-! ## Slices -/

def slice (bytes : List UInt8) (start length : Nat) : List UInt8 := (bytes.drop start).take length

theorem slice_zero (bytes : List UInt8) (start : Nat) : slice bytes start 0 = [] := List.take_zero

theorem slice_length {bytes : List UInt8} {start length : Nat} (inside : start + length ≤ bytes.length) :
    (slice bytes start length).length = length := by
  simp only [slice, List.length_take, List.length_drop]
  omega

theorem slice_cons {bytes : List UInt8} {base length i : Nat} {b : UInt8} (found : bytes[base + i]? = some b)
    (more : i < length) :
    slice bytes (base + i) (length - i) = b :: slice bytes (base + (i + 1)) (length - (i + 1)) := by
  obtain ⟨h, rfl⟩ := List.getElem?_eq_some_iff.mp found
  rw [slice, slice, List.drop_eq_getElem_cons h, show length - i = length - (i + 1) + 1 by omega,
    List.take_succ_cons]
  rfl

theorem slice_succ {bytes : List UInt8} {start : Nat} {b : UInt8} (found : bytes[start]? = some b) (length : Nat) :
    slice bytes start (length + 1) = b :: slice bytes (start + 1) length :=
  @slice_cons bytes start (length + 1) 0 b found (Nat.succ_pos length)

theorem slice_take {bytes : List UInt8} {start length n : Nat} (within : n ≤ length) :
    (slice bytes start length).take n = slice bytes start n := by
  rw [slice, slice, List.take_take, Nat.min_eq_left within]

theorem slice_drop (bytes : List UInt8) (start length n : Nat) :
    (slice bytes start length).drop n = slice bytes (start + n) (length - n) := by
  rw [slice, slice, List.drop_take, List.drop_drop]

theorem slice_getElem? {bytes : List UInt8} {start length i : Nat} (within : i < length) :
    (slice bytes start length)[i]? = bytes[start + i]? := by
  rw [slice, List.getElem?_take_of_lt within, List.getElem?_drop]

theorem slice_of_drop {bytes text : List UInt8} {cursor : Nat} (here : bytes.drop cursor = text) (k n : Nat) :
    slice bytes (cursor + k) n = slice text k n := by
  rw [slice, slice, ← here, List.drop_drop]

theorem slice_middle {before part after : List UInt8} {k n : Nat} (start : before.length = k) (length : part.length = n) :
    slice (before ++ (part ++ after)) k n = part := by
  rw [slice, List.drop_left' start, List.take_left' length]

theorem be32Load_slice {bytes : List UInt8} {start length : Nat} (four : 4 ≤ length) :
    be32Load (slice bytes start length) 0 = be32Load bytes start := by
  simp only [be32Load]
  rw [slice_getElem? (by omega), slice_getElem? (by omega), slice_getElem? (by omega), slice_getElem? (by omega)]
  rfl

/-! ## Tagged values -/

section
variable (pad stop : UInt8)

/-- A value is a tag, a length and as many bytes. Padding is skipped; the list ends at `stop`, at the end of
the string and at a value that is cut off. -/
def taggedLoop : Nat → List UInt8 → List (UInt8 × List UInt8)
  | 0, _ => []
  | _ + 1, [] => []
  | fuel + 1, tag :: rest =>
      if tag = stop then []
      else if tag = pad then taggedLoop fuel rest
      else match rest with
        | [] => []
        | length :: rest =>
            if rest.length < length.toNat then []
            else (tag, rest.take length.toNat) :: taggedLoop fuel (rest.drop length.toNat)

def tagged (bytes : List UInt8) : List (UInt8 × List UInt8) := taggedLoop pad stop (bytes.length + 1) bytes

end

end Mgcore.Lib
