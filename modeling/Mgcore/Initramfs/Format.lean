import Mathlib.Data.Nat.Digits.Lemmas
import Mgcore.Initramfs.Model
import Mgcore.Lib.Bits

/-!
# One entry of the archive

The packer writes thirteen fields of eight digits, then the name and the data, each padded to four bytes. Read
back at the offsets 14, 54 and 94 and with the kernel's 32-bit rounding, an entry gives its mode, its name and
its data, and the cursor moves to the byte behind it.
-/

namespace Mgcore

open Lib

/-! ## Hexadecimal fields -/

theorem hexValue_hexDigit {d : Nat} (digit : d < 16) : hexValue (hexDigit d) = some d.toUInt32 := by
  have all : ∀ i : Fin 16, hexValue (hexDigit i) = some i.val.toUInt32 := by decide
  exact all ⟨d, digit⟩

def digitsValue (digits : List Nat) (v : Nat) : Nat := digits.foldl (fun v d => v * 16 + d) v

theorem le_digitsValue (digits : List Nat) (v : Nat) : v ≤ digitsValue digits v := by
  induction digits generalizing v with
  | nil => exact le_rfl
  | cons d digits ih =>
      have step := ih (v * 16 + d)
      simp only [digitsValue, List.foldl_cons] at step ⊢
      omega

theorem shiftLeft_or_digit {v : UInt32} {d : Nat} (digit : d < 16) (fits : v.toNat * 16 + d < 2 ^ 32) :
    ((v <<< 4) ||| d.toUInt32).toNat = v.toNat * 16 + d := by
  have low : d.toUInt32.toNat = d := Nat.mod_eq_of_lt (by omega)
  have high : (v <<< 4).toNat = v.toNat <<< 4 := by
    rw [UInt32.toNat_shiftLeft]
    apply Nat.mod_eq_of_lt
    rw [Nat.shiftLeft_eq]
    change v.toNat * 2 ^ 4 < 2 ^ 32
    omega
  rw [UInt32.toNat_or, low, high, ← Nat.shiftLeft_add_eq_or_of_lt digit, Nat.shiftLeft_eq]

theorem foldlM_pushHex {digits : List Nat} (all : ∀ d ∈ digits, d < 16) (v : UInt32)
    (fits : digitsValue digits v.toNat < 2 ^ 32) :
    (digits.map hexDigit).foldlM pushHex v = some (digitsValue digits v.toNat).toUInt32 := by
  induction digits generalizing v with
  | nil => exact congrArg some UInt32.ofNat_toNat.symm
  | cons d digits ih =>
      have digit : d < 16 := all d (by simp)
      change digitsValue digits (v.toNat * 16 + d) < 2 ^ 32 at fits
      have grows := le_digitsValue digits (v.toNat * 16 + d)
      have joined := shiftLeft_or_digit digit (show v.toNat * 16 + d < 2 ^ 32 by omega)
      rw [List.map_cons, List.foldlM_cons, pushHex, hexValue_hexDigit digit]
      change (digits.map hexDigit).foldlM pushHex ((v <<< 4) ||| d.toUInt32) =
        some (digitsValue digits (v.toNat * 16 + d)).toUInt32
      rw [← joined] at fits ⊢
      exact ih (fun d member => all d (by simp [member])) _ fits

def paddedDigits (n : Nat) : List Nat :=
  List.replicate (8 - (Nat.digits 16 n).length) 0 ++ (Nat.digits 16 n).reverse

theorem hex08_eq (n : Nat) : hex08 n = (paddedDigits n).map hexDigit := by
  rw [hex08, paddedDigits, List.leftpad, List.map_append, List.map_replicate]
  simp [hexDigit]

theorem paddedDigits_value (n : Nat) : digitsValue (paddedDigits n) 0 = n := by
  have zeros : ∀ k, digitsValue (List.replicate k 0) 0 = 0 := by
    intro k
    induction k with
    | zero => rfl
    | succ k ih => simpa [digitsValue, List.replicate_succ] using ih
  have split : digitsValue (paddedDigits n) 0 = digitsValue (Nat.digits 16 n).reverse 0 := by
    rw [digitsValue, paddedDigits, List.foldl_append]
    exact congrArg (digitsValue (Nat.digits 16 n).reverse) (zeros _)
  rw [split, digitsValue, List.foldl_reverse]
  have folded := Nat.ofDigits_digits 16 n
  rw [Nat.ofDigits_eq_foldr] at folded
  simpa [Nat.mul_comm, Nat.add_comm] using folded

theorem paddedDigits_lt (n : Nat) : ∀ d ∈ paddedDigits n, d < 16 := by
  intro d member
  rcases List.mem_append.mp member with zero | digit
  · rw [List.eq_of_mem_replicate zero]
    decide
  · exact Nat.digits_lt_base (by decide) (List.mem_reverse.mp digit)

theorem hex08_length {n : Nat} (small : n < 2 ^ 32) : (hex08 n).length = 8 := by
  have digits : (Nat.digits 16 n).length ≤ 8 := (Nat.digits_length_le_iff (by decide) n).mpr small
  rw [hex08_eq, paddedDigits]
  simp only [List.length_map, List.length_append, List.length_replicate, List.length_reverse]
  omega

theorem parseCpioHex_hex08 {n : Nat} (small : n < 2 ^ 32) : parseCpioHex (hex08 n) = some n.toUInt32 := by
  have value := paddedDigits_value n
  rw [parseCpioHex, hex08_eq, foldlM_pushHex (paddedDigits_lt n) 0]
  · exact congrArg (fun v => some v.toUInt32) value
  · change digitsValue (paddedDigits n) 0 < 2 ^ 32
    rw [value]
    exact small

/-! ## Alignment -/

theorem le_align4 (n : Nat) : n ≤ align4 n := by
  unfold align4
  omega

theorem alignSize_toNat {size : UInt32} (small : size.toNat + 3 < 2 ^ 32) : (alignSize size).toNat = align4 size.toNat := by
  have mask : (~~~3 : UInt32).toNat = (2 ^ 30 - 1) <<< 2 := by decide
  have sum : (size + 3).toNat = size.toNat + 3 := by
    rw [UInt32.toNat_add]
    exact Nat.mod_eq_of_lt small
  rw [alignSize, UInt32.toNat_and, mask, sum, and_shiftLeft_mask, align4]
  omega

/-! ## Reading an entry back -/

def entryBody (name : List Char) (data : List UInt8) : List UInt8 :=
  (encodeUtf8 name ++ [0]) ++ (List.replicate (align4 (110 + (name.length + 1)) - (110 + (name.length + 1))) 0 ++
    (data ++ List.replicate (align4 data.length - data.length) 0))

def entryHeader (name : List Char) (mode : Nat) (data : List UInt8) : List UInt8 :=
  ascii "070701" ++ (headerFields mode data.length (name.length + 1)).flatMap hex08

theorem writeEntry_eq (name : List Char) (mode : Nat) (data : List UInt8) :
    writeEntry name mode data = entryHeader name mode data ++ entryBody name data := by
  simp only [writeEntry, entryHeader, entryBody, List.append_assoc]

theorem encodeUtf8_ascii {name : List Char} (small : ∀ c ∈ name, c.toNat < 128) :
    encodeUtf8 name = name.map fun c => c.toNat.toUInt8 := by
  induction name with
  | nil => rfl
  | cons c name ih =>
      have one : c.val.toNat ≤ 127 := Nat.le_of_lt_succ (small c (by simp))
      rw [encodeUtf8, List.flatMap_cons, List.map_cons, String.utf8EncodeChar]
      simp only [one, if_true]
      exact congrArg _ (ih fun d member => small d (by simp [member]))

/-- What the kernel relies on: the numbers fit eight digits and the name has as many bytes as characters. -/
structure Packable (name : List Char) (mode : Nat) (data : List UInt8) : Prop where
  mode_lt : mode < 2 ^ 32
  data_lt : data.length + 3 < 2 ^ 32
  name_lt : 110 + (name.length + 1) + 3 < 2 ^ 32
  ascii : ∀ c ∈ name, c.toNat < 128
  terminated : '\x00' ∉ name

structure HeaderFits (name : List Char) (mode : Nat) (data : List UInt8) : Prop where
  mode_lt : mode < 2 ^ 32
  data_lt : data.length < 2 ^ 32
  name_lt : name.length + 1 < 2 ^ 32

section
variable {name : List Char} {mode : Nat} {data : List UInt8}

theorem Packable.fits (packable : Packable name mode data) : HeaderFits name mode data := by
  obtain ⟨mode_lt, data_lt, name_lt, -, -⟩ := packable
  exact ⟨mode_lt, by omega, by omega⟩

theorem entryHeader_fields (fits : HeaderFits name mode data) :
    ∀ n ∈ headerFields mode data.length (name.length + 1), (hex08 n).length = 8 := by
  obtain ⟨mode_lt, data_lt, name_lt⟩ := fits
  intro n member
  apply hex08_length
  simp only [headerFields, List.mem_cons, List.not_mem_nil, or_false] at member
  rcases member with rfl | rfl | rfl | rfl | rfl | rfl | rfl | rfl | rfl | rfl | rfl | rfl | rfl
  all_goals omega

theorem entryHeader_length (fits : HeaderFits name mode data) : (entryHeader name mode data).length = 110 := by
  have fields := entryHeader_fields fits
  simp only [headerFields, List.forall_mem_cons] at fields
  obtain ⟨h0, h1, -, -, h4, -, h6, -, -, -, -, h11, -⟩ := fields
  simp only [entryHeader, headerFields, List.flatMap_cons, List.flatMap_nil, List.length_append, List.length_nil,
    h0, h1, h4, h6, h11]
  rfl

theorem entryHeader_slices (fits : HeaderFits name mode data) (rest : List UInt8) :
    slice (entryHeader name mode data ++ rest) 0 6 = ascii "070701" ∧
    slice (entryHeader name mode data ++ rest) 14 8 = hex08 mode ∧
    slice (entryHeader name mode data ++ rest) 54 8 = hex08 data.length ∧
    slice (entryHeader name mode data ++ rest) 94 8 = hex08 (name.length + 1) := by
  have fields := entryHeader_fields fits
  simp only [headerFields, List.forall_mem_cons] at fields
  obtain ⟨h0, h1, -, -, h4, -, h6, -, -, -, -, h11, -⟩ := fields
  have magic : (ascii "070701").length = 6 := rfl
  simp only [entryHeader, headerFields, List.flatMap_cons, List.flatMap_nil, List.append_assoc, List.nil_append]
  refine ⟨?_, ?_, ?_, ?_⟩
  · exact List.take_left' magic
  · rw [← List.append_assoc]
    exact slice_middle (by simp [magic, h0]) h1
  · iterate 6 rw [← List.append_assoc]
    exact slice_middle (by simp [magic, h0, h1, h4]) h6
  · iterate 11 rw [← List.append_assoc]
    exact slice_middle (by simp [magic, h0, h1, h4, h6]) h11

theorem encoded_length (small : ∀ c ∈ name, c.toNat < 128) : (encodeUtf8 name).length = name.length := by
  rw [encodeUtf8_ascii small, List.length_map]

theorem writeEntry_split (name : List Char) (mode : Nat) (data : List UInt8) :
    writeEntry name mode data =
      (entryHeader name mode data ++ (encodeUtf8 name ++ [0]) ++
        List.replicate (align4 (110 + (name.length + 1)) - (110 + (name.length + 1))) 0) ++
      (data ++ List.replicate (align4 data.length - data.length) 0) := by
  simp only [writeEntry_eq, entryBody, List.append_assoc]

theorem entryFront_length (fits : HeaderFits name mode data) (small : ∀ c ∈ name, c.toNat < 128) :
    (entryHeader name mode data ++ (encodeUtf8 name ++ [0]) ++
      List.replicate (align4 (110 + (name.length + 1)) - (110 + (name.length + 1))) 0).length =
      align4 (110 + (name.length + 1)) := by
  have aligned := le_align4 (110 + (name.length + 1))
  simp only [List.length_append, List.length_replicate, List.length_singleton, entryHeader_length fits,
    encoded_length small]
  omega

theorem writeEntry_length (fits : HeaderFits name mode data) (small : ∀ c ∈ name, c.toNat < 128) :
    (writeEntry name mode data).length = align4 (110 + (name.length + 1)) + align4 data.length := by
  have aligned := le_align4 data.length
  rw [writeEntry_split, List.length_append, entryFront_length fits small, List.length_append, List.length_replicate]
  omega

theorem zero_notMem_encoded (packable : Packable name mode data) : (0 : UInt8) ∉ encodeUtf8 name := by
  rw [encodeUtf8_ascii packable.ascii]
  intro member
  obtain ⟨c, inName, zero⟩ := List.mem_map.mp member
  have small := packable.ascii c inName
  have code : c.toNat = 0 := by
    have value := congrArg UInt8.toNat zero
    change c.toNat % 256 = 0 at value
    omega
  have isZero : c = '\x00' := Char.toNat_inj.mp code
  exact packable.terminated (isZero ▸ inName)

section
variable {archive rest : List UInt8} {cursor : Nat}
  (here : archive.drop cursor = writeEntry name mode data ++ rest) (packable : Packable name mode data)
include here packable

theorem entry_inside : cursor + (align4 (110 + (name.length + 1)) + align4 data.length) + rest.length = archive.length := by
  have length := congrArg List.length here
  rw [List.length_drop, List.length_append, writeEntry_length packable.fits packable.ascii] at length
  have positive := le_align4 (110 + (name.length + 1))
  omega

theorem entry_next : archive.drop (cursor + (align4 (110 + (name.length + 1)) + align4 data.length)) = rest := by
  rw [← List.drop_drop, here]
  exact List.drop_left' (writeEntry_length packable.fits packable.ascii)

theorem entry_name (cwd : List UInt8) : entryName cwd archive (cursor + 110) = some (encodeUtf8 name) := by
  have behind : archive.drop (cursor + 110) = encodeUtf8 name ++ 0 :: (List.replicate
      (align4 (110 + (name.length + 1)) - (110 + (name.length + 1))) 0 ++
      (data ++ List.replicate (align4 data.length - data.length) 0) ++ rest) := by
    rw [← List.drop_drop, here, writeEntry_eq, List.append_assoc, List.drop_left' (entryHeader_length packable.fits)]
    simp [entryBody]
  have plain : ∀ b ∈ encodeUtf8 name, decide (b ≠ 0) = true := by
    intro b member
    have nonzero : b ≠ 0 := fun zero => zero_notMem_encoded packable (zero ▸ member)
    simp [nonzero]
  simp only [entryName, behind]
  rw [if_pos (by simp), List.takeWhile_append_of_pos plain]
  simp

theorem entry_data :
    slice archive (cursor + align4 (110 + (name.length + 1))) data.length = data := by
  rw [slice_of_drop here, writeEntry_split, List.append_assoc, List.append_assoc data]
  exact slice_middle (entryFront_length packable.fits packable.ascii) rfl

theorem mountLoop_entry (cwd : List UInt8) (fuel : Nat) (s : Tmpfs) :
    mountLoop cwd archive (fuel + 1) cursor s =
      if encodeUtf8 name = ascii "TRAILER!!!" then some (0, s)
      else if encodeUtf8 name = ascii "." then
        mountLoop cwd archive fuel (cursor + (align4 (110 + (name.length + 1)) + align4 data.length)) s
      else (mountNode s (normalizePath cwd (encodeUtf8 name)) mode.toUInt32 data).bind
        (mountLoop cwd archive fuel (cursor + (align4 (110 + (name.length + 1)) + align4 data.length))) := by
  obtain ⟨magic, modeField, dataField, nameField⟩ :=
    entryHeader_slices packable.fits (entryBody name data ++ rest)
  rw [← List.append_assoc, ← writeEntry_eq] at magic modeField dataField nameField
  have magic' : slice archive cursor 6 = ascii "070701" := (slice_of_drop here 0 6).trans magic
  have modeField' : parseCpioHex (slice archive (cursor + 14) 8) = some mode.toUInt32 := by
    rw [slice_of_drop here, modeField, parseCpioHex_hex08 packable.mode_lt]
  have dataField' : parseCpioHex (slice archive (cursor + 54) 8) = some data.length.toUInt32 := by
    have fits := packable.data_lt
    rw [slice_of_drop here, dataField, parseCpioHex_hex08 (by omega)]
  have nameField' : parseCpioHex (slice archive (cursor + 94) 8) = some (name.length + 1).toUInt32 := by
    have fits := packable.name_lt
    rw [slice_of_drop here, nameField, parseCpioHex_hex08 (by omega)]
  have entryText := entry_name here packable cwd
  have contents := entry_data here packable
  have inside := entry_inside here packable
  have aligned := le_align4 (110 + (name.length + 1))
  have alignedData := le_align4 data.length
  obtain ⟨-, data_lt, name_lt, -, -⟩ := packable
  have dataSize : data.length.toUInt32.toNat = data.length := Nat.mod_eq_of_lt (by omega)
  have nameSize : (name.length + 1).toUInt32.toNat = name.length + 1 := Nat.mod_eq_of_lt (by omega)
  have named : (name.length + 1).toUInt32 ≠ 0 := by
    intro zero
    rw [zero] at nameSize
    cases nameSize
  have sum : (110 + (name.length + 1).toUInt32).toNat = 110 + (name.length + 1) := by
    rw [UInt32.toNat_add, nameSize, show (110 : UInt32).toNat = 110 from rfl]
    exact Nat.mod_eq_of_lt (by omega)
  have start : (alignSize (110 + (name.length + 1).toUInt32)).toNat = align4 (110 + (name.length + 1)) := by
    rw [alignSize_toNat (by rw [sum]; exact name_lt), sum]
  have behind : (alignSize data.length.toUInt32).toNat = align4 data.length := by
    rw [alignSize_toNat (by rw [dataSize]; exact data_lt), dataSize]
  rw [mountLoop, if_pos (by omega), magic', if_neg (not_not.mpr rfl), modeField', dataField', nameField']
  simp only [Option.getD_some, nameSize, dataSize, start, behind, entryText, contents, Option.bind_eq_bind,
    Option.bind_some, named, false_or, Nat.add_assoc]
  rw [if_neg (by omega)]
  simp only [if_neg (show ¬archive.length < cursor + (align4 (110 + (name.length + 1)) + data.length) by omega)]

end

end

end Mgcore
