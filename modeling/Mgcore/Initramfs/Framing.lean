import Mgcore.Initramfs.Format

/-!
# The frame of an entry

The packer computes the name field and both paddings from the number of characters of the name, and writes as many
bytes as its encoding has. The two are the same for an ASCII name; any other name is announced too short, and the
data and the next entry are not where a reader looks for them.
-/

namespace Mgcore

open Lib

/-! ## Characters and bytes -/

theorem utf8EncodeChar_length_pos (c : Char) : 0 < (String.utf8EncodeChar c).length := by
  rw [String.length_utf8EncodeChar]
  exact c.utf8Size_pos

theorem utf8EncodeChar_one {c : Char} (one : (String.utf8EncodeChar c).length ≤ 1) : c.toNat < 128 := by
  have single : c.utf8Size = 1 := by
    have positive := c.utf8Size_pos
    rw [String.length_utf8EncodeChar] at one
    omega
  have small := Char.utf8Size_eq_one_iff.mp single
  exact Nat.lt_succ_of_le (UInt32.le_iff_toNat_le.mp small)

theorem length_le_encodeUtf8 (name : List Char) : name.length ≤ (encodeUtf8 name).length := by
  induction name with
  | nil => exact le_rfl
  | cons c name ih =>
      have first := utf8EncodeChar_length_pos c
      rw [encodeUtf8, List.flatMap_cons, List.length_append, List.length_cons]
      rw [encodeUtf8] at ih
      omega

theorem ascii_of_encoded_length {name : List Char} (same : (encodeUtf8 name).length ≤ name.length) :
    ∀ c ∈ name, c.toNat < 128 := by
  induction name with
  | nil => exact List.forall_mem_nil _
  | cons c name ih =>
      have first := utf8EncodeChar_length_pos c
      have rest := length_le_encodeUtf8 name
      rw [encodeUtf8, List.flatMap_cons, List.length_append, List.length_cons] at same
      rw [encodeUtf8] at rest
      rw [List.forall_mem_cons]
      constructor
      · apply utf8EncodeChar_one
        omega
      · apply ih
        rw [encodeUtf8]
        omega

/-! ## The frame -/

/-- What a reader of the format expects of the bytes of one entry: the header is 110 bytes long, its two sizes are those
of the name with its terminator and of the data, the data starts at the next boundary of four bytes, and behind the
next boundary after it comes whatever is written next. -/
structure Framed (name : List Char) (mode : Nat) (data : List UInt8) : Prop where
  magic : slice (writeEntry name mode data) 0 6 = ascii "070701"
  nameField : (parseCpioHex (slice (writeEntry name mode data) 94 8)).map UInt32.toNat =
    some (encodeUtf8 name ++ [0]).length
  dataField : (parseCpioHex (slice (writeEntry name mode data) 54 8)).map UInt32.toNat = some data.length
  named : slice (writeEntry name mode data) 110 (encodeUtf8 name ++ [0]).length = encodeUtf8 name ++ [0]
  placed : slice (writeEntry name mode data) (align4 (110 + (encodeUtf8 name ++ [0]).length)) data.length = data
  aligned : 4 ∣ (writeEntry name mode data).length
  next : ∀ rest, (writeEntry name mode data ++ rest).drop
    (align4 (110 + (encodeUtf8 name ++ [0]).length) + align4 data.length) = rest

section
variable {name : List Char} {mode : Nat} {data : List UInt8}

theorem four_dvd_align4 (n : Nat) : 4 ∣ align4 n := ⟨(n + 3) / 4, Nat.mul_comm _ _⟩

theorem hexField_toNat {n : Nat} (small : n < 2 ^ 32) : (parseCpioHex (hex08 n)).map UInt32.toNat = some n := by
  rw [parseCpioHex_hex08 small]
  exact congrArg some (Nat.mod_eq_of_lt small)

theorem writeEntry_slices (fits : HeaderFits name mode data) :
    slice (writeEntry name mode data) 0 6 = ascii "070701" ∧
    slice (writeEntry name mode data) 54 8 = hex08 data.length ∧
    slice (writeEntry name mode data) 94 8 = hex08 (name.length + 1) := by
  obtain ⟨magic, -, dataField, nameField⟩ := entryHeader_slices fits (entryBody name data)
  rw [← writeEntry_eq] at magic dataField nameField
  exact ⟨magic, dataField, nameField⟩

/-- A field of eight digits holds less than 2³², and an encoding has at least as many bytes as there are characters. -/
theorem Framed.fits (framed : Framed name mode data) (mode_lt : mode < 2 ^ 32) (data_lt : data.length < 2 ^ 32) :
    HeaderFits name mode data := by
  obtain ⟨v, -, value⟩ := Option.map_eq_some_iff.mp framed.nameField
  have bound := v.toNat_lt
  have longer := length_le_encodeUtf8 name
  rw [value, List.length_append, List.length_singleton] at bound
  exact ⟨mode_lt, data_lt, by omega⟩

theorem Framed.ascii (framed : Framed name mode data) (fits : HeaderFits name mode data) :
    ∀ c ∈ name, c.toNat < 128 := by
  have field := framed.nameField
  rw [(writeEntry_slices fits).2.2, hexField_toNat fits.name_lt, Option.some.injEq, List.length_append,
    List.length_singleton] at field
  apply ascii_of_encoded_length
  omega

theorem HeaderFits.framed (fits : HeaderFits name mode data) (small : ∀ c ∈ name, c.toNat < 128) :
    Framed name mode data := by
  have encoded : (encodeUtf8 name ++ [0]).length = name.length + 1 := by
    rw [List.length_append, encoded_length small, List.length_singleton]
  have header := entryHeader_length fits
  have length := writeEntry_length fits small
  obtain ⟨magic, dataField, nameField⟩ := writeEntry_slices fits
  constructor
  · exact magic
  · rw [nameField, hexField_toNat fits.name_lt, encoded]
  · rw [dataField, hexField_toNat fits.data_lt]
  · rw [writeEntry_eq, entryBody]
    exact slice_middle header rfl
  · rw [writeEntry_split, encoded]
    exact slice_middle (entryFront_length fits small) rfl
  · rw [length]
    exact dvd_add (four_dvd_align4 _) (four_dvd_align4 _)
  · intro rest
    rw [encoded]
    exact List.drop_left' length

/-- An entry is framed as the format says exactly if its name is ASCII and its length fits the field. -/
theorem write_entry_framed_iff (mode_lt : mode < 2 ^ 32) (data_lt : data.length < 2 ^ 32) :
    Framed name mode data ↔ (∀ c ∈ name, c.toNat < 128) ∧ name.length + 1 < 2 ^ 32 := by
  constructor
  · intro framed
    have fits := framed.fits mode_lt data_lt
    exact ⟨framed.ascii fits, fits.name_lt⟩
  · rintro ⟨small, name_lt⟩
    exact HeaderFits.framed ⟨mode_lt, data_lt, name_lt⟩ small

end

theorem write_entry_framed_iff_sample :
    regMode < 2 ^ 32 ∧ (ascii "#!").length < 2 ^ 32 ∧ Framed ['s', 'h'] regMode (ascii "#!") := by
  have mode_lt : regMode < 2 ^ 32 := Nat.lt_trans (show regMode < 2 ^ 16 by decide) (by omega)
  have data_lt : (ascii "#!").length < 2 ^ 32 := Nat.lt_trans (show (ascii "#!").length < 3 by decide) (by omega)
  exact ⟨mode_lt, data_lt, (write_entry_framed_iff mode_lt data_lt).mpr (by simp)⟩

/-- `é` is one character and two bytes: the field says two bytes with the terminator where three are written. -/
theorem accented_name_misframed :
    '\x00' ∉ ['é'] ∧ ¬Framed ['é'] regMode [] := by
  refine ⟨by decide, fun framed => ?_⟩
  have field := framed.nameField
  have two : (parseCpioHex (slice (writeEntry ['é'] regMode []) 94 8)).map UInt32.toNat = some 2 := by decide +kernel
  rw [two] at field
  exact absurd field (by decide)

end Mgcore
