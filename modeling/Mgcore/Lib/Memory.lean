import Mathlib.Data.List.GetD
import Mathlib.Logic.Function.Basic
import Mathlib.Tactic.SplitIfs

/-!
# Memory addressed modulo a word size

`store`, `copy` and `load` are the byte loops of `memcpy` on a memory whose addresses wrap at `w`, `copyDown` is the loop
that starts with the last byte. As long as a range does not wrap, each is described by what it does to one address.
`overwrite` is the effect of a write on a string that grows as needed.
-/

namespace Mgcore.Lib

section
variable {β : Type*} (w : Nat)

/-- `for (i = 0; i < n; ++i) dst[i] = bytes[i];` -/
def store (mem : Nat → β) (dst : Nat) : List β → Nat → β
  | [] => mem
  | b :: bytes => store (Function.update mem (dst % w) b) (dst + 1) bytes

/-- `for (i = 0; i < n; ++i) dst[i] = src[i];` within one memory. -/
def copy (mem : Nat → β) (dst src : Nat) : Nat → Nat → β
  | 0 => mem
  | n + 1 => copy (Function.update mem (dst % w) (mem (src % w))) (dst + 1) (src + 1) n

/-- `for (i = n; i != 0; --i) dst[i - 1] = src[i - 1];` within one memory. -/
def copyDown (mem : Nat → β) (dst src : Nat) : Nat → Nat → β
  | 0 => mem
  | n + 1 => copyDown (Function.update mem ((dst + n) % w) (mem ((src + n) % w))) dst src n

def load (mem : Nat → β) (src n : Nat) : List β :=
  (List.range n).map fun i => mem ((src + i) % w)

variable {w}

@[simp] theorem load_length (mem : Nat → β) (src n : Nat) : (load w mem src n).length = n := by
  simp [load]

theorem load_getElem {mem : Nat → β} {src n i : Nat} (fits : src + n ≤ w) (h : i < (load w mem src n).length) :
    (load w mem src n)[i] = mem (src + i) := by
  have bound : i < n := by simpa using h
  simp [load, Nat.mod_eq_of_lt (show src + i < w by omega)]

theorem load_succ (mem : Nat → β) (src n : Nat) : load w mem src (n + 1) = mem (src % w) :: load w mem (src + 1) n := by
  simp only [load, List.range_succ_eq_map, List.map_cons, List.map_map, Nat.add_zero, List.cons.injEq, true_and]
  apply List.map_congr_left
  intro i _
  simp only [Function.comp_apply, Nat.succ_eq_add_one, Nat.add_assoc, Nat.add_comm 1]

theorem load_part (mem : Nat → β) {src n i k : Nat} (within : i + k ≤ n) :
    load w mem (src + i) k = ((load w mem src n).drop i).take k := by
  apply List.ext_getElem
  · simp only [load_length, List.length_take, List.length_drop]
    omega
  · intro j _ _
    simp only [load, List.getElem_take, List.getElem_drop, List.getElem_map, List.getElem_range, Nat.add_assoc]

theorem load_congr {mem mem' : Nat → β} {src src' n : Nat} (fits : src + n ≤ w) (fits' : src' + n ≤ w)
    (same : ∀ i, i < n → mem' (src' + i) = mem (src + i)) : load w mem' src' n = load w mem src n := by
  apply List.ext_getElem (by simp)
  intro i h h'
  rw [load_getElem fits', load_getElem fits]
  exact same i (by simpa using h)

theorem store_of_lt {mem : Nat → β} {dst a : Nat} {bytes : List β} (fits : dst + bytes.length ≤ w)
    (below : a < dst) : store w mem dst bytes a = mem a := by
  induction bytes generalizing mem dst with
  | nil => rfl
  | cons b bytes ih =>
      simp only [List.length_cons] at fits
      rw [store, ih (by omega) (by omega), Nat.mod_eq_of_lt (by omega), Function.update_of_ne (by omega)]

theorem store_of_ge {mem : Nat → β} {dst a : Nat} {bytes : List β} (fits : dst + bytes.length ≤ w)
    (above : dst + bytes.length ≤ a) : store w mem dst bytes a = mem a := by
  induction bytes generalizing mem dst with
  | nil => rfl
  | cons b bytes ih =>
      simp only [List.length_cons] at fits above
      rw [store, ih (by omega) (by omega), Nat.mod_eq_of_lt (by omega), Function.update_of_ne (by omega)]

theorem store_inside {mem : Nat → β} {dst i : Nat} {bytes : List β} (fits : dst + bytes.length ≤ w)
    (h : i < bytes.length) : store w mem dst bytes (dst + i) = bytes[i] := by
  induction bytes generalizing mem dst i with
  | nil => simp at h
  | cons b bytes ih =>
      simp only [List.length_cons] at fits h
      rw [store, Nat.mod_eq_of_lt (by omega)]
      cases i with
      | zero => rw [store_of_lt (by omega) (by omega)]; simp
      | succ i =>
          rw [show dst + (i + 1) = dst + 1 + i by omega, ih (by omega) (by omega)]
          rfl

theorem store_apply {mem : Nat → β} {dst a : Nat} {bytes : List β} (fits : dst + bytes.length ≤ w) (d : β) :
    store w mem dst bytes a =
      if dst ≤ a ∧ a < dst + bytes.length then bytes.getD (a - dst) d else mem a := by
  split_ifs with inside
  · obtain ⟨i, rfl⟩ : ∃ i, a = dst + i := ⟨a - dst, by omega⟩
    rw [store_inside fits (by omega), Nat.add_sub_cancel_left]
    exact (List.getD_eq_getElem _ _ _).symm
  · rcases Nat.lt_or_ge a dst with below | above
    · exact store_of_lt fits below
    · exact store_of_ge fits (by omega)

theorem store_other {mem : Nat → β} {dst a : Nat} {bytes : List β} (other : ∀ i, i < bytes.length → (dst + i) % w ≠ a) :
    store w mem dst bytes a = mem a := by
  induction bytes generalizing mem dst with
  | nil => rfl
  | cons b bytes ih =>
      have first : dst % w ≠ a := other 0 (Nat.succ_pos _)
      rw [store, ih, Function.update_of_ne (Ne.symm first)]
      intro i inside
      have later := other (i + 1) (Nat.succ_lt_succ inside)
      rwa [Nat.add_comm i, ← Nat.add_assoc] at later

/-- Across the end of the memory as well, a load finds what was stored. -/
theorem load_store (mem : Nat → β) {dst : Nat} {bytes : List β} (short : bytes.length ≤ w) :
    load w (store w mem dst bytes) dst bytes.length = bytes := by
  induction bytes generalizing mem dst with
  | nil => rfl
  | cons b bytes ih =>
      rw [List.length_cons] at short
      have first : store w mem dst (b :: bytes) (dst % w) = b := by
        rw [store, store_other, Function.update_self]
        intro i inside same
        have whole := Nat.sub_mod_eq_zero_of_mod_eq same
        rw [Nat.add_assoc, Nat.add_sub_cancel_left, Nat.mod_eq_of_lt (by omega)] at whole
        omega
      rw [List.length_cons, load_succ, first, store, ih _ (by omega)]

theorem copy_of_outside {mem : Nat → β} {dst src n a : Nat} (fits : dst + n ≤ w)
    (outside : a < dst ∨ dst + n ≤ a) : copy w mem dst src n a = mem a := by
  induction n generalizing mem dst src with
  | zero => rfl
  | succ n ih =>
      rw [copy, ih (by omega) (by omega), Nat.mod_eq_of_lt (by omega), Function.update_of_ne (by omega)]

theorem copy_inside {mem : Nat → β} {dst src n i : Nat} (fits : dst + n ≤ w)
    (safe : dst ≤ src ∧ src + n ≤ w ∨ src + n ≤ dst) (h : i < n) : copy w mem dst src n (dst + i) = mem (src + i) := by
  -- What is stored lies behind the bytes that are still to be read, or in front of all of them.
  induction n generalizing mem dst src i with
  | zero => omega
  | succ n ih =>
      rw [copy, Nat.mod_eq_of_lt (by omega), Nat.mod_eq_of_lt (by omega)]
      cases i with
      | zero => rw [copy_of_outside (by omega) (by omega)]; simp
      | succ i =>
          rw [show dst + (i + 1) = dst + 1 + i by omega, ih (by omega) (by omega) (by omega),
            Function.update_of_ne (by omega)]
          congr 1
          omega

theorem copyDown_of_outside {mem : Nat → β} {dst src n a : Nat} (fits : dst + n ≤ w)
    (outside : a < dst ∨ dst + n ≤ a) : copyDown w mem dst src n a = mem a := by
  induction n generalizing mem with
  | zero => rfl
  | succ n ih =>
      rw [copyDown, ih (by omega) (by omega), Nat.mod_eq_of_lt (by omega), Function.update_of_ne (by omega)]

theorem copyDown_inside {mem : Nat → β} {dst src n i : Nat} (fits : dst + n ≤ w) (above : src ≤ dst) (h : i < n) :
    copyDown w mem dst src n (dst + i) = mem (src + i) := by
  -- The store is at or above the byte just read, and the bytes still to be read are below that one.
  induction n generalizing mem with
  | zero => omega
  | succ n ih =>
      rw [copyDown, Nat.mod_eq_of_lt (by omega), Nat.mod_eq_of_lt (by omega)]
      rcases Nat.lt_or_ge i n with earlier | last
      · rw [ih (by omega) earlier, Function.update_of_ne (by omega)]
      · rw [copyDown_of_outside (by omega) (by omega), show i = n by omega, Function.update_self]

/-! ## Strings that grow -/

/-- `text` with `bytes` at `offset`; a gap behind the old end is filled. -/
def overwrite (fill : β) (text : List β) (offset : Nat) (bytes : List β) : List β :=
  (List.range (max text.length (offset + bytes.length))).map fun i =>
    if offset ≤ i ∧ i < offset + bytes.length then bytes.getD (i - offset) fill else text.getD i fill

@[simp] theorem overwrite_length (fill : β) (text : List β) (offset : Nat) (bytes : List β) :
    (overwrite fill text offset bytes).length = max text.length (offset + bytes.length) := by
  simp [overwrite]

theorem overwrite_getElem {fill : β} {text bytes : List β} {offset i : Nat}
    (h : i < (overwrite fill text offset bytes).length) :
    (overwrite fill text offset bytes)[i] =
      if offset ≤ i ∧ i < offset + bytes.length then bytes.getD (i - offset) fill else text.getD i fill := by
  simp [overwrite]

theorem overwrite_no_bytes (fill : β) {text : List β} {offset : Nat} (inside : offset ≤ text.length) :
    overwrite fill text offset [] = text := by
  apply List.ext_getElem
  · simp [inside]
  · intro k _ inText
    rw [overwrite_getElem, if_neg (by simp), List.getD_eq_getElem _ _ inText]

theorem overwrite_covers (fill : β) {text bytes : List β} (shorter : text.length ≤ bytes.length) :
    overwrite fill text 0 bytes = bytes := by
  apply List.ext_getElem (by simp [shorter])
  intro i h h'
  rw [overwrite_getElem]
  simp [h']

theorem overwrite_prefix (fill : β) {text bytes : List β} (agrees : bytes <+: text) : overwrite fill text 0 bytes = text := by
  obtain ⟨rest, rfl⟩ := agrees
  apply List.ext_getElem (by simp)
  intro i h h'
  rw [overwrite_getElem, List.getD_eq_getElem _ _ h', Nat.zero_add, Nat.sub_zero]
  split_ifs with within
  · rw [List.getD_eq_getElem _ _ within.2, List.getElem_append_left within.2]
  · rfl

theorem overwrite_empty (fill : β) (bytes : List β) : overwrite fill [] 0 bytes = bytes :=
  overwrite_covers fill (Nat.zero_le _)

end

end Mgcore.Lib
