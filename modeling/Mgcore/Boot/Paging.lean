import Mathlib.Data.Nat.Bitwise
import Mgcore.Lib.Memory
import Mgcore.Pmm.Model

/-!
# The boot page tables

`setup_page_tables` of `boot/boot.asm` runs with paging off, so it stores to physical addresses. What it leaves is read by
the four-level walk of the processor, with `CR4.PAE` and `EFER.LME` set and `EFER.NXE` clear, which is the mode that
`enable_long_mode` enters. Nothing changes the tables afterwards: `vmm.c` keeps no mapping of its own.
-/

namespace Mgcore

/-! ## What the code stores -/

def pagePresent : Nat := 1
def pageWrite : Nat := 2
def pageLarge : Nat := 1 <<< 7

/-- Where the linker puts section `.bss.page_tables`: three tables of 512 quadwords. -/
structure PageTables where
  pml4Table : Nat
  aligned : pml4Table % 4096 = 0
  fits : pml4Table + 3 * 4096 ≤ 2 ^ 32

def PageTables.pdptLow (t : PageTables) : Nat := t.pml4Table + 4096
def PageTables.pdLow (t : PageTables) : Nat := t.pml4Table + 8192

def dwordBytes (v : Nat) : List UInt8 :=
  [v.toUInt8, (v / 2 ^ 8).toUInt8, (v / 2 ^ 16).toUInt8, (v / 2 ^ 24).toUInt8]

/-- `mov [a], eax` -/
def storeDword (mem : Nat → UInt8) (a eax : Nat) : Nat → UInt8 := Lib.store (2 ^ 32) mem a (dwordBytes eax)

/-- The loop `.map_2m`, from the label on. -/
def mapLoop (t : PageTables) : Nat → Nat → (Nat → UInt8) → Option (Nat → UInt8)
  | 0, _, _ => none
  | fuel + 1, ecx, mem =>
      let eax := (ecx <<< 21) % 2 ^ 32 ||| (pagePresent ||| pageWrite ||| pageLarge)
      let mem := storeDword mem (t.pdLow + ecx * 8) eax
      let ecx := (ecx + 1) % 2 ^ 32
      if ecx ≠ 512 then mapLoop t fuel ecx mem else some mem

def setupPageTables (t : PageTables) (fuel : Nat) (mem : Nat → UInt8) : Option (Nat → UInt8) :=
  let mem := storeDword mem t.pml4Table (t.pdptLow ||| (pagePresent ||| pageWrite))
  let mem := storeDword mem t.pdptLow (t.pdLow ||| (pagePresent ||| pageWrite))
  mapLoop t fuel 0 mem

/-! ## What the processor reads -/

structure Mapping where
  physical : Nat
  writable : Bool
  user : Bool
  deriving DecidableEq

/-- The levels left are `level`; bit 7 of an entry ends the walk early, which the top level does not allow. -/
def pageWalk (mem : Nat → UInt8) (va : Nat) : Nat → Nat → Bool → Bool → Option Mapping
  | 0, frame, writable, user => some { physical := frame + va % 2 ^ 12, writable, user }
  | level + 1, table, writable, user =>
      let shift := 12 + 9 * level
      let entry := le64 mem (table + 8 * (va / 2 ^ shift % 512))
      if entry.testBit 0 = false ∨ entry.testBit 63 then none
      else if level ≠ 0 ∧ entry.testBit 7 then
        if level = 3 ∨ entry % 2 ^ shift / 2 ^ 13 ≠ 0 then none
        else
          some
            { physical := entry % 2 ^ 52 / 2 ^ shift * 2 ^ shift + va % 2 ^ shift
              writable := writable && entry.testBit 1
              user := user && entry.testBit 2 }
      else
        pageWalk mem va level (entry % 2 ^ 52 / 2 ^ 12 * 2 ^ 12) (writable && entry.testBit 1) (user && entry.testBit 2)

/-- Bits 47 to 63 of a canonical address are alike. -/
def CanonicalAddress (va : Nat) : Prop := va / 2 ^ 47 = 0 ∨ va / 2 ^ 47 = 2 ^ 17 - 1

instance (va : Nat) : Decidable (CanonicalAddress va) := inferInstanceAs (Decidable (_ ∨ _))

def translate (mem : Nat → UInt8) (cr3 va : Nat) : Option Mapping :=
  if CanonicalAddress va then pageWalk mem va 4 cr3 true true else none

/-! ## The stores one by one -/

theorem le32_dwordBytes (mem : Nat → UInt8) {a v : Nat} (fits : a + 4 ≤ 2 ^ 32) (small : v < 2 ^ 32) :
    le32 (storeDword mem a v) a = v := by
  have here (i : Nat) (h : i < (dwordBytes v).length) : storeDword mem a v (a + i) = (dwordBytes v)[i] :=
    Lib.store_inside (by simpa [dwordBytes] using fits) h
  have first : storeDword mem a v a = v.toUInt8 := here 0 (by simp [dwordBytes])
  have second : storeDword mem a v (a + 1) = (v / 2 ^ 8).toUInt8 := here 1 (by simp [dwordBytes])
  have third : storeDword mem a v (a + 2) = (v / 2 ^ 16).toUInt8 := here 2 (by simp [dwordBytes])
  have fourth : storeDword mem a v (a + 3) = (v / 2 ^ 24).toUInt8 := here 3 (by simp [dwordBytes])
  rw [le32, first, second, third, fourth]
  simp only [Nat.toUInt8, UInt8.toNat_ofNat']
  omega

theorem storeDword_of_lt {mem : Nat → UInt8} {a v b : Nat} (fits : a + 4 ≤ 2 ^ 32) (below : b < a) :
    storeDword mem a v b = mem b :=
  Lib.store_of_lt (by simpa [dwordBytes] using fits) below

theorem storeDword_of_ge {mem : Nat → UInt8} {a v b : Nat} (fits : a + 4 ≤ 2 ^ 32) (above : a + 4 ≤ b) :
    storeDword mem a v b = mem b :=
  Lib.store_of_ge (by simpa [dwordBytes] using fits) (by simpa [dwordBytes] using above)

theorem le32_congr {mem mem' : Nat → UInt8} {a : Nat} (same : ∀ b, a ≤ b → b < a + 4 → mem' b = mem b) :
    le32 mem' a = le32 mem a := by
  simp only [le32]
  rw [same a, same (a + 1), same (a + 2), same (a + 3)]
  all_goals omega

theorem or_flags {x flags : Nat} (aligned : x % 4096 = 0) (small : flags < 4096) : x ||| flags = x + flags := by
  have shifted : x = (x / 4096) <<< 12 := by
    rw [Nat.shiftLeft_eq]
    omega
  rw [shifted, Nat.shiftLeft_add_eq_or_of_lt small]

theorem largeEntry_eq {i : Nat} (h : i < 512) :
    (i <<< 21) % 2 ^ 32 ||| (pagePresent ||| pageWrite ||| pageLarge) = i * 2 ^ 21 + 0x83 := by
  rw [Nat.shiftLeft_eq, Nat.mod_eq_of_lt (by omega), or_flags (by omega) (by decide)]
  rfl

/-! ## The loop -/

/-- The page directory from entry `first` on, and everything that is not the low half of one of these entries. -/
structure DirectoryFrom (t : PageTables) (first : Nat) (mem final : Nat → UInt8) : Prop where
  entries : ∀ i, first ≤ i → i < 512 → le32 final (t.pdLow + 8 * i) = i * 2 ^ 21 + 0x83
  frame : ∀ a, (∀ i, first ≤ i → i < 512 → a < t.pdLow + 8 * i ∨ t.pdLow + 8 * i + 4 ≤ a) → final a = mem a

theorem mapLoop_directory (t : PageTables) (fuel ecx : Nat) (mem : Nat → UInt8) (turns : ecx + fuel = 511) :
    ∃ final, mapLoop t (fuel + 1) ecx mem = some final ∧ DirectoryFrom t ecx mem final := by
  have fits := t.fits
  have start : t.pdLow = t.pml4Table + 8192 := rfl
  have entry := largeEntry_eq (show ecx < 512 by omega)
  have inside : t.pdLow + ecx * 8 + 4 ≤ 2 ^ 32 := by omega
  have stored (frame : Nat → UInt8) : le32 (storeDword frame (t.pdLow + 8 * ecx) (ecx * 2 ^ 21 + 0x83)) (t.pdLow + 8 * ecx) =
      ecx * 2 ^ 21 + 0x83 := le32_dwordBytes frame (by omega) (by omega)
  induction fuel generalizing ecx mem with
  | zero =>
      obtain rfl : ecx = 511 := by omega
      refine ⟨storeDword mem (t.pdLow + 8 * 511) (511 * 2 ^ 21 + 0x83), ?_, ?_, ?_⟩
      · simp only [mapLoop, entry]
        rfl
      · intro i least most
        obtain rfl : i = 511 := by omega
        exact stored mem
      · intro a apart
        rcases apart 511 (by omega) (by omega) with below | above
        · exact storeDword_of_lt (by omega) below
        · exact storeDword_of_ge (by omega) above
  | succ fuel ih =>
      obtain ⟨final, returns, done⟩ := ih (ecx + 1) (storeDword mem (t.pdLow + ecx * 8) (ecx * 2 ^ 21 + 0x83))
        (by omega) (largeEntry_eq (by omega)) (by omega) fun frame => le32_dwordBytes frame (by omega) (by omega)
      refine ⟨final, ?_, ?_, ?_⟩
      · rw [mapLoop, entry, Nat.mod_eq_of_lt (show ecx + 1 < 2 ^ 32 by omega), if_pos (by omega), returns]
      · intro i least most
        by_cases here : i = ecx
        · subst here
          rw [le32_congr fun b low high => done.frame b fun j after _ => Or.inl (by omega), Nat.mul_comm i 8]
          exact stored mem
        · exact done.entries i (by omega) most
      · intro a apart
        rw [done.frame a fun i least most => apart i (by omega) most]
        rcases apart ecx (by omega) (by omega) with below | above
        · exact storeDword_of_lt inside (by omega)
        · exact storeDword_of_ge inside (by omega)

/-! ## The tables -/

/-- The three tables as quadwords: the first entry of the upper two, and all of the page directory. -/
structure Identity (t : PageTables) (mem : Nat → UInt8) : Prop where
  pml4 : ∀ i, i < 512 → le64 mem (t.pml4Table + 8 * i) = if i = 0 then t.pdptLow + 3 else 0
  pdpt : ∀ i, i < 512 → le64 mem (t.pdptLow + 8 * i) = if i = 0 then t.pdLow + 3 else 0
  pd : ∀ i, i < 512 → le64 mem (t.pdLow + 8 * i) = i * 2 ^ 21 + 0x83

theorem le32_zero {mem : Nat → UInt8} {a : Nat} (zero : ∀ b, a ≤ b → b < a + 4 → mem b = 0) : le32 mem a = 0 := by
  have same : le32 mem a = le32 (fun _ => 0) a := le32_congr zero
  rw [same]
  rfl

theorem setupPageTables_identity (t : PageTables) {mem : Nat → UInt8}
    (zero : ∀ a, t.pml4Table ≤ a → a < t.pml4Table + 3 * 4096 → mem a = 0) :
    ∃ final, setupPageTables t 512 mem = some final ∧ Identity t final ∧
      ∀ a, a < t.pml4Table ∨ t.pml4Table + 3 * 4096 ≤ a → final a = mem a := by
  have fits := t.fits
  have aligned := t.aligned
  have middle : t.pdptLow = t.pml4Table + 4096 := rfl
  have last : t.pdLow = t.pml4Table + 8192 := rfl
  have top : t.pdptLow ||| (pagePresent ||| pageWrite) = t.pdptLow + 3 := or_flags (by omega) (by decide)
  have next : t.pdLow ||| (pagePresent ||| pageWrite) = t.pdLow + 3 := or_flags (by omega) (by decide)
  obtain ⟨final, returns, done⟩ := mapLoop_directory t 511 0
    (storeDword (storeDword mem t.pml4Table (t.pdptLow + 3)) t.pdptLow (t.pdLow + 3)) (by omega)
  refine ⟨final, by rw [setupPageTables, top, next, returns], ⟨?_, ?_, ?_⟩, ?_⟩
  · intro i bound
    have kept (b : Nat) (low : t.pml4Table ≤ b) (high : b < t.pdptLow) :
        final b = storeDword mem t.pml4Table (t.pdptLow + 3) b := by
      rw [done.frame b fun j _ _ => Or.inl (by omega), storeDword_of_lt (by omega) high]
    have rest (b : Nat) (low : t.pml4Table + 4 ≤ b) (high : b < t.pdptLow) : final b = 0 := by
      rw [kept b (by omega) high, storeDword_of_ge (by omega) low, zero b (by omega) (by omega)]
    have upper : le32 final (t.pml4Table + 8 * i + 4) = 0 := le32_zero fun b low high => rest b (by omega) (by omega)
    rw [le64, upper, Nat.mul_zero, Nat.add_zero]
    split_ifs with first
    · subst first
      rw [Nat.mul_zero, Nat.add_zero, le32_congr fun b low high => kept b low (by omega)]
      exact le32_dwordBytes mem (by omega) (by omega)
    · exact le32_zero fun b low high => rest b (by omega) (by omega)
  · intro i bound
    have kept (b : Nat) (low : t.pdptLow ≤ b) (high : b < t.pdLow) :
        final b = storeDword (storeDword mem t.pml4Table (t.pdptLow + 3)) t.pdptLow (t.pdLow + 3) b :=
      done.frame b fun j _ _ => Or.inl (by omega)
    have rest (b : Nat) (low : t.pdptLow + 4 ≤ b) (high : b < t.pdLow) : final b = 0 := by
      rw [kept b (by omega) high, storeDword_of_ge (by omega) low, storeDword_of_ge (by omega) (by omega),
        zero b (by omega) (by omega)]
    have upper : le32 final (t.pdptLow + 8 * i + 4) = 0 := le32_zero fun b low high => rest b (by omega) (by omega)
    rw [le64, upper, Nat.mul_zero, Nat.add_zero]
    split_ifs with first
    · subst first
      rw [Nat.mul_zero, Nat.add_zero, le32_congr fun b low high => kept b low (by omega)]
      exact le32_dwordBytes _ (by omega) (by omega)
    · exact le32_zero fun b low high => rest b (by omega) (by omega)
  · intro i bound
    have upper : le32 final (t.pdLow + 8 * i + 4) = 0 := by
      apply le32_zero
      intro b low high
      rw [done.frame b fun j _ _ => by omega, storeDword_of_ge (by omega) (by omega), storeDword_of_ge (by omega) (by omega),
        zero b (by omega) (by omega)]
    rw [le64, upper, done.entries i (Nat.zero_le i) bound, Nat.mul_zero, Nat.add_zero]
  · intro a outside
    rw [done.frame a fun j _ _ => by omega]
    rcases outside with below | above
    · rw [storeDword_of_lt (by omega) (by omega), storeDword_of_lt (by omega) below]
    · rw [storeDword_of_ge (by omega) (by omega), storeDword_of_ge (by omega) (by omega)]

/-! ## The walk -/

/-- A level of the walk through a present entry that is no large page. -/
theorem pageWalk_next {mem : Nat → UInt8} {va level table next : Nat} {writable user : Bool}
    (entry : le64 mem (table + 8 * (va / 2 ^ (12 + 9 * level) % 512)) = next + 3) (aligned : next % 4096 = 0)
    (small : next < 2 ^ 32) : pageWalk mem va (level + 1) table writable user = pageWalk mem va level next writable false := by
  have address : (next + 3) % 2 ^ 52 / 2 ^ 12 * 2 ^ 12 = next := by omega
  have bits (k : Nat) : (next + 3).testBit k = decide ((next + 3) / 2 ^ k % 2 = 1) := Nat.testBit_eq_decide_div_mod_eq
  have present : (next + 3).testBit 0 = true := by rw [bits]; simp; omega
  have write : (next + 3).testBit 1 = true := by rw [bits]; simp; omega
  have supervisor : (next + 3).testBit 2 = false := by rw [bits]; simp; omega
  have small : (next + 3).testBit 7 = false := by rw [bits]; simp; omega
  have executable : (next + 3).testBit 63 = false := by rw [bits]; simp; omega
  simp only [pageWalk, entry, present, write, supervisor, small, executable, address]
  simp

theorem pageWalk_absent {mem : Nat → UInt8} {va level table : Nat} {writable user : Bool}
    (entry : le64 mem (table + 8 * (va / 2 ^ (12 + 9 * level) % 512)) = 0) :
    pageWalk mem va (level + 1) table writable user = none := by
  simp [pageWalk, entry]

theorem pageWalk_large {mem : Nat → UInt8} {va level table entry : Nat} {writable user : Bool}
    (read : le64 mem (table + 8 * (va / 2 ^ (12 + 9 * level) % 512)) = entry) (present : entry.testBit 0 = true)
    (executable : entry.testBit 63 = false) (large : entry.testBit 7 = true) (low : level ≠ 0) (high : level ≠ 3)
    (reserved : entry % 2 ^ (12 + 9 * level) / 2 ^ 13 = 0) :
    pageWalk mem va (level + 1) table writable user =
      some
        { physical := entry % 2 ^ 52 / 2 ^ (12 + 9 * level) * 2 ^ (12 + 9 * level) + va % 2 ^ (12 + 9 * level)
          writable := writable && entry.testBit 1
          user := user && entry.testBit 2 } := by
  simp only [pageWalk, read, present, executable, large, reserved]
  simp [low, high]

theorem Identity.pageWalk_pd {t : PageTables} {mem : Nat → UInt8} (tables : Identity t mem) {va : Nat} (low : va < 2 ^ 30)
    (user : Bool) :
    pageWalk mem va 2 t.pdLow true user = some { physical := va, writable := true, user := false } := by
  obtain ⟨i, part⟩ : ∃ i, va / 2 ^ 21 = i := ⟨_, rfl⟩
  have entry := tables.pd i (by omega)
  have index : va / 2 ^ (12 + 9 * 1) % 512 = i := by omega
  have bits (k : Nat) : (i * 2 ^ 21 + 0x83).testBit k = decide ((i * 2 ^ 21 + 0x83) / 2 ^ k % 2 = 1) :=
    Nat.testBit_eq_decide_div_mod_eq
  have present : (i * 2 ^ 21 + 0x83).testBit 0 = true := by rw [bits]; simp; omega
  have write : (i * 2 ^ 21 + 0x83).testBit 1 = true := by rw [bits]; simp; omega
  have supervisor : (i * 2 ^ 21 + 0x83).testBit 2 = false := by rw [bits]; simp; omega
  have large : (i * 2 ^ 21 + 0x83).testBit 7 = true := by rw [bits]; simp; omega
  have executable : (i * 2 ^ 21 + 0x83).testBit 63 = false := by rw [bits]; simp; omega
  rw [pageWalk_large (by rw [index, entry]) present executable large (by decide) (by decide) (by omega), write, supervisor,
    Bool.and_true, Bool.and_false]
  congr
  omega

theorem Identity.translate_eq {t : PageTables} {mem : Nat → UInt8} (tables : Identity t mem) {va : Nat} (word : va < 2 ^ 64) :
    translate mem t.pml4Table va =
      if va < 2 ^ 30 then some { physical := va, writable := true, user := false } else none := by
  have fits := t.fits
  have aligned := t.aligned
  have middle : t.pdptLow = t.pml4Table + 4096 := rfl
  have last : t.pdLow = t.pml4Table + 8192 := rfl
  have top := tables.pml4 (va / 2 ^ (12 + 9 * 3) % 512) (Nat.mod_lt _ (by decide))
  have next := tables.pdpt (va / 2 ^ (12 + 9 * 2) % 512) (Nat.mod_lt _ (by decide))
  rw [translate]
  by_cases canonical : CanonicalAddress va
  · rw [if_pos canonical]
    unfold CanonicalAddress at canonical
    split_ifs at top with first
    · rw [pageWalk_next top (by omega) (by omega)]
      split_ifs at next with second
      · rw [pageWalk_next next (by omega) (by omega), tables.pageWalk_pd (by omega), if_pos (by omega)]
      · rw [pageWalk_absent next, if_neg (by omega)]
    · rw [pageWalk_absent top, if_neg (by omega)]
  · rw [if_neg canonical, if_neg]
    unfold CanonicalAddress at canonical
    omega

/-- The tables map the first gigabyte to itself, for the kernel only, and nothing else. -/
theorem boot_identity_map (t : PageTables) (mem : Nat → UInt8)
    (zero : ∀ a, t.pml4Table ≤ a → a < t.pml4Table + 3 * 4096 → mem a = 0) :
    ∃ final, setupPageTables t 512 mem = some final ∧
      (∀ a, a < t.pml4Table ∨ t.pml4Table + 3 * 4096 ≤ a → final a = mem a) ∧
      ∀ va, va < 2 ^ 64 → translate final t.pml4Table va =
        if va < 2 ^ 30 then some { physical := va, writable := true, user := false } else none := by
  obtain ⟨final, returns, tables, frame⟩ := setupPageTables_identity t zero
  exact ⟨final, returns, frame, fun va word => tables.translate_eq word⟩

-- Tables at 2 MiB, where the kernel image starts.
def bootTables : PageTables := { pml4Table := 0x200000, aligned := rfl, fits := by decide }

theorem boot_identity_map_zeroed :
    ∃ final, setupPageTables bootTables 512 (fun _ => 0) = some final ∧
      translate final 0x200000 0xB8000 = some { physical := 0xB8000, writable := true, user := false } ∧
      translate final 0x200000 0x40000000 = none := by
  obtain ⟨final, returns, -, walks⟩ := boot_identity_map bootTables (fun _ => 0) fun _ _ _ => rfl
  exact ⟨final, returns, walks 0xB8000 (by decide), walks 0x40000000 (by decide)⟩

end Mgcore
