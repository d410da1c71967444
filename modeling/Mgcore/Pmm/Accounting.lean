import Mgcore.Pmm.Model

/-!
# Page accounting

`g_free_pages` counts the clear bits of the map. The four paths that change it keep that: releasing a page whose bit is
set, reserving one, allocating and freeing. The only assumption is about releasing: no page is released twice, because
regions that share no byte share no whole page.
-/

namespace Mgcore

def freeSet (p : Pmm) : Finset Nat := Lib.zeros p.bitmap pmmMaxPages

def Accounted (p : Pmm) : Prop := p.freePages = (freeSet p).card

theorem mem_freeSet {p : Pmm} {page : Nat} : page ∈ freeSet p ↔ page < pmmMaxPages ∧ testBit p page = false :=
  Lib.mem_zeros

/-! ## Single pages -/

@[simp] theorem testBit_setBit (p : Pmm) (page other : Nat) :
    testBit (setBit p page) other = (testBit p other || decide (other = page)) :=
  Lib.bitTest_bitSet p.bitmap page other

@[simp] theorem testBit_clearBit (p : Pmm) (page other : Nat) :
    testBit (clearBit p page) other = (testBit p other && decide (other ≠ page)) :=
  Lib.bitTest_bitClear p.bitmap page other

@[simp] theorem takePage_bitmap (p : Pmm) : (takePage p).bitmap = p.bitmap := by
  unfold takePage
  split <;> rfl

@[simp] theorem testBit_takePage (p : Pmm) (page : Nat) : testBit (takePage p) page = testBit p page := by
  rw [testBit, takePage_bitmap, testBit]

/-- A clear bit is counted, so the guarded decrement happens. -/
theorem Accounted.positive {p : Pmm} (counted : Accounted p) {page : Nat} (inside : page < pmmMaxPages)
    (clear : testBit p page = false) : p.freePages ≠ 0 := by
  rw [counted]
  exact Finset.card_ne_zero_of_mem (mem_freeSet.mpr ⟨inside, clear⟩)

theorem Accounted.take {p : Pmm} (counted : Accounted p) {page : Nat} (inside : page < pmmMaxPages)
    (clear : testBit p page = false) :
    Accounted (takePage (setBit p page)) ∧ (takePage (setBit p page)).freePages + 1 = p.freePages := by
  have positive : (setBit p page).freePages ≠ 0 := counted.positive inside clear
  have bits : freeSet (takePage (setBit p page)) = (freeSet p).erase page := by
    rw [freeSet, takePage_bitmap]
    exact Lib.zeros_bitSet p.bitmap pmmMaxPages page
  have count : (takePage (setBit p page)).freePages = p.freePages - 1 := by
    rw [takePage, if_pos positive]
    rfl
  have nonzero : p.freePages ≠ 0 := positive
  constructor
  · rw [Accounted, count, bits, Finset.card_erase_of_mem (mem_freeSet.mpr ⟨inside, clear⟩), counted]
  · omega

theorem Accounted.give {p q : Pmm} (counted : Accounted p) {page : Nat} (inside : page < pmmMaxPages)
    (taken : testBit p page = true) (bitmap : q.bitmap = (clearBit p page).bitmap)
    (count : q.freePages = p.freePages + 1) : Accounted q := by
  have bits : freeSet q = insert page (freeSet p) := by
    rw [freeSet, bitmap]
    exact Lib.zeros_bitClear p.bitmap inside
  have fresh : page ∉ freeSet p := by
    intro member
    rw [(mem_freeSet.mp member).2] at taken
    cases taken
  rw [Accounted, bits, Finset.card_insert_of_notMem fresh, count, counted]

theorem mem_pageRange {first last page : Nat} :
    page ∈ pageRange first last ↔ first ≤ page ∧ page < last ∧ page < pmmMaxPages := by
  rw [pageRange, List.mem_range'_1]
  omega

theorem pageRange_nodup (first last : Nat) : (pageRange first last).Nodup := List.nodup_range'

/-! ## Reserving a range -/

theorem Accounted.reservePage {p : Pmm} (counted : Accounted p) {page : Nat} (inside : page < pmmMaxPages) :
    Accounted (reservePage p page) := by
  unfold Mgcore.reservePage
  cases taken : testBit p page with
  | true => exact counted
  | false => exact (counted.take inside taken).1

theorem testBit_reservePage (p : Pmm) (page other : Nat) :
    testBit (reservePage p page) other = (testBit p other || decide (other = page)) := by
  unfold reservePage
  cases taken : testBit p page with
  | true =>
      by_cases same : other = page
      · simp [same, taken]
      · simp [same]
  | false => simp

theorem Accounted.reservePages {p : Pmm} (counted : Accounted p) {pages : List Nat}
    (inside : ∀ page ∈ pages, page < pmmMaxPages) : Accounted (pages.foldl Mgcore.reservePage p) := by
  induction pages generalizing p with
  | nil => exact counted
  | cons page pages ih =>
      exact ih (counted.reservePage (inside page (by simp))) fun other member => inside other (by simp [member])

theorem testBit_reservePages (p : Pmm) (pages : List Nat) (other : Nat) :
    testBit (pages.foldl reservePage p) other = (testBit p other || decide (other ∈ pages)) := by
  induction pages generalizing p with
  | nil => simp
  | cons page pages ih => simp [ih, testBit_reservePage, Bool.or_assoc]

/-! ## Releasing regions -/

theorem testBit_releasePage (p : Pmm) (page other : Nat) :
    testBit (releasePage p page) other = (testBit p other && decide (other ≠ page)) :=
  testBit_clearBit p page other

theorem testBit_releasePages (p : Pmm) (pages : List Nat) (other : Nat) :
    testBit (pages.foldl releasePage p) other = (testBit p other && decide (other ∉ pages)) := by
  induction pages generalizing p with
  | nil => simp
  | cons page pages ih => simp [ih, testBit_releasePage, Bool.and_assoc]

theorem Accounted.releasePages {p : Pmm} (counted : Accounted p) {pages : List Nat} (distinct : pages.Nodup)
    (taken : ∀ page ∈ pages, page < pmmMaxPages ∧ testBit p page = true) :
    Accounted (pages.foldl releasePage p) := by
  induction pages generalizing p with
  | nil => exact counted
  | cons page pages ih =>
      obtain ⟨fresh, distinct⟩ := List.nodup_cons.mp distinct
      obtain ⟨inside, bit⟩ := taken page (by simp)
      have after : Accounted (releasePage p page) := counted.give inside bit rfl rfl
      refine ih after distinct fun other member => ?_
      obtain ⟨below, set⟩ := taken other (by simp [member])
      have different : other ≠ page := fun same => fresh (same ▸ member)
      exact ⟨below, by rw [testBit_releasePage]; simp [set, different]⟩

/-- The last byte of a page of a region lies in the region, so regions without a common byte have no common page. -/
theorem entryPages_byte {entry : MemoryMapEntry} {page : Nat} (member : page ∈ entryPages entry) :
    entry.addr ≤ 4096 * page + 4095 ∧ 4096 * page + 4095 < entry.addr + entry.len := by
  obtain ⟨low, high, -⟩ := mem_pageRange.mp member
  have wrapped : (entry.addr + entry.len) % wordSize ≤ entry.addr + entry.len := Nat.mod_le _ _
  omega

def EntriesDisjoint (a b : MemoryMapEntry) : Prop :=
  ∀ x, ¬((a.addr ≤ x ∧ x < a.addr + a.len) ∧ (b.addr ≤ x ∧ x < b.addr + b.len))

def usable (entries : List MemoryMapEntry) : List MemoryMapEntry := entries.filter fun entry => entry.type = 1

theorem testBit_addEntries (p : Pmm) (entries : List MemoryMapEntry) (page : Nat) :
    testBit (entries.foldl addEntry p) page =
      (testBit p page && decide (∀ entry ∈ usable entries, page ∉ entryPages entry)) := by
  induction entries generalizing p with
  | nil => simp [usable]
  | cons entry entries ih =>
      rw [List.foldl_cons, ih, addEntry]
      by_cases available : entry.type = 1
      · simp only [available, if_true, testBit_releasePages, Bool.and_assoc]
        simp [usable, available]
      · simp [available, usable]

theorem Accounted.addEntries {p : Pmm} (counted : Accounted p) {entries : List MemoryMapEntry}
    (disjoint : (usable entries).Pairwise EntriesDisjoint)
    (taken : ∀ entry ∈ usable entries, ∀ page ∈ entryPages entry, testBit p page = true) :
    Accounted (entries.foldl addEntry p) := by
  induction entries generalizing p with
  | nil => exact counted
  | cons entry entries ih =>
      rw [List.foldl_cons]
      by_cases available : entry.type = 1
      · have members : usable (entry :: entries) = entry :: usable entries := by simp [usable, available]
        rw [members] at disjoint taken
        obtain ⟨apart, disjoint⟩ := List.pairwise_cons.mp disjoint
        have after : Accounted (addEntry p entry) := by
          rw [addEntry, if_pos available]
          exact counted.releasePages (pageRange_nodup _ _) fun page member =>
            ⟨(mem_pageRange.mp member).2.2, taken entry (by simp) page member⟩
        refine ih after disjoint fun other later page member => ?_
        have elsewhere : page ∉ entryPages entry := fun shared =>
          apart other later _ ⟨entryPages_byte shared, entryPages_byte member⟩
        rw [addEntry, if_pos available, testBit_releasePages, taken other (by simp [later]) page member]
        simp [elsewhere]
      · have members : usable (entry :: entries) = usable entries := by simp [usable, available]
        rw [members] at disjoint taken
        rw [addEntry, if_neg available]
        exact ih counted disjoint taken

end Mgcore
