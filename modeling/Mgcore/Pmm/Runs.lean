import Mgcore.Pmm.Accounting

/-!
# Boot and runs of the page allocator

`TagList` is a tag list that ends in an END tag, with the entries of its memory maps in the order the walk meets them.
On such a list both loops of `pmm_init` return, and what they leave is the fold of `addEntry` over the entries.
-/

namespace Mgcore

inductive EntryList (mem : Nat → UInt8) (entrySize limit : Nat) : Nat → List MemoryMapEntry → Prop
  | done {cursor : Nat} (passed : limit ≤ cursor) : EntryList mem entrySize limit cursor []
  | entry {cursor : Nat} {entries : List MemoryMapEntry} (inside : cursor < limit)
      (rest : EntryList mem entrySize limit (cursor + entrySize) entries) :
      EntryList mem entrySize limit cursor (memoryMapEntry mem cursor :: entries)

inductive TagList (mem : Nat → UInt8) : Nat → List MemoryMapEntry → Prop
  | last {tag : Nat} (isEnd : tagType mem tag = tagEnd) : TagList mem tag []
  | other {tag : Nat} {entries : List MemoryMapEntry} (notEnd : tagType mem tag ≠ tagEnd)
      (notMmap : tagType mem tag ≠ tagMmap) (rest : TagList mem (multiboot2NextTag mem tag) entries) :
      TagList mem tag entries
  | mmap {tag : Nat} {entries later : List MemoryMapEntry} (isMmap : tagType mem tag = tagMmap)
      (positive : 0 < mmapEntrySize mem tag)
      (map : EntryList mem (mmapEntrySize mem tag) (tag + tagSize mem tag) (tag + 16) entries)
      (rest : TagList mem (multiboot2NextTag mem tag) later) : TagList mem tag (entries ++ later)

theorem entryLoop_returns {mem : Nat → UInt8} {entrySize limit cursor : Nat} {entries : List MemoryMapEntry}
    (map : EntryList mem entrySize limit cursor entries) {fuel : Nat} (enough : entries.length ≤ fuel) (p : Pmm) :
    entryLoop mem entrySize limit fuel cursor p = some (entries.foldl addEntry p) := by
  induction map generalizing fuel p with
  | done passed =>
      rw [entryLoop.eq_def, if_neg (Nat.not_lt.mpr passed)]
      rfl
  | entry inside rest ih =>
      cases fuel with
      | zero => simp at enough
      | succ fuel =>
          rw [entryLoop, if_pos inside]
          exact ih (Nat.le_of_succ_le_succ enough) _

theorem tagLoop_returns {mem : Nat → UInt8} {tag : Nat} {entries : List MemoryMapEntry} (tags : TagList mem tag entries) :
    ∃ enough, ∀ fuel, enough ≤ fuel → ∀ p, tagLoop mem fuel tag p = some (entries.foldl addEntry p) := by
  induction tags with
  | last isEnd =>
      refine ⟨0, fun fuel _ p => ?_⟩
      rw [tagLoop.eq_def, if_pos isEnd]
      rfl
  | other notEnd notMmap rest ih =>
      obtain ⟨enough, returns⟩ := ih
      refine ⟨enough + 1, fun fuel more p => ?_⟩
      obtain ⟨fuel, rfl⟩ := Nat.exists_eq_add_of_le' (Nat.le_of_add_left_le more)
      rw [tagLoop, if_neg notEnd, visitTag, if_neg notMmap]
      exact returns fuel (by omega) p
  | @mmap tag entries later isMmap positive map rest ih =>
      obtain ⟨enough, returns⟩ := ih
      refine ⟨max enough entries.length + 1, fun fuel more p => ?_⟩
      obtain ⟨fuel, rfl⟩ := Nat.exists_eq_add_of_le' (Nat.le_of_add_left_le more)
      have notEnd : tagType mem tag ≠ tagEnd := by rw [isMmap]; decide
      have visited := entryLoop_returns map (show entries.length ≤ fuel by omega) p
      rw [tagLoop, if_neg notEnd, visitTag, if_pos isMmap, visited, List.foldl_append]
      exact returns fuel (by omega) _

/-! ## `pmm_init` -/

def pmmReset : Pmm := { bitmap := fun _ => 0xFF }

theorem testBit_reset (page : Nat) : testBit pmmReset page = true := by
  have ones : ∀ i < 8, (0xFF : UInt8).toBitVec.getLsbD i = true := by decide
  rw [testBit, Lib.bitTest_eq]
  exact ones (page % 8) (Nat.mod_lt _ (by decide))

theorem Accounted.reset : Accounted pmmReset := by
  have empty : freeSet pmmReset = ∅ := by
    apply Finset.eq_empty_of_forall_notMem
    intro page member
    rw [mem_freeSet, testBit_reset] at member
    cases member.2
  rw [Accounted, empty]
  rfl

/-- The pages that the two `reserve_range` calls of `pmm_init` visit. -/
def reservedPages (kernelStart kernelEnd : Nat) : List Nat :=
  pageRange 0 256 ++ pageRange (kernelStart / 4096) ((kernelEnd + 4095) % wordSize / 4096)

theorem reservedPages_lt {kernelStart kernelEnd page : Nat} (member : page ∈ reservedPages kernelStart kernelEnd) :
    page < pmmMaxPages := by
  rcases List.mem_append.mp member with low | kernel
  · exact (mem_pageRange.mp low).2.2
  · exact (mem_pageRange.mp kernel).2.2

def pmmBooted (entries : List MemoryMapEntry) (kernelStart kernelEnd : Nat) : Pmm :=
  (reservedPages kernelStart kernelEnd).foldl reservePage (entries.foldl addEntry pmmReset)

theorem pmmInit_returns {info : Nat → UInt8} {entries : List MemoryMapEntry}
    (tags : TagList info multiboot2FirstTag entries) (kernelStart kernelEnd : Nat) :
    ∃ enough, ∀ fuel, enough ≤ fuel →
      tagLoop info fuel multiboot2FirstTag pmmReset = some (entries.foldl addEntry pmmReset) ∧
      pmmInit fuel info kernelStart kernelEnd = some (pmmBooted entries kernelStart kernelEnd) := by
  obtain ⟨enough, returns⟩ := tagLoop_returns tags
  refine ⟨enough, fun fuel more => ⟨returns fuel more pmmReset, ?_⟩⟩
  have last : (0x100000 + 4095) % wordSize / 4096 = 256 := by decide
  have start : pmmInit fuel info kernelStart kernelEnd = (tagLoop info fuel multiboot2FirstTag pmmReset).bind
      fun p => some (reserveRange (reserveRange p 0 0x100000) kernelStart kernelEnd) := rfl
  rw [start, returns fuel more, Option.bind_some, pmmBooted, reservedPages, List.foldl_append]
  unfold reserveRange
  rw [Nat.zero_div, last]

theorem testBit_booted (entries : List MemoryMapEntry) (kernelStart kernelEnd page : Nat) :
    testBit (pmmBooted entries kernelStart kernelEnd) page =
      (decide (∀ entry ∈ usable entries, page ∉ entryPages entry) ||
        decide (page ∈ reservedPages kernelStart kernelEnd)) := by
  rw [pmmBooted, testBit_reservePages, testBit_addEntries, testBit_reset, Bool.true_and]

theorem Accounted.released {entries : List MemoryMapEntry} (disjoint : (usable entries).Pairwise EntriesDisjoint) :
    Accounted (entries.foldl addEntry pmmReset) :=
  Accounted.reset.addEntries disjoint fun _ _ page _ => testBit_reset page

theorem Accounted.booted {entries : List MemoryMapEntry} (disjoint : (usable entries).Pairwise EntriesDisjoint)
    (kernelStart kernelEnd : Nat) : Accounted (pmmBooted entries kernelStart kernelEnd) :=
  (Accounted.released disjoint).reservePages fun _ member => reservedPages_lt member

/-! ## Allocating and freeing -/

inductive PmmOp
  | alloc
  | free (physical : Nat)
  deriving DecidableEq

def pmmStep (p : Pmm) : PmmOp → Pmm
  | .alloc => (pmmAllocPage p).2
  | .free physical => pmmFreePage p physical

theorem pmmAllocPage_cases (p : Pmm) :
    (∃ page, page < pmmMaxPages ∧ testBit p page = false ∧ (∀ lower < page, testBit p lower = true) ∧
      pmmAllocPage p = (page * 4096, takePage (setBit p page))) ∨
    ((∀ page < pmmMaxPages, testBit p page = true) ∧ pmmAllocPage p = (0, p)) := by
  unfold pmmAllocPage
  rw [← List.range_eq_range']
  cases found : (List.range pmmMaxPages).find? fun page => !testBit p page with
  | some page =>
      obtain ⟨clear, inside, lower⟩ := List.find?_range_eq_some.mp found
      exact Or.inl ⟨page, List.mem_range.mp inside, by simpa using clear, by simpa using lower, rfl⟩
  | none =>
      have all := List.find?_range_eq_none.mp found
      exact Or.inr ⟨by simpa using all, rfl⟩

theorem Accounted.alloc {p : Pmm} (counted : Accounted p) : Accounted (pmmAllocPage p).2 := by
  rcases pmmAllocPage_cases p with ⟨page, inside, clear, -, result⟩ | ⟨-, result⟩
  · rw [result]
    exact (counted.take inside clear).1
  · rw [result]
    exact counted

theorem Accounted.free {p : Pmm} (counted : Accounted p) (physical : Nat) : Accounted (pmmFreePage p physical) := by
  unfold pmmFreePage
  dsimp only
  split
  · rename_i taken
    exact counted.give taken.1 taken.2 rfl rfl
  · exact counted

theorem testBit_pmmFreePage (p : Pmm) (physical page : Nat) :
    testBit (pmmFreePage p physical) page =
      (testBit p page && !decide (page = physical / 4096 ∧ page < pmmMaxPages)) := by
  unfold pmmFreePage
  dsimp only
  split
  · rename_i taken
    show testBit (clearBit p (physical / 4096)) page = _
    rw [testBit_clearBit]
    by_cases same : page = physical / 4096
    · simp [same, taken.1]
    · simp [same]
  · rename_i kept
    by_cases same : page = physical / 4096 ∧ page < pmmMaxPages
    · have clear : testBit p page = false := by
        rw [same.1]
        exact Bool.eq_false_iff.mpr fun set => kept ⟨same.1 ▸ same.2, set⟩
      simp [clear]
    · simp [same]

theorem Accounted.step {p : Pmm} (counted : Accounted p) (op : PmmOp) : Accounted (pmmStep p op) := by
  cases op with
  | alloc => exact counted.alloc
  | free physical => exact counted.free physical

theorem Accounted.run {p : Pmm} (counted : Accounted p) (ops : List PmmOp) : Accounted (ops.foldl pmmStep p) := by
  induction ops generalizing p with
  | nil => exact counted
  | cons op ops ih =>
      rw [List.foldl_cons]
      exact ih (counted.step op)

/-! ## The accounting theorem -/

/-- Wherever a clear bit is found the counter is positive, so `if (g_free_pages != 0)` never skips the decrement. -/
def NeverSkips (p : Pmm) : Prop := ∀ page < pmmMaxPages, testBit p page = false → p.freePages ≠ 0

def AllocatesLowest (p : Pmm) : Prop :=
  (∀ page < pmmMaxPages, testBit p page = false → (∀ lower < page, testBit p lower = true) →
    (pmmAllocPage p).1 = page * 4096 ∧
    ∀ other, testBit (pmmAllocPage p).2 other = (testBit p other || decide (other = page))) ∧
  ((∀ page < pmmMaxPages, testBit p page = true) → pmmAllocPage p = (0, p))

def FreesAtMostOne (p : Pmm) : Prop :=
  ∀ physical page, page ≠ physical / 4096 → testBit (pmmFreePage p physical) page = testBit p page

theorem allocatesLowest (p : Pmm) : AllocatesLowest p := by
  constructor
  · intro page inside clear lower
    rcases pmmAllocPage_cases p with ⟨found, _, free, below, result⟩ | ⟨full, -⟩
    · have same : found = page := by
        rcases Nat.lt_trichotomy found page with less | same | greater
        · rw [lower found less] at free
          cases free
        · exact same
        · rw [below page greater] at clear
          cases clear
      rw [result, same]
      exact ⟨rfl, fun other => by rw [testBit_takePage, testBit_setBit]⟩
    · rw [full page inside] at clear
      cases clear
  · intro full
    rcases pmmAllocPage_cases p with ⟨found, inside, free, -⟩ | ⟨-, result⟩
    · rw [full found inside] at free
      cases free
    · exact result

theorem freesAtMostOne (p : Pmm) : FreesAtMostOne p := by
  intro physical page other
  rw [testBit_pmmFreePage]
  simp [other]

theorem page_accounting (info : Nat → UInt8) (kernelStart kernelEnd : Nat) (entries : List MemoryMapEntry)
    (tags : TagList info multiboot2FirstTag entries) (disjoint : (usable entries).Pairwise EntriesDisjoint) :
    ∃ released p,
      (∃ enough, ∀ fuel, enough ≤ fuel →
        tagLoop info fuel multiboot2FirstTag pmmReset = some released ∧
        pmmInit fuel info kernelStart kernelEnd = some p) ∧
      p = (reservedPages kernelStart kernelEnd).foldl reservePage released ∧
      (∀ before, before <+: reservedPages kernelStart kernelEnd → NeverSkips (before.foldl reservePage released)) ∧
      ∀ ops : List PmmOp, Accounted (ops.foldl pmmStep p) ∧ NeverSkips (ops.foldl pmmStep p) ∧
        AllocatesLowest (ops.foldl pmmStep p) ∧ FreesAtMostOne (ops.foldl pmmStep p) := by
  refine ⟨_, _, pmmInit_returns tags kernelStart kernelEnd, rfl, fun before shorter => ?_, fun ops => ?_⟩
  · have inside : ∀ page ∈ before, page < pmmMaxPages := fun page member => reservedPages_lt (shorter.subset member)
    have counted := (Accounted.released disjoint).reservePages inside
    exact fun page below clear => counted.positive below clear
  · have counted := (Accounted.booted disjoint kernelStart kernelEnd).run ops
    exact ⟨counted, fun page below clear => counted.positive below clear, allocatesLowest _, freesAtMostOne _⟩

-- Boot information with one memory map of one entry: the page at 1 MiB.
def onePageMap : Nat → UInt8 := fun a =>
  ([56, 0, 0, 0, 0, 0, 0, 0,
    6, 0, 0, 0, 40, 0, 0, 0, 24, 0, 0, 0, 0, 0, 0, 0,
    0, 0, 0x10, 0, 0, 0, 0, 0, 0, 0x10, 0, 0, 0, 0, 0, 0, 1, 0, 0, 0, 0, 0, 0, 0,
    0, 0, 0, 0, 8, 0, 0, 0] : List UInt8).getD a 0

def onePage : MemoryMapEntry := { addr := 0x100000, len := 0x1000, type := 1 }

theorem onePageMap_tags : TagList onePageMap multiboot2FirstTag [onePage] :=
  @TagList.mmap onePageMap multiboot2FirstTag [onePage] [] (by decide) (by decide)
    (.entry (by decide) (.done (by decide))) (.last (by decide))

theorem onePage_disjoint : (usable [onePage]).Pairwise EntriesDisjoint := List.pairwise_singleton _ _

-- One more page, at 1 GiB.
def twoPageMap : Nat → UInt8 := fun a =>
  ([80, 0, 0, 0, 0, 0, 0, 0,
    6, 0, 0, 0, 64, 0, 0, 0, 24, 0, 0, 0, 0, 0, 0, 0,
    0, 0, 0x10, 0, 0, 0, 0, 0, 0, 0x10, 0, 0, 0, 0, 0, 0, 1, 0, 0, 0, 0, 0, 0, 0,
    0, 0, 0, 0x40, 0, 0, 0, 0, 0, 0x10, 0, 0, 0, 0, 0, 0, 1, 0, 0, 0, 0, 0, 0, 0,
    0, 0, 0, 0, 8, 0, 0, 0] : List UInt8).getD a 0

def farPage : MemoryMapEntry := { addr := 0x40000000, len := 0x1000, type := 1 }

theorem twoPageMap_tags : TagList twoPageMap multiboot2FirstTag [onePage, farPage] :=
  @TagList.mmap twoPageMap multiboot2FirstTag [onePage, farPage] [] (by decide) (by decide)
    (.entry (by decide) (.entry (by decide) (.done (by decide)))) (.last (by decide))

theorem twoPage_disjoint : (usable [onePage, farPage]).Pairwise EntriesDisjoint := by
  have both : usable [onePage, farPage] = [onePage, farPage] := rfl
  rw [both, List.pairwise_pair]
  intro x shared
  simp only [onePage, farPage] at shared
  omega

theorem page_accounting_sample :
    ∃ p, (∃ enough, ∀ fuel, enough ≤ fuel → pmmInit fuel twoPageMap 0x200000 0x300000 = some p) ∧
      ∀ ops : List PmmOp, Accounted (ops.foldl pmmStep p) := by
  obtain ⟨released, p, ⟨enough, returns⟩, -, -, runs⟩ :=
    page_accounting twoPageMap 0x200000 0x300000 [onePage, farPage] twoPageMap_tags twoPage_disjoint
  exact ⟨p, ⟨enough, fun fuel more => (returns fuel more).2⟩, fun ops => (runs ops).1⟩

end Mgcore
