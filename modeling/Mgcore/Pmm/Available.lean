import Mgcore.Pmm.Runs

/-!
# Which pages become allocatable

`pmm_init` releases the pages from the one a region starts in to the last one that ends inside it, and takes back the
first megabyte and the kernel. A region that starts inside a page therefore releases bytes in front of it, and entries
of other types are not taken back. Nothing else goes wrong, except for a kernel that ends in the last page of the address
space: the upper bound of `reserve_range` wraps there.
-/

namespace Mgcore

def MemoryMapEntry.Covers (entry : MemoryMapEntry) (x : Nat) : Prop := entry.addr ≤ x ∧ x < entry.addr + entry.len

/-- The region ends within the address space. -/
def MemoryMapEntry.WellFormed (entry : MemoryMapEntry) : Prop := entry.addr + entry.len ≤ wordSize

def ByteAvailable (entries : List MemoryMapEntry) (x : Nat) : Prop := ∃ entry ∈ entries, entry.type = 1 ∧ entry.Covers x

def ByteReserved (entries : List MemoryMapEntry) (x : Nat) : Prop := ∃ entry ∈ entries, entry.type ≠ 1 ∧ entry.Covers x

structure Allocatable (entries : List MemoryMapEntry) (kernelStart kernelEnd x : Nat) : Prop where
  available : ByteAvailable entries x
  unreserved : ¬ByteReserved entries x
  high : 0x100000 ≤ x
  outside : ¬(kernelStart ≤ x ∧ x < kernelEnd)

def InPage (page x : Nat) : Prop := 4096 * page ≤ x ∧ x < 4096 * page + 4096

/-- Every byte of a page with a clear bit is allocatable. -/
def OnlyAvailable (p : Pmm) (entries : List MemoryMapEntry) (kernelStart kernelEnd : Nat) : Prop :=
  ∀ page < pmmMaxPages, testBit p page = false → ∀ x, InPage page x → Allocatable entries kernelStart kernelEnd x

/-- The region has a byte in the page and reaches its end. A region up to the end of the address space counts as empty:
its end is computed as 0. -/
def MemoryMapEntry.Reaches (entry : MemoryMapEntry) (page : Nat) : Prop :=
  entry.addr / 4096 ≤ page ∧ 4096 * (page + 1) ≤ entry.addr + entry.len ∧ entry.addr + entry.len ≠ wordSize

/-- The page lies in the map, above the first megabyte, is not one of the kernel's pages, and a usable region reaches its
end. -/
structure Offered (entries : List MemoryMapEntry) (kernelStart kernelEnd page : Nat) : Prop where
  inside : page < pmmMaxPages
  high : 256 ≤ page
  kernel : ¬(kernelStart / 4096 ≤ page ∧ 4096 * page < kernelEnd ∧ kernelEnd ≤ wordSize - 4096)
  reached : ∃ entry ∈ entries, entry.type = 1 ∧ entry.Reaches page

/-- Where a usable region starts inside an offered page the bytes of the page in front of it are usable as well, no
reserved region and, where the bound wraps, no byte of the kernel lies in an offered page. -/
structure PagesUndivided (entries : List MemoryMapEntry) (kernelStart kernelEnd : Nat) : Prop where
  starts : ∀ entry ∈ entries, entry.type = 1 → Offered entries kernelStart kernelEnd (entry.addr / 4096) →
    ∀ x, 4096 * (entry.addr / 4096) ≤ x → x < entry.addr → ByteAvailable entries x
  unreserved : ∀ page x, Offered entries kernelStart kernelEnd page → InPage page x → ¬ByteReserved entries x
  kernel : wordSize - 4096 < kernelEnd → ∀ page x, Offered entries kernelStart kernelEnd page → InPage page x →
    ¬(kernelStart ≤ x ∧ x < kernelEnd)

variable {entries : List MemoryMapEntry} {kernelStart kernelEnd : Nat}

theorem mem_entryPages {entry : MemoryMapEntry} (wellFormed : entry.WellFormed) {page : Nat} :
    page ∈ entryPages entry ↔ page < pmmMaxPages ∧ entry.Reaches page := by
  unfold MemoryMapEntry.WellFormed at wellFormed
  rw [entryPages, mem_pageRange]
  unfold MemoryMapEntry.Reaches
  by_cases top : entry.addr + entry.len = wordSize
  · rw [top, Nat.mod_self]
    omega
  · rw [Nat.mod_eq_of_lt (by omega)]
    omega

theorem mem_reservedPages (fits : kernelEnd < wordSize) {page : Nat} :
    page ∈ reservedPages kernelStart kernelEnd ↔ page < pmmMaxPages ∧
      (page < 256 ∨ kernelStart / 4096 ≤ page ∧ 4096 * page < kernelEnd ∧ kernelEnd ≤ wordSize - 4096) := by
  have low : 256 ≤ pmmMaxPages := by decide
  unfold wordSize at fits
  rw [reservedPages, List.mem_append, mem_pageRange, mem_pageRange]
  unfold wordSize
  by_cases wraps : 2 ^ 64 - 4096 < kernelEnd
  · have zero : (kernelEnd + 4095) % 2 ^ 64 / 4096 = 0 := by omega
    rw [zero]
    omega
  · rw [Nat.mod_eq_of_lt (by omega)]
    omega

theorem testBit_booted_iff (wellFormed : ∀ entry ∈ entries, entry.WellFormed) (fits : kernelEnd < wordSize) {page : Nat}
    (inside : page < pmmMaxPages) :
    testBit (pmmBooted entries kernelStart kernelEnd) page = false ↔ Offered entries kernelStart kernelEnd page := by
  rw [testBit_booted, Bool.or_eq_false_iff, decide_eq_false_iff_not, decide_eq_false_iff_not, mem_reservedPages fits]
  push Not
  constructor
  · rintro ⟨⟨entry, usable, member⟩, unreserved⟩
    obtain ⟨member', available⟩ := List.mem_filter.mp usable
    obtain ⟨high, kernel⟩ := unreserved inside
    refine ⟨inside, high, fun both => ?_, entry, member', of_decide_eq_true available, ?_⟩
    · exact absurd both.2.2 (Nat.not_le.mpr (kernel both.1 both.2.1))
    · exact ((mem_entryPages (wellFormed entry member')).mp member).2
  · rintro ⟨-, high, kernel, entry, member, available, reaches⟩
    refine ⟨⟨entry, List.mem_filter.mpr ⟨member, decide_eq_true available⟩, ?_⟩, fun _ => ⟨high, fun starts before => ?_⟩⟩
    · exact (mem_entryPages (wellFormed entry member)).mpr ⟨inside, reaches⟩
    · exact Nat.not_le.mp fun below => kernel ⟨starts, before, below⟩

/-- Only the bytes in front of the region can be missing from a page whose end it reaches. -/
theorem PagesUndivided.available (undivided : PagesUndivided entries kernelStart kernelEnd) {page x : Nat}
    (offered : Offered entries kernelStart kernelEnd page) (inPage : InPage page x) : ByteAvailable entries x := by
  obtain ⟨low, high⟩ := inPage
  obtain ⟨entry, member, available, starts, ends, -⟩ := offered.reached
  by_cases before : x < entry.addr
  · have first : entry.addr / 4096 = page := by omega
    exact undivided.starts entry member available (first ▸ offered) x (by omega) before
  · exact ⟨entry, member, available, Nat.not_lt.mp before, by omega⟩

theorem Offered.outside (undivided : PagesUndivided entries kernelStart kernelEnd) {page x : Nat}
    (offered : Offered entries kernelStart kernelEnd page) (inPage : InPage page x) :
    ¬(kernelStart ≤ x ∧ x < kernelEnd) := by
  by_cases wraps : wordSize - 4096 < kernelEnd
  · exact undivided.kernel wraps page x offered inPage
  · rintro ⟨starts, ends⟩
    obtain ⟨low, high⟩ := inPage
    exact offered.kernel ⟨by omega, by omega, Nat.not_lt.mp wraps⟩

theorem onlyAvailable_booted_iff (wellFormed : ∀ entry ∈ entries, entry.WellFormed) (fits : kernelEnd < wordSize) :
    OnlyAvailable (pmmBooted entries kernelStart kernelEnd) entries kernelStart kernelEnd ↔
      PagesUndivided entries kernelStart kernelEnd := by
  constructor
  · intro only
    have allocatable {page x : Nat} (offered : Offered entries kernelStart kernelEnd page) (inPage : InPage page x) :
        Allocatable entries kernelStart kernelEnd x :=
      only page offered.inside ((testBit_booted_iff wellFormed fits offered.inside).mpr offered) x inPage
    refine ⟨fun entry member available offered x low before => ?_, fun page x offered inPage => ?_,
      fun _ page x offered inPage => ?_⟩
    · exact (allocatable offered ⟨low, by omega⟩).available
    · exact (allocatable offered inPage).unreserved
    · exact (allocatable offered inPage).outside
  · intro undivided page inside clear x inPage
    have offered := (testBit_booted_iff wellFormed fits inside).mp clear
    have high := offered.high
    exact ⟨undivided.available offered inPage, undivided.unreserved page x offered inPage,
      by unfold InPage at inPage; omega, offered.outside undivided inPage⟩

/-- The pages that `pmm_init` leaves allocatable are wholly available exactly if the memory map divides no offered page. -/
theorem only_available_iff (info : Nat → UInt8) (entries : List MemoryMapEntry) (kernelStart kernelEnd : Nat)
    (tags : TagList info multiboot2FirstTag entries) (wellFormed : ∀ entry ∈ entries, entry.WellFormed)
    (fits : kernelEnd < wordSize) :
    ∃ p, (∃ enough, ∀ fuel, enough ≤ fuel → pmmInit fuel info kernelStart kernelEnd = some p) ∧
      (OnlyAvailable p entries kernelStart kernelEnd ↔ PagesUndivided entries kernelStart kernelEnd) := by
  obtain ⟨enough, returns⟩ := pmmInit_returns tags kernelStart kernelEnd
  exact ⟨_, ⟨enough, fun fuel more => (returns fuel more).2⟩, onlyAvailable_booted_iff wellFormed fits⟩

theorem only_available_iff_sample :
    (∀ entry ∈ [onePage], entry.WellFormed) ∧
      ∃ p, (∃ enough, ∀ fuel, enough ≤ fuel → pmmInit fuel onePageMap 0x200000 0x300000 = some p) ∧
        OnlyAvailable p [onePage] 0x200000 0x300000 := by
  have wellFormed : ∀ entry ∈ [onePage], entry.WellFormed := by
    intro entry member
    rw [List.mem_singleton.mp member]
    exact show 0x100000 + 0x1000 ≤ 2 ^ 64 by decide
  have undivided : PagesUndivided [onePage] 0x200000 0x300000 := by
    refine ⟨fun entry member _ _ x low before => ?_, fun page x _ _ reserved => ?_, fun wraps => ?_⟩
    · rw [List.mem_singleton.mp member] at low before
      exact absurd before (Nat.not_lt.mpr low)
    · obtain ⟨entry, member, other, -⟩ := reserved
      rw [List.mem_singleton.mp member] at other
      exact absurd rfl other
    · exact absurd wraps (by decide)
  obtain ⟨p, returns, exactly⟩ :=
    only_available_iff onePageMap [onePage] 0x200000 0x300000 onePageMap_tags wellFormed (by decide)
  exact ⟨wellFormed, p, returns, exactly.mpr undivided⟩

-- One usable region, which starts in the middle of the page at 1 MiB.
def dividedPageMap : Nat → UInt8 := fun a =>
  ([56, 0, 0, 0, 0, 0, 0, 0,
    6, 0, 0, 0, 40, 0, 0, 0, 24, 0, 0, 0, 0, 0, 0, 0,
    0, 8, 0x10, 0, 0, 0, 0, 0, 0, 0x20, 0, 0, 0, 0, 0, 0, 1, 0, 0, 0, 0, 0, 0, 0,
    0, 0, 0, 0, 8, 0, 0, 0] : List UInt8).getD a 0

def dividedPage : MemoryMapEntry := { addr := 0x100800, len := 0x2000, type := 1 }

theorem dividedPageMap_tags : TagList dividedPageMap multiboot2FirstTag [dividedPage] :=
  @TagList.mmap dividedPageMap multiboot2FirstTag [dividedPage] [] (by decide) (by decide)
    (.entry (by decide) (.done (by decide))) (.last (by decide))

/-- The page at 1 MiB becomes allocatable although its first byte is in no region. -/
theorem divided_page_released :
    TagList dividedPageMap multiboot2FirstTag [dividedPage] ∧ (∀ entry ∈ [dividedPage], entry.WellFormed) ∧
      ∃ p, (∃ enough, ∀ fuel, enough ≤ fuel → pmmInit fuel dividedPageMap 0x200000 0x300000 = some p) ∧
        testBit p 256 = false ∧ ¬OnlyAvailable p [dividedPage] 0x200000 0x300000 := by
  have wellFormed : ∀ entry ∈ [dividedPage], entry.WellFormed := by
    intro entry member
    rw [List.mem_singleton.mp member]
    exact show 0x100800 + 0x2000 ≤ 2 ^ 64 by decide
  have offered : Offered [dividedPage] 0x200000 0x300000 256 :=
    ⟨by decide, by decide, by decide, dividedPage, List.mem_singleton_self _, rfl, by decide, by decide, by decide⟩
  have clear := (testBit_booted_iff wellFormed (by decide) offered.inside).mpr offered
  obtain ⟨enough, returns⟩ := pmmInit_returns dividedPageMap_tags 0x200000 0x300000
  refine ⟨dividedPageMap_tags, wellFormed, _, ⟨enough, fun fuel more => (returns fuel more).2⟩, clear, fun only => ?_⟩
  obtain ⟨entry, member, -, low, -⟩ := (only 256 offered.inside clear 0x100000 ⟨by decide, by decide⟩).available
  rw [List.mem_singleton.mp member] at low
  exact absurd low (by decide)

end Mgcore
