import Mgcore.Lib.Run
import Mgcore.Pmm.Runs

/-!
# Clients of the page allocator

A client frees only what `pmm_alloc_page` returned. That is not enough: the result 0 of a failed allocation is the
address of page 0, and freeing it clears the bit of a reserved page. Clients that never free 0 are safe.
-/

namespace Mgcore

/-- `returned` holds all results of `pmm_alloc_page` so far, `held` the non-zero ones not freed since. -/
structure PmmClient where
  pmm : Pmm
  returned : List Nat := []
  held : List Nat := []

def clientStep (g : PmmClient) : PmmOp → PmmClient
  | .alloc =>
      let (address, p) := pmmAllocPage g.pmm
      { pmm := p, returned := address :: g.returned, held := if address = 0 then g.held else address :: g.held }
  | .free physical =>
      { g with pmm := pmmFreePage g.pmm physical, held := g.held.filter fun address => address ≠ physical }

def FreesReturned (g : PmmClient) : PmmOp → Prop
  | .alloc => True
  | .free physical => physical ∈ g.returned

/-- A page below 1 MiB or with a byte of the kernel image. -/
def ProtectedPage (kernelStart kernelEnd page : Nat) : Prop :=
  page < 256 ∨ ∃ x, (4096 * page ≤ x ∧ x < 4096 * page + 4096) ∧ (kernelStart ≤ x ∧ x < kernelEnd)

structure ClientSafe (kernelStart kernelEnd : Nat) (g : PmmClient) : Prop where
  exhausted : (pmmAllocPage g.pmm).1 = 0 ↔ g.pmm.freePages = 0
  fresh : (pmmAllocPage g.pmm).1 ≠ 0 → (pmmAllocPage g.pmm).1 ∉ g.held
  kept : ∀ page < pmmMaxPages, ProtectedPage kernelStart kernelEnd page → testBit g.pmm page = true
  unhanded : ∀ address ∈ g.returned, address ≠ 0 → ¬ProtectedPage kernelStart kernelEnd (address / 4096)

structure ClientInv (kernelStart kernelEnd : Nat) (g : PmmClient) : Prop where
  counted : Accounted g.pmm
  kept : ∀ page < pmmMaxPages, ProtectedPage kernelStart kernelEnd page → testBit g.pmm page = true
  unhanded : ∀ address ∈ g.returned, address ≠ 0 →
    address % 4096 = 0 ∧ ¬ProtectedPage kernelStart kernelEnd (address / 4096)
  taken : ∀ address ∈ g.held, address % 4096 = 0 ∧ testBit g.pmm (address / 4096) = true

section
variable {kernelStart kernelEnd : Nat} {g : PmmClient} (inv : ClientInv kernelStart kernelEnd g)
include inv

theorem ClientInv.unprotected {page : Nat} (inside : page < pmmMaxPages) (clear : testBit g.pmm page = false) :
    ¬ProtectedPage kernelStart kernelEnd page := by
  intro reserved
  rw [inv.kept page inside reserved] at clear
  cases clear

theorem ClientInv.address_ne_zero {page : Nat} (inside : page < pmmMaxPages) (clear : testBit g.pmm page = false) :
    page * 4096 ≠ 0 := by
  have unprotected := inv.unprotected inside clear
  have above : ¬page < 256 := fun low => unprotected (Or.inl low)
  omega

theorem ClientInv.safe : ClientSafe kernelStart kernelEnd g := by
  rcases pmmAllocPage_cases g.pmm with ⟨page, inside, clear, -, result⟩ | ⟨full, result⟩
  · have address := inv.address_ne_zero inside clear
    refine ⟨?_, fun _ held => ?_, inv.kept, fun address member nonzero => (inv.unhanded address member nonzero).2⟩
    · rw [result]
      exact iff_of_false address (inv.counted.positive inside clear)
    · rw [result] at held
      have set := (inv.taken _ held).2
      rw [Nat.mul_div_cancel page (by decide), clear] at set
      cases set
  · have empty : freeSet g.pmm = ∅ := by
      apply Finset.eq_empty_of_forall_notMem
      intro page member
      obtain ⟨inside, clear⟩ := mem_freeSet.mp member
      rw [full page inside] at clear
      cases clear
    refine ⟨?_, fun nonzero => ?_, inv.kept, fun address member nonzero => (inv.unhanded address member nonzero).2⟩
    · rw [result, inv.counted, empty]
      exact iff_of_true rfl rfl
    · rw [result] at nonzero
      exact absurd rfl nonzero

theorem ClientInv.alloc : ClientInv kernelStart kernelEnd (clientStep g .alloc) := by
  rcases pmmAllocPage_cases g.pmm with ⟨page, inside, clear, -, result⟩ | ⟨-, result⟩
  · have address := inv.address_ne_zero inside clear
    have after : clientStep g .alloc =
        { pmm := takePage (setBit g.pmm page), returned := page * 4096 :: g.returned, held := page * 4096 :: g.held } := by
      simp only [clientStep, result, address, if_false]
    have back : page * 4096 / 4096 = page := Nat.mul_div_cancel page (by decide)
    rw [after]
    refine ⟨(inv.counted.take inside clear).1, fun other below reserved => ?_, ?_, ?_⟩
    · rw [testBit_takePage, testBit_setBit, inv.kept other below reserved, Bool.true_or]
    · refine List.forall_mem_cons.mpr ⟨fun _ => ⟨Nat.mul_mod_left _ _, ?_⟩, inv.unhanded⟩
      rw [back]
      exact inv.unprotected inside clear
    · refine List.forall_mem_cons.mpr ⟨⟨Nat.mul_mod_left _ _, ?_⟩, fun address member => ?_⟩
      · rw [back, testBit_takePage, testBit_setBit]
        simp
      · obtain ⟨aligned, set⟩ := inv.taken address member
        rw [testBit_takePage, testBit_setBit, set, Bool.true_or]
        exact ⟨aligned, rfl⟩
  · have after : clientStep g .alloc = { g with returned := 0 :: g.returned } := by
      simp only [clientStep, result, if_true]
    rw [after]
    exact ⟨inv.counted, inv.kept, List.forall_mem_cons.mpr ⟨fun nonzero => absurd rfl nonzero, inv.unhanded⟩, inv.taken⟩

theorem ClientInv.free {physical : Nat} (member : physical ∈ g.returned) (nonzero : physical ≠ 0) :
    ClientInv kernelStart kernelEnd (clientStep g (.free physical)) := by
  obtain ⟨aligned, unprotected⟩ := inv.unhanded physical member nonzero
  refine ⟨inv.counted.free physical, fun page below reserved => ?_, inv.unhanded, fun address held => ?_⟩
  · have other : page ≠ physical / 4096 := fun same => unprotected (same ▸ reserved)
    rw [← inv.kept page below reserved]
    exact freesAtMostOne g.pmm physical page other
  · obtain ⟨held, different⟩ := List.mem_filter.mp held
    obtain ⟨whole, set⟩ := inv.taken address held
    have other : address / 4096 ≠ physical / 4096 := by
      have distinct : address ≠ physical := by simpa using different
      omega
    refine ⟨whole, ?_⟩
    rw [← set]
    exact freesAtMostOne g.pmm physical _ other

theorem ClientInv.step {op : PmmOp} (allowed : FreesReturned g op) (safe : op ≠ .free 0) :
    ClientInv kernelStart kernelEnd (clientStep g op) := by
  cases op with
  | alloc => exact inv.alloc
  | free physical => exact inv.free allowed fun zero => safe (by rw [zero])

end

theorem clientStep_free_zero (kernelStart kernelEnd : Nat) (g : PmmClient) :
    ¬ClientSafe kernelStart kernelEnd (clientStep g (.free 0)) := by
  intro safe
  have positive : 0 < pmmMaxPages := by decide
  have set := safe.kept 0 positive (Or.inl (by decide))
  have clear : testBit (clientStep g (.free 0)).pmm 0 = false := by
    show testBit (pmmFreePage g.pmm 0) 0 = false
    rw [testBit_pmmFreePage]
    simp [positive]
  rw [clear] at set
  cases set

/-! ## Boot and runs -/

theorem protected_reserved {kernelStart kernelEnd page : Nat} (image : kernelEnd + 4095 < wordSize)
    (inside : page < pmmMaxPages) (reserved : ProtectedPage kernelStart kernelEnd page) :
    page ∈ reservedPages kernelStart kernelEnd := by
  apply List.mem_append.mpr
  rcases reserved with low | ⟨x, here, kernel⟩
  · exact Or.inl (mem_pageRange.mpr ⟨Nat.zero_le _, low, inside⟩)
  · right
    rw [mem_pageRange, Nat.mod_eq_of_lt image]
    omega

theorem ClientInv.start {p : Pmm} {kernelStart kernelEnd : Nat} (counted : Accounted p)
    (kept : ∀ page < pmmMaxPages, ProtectedPage kernelStart kernelEnd page → testBit p page = true) :
    ClientInv kernelStart kernelEnd { pmm := p } where
  counted := counted
  kept := kept
  unhanded _ member := by cases member
  taken _ member := by cases member

theorem ClientInv.boot {entries : List MemoryMapEntry} (disjoint : (usable entries).Pairwise EntriesDisjoint)
    {kernelStart kernelEnd : Nat} (image : kernelEnd + 4095 < wordSize) :
    ClientInv kernelStart kernelEnd { pmm := pmmBooted entries kernelStart kernelEnd } := by
  apply ClientInv.start (Accounted.booted disjoint kernelStart kernelEnd)
  intro page inside reserved
  rw [testBit_booted, decide_eq_true (protected_reserved image inside reserved), Bool.or_true]

theorem page_clients_safe_iff (info : Nat → UInt8) (kernelStart kernelEnd : Nat) (entries : List MemoryMapEntry)
    (tags : TagList info multiboot2FirstTag entries) (disjoint : (usable entries).Pairwise EntriesDisjoint)
    (image : kernelEnd + 4095 < wordSize) :
    ∃ p, (∃ enough, ∀ fuel, enough ≤ fuel → pmmInit fuel info kernelStart kernelEnd = some p) ∧
      ∀ ops, Lib.Along (fun g op => some (clientStep g op)) FreesReturned { pmm := p } ops →
        ((∀ before, before <+: ops →
          ClientSafe kernelStart kernelEnd (before.foldl clientStep { pmm := p })) ↔ PmmOp.free 0 ∉ ops) := by
  obtain ⟨enough, returns⟩ := pmmInit_returns tags kernelStart kernelEnd
  refine ⟨_, ⟨enough, fun fuel more => (returns fuel more).2⟩, fun ops client => ?_⟩
  have safe : ∀ g, ClientInv kernelStart kernelEnd g → ClientSafe kernelStart kernelEnd g := fun _ inv => inv.safe
  rw [Lib.foldl_prefixes_iff safe (fun _ _ inv allowed careful => inv.step allowed careful) ?_ client
    (ClientInv.boot disjoint image), Lib.along_total_iff]
  · exact ⟨fun careful member => careful _ member rfl, fun absent op member same => absent (same ▸ member)⟩
  · intro g op _ _ zero
    rw [not_not.mp zero]
    exact clientStep_free_zero kernelStart kernelEnd g

theorem pmmAllocPage_lowest {p : Pmm} {page : Nat} (free : page ∈ freeSet p) (lowest : ∀ other ∈ freeSet p, page ≤ other) :
    pmmAllocPage p = (page * 4096, takePage (setBit p page)) := by
  obtain ⟨inside, clear⟩ := mem_freeSet.mp free
  rcases pmmAllocPage_cases p with ⟨found, foundInside, foundClear, below, result⟩ | ⟨full, -⟩
  · have above : page ≤ found := lowest found (mem_freeSet.mpr ⟨foundInside, foundClear⟩)
    have same : found = page := by
      by_contra other
      rw [below page (by omega)] at clear
      cases clear
    rw [result, same]
  · rw [full page inside] at clear
    cases clear

theorem onePage_freeSet : freeSet (pmmBooted [onePage] 0x200000 0x300000) = {256} := by
  have pages : ∀ page, page ∈ entryPages onePage ↔ 256 ≤ page ∧ page < 257 ∧ page < pmmMaxPages :=
    fun page => mem_pageRange
  have reserved : ∀ page, page ∈ reservedPages 0x200000 0x300000 ↔
      (0 ≤ page ∧ page < 256 ∧ page < pmmMaxPages) ∨ (512 ≤ page ∧ page < 768 ∧ page < pmmMaxPages) :=
    fun page => List.mem_append.trans (or_congr mem_pageRange mem_pageRange)
  have single : usable [onePage] = [onePage] := rfl
  have room : 257 < pmmMaxPages := by decide
  ext page
  rw [mem_freeSet, testBit_booted, single, Bool.or_eq_false_iff, decide_eq_false_iff_not, decide_eq_false_iff_not,
    reserved, List.forall_mem_singleton, pages, Finset.mem_singleton]
  omega

/-- A page is taken, given back and taken again. -/
theorem page_clients_safe_iff_sample :
    ∃ p, (∃ enough, ∀ fuel, enough ≤ fuel → pmmInit fuel onePageMap 0x200000 0x300000 = some p) ∧
      ∀ before, before <+: [PmmOp.alloc, .free 0x100000, .alloc] →
        ClientSafe 0x200000 0x300000 (before.foldl clientStep { pmm := p }) := by
  obtain ⟨p, ⟨enough, boots⟩, safe⟩ := page_clients_safe_iff onePageMap 0x200000 0x300000 [onePage] onePageMap_tags
    onePage_disjoint (by decide)
  refine ⟨p, ⟨enough, boots⟩, (safe [.alloc, .free 0x100000, .alloc] ?_).mpr (by decide)⟩
  obtain ⟨enough', returns⟩ := pmmInit_returns onePageMap_tags 0x200000 0x300000
  have same : p = pmmBooted [onePage] 0x200000 0x300000 :=
    Option.some.inj ((boots _ (le_max_left enough enough')).symm.trans (returns _ (le_max_right enough enough')).2)
  have first : (pmmAllocPage p).1 = 0x100000 := by
    rw [same, @pmmAllocPage_lowest _ 256 (by simp [onePage_freeSet]) (by simp [onePage_freeSet])]
  refine ⟨trivial, fun t steps => ⟨?_, fun _ _ => ⟨trivial, fun _ _ => trivial⟩⟩⟩
  cases steps
  show 0x100000 ∈ (pmmAllocPage p).1 :: []
  rw [first]
  exact List.mem_singleton_self _

/-- With one page left, a client that allocates twice and gives back the second result gives back page 0. -/
theorem ClientInv.exhausted {kernelStart kernelEnd : Nat} {g : PmmClient} (inv : ClientInv kernelStart kernelEnd g)
    (one : g.pmm.freePages = 1) :
    Lib.Along (fun g op => some (clientStep g op)) FreesReturned g [.alloc, .alloc, .free 0] ∧
    ¬ClientSafe kernelStart kernelEnd ([PmmOp.alloc, .alloc, .free 0].foldl clientStep g) := by
  have empty : (clientStep g .alloc).pmm.freePages = 0 := by
    show (pmmAllocPage g.pmm).2.freePages = 0
    rcases pmmAllocPage_cases g.pmm with ⟨page, inside, clear, -, result⟩ | ⟨-, result⟩
    · have drops := (inv.counted.take inside clear).2
      rw [result]
      show (takePage (setBit g.pmm page)).freePages = 0
      omega
    · have none := inv.safe.exhausted.mp (by rw [result])
      omega
  have zero : (pmmAllocPage (clientStep g .alloc).pmm).1 = 0 := inv.alloc.safe.exhausted.mpr empty
  have returned : 0 ∈ (clientStep (clientStep g .alloc) .alloc).returned := by
    show 0 ∈ (pmmAllocPage (clientStep g .alloc).pmm).1 :: (clientStep g .alloc).returned
    rw [zero]
    exact List.mem_cons_self
  constructor
  · refine ⟨trivial, fun t steps => ⟨trivial, fun u later => ⟨?_, fun _ _ => trivial⟩⟩⟩
    rw [← Option.some.inj later, ← Option.some.inj steps]
    exact returned
  · exact clientStep_free_zero kernelStart kernelEnd _

theorem client_frees_reserved_page :
    ∃ p, (∃ enough, ∀ fuel, enough ≤ fuel → pmmInit fuel onePageMap 0x200000 0x300000 = some p) ∧
      Lib.Along (fun g op => some (clientStep g op)) FreesReturned { pmm := p } [.alloc, .alloc, .free 0] ∧
      ¬ClientSafe 0x200000 0x300000 ([PmmOp.alloc, .alloc, .free 0].foldl clientStep { pmm := p }) := by
  obtain ⟨enough, returns⟩ := pmmInit_returns onePageMap_tags 0x200000 0x300000
  have inv : ClientInv 0x200000 0x300000 { pmm := pmmBooted [onePage] 0x200000 0x300000 } :=
    ClientInv.boot onePage_disjoint (by decide)
  have one : (pmmBooted [onePage] 0x200000 0x300000).freePages = 1 := by
    rw [Accounted.booted onePage_disjoint, onePage_freeSet, Finset.card_singleton]
  exact ⟨_, ⟨enough, fun fuel more => (returns fuel more).2⟩, inv.exhausted one⟩

end Mgcore
