import Mgcore.Boot.Paging
import Mgcore.Pmm.Clients

/-!
# The supply of pages

A client that frees only pages it holds neither loses nor invents one: the free pages and the held ones together are
always those that `pmm_init` found. The allocator covers four gigabytes and takes the lowest page first, the boot tables
map one gigabyte, so it leaves the mapped range only when every page of it is held.
-/

namespace Mgcore

def FreesHeld (g : PmmClient) : PmmOp → Prop
  | .alloc => True
  | .free physical => physical ∈ g.held

/-! ## The counter -/

/-- Regions that overlap are counted twice, so the counter may exceed the free pages. It is never below them. -/
def Covered (p : Pmm) : Prop := (freeSet p).card ≤ p.freePages

namespace Covered
variable {p q : Pmm} {page : Nat}

theorem take (covered : Covered p) (inside : page < pmmMaxPages) (clear : testBit p page = false) :
    Covered (takePage (setBit p page)) ∧ (takePage (setBit p page)).freePages + 1 = p.freePages := by
  have member : page ∈ freeSet p := mem_freeSet.mpr ⟨inside, clear⟩
  have some : 0 < (freeSet p).card := Finset.card_pos.mpr ⟨page, member⟩
  have positive : 0 < p.freePages := Nat.lt_of_lt_of_le some covered
  have bits : freeSet (takePage (setBit p page)) = (freeSet p).erase page := by
    rw [freeSet, takePage_bitmap]
    exact Lib.zeros_bitSet p.bitmap pmmMaxPages page
  have count : (takePage (setBit p page)).freePages = p.freePages - 1 := by
    rw [takePage, if_pos (show (setBit p page).freePages ≠ 0 from Nat.pos_iff_ne_zero.mp positive)]
    rfl
  unfold Covered at covered
  rw [Covered, bits, Finset.card_erase_of_mem member, count]
  omega

theorem give (covered : Covered p) (inside : page < pmmMaxPages) (bitmap : q.bitmap = (clearBit p page).bitmap)
    (count : q.freePages = p.freePages + 1) : Covered q := by
  have bits : freeSet q = insert page (freeSet p) := by
    rw [freeSet, bitmap]
    exact Lib.zeros_bitClear p.bitmap inside
  rw [Covered, bits, count]
  exact Nat.le_trans (Finset.card_insert_le page (freeSet p)) (Nat.add_le_add_right covered 1)

theorem releasePages {pages : List Nat} (covered : Covered p) (inside : ∀ page ∈ pages, page < pmmMaxPages) :
    Covered (pages.foldl releasePage p) := by
  induction pages generalizing p with
  | nil => exact covered
  | cons page pages ih =>
      have after : Covered (releasePage p page) := covered.give (inside page (by simp)) rfl rfl
      exact ih after fun other member => inside other (by simp [member])

theorem addEntries {entries : List MemoryMapEntry} (covered : Covered p) : Covered (entries.foldl addEntry p) := by
  induction entries generalizing p with
  | nil => exact covered
  | cons entry entries ih =>
      have after : Covered (addEntry p entry) := by
        unfold addEntry
        split_ifs
        · exact covered.releasePages fun _ member => (mem_pageRange.mp member).2.2
        · exact covered
      exact ih after

theorem reservePages {pages : List Nat} (covered : Covered p) (inside : ∀ page ∈ pages, page < pmmMaxPages) :
    Covered (pages.foldl reservePage p) := by
  induction pages generalizing p with
  | nil => exact covered
  | cons page pages ih =>
      have after : Covered (reservePage p page) := by
        unfold reservePage
        cases taken : testBit p page with
        | true => exact covered
        | false => exact (covered.take (inside page (by simp)) taken).1
      exact ih after fun other member => inside other (by simp [member])

theorem booted (entries : List MemoryMapEntry) (kernelStart kernelEnd : Nat) :
    Covered (pmmBooted entries kernelStart kernelEnd) := by
  have reset : Covered pmmReset := Nat.le_of_eq Accounted.reset.symm
  exact reset.addEntries.reservePages fun _ member => reservedPages_lt member

end Covered

/-! ## What is held -/

/-- `supply` is split into the free pages and the held ones, and the counter and the held pages add up to `total`. -/
structure Supply (supply : Finset Nat) (total : Nat) (g : PmmClient) : Prop where
  covered : Covered g.pmm
  total : g.pmm.freePages + g.held.length = total
  zero : 0 ∉ supply
  aligned : ∀ address ∈ g.held, address % 4096 = 0
  distinct : g.held.Nodup
  split : ∀ page, page ∈ supply ↔ page ∈ freeSet g.pmm ∨ page * 4096 ∈ g.held
  apart : ∀ page ∈ freeSet g.pmm, page * 4096 ∉ g.held
  inside : ∀ page ∈ supply, page < pmmMaxPages

namespace Supply
variable {supply : Finset Nat} {total : Nat} {g : PmmClient}

theorem start {p : Pmm} (covered : Covered p) (zero : testBit p 0 = true) : Supply (freeSet p) p.freePages { pmm := p } where
  covered := covered
  total := rfl
  zero member := by simp [mem_freeSet, zero] at member
  aligned := by simp
  distinct := List.nodup_nil
  split := by simp
  apart := by simp
  inside _ member := (mem_freeSet.mp member).1

theorem boot (entries : List MemoryMapEntry) (kernelStart : Nat) {kernelEnd : Nat} (image : kernelEnd + 4095 < wordSize) :
    Supply (freeSet (pmmBooted entries kernelStart kernelEnd)) (pmmBooted entries kernelStart kernelEnd).freePages
      { pmm := pmmBooted entries kernelStart kernelEnd } := by
  apply start (Covered.booted entries kernelStart kernelEnd)
  rw [testBit_booted, decide_eq_true (protected_reserved image (by simp [pmmMaxPages]) (Or.inl (by omega))), Bool.or_true]

theorem alloc (inv : Supply supply total g) : Supply supply total (clientStep g .alloc) := by
  rcases pmmAllocPage_cases g.pmm with ⟨page, inside, clear, -, result⟩ | ⟨-, result⟩
  · have free : page ∈ freeSet g.pmm := mem_freeSet.mpr ⟨inside, clear⟩
    have supplied : page ∈ supply := (inv.split page).mpr (Or.inl free)
    have nonzero : page * 4096 ≠ 0 := fun none => inv.zero ((show page = 0 by omega) ▸ supplied)
    obtain ⟨covered, count⟩ := inv.covered.take inside clear
    have left : ∀ other, other ∈ freeSet (takePage (setBit g.pmm page)) ↔ other ∈ freeSet g.pmm ∧ other ≠ page := by
      intro other
      simp [mem_freeSet, testBit_takePage, testBit_setBit, and_assoc]
    have step : clientStep g .alloc =
        { pmm := takePage (setBit g.pmm page), returned := page * 4096 :: g.returned, held := page * 4096 :: g.held } := by
      simp only [clientStep, result, if_neg nonzero]
    have same : ∀ other, other * 4096 = page * 4096 ↔ other = page := fun other => by omega
    rw [step]
    refine ⟨covered, ?_, inv.zero, ?_, ?_, ?_, ?_, inv.inside⟩
    · have before := inv.total
      show (takePage (setBit g.pmm page)).freePages + (g.held.length + 1) = total
      omega
    · intro address member
      rcases List.mem_cons.mp member with here | held
      · omega
      · exact inv.aligned address held
    · exact List.nodup_cons.mpr ⟨inv.apart page free, inv.distinct⟩
    · intro other
      rw [inv.split other, left, List.mem_cons, same]
      by_cases here : other = page
      · simp [here, free]
      · simp [here]
    · intro other member
      rw [List.mem_cons, same]
      exact not_or.mpr ⟨((left other).mp member).2, inv.apart other ((left other).mp member).1⟩
  · have step : clientStep g .alloc = { g with returned := 0 :: g.returned } := by
      simp only [clientStep, result, if_true]
    rw [step]
    exact ⟨inv.covered, inv.total, inv.zero, inv.aligned, inv.distinct, inv.split, inv.apart, inv.inside⟩

theorem free (inv : Supply supply total g) {physical : Nat} (held : physical ∈ g.held) :
    Supply supply total (clientStep g (.free physical)) := by
  obtain ⟨page, rfl⟩ : ∃ page, physical = page * 4096 := ⟨physical / 4096, by have := inv.aligned physical held; omega⟩
  have supplied : page ∈ supply := (inv.split page).mpr (Or.inr held)
  have bound : page < pmmMaxPages := inv.inside page supplied
  have same : ∀ other, other * 4096 = page * 4096 ↔ other = page := fun other => by omega
  have taken : testBit g.pmm page = true := by
    by_contra clear
    exact inv.apart page (mem_freeSet.mpr ⟨bound, Bool.eq_false_iff.mpr clear⟩) held
  have freed : pmmFreePage g.pmm (page * 4096) = { clearBit g.pmm page with freePages := g.pmm.freePages + 1 } := by
    rw [pmmFreePage, Nat.mul_div_cancel page (by decide)]
    exact if_pos ⟨bound, taken⟩
  have more : ∀ other, other ∈ freeSet (pmmFreePage g.pmm (page * 4096)) ↔ other ∈ freeSet g.pmm ∨ other = page := by
    intro other
    rw [mem_freeSet, mem_freeSet, testBit_pmmFreePage, Nat.mul_div_cancel page (by decide)]
    by_cases here : other = page
    · simp [here, bound]
    · simp [here]
  refine ⟨?_, ?_, inv.zero, ?_, inv.distinct.filter _, ?_, ?_, inv.inside⟩
  · show Covered (pmmFreePage g.pmm (page * 4096))
    rw [freed]
    exact inv.covered.give bound rfl rfl
  · have before := inv.total
    have fewer : (g.held.filter fun address => address ≠ page * 4096).length + 1 = g.held.length := by
      have erased : g.held.erase (page * 4096) = g.held.filter (· != page * 4096) := inv.distinct.erase_eq_filter _
      have filtered : (g.held.filter fun address => address ≠ page * 4096) = g.held.filter (· != page * 4096) :=
        List.filter_congr fun address _ => by by_cases same : address = page * 4096 <;> simp [same]
      rw [filtered, ← erased, List.length_erase_of_mem held]
      exact Nat.sub_add_cancel (List.length_pos_of_mem held)
    show (pmmFreePage g.pmm (page * 4096)).freePages + (g.held.filter fun address => address ≠ page * 4096).length = total
    rw [freed]
    dsimp only
    omega
  · intro address member
    exact inv.aligned address (List.mem_of_mem_filter member)
  · intro other
    simp only [clientStep, more, inv.split other, List.mem_filter, decide_eq_true_eq, ne_eq, same]
    by_cases here : other = page
    · simp [here, held]
    · simp [here]
  · intro other member
    simp only [clientStep, List.mem_filter, decide_eq_true_eq, ne_eq, same]
    rintro ⟨also, other_ne⟩
    rcases (more other).mp member with free | here
    · exact inv.apart other free also
    · exact other_ne here

theorem step (inv : Supply supply total g) {op : PmmOp} (allowed : FreesHeld g op) : Supply supply total (clientStep g op) := by
  cases op with
  | alloc => exact inv.alloc
  | free physical => exact inv.free allowed

theorem run (inv : Supply supply total g) {ops : List PmmOp}
    (client : Lib.Along (fun g op => some (clientStep g op)) FreesHeld g ops) : Supply supply total (ops.foldl clientStep g) := by
  induction ops generalizing g with
  | nil => exact inv
  | cons op ops ih => exact ih (inv.step client.1) (client.2 _ rfl)

end Supply

/-! ## The mapped range -/

def InReach (mem : Nat → UInt8) (cr3 address : Nat) : Prop :=
  ∀ x, address ≤ x → x < address + 4096 → translate mem cr3 x = some { physical := x, writable := true, user := false }

def OutOfReach (mem : Nat → UInt8) (cr3 address : Nat) : Prop :=
  ∀ x, address ≤ x → x < address + 4096 → translate mem cr3 x = none

/-- An allocation is out of the mapped range exactly when all pages of it are held. -/
theorem Identity.allocates {t : PageTables} {mem : Nat → UInt8} (tables : Identity t mem) {supply : Finset Nat} {total : Nat}
    {g : PmmClient} (inv : Supply supply total g) :
    ((∃ page ∈ supply, page < 2 ^ 18 ∧ page * 4096 ∉ g.held) → InReach mem t.pml4Table (pmmAllocPage g.pmm).1) ∧
    ((∀ page ∈ supply, page < 2 ^ 18 → page * 4096 ∈ g.held) → (pmmAllocPage g.pmm).1 ≠ 0 →
      OutOfReach mem t.pml4Table (pmmAllocPage g.pmm).1) := by
  have limit : pmmMaxPages = 2 ^ 20 := rfl
  constructor
  · rintro ⟨page, supplied, low, spare⟩ x above below
    have free : page ∈ freeSet g.pmm := ((inv.split page).mp supplied).resolve_right spare
    obtain ⟨inside, clear⟩ := mem_freeSet.mp free
    rcases pmmAllocPage_cases g.pmm with ⟨found, _, _, lowest, result⟩ | ⟨full, -⟩
    · have first : found ≤ page := by
        by_contra later
        rw [lowest page (by omega)] at clear
        cases clear
      rw [result] at above below
      dsimp only at above below
      rw [tables.translate_eq (by omega), if_pos (by omega)]
    · rw [full page inside] at clear
      cases clear
  · intro held nonzero x above below
    rcases pmmAllocPage_cases g.pmm with ⟨found, inside, clear, _, result⟩ | ⟨-, result⟩
    · have free : found ∈ freeSet g.pmm := mem_freeSet.mpr ⟨inside, clear⟩
      have high : ¬found < 2 ^ 18 := fun low => inv.apart found free (held found ((inv.split found).mpr (Or.inl free)) low)
      rw [result] at above below
      dsimp only at above below
      rw [tables.translate_eq (by omega), if_neg (by omega)]
    · rw [result] at nonzero
      exact absurd rfl nonzero

theorem page_supply (t : PageTables) (mem info : Nat → UInt8) (kernelStart kernelEnd : Nat) (entries : List MemoryMapEntry)
    (zero : ∀ a, t.pml4Table ≤ a → a < t.pml4Table + 3 * 4096 → mem a = 0)
    (tags : TagList info multiboot2FirstTag entries) (image : kernelEnd + 4095 < wordSize) :
    ∃ final p, setupPageTables t 512 mem = some final ∧
      (∃ enough, ∀ fuel, enough ≤ fuel → pmmInit fuel info kernelStart kernelEnd = some p) ∧
      ∀ ops, Lib.Along (fun g op => some (clientStep g op)) FreesHeld { pmm := p } ops →
        let g := ops.foldl clientStep { pmm := p }
        g.pmm.freePages + g.held.length = p.freePages ∧
        (∀ page, page ∈ freeSet p ↔ page ∈ freeSet g.pmm ∨ page * 4096 ∈ g.held) ∧
        ((∃ page ∈ freeSet p, page < 2 ^ 18 ∧ page * 4096 ∉ g.held) →
          InReach final t.pml4Table (pmmAllocPage g.pmm).1) ∧
        ((∀ page ∈ freeSet p, page < 2 ^ 18 → page * 4096 ∈ g.held) → (pmmAllocPage g.pmm).1 ≠ 0 →
          OutOfReach final t.pml4Table (pmmAllocPage g.pmm).1) := by
  obtain ⟨final, returns, tables, -⟩ := setupPageTables_identity t zero
  obtain ⟨enough, boots⟩ := pmmInit_returns tags kernelStart kernelEnd
  have supply := Supply.boot entries kernelStart image
  generalize pmmBooted entries kernelStart kernelEnd = p at boots supply
  refine ⟨final, p, returns, ⟨enough, fun fuel more => (boots fuel more).2⟩, fun ops client => ?_⟩
  have inv := supply.run client
  exact ⟨inv.total, inv.split, tables.allocates inv⟩

theorem twoPage_freeSet : freeSet (pmmBooted [onePage, farPage] 0x200000 0x300000) = {256, 2 ^ 18} := by
  have near : ∀ page, page ∈ entryPages onePage ↔ 256 ≤ page ∧ page < 257 ∧ page < pmmMaxPages := fun page => mem_pageRange
  have far : ∀ page, page ∈ entryPages farPage ↔ 2 ^ 18 ≤ page ∧ page < 2 ^ 18 + 1 ∧ page < pmmMaxPages :=
    fun page => mem_pageRange
  have reserved : ∀ page, page ∈ reservedPages 0x200000 0x300000 ↔
      (0 ≤ page ∧ page < 256 ∧ page < pmmMaxPages) ∨ (512 ≤ page ∧ page < 768 ∧ page < pmmMaxPages) :=
    fun page => List.mem_append.trans (or_congr mem_pageRange mem_pageRange)
  have both : usable [onePage, farPage] = [onePage, farPage] := rfl
  have limit : pmmMaxPages = 2 ^ 20 := rfl
  ext page
  rw [mem_freeSet, testBit_booted, both, Bool.or_eq_false_iff, decide_eq_false_iff_not, decide_eq_false_iff_not,
    reserved, List.forall_mem_cons, List.forall_mem_singleton, near, far, Finset.mem_insert, Finset.mem_singleton]
  omega

theorem pmmAllocPage_ne_zero {p : Pmm} {page : Nat} (free : page ∈ freeSet p) (zero : 0 ∉ freeSet p) :
    (pmmAllocPage p).1 ≠ 0 := by
  obtain ⟨inside, clear⟩ := mem_freeSet.mp free
  rcases pmmAllocPage_cases p with ⟨found, below, spare, -, result⟩ | ⟨full, -⟩
  · rw [result]
    intro none
    have first : found = 0 := by
      dsimp only at none
      omega
    exact zero (first ▸ mem_freeSet.mpr ⟨below, spare⟩)
  · rw [full page inside] at clear
    cases clear

/-- With both pages of the map free, the one at 1 MiB is taken. -/
theorem twoPage_alloc {g : PmmClient} (pages : freeSet g.pmm = {256, 2 ^ 18}) (empty : g.held = []) :
    (clientStep g .alloc).held = [0x100000] := by
  show (if (pmmAllocPage g.pmm).1 = 0 then g.held else (pmmAllocPage g.pmm).1 :: g.held) = _
  rw [@pmmAllocPage_lowest g.pmm 256 (by simp [pages]) (by simp [pages]), if_neg (show 256 * 4096 ≠ 0 by decide), empty]

/-- A page that is given back at once was held. -/
theorem alloc_free_along {g : PmmClient} {physical : Nat} (first : (clientStep g .alloc).held = [physical]) {ops : List PmmOp}
    (rest : Lib.Along (fun g op => some (clientStep g op)) FreesHeld (clientStep (clientStep g .alloc) (.free physical)) ops) :
    Lib.Along (fun g op => some (clientStep g op)) FreesHeld g (.alloc :: .free physical :: ops) := by
  refine ⟨trivial, fun t steps => ⟨?_, fun u later => ?_⟩⟩
  · cases steps
    rw [FreesHeld, first]
    exact List.mem_singleton_self _
  · cases steps
    cases later
    exact rest

/-- The page at 1 MiB is taken, given back and taken again. The next one lies beside the mapped range. -/
theorem page_supply_two :
    ∃ final p, setupPageTables bootTables 512 (fun _ => 0) = some final ∧
      (∃ enough, ∀ fuel, enough ≤ fuel → pmmInit fuel twoPageMap 0x200000 0x300000 = some p) ∧
      let g := [PmmOp.alloc, .free 0x100000, .alloc].foldl clientStep { pmm := p }
      g.pmm.freePages + g.held.length = p.freePages ∧ g.held = [0x100000] ∧
        OutOfReach final bootTables.pml4Table (pmmAllocPage g.pmm).1 := by
  obtain ⟨final, p, returns, ⟨enough, boots⟩, runs⟩ := page_supply bootTables (fun _ => 0) twoPageMap 0x200000 0x300000
    [onePage, farPage] (fun _ _ _ => rfl) twoPageMap_tags (by decide)
  obtain ⟨enough', returns'⟩ := pmmInit_returns twoPageMap_tags 0x200000 0x300000
  have same : p = pmmBooted [onePage, farPage] 0x200000 0x300000 :=
    Option.some.inj ((boots _ (le_max_left enough enough')).symm.trans (returns' _ (le_max_right enough enough')).2)
  have pages : freeSet p = {256, 2 ^ 18} := same ▸ twoPage_freeSet
  have first : (clientStep { pmm := p } .alloc).held = [0x100000] := twoPage_alloc pages rfl
  refine ⟨final, p, returns, ⟨enough, boots⟩, ?_⟩
  obtain ⟨-, split, -⟩ := runs [.alloc, .free 0x100000] (alloc_free_along first trivial)
  obtain ⟨total, split', -, beside⟩ := runs [.alloc, .free 0x100000, .alloc]
    (alloc_free_along first ⟨trivial, fun _ _ => trivial⟩)
  simp only [List.foldl_cons, List.foldl_nil] at split total split' beside ⊢
  have empty : (clientStep (clientStep { pmm := p } .alloc) (.free 0x100000)).held = [] := by
    show (clientStep { pmm := p } .alloc).held.filter _ = []
    rw [first]
    rfl
  generalize clientStep (clientStep { pmm := p } .alloc) (.free 0x100000) = g at split total split' beside empty ⊢
  have back : freeSet g.pmm = {256, 2 ^ 18} := by
    ext page
    rw [← pages, split page, empty]
    simp
  have held := twoPage_alloc back empty
  have spare : 2 ^ 18 ∈ freeSet (clientStep g .alloc).pmm :=
    ((split' (2 ^ 18)).mp (by simp [pages])).resolve_right (by simp [held])
  have taken : 0 ∉ freeSet (clientStep g .alloc).pmm := by
    intro zero
    have free := (split' 0).mpr (Or.inl zero)
    rw [pages] at free
    simp at free
  refine ⟨total, held, beside (fun page free low => ?_) (pmmAllocPage_ne_zero spare taken)⟩
  rw [pages, Finset.mem_insert, Finset.mem_singleton] at free
  rw [held, free.resolve_right (by omega)]
  exact List.mem_singleton_self _

end Mgcore
