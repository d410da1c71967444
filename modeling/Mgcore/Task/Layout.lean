import Mgcore.Lib.Run
import Mgcore.Task.Invariant
import Mgcore.Task.Syscalls

/-!
# The layout of a user address space

The heap grows from `brk_base`, mappings are handed out upwards from `next_mmap_base`, and neither call looks
at the other cursor or at `MGCORE_USER_LIMIT`. `LayoutKept` is the test that is missing: with it each region is
clear of the heap and of the other regions, and the first call that fails it breaks the layout.
-/

namespace Mgcore

inductive LayoutOp
  | mmap (length : UInt64)
  | brk (address : UInt64)

/-- `regions` records the successful `sys_mmap` calls: the address returned and the length asked for. -/
structure Mapped where
  tasks : TaskTable
  regions : List (Nat × Nat) := []

def Mapped.mm (g : Mapped) : AddressSpace := (taskCurrent g.tasks).mm

def layoutStep (g : Mapped) : LayoutOp → Mapped
  | .mmap length =>
      let (value, t) := sysMmap g.tasks length
      if value = -eNOMEM then { g with tasks := t }
      else { tasks := t, regions := (toSize value, length.toNat) :: g.regions }
  | .brk address => { g with tasks := (sysBrk g.tasks address).2 }

def RangesDisjoint (a b : Nat × Nat) : Prop := ∀ x, ¬((a.1 ≤ x ∧ x < a.2) ∧ (b.1 ≤ x ∧ x < b.2))

def regionRange (region : Nat × Nat) : Nat × Nat := (region.1, region.1 + region.2)

structure Separated (mm : AddressSpace) (regions : List (Nat × Nat)) : Prop where
  aligned : ∀ region ∈ regions, region.1 % 4096 = 0
  disjoint : regions.Pairwise fun a b => RangesDisjoint (regionRange a) (regionRange b)
  below : ∀ region ∈ regions, region.1 + region.2 ≤ userLimit
  heap : ∀ region ∈ regions, RangesDisjoint (regionRange region) (mm.brkBase, mm.brkCurrent)
  brk_below : mm.brkCurrent ≤ userLimit

def mmapBase : Nat := 0x20000000  -- where `vmm_address_space_init` puts the first mapping

def LayoutKept (mm : AddressSpace) : LayoutOp → Prop
  | .mmap length =>
      alignedLength length = 0 ∨ (mm.brkCurrent ≤ mm.nextMmapBase ∧ mm.nextMmapBase + length.toNat ≤ userLimit)
  | .brk address =>
      address = 0 ∨ address.toNat < mm.brkBase ∨
        (address.toNat ≤ userLimit ∧ (address.toNat ≤ mmapBase ∨ mm.nextMmapBase = mmapBase))

instance (mm : AddressSpace) (op : LayoutOp) : Decidable (LayoutKept mm op) :=
  match op with
  | .mmap _ => inferInstanceAs (Decidable (_ ∨ _))
  | .brk _ => inferInstanceAs (Decidable (_ ∨ _))

/-- What the calls keep as long as each meets `LayoutKept`. -/
structure LayoutInv (mm : AddressSpace) (regions : List (Nat × Nat)) : Prop where
  separated : Separated mm regions
  base : mm.brkBase = 0x800000
  next_aligned : mm.nextMmapBase % 4096 = 0
  next_low : mmapBase ≤ mm.nextMmapBase
  next_high : mm.nextMmapBase ≤ userLimit + 4096
  placed : ∀ region ∈ regions, mmapBase ≤ region.1 ∧ 0 < region.2 ∧ region.1 + region.2 < mm.nextMmapBase
  origin : (regions = [] ∧ mm.nextMmapBase = mmapBase) ∨ ∃ length, (mmapBase, length) ∈ regions

theorem limits : mmapBase = 0x20000000 ∧ userLimit = 0x00007FFFFFFF0000 := ⟨rfl, rfl⟩

theorem LayoutInv.start : LayoutInv vmmAddressSpaceInit [] :=
  ⟨⟨by simp, by simp, by simp, by simp, by decide⟩, rfl, by decide, by decide, by decide, by simp, Or.inl ⟨rfl, rfl⟩⟩

/-! ## Single calls -/

theorem layoutStep_refused {g : Mapped} {length : UInt64} (refused : alignedLength length = 0) :
    (layoutStep g (.mmap length)).mm = g.mm ∧ (layoutStep g (.mmap length)).regions = g.regions := by
  simp [layoutStep, sysMmap, vmmReserveRange, refused, Mapped.mm]

theorem layoutStep_mmap {g : Mapped} (inv : LayoutInv g.mm g.regions) {length : UInt64} (granted : alignedLength length ≠ 0) :
    (layoutStep g (.mmap length)).mm = { g.mm with
      nextMmapBase := (g.mm.nextMmapBase + (alignedLength length).toNat + 4096) % wordSize } ∧
    (layoutStep g (.mmap length)).regions = (g.mm.nextMmapBase, length.toNat) :: g.regions := by
  have limits := limits
  have low := inv.next_low
  have high := inv.next_high
  have signed : toSigned g.mm.nextMmapBase = (g.mm.nextMmapBase : Int) := toSigned_of_lt (by omega)
  have value : toSize (g.mm.nextMmapBase : Int) = g.mm.nextMmapBase :=
    toSize_of_lt (Nat.lt_of_lt_of_le (m := 2 ^ 63) (by omega) (by decide))
  have nonzero : g.mm.nextMmapBase ≠ 0 := by omega
  have success : (g.mm.nextMmapBase : Int) ≠ -eNOMEM := by
    show (g.mm.nextMmapBase : Int) ≠ -12
    omega
  have call : sysMmap g.tasks length = ((g.mm.nextMmapBase : Int), setMm g.tasks { g.mm with
      nextMmapBase := (g.mm.nextMmapBase + (alignedLength length).toNat + 4096) % wordSize }) := by
    rw [sysMmap, vmmReserveRange, if_neg granted]
    show (if g.mm.nextMmapBase ≠ 0 then toSigned g.mm.nextMmapBase else -eNOMEM, _) = _
    rw [if_pos nonzero, signed]
    rfl
  rw [layoutStep, call]
  simp only [success, if_false, value, and_true]
  exact setMm_mm _ _

theorem layoutStep_brk {g : Mapped} {address : UInt64} (set : address ≠ 0) (heap : g.mm.brkBase ≤ address.toNat) :
    (layoutStep g (.brk address)).mm = { g.mm with brkCurrent := address.toNat } ∧
    (layoutStep g (.brk address)).regions = g.regions := by
  have above : ¬address.toNat < (taskCurrent g.tasks).mm.brkBase := Nat.not_lt.mpr heap
  refine ⟨?_, rfl⟩
  rw [layoutStep, sysBrk, if_neg set, if_neg above, Mapped.mm, setMm_mm]
  rfl

theorem layoutStep_brk_ignored {g : Mapped} {address : UInt64} (ignored : address = 0 ∨ address.toNat < g.mm.brkBase) :
    layoutStep g (.brk address) = g := by
  have call : (sysBrk g.tasks address).2 = g.tasks := by
    unfold sysBrk
    by_cases zero : address = 0
    · rw [if_pos zero]
    · have below : address.toNat < (taskCurrent g.tasks).mm.brkBase := ignored.resolve_left zero
      rw [if_neg zero, if_pos below]
  rw [layoutStep, call]

theorem LayoutInv.mmap {mm : AddressSpace} {regions : List (Nat × Nat)} (inv : LayoutInv mm regions) {length : UInt64}
    (granted : alignedLength length ≠ 0) (clear : mm.brkCurrent ≤ mm.nextMmapBase)
    (fits : mm.nextMmapBase + length.toNat ≤ userLimit) :
    LayoutInv
      { mm with nextMmapBase := (mm.nextMmapBase + (alignedLength length).toNat + 4096) % wordSize }
      ((mm.nextMmapBase, length.toNat) :: regions) := by
  obtain ⟨positive, covers, tight, whole⟩ := (alignedLength_cases length).resolve_left granted
  obtain ⟨separated, base, aligned, low, high, placed, origin⟩ := inv
  have limits := limits
  have next : (mm.nextMmapBase + (alignedLength length).toNat + 4096) % wordSize =
      mm.nextMmapBase + (alignedLength length).toNat + 4096 := by
    apply Nat.mod_eq_of_lt
    show _ < 2 ^ 64
    omega
  rw [next]
  refine ⟨⟨?_, ?_, ?_, ?_, separated.brk_below⟩, base, ?_, ?_, ?_, ?_, ?_⟩
  · exact List.forall_mem_cons.mpr ⟨aligned, separated.aligned⟩
  · refine List.pairwise_cons.mpr ⟨fun region member x both => ?_, separated.disjoint⟩
    have before := placed region member
    simp only [regionRange] at both
    omega
  · exact List.forall_mem_cons.mpr ⟨fits, separated.below⟩
  · refine List.forall_mem_cons.mpr ⟨fun x both => ?_, separated.heap⟩
    simp only [regionRange] at both
    omega
  · show (mm.nextMmapBase + (alignedLength length).toNat + 4096) % 4096 = 0
    omega
  · show mmapBase ≤ mm.nextMmapBase + (alignedLength length).toNat + 4096
    omega
  · -- The limit is a multiple of the page size, so rounding the length up does not pass it.
    show mm.nextMmapBase + (alignedLength length).toNat + 4096 ≤ userLimit + 4096
    omega
  · refine List.forall_mem_cons.mpr ⟨?_, fun region member => ?_⟩
    · show mmapBase ≤ mm.nextMmapBase ∧ 0 < length.toNat ∧
        mm.nextMmapBase + length.toNat < mm.nextMmapBase + (alignedLength length).toNat + 4096
      omega
    · show mmapBase ≤ region.1 ∧ 0 < region.2 ∧
        region.1 + region.2 < mm.nextMmapBase + (alignedLength length).toNat + 4096
      have before := placed region member
      omega
  · rcases origin with ⟨-, first⟩ | ⟨length, member⟩
    · exact Or.inr ⟨_, by rw [first]; exact List.mem_cons_self⟩
    · exact Or.inr ⟨length, List.mem_cons_of_mem _ member⟩

theorem LayoutInv.brk {mm : AddressSpace} {regions : List (Nat × Nat)} (inv : LayoutInv mm regions) {address : Nat}
    (fits : address ≤ userLimit) (clear : address ≤ mmapBase ∨ mm.nextMmapBase = mmapBase) :
    LayoutInv { mm with brkCurrent := address } regions := by
  refine { inv with separated := { inv.separated with heap := ?_, brk_below := fits } }
  intro region member x both
  have placed := inv.placed region member
  simp only [regionRange] at both
  omega

theorem LayoutInv.step {g : Mapped} (inv : LayoutInv g.mm g.regions) {op : LayoutOp} (kept : LayoutKept g.mm op) :
    LayoutInv (layoutStep g op).mm (layoutStep g op).regions := by
  cases op with
  | mmap length =>
      by_cases refused : alignedLength length = 0
      · obtain ⟨mm, regions⟩ := layoutStep_refused (g := g) refused
        rw [mm, regions]
        exact inv
      · obtain ⟨mm, regions⟩ := layoutStep_mmap inv refused
        obtain ⟨clear, fits⟩ := kept.resolve_left refused
        rw [mm, regions]
        exact inv.mmap refused clear fits
  | brk address =>
      by_cases ignored : address = 0 ∨ address.toNat < g.mm.brkBase
      · rw [layoutStep_brk_ignored ignored]
        exact inv
      · obtain ⟨set, heap⟩ := not_or.mp ignored
        obtain ⟨mm, regions⟩ := layoutStep_brk set (Nat.not_lt.mp heap)
        obtain ⟨fits, clear⟩ := (kept.resolve_left set).resolve_left heap
        rw [mm, regions]
        exact inv.brk fits clear

/-- The first call outside `LayoutKept` leaves a region beyond the limit, a region and the heap with a byte in
common, or the heap beyond the limit. -/
theorem LayoutInv.broken {g : Mapped} (inv : LayoutInv g.mm g.regions) {op : LayoutOp} (outside : ¬LayoutKept g.mm op) :
    ¬Separated (layoutStep g op).mm (layoutStep g op).regions := by
  intro separated
  have limits := limits
  have base := inv.base
  have low := inv.next_low
  cases op with
  | mmap length =>
      obtain ⟨granted, crossing⟩ := not_or.mp outside
      obtain ⟨positive, -⟩ := (alignedLength_cases length).resolve_left granted
      obtain ⟨mm, regions⟩ := layoutStep_mmap inv granted
      rw [mm, regions] at separated
      apply crossing
      constructor
      · have shared := separated.heap (g.mm.nextMmapBase, length.toNat) List.mem_cons_self g.mm.nextMmapBase
        simp only [regionRange] at shared
        omega
      · exact separated.below (g.mm.nextMmapBase, length.toNat) List.mem_cons_self
  | brk address =>
      obtain ⟨set, rest⟩ := not_or.mp outside
      obtain ⟨heap, crossing⟩ := not_or.mp rest
      obtain ⟨mm, regions⟩ := layoutStep_brk (g := g) set (Nat.not_lt.mp heap)
      rw [mm, regions] at separated
      apply crossing
      refine ⟨separated.brk_below, ?_⟩
      rcases inv.origin with ⟨-, first⟩ | ⟨length, member⟩
      · exact Or.inr first
      · left
        have placed := inv.placed _ member
        have shared := separated.heap _ member mmapBase
        simp only [regionRange] at shared placed
        omega

/-! ## Runs -/

theorem address_space_layout_iff (s : TaskTable) (fresh : (taskCurrent s).mm = vmmAddressSpaceInit)
    (ops : List LayoutOp) :
    (∀ before, before <+: ops → Separated (before.foldl layoutStep { tasks := s }).mm
      (before.foldl layoutStep { tasks := s }).regions) ↔
      Lib.Along (fun g op => some (layoutStep g op)) (fun g op => LayoutKept g.mm op) { tasks := s } ops := by
  have start : LayoutInv (Mapped.mm { tasks := s }) [] := by
    rw [Mapped.mm, fresh]
    exact LayoutInv.start
  have holds : ∀ g : Mapped, LayoutInv g.mm g.regions → Separated g.mm g.regions := fun _ inv => inv.separated
  exact Lib.foldl_prefixes_iff holds (fun _ _ inv _ kept => inv.step kept)
    (fun _ _ inv _ outside => inv.broken outside) (Lib.along_true _ ops) start

-- The heap grows, then a region of two pages is mapped above it.
theorem address_space_layout_iff_sample :
    (taskCurrent bootTasks).mm = vmmAddressSpaceInit ∧
    ∀ before, before <+: [LayoutOp.brk 0x900000, .mmap 5000] →
      Separated (before.foldl layoutStep { tasks := bootTasks }).mm
        (before.foldl layoutStep { tasks := bootTasks }).regions := by
  have fresh : (taskCurrent bootTasks).mm = vmmAddressSpaceInit := by decide +kernel
  refine ⟨fresh, (address_space_layout_iff bootTasks fresh _).mpr ?_⟩
  decide +kernel

theorem heap_crosses_mapping :
    ¬∀ ops : List LayoutOp, Separated (ops.foldl layoutStep { tasks := bootTasks }).mm
      (ops.foldl layoutStep { tasks := bootTasks }).regions := by
  intro always
  have separated := always [.mmap 4096, .brk 0x20001000]
  have regions : ([LayoutOp.mmap 4096, .brk 0x20001000].foldl layoutStep { tasks := bootTasks }).regions =
      [(0x20000000, 4096)] := by decide +kernel
  have heap : ([LayoutOp.mmap 4096, .brk 0x20001000].foldl layoutStep { tasks := bootTasks }).mm =
      { brkBase := 0x800000, brkCurrent := 0x20001000, nextMmapBase := 0x20002000 } := by decide +kernel
  rw [regions, heap] at separated
  exact separated.heap _ List.mem_cons_self 0x20000000 (by decide)

end Mgcore
