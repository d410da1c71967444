import Mathlib.Algebra.Order.Floor.Div
import Mathlib.Data.List.MinMax
import Mgcore.Task.Calls

/-!
# The suspected memory leaker

`task_find_likely_memory_leaker` of `src/kernel/task.c` takes the first live user task with the largest estimate. The
estimate adds two 64-bit lengths and rounds up to pages, so it is the footprint of the task less 2^52 pages once the sum
leaves the word. The task found is the largest one unless such a loss changes the order.
-/

namespace Mgcore

def mmapBaseStart : Nat := 0x20000000

def taskEstimatedPages (entry : Task) : Nat :=
  let brkBytes := if entry.mm.brkBase < entry.mm.brkCurrent then entry.mm.brkCurrent - entry.mm.brkBase else 0
  let mmapBytes := if mmapBaseStart < entry.mm.nextMmapBase then entry.mm.nextMmapBase - mmapBaseStart else 0
  (brkBytes + mmapBytes + pageSize.toNat - 1) % wordSize / pageSize.toNat

/-- One round of the loop; `worst` holds `worst_pages` and `worst_pid`. -/
def leakerStep (s : TaskTable) (worst : Nat × Int) (i : Fin maxTasks) : Nat × Int :=
  if (s.tasks i).state = .unused ∨ (s.tasks i).state = .zombie then worst
  else if (s.tasks i).ppid = 0 then worst
  else
    let pages := taskEstimatedPages (s.tasks i)
    if worst.1 < pages then (pages, (s.tasks i).pid) else worst

def taskFindLikelyMemoryLeaker (s : TaskTable) : Int := ((List.finRange maxTasks).foldl (leakerStep s) (0, 0)).2

/-! ## Footprints -/

structure LiveUser (s : TaskTable) (i : Fin maxTasks) : Prop where
  used : (s.tasks i).state ≠ .unused
  alive : (s.tasks i).state ≠ .zombie
  user : (s.tasks i).ppid ≠ 0

instance (s : TaskTable) (i : Fin maxTasks) : Decidable (LiveUser s i) :=
  decidable_of_iff ((s.tasks i).state ≠ .unused ∧ (s.tasks i).state ≠ .zombie ∧ (s.tasks i).ppid ≠ 0)
    ⟨fun h => ⟨h.1, h.2.1, h.2.2⟩, fun h => ⟨h.used, h.alive, h.user⟩⟩

def footprint (t : Task) : Nat :=
  (t.mm.brkCurrent - t.mm.brkBase + (t.mm.nextMmapBase - mmapBaseStart)) ⌈/⌉ 4096

theorem taskEstimatedPages_eq {t : Task} (brk : t.mm.brkCurrent < wordSize) (next : t.mm.nextMmapBase < wordSize) :
    taskEstimatedPages t = if footprint t < 2 ^ 52 then footprint t else footprint t - 2 ^ 52 := by
  have page : pageSize.toNat = 4096 := rfl
  have brkBytes : (if t.mm.brkBase < t.mm.brkCurrent then t.mm.brkCurrent - t.mm.brkBase else 0) =
      t.mm.brkCurrent - t.mm.brkBase := by
    split_ifs <;> omega
  have mmapBytes : (if mmapBaseStart < t.mm.nextMmapBase then t.mm.nextMmapBase - mmapBaseStart else 0) =
      t.mm.nextMmapBase - mmapBaseStart := by
    split_ifs <;> omega
  have sum : t.mm.brkCurrent - t.mm.brkBase + (t.mm.nextMmapBase - mmapBaseStart) + 4095 < 2 ^ 65 := by
    unfold wordSize at brk next
    unfold mmapBaseStart
    omega
  unfold taskEstimatedPages footprint
  dsimp only
  rw [brkBytes, mmapBytes, page, Nat.ceilDiv_eq_add_pred_div]
  generalize t.mm.brkCurrent - t.mm.brkBase + (t.mm.nextMmapBase - mmapBaseStart) = bytes at sum ⊢
  unfold wordSize
  split_ifs with fits
  · omega
  · omega

/-! ## The loop -/

def estimate (s : TaskTable) (i : Fin maxTasks) : Nat := if LiveUser s i then taskEstimatedPages (s.tasks i) else 0

theorem leakerStep_eq (s : TaskTable) (worst : Nat × Int) (i : Fin maxTasks) :
    leakerStep s worst i = if worst.1 < estimate s i then (estimate s i, (s.tasks i).pid) else worst := by
  have skipped (dead : ¬LiveUser s i) : worst = if worst.1 < estimate s i then (estimate s i, (s.tasks i).pid) else worst := by
    rw [estimate, if_neg dead, if_neg (Nat.not_lt_zero _)]
  rw [leakerStep]
  by_cases gone : (s.tasks i).state = .unused ∨ (s.tasks i).state = .zombie
  · rw [if_pos gone]
    exact skipped fun live => gone.elim live.used live.alive
  · rw [if_neg gone]
    by_cases kernel : (s.tasks i).ppid = 0
    · rw [if_pos kernel]
      exact skipped fun live => live.user kernel
    · obtain ⟨used, alive⟩ := not_or.mp gone
      have live : LiveUser s i := ⟨used, alive, kernel⟩
      rw [if_neg kernel, estimate, if_pos live]

def recorded (s : TaskTable) (m : Fin maxTasks) : Nat × Int :=
  if 0 < estimate s m then (estimate s m, (s.tasks m).pid) else (0, 0)

theorem recorded_pages (s : TaskTable) (m : Fin maxTasks) : (recorded s m).1 = estimate s m := by
  unfold recorded
  split_ifs with positive
  · rfl
  · exact (Nat.eq_zero_of_not_pos positive).symm

/-- After a part of the table the loop holds the first task with the largest estimate, if that is positive. -/
theorem leakerLoop_eq (s : TaskTable) (slots : List (Fin maxTasks)) :
    slots.foldl (leakerStep s) (0, 0) = (slots.argmax (estimate s)).elim (0, 0) (recorded s) := by
  induction slots using List.reverseRecOn with
  | nil => rfl
  | append_singleton slots i ih =>
      rw [List.foldl_append, List.foldl_cons, List.foldl_nil, ih, leakerStep_eq, List.argmax_concat]
      cases slots.argmax (estimate s) with
      | none => rfl
      | some m =>
          simp only [Option.elim_some, recorded_pages]
          split_ifs with larger
          · have positive : 0 < estimate s i := Nat.zero_lt_of_lt larger
            rw [Option.elim_some, recorded, if_pos positive]
          · rfl

/-- The task that the loop finds: the first one with the largest estimate. -/
theorem leaker_spec (s : TaskTable) : ∃ m, (∀ j, estimate s j ≤ estimate s m) ∧
    (∀ j, estimate s m ≤ estimate s j → m ≤ j) ∧
    taskFindLikelyMemoryLeaker s = if 0 < estimate s m then (s.tasks m).pid else 0 := by
  cases found : (List.finRange maxTasks).argmax (estimate s) with
  | none =>
      have empty := List.argmax_eq_none.mp found
      cases empty
  | some m =>
      refine ⟨m, fun j => List.le_of_mem_argmax (List.mem_finRange j) found, fun j ties => ?_, ?_⟩
      · have first := List.index_of_argmax found (List.mem_finRange j) ties
        rw [List.idxOf_finRange, List.idxOf_finRange] at first
        exact first
      · rw [taskFindLikelyMemoryLeaker, leakerLoop_eq, found, Option.elim_some, recorded]
        split_ifs <;> rfl

theorem liveUser_of_estimate {s : TaskTable} {i : Fin maxTasks} (positive : 0 < estimate s i) : LiveUser s i := by
  by_contra dead
  rw [estimate, if_neg dead] at positive
  exact lt_irrefl 0 positive

theorem TableInv.estimate_eq {s : TaskTable} (inv : TableInv s) {i : Fin maxTasks} (live : LiveUser s i) :
    estimate s i = if footprint (s.tasks i) < 2 ^ 52 then footprint (s.tasks i) else footprint (s.tasks i) - 2 ^ 52 := by
  rw [estimate, if_pos live, taskEstimatedPages_eq (inv.spaces i).1 (inv.spaces i).2]

/-! ## The largest task -/

structure SuspectsLargest (s : TaskTable) : Prop where
  zero : taskFindLikelyMemoryLeaker s = 0 ↔ ∀ i, LiveUser s i → footprint (s.tasks i) = 0
  largest : (∃ i, LiveUser s i ∧ 0 < footprint (s.tasks i)) → ∃ i, LiveUser s i ∧ 0 < footprint (s.tasks i) ∧
    (s.tasks i).pid = taskFindLikelyMemoryLeaker s ∧ ∀ j, LiveUser s j → footprint (s.tasks j) ≤ footprint (s.tasks i)

/-- No footprint leaves the word, or the largest one stays in front of those that do not when 2^52 pages are taken from
it. -/
def OrderKept (s : TaskTable) : Prop :=
  (∀ i, LiveUser s i → footprint (s.tasks i) < 2 ^ 52) ∨
  ∃ i, LiveUser s i ∧ 2 ^ 52 < footprint (s.tasks i) ∧
    (∀ j, LiveUser s j → footprint (s.tasks j) ≤ footprint (s.tasks i)) ∧
    ∀ j, LiveUser s j → footprint (s.tasks j) < 2 ^ 52 →
      footprint (s.tasks j) + 2 ^ 52 < footprint (s.tasks i) ∨
        footprint (s.tasks j) + 2 ^ 52 = footprint (s.tasks i) ∧ i < j

theorem OrderKept.largest {s : TaskTable} (inv : TableInv s) (kept : OrderKept s)
    (some : ∃ i, LiveUser s i ∧ 0 < footprint (s.tasks i)) {m : Fin maxTasks}
    (most : ∀ j, estimate s j ≤ estimate s m) (first : ∀ j, estimate s m ≤ estimate s j → m ≤ j) :
    0 < estimate s m ∧ ∀ j, LiveUser s j → footprint (s.tasks j) ≤ footprint (s.tasks m) := by
  rcases kept with small | ⟨i, live, large, largest, ahead⟩
  · have exact {j : Fin maxTasks} (live : LiveUser s j) : estimate s j = footprint (s.tasks j) := by
      rw [inv.estimate_eq live, if_pos (small j live)]
    obtain ⟨i, live, positive⟩ := some
    have above := most i
    rw [exact live] at above
    have positiveM : 0 < estimate s m := Nat.lt_of_lt_of_le positive above
    refine ⟨positiveM, fun j liveJ => ?_⟩
    rw [← exact liveJ, ← exact (liveUser_of_estimate positiveM)]
    exact most j
  · have rank : estimate s i = footprint (s.tasks i) - 2 ^ 52 := by
      rw [inv.estimate_eq live, if_neg (Nat.not_lt.mpr (Nat.le_of_lt large))]
    have above := most i
    have positiveM : 0 < estimate s m := by omega
    have liveM := liveUser_of_estimate positiveM
    refine ⟨positiveM, fun j liveJ => Nat.le_trans (largest j liveJ) ?_⟩
    have value := inv.estimate_eq liveM
    split_ifs at value with small
    · -- a task that is smaller by 2^52 pages would have been found in front of the largest one
      rcases ahead m liveM small with less | ⟨same, before⟩
      · omega
      · have least : m ≤ i := first i (by omega)
        exact absurd before (not_lt.mpr least)
    · omega

theorem SuspectsLargest.orderKept {s : TaskTable} (suspects : SuspectsLargest s) (inv : TableInv s) : OrderKept s := by
  obtain ⟨m, most, first, value⟩ := leaker_spec s
  by_cases small : ∀ i, LiveUser s i → footprint (s.tasks i) < 2 ^ 52
  · exact Or.inl small
  obtain ⟨j, liveJ, large⟩ : ∃ j, LiveUser s j ∧ 2 ^ 52 ≤ footprint (s.tasks j) := by
    simpa using small
  obtain ⟨c, live, -, pid, largest⟩ := suspects.largest ⟨j, liveJ, Nat.lt_of_lt_of_le (by decide) large⟩
  have beyond := Nat.le_trans large (largest j liveJ)
  have found : 0 < estimate s m ∧ c = m := by
    have positive := inv.pids c live.used
    rw [pid, value] at positive
    have nonzero : 0 < estimate s m := by
      by_contra zero
      rw [if_neg zero] at positive
      exact lt_irrefl 0 positive
    refine ⟨nonzero, inv.tasks.pid_inj c m live.used (liveUser_of_estimate nonzero).used ?_⟩
    rw [pid, value, if_pos nonzero]
  obtain ⟨nonzero, rfl⟩ := found
  have rank := inv.estimate_eq live
  rw [if_neg (Nat.not_lt.mpr beyond)] at rank
  refine Or.inr ⟨c, live, by omega, largest, fun k liveK below => ?_⟩
  have other := inv.estimate_eq liveK
  rw [if_pos below] at other
  have less := most k
  rcases Nat.lt_or_ge (footprint (s.tasks k) + 2 ^ 52) (footprint (s.tasks c)) with apart | close
  · exact Or.inl apart
  · have before : c ≤ k := first k (by omega)
    have different : c ≠ k := by
      rintro rfl
      omega
    exact Or.inr ⟨by omega, lt_of_le_of_ne before different⟩

theorem OrderKept.suspectsLargest {s : TaskTable} (kept : OrderKept s) (inv : TableInv s) : SuspectsLargest s := by
  obtain ⟨m, most, first, value⟩ := leaker_spec s
  have chosen := fun some => kept.largest inv some most first
  constructor
  · constructor
    · intro zero i live
      by_contra filled
      obtain ⟨nonzero, -⟩ := chosen ⟨i, live, Nat.pos_of_ne_zero filled⟩
      rw [value, if_pos nonzero] at zero
      have positive := inv.pids m (liveUser_of_estimate nonzero).used
      omega
    · intro empty
      rw [value, if_neg]
      intro nonzero
      have live := liveUser_of_estimate nonzero
      rw [inv.estimate_eq live, empty m live] at nonzero
      simp at nonzero
  · intro some
    obtain ⟨nonzero, largest⟩ := chosen some
    obtain ⟨i, live, filled⟩ := some
    exact ⟨m, liveUser_of_estimate nonzero, Nat.lt_of_lt_of_le filled (largest i live), by rw [value, if_pos nonzero], largest⟩

theorem leak_suspect_largest_iff (calls : List TaskCall) :
    let s := calls.foldl taskCallStep bootTasks
    SuspectsLargest s ↔ OrderKept s := by
  intro s
  have inv : TableInv s := TableInv.run calls
  constructor
  · intro suspects
    exact suspects.orderKept inv
  · intro kept
    exact kept.suspectsLargest inv

-- The first child moves its break by 2^63 bytes and maps 2^63 bytes with the guard page.
def wrappedFootprint : List TaskCall :=
  [.task (.spawnUser (ascii "child")), .task (.tick 1), .brk 0x8000000000800000, .mmap 0x7FFFFFFFFFFFF000]

theorem largest_task_not_suspected : ¬SuspectsLargest (wrappedFootprint.foldl taskCallStep bootTasks) := by
  intro suspects
  have none : taskFindLikelyMemoryLeaker (wrappedFootprint.foldl taskCallStep bootTasks) = 0 := by decide +kernel
  have live : LiveUser (wrappedFootprint.foldl taskCallStep bootTasks) 1 := by decide +kernel
  have filled : footprint ((wrappedFootprint.foldl taskCallStep bootTasks).tasks 1) = 2 ^ 52 := by decide +kernel
  have empty := suspects.zero.mp none 1 live
  rw [filled] at empty
  cases empty

end Mgcore
