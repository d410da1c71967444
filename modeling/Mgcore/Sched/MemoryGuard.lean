import Mathlib.Data.List.DropRight
import Mgcore.Lib.Run
import Mgcore.Pmm.Model
import Mgcore.Sched.Model

/-!
# The memory guard

Once a second `memory_guard_tick` takes a sample. Its streak never exceeds the number of critical samples at the end of
the history (it may fall to 0 when its word wraps), and its previous value is the last sample, so an alarm has five
critical samples, falling memory and a suspect behind it.
-/

namespace Mgcore

structure Sample where
  free : UInt64
  tasks : TaskTable

def guardStep (total : UInt64) (g : MemoryGuard) (x : Sample) : MemoryGuard :=
  (memoryGuardTick g x.tasks total x.free).2

def guardAfter (total boot : UInt64) (samples : List Sample) : MemoryGuard :=
  samples.foldl (guardStep total) (memguardInit boot)

def Critical (total : UInt64) (x : Sample) : Prop := x.free.toNat * 100 ≤ total.toNat * 5 ∨ x.free.toNat ≤ 128

instance (total : UInt64) (x : Sample) : Decidable (Critical total x) := inferInstanceAs (Decidable (_ ∨ _))

/-- The number of free pages at the last sample, or at boot. -/
def lastFree (boot : UInt64) (samples : List Sample) : UInt64 := (samples.getLast?.map Sample.free).getD boot

/-- What stands behind an alarm at the sample `x`. -/
structure Alarm (total boot : UInt64) (before : List Sample) (x : Sample) : Prop where
  fifth : 4 ≤ before.length
  critical : ∀ y ∈ (before ++ [x]).rtake 5, Critical total y
  falling : x.free < lastFree boot before ∨ x.free.toNat + 256 < boot.toNat
  suspect : 0 < taskFindLikelyMemoryLeaker x.tasks
  recovered : ∀ j y, (before ++ [x])[j]? = some y → ¬Critical total y → j + 5 ≤ before.length

/-! ## One sample -/

theorem plenty_iff {total : UInt64} {x : Sample} (totalFits : total.toNat ≤ pmmMaxPages) (freeFits : x.free.toNat ≤ pmmMaxPages) :
    (x.free * 100 > total * 5 ∧ x.free > 128) ↔ ¬Critical total x := by
  have pages : pmmMaxPages = 2 ^ 20 := rfl
  have scaled : (x.free * 100).toNat = x.free.toNat * 100 := by
    rw [UInt64.toNat_mul, show (100 : UInt64).toNat = 100 from rfl]
    omega
  have share : (total * 5).toNat = total.toNat * 5 := by
    rw [UInt64.toNat_mul, show (5 : UInt64).toNat = 5 from rfl]
    omega
  unfold Critical
  rw [gt_iff_lt, gt_iff_lt, UInt64.lt_iff_toNat_lt, UInt64.lt_iff_toNat_lt, scaled, share, show (128 : UInt64).toNat = 128 from rfl]
  omega

section Sampled

variable {total : UInt64} {x : Sample} (some_pages : total ≠ 0) (totalFits : total.toNat ≤ pmmMaxPages)
  (freeFits : x.free.toNat ≤ pmmMaxPages)
include some_pages totalFits freeFits

theorem guardStep_eq (g : MemoryGuard) : guardStep total g x =
    { g with criticalStreak := if Critical total x then g.criticalStreak + 1 else 0, prevFreePages := x.free } := by
  unfold guardStep memoryGuardTick
  rw [if_neg some_pages]
  by_cases critical : Critical total x
  · rw [if_neg (fun plenty => (plenty_iff totalFits freeFits).mp plenty critical), if_pos critical]
    dsimp only
    split_ifs <;> rfl
  · rw [if_pos ((plenty_iff totalFits freeFits).mpr critical), if_neg critical]

theorem memoryGuardTick_safeboot {g : MemoryGuard} {suspect : Int}
    (fires : (memoryGuardTick g x.tasks total x.free).1 = .safeboot suspect) :
    Critical total x ∧ (g.bootFreePages > x.free + minDropPages ∨ g.prevFreePages > x.free) ∧
      minStreak ≤ g.criticalStreak + 1 ∧ suspect = taskFindLikelyMemoryLeaker x.tasks ∧ 0 < suspect := by
  unfold memoryGuardTick at fires
  rw [if_neg some_pages] at fires
  split_ifs at fires with plenty
  have critical : Critical total x := by
    by_contra calm
    exact plenty ((plenty_iff totalFits freeFits).mpr calm)
  dsimp only at fires
  split_ifs at fires with idle observed found
  · cases fires
    obtain ⟨leaking, long⟩ := not_or.mp idle
    exact ⟨critical, not_not.mp leaking, UInt32.not_lt.mp long, rfl, found⟩

end Sampled

/-! ## Histories -/

theorem rtake_subset {samples : List Sample} {m n : Nat} (le : m ≤ n) : samples.rtake m ⊆ samples.rtake n := by
  unfold List.rtake
  exact List.drop_subset_drop_left samples (Nat.sub_le_sub_left le _)

structure GuardInv (total boot : UInt64) (samples : List Sample) (g : MemoryGuard) : Prop where
  start : g.bootFreePages = boot
  previous : g.prevFreePages = lastFree boot samples
  length : g.criticalStreak.toNat ≤ samples.length
  critical : ∀ y ∈ samples.rtake g.criticalStreak.toNat, Critical total y

theorem GuardInv.init (total boot : UInt64) : GuardInv total boot [] (memguardInit boot) :=
  ⟨rfl, rfl, Nat.le_refl 0, fun _ mem => absurd mem (by simp)⟩

theorem GuardInv.step {total boot : UInt64} {samples : List Sample} {g : MemoryGuard} (inv : GuardInv total boot samples g)
    {x : Sample} (some_pages : total ≠ 0) (totalFits : total.toNat ≤ pmmMaxPages) (freeFits : x.free.toNat ≤ pmmMaxPages) :
    GuardInv total boot (samples ++ [x]) (guardStep total g x) := by
  have last : x.free = lastFree boot (samples ++ [x]) := by
    unfold lastFree
    rw [List.getLast?_concat]
    rfl
  rw [guardStep_eq some_pages totalFits freeFits]
  have reset {streak : UInt32} (zero : streak.toNat = 0) : GuardInv total boot (samples ++ [x])
      { g with criticalStreak := streak, prevFreePages := x.free } := by
    constructor
    · exact inv.start
    · exact last
    · rw [zero]
      exact Nat.zero_le _
    · intro y mem
      rw [zero, List.rtake_zero] at mem
      cases mem
  by_cases critical : Critical total x
  · rw [if_pos critical]
    -- the counter is a 32-bit word: it counts on, or wraps to 0
    have next : (g.criticalStreak + 1).toNat = g.criticalStreak.toNat + 1 ∨ (g.criticalStreak + 1).toNat = 0 := by
      have small := g.criticalStreak.toNat_lt
      rw [UInt32.toNat_add, UInt32.toNat_one]
      omega
    rcases next with counted | wrapped
    · constructor
      · exact inv.start
      · exact last
      · rw [counted, List.length_append, List.length_singleton]
        exact Nat.succ_le_succ inv.length
      · intro y mem
        rw [counted, List.rtake_concat_succ, List.mem_append, List.mem_singleton] at mem
        rcases mem with earlier | rfl
        · exact inv.critical y earlier
        · exact critical
    · exact reset wrapped
  · rw [if_neg critical]
    exact reset rfl

theorem guardAfter_inv {total : UInt64} (boot : UInt64) (some_pages : total ≠ 0) (totalFits : total.toNat ≤ pmmMaxPages)
    (samples : List Sample) (freeFits : ∀ x ∈ samples, x.free.toNat ≤ pmmMaxPages) :
    GuardInv total boot samples (guardAfter total boot samples) := by
  induction samples using List.reverseRecOn with
  | nil => exact GuardInv.init total boot
  | append_singleton samples x ih =>
      have earlier := ih fun y mem => freeFits y (List.mem_append_left _ mem)
      have latest := freeFits x (List.mem_append_right _ (List.mem_singleton_self x))
      unfold guardAfter
      rw [List.foldl_append]
      exact earlier.step some_pages totalFits latest

theorem GuardInv.alarm {total boot : UInt64} {before : List Sample} {g : MemoryGuard} (inv : GuardInv total boot before g)
    {x : Sample} (some_pages : total ≠ 0) (totalFits : total.toNat ≤ pmmMaxPages) (freeFits : x.free.toNat ≤ pmmMaxPages)
    {suspect : Int} (fires : (memoryGuardTick g x.tasks total x.free).1 = .safeboot suspect) :
    Alarm total boot before x := by
  obtain ⟨critical, leaking, long, rfl, found⟩ := memoryGuardTick_safeboot some_pages totalFits freeFits fires
  have four : 4 ≤ g.criticalStreak.toNat := by
    rw [UInt32.le_iff_toNat_le, UInt32.toNat_add, UInt32.toNat_one, show minStreak.toNat = 5 from rfl] at long
    omega
  have critical : ∀ y ∈ (before ++ [x]).rtake 5, Critical total y := by
    intro y mem
    rw [List.rtake_concat_succ, List.mem_append, List.mem_singleton] at mem
    rcases mem with earlier | rfl
    · exact inv.critical y (rtake_subset four earlier)
    · exact critical
  constructor
  · exact four.trans inv.length
  · exact critical
  · rw [inv.start, inv.previous] at leaking
    rcases leaking with dropped | fell
    · right
      have pages : pmmMaxPages = 2 ^ 20 := rfl
      rw [gt_iff_lt, UInt64.lt_iff_toNat_lt, UInt64.toNat_add, show minDropPages.toNat = 256 from rfl] at dropped
      omega
    · exact Or.inl fell
  · exact found
  · intro j y place calm
    by_contra recent
    apply calm
    apply critical
    obtain ⟨inside, -⟩ := List.getElem?_eq_some_iff.mp place
    rw [List.length_append, List.length_singleton] at inside
    rw [List.rtake, List.mem_iff_getElem?]
    refine ⟨j - (before.length - 4), ?_⟩
    rw [List.getElem?_drop, List.length_append, List.length_singleton, ← place]
    congr 1
    omega

/-- An alarm comes only after five critical samples in a row, with falling memory and a suspect. -/
theorem memory_guard_no_false_alarm (total boot : UInt64) (some_pages : 0 < total.toNat)
    (totalFits : total.toNat ≤ pmmMaxPages) (before : List Sample) (x : Sample)
    (freeFits : ∀ y ∈ before ++ [x], y.free.toNat ≤ pmmMaxPages) (suspect : Int)
    (fires : (memoryGuardTick (guardAfter total boot before) x.tasks total x.free).1 = .safeboot suspect) :
    Alarm total boot before x := by
  have nonzero : total ≠ 0 := by
    rintro rfl
    exact absurd some_pages (by decide)
  have latest := freeFits x (List.mem_append_right _ (List.mem_singleton_self x))
  have inv := guardAfter_inv boot nonzero totalFits before fun y mem => freeFits y (List.mem_append_left _ mem)
  exact inv.alarm nonzero totalFits latest fires

-- A child takes 16 MiB, and the free memory falls from 50 to 46 of 1000 pages.
def leakingTasks : TaskTable :=
  [.task (.spawnUser (ascii "child")), .task (.tick 1), .brk 0x1800000].foldl taskCallStep bootTasks

theorem memory_guard_no_false_alarm_sample :
    (memoryGuardTick (guardAfter 1000 1000 ([50, 49, 48, 47].map (⟨·, leakingTasks⟩))) leakingTasks 1000 46).1 = .safeboot 2 ∧
      Alarm 1000 1000 ([50, 49, 48, 47].map (⟨·, leakingTasks⟩)) ⟨46, leakingTasks⟩ := by
  have fires : (memoryGuardTick (guardAfter 1000 1000 ([50, 49, 48, 47].map (⟨·, leakingTasks⟩))) leakingTasks 1000 46).1 =
      .safeboot 2 := by decide +kernel
  refine ⟨fires, memory_guard_no_false_alarm 1000 1000 (by decide) (by decide) _ ⟨46, leakingTasks⟩ ?_ 2 fires⟩
  simp [pmmMaxPages]

/-! ## The guard in a run -/

/-- The sample that a step takes; `scheduler_tick` has woken the sleepers and switched tasks before it. -/
def sampleOf (s : Sched) : SchedOp → Option Sample
  | .tick _ free =>
      if (s.uptimeTicks + 1) % hz = 0 then some ⟨free, taskSchedulerTick s.tasks (s.uptimeTicks + 1)⟩ else none
  | _ => none

def samplesOf (s : Sched) : List SchedOp → List Sample
  | [] => []
  | op :: ops => (sampleOf s op).toList ++ ((schedStep s op).map (samplesOf · ops)).getD []

def SchedOp.Reports (total : UInt64) : SchedOp → Prop
  | .tick total' free => total' = total ∧ free.toNat ≤ pmmMaxPages
  | _ => True

theorem schedStep_guard {total : UInt64} {s t : Sched} {op : SchedOp} (reports : op.Reports total)
    (returns : schedStep s op = some t) : t.guard = (sampleOf s op).toList.foldl (guardStep total) s.guard := by
  cases op with
  | nanosleep request =>
      cases returns
      rfl
  | call c untimed =>
      cases returns
      rfl
  | tick total' free =>
      obtain ⟨rfl, -⟩ := reports
      rw [schedStep, schedulerTick] at returns
      rw [sampleOf]
      dsimp only at returns
      split_ifs at returns ⊢ with second
      · split at returns
        · cases returns
        · next answer =>
            cases returns
            exact (congrArg Prod.snd answer).symm
      · cases returns
        rfl

theorem run_guard {total : UInt64} {s t : Sched} {ops : List SchedOp} (reports : ∀ op ∈ ops, op.Reports total)
    (reaches : Lib.run schedStep s ops = some t) : t.guard = (samplesOf s ops).foldl (guardStep total) s.guard := by
  induction ops generalizing s with
  | nil =>
      cases reaches
      rfl
  | cons op ops ih =>
      rw [Lib.run_cons, Option.bind_eq_some_iff] at reaches
      obtain ⟨u, returns, rest⟩ := reaches
      have here := schedStep_guard (reports op List.mem_cons_self) returns
      have later := ih (fun o mem => reports o (List.mem_cons_of_mem _ mem)) rest
      rw [samplesOf, returns, Option.map_some, Option.getD_some, List.foldl_append, ← here]
      exact later

theorem samplesOf_fits {total : UInt64} {s : Sched} {ops : List SchedOp} (reports : ∀ op ∈ ops, op.Reports total) :
    ∀ x ∈ samplesOf s ops, x.free.toNat ≤ pmmMaxPages := by
  induction ops generalizing s with
  | nil =>
      intro x mem
      cases mem
  | cons op ops ih =>
      intro x mem
      rw [samplesOf, List.mem_append] at mem
      rcases mem with here | later
      · have bound := reports op List.mem_cons_self
        cases op with
        | tick total' free =>
            rw [sampleOf, Option.mem_toList] at here
            split_ifs at here
            cases here
            exact bound.2
        | nanosleep request => cases here
        | call c untimed => cases here
      · cases next : schedStep s op with
        | none =>
            rw [next] at later
            cases later
        | some t =>
            rw [next] at later
            exact ih (fun o mem => reports o (List.mem_cons_of_mem _ mem)) x later

/-- After `scheduler_init`, a tick stops the machine only at a whole second and with an alarm behind it. -/
theorem schedulerTick_stops {total boot : UInt64} (some_pages : total ≠ 0) (totalFits : total.toNat ≤ pmmMaxPages)
    {s t : Sched} {ops : List SchedOp} (reports : ∀ op ∈ ops, op.Reports total)
    (reaches : Lib.run schedStep (schedulerInit s boot) ops = some t) {free : UInt64} (freeFits : free.toNat ≤ pmmMaxPages)
    {stopped : Stopped} (stops : schedulerTick t total free = .error stopped) :
    ∃ x, sampleOf t (.tick total free) = some x ∧ Alarm total boot (samplesOf (schedulerInit s boot) ops) x := by
  have guard : t.guard = guardAfter total boot (samplesOf (schedulerInit s boot) ops) := run_guard reports reaches
  have inv := guardAfter_inv boot some_pages totalFits (samplesOf (schedulerInit s boot) ops) (samplesOf_fits reports)
  rw [← guard] at inv
  unfold schedulerTick at stops
  dsimp only at stops
  split_ifs at stops with second
  split at stops
  · next suspect g fires =>
      exact ⟨_, if_pos second, inv.alarm some_pages totalFits freeFits (congrArg Prod.fst fires)⟩
  · cases stops

end Mgcore
