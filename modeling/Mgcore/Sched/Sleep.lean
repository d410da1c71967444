import Mgcore.Lib.Run
import Mgcore.Sched.Model

/-!
# Sleeping

`sys_nanosleep` turns the request into ticks and puts the sleeper's slot to sleep until the clock reaches a tick. The
part of a tick is cut off, and the sum with the clock wraps, so the sleep is long enough exactly when neither matters:
the request is a whole number of ticks that the clock can still count, or is no longer than one tick.
-/

namespace Mgcore
open Function

/-! ## A sleeping slot -/

theorem demoteCurrent_idle {s : TaskTable} {i : Fin maxTasks} (idle : (s.tasks i).state ≠ .running) :
    (demoteCurrent s).tasks i = s.tasks i := by
  unfold demoteCurrent
  split_ifs with running
  · have other : i ≠ s.currentIndex := fun same => idle (same ▸ running)
    rw [TaskTable.setTask_tasks, update_of_ne other]
  · rfl

/-- A tick leaves a slot alone that is neither running nor runnable nor due. -/
theorem tick_resting {s : TaskTable} {now : UInt64} {i : Fin maxTasks} (idle : (s.tasks i).state ≠ .running)
    (blocked : (s.tasks i).state ≠ .runnable) (early : (s.tasks i).state = .sleeping → now < (s.tasks i).wakeupTick) :
    (taskSchedulerTick s now).tasks i = s.tasks i := by
  have kept : (awake s now).tasks i = s.tasks i := by
    rw [awake_tasks, demoteCurrent_idle idle, wakeTask, if_neg]
    rintro ⟨sleeping, due⟩
    exact absurd (early sleeping) (UInt64.not_lt.mpr due)
  rw [taskSchedulerTick, dispatch_tasks, if_neg, kept]
  rintro ⟨same, runnable⟩
  rw [← same, kept] at runnable
  exact blocked runnable

theorem tick_due {s : TaskTable} {now : UInt64} {i : Fin maxTasks} (sleeping : (s.tasks i).state = .sleeping)
    (due : (s.tasks i).wakeupTick ≤ now) :
    ((taskSchedulerTick s now).tasks i).state = .runnable ∨ ((taskSchedulerTick s now).tasks i).state = .running := by
  have woken : ((awake s now).tasks i).state = .runnable := by
    rw [awake_tasks, demoteCurrent_idle (by simp [sleeping]), wakeTask, if_pos ⟨sleeping, due⟩]
  rw [taskSchedulerTick, dispatch_tasks]
  split_ifs
  · exact Or.inr rfl
  · exact Or.inl woken

/-- The slot still sleeps for `wakeup`, or its task has been terminated. -/
def Asleep (wakeup : UInt64) (t : Task) : Prop := t.state = .zombie ∨ (t.state = .sleeping ∧ t.wakeupTick = wakeup)

theorem Asleep.not_awake {wakeup : UInt64} {t : Task} (asleep : Asleep wakeup t) :
    t.state ≠ .runnable ∧ t.state ≠ .running ∧ t.state ≠ .unused := by
  rcases asleep with zombie | ⟨sleeping, -⟩
  · simp [zombie]
  · simp [sleeping]

/-! ## The system -/

def SchedOp.ticks : SchedOp → Nat
  | .tick _ _ => 1
  | _ => 0

def elapsed (ops : List SchedOp) : Nat := (ops.map SchedOp.ticks).sum

/-- The task in slot `i` does not call `sys_nanosleep` again. -/
def NoNewSleep (i : Fin maxTasks) (s : Sched) : SchedOp → Prop
  | .nanosleep _ => s.tasks.currentIndex ≠ i
  | _ => True

theorem schedulerTick_tasks {s t : Sched} {total free : UInt64} (returns : (schedulerTick s total free).toOption = some t) :
    t.tasks = taskSchedulerTick s.tasks (s.uptimeTicks + 1) ∧ t.uptimeTicks = s.uptimeTicks + 1 := by
  unfold schedulerTick at returns
  dsimp only at returns
  split_ifs at returns
  · split at returns
    · cases returns
    · cases returns
      exact ⟨rfl, rfl⟩
  · cases returns
    exact ⟨rfl, rfl⟩

theorem Asleep.untimed {s : TaskTable} {wakeup : UInt64} {i : Fin maxTasks} (asleep : Asleep wakeup (s.tasks i))
    {c : TaskCall} (untimed : Untimed c) : Asleep wakeup ((taskCallStep s c).tasks i) := by
  have other {t : TaskTable} (same : t.tasks i = s.tasks i) : Asleep wakeup (t.tasks i) := by
    rw [same]
    exact asleep
  have terminated (j : Fin maxTasks) (code : Int) :
      Asleep wakeup ((s.setTask j { s.tasks j with state := .zombie, exitCode := code }).tasks i) := by
    by_cases here : i = j
    · subst here
      rw [TaskTable.setTask_tasks, update_self]
      exact Or.inl rfl
    · exact other (by rw [TaskTable.setTask_tasks, update_of_ne here])
  have mapped (mm : AddressSpace) : Asleep wakeup ((setMm s mm).tasks i) := by
    obtain ⟨mm', same⟩ := setMm_kept s mm i
    rw [same]
    exact asleep
  cases c with
  | brk address =>
      rw [taskCallStep]
      rcases sysBrk_cases s address with same | moved
      · rw [same]
        exact asleep
      · rw [moved]
        exact mapped _
  | mmap length =>
      rw [taskCallStep]
      obtain ⟨next, -, moved⟩ := sysMmap_cases s length
      rw [moved]
      exact mapped _
  | task op =>
      cases op with
      | createKernel name =>
          rcases taskCreateKernel_cases s name with ⟨same, -⟩ | ⟨j, -, new⟩
          · exact other (by rw [taskCallStep, taskStep, same])
          · exact other (new.other asleep.not_awake.2.2)
      | spawnUser name =>
          rcases taskSpawnUser_cases s name with ⟨same, -⟩ | ⟨j, -, new⟩
          · exact other (by rw [taskCallStep, taskStep, same])
          · exact other (new.other asleep.not_awake.2.2)
      | exit status => exact terminated s.currentIndex status
      | kill pid status =>
          rw [taskCallStep, taskStep, taskKill]
          split
          · exact asleep
          · split_ifs
            · exact asleep
            · exact terminated _ status
      | sleepUntil tick => exact untimed.elim
      | tick now => exact untimed.elim

theorem Asleep.tick {s : TaskTable} {wakeup now : UInt64} {i : Fin maxTasks} (asleep : Asleep wakeup (s.tasks i))
    (early : now < wakeup) : (taskSchedulerTick s now).tasks i = s.tasks i := by
  obtain ⟨blocked, idle, -⟩ := asleep.not_awake
  refine tick_resting idle blocked fun sleeping => ?_
  rcases asleep with zombie | ⟨-, same⟩
  · rw [zombie] at sleeping
    cases sleeping
  · rw [same]
    exact early

/-! ## Runs -/

section
variable {s t : Sched} {wakeup : UInt64} {i : Fin maxTasks}

theorem later_tick (uptime : UInt64) (n : Nat) : uptime + 1 + UInt64.ofNat n = uptime + UInt64.ofNat (n + 1) := by
  rw [UInt64.ofNat_add, UInt64.add_assoc, UInt64.add_comm (UInt64.ofNat n)]
  rfl

/-- The sleeper rests in every run whose ticks are all before its own. -/
theorem Asleep.run {ops : List SchedOp} (asleep : Asleep wakeup (s.tasks.tasks i))
    (guarded : Lib.Along schedStep (NoNewSleep i) s ops) (reaches : Lib.run schedStep s ops = some t)
    (early : ∀ n, 1 ≤ n → n ≤ elapsed ops → s.uptimeTicks + UInt64.ofNat n < wakeup) : Asleep wakeup (t.tasks.tasks i) := by
  induction ops generalizing s with
  | nil =>
      cases reaches
      exact asleep
  | cons op ops ih =>
      rw [Lib.run_cons, Option.bind_eq_some_iff] at reaches
      obtain ⟨u, steps, reaches⟩ := reaches
      have rest := guarded.2 u steps
      cases op with
      | tick total free =>
          obtain ⟨tasks, uptime⟩ := schedulerTick_tasks steps
          have now : s.uptimeTicks + 1 < wakeup := early 1 le_rfl (Nat.le_add_right 1 _)
          refine ih (by rw [tasks, asleep.tick now]; exact asleep) rest reaches fun n positive within => ?_
          rw [uptime, later_tick]
          refine early (n + 1) (Nat.le_add_left 1 n) ?_
          simp only [elapsed, List.map_cons, List.sum_cons, SchedOp.ticks] at within ⊢
          omega
      | nanosleep request =>
          cases steps
          have other : i ≠ s.tasks.currentIndex := fun same => guarded.1 same.symm
          refine ih ?_ rest reaches fun n positive within => early n positive ?_
          · simp only [sysNanosleep, taskSleepUntil, TaskTable.setTask_tasks, update_of_ne other]
            exact asleep
          · simpa [elapsed, SchedOp.ticks] using within
      | call c untimed =>
          cases steps
          refine ih (asleep.untimed untimed) rest reaches fun n positive within => early n positive ?_
          simpa [elapsed, SchedOp.ticks] using within

-- A tick of a machine with enough free memory.
def plainTick : SchedOp := .tick 1000 1000

theorem plainTick_returns (s : Sched) : ∃ t, schedStep s plainTick = some t ∧
    t.tasks = taskSchedulerTick s.tasks (s.uptimeTicks + 1) ∧ t.uptimeTicks = s.uptimeTicks + 1 := by
  have returns : ∃ t, (schedulerTick s 1000 1000).toOption = some t := by
    have quiet (g : MemoryGuard) (tasks : TaskTable) :
        memoryGuardTick g tasks 1000 1000 = (.quiet, { g with criticalStreak := 0, prevFreePages := 1000 }) := by
      rw [memoryGuardTick, if_neg (by decide), if_pos (by decide)]
    unfold schedulerTick
    dsimp only
    rw [quiet]
    split_ifs
    · exact ⟨_, rfl⟩
    · exact ⟨_, rfl⟩
  obtain ⟨t, returns⟩ := returns
  exact ⟨t, returns, schedulerTick_tasks returns⟩

theorem plainTicks_rest (asleep : Asleep wakeup (s.tasks.tasks i)) {n : Nat}
    (early : ∀ m, 1 ≤ m → m ≤ n → s.uptimeTicks + UInt64.ofNat m < wakeup) :
    ∃ t, Lib.run schedStep s (List.replicate n plainTick) = some t ∧ t.tasks.tasks i = s.tasks.tasks i ∧
      t.uptimeTicks = s.uptimeTicks + UInt64.ofNat n := by
  induction n generalizing s with
  | zero => exact ⟨s, rfl, rfl, (UInt64.add_zero _).symm⟩
  | succ n ih =>
      obtain ⟨u, steps, tasks, uptime⟩ := plainTick_returns s
      have same : u.tasks.tasks i = s.tasks.tasks i := by
        rw [tasks]
        exact asleep.tick (early 1 le_rfl (Nat.le_add_left 1 n))
      obtain ⟨t, reaches, kept, later⟩ := @ih u (by rw [same]; exact asleep) fun m positive within => by
        rw [uptime, later_tick]
        exact early (m + 1) (Nat.le_add_left 1 m) (Nat.succ_le_succ within)
      refine ⟨t, ?_, kept.trans same, ?_⟩
      · rw [List.replicate_succ, Lib.run_cons, steps]
        exact reaches
      · rw [later, uptime, later_tick]

end

/-! ## Requests -/

/-- The caller is not awake again before the ticks that have passed cover the request. -/
def SleepsEnough (s : Sched) (ts : Timespec) : Prop :=
  ∀ ops t, Lib.Along schedStep (NoNewSleep s.tasks.currentIndex) (sysNanosleep s (some ts)).2 ops →
    Lib.run schedStep (sysNanosleep s (some ts)).2 ops = some t →
    (elapsed ops : Int) * 10 ^ 7 < ts.tvSec * 10 ^ 9 + ts.tvNsec →
    (t.tasks.tasks s.tasks.currentIndex).state ≠ .runnable ∧ (t.tasks.tasks s.tasks.currentIndex).state ≠ .running

/-- The request is at most one tick, or a number of ticks that the clock reaches before it wraps (or after it, when it
wraps at the next tick). -/
def WholeTicks (uptime : UInt64) (ts : Timespec) : Prop :=
  ts.tvSec * 10 ^ 9 + ts.tvNsec ≤ 10 ^ 7 ∨
  ts.tvNsec % 10 ^ 7 = 0 ∧
    (uptime.toNat + ts.tvSec * 100 + ts.tvNsec / 10 ^ 7 < 2 ^ 64 ∨ uptime.toNat = 2 ^ 64 - 1)

theorem sysNanosleep_asleep (s : Sched) (request : Option Timespec) :
    (((sysNanosleep s request).2.tasks.tasks s.tasks.currentIndex).state = .sleeping ∧
      ((sysNanosleep s request).2.tasks.tasks s.tasks.currentIndex).wakeupTick = s.uptimeTicks + sleepTicks request) := by
  simp [sysNanosleep, taskSleepUntil]

theorem sleepsEnough_iff_early (s : Sched) (ts : Timespec) :
    SleepsEnough s ts ↔ ∀ n : Nat, 1 ≤ n → (n : Int) * 10 ^ 7 < ts.tvSec * 10 ^ 9 + ts.tvNsec →
      s.uptimeTicks + UInt64.ofNat n < s.uptimeTicks + sleepTicks (some ts) := by
  have sleeping := sysNanosleep_asleep s (some ts)
  have asleep : Asleep (s.uptimeTicks + sleepTicks (some ts))
      ((sysNanosleep s (some ts)).2.tasks.tasks s.tasks.currentIndex) := Or.inr sleeping
  constructor
  · intro enough n
    -- up to the first tick that is due the sleeper rests, whatever happens at it
    induction n using Nat.strong_induction_on with
    | _ n ih =>
        intro positive short
        by_contra late
        obtain ⟨m, rfl⟩ := Nat.exists_eq_add_of_le' positive
        obtain ⟨u, reaches, kept, uptime⟩ := plainTicks_rest asleep fun k first within =>
          ih k (Nat.lt_succ_of_le within) first (by omega)
        obtain ⟨t, steps, tasks, -⟩ := plainTick_returns u
        have due : (u.tasks.tasks s.tasks.currentIndex).wakeupTick ≤ u.uptimeTicks + 1 := by
          have now : u.uptimeTicks + 1 = s.uptimeTicks + UInt64.ofNat (m + 1) := by
            rw [uptime, UInt64.ofNat_add, ← UInt64.add_assoc]
            rfl
          rw [kept, sleeping.2, now]
          exact UInt64.not_lt.mp late
        have woken := tick_due (show (u.tasks.tasks s.tasks.currentIndex).state = .sleeping by rw [kept, sleeping.1]) due
        rw [← tasks] at woken
        have quiet : ∀ op ∈ List.replicate (m + 1) plainTick, ∀ v, NoNewSleep s.tasks.currentIndex v op := by
          intro op member v
          rw [List.eq_of_mem_replicate member]
          trivial
        have both := enough (List.replicate (m + 1) plainTick) t (Lib.along_of_forall quiet _)
          (by rw [List.replicate_succ', Lib.run_append, reaches, Option.bind_some, Lib.run_cons, steps]; rfl)
          (by simpa [elapsed, plainTick, SchedOp.ticks] using short)
        exact woken.elim both.1 both.2
  · intro early ops t guarded reaches short
    have rests := asleep.run guarded reaches fun n positive within => early n positive (by
      have more : (n : Int) ≤ elapsed ops := Int.ofNat_le.mpr within
      omega)
    exact ⟨rests.not_awake.1, rests.not_awake.2.1⟩

theorem toNat_ofInt_natCast {n : Nat} (fits : n < 2 ^ 64) : (UInt64.ofInt (n : Int)).toNat = n := by
  have value : ((n : Int) % 2 ^ 64).toNat = n := by omega
  rw [UInt64.ofInt, value]
  exact Nat.mod_eq_of_lt fits

theorem sleepTicks_toNat {sec nsec : Nat} (small : nsec < 10 ^ 9) (fits : sec * 100 < 2 ^ 63) :
    (sleepTicks (some ⟨sec, nsec⟩)).toNat = max 1 (sec * 100 + nsec / 10 ^ 7) := by
  have rate : hz.toNat = 100 := rfl
  have seconds : (UInt64.ofInt ((sec : Int) * hz.toNat)).toNat = sec * 100 := by
    have whole : (sec : Int) * hz.toNat = (sec * 100 : Nat) := by rw [rate, Nat.cast_mul]
    rw [whole, toNat_ofInt_natCast (by omega)]
  have rest : (UInt64.ofInt ((nsec : Int).tdiv (1000000000 / hz.toNat))).toNat = nsec / 10 ^ 7 := by
    have part : (nsec : Int).tdiv (1000000000 / hz.toNat) = (nsec / 10 ^ 7 : Nat) := by
      rw [rate, Int.tdiv_eq_ediv_of_nonneg (Int.natCast_nonneg nsec)]
      omega
    rw [part, toNat_ofInt_natCast (by omega)]
  have sum : (UInt64.ofInt ((sec : Int) * hz.toNat) + UInt64.ofInt ((nsec : Int).tdiv (1000000000 / hz.toNat))).toNat =
      sec * 100 + nsec / 10 ^ 7 := by
    rw [UInt64.toNat_add, seconds, rest]
    omega
  unfold sleepTicks
  dsimp only
  split_ifs with zero
  · rw [zero] at sum
    have none : sec * 100 + nsec / 10 ^ 7 = 0 := sum.symm
    rw [none]
    rfl
  · have some : sec * 100 + nsec / 10 ^ 7 ≠ 0 := fun none => zero (UInt64.toNat_inj.mp (sum.trans none))
    rw [sum]
    omega

/-- Only the number of ticks and the clock matter. -/
theorem early_iff {uptime sec nsec : Nat} (clock : uptime < 2 ^ 64) (small : nsec < 10 ^ 9) (fits : sec * 100 < 2 ^ 63) :
    (∀ n, 1 ≤ n → n * 10 ^ 7 < sec * 10 ^ 9 + nsec →
      (uptime + n) % 2 ^ 64 < (uptime + max 1 (sec * 100 + nsec / 10 ^ 7)) % 2 ^ 64) ↔
    sec * 10 ^ 9 + nsec ≤ 10 ^ 7 ∨
      nsec % 10 ^ 7 = 0 ∧ (uptime + sec * 100 + nsec / 10 ^ 7 < 2 ^ 64 ∨ uptime = 2 ^ 64 - 1) := by
  constructor
  · intro early
    rcases Nat.lt_or_ge (10 ^ 7) (sec * 10 ^ 9 + nsec) with long | short
    · right
      have first := early 1 le_rfl (by omega)
      have ticks : 1 ≤ sec * 100 + nsec / 10 ^ 7 := by omega
      rw [Nat.max_eq_right ticks] at first early
      constructor
      · by_contra part
        exact absurd (early (sec * 100 + nsec / 10 ^ 7) ticks (by omega)) (lt_irrefl _)
      · omega
    · exact Or.inl short
  · rintro (short | ⟨whole, counts⟩) n positive before
    · omega
    · have ticks : 1 ≤ sec * 100 + nsec / 10 ^ 7 := by omega
      rw [Nat.max_eq_right ticks]
      omega

/-- A sleep covers its request exactly when the request is at most one tick, or a whole number of ticks that the clock
can count. -/
theorem nanosleep_never_short_iff (s : Sched) (ts : Timespec) (secNonneg : 0 ≤ ts.tvSec) (nsecNonneg : 0 ≤ ts.tvNsec)
    (small : ts.tvNsec < 10 ^ 9) (fits : ts.tvSec * 100 < 2 ^ 63) :
    SleepsEnough s ts ↔ WholeTicks s.uptimeTicks ts := by
  obtain ⟨tvSec, tvNsec⟩ := ts
  obtain ⟨sec, rfl⟩ := Int.eq_ofNat_of_zero_le secNonneg
  obtain ⟨nsec, rfl⟩ := Int.eq_ofNat_of_zero_le nsecNonneg
  dsimp only at small fits
  have wakeup := @sleepTicks_toNat sec nsec (by omega) (by omega)
  have count := @early_iff _ sec nsec s.uptimeTicks.toNat_lt (by omega) (by omega)
  rw [sleepsEnough_iff_early]
  refine Iff.trans (forall_congr' fun n => imp_congr_right fun _ => imp_congr ?_ ?_) (count.trans ?_)
  · dsimp only
    omega
  · rw [UInt64.lt_iff_toNat_lt, UInt64.toNat_add, UInt64.toNat_add, wakeup, UInt64.toNat_ofNat', Nat.add_mod_mod]
  · unfold WholeTicks
    dsimp only
    omega

theorem nanosleep_never_short_iff_sample :
    (0 : Int) ≤ 2 ∧ (0 : Int) ≤ 30000000 ∧ (30000000 : Int) < 10 ^ 9 ∧ (2 : Int) * 100 < 2 ^ 63 ∧
      SleepsEnough { tasks := bootTasks } ⟨2, 30000000⟩ := by
  refine ⟨by decide, by decide, by decide, by decide, ?_⟩
  exact (nanosleep_never_short_iff _ ⟨2, 30000000⟩ (by decide) (by decide) (by decide) (by decide)).mpr
    (Or.inr ⟨by decide, Or.inl (by decide)⟩)

/-- A request of 15 ms is over at the first tick, after 10 ms. -/
theorem nanosleep_cut_short :
    (0 : Int) ≤ 0 ∧ (0 : Int) ≤ 15000000 ∧ (15000000 : Int) < 10 ^ 9 ∧ (0 : Int) * 100 < 2 ^ 63 ∧
      ¬SleepsEnough { tasks := bootTasks } ⟨0, 15000000⟩ := by
  refine ⟨by decide, by decide, by decide, by decide, fun enough => ?_⟩
  obtain ⟨t, reaches, awake⟩ := Lib.exists_of_check
    (P := fun t : Sched => (t.tasks.tasks 0).state = .running)
    (show (Lib.run schedStep (sysNanosleep { tasks := bootTasks } (some ⟨0, 15000000⟩)).2 [plainTick]).map _ = some true
      by decide +kernel)
  have both := enough [plainTick] t ⟨trivial, fun _ _ => trivial⟩ reaches (by decide)
  exact both.2 awake

end Mgcore
