import Mathlib.Algebra.BigOperators.Fin
import Mgcore.Task.RoundRobin

/-!
# Bounded waiting and processor time

Only a tick moves `g_current_index`, and it moves it forward to the first slot that can run. So the distance from the
current slot to one that waits gets smaller with every tick that does not select it, whatever is created, killed or put
to sleep in between. A tick charges the slot that it finds running, so the ticks of all slots together are those
that found the processor busy.
-/

namespace Mgcore
open Function

def TaskOp.isTick : TaskOp → Bool
  | .tick _ => true
  | _ => false

/-! ## The slot that waits -/

/-- A reachable table, in which the current slot has been dispatched. -/
structure Settled (s : TaskTable) : Prop where
  inv : TaskInv s
  current : (taskCurrent s).state ≠ .runnable

def Served (s : TaskTable) (i : Fin maxTasks) : Prop := s.currentIndex = i ∧ (s.tasks i).state = .running

theorem taskStep_currentIndex (s : TaskTable) {op : TaskOp} (plain : op.isTick = false) :
    (taskStep s op).currentIndex = s.currentIndex := by
  cases op with
  | createKernel name =>
      rcases taskCreateKernel_cases s name with ⟨same, -⟩ | ⟨j, -, new⟩
      · rw [taskStep, same]
      · exact new.current
  | spawnUser name =>
      rcases taskSpawnUser_cases s name with ⟨same, -⟩ | ⟨j, -, new⟩
      · rw [taskStep, same]
      · exact new.current
  | exit status => rfl
  | kill pid status =>
      rw [taskStep, taskKill]
      split
      · rfl
      · split_ifs <;> rfl
  | sleepUntil tick => rfl
  | tick now => cases plain

/-- Between two ticks a slot in use keeps its state or stops being able to run. -/
theorem taskStep_state (s : TaskTable) {op : TaskOp} (plain : op.isTick = false) {i : Fin maxTasks}
    (used : (s.tasks i).state ≠ .unused) :
    ((taskStep s op).tasks i).state = (s.tasks i).state ∨ ((taskStep s op).tasks i).state = .zombie ∨
      i = s.currentIndex ∧ ((taskStep s op).tasks i).state = .sleeping := by
  cases op with
  | createKernel name =>
      rcases taskCreateKernel_cases s name with ⟨same, -⟩ | ⟨j, -, new⟩
      · exact Or.inl (by rw [taskStep, same])
      · exact Or.inl (by rw [taskStep, new.other used])
  | spawnUser name =>
      rcases taskSpawnUser_cases s name with ⟨same, -⟩ | ⟨j, -, new⟩
      · exact Or.inl (by rw [taskStep, same])
      · exact Or.inl (by rw [taskStep, new.other used])
  | exit status =>
      by_cases here : i = s.currentIndex
      · simp [taskStep, taskExit, here]
      · simp [taskStep, taskExit, here]
  | kill pid status =>
      rw [taskStep, taskKill]
      split
      · exact Or.inl rfl
      · rename_i victim _
        split_ifs
        · exact Or.inl rfl
        · by_cases here : i = victim
          · simp [here]
          · simp [here]
  | sleepUntil tick =>
      by_cases here : i = s.currentIndex
      · simp [taskStep, taskSleepUntil, here]
      · simp [taskStep, taskSleepUntil, here]
  | tick now => cases plain

theorem Settled.boot : Settled bootTasks := ⟨TaskInv.boot, by decide⟩

theorem Settled.step {s : TaskTable} (ready : Settled s) (op : TaskOp) : Settled (taskStep s op) := by
  refine ⟨ready.inv.step op, ?_⟩
  cases plain : op.isTick with
  | false =>
      rw [taskCurrent, taskStep_currentIndex s plain]
      rcases taskStep_state s plain ready.inv.current_used with same | zombie | ⟨-, sleeping⟩
      · rw [same]
        exact ready.current
      · simp [zombie]
      · simp [sleeping]
  | true =>
      cases op with
      | tick now =>
          rw [taskStep, taskCurrent, tick_state ready.inv]
          rcases tick_current ready.inv now with runnable | ⟨-, idle⟩
          · simp [runnable]
          · simp [idle]
      | _ => cases plain

theorem Settled.run {s : TaskTable} (ready : Settled s) (ops : List TaskOp) : Settled (ops.foldl taskStep s) :=
  List.foldlRecOn ops taskStep ready fun _ ready op _ => ready.step op

/-- A tick serves a waiting slot or comes closer to it. -/
theorem tick_approaches {s : TaskTable} (inv : TaskInv s) (now : UInt64) {i : Fin maxTasks}
    (waiting : (s.tasks i).state = .runnable) :
    Served (taskSchedulerTick s now) i ∨
      ((taskSchedulerTick s now).tasks i).state = .runnable ∧
        slotsAfter (taskSchedulerTick s now).currentIndex i < slotsAfter s.currentIndex i := by
  have awakes : awakeState now (s.tasks i) = .runnable := by simp [awakeState, waiting]
  by_cases selected : (taskSchedulerTick s now).currentIndex = i
  · refine Or.inl ⟨selected, ?_⟩
    rw [tick_state inv, if_pos ⟨selected.symm, awakes⟩]
  · refine Or.inr ⟨?_, ?_⟩
    · rw [tick_state inv, if_neg fun here => selected here.1.symm, awakes]
    · -- the scan stops before it reaches `i`
      obtain ⟨skipped, later, order, idle⟩ : ∃ skipped later,
          candidates s.currentIndex = skipped ++ (taskSchedulerTick s now).currentIndex :: later ∧ i ∉ skipped := by
        cases found : (candidates s.currentIndex).find? fun c => ((awake s now).tasks c).state = .runnable with
        | none =>
            have none := List.find?_eq_none.mp found i (mem_candidates s.currentIndex i)
            simp [awake_state inv, awakes] at none
        | some next =>
            obtain ⟨-, skipped, later, order, idle⟩ := List.find?_eq_some_iff_append.mp found
            have next_eq : (taskSchedulerTick s now).currentIndex = next := by
              rw [taskSchedulerTick, dispatch_currentIndex, selectNext, awake_currentIndex, found, Option.getD_some]
            refine ⟨skipped, later, by rw [next_eq, order], fun member => ?_⟩
            simpa [awake_state inv, awakes] using idle i member
      have behind : i ∈ later := by
        have member := mem_candidates s.currentIndex i
        rw [order, List.mem_append, List.mem_cons] at member
        rcases member with before | here | after
        · exact absurd before idle
        · exact absurd here.symm selected
        · exact after
      have ordered := candidates_pairwise s.currentIndex
      rw [order] at ordered
      have less : slotsAfter s.currentIndex (taskSchedulerTick s now).currentIndex < slotsAfter s.currentIndex i :=
        (List.pairwise_cons.mp (List.pairwise_append.mp ordered).2.1).1 i behind
      generalize (taskSchedulerTick s now).currentIndex = next at less ⊢
      have bounds : s.currentIndex.val < 32 ∧ i.val < 32 ∧ next.val < 32 :=
        ⟨s.currentIndex.isLt, i.isLt, next.isLt⟩
      unfold slotsAfter at less ⊢
      omega

/-- A slot that waits is served by the tick that its distance from the current slot says, or killed before. -/
theorem Settled.served {s : TaskTable} (ready : Settled s) {i : Fin maxTasks}
    (waiting : (s.tasks i).state = .runnable) {later : List TaskOp}
    (enough : slotsAfter s.currentIndex i < later.countP TaskOp.isTick) :
    ∃ before, before <+: later ∧ before.countP TaskOp.isTick ≤ slotsAfter s.currentIndex i + 1 ∧
      (Served (before.foldl taskStep s) i ∨ ((before.foldl taskStep s).tasks i).state = .zombie) := by
  induction later generalizing s with
  | nil => simp at enough
  | cons op later ih =>
      -- the induction hypothesis for a step after which the slot still waits
      have goOn (still : ((taskStep s op).tasks i).state = .runnable)
          (closer : slotsAfter (taskStep s op).currentIndex i + (if op.isTick then 1 else 0) ≤ slotsAfter s.currentIndex i) :
          ∃ before, before <+: op :: later ∧ before.countP TaskOp.isTick ≤ slotsAfter s.currentIndex i + 1 ∧
            (Served (before.foldl taskStep s) i ∨ ((before.foldl taskStep s).tasks i).state = .zombie) := by
        rw [List.countP_cons] at enough
        obtain ⟨before, shorter, ticks, result⟩ := ih (ready.step op) still (by omega)
        refine ⟨op :: before, List.cons_prefix_cons.mpr ⟨rfl, shorter⟩, ?_, result⟩
        rw [List.countP_cons]
        omega
      cases plain : op.isTick with
      | false =>
          have used : (s.tasks i).state ≠ .unused := by simp [waiting]
          rcases taskStep_state s plain used with same | zombie | ⟨here, -⟩
          · rw [waiting] at same
            exact goOn same (by simp [plain, taskStep_currentIndex s plain])
          · exact ⟨[op], ⟨later, rfl⟩, by simp [plain], Or.inr zombie⟩
          · rw [here] at waiting
            exact absurd waiting ready.current
      | true =>
          cases op with
          | tick now =>
              rcases tick_approaches ready.inv now waiting with served | ⟨still, closer⟩
              · exact ⟨[.tick now], ⟨later, rfl⟩, by simp [TaskOp.isTick], Or.inl served⟩
              · exact goOn still closer
          | _ => cases plain

theorem bounded_waiting (ops later : List TaskOp) (i : Fin maxTasks) :
    let s := ops.foldl taskStep bootTasks
    (s.tasks i).state = .runnable → slotsAfter s.currentIndex i < later.countP TaskOp.isTick →
    ∃ before, before <+: later ∧ before.countP TaskOp.isTick ≤ slotsAfter s.currentIndex i + 1 ∧
      slotsAfter s.currentIndex i + 1 ≤ maxTasks ∧
      (Served (before.foldl taskStep s) i ∨ ((before.foldl taskStep s).tasks i).state = .zombie) := by
  intro s waiting enough
  obtain ⟨before, shorter, ticks, result⟩ := (Settled.boot.run ops).served waiting enough
  exact ⟨before, shorter, ticks, Nat.mod_lt _ (by decide), result⟩

-- Slots 0, 1, 2 are in use and slot 0 runs; between the ticks slot 2 is killed and slot 0 goes to sleep.
def crowdedRun : List TaskOp := [.createKernel [], .spawnUser []]

theorem bounded_waiting_crowded :
    ∃ before, before <+: [.kill 3 9, .sleepUntil 50, .tick 1, .createKernel [], .tick 2] ∧
      (Served (before.foldl taskStep (crowdedRun.foldl taskStep bootTasks)) 1 ∨
        ((before.foldl taskStep (crowdedRun.foldl taskStep bootTasks)).tasks 1).state = .zombie) := by
  obtain ⟨before, shorter, -, -, result⟩ := bounded_waiting crowdedRun
    [.kill 3 9, .sleepUntil 50, .tick 1, .createKernel [], .tick 2] 1 (by decide +kernel) (by decide +kernel)
  exact ⟨before, shorter, result⟩

/-! ## Processor time -/

/-- The slot that the operation charges a tick to. -/
def charged (s : TaskTable) (op : TaskOp) : Option (Fin maxTasks) :=
  if op.isTick ∧ (taskCurrent s).state = .running then some s.currentIndex else none

/-- The ticks of the run that found a table like this. -/
def ticksFinding (found : TaskTable → Prop) [DecidablePred found] : TaskTable → List TaskOp → Nat
  | _, [] => 0
  | s, op :: ops => (if op.isTick ∧ found s then 1 else 0) + ticksFinding found (taskStep s op) ops

def Runs (i : Fin maxTasks) (s : TaskTable) : Prop := s.currentIndex = i ∧ (s.tasks i).state = .running

/-- The current task has gone to sleep or ended, and no tick has moved on from it. -/
def Gone (s : TaskTable) : Prop := (taskCurrent s).state = .sleeping ∨ (taskCurrent s).state = .zombie

instance (i : Fin maxTasks) : DecidablePred (Runs i) := fun _ => inferInstanceAs (Decidable (_ ∧ _))

instance : DecidablePred Gone := fun _ => inferInstanceAs (Decidable (_ ∨ _))

theorem charged_plain (s : TaskTable) {op : TaskOp} (plain : op.isTick = false) : charged s op = none := by
  simp [charged, plain]

/-- A slot that is not in use has no ticks, so a new task does not lose any. -/
structure Charged (s : TaskTable) : Prop where
  inv : TaskInv s
  unused : ∀ i, (s.tasks i).state = .unused → (s.tasks i).runtimeTicks = 0

theorem taskStep_runtime {s : TaskTable} (clean : Charged s) (op : TaskOp) (i : Fin maxTasks) :
    ((taskStep s op).tasks i).runtimeTicks =
      if charged s op = some i then (s.tasks i).runtimeTicks + 1 else (s.tasks i).runtimeTicks := by
  have new {j : Fin maxTasks} {t : TaskTable} (new : Allocated s j t) :
      (t.tasks i).runtimeTicks = (s.tasks i).runtimeTicks := by
    by_cases here : i = j
    · subst here
      obtain ⟨name, ppid, entry⟩ := new.slot
      rw [entry, clean.unused i new.unused]
      rfl
    · rw [new.elsewhere here]
  have set (j : Fin maxTasks) (t : Task) (same : t.runtimeTicks = (s.tasks j).runtimeTicks) :
      ((s.setTask j t).tasks i).runtimeTicks = (s.tasks i).runtimeTicks := by
    by_cases here : i = j
    · subst here
      simp [same]
    · simp [here]
  cases plain : op.isTick with
  | false =>
      rw [charged_plain s plain, if_neg (by simp)]
      cases op with
      | createKernel name =>
          rcases taskCreateKernel_cases s name with ⟨same, -⟩ | ⟨j, -, alloc⟩
          · rw [taskStep, same]
          · exact new alloc
      | spawnUser name =>
          rcases taskSpawnUser_cases s name with ⟨same, -⟩ | ⟨j, -, alloc⟩
          · rw [taskStep, same]
          · exact new alloc
      | exit status => exact set s.currentIndex _ rfl
      | kill pid status =>
          rw [taskStep, taskKill]
          split
          · rfl
          · rename_i victim _
            split_ifs
            · rfl
            · exact set victim _ rfl
      | sleepUntil tick => exact set s.currentIndex _ rfl
      | tick now => cases plain
  | true =>
      cases op with
      | tick now =>
          rw [taskStep, tick_runtime]
          by_cases current : i = s.currentIndex
          · subst current
            simp [charged, TaskOp.isTick, taskCurrent]
          · simp [charged, current, Ne.symm current]
      | _ => cases plain

theorem Charged.step {s : TaskTable} (clean : Charged s) (op : TaskOp) : Charged (taskStep s op) := by
  refine ⟨clean.inv.step op, fun i unused => ?_⟩
  have before : (s.tasks i).state = .unused := by
    by_contra used
    cases plain : op.isTick with
    | false =>
        rcases taskStep_state s plain used with same | zombie | ⟨-, sleeping⟩ <;> simp_all
    | true =>
        cases op with
        | tick now =>
            rw [taskStep, tick_state clean.inv] at unused
            split_ifs at unused
            exact used ((awakeState_eq_unused now _).mp unused)
        | _ => cases plain
  have idle : charged s op ≠ some i := by
    unfold charged
    split_ifs with busy
    · intro here
      cases here
      rw [taskCurrent, before] at busy
      cases busy.2
    · simp
  rw [taskStep_runtime clean, if_neg idle]
  exact clean.unused i before

theorem bootTasks_runtime (i : Fin maxTasks) : (bootTasks.tasks i).runtimeTicks = 0 := by
  rw [bootTasks_tasks]
  by_cases first : i = 0
  · subst first
    rfl
  · simp [first]

theorem Charged.boot : Charged bootTasks := ⟨TaskInv.boot, fun i _ => bootTasks_runtime i⟩

theorem charged_iff (s : TaskTable) (op : TaskOp) (i : Fin maxTasks) : charged s op = some i ↔ op.isTick ∧ Runs i s := by
  unfold charged Runs
  split_ifs with busy
  · rw [Option.some.injEq]
    constructor
    · rintro rfl
      exact ⟨busy.1, rfl, busy.2⟩
    · exact fun found => found.2.1
  · refine iff_of_false nofun fun found => busy ⟨found.1, ?_⟩
    rw [taskCurrent, found.2.1]
    exact found.2.2

theorem Charged.runtime {s : TaskTable} (clean : Charged s) (ops : List TaskOp) (i : Fin maxTasks) :
    ((ops.foldl taskStep s).tasks i).runtimeTicks = (s.tasks i).runtimeTicks + UInt64.ofNat (ticksFinding (Runs i) s ops) := by
  induction ops generalizing s with
  | nil => simp [ticksFinding]
  | cons op ops ih =>
      rw [List.foldl_cons, ih (clean.step op), taskStep_runtime clean, ticksFinding, UInt64.ofNat_add]
      simp only [charged_iff]
      split_ifs
      · rw [UInt64.add_assoc]
        rfl
      · simp

/-- A tick finds one slot running, or the current task has gone. -/
theorem Settled.finds_one {s : TaskTable} (ready : Settled s) :
    (∑ i, if Runs i s then 1 else 0) + (if Gone s then 1 else 0) = 1 := by
  have used := ready.inv.current_used
  have dispatched := ready.current
  have only (i : Fin maxTasks) : (if Runs i s then 1 else 0) =
      if s.currentIndex = i then if (taskCurrent s).state = .running then 1 else 0 else 0 := by
    unfold Runs taskCurrent
    by_cases here : s.currentIndex = i
    · subst here
      simp
    · simp [here]
  rw [Finset.sum_congr rfl fun i _ => only i, Finset.sum_ite_eq, if_pos (Finset.mem_univ _)]
  cases state : (taskCurrent s).state with
  | unused => exact absurd state used
  | runnable => exact absurd state dispatched
  | running | sleeping | zombie => simp [Gone, state]

/-- By induction on the run: every tick finds one slot running or the current task gone. -/
theorem Settled.ticks_found {s : TaskTable} (ready : Settled s) (ops : List TaskOp) :
    ∑ i, ticksFinding (Runs i) s ops + ticksFinding Gone s ops = ops.countP TaskOp.isTick := by
  induction ops generalizing s with
  | nil => simp [ticksFinding]
  | cons op ops ih =>
      have rest := ih (ready.step op)
      have one := ready.finds_one
      simp only [ticksFinding, Finset.sum_add_distrib]
      rw [List.countP_cons]
      cases ticks : op.isTick with
      | false =>
          simp only [Bool.false_eq_true, false_and, if_false, Finset.sum_const_zero]
          omega
      | true =>
          simp only [true_and, if_true]
          omega

/-- A slot's counter is the number of the ticks that found it running, and each tick found one slot running, but for those
that found the current task asleep or ended. -/
theorem processor_time (ops : List TaskOp) :
    (∀ i, ((ops.foldl taskStep bootTasks).tasks i).runtimeTicks = UInt64.ofNat (ticksFinding (Runs i) bootTasks ops)) ∧
    ∑ i, ticksFinding (Runs i) bootTasks ops + ticksFinding Gone bootTasks ops = ops.countP TaskOp.isTick := by
  refine ⟨fun i => ?_, Settled.boot.ticks_found ops⟩
  rw [Charged.boot.runtime, bootTasks_runtime, UInt64.zero_add]

end Mgcore
