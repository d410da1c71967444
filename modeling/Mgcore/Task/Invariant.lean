import Mgcore.Task.Model

/-!
# The scheduler invariant

At most the current task is running, and the pids of the slots in use are distinct because the
counter only grows. `TaskInv` is kept by every operation; what a tick establishes is read off its
three blocks (demote, wake, dispatch).
-/

namespace Mgcore
open Function

inductive TaskOp
  | createKernel (name : List UInt8)
  | spawnUser (name : List UInt8)
  | exit (status : Int)
  | kill (pid status : Int)
  | sleepUntil (tick : UInt64)
  | tick (now : UInt64)

def taskStep (s : TaskTable) : TaskOp → TaskTable
  | .createKernel name => (taskCreateKernel s name).2
  | .spawnUser name => (taskSpawnUser s name).2
  | .exit status => taskExit s status
  | .kill pid status => (taskKill s pid status).2
  | .sleepUntil tick => taskSleepUntil s tick
  | .tick now => taskSchedulerTick s now

def bootTasks : TaskTable := taskInit {}

structure TaskInv (s : TaskTable) : Prop where
  current_used : (s.tasks s.currentIndex).state ≠ .unused
  running_current : ∀ i, (s.tasks i).state = .running → i = s.currentIndex
  pid_lt : ∀ i, (s.tasks i).state ≠ .unused → (s.tasks i).pid < s.nextPid
  pid_inj : ∀ i j, (s.tasks i).state ≠ .unused → (s.tasks j).state ≠ .unused →
    (s.tasks i).pid = (s.tasks j).pid → i = j

/-! ## Operations on one slot -/

/-- `t` is `s` with a new task in slot `i`, which was not in use. -/
structure Allocated (s : TaskTable) (i : Fin maxTasks) (t : TaskTable) : Prop where
  unused : (s.tasks i).state = .unused
  tasks : ∃ name ppid, t.tasks = update s.tasks i { freshTask (s.tasks i) s.nextPid name .runnable with ppid := ppid }
  nextPid : t.nextPid = s.nextPid + 1
  current : t.currentIndex = s.currentIndex

namespace Allocated
variable {s t : TaskTable} {i j : Fin maxTasks}

theorem other (new : Allocated s i t) (used : (s.tasks j).state ≠ .unused) : t.tasks j = s.tasks j := by
  obtain ⟨name, ppid, tasks⟩ := new.tasks
  have different : j ≠ i := fun same => used (same ▸ new.unused)
  rw [tasks, update_of_ne different]

theorem elsewhere (new : Allocated s i t) (different : j ≠ i) : t.tasks j = s.tasks j := by
  obtain ⟨name, ppid, tasks⟩ := new.tasks
  rw [tasks, update_of_ne different]

theorem slot (new : Allocated s i t) :
    ∃ name ppid, t.tasks i = { freshTask (s.tasks i) s.nextPid name .runnable with ppid := ppid } := by
  obtain ⟨name, ppid, tasks⟩ := new.tasks
  exact ⟨name, ppid, by rw [tasks, update_self]⟩

theorem pid (new : Allocated s i t) : (t.tasks i).pid = s.nextPid := by
  obtain ⟨name, ppid, entry⟩ := new.slot
  rw [entry]
  rfl

theorem state (new : Allocated s i t) : (t.tasks i).state = .runnable := by
  obtain ⟨name, ppid, entry⟩ := new.slot
  rw [entry]
  rfl

end Allocated

theorem taskCreateKernel_cases (s : TaskTable) (name : List UInt8) :
    (taskCreateKernel s name = (none, s) ∧ ∀ i, (s.tasks i).state ≠ .unused) ∨
    ∃ i, (taskCreateKernel s name).1 = some i ∧ Allocated s i (taskCreateKernel s name).2 := by
  unfold taskCreateKernel taskAlloc
  cases found : (List.finRange maxTasks).find? fun i => (s.tasks i).state = .unused with
  | none =>
      refine Or.inl ⟨rfl, fun i => ?_⟩
      simpa using List.find?_eq_none.mp found i (List.mem_finRange i)
  | some i =>
      have unused := List.find?_some found
      exact Or.inr ⟨i, rfl, by simpa using unused, ⟨name, 0, rfl⟩, rfl, rfl⟩

theorem taskSpawnUser_cases (s : TaskTable) (name : List UInt8) :
    (taskSpawnUser s name = (none, s) ∧ ∀ i, (s.tasks i).state ≠ .unused) ∨
    ∃ i, (taskSpawnUser s name).1 = some i ∧ Allocated s i (taskSpawnUser s name).2 := by
  unfold taskSpawnUser taskAlloc
  cases found : (List.finRange maxTasks).find? fun i => (s.tasks i).state = .unused with
  | none =>
      refine Or.inl ⟨rfl, fun i => ?_⟩
      simpa using List.find?_eq_none.mp found i (List.mem_finRange i)
  | some i =>
      have unused := List.find?_some found
      have entry : (taskSpawnUser s name).2.tasks = update s.tasks i { freshTask (s.tasks i) s.nextPid name .runnable with
          ppid := (update s.tasks i (freshTask (s.tasks i) s.nextPid name .runnable) s.currentIndex).pid } := by
        simp only [taskSpawnUser, taskAlloc, found, TaskTable.setTask_tasks, update_idem, update_self, taskCurrent]
        rfl
      simp only [taskSpawnUser, taskAlloc, found] at entry
      exact Or.inr ⟨i, rfl, by simpa using unused, ⟨name, _, entry⟩, rfl, rfl⟩

theorem TaskInv.congr {s t : TaskTable} (inv : TaskInv s)
    (nextPid : t.nextPid = s.nextPid) (pid : ∀ i, (t.tasks i).pid = (s.tasks i).pid)
    (used : ∀ i, (t.tasks i).state = .unused ↔ (s.tasks i).state = .unused)
    (current : (t.tasks t.currentIndex).state ≠ .unused)
    (running : ∀ i, (t.tasks i).state = .running → i = t.currentIndex) : TaskInv t where
  current_used := current
  running_current := running
  pid_lt i hi := by
    rw [pid, nextPid]
    exact inv.pid_lt i (mt (used i).mpr hi)
  pid_inj i j hi hj eq := by
    rw [pid, pid] at eq
    exact inv.pid_inj i j (mt (used i).mpr hi) (mt (used j).mpr hj) eq

theorem TaskInv.set {s : TaskTable} (inv : TaskInv s) (i : Fin maxTasks) (t : Task)
    (pid : t.pid = (s.tasks i).pid) (before : (s.tasks i).state ≠ .unused)
    (after : t.state ≠ .unused) (running : t.state ≠ .running) : TaskInv (s.setTask i t) := by
  apply inv.congr (s.setTask_nextPid i t)
  · intro j
    by_cases same : j = i
    · subst same; simpa using pid
    · simp [same]
  · intro j
    by_cases same : j = i
    · subst same; simp [before, after]
    · simp [same]
  · by_cases same : s.currentIndex = i
    · simpa [same] using after
    · simpa [same] using inv.current_used
  · intro j hj
    by_cases same : j = i
    · subst same; simp [running] at hj
    · exact inv.running_current j (by simpa [same] using hj)

theorem TaskInv.allocated {s t : TaskTable} (inv : TaskInv s) {i : Fin maxTasks} (new : Allocated s i t) : TaskInv t := by
  have old {j : Fin maxTasks} (used : (t.tasks j).state ≠ .unused) (different : j ≠ i) : (s.tasks j).state ≠ .unused := by
    rw [new.elsewhere different] at used
    exact used
  constructor
  · rw [new.current, new.other inv.current_used]
    exact inv.current_used
  · intro j running
    rw [new.current]
    by_cases same : j = i
    · rw [same, new.state] at running
      cases running
    · rw [new.elsewhere same] at running
      exact inv.running_current j running
  · intro j used
    rw [new.nextPid]
    by_cases same : j = i
    · rw [same, new.pid]
      omega
    · have below := inv.pid_lt j (old used same)
      rw [new.elsewhere same]
      omega
  · intro j k usedJ usedK eq
    by_cases sameJ : j = i <;> by_cases sameK : k = i
    · rw [sameJ, sameK]
    · rw [sameJ, new.pid, new.elsewhere sameK] at eq
      exact absurd eq.symm (inv.pid_lt k (old usedK sameK)).ne
    · rw [sameK, new.pid, new.elsewhere sameJ] at eq
      exact absurd eq (inv.pid_lt j (old usedJ sameJ)).ne
    · rw [new.elsewhere sameJ, new.elsewhere sameK] at eq
      exact inv.pid_inj j k (old usedJ sameJ) (old usedK sameK) eq

theorem TaskInv.kill {s : TaskTable} (inv : TaskInv s) (pid status : Int) :
    TaskInv (taskKill s pid status).2 := by
  unfold taskKill
  split
  · exact inv
  · rename_i victim found
    split_ifs with dead
    · exact inv
    · exact inv.set victim _ rfl (fun unused => dead (Or.inl unused)) (by simp) (by simp)

/-! ## The tick -/

def awakeState (now : UInt64) (t : Task) : TaskState :=
  if t.state = .running then .runnable
  else if t.state = .sleeping ∧ t.wakeupTick ≤ now then .runnable
  else t.state

theorem awake_tasks (s : TaskTable) (now : UInt64) (i : Fin maxTasks) :
    (awake s now).tasks i = wakeTask now ((demoteCurrent s).tasks i) := rfl

@[simp] theorem awake_currentIndex (s : TaskTable) (now : UInt64) :
    (awake s now).currentIndex = s.currentIndex := by
  unfold awake demoteCurrent
  split_ifs <;> rfl

/-- Demotion and wake-up write the state and the runtime of a task, nothing else. -/
theorem awake_kept (s : TaskTable) (now : UInt64) (i : Fin maxTasks) :
    ∃ state ticks, (awake s now).tasks i = { s.tasks i with state := state, runtimeTicks := ticks } := by
  have demoted : ∃ state ticks,
      (demoteCurrent s).tasks i = { s.tasks i with state := state, runtimeTicks := ticks } := by
    unfold demoteCurrent
    split_ifs
    · by_cases same : i = s.currentIndex
      · subst same
        exact ⟨.runnable, (taskCurrent s).runtimeTicks + 1, by simp [taskCurrent]⟩
      · exact ⟨(s.tasks i).state, (s.tasks i).runtimeTicks, by simp [same]⟩
    · exact ⟨(s.tasks i).state, (s.tasks i).runtimeTicks, rfl⟩
  obtain ⟨state, ticks, demoted⟩ := demoted
  rw [awake_tasks, demoted]
  unfold wakeTask
  split_ifs
  · exact ⟨.runnable, ticks, rfl⟩
  · exact ⟨state, ticks, rfl⟩

theorem awake_state {s : TaskTable} (inv : TaskInv s) (now : UInt64) (i : Fin maxTasks) :
    ((awake s now).tasks i).state = awakeState now (s.tasks i) := by
  have woken : ∀ t : Task, t.state ≠ .running → (wakeTask now t).state = awakeState now t := by
    intro t notRunning
    unfold wakeTask awakeState
    rw [if_neg notRunning]
    split_ifs <;> rfl
  by_cases running : (s.tasks i).state = .running
  · have current := inv.running_current i running
    have demoted : (demoteCurrent s).tasks i =
        { s.tasks i with runtimeTicks := (s.tasks i).runtimeTicks + 1, state := .runnable } := by
      simp [demoteCurrent, taskCurrent, ← current, running]
    simp [awake_tasks, demoted, wakeTask, awakeState, running]
  · have demoted : (demoteCurrent s).tasks i = s.tasks i := by
      unfold demoteCurrent
      split_ifs with h
      · have other : i ≠ s.currentIndex := fun same => running (same ▸ h)
        simp [other]
      · rfl
    rw [awake_tasks, demoted]
    exact woken _ running

theorem awakeState_ne_running (now : UInt64) (t : Task) : awakeState now t ≠ .running := by
  unfold awakeState
  split_ifs <;> simp_all

theorem awakeState_eq_unused (now : UInt64) (t : Task) :
    awakeState now t = .unused ↔ t.state = .unused := by
  unfold awakeState
  split_ifs <;> simp_all

theorem awakeState_runnable {now : UInt64} {t : Task} (runnable : awakeState now t = .runnable) :
    t.state ≠ .zombie ∧ t.state ≠ .unused := by
  unfold awakeState at runnable
  split_ifs at runnable <;> simp_all

theorem mem_candidates (current i : Fin maxTasks) : i ∈ candidates current := by
  -- The distance from the slot after the current one to `i`, around the table.
  have distance : (i.val + 31 - current.val) % maxTasks < maxTasks := Nat.mod_lt _ (Nat.succ_pos 31)
  apply List.mem_map.mpr
  refine ⟨⟨_, distance⟩, List.mem_finRange _, ?_⟩
  have bounds : i.val < 32 ∧ current.val < 32 := ⟨i.isLt, current.isLt⟩
  apply Fin.ext
  show (current.val + 1 + (i.val + 31 - current.val) % 32) % 32 = i.val
  omega

theorem selectNext_spec (s : TaskTable) :
    (s.tasks (selectNext s)).state = .runnable ∨
    (selectNext s = s.currentIndex ∧ ∀ i, (s.tasks i).state ≠ .runnable) := by
  unfold selectNext
  cases found : (candidates s.currentIndex).find? fun c => (s.tasks c).state = .runnable with
  | none =>
      refine Or.inr ⟨rfl, fun i => ?_⟩
      simpa using List.find?_eq_none.mp found i (mem_candidates s.currentIndex i)
  | some c =>
      have runnable := List.find?_some found
      exact Or.inl (by simpa using runnable)

theorem dispatch_tasks (s : TaskTable) (next i : Fin maxTasks) :
    (dispatch s next).tasks i =
      if i = next ∧ (s.tasks next).state = .runnable then { s.tasks next with state := .running }
      else s.tasks i := by
  unfold dispatch
  by_cases runnable : (s.tasks next).state = .runnable
  · by_cases same : i = next
    · subst same; simp [runnable]
    · simp [runnable, same]
  · simp [runnable]

@[simp] theorem dispatch_currentIndex (s : TaskTable) (next : Fin maxTasks) :
    (dispatch s next).currentIndex = next := by
  unfold dispatch
  dsimp only
  split_ifs <;> rfl

@[simp] theorem dispatch_nextPid (s : TaskTable) (next : Fin maxTasks) :
    (dispatch s next).nextPid = s.nextPid := by
  unfold dispatch
  dsimp only
  split_ifs <;> rfl

theorem awake_nextPid (s : TaskTable) (now : UInt64) : (awake s now).nextPid = s.nextPid := by
  unfold awake demoteCurrent
  split_ifs <;> rfl

theorem tick_state {s : TaskTable} (inv : TaskInv s) (now : UInt64) (i : Fin maxTasks) :
    ((taskSchedulerTick s now).tasks i).state =
      if i = (taskSchedulerTick s now).currentIndex ∧ awakeState now (s.tasks i) = .runnable then .running
      else awakeState now (s.tasks i) := by
  rw [taskSchedulerTick, dispatch_tasks, dispatch_currentIndex, ← awake_state inv]
  by_cases same : i = selectNext (awake s now)
  · rw [← same]
    split_ifs <;> simp_all
  · simp [same]

theorem tick_current {s : TaskTable} (inv : TaskInv s) (now : UInt64) :
    awakeState now (s.tasks (taskSchedulerTick s now).currentIndex) = .runnable ∨
    ((taskSchedulerTick s now).currentIndex = s.currentIndex ∧
      ∀ i, awakeState now (s.tasks i) ≠ .runnable) := by
  have selected := selectNext_spec (awake s now)
  simp only [awake_state inv, awake_currentIndex] at selected
  simpa only [taskSchedulerTick, dispatch_currentIndex] using selected

theorem tick_kept (s : TaskTable) (now : UInt64) (i : Fin maxTasks) :
    ∃ state ticks, (taskSchedulerTick s now).tasks i = { s.tasks i with state := state, runtimeTicks := ticks } := by
  obtain ⟨state, ticks, kept⟩ := awake_kept s now i
  rw [taskSchedulerTick, dispatch_tasks]
  split_ifs with selected
  · rw [← selected.1, kept]
    exact ⟨.running, ticks, rfl⟩
  · exact ⟨state, ticks, kept⟩

theorem tick_pid (s : TaskTable) (now : UInt64) (i : Fin maxTasks) :
    ((taskSchedulerTick s now).tasks i).pid = (s.tasks i).pid := by
  obtain ⟨state, ticks, kept⟩ := tick_kept s now i
  rw [kept]

theorem tick_wakeupTick (s : TaskTable) (now : UInt64) (i : Fin maxTasks) :
    ((taskSchedulerTick s now).tasks i).wakeupTick = (s.tasks i).wakeupTick := by
  obtain ⟨state, ticks, kept⟩ := tick_kept s now i
  rw [kept]

theorem tick_runtime (s : TaskTable) (now : UInt64) (i : Fin maxTasks) :
    ((taskSchedulerTick s now).tasks i).runtimeTicks =
      if i = s.currentIndex ∧ (s.tasks i).state = .running then (s.tasks i).runtimeTicks + 1
      else (s.tasks i).runtimeTicks := by
  have woken : ((awake s now).tasks i).runtimeTicks = ((demoteCurrent s).tasks i).runtimeTicks := by
    rw [awake_tasks]
    unfold wakeTask
    split_ifs <;> rfl
  have kept : ((taskSchedulerTick s now).tasks i).runtimeTicks = ((awake s now).tasks i).runtimeTicks := by
    rw [taskSchedulerTick, dispatch_tasks]
    split_ifs with selected
    · rw [selected.1]
    · rfl
  rw [kept, woken]
  unfold demoteCurrent taskCurrent
  by_cases current : i = s.currentIndex
  · subst current
    split_ifs <;> simp_all
  · by_cases running : (s.tasks s.currentIndex).state = .running
    · simp [running, current]
    · simp [running, current]

theorem TaskInv.tick {s : TaskTable} (inv : TaskInv s) (now : UInt64) :
    TaskInv (taskSchedulerTick s now) := by
  have state := tick_state inv now
  apply inv.congr
  · rw [taskSchedulerTick, dispatch_nextPid, awake_nextPid]
  · exact tick_pid s now
  · intro i
    rw [state, ← awakeState_eq_unused now]
    split_ifs with selected
    · simp [selected.2]
    · rfl
  · rw [state]
    split_ifs with selected
    · simp
    · rw [Ne, awakeState_eq_unused]
      rcases tick_current inv now with runnable | ⟨same, -⟩
      · exact absurd ⟨rfl, runnable⟩ selected
      · rw [same]
        exact inv.current_used
  · intro i running
    rw [state] at running
    split_ifs at running with selected
    · exact selected.1
    · exact absurd running (awakeState_ne_running now _)

/-- What one operation can do to a slot: it writes the fields of the scheduler, or takes the slot for a new task, whose
descriptors are those of the old entry. -/
theorem taskStep_slot (s : TaskTable) (op : TaskOp) (i : Fin maxTasks) :
    (∃ state ticks wakeup code, (taskStep s op).tasks i =
      { s.tasks i with state := state, runtimeTicks := ticks, wakeupTick := wakeup, exitCode := code }) ∨
    ((s.tasks i).state = .unused ∧ (taskStep s op).nextPid = s.nextPid + 1 ∧ ∃ name ppid,
      (taskStep s op).tasks i = { freshTask (s.tasks i) s.nextPid name .runnable with ppid := ppid }) := by
  have kept {t : TaskTable} (same : t.tasks i = s.tasks i) : ∃ state ticks wakeup code, t.tasks i =
      { s.tasks i with state := state, runtimeTicks := ticks, wakeupTick := wakeup, exitCode := code } :=
    ⟨_, _, _, _, same⟩
  have set (j : Fin maxTasks) (state : TaskState) (wakeup : UInt64) (code : Int) :
      ∃ state' ticks wakeup' code', (s.setTask j { s.tasks j with
        state := state, wakeupTick := wakeup, exitCode := code }).tasks i =
        { s.tasks i with state := state', runtimeTicks := ticks, wakeupTick := wakeup', exitCode := code' } := by
    by_cases here : i = j
    · subst here
      exact ⟨state, _, wakeup, code, by rw [TaskTable.setTask_tasks, update_self]⟩
    · exact kept (by rw [TaskTable.setTask_tasks, update_of_ne here])
  have taken {j : Fin maxTasks} {t : TaskTable} (new : Allocated s j t) : (∃ state ticks wakeup code, t.tasks i =
      { s.tasks i with state := state, runtimeTicks := ticks, wakeupTick := wakeup, exitCode := code }) ∨
      ((s.tasks i).state = .unused ∧ t.nextPid = s.nextPid + 1 ∧ ∃ name ppid,
        t.tasks i = { freshTask (s.tasks i) s.nextPid name .runnable with ppid := ppid }) := by
    by_cases here : i = j
    · subst here
      exact Or.inr ⟨new.unused, new.nextPid, new.slot⟩
    · exact Or.inl (kept (new.elsewhere here))
  cases op with
  | createKernel name =>
      rcases taskCreateKernel_cases s name with ⟨same, -⟩ | ⟨j, -, new⟩
      · exact Or.inl (kept (by rw [taskStep, same]))
      · exact taken new
  | spawnUser name =>
      rcases taskSpawnUser_cases s name with ⟨same, -⟩ | ⟨j, -, new⟩
      · exact Or.inl (kept (by rw [taskStep, same]))
      · exact taken new
  | exit status => exact Or.inl (set s.currentIndex .zombie _ status)
  | kill pid status =>
      rw [taskStep, taskKill]
      left
      split
      · exact kept rfl
      · rename_i victim _
        split_ifs
        · exact kept rfl
        · exact set victim .zombie _ status
  | sleepUntil tick => exact Or.inl (set s.currentIndex .sleeping tick _)
  | tick now =>
      obtain ⟨state, ticks, same⟩ := tick_kept s now i
      exact Or.inl ⟨state, ticks, _, _, same⟩

/-- A slot that is taken gets the next pid. -/
theorem TaskInv.taken {s : TaskTable} (inv : TaskInv s) (op : TaskOp) {i : Fin maxTasks} (unused : (s.tasks i).state = .unused)
    (used : ((taskStep s op).tasks i).state ≠ .unused) :
    ∃ name ppid, (taskStep s op).tasks i = { freshTask (s.tasks i) s.nextPid name .runnable with ppid := ppid } := by
  -- only the two allocations write a slot that is not in use
  have other {j : Fin maxTasks} (busy : (s.tasks j).state ≠ .unused) (entry : Task) :
      ((s.setTask j entry).tasks i).state = .unused := by
    have different : i ≠ j := fun here => busy (here ▸ unused)
    rw [TaskTable.setTask_tasks, update_of_ne different, unused]
  have named {j : Fin maxTasks} {t : TaskTable} (new : Allocated s j t) (used : (t.tasks i).state ≠ .unused) :
      ∃ name ppid, t.tasks i = { freshTask (s.tasks i) s.nextPid name .runnable with ppid := ppid } := by
    by_cases here : i = j
    · subst here
      exact new.slot
    · exact absurd (by rw [new.elsewhere here, unused]) used
  cases op with
  | createKernel name =>
      rcases taskCreateKernel_cases s name with ⟨full, -⟩ | ⟨j, -, new⟩
      · exact absurd (by rw [taskStep, full, unused]) used
      · exact named new used
  | spawnUser name =>
      rcases taskSpawnUser_cases s name with ⟨full, -⟩ | ⟨j, -, new⟩
      · exact absurd (by rw [taskStep, full, unused]) used
      · exact named new used
  | exit status => exact absurd (other inv.current_used _) used
  | kill pid status =>
      rw [taskStep, taskKill] at used
      split at used
      · exact absurd unused used
      · split_ifs at used with dead
        · exact absurd unused used
        · exact absurd (other (fun free => dead (Or.inl free)) _) used
  | sleepUntil tick => exact absurd (other inv.current_used _) used
  | tick now =>
      have asleep : awakeState now (s.tasks i) = .unused := (awakeState_eq_unused now _).mpr unused
      exact absurd (by rw [taskStep, tick_state inv, asleep]; simp) used

/-- No operation on the task table touches a descriptor: `task_alloc` keeps those of the slot. -/
theorem taskStep_fds (s : TaskTable) (op : TaskOp) (i : Fin maxTasks) :
    ((taskStep s op).tasks i).fds = (s.tasks i).fds := by
  rcases taskStep_slot s op i with ⟨_, _, _, _, same⟩ | ⟨-, -, _, _, same⟩
  · rw [same]
  · rw [same]
    rfl

theorem taskStep_nextPid (s : TaskTable) (op : TaskOp) : s.nextPid ≤ (taskStep s op).nextPid := by
  cases op with
  | createKernel name =>
      rcases taskCreateKernel_cases s name with ⟨same, -⟩ | ⟨i, -, new⟩
      · rw [taskStep, same]
      · rw [taskStep, new.nextPid]
        omega
  | spawnUser name =>
      rcases taskSpawnUser_cases s name with ⟨same, -⟩ | ⟨i, -, new⟩
      · rw [taskStep, same]
      · rw [taskStep, new.nextPid]
        omega
  | exit status => exact le_rfl
  | kill pid status =>
      rw [taskStep, taskKill]
      split
      · exact le_rfl
      · split_ifs
        · exact le_rfl
        · exact le_rfl
  | sleepUntil tick => exact le_rfl
  | tick now => rw [taskStep, taskSchedulerTick, dispatch_nextPid, awake_nextPid]

/-! ## Runs -/

theorem bootTasks_tasks :
    bootTasks.tasks = update (fun _ => {}) 0 (freshTask {} 1 (ascii "bootstrap") .running) := by
  have first : (List.finRange maxTasks).find? (fun i => decide ((({} : TaskTable).tasks i).state = .unused)) = some 0 :=
    rfl
  unfold bootTasks taskInit taskAlloc
  rw [first]
  rfl

theorem bootTasks_used {i : Fin maxTasks} (used : (bootTasks.tasks i).state ≠ .unused) : i = 0 := by
  by_contra other
  exact used (by simp [bootTasks_tasks, other])

theorem TaskInv.boot : TaskInv bootTasks where
  current_used := by decide
  running_current i running := bootTasks_used (by simp [running])
  pid_lt i used := by
    rw [bootTasks_used used]
    decide
  pid_inj i j usedI usedJ _ := by rw [bootTasks_used usedI, bootTasks_used usedJ]

theorem TaskInv.step {s : TaskTable} (inv : TaskInv s) (op : TaskOp) : TaskInv (taskStep s op) := by
  cases op with
  | createKernel name =>
      rcases taskCreateKernel_cases s name with ⟨same, -⟩ | ⟨i, -, new⟩
      · rw [taskStep, same]
        exact inv
      · exact inv.allocated new
  | spawnUser name =>
      rcases taskSpawnUser_cases s name with ⟨same, -⟩ | ⟨i, -, new⟩
      · rw [taskStep, same]
        exact inv
      · exact inv.allocated new
  | exit status => exact inv.set _ _ rfl inv.current_used (by simp) (by simp)
  | kill pid status => exact inv.kill pid status
  | sleepUntil tick => exact inv.set _ _ rfl inv.current_used (by simp) (by simp)
  | tick now => exact inv.tick now

theorem TaskInv.run (ops : List TaskOp) : TaskInv (ops.foldl taskStep bootTasks) :=
  List.foldlRecOn ops taskStep TaskInv.boot fun _ inv op _ => inv.step op

theorem scheduler_invariant (ops : List TaskOp) :
    let s := ops.foldl taskStep bootTasks
    (∀ i, (s.tasks i).state = .running → i = s.currentIndex) ∧
    (∀ i j, (s.tasks i).state ≠ .unused → (s.tasks j).state ≠ .unused →
      (s.tasks i).pid = (s.tasks j).pid → i = j) ∧
    ∀ now, let t := taskSchedulerTick s now
      (∀ i, ¬((t.tasks i).state = .sleeping ∧ (t.tasks i).wakeupTick ≤ now)) ∧
      (∀ i, (s.tasks i).state = .sleeping → now < (s.tasks i).wakeupTick →
        (t.tasks i).state = .sleeping) ∧
      ((∃ i, (t.tasks i).state = .runnable ∨ (t.tasks i).state = .running) →
        (t.tasks t.currentIndex).state = .running) ∧
      ((t.tasks t.currentIndex).state = .running ∨ t.currentIndex ≠ s.currentIndex →
        (s.tasks t.currentIndex).state ≠ .zombie ∧ (s.tasks t.currentIndex).state ≠ .unused) := by
  intro s
  have inv : TaskInv s := TaskInv.run ops
  refine ⟨inv.running_current, inv.pid_inj, fun now => ?_⟩
  intro t
  have state : ∀ i, (t.tasks i).state = _ := tick_state inv now
  have current := tick_current inv now
  refine ⟨?_, ?_, ?_, ?_⟩
  · rintro i ⟨sleeping, due⟩
    rw [tick_wakeupTick] at due
    rw [state] at sleeping
    split_ifs at sleeping
    unfold awakeState at sleeping
    split_ifs at sleeping with running asleep
    exact asleep ⟨sleeping, due⟩
  · intro i sleeping early
    have asleep : awakeState now (s.tasks i) = .sleeping := by
      simp [awakeState, sleeping, UInt64.not_le.mpr early]
    rw [state, asleep]
    simp
  · rintro ⟨i, active⟩
    rcases current with runnable | ⟨-, idle⟩
    · rw [state, if_pos ⟨rfl, runnable⟩]
    · rw [state, if_neg (fun h => idle i h.2)] at active
      rcases active with runnable | running
      · exact absurd runnable (idle i)
      · exact absurd running (awakeState_ne_running now _)
  · intro selected
    rcases current with runnable | ⟨same, idle⟩
    · exact awakeState_runnable runnable
    · rw [state, if_neg (fun h => idle _ h.2)] at selected
      rcases selected with running | moved
      · exact absurd running (awakeState_ne_running now _)
      · exact absurd same moved

end Mgcore
