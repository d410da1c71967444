import Mgcore.Lib.Run
import Mgcore.Task.Invariant

/-!
# Termination

`task_exit` and `task_sleep_until` write the state of the current slot without looking at it, and a zombie
can be current: until the next tick, or for as long as nothing is runnable. `task_kill` does look. So a
terminated task stays terminated in exactly the runs in which neither of the two is called on behalf of a zombie
(`task_exit` with the status it already has changes nothing).
-/

namespace Mgcore
open Function

def ZombiesKept (s t : TaskTable) : Prop :=
  ∀ i, (s.tasks i).state = .zombie → (t.tasks i).state = .zombie ∧ (t.tasks i).exitCode = (s.tasks i).exitCode

def SparesZombie (s : TaskTable) : TaskOp → Prop
  | .exit status => (taskCurrent s).state ≠ .zombie ∨ (taskCurrent s).exitCode = status
  | .sleepUntil _ => (taskCurrent s).state ≠ .zombie
  | _ => True

theorem ZombiesKept.refl (s : TaskTable) : ZombiesKept s s := fun _ zombie => ⟨zombie, rfl⟩

theorem ZombiesKept.trans {s t u : TaskTable} (first : ZombiesKept s t) (second : ZombiesKept t u) :
    ZombiesKept s u := by
  intro i zombie
  obtain ⟨later, code⟩ := first i zombie
  obtain ⟨last, same⟩ := second i later
  exact ⟨last, same.trans code⟩

theorem ZombiesKept.setTask {s : TaskTable} {i : Fin maxTasks} {t : Task} (alive : (s.tasks i).state ≠ .zombie) :
    ZombiesKept s (s.setTask i t) := by
  intro j zombie
  have other : j ≠ i := fun same => alive (same ▸ zombie)
  rw [TaskTable.setTask_tasks, update_of_ne other]
  exact ⟨zombie, rfl⟩

theorem ZombiesKept.allocated {s t : TaskTable} {i : Fin maxTasks} (new : Allocated s i t) : ZombiesKept s t := by
  intro j zombie
  rw [new.other (by simp [zombie])]
  exact ⟨zombie, rfl⟩

theorem ZombiesKept.kill (s : TaskTable) (pid status : Int) : ZombiesKept s (taskKill s pid status).2 := by
  unfold taskKill
  split
  · exact .refl s
  · rename_i victim found
    split_ifs with dead
    · exact .refl s
    · exact .setTask fun zombie => dead (Or.inr zombie)

theorem ZombiesKept.tick {s : TaskTable} (inv : TaskInv s) (now : UInt64) :
    ZombiesKept s (taskSchedulerTick s now) := by
  intro i zombie
  have asleep : awakeState now (s.tasks i) = .zombie := by simp [awakeState, zombie]
  obtain ⟨state, ticks, kept⟩ := tick_kept s now i
  refine ⟨?_, by rw [kept]⟩
  rw [tick_state inv, asleep]
  simp

theorem zombiesKept_step_iff {s : TaskTable} (inv : TaskInv s) (op : TaskOp) :
    ZombiesKept s (taskStep s op) ↔ SparesZombie s op := by
  cases op with
  | createKernel name =>
      refine iff_of_true ?_ trivial
      rcases taskCreateKernel_cases s name with ⟨same, -⟩ | ⟨i, -, new⟩
      · rw [taskStep, same]
        exact .refl s
      · exact .allocated new
  | spawnUser name =>
      refine iff_of_true ?_ trivial
      rcases taskSpawnUser_cases s name with ⟨same, -⟩ | ⟨i, -, new⟩
      · rw [taskStep, same]
        exact .refl s
      · exact .allocated new
  | kill pid status => exact iff_of_true (.kill s pid status) trivial
  | tick now => exact iff_of_true (.tick inv now) trivial
  | exit status =>
      by_cases zombie : (taskCurrent s).state = .zombie
      · constructor
        · intro kept
          have code := (kept s.currentIndex zombie).2
          simp only [taskStep, taskExit, TaskTable.setTask_tasks, update_self] at code
          exact Or.inr code.symm
        · rintro (alive | code)
          · exact absurd zombie alive
          · have same : taskStep s (.exit status) = s := by
              simp [taskStep, taskExit, TaskTable.setTask, ← zombie, ← code, taskCurrent]
            rw [same]
            exact .refl s
      · exact iff_of_true (.setTask zombie) (Or.inl zombie)
  | sleepUntil tick =>
      by_cases zombie : (taskCurrent s).state = .zombie
      · refine iff_of_false (fun kept => ?_) (fun alive => alive zombie)
        have state := (kept s.currentIndex zombie).1
        simp [taskStep, taskSleepUntil] at state
      · exact iff_of_true (.setTask zombie) zombie

/-- In a run, a task that is a zombie at one point is one with the same exit code at every later point. -/
theorem termination_final_iff (ops : List TaskOp) :
    (∀ earlier later, earlier ++ later <+: ops → ∀ i,
      ((earlier.foldl taskStep bootTasks).tasks i).state = .zombie →
      (((earlier ++ later).foldl taskStep bootTasks).tasks i).state = .zombie ∧
      (((earlier ++ later).foldl taskStep bootTasks).tasks i).exitCode =
        ((earlier.foldl taskStep bootTasks).tasks i).exitCode) ↔
      Lib.Along (fun s op => some (taskStep s op)) SparesZombie bootTasks ops :=
  Lib.related_prefixes_iff ZombiesKept.refl (fun _ _ _ => ZombiesKept.trans) (fun _ op inv => TaskInv.step inv op)
    (fun _ op inv => zombiesKept_step_iff inv op) TaskInv.boot ops

theorem zombie_runs_again :
    ((([TaskOp.exit 7].foldl taskStep bootTasks).tasks 0).state = .zombie) ∧
    (([TaskOp.exit 7, .sleepUntil 5, .tick 5].foldl taskStep bootTasks).tasks 0).state = .running ∧
    ¬∀ ops earlier later, earlier ++ later <+: ops → ∀ i,
      ((earlier.foldl taskStep bootTasks).tasks i).state = .zombie →
      (((earlier ++ later).foldl taskStep bootTasks).tasks i).state = .zombie ∧
      (((earlier ++ later).foldl taskStep bootTasks).tasks i).exitCode =
        ((earlier.foldl taskStep bootTasks).tasks i).exitCode := by
  refine ⟨by decide +kernel, by decide +kernel, fun final => ?_⟩
  have kept := final [.exit 7, .sleepUntil 5, .tick 5] [.exit 7] [.sleepUntil 5, .tick 5] List.prefix_rfl 0
    (by decide +kernel)
  exact absurd kept.1 (by decide +kernel)

end Mgcore
