import Mgcore.Task.Calls
import Mgcore.Task.Reporting

/-!
# Finding terminated children

The loop of `sys_wait4` runs over the pids below `MGCORE_MAX_TASKS`. Pids count from 1, so a full table has one task
whose pid the loop does not reach, and a child that terminates in it is found only if another one is.
-/

namespace Mgcore

def TerminatedChild (s : TaskTable) (i : Fin maxTasks) : Prop :=
  (s.tasks i).state = .zombie ∧ (s.tasks i).ppid = (taskCurrent s).pid

structure FindsChildren (s : TaskTable) (hasStatus : Bool) : Prop where
  none : (sysWait4 s hasStatus).1 = -eCHILD → ∀ i, ¬TerminatedChild s i
  found : (sysWait4 s hasStatus).1 ≠ -eCHILD → ∃ i, TerminatedChild s i ∧
    sysWait4 s hasStatus =
      ((s.tasks i).pid, if hasStatus then some (toInt ((s.tasks i).exitCode * 2 ^ 8)) else Option.none)

/-- `sys_wait4` finds a terminated child exactly when there is none or one of them has a pid below 32. -/
theorem wait4_finds_children_iff (calls : List TaskCall) (hasStatus : Bool) :
    let s := calls.foldl taskCallStep bootTasks
    FindsChildren s hasStatus ↔
      ((∃ i, TerminatedChild s i) → ∃ i, TerminatedChild s i ∧ (s.tasks i).pid < 32) := by
  intro s
  have inv : TableInv s := TableInv.run calls
  constructor
  · intro finds child
    obtain ⟨i, terminated, value⟩ := finds.found fun none => child.elim (finds.none none)
    refine ⟨i, terminated, ?_⟩
    rcases sysWait4_cases inv.tasks hasStatus with ⟨-, none⟩ | ⟨j, -, -, range, -, other⟩
    · exact absurd terminated (finds.none none i)
    · have same : (s.tasks i).pid = (s.tasks j).pid := congrArg Prod.fst (value.symm.trans other)
      rw [same]
      exact range.2
  · intro reaches
    rcases sysWait4_cases inv.tasks hasStatus with ⟨missed, none⟩ | ⟨j, zombie, parent, range, -, value⟩
    · have childless : ¬∃ i, TerminatedChild s i := by
        intro child
        obtain ⟨i, ⟨zombie, parent⟩, low⟩ := reaches child
        exact missed ⟨i, zombie, parent, inv.pids i (by simp [zombie]), low⟩
      exact ⟨fun _ i child => childless ⟨i, child⟩, fun found => absurd none found⟩
    · refine ⟨fun none => ?_, fun _ => ⟨j, ⟨zombie, parent⟩, value⟩⟩
      rw [value] at none
      have error : (s.tasks j).pid = -10 := none
      omega

-- Every slot is taken, and the task in the last one is killed.
def lastChildKilled : List TaskCall :=
  List.replicate 31 (.task (.spawnUser (ascii "child"))) ++ [.task (.kill 32 9)]

theorem last_child_not_found : ¬FindsChildren (lastChildKilled.foldl taskCallStep bootTasks) true := by
  intro finds
  have missed : (sysWait4 (lastChildKilled.foldl taskCallStep bootTasks) true).1 = -eCHILD := by decide +kernel
  have child : TerminatedChild (lastChildKilled.foldl taskCallStep bootTasks) 31 :=
    ⟨by decide +kernel, by decide +kernel⟩
  exact finds.none missed 31 child

end Mgcore
