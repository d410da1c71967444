import Mgcore.Lib.Run
import Mgcore.Task.Invariant
import Mgcore.Task.Syscalls

/-!
# Reporting of children

`sys_wait4` returns a zombie child and leaves the table as it is: no operation makes a slot `TASK_UNUSED`
again. So a report is never followed by the release of the slot, and reporting is as it should be exactly in the runs in
which no `sys_wait4` call finds a child to report.
-/

namespace Mgcore

inductive ProcOp
  | fork
  | exit (status : UInt64)
  | kill (pid status : Int)
  | tick (now : UInt64)
  | wait4 (hasStatus : Bool)

/-- `reported` records the pids that `sys_wait4` has returned. -/
structure Reporting where
  tasks : TaskTable
  reported : List Int := []

def reportingStep (g : Reporting) : ProcOp → Reporting
  | .fork => { g with tasks := (sysFork g.tasks).2 }
  | .exit status => { g with tasks := (sysExit g.tasks status).2 }
  | .kill pid status => { g with tasks := (taskKill g.tasks pid status).2 }
  | .tick now => { g with tasks := taskSchedulerTick g.tasks now }
  | .wait4 hasStatus =>
      let value := (sysWait4 g.tasks hasStatus).1
      if value = -eCHILD then g else { g with reported := value :: g.reported }

/-- The slots of tasks that are alive, or terminated and not yet waited for. -/
def pendingSlots (g : Reporting) : List (Fin maxTasks) :=
  (List.finRange maxTasks).filter fun i => (g.tasks.tasks i).state ≠ .unused ∧ (g.tasks.tasks i).pid ∉ g.reported

structure ReportedOnce (g : Reporting) : Prop where
  once : g.reported.Nodup
  released : ∀ pid ∈ g.reported, taskFind g.tasks pid = none
  room : (pendingSlots g).length < maxTasks → (sysFork g.tasks).1 ≠ -eNOMEM

/-- A child that the loop of `sys_wait4` would find. -/
def ReportsChild (s : TaskTable) : Prop :=
  ∃ i, (s.tasks i).state = .zombie ∧ (s.tasks i).ppid = (taskCurrent s).pid ∧
    1 ≤ (s.tasks i).pid ∧ (s.tasks i).pid < maxTasks

def ReportFree (s : TaskTable) : ProcOp → Prop
  | .wait4 _ => ¬ReportsChild s
  | _ => True

/-! ## Single calls -/

theorem taskFind_some {s : TaskTable} {pid : Int} {i : Fin maxTasks} (found : taskFind s pid = some i) :
    (s.tasks i).state ≠ .unused ∧ (s.tasks i).pid = pid := by
  have test := List.find?_some found
  simpa using test

theorem TaskInv.find {s : TaskTable} (inv : TaskInv s) {i : Fin maxTasks} (used : (s.tasks i).state ≠ .unused) :
    taskFind s (s.tasks i).pid = some i := by
  cases found : taskFind s (s.tasks i).pid with
  | none =>
      have missed := List.find?_eq_none.mp found i (List.mem_finRange i)
      simp [used] at missed
  | some j =>
      obtain ⟨usedJ, same⟩ := taskFind_some found
      rw [inv.pid_inj j i usedJ used same]

theorem waitCandidate_some {s : TaskTable} {pid : Nat} {child : Task} (found : waitCandidate s pid = some child) :
    ∃ i, taskFind s pid = some i ∧ child = s.tasks i ∧ child.pid = pid ∧ child.ppid = (taskCurrent s).pid ∧
      child.state = .zombie := by
  unfold waitCandidate at found
  split at found
  · cases found
  · rename_i i located
    split_ifs at found with isChild
    cases found
    exact ⟨i, located, rfl, (taskFind_some located).2, isChild.1, isChild.2⟩

theorem sysWait4_cases {s : TaskTable} (inv : TaskInv s) (hasStatus : Bool) :
    (¬ReportsChild s ∧ (sysWait4 s hasStatus).1 = -eCHILD) ∨
    ∃ i, (s.tasks i).state = .zombie ∧ (s.tasks i).ppid = (taskCurrent s).pid ∧
      (1 ≤ (s.tasks i).pid ∧ (s.tasks i).pid < maxTasks) ∧ taskFind s (s.tasks i).pid = some i ∧
      sysWait4 s hasStatus =
        ((s.tasks i).pid, if hasStatus then some (toInt ((s.tasks i).exitCode * 2 ^ 8)) else none) := by
  unfold sysWait4
  cases found : (List.range' 1 (maxTasks - 1)).findSome? (waitCandidate s) with
  | some child =>
      obtain ⟨pid, member, candidate⟩ := List.exists_of_findSome?_eq_some found
      obtain ⟨i, located, rfl, same, parent, zombie⟩ := waitCandidate_some candidate
      have range : 1 ≤ pid ∧ pid < 1 + 31 := List.mem_range'_1.mp member
      refine Or.inr ⟨i, zombie, parent, ?_, by rw [same]; exact located, rfl⟩
      show 1 ≤ (s.tasks i).pid ∧ (s.tasks i).pid < 32
      omega
  | none =>
      refine Or.inl ⟨?_, rfl⟩
      rintro ⟨i, zombie, parent, low, high⟩
      have nonneg : (((s.tasks i).pid.toNat : Nat) : Int) = (s.tasks i).pid := Int.toNat_of_nonneg (by omega)
      have inside : (s.tasks i).pid.toNat ∈ List.range' 1 (maxTasks - 1) := by
        apply List.mem_range'_1.mpr
        have bound : (s.tasks i).pid < 32 := high
        show 1 ≤ (s.tasks i).pid.toNat ∧ (s.tasks i).pid.toNat < 1 + 31
        omega
      have missed := List.findSome?_eq_none_iff.mp found _ inside
      rw [waitCandidate, nonneg, inv.find (by simp [zombie])] at missed
      simp [parent, zombie] at missed

theorem reportingStep_tasks (g : Reporting) (op : ProcOp) :
    (reportingStep g op).tasks = g.tasks ∨ ∃ task, (reportingStep g op).tasks = taskStep g.tasks task := by
  cases op with
  | fork =>
      refine Or.inr ⟨.spawnUser (taskCurrent g.tasks).name, ?_⟩
      simp only [reportingStep, sysFork, taskStep]
      split <;> rename_i same <;> rw [same]
  | exit status => exact Or.inr ⟨.exit (toInt status.toNat), rfl⟩
  | kill pid status => exact Or.inr ⟨.kill pid status, rfl⟩
  | tick now => exact Or.inr ⟨.tick now, rfl⟩
  | wait4 hasStatus =>
      left
      simp only [reportingStep]
      split <;> rfl

/-! ## Runs -/

structure ReportInv (g : Reporting) : Prop where
  tasks : TaskInv g.tasks
  pids : 0 < g.tasks.nextPid
  unreported : g.reported = []

theorem ReportInv.boot : ReportInv { tasks := bootTasks } := ⟨.boot, by decide, rfl⟩

theorem ReportInv.once {g : Reporting} (inv : ReportInv g) : ReportedOnce g := by
  refine ⟨by simp [inv.unreported], by simp [inv.unreported], fun room => ?_⟩
  have free : ∃ i, (g.tasks.tasks i).state = .unused := by
    by_contra full
    have all : pendingSlots g = List.finRange maxTasks := by
      apply List.filter_eq_self.mpr
      intro i _
      simpa [inv.unreported] using fun unused => full ⟨i, unused⟩
    rw [all, List.length_finRange] at room
    exact lt_irrefl _ room
  obtain ⟨i, unused⟩ := free
  rcases taskSpawnUser_cases g.tasks (taskCurrent g.tasks).name with ⟨-, full⟩ | ⟨child, found, new⟩
  · exact absurd unused (full i)
  · have pid := new.pid
    unfold sysFork
    generalize taskSpawnUser g.tasks (taskCurrent g.tasks).name = result at *
    obtain ⟨slot, t⟩ := result
    simp only at found pid
    subst found
    have positive := inv.pids
    show (t.tasks child).pid ≠ -12
    omega

theorem ReportInv.step {g : Reporting} (inv : ReportInv g) {op : ProcOp} (free : ReportFree g.tasks op) :
    ReportInv (reportingStep g op) := by
  have reported : (reportingStep g op).reported = [] := by
    cases op with
    | wait4 hasStatus =>
        rcases sysWait4_cases inv.tasks hasStatus with ⟨-, none⟩ | ⟨i, zombie, parent, range, -, -⟩
        · simp only [reportingStep, none, if_true, inv.unreported]
        · exact absurd ⟨i, zombie, parent, range⟩ free
    | _ => exact inv.unreported
  rcases reportingStep_tasks g op with same | ⟨task, steps⟩
  · exact ⟨by rw [same]; exact inv.tasks, by rw [same]; exact inv.pids, reported⟩
  · have grows := taskStep_nextPid g.tasks task
    have positive := inv.pids
    exact ⟨by rw [steps]; exact inv.tasks.step task, by rw [steps]; omega, reported⟩

theorem ReportInv.broken {g : Reporting} (inv : ReportInv g) {op : ProcOp} (reports : ¬ReportFree g.tasks op) :
    ¬ReportedOnce (reportingStep g op) := by
  intro kept
  cases op with
  | wait4 hasStatus =>
      rcases sysWait4_cases inv.tasks hasStatus with ⟨none, -⟩ | ⟨i, -, -, range, located, value⟩
      · exact reports none
      · have found : (g.tasks.tasks i).pid ≠ -eCHILD := by
          show (g.tasks.tasks i).pid ≠ -10
          omega
        have after : reportingStep g (.wait4 hasStatus) = { g with reported := [(g.tasks.tasks i).pid] } := by
          simp only [reportingStep, value, found, if_false, inv.unreported]
        have released := kept.released (g.tasks.tasks i).pid (by simp [after])
        rw [after, located] at released
        cases released
  | _ => exact reports trivial

theorem child_reporting_iff (ops : List ProcOp) :
    (∀ before, before <+: ops → ReportedOnce (before.foldl reportingStep { tasks := bootTasks })) ↔
      Lib.Along (fun g op => some (reportingStep g op)) (fun g op => ReportFree g.tasks op) { tasks := bootTasks } ops := by
  have once : ∀ g : Reporting, ReportInv g → ReportedOnce g := fun _ inv => inv.once
  exact Lib.foldl_prefixes_iff once (fun _ _ inv _ free => inv.step free)
    (fun _ _ inv _ reports => inv.broken reports) (Lib.along_true _ ops) ReportInv.boot

theorem child_reported_twice :
    ([ProcOp.fork, .kill 2 9, .wait4 true, .wait4 true].foldl reportingStep { tasks := bootTasks }).reported = [2, 2] ∧
    ¬∀ ops : List ProcOp, ReportedOnce (ops.foldl reportingStep { tasks := bootTasks }) := by
  have twice : ([ProcOp.fork, .kill 2 9, .wait4 true, .wait4 true].foldl reportingStep
      { tasks := bootTasks }).reported = [2, 2] := by decide +kernel
  refine ⟨twice, fun always => ?_⟩
  have once := (always [.fork, .kill 2 9, .wait4 true, .wait4 true]).once
  rw [twice] at once
  exact absurd once (by decide)

end Mgcore
