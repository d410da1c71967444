import Mathlib.Data.List.FinRange
import Mgcore.Base

/-!
# The task table

`src/kernel/task.c`: a table of 32 slots, the index of the current one and a pid counter. A slot is
taken once and never becomes `TASK_UNUSED` again.
-/

namespace Mgcore

abbrev maxTasks : Nat := 32  -- `MGCORE_MAX_TASKS`

instance : NeZero maxTasks := ⟨Nat.succ_ne_zero 31⟩

def taskNameMax : Nat := 31  -- `sizeof(entry->name) - 1`, the longest task name

inductive TaskState
  | unused | runnable | running | sleeping | zombie
  deriving DecidableEq, Repr

structure AddressSpace where
  brkBase : Nat := 0
  brkCurrent : Nat := 0
  nextMmapBase : Nat := 0
  deriving DecidableEq

/-- `struct task`. A descriptor slot holds the index of its entry in `g_open_files`; strings are the
bytes before the terminating NUL. The defaults are the zeros of `kmemset`. -/
structure Task where
  pid : Int := 0
  ppid : Int := 0
  state : TaskState := .unused
  name : List UInt8 := []
  runtimeTicks : UInt64 := 0
  wakeupTick : UInt64 := 0
  exitCode : Int := 0
  mm : AddressSpace := {}
  fds : Nat → Option Nat := fun _ => none
  cwd : List UInt8 := []

structure TaskTable where
  tasks : Fin maxTasks → Task := fun _ => {}
  nextPid : Int := 1
  currentIndex : Fin maxTasks := 0
  taskCount : Int := 0

namespace TaskTable

def setTask (s : TaskTable) (i : Fin maxTasks) (t : Task) : TaskTable :=
  { s with tasks := Function.update s.tasks i t }

@[simp] theorem setTask_tasks (s : TaskTable) (i : Fin maxTasks) (t : Task) :
    (s.setTask i t).tasks = Function.update s.tasks i t := rfl
@[simp] theorem setTask_nextPid (s : TaskTable) (i : Fin maxTasks) (t : Task) :
    (s.setTask i t).nextPid = s.nextPid := rfl
@[simp] theorem setTask_currentIndex (s : TaskTable) (i : Fin maxTasks) (t : Task) :
    (s.setTask i t).currentIndex = s.currentIndex := rfl

end TaskTable

def vmmAddressSpaceInit : AddressSpace :=
  { brkBase := 0x800000, brkCurrent := 0x800000, nextMmapBase := 0x20000000 }

/-- The entry `task_alloc` fills in; its descriptors are left as they were. -/
def freshTask (old : Task) (pid : Int) (name : List UInt8) (state : TaskState) : Task :=
  { old with
    pid := pid, ppid := 0, state := state, runtimeTicks := 0, wakeupTick := 0, exitCode := 0,
    name := name.take taskNameMax, cwd := ascii "/", mm := vmmAddressSpaceInit }

def taskAlloc (s : TaskTable) (name : List UInt8) (state : TaskState) :
    Option (Fin maxTasks) × TaskTable :=
  match (List.finRange maxTasks).find? fun i => (s.tasks i).state = .unused with
  | none => (none, s)
  | some i =>
      (some i, { s.setTask i (freshTask (s.tasks i) s.nextPid name state) with
        nextPid := s.nextPid + 1, taskCount := s.taskCount + 1 })

def taskInit (s : TaskTable) : TaskTable :=
  (taskAlloc { s with tasks := fun _ => {}, currentIndex := 0, taskCount := 0 }
    (ascii "bootstrap") .running).2

def taskCurrent (s : TaskTable) : Task := s.tasks s.currentIndex

def taskCreateKernel (s : TaskTable) (name : List UInt8) : Option (Fin maxTasks) × TaskTable :=
  taskAlloc s name .runnable

def taskSpawnUser (s : TaskTable) (name : List UInt8) : Option (Fin maxTasks) × TaskTable :=
  match taskAlloc s name .runnable with
  | (none, t) => (none, t)
  | (some child, t) =>
      (some child, t.setTask child { t.tasks child with ppid := (taskCurrent t).pid })

def taskFind (s : TaskTable) (pid : Int) : Option (Fin maxTasks) :=
  (List.finRange maxTasks).find? fun i => (s.tasks i).state ≠ .unused ∧ (s.tasks i).pid = pid

def taskExit (s : TaskTable) (status : Int) : TaskTable :=
  s.setTask s.currentIndex { taskCurrent s with state := .zombie, exitCode := status }

def taskKill (s : TaskTable) (pid status : Int) : Int × TaskTable :=
  match taskFind s pid with
  | none => (0, s)
  | some victim =>
      if (s.tasks victim).state = .unused ∨ (s.tasks victim).state = .zombie then (0, s)
      else (1, s.setTask victim { s.tasks victim with state := .zombie, exitCode := status })

def taskSleepUntil (s : TaskTable) (tick : UInt64) : TaskTable :=
  s.setTask s.currentIndex { taskCurrent s with state := .sleeping, wakeupTick := tick }

/-! The blocks of `task_scheduler_tick`: demotion, wake-up, selection and dispatch. -/

def demoteCurrent (s : TaskTable) : TaskTable :=
  if (taskCurrent s).state = .running then
    s.setTask s.currentIndex
      { taskCurrent s with runtimeTicks := (taskCurrent s).runtimeTicks + 1, state := .runnable }
  else s

def wakeTask (now : UInt64) (t : Task) : Task :=
  if t.state = .sleeping ∧ t.wakeupTick ≤ now then { t with state := .runnable } else t

/-- The slots the selection loop visits, in its order; the current one is the last. -/
def candidates (current : Fin maxTasks) : List (Fin maxTasks) :=
  (List.finRange maxTasks).map fun i =>
    ⟨(current.val + 1 + i.val) % maxTasks, Nat.mod_lt _ (by decide)⟩

def selectNext (s : TaskTable) : Fin maxTasks :=
  ((candidates s.currentIndex).find? fun c => (s.tasks c).state = .runnable).getD s.currentIndex

def dispatch (s : TaskTable) (next : Fin maxTasks) : TaskTable :=
  let t := { s with currentIndex := next }
  if (t.tasks next).state = .runnable then
    t.setTask next { t.tasks next with state := .running }
  else t

def awake (s : TaskTable) (now : UInt64) : TaskTable :=
  { demoteCurrent s with tasks := fun i => wakeTask now ((demoteCurrent s).tasks i) }

def taskSchedulerTick (s : TaskTable) (now : UInt64) : TaskTable :=
  dispatch (awake s now) (selectNext (awake s now))

end Mgcore
