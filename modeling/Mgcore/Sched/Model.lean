import Mgcore.Task.Footprint

/-!
# The clock and the memory guard

`src/kernel/scheduler.c`, `safeboot_trigger` of `src/kernel/safeboot.c`, which does not return, and `sys_nanosleep` of
`src/syscall/syscall_impl.c`. The numbers of pages are what `pmm_total_pages` and `pmm_free_pages` answer at the tick.
What is printed is left out; the outcome of the guard says which message it is.
-/

namespace Mgcore

structure MemoryGuard where
  bootFreePages : UInt64 := 0
  prevFreePages : UInt64 := 0
  criticalStreak : UInt32 := 0
  deriving DecidableEq

inductive SafebootAction
  | reboot | shutdown
  deriving DecidableEq

structure Sched where
  tasks : TaskTable
  uptimeTicks : UInt64 := 0
  guard : MemoryGuard := {}
  safebootAction : SafebootAction := .reboot

def memguardInit (freePages : UInt64) : MemoryGuard :=
  { bootFreePages := freePages, prevFreePages := freePages, criticalStreak := 0 }

def schedulerInit (s : Sched) (freePages : UInt64) : Sched := { s with uptimeTicks := 0, guard := memguardInit freePages }

/-! ## The guard -/

def minDropPages : UInt64 := 256
def minStreak : UInt32 := 5

inductive GuardOutcome
  | quiet
  | observing
  | withoutSuspect
  | safeboot (suspect : Int)
  deriving DecidableEq

def memoryGuardTick (g : MemoryGuard) (tasks : TaskTable) (total free : UInt64) : GuardOutcome × MemoryGuard :=
  if total = 0 then (.quiet, g)
  else if free * 100 > total * 5 ∧ free > 128 then (.quiet, { g with criticalStreak := 0, prevFreePages := free })
  else
    let streak := g.criticalStreak + 1
    let leakSignature := g.bootFreePages > free + minDropPages ∨ g.prevFreePages > free
    let g := { g with criticalStreak := streak, prevFreePages := free }
    if ¬leakSignature ∨ streak < minStreak then (if streak % minStreak = 0 then .observing else .quiet, g)
    else
      let suspect := taskFindLikelyMemoryLeaker tasks
      (if suspect > 0 then .safeboot suspect else .withoutSuspect, g)

/-- The task table when the machine stops, and whether it halts or reboots. -/
structure Stopped where
  tasks : TaskTable
  halted : Bool

def safebootTrigger (s : Sched) (suspectPid : Int) : Stopped :=
  { tasks := if suspectPid > 1 then (taskKill s.tasks suspectPid 137).2 else s.tasks
    halted := s.safebootAction = .shutdown }

/-! ## The clock -/

def schedulerTick (s : Sched) (total free : UInt64) : Except Stopped Sched :=
  let now := s.uptimeTicks + 1
  let s := { s with uptimeTicks := now, tasks := taskSchedulerTick s.tasks now }
  if now % hz = 0 then
    match memoryGuardTick s.guard s.tasks total free with
    | (.safeboot suspect, _) => .error (safebootTrigger s suspect)
    | (_, guard) => .ok { s with guard := guard }
  else .ok s

structure Timespec where
  tvSec : Int
  tvNsec : Int

/-- `sleep_ticks`; `none` is a `NULL` request. -/
def sleepTicks : Option Timespec → UInt64
  | none => 1
  | some ts =>
      let ticks := UInt64.ofInt (ts.tvSec * hz.toNat) + UInt64.ofInt (ts.tvNsec.tdiv (1000000000 / hz.toNat))
      if ticks = 0 then 1 else ticks

def sysNanosleep (s : Sched) (request : Option Timespec) : Int × Sched :=
  (0, { s with tasks := taskSleepUntil s.tasks (s.uptimeTicks + sleepTicks request) })

/-! ## Runs -/

/-- A call that neither counts a tick nor puts a task to sleep. -/
def Untimed : TaskCall → Prop
  | .task (.tick _) => False
  | .task (.sleepUntil _) => False
  | _ => True

inductive SchedOp
  | tick (total free : UInt64)
  | nanosleep (request : Option Timespec)
  | call (c : TaskCall) (untimed : Untimed c)

def schedStep (s : Sched) : SchedOp → Option Sched
  | .tick total free => (schedulerTick s total free).toOption
  | .nanosleep request => some (sysNanosleep s request).2
  | .call c _ => some { s with tasks := taskCallStep s.tasks c }

end Mgcore
