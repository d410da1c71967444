import Mgcore.Lib.Bits
import Mgcore.Task.Model

/-!
# System calls on tasks and address spaces

`sys_mmap`, `sys_brk`, `sys_fork`, `sys_exit` and `sys_wait4` of `src/syscall/syscall_impl.c` and
`vmm_reserve_range` of `src/kernel/vmm.c`. Arguments that the source casts to `void` are left out.
-/

namespace Mgcore

def pageSize : UInt64 := 4096  -- `MGCORE_PAGE_SIZE`
def userLimit : Nat := 0x00007FFFFFFF0000  -- `MGCORE_USER_LIMIT`

def alignedLength (length : UInt64) : UInt64 := (length + pageSize - 1) &&& ~~~(pageSize - 1)

def vmmReserveRange (space : AddressSpace) (length : UInt64) : Nat × AddressSpace :=
  if alignedLength length = 0 then (0, space)
  else
    (space.nextMmapBase,
      { space with
        nextMmapBase := (space.nextMmapBase + (alignedLength length).toNat + pageSize.toNat) % wordSize })

def setMm (s : TaskTable) (mm : AddressSpace) : TaskTable :=
  s.setTask s.currentIndex { taskCurrent s with mm := mm }

def sysMmap (s : TaskTable) (length : UInt64) : Int × TaskTable :=
  let (region, mm) := vmmReserveRange (taskCurrent s).mm length
  (if region ≠ 0 then toSigned region else -eNOMEM, setMm s mm)

def sysBrk (s : TaskTable) (address : UInt64) : Int × TaskTable :=
  let mm := (taskCurrent s).mm
  if address = 0 then (toSigned mm.brkCurrent, s)
  else if address.toNat < mm.brkBase then (toSigned mm.brkCurrent, s)
  else (toSigned address.toNat, setMm s { mm with brkCurrent := address.toNat })

def sysFork (s : TaskTable) : Int × TaskTable :=
  match taskSpawnUser s (taskCurrent s).name with
  | (some child, t) => ((t.tasks child).pid, t)
  | (none, t) => (-eNOMEM, t)

def sysExit (s : TaskTable) (status : UInt64) : Int × TaskTable := (0, taskExit s (toInt status.toNat))

/-- The test of the loop in `sys_wait4` for one pid. -/
def waitCandidate (s : TaskTable) (pid : Nat) : Option Task :=
  match taskFind s pid with
  | none => none
  | some i =>
      if (s.tasks i).ppid = (taskCurrent s).pid ∧ (s.tasks i).state = .zombie then some (s.tasks i) else none

/-- The result, and what is stored through `status_ptr` when it is not NULL. -/
def sysWait4 (s : TaskTable) (hasStatus : Bool) : Int × Option Int :=
  match (List.range' 1 (maxTasks - 1)).findSome? (waitCandidate s) with
  | some child => (child.pid, if hasStatus then some (toInt (child.exitCode * 2 ^ 8)) else none)
  | none => (-eCHILD, none)

/-! ## The address space of the current task -/

@[simp] theorem setMm_mm (s : TaskTable) (mm : AddressSpace) : (taskCurrent (setMm s mm)).mm = mm := by
  simp [setMm, taskCurrent]

theorem alignedLength_toNat (length : UInt64) :
    (alignedLength length).toNat = (length.toNat + 4095) % 2 ^ 64 / 4096 * 4096 := by
  have mask : (~~~(pageSize - 1)).toNat = (2 ^ 52 - 1) <<< 12 := by decide
  have sum : (length + pageSize - 1).toNat = (length.toNat + 4095) % 2 ^ 64 := by
    have same : length + pageSize - 1 = length + 4095 := by
      unfold pageSize
      grind
    rw [same, UInt64.toNat_add]
    rfl
  rw [alignedLength, UInt64.toNat_and, mask, sum, Lib.and_shiftLeft_mask]
  omega

theorem alignedLength_cases (length : UInt64) :
    alignedLength length = 0 ∨
    (0 < length.toNat ∧ length.toNat ≤ (alignedLength length).toNat ∧
      (alignedLength length).toNat < length.toNat + 4096 ∧ (alignedLength length).toNat % 4096 = 0) := by
  have value := alignedLength_toNat length
  have bound := length.toNat_lt
  by_cases zero : (alignedLength length).toNat = 0
  · exact Or.inl (UInt64.toNat_inj.mp zero)
  · right
    omega

end Mgcore
