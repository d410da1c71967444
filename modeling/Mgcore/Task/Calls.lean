import Mgcore.Task.Invariant
import Mgcore.Task.Syscalls

/-!
# Reachable task tables

The operations of `task.c` together with the system calls that move the two cursors of an address space. In every
table they lead to from boot, pids are positive and the cursors are words.
-/

namespace Mgcore
open Function

inductive TaskCall
  | task (op : TaskOp)
  | brk (address : UInt64)
  | mmap (length : UInt64)

def taskCallStep (s : TaskTable) : TaskCall → TaskTable
  | .task op => taskStep s op
  | .brk address => (sysBrk s address).2
  | .mmap length => (sysMmap s length).2

theorem sysBrk_cases (s : TaskTable) (address : UInt64) :
    (sysBrk s address).2 = s ∨ (sysBrk s address).2 = setMm s { (taskCurrent s).mm with brkCurrent := address.toNat } := by
  unfold sysBrk
  dsimp only
  split_ifs
  · exact Or.inl rfl
  · exact Or.inl rfl
  · exact Or.inr rfl

theorem sysMmap_cases (s : TaskTable) (length : UInt64) : ∃ next, (next = (taskCurrent s).mm.nextMmapBase ∨ next < wordSize) ∧
    (sysMmap s length).2 = setMm s { (taskCurrent s).mm with nextMmapBase := next } := by
  unfold sysMmap vmmReserveRange
  split_ifs
  · exact ⟨_, Or.inl rfl, rfl⟩
  · exact ⟨_, Or.inr (Nat.mod_lt _ (by decide)), rfl⟩

theorem setMm_tasks (s : TaskTable) (mm : AddressSpace) (i : Fin maxTasks) :
    (setMm s mm).tasks i = if i = s.currentIndex then { s.tasks i with mm := mm } else s.tasks i := by
  rw [setMm, TaskTable.setTask_tasks]
  split_ifs with current
  · rw [current, update_self]
    rfl
  · rw [update_of_ne current]

theorem setMm_kept (s : TaskTable) (mm : AddressSpace) (i : Fin maxTasks) :
    ∃ mm', (setMm s mm).tasks i = { s.tasks i with mm := mm' } := by
  rw [setMm_tasks]
  split_ifs
  · exact ⟨mm, rfl⟩
  · exact ⟨(s.tasks i).mm, rfl⟩

theorem TaskInv.setMm {s : TaskTable} (inv : TaskInv s) (mm : AddressSpace) : TaskInv (setMm s mm) := by
  have kept (i : Fin maxTasks) : ((Mgcore.setMm s mm).tasks i).state = (s.tasks i).state ∧
      ((Mgcore.setMm s mm).tasks i).pid = (s.tasks i).pid := by
    obtain ⟨mm', same⟩ := setMm_kept s mm i
    rw [same]
    exact ⟨rfl, rfl⟩
  refine TaskInv.congr (t := Mgcore.setMm s mm) inv rfl (fun i => (kept i).2) (fun i => by rw [(kept i).1]) ?_ ?_
  · rw [(kept _).1]
    exact inv.current_used
  · intro i running
    rw [(kept i).1] at running
    exact inv.running_current i running

/-! ## The invariant -/

structure TableInv (s : TaskTable) : Prop where
  tasks : TaskInv s
  next : 0 < s.nextPid
  pids : ∀ i, (s.tasks i).state ≠ .unused → 0 < (s.tasks i).pid
  spaces : ∀ i, (s.tasks i).mm.brkCurrent < wordSize ∧ (s.tasks i).mm.nextMmapBase < wordSize

theorem vmmAddressSpaceInit_words :
    vmmAddressSpaceInit.brkCurrent < wordSize ∧ vmmAddressSpaceInit.nextMmapBase < wordSize := by decide

namespace TableInv
variable {s : TaskTable}

theorem boot : TableInv bootTasks := by
  refine ⟨TaskInv.boot, by decide, ?_, ?_⟩
  · intro i used
    rw [bootTasks_used used]
    decide
  · intro i
    rw [bootTasks_tasks]
    by_cases first : i = 0
    · subst first
      rw [update_self]
      exact vmmAddressSpaceInit_words
    · rw [update_of_ne first]
      exact ⟨by decide, by decide⟩

theorem task (inv : TableInv s) (op : TaskOp) : TableInv (taskStep s op) := by
  refine ⟨inv.tasks.step op, ?_, ?_, ?_⟩
  · have grows := taskStep_nextPid s op
    have positive := inv.next
    omega
  · intro i used
    by_cases unused : (s.tasks i).state = .unused
    · obtain ⟨name, ppid, fresh⟩ := inv.tasks.taken op unused used
      rw [fresh]
      exact inv.next
    · rcases taskStep_slot s op i with ⟨state, ticks, wakeup, code, same⟩ | ⟨free, -⟩
      · rw [same]
        exact inv.pids i unused
      · exact absurd free unused
  · intro i
    rcases taskStep_slot s op i with ⟨state, ticks, wakeup, code, same⟩ | ⟨-, -, name, ppid, same⟩
    · rw [same]
      exact inv.spaces i
    · rw [same]
      exact vmmAddressSpaceInit_words

theorem setMm (inv : TableInv s) {mm : AddressSpace} (brk : mm.brkCurrent < wordSize) (next : mm.nextMmapBase < wordSize) :
    TableInv (setMm s mm) := by
  refine ⟨inv.tasks.setMm mm, inv.next, ?_, ?_⟩
  · intro i used
    obtain ⟨mm', same⟩ := setMm_kept s mm i
    rw [same] at used ⊢
    exact inv.pids i used
  · intro i
    rw [setMm_tasks]
    split_ifs
    · exact ⟨brk, next⟩
    · exact inv.spaces i

theorem step (inv : TableInv s) (call : TaskCall) : TableInv (taskCallStep s call) := by
  obtain ⟨brk, next⟩ := inv.spaces s.currentIndex
  cases call with
  | task op => exact inv.task op
  | brk address =>
      rw [taskCallStep]
      rcases sysBrk_cases s address with same | moved
      · rw [same]
        exact inv
      · rw [moved]
        exact inv.setMm address.toNat_lt next
  | mmap length =>
      rw [taskCallStep]
      obtain ⟨cursor, fits, moved⟩ := sysMmap_cases s length
      rw [moved]
      refine inv.setMm brk ?_
      rcases fits with rfl | fits
      · exact next
      · exact fits

theorem run (calls : List TaskCall) : TableInv (calls.foldl taskCallStep bootTasks) :=
  List.foldlRecOn calls taskCallStep boot fun _ inv call _ => inv.step call

end TableInv

end Mgcore
