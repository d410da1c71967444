import Mgcore.Fs.Directories
import Mgcore.Fs.Elf
import Mgcore.Fs.Paths
import Mgcore.Fs.Table
import Mgcore.Initramfs.Entries
import Mgcore.Task.Calls

/-!
# Runs of the kernel

The file system calls of the current task, `chdir` among them, probes of executables, mounts, and the calls that change
the task table. In every state they lead to, the working directory of a task in use is canonical and fits its field, and
the node table is one that the operations of `tmpfs.c` lead to.
-/

namespace Mgcore
open Function Lib

inductive KernelOp
  | call (c : FsCall)
  | chdir (path : List UInt8)
  | elfProbe (path : List UInt8)
  | task (c : TaskCall)
  | mount (archive : List UInt8)

def kernelStep (k : Kernel) : KernelOp → Option Kernel
  | .call c => (fsCall k.fs c).map fun (_, s) => { k with fs := s }
  | .chdir path => (fsChdirPath k.fs path).map fun (_, s) => { k with fs := s }
  | .elfProbe path => (elfProbePath k path).map Prod.snd
  | .task c => some { k with fs := { k.fs with tasks := taskCallStep k.fs.tasks c } }
  | .mount archive => (fsMountInitramfs k.fs archive).map fun (_, s) => { k with fs := s }

/-- Some run from boot leads to the state. -/
def Reachable (k : Kernel) : Prop := ∃ console s ops, fsBoot console = some s ∧ run kernelStep { fs := s } ops = some k

def bootRun (ops : List KernelOp) : Option Kernel := (fsBoot {}).bind fun s => run kernelStep { fs := s } ops

theorem Reachable.of_bootRun {ops : List KernelOp} {k : Kernel} (runs : bootRun ops = some k) : Reachable k := by
  obtain ⟨s, boots, reaches⟩ := Option.bind_eq_some_iff.mp runs
  exact ⟨{}, s, ops, boots, reaches⟩

structure KernelInv (s : Fs) : Prop where
  tasks : TaskInv s.tasks
  cwd : ∀ i, (s.tasks.tasks i).state ≠ .unused →
    Canonical (s.tasks.tasks i).cwd ∧ (s.tasks.tasks i).cwd.length < cwdSize
  nodes : TmpfsReachable s.tmpfs

/-! ## The task table -/

/-- The tables differ in descriptors and address spaces only. -/
structure SameTasks (s t : TaskTable) : Prop where
  current : t.currentIndex = s.currentIndex
  next : t.nextPid = s.nextPid
  entry : ∀ i, ∃ fds mm, t.tasks i = { s.tasks i with fds := fds, mm := mm }

theorem SameTasks.refl (s : TaskTable) : SameTasks s s := ⟨rfl, rfl, fun _ => ⟨_, _, rfl⟩⟩

theorem Fs.setFd_same (s : Fs) (fd : Nat) (entry : Option Nat) : SameTasks s.tasks (s.setFd fd entry).tasks := by
  refine ⟨rfl, rfl, fun i => ?_⟩
  by_cases current : i = s.tasks.currentIndex
  · subst current
    exact ⟨_, _, by rw [Fs.setFd, TaskTable.setTask_tasks, update_self]; rfl⟩
  · exact ⟨_, _, by rw [Fs.setFd, TaskTable.setTask_tasks, update_of_ne current]⟩

theorem setMm_same (s : TaskTable) (mm : AddressSpace) : SameTasks s (setMm s mm) := by
  refine ⟨rfl, rfl, fun i => ?_⟩
  obtain ⟨mm', same⟩ := setMm_kept s mm i
  exact ⟨_, mm', by rw [same]⟩

theorem fsCall_same {s t : Fs} {c : FsCall} {r : Int} (returns : fsCall s c = some (r, t)) : SameTasks s.tasks t.tasks := by
  cases fsCall_files returns with
  | same same _ _ =>
      rw [same.tasks]
      exact .refl s.tasks
  | dropped f file _ _ _ _ _ tasks _ =>
      rw [tasks]
      exact .refl s.tasks
  | opened f fd nodeId flags _ _ _ _ after =>
      obtain ⟨u, rfl⟩ := after
      exact Fs.setFd_same _ fd (some f)
  | closed f fd _ _ _ after =>
      rw [after]
      exact Fs.setFd_same _ fd.toNat none

theorem TaskInv.same {s t : TaskTable} (inv : TaskInv s) (same : SameTasks s t) : TaskInv t := by
  have kept (i : Fin maxTasks) : (t.tasks i).state = (s.tasks i).state ∧ (t.tasks i).pid = (s.tasks i).pid := by
    obtain ⟨fds, mm, entry⟩ := same.entry i
    rw [entry]
    exact ⟨rfl, rfl⟩
  refine inv.congr same.next (fun i => (kept i).2) (fun i => by rw [(kept i).1]) ?_ ?_
  · rw [(kept _).1, same.current]
    exact inv.current_used
  · intro i running
    rw [(kept i).1] at running
    rw [same.current]
    exact inv.running_current i running

/-! ## Mounting -/

theorem mountLoop_invariant {P : Tmpfs → Prop}
    (node : ∀ s path mode data t, P s → mountNode s path mode data = some t → P t) {cwd archive : List UInt8}
    {fuel cursor : Nat} {s t : Tmpfs} {code : Int} (start : P s)
    (returns : mountLoop cwd archive fuel cursor s = some (code, t)) : P t := by
  induction fuel generalizing cursor s with
  | zero => cases returns
  | succ fuel ih =>
      rw [mountLoop_succ, Option.bind_eq_some_iff] at returns
      obtain ⟨step, -, returns⟩ := returns
      cases step with
      | returns code =>
          cases returns
          exact start
      | skip next => exact ih start returns
      | mount path mode data next =>
          obtain ⟨u, made, returns⟩ := Option.bind_eq_some_iff.mp returns
          exact ih (node s path mode data u start made) returns

theorem TmpfsReachable.create {s t : Tmpfs} (reached : TmpfsReachable s) {path : List UInt8} {type : NodeType}
    {mode : UInt32} {r : Int} (kind : type ≠ .none) (returns : tmpfsCreatePath s path type mode = some (r, t)) :
    TmpfsReachable t :=
  reached.step (.create path type mode) kind (congrArg (Option.map Prod.snd) returns)

theorem mountNode_cases {s t : Tmpfs} {path : List UInt8} {mode : UInt32} {data : List UInt8}
    (returns : mountNode s path mode data = some t) :
    ∃ type r u, (type = .dir ∨ type = .file) ∧ tmpfsCreatePath s path type mode = some (r, u) ∧
      (t = u ∨ t = (tmpfsWriteNode u r data 0).2) := by
  unfold mountNode at returns
  split_ifs at returns with isDir
  · obtain ⟨⟨r, u⟩, created, rfl⟩ := Option.map_eq_some_iff.mp returns
    exact ⟨.dir, r, u, Or.inl rfl, created, Or.inl rfl⟩
  · simp only [Option.bind_eq_bind, Option.bind_eq_some_iff] at returns
    obtain ⟨⟨nodeId, u⟩, created, returns⟩ := returns
    refine ⟨.file, nodeId, u, Or.inr rfl, created, ?_⟩
    dsimp only at returns
    split_ifs at returns
    · cases returns
      exact Or.inr rfl
    · cases returns
      exact Or.inl rfl

theorem TmpfsReachable.mountNode {s t : Tmpfs} (reached : TmpfsReachable s) {path : List UInt8} {mode : UInt32}
    {data : List UInt8} (returns : mountNode s path mode data = some t) : TmpfsReachable t := by
  obtain ⟨type, r, u, kind, created, written⟩ := mountNode_cases returns
  have used : type ≠ .none := by
    rcases kind with rfl | rfl
    · simp
    · simp
  have made : TmpfsReachable u := reached.create used created
  rcases written with rfl | rfl
  · exact made
  · exact made.step (.write r data 0) trivial rfl

theorem fsMountInitramfs_cases {s t : Fs} {archive : List UInt8} {r : Int}
    (returns : fsMountInitramfs s archive = some (r, t)) :
    ∃ u, mountLoop (taskCurrent s.tasks).cwd archive (archive.length + 1) 0 s.tmpfs = some (r, u) ∧
      t = { s with tmpfs := u } := by
  simp only [fsMountInitramfs, Option.bind_eq_bind, Option.bind_eq_some_iff] at returns
  obtain ⟨⟨code, u⟩, unpacked, returns⟩ := returns
  cases returns
  exact ⟨u, unpacked, rfl⟩

/-! ## The invariant -/

def Fs.setCwd (s : Fs) (cwd : List UInt8) : Fs :=
  let task := { taskCurrent s.tasks with cwd := cwd }
  { s with tasks := s.tasks.setTask s.tasks.currentIndex task }

theorem Fs.setCwd_entry (s : Fs) (cwd : List UInt8) (i : Fin maxTasks) :
    (s.setCwd cwd).tasks.tasks i =
      { s.tasks.tasks i with cwd := if i = s.tasks.currentIndex then cwd else (s.tasks.tasks i).cwd } := by
  rw [Fs.setCwd, TaskTable.setTask_tasks]
  split_ifs with current
  · subst current
    rw [update_self]
    rfl
  · rw [update_of_ne current]

theorem fsChdirPath_cases {s t : Fs} {path : List UInt8} {r : Int} (returns : fsChdirPath s path = some (r, t)) :
    (t = s ∧ r < 0) ∨ (r = 0 ∧ ∃ i : Nat, tmpfsLookupPath s.tmpfs (s.resolve path) = some (i : Int) ∧
      (s.tmpfs.nodes i).type = .dir ∧ t = s.setCwd ((s.resolve path).take (cwdSize - 1))) := by
  simp only [fsChdirPath, Option.bind_eq_bind, Option.bind_eq_some_iff] at returns
  obtain ⟨nodeId, found, returns⟩ := returns
  split_ifs at returns with missing
  · cases returns
    exact Or.inl ⟨rfl, missing⟩
  · obtain ⟨i, rfl⟩ := Int.eq_ofNat_of_zero_le (Int.not_lt.mp missing)
    cases node : tmpfsGetNode s.tmpfs i with
    | none =>
        rw [node] at returns
        cases returns
        exact Or.inl ⟨rfl, by decide⟩
    | some n =>
        rw [node] at returns
        dsimp only at returns
        obtain ⟨j, same, -, rfl, -⟩ := tmpfsGetNode_eq_some node
        cases Int.ofNat_inj.mp same
        split_ifs at returns with other
        · cases returns
          exact Or.inl ⟨rfl, by decide⟩
        · cases returns
          exact Or.inr ⟨rfl, i, found, not_not.mp other, rfl⟩

namespace KernelInv
variable {s t : Fs}

theorem current (inv : KernelInv s) : Canonical (taskCurrent s.tasks).cwd ∧ (taskCurrent s.tasks).cwd.length < cwdSize :=
  inv.cwd s.tasks.currentIndex inv.tasks.current_used

theorem resolve (inv : KernelInv s) (path : List UInt8) :
    Canonical (s.resolve path) ∧ (s.resolve path).length < pathMax :=
  ⟨normalizePath_canonical inv.current.1 path, normalizePath_bounded inv.current.2 path⟩

theorem same (inv : KernelInv s) (tasks : SameTasks s.tasks t.tasks) (nodes : TmpfsReachable t.tmpfs) : KernelInv t := by
  refine ⟨inv.tasks.same tasks, fun i used => ?_, nodes⟩
  obtain ⟨fds, mm, entry⟩ := tasks.entry i
  rw [entry] at used ⊢
  exact inv.cwd i used

theorem call (inv : KernelInv s) {c : FsCall} {r : Int} (returns : fsCall s c = some (r, t)) : KernelInv t := by
  have steps : fsStep s (s.tasks.currentIndex, c) = some t := congrArg (Option.map Prod.snd) returns
  exact inv.same (fsCall_same returns) (inv.nodes.fsStep steps)

theorem chdir (inv : KernelInv s) {path : List UInt8} {r : Int} (returns : fsChdirPath s path = some (r, t)) :
    KernelInv t := by
  rcases fsChdirPath_cases returns with ⟨rfl, -⟩ | ⟨-, i, -, -, rfl⟩
  · exact inv
  obtain ⟨canonical, -⟩ := inv.resolve path
  refine ⟨?_, fun j used => ?_, inv.nodes⟩
  · refine inv.tasks.congr rfl (fun j => ?_) (fun j => ?_) ?_ (fun j running => ?_)
    · rw [Fs.setCwd_entry]
    · rw [Fs.setCwd_entry]
    · rw [Fs.setCwd_entry]
      exact inv.tasks.current_used
    · rw [Fs.setCwd_entry] at running
      exact inv.tasks.running_current j running
  · rw [Fs.setCwd_entry] at used ⊢
    dsimp only at used ⊢
    split_ifs
    · exact ⟨canonical.take (by decide), Nat.lt_of_le_of_lt (List.length_take_le _ _) (by decide)⟩
    · exact inv.cwd j used

theorem task (inv : KernelInv s) (c : TaskCall) : KernelInv { s with tasks := taskCallStep s.tasks c } := by
  have mapped (mm : AddressSpace) : KernelInv { s with tasks := setMm s.tasks mm } :=
    inv.same (setMm_same s.tasks mm) inv.nodes
  cases c with
  | brk address =>
      rw [taskCallStep]
      rcases sysBrk_cases s.tasks address with same | moved
      · rw [same]
        exact inv
      · rw [moved]
        exact mapped _
  | mmap length =>
      rw [taskCallStep]
      obtain ⟨cursor, -, moved⟩ := sysMmap_cases s.tasks length
      rw [moved]
      exact mapped _
  | task op =>
      refine ⟨inv.tasks.step op, fun i used => ?_, inv.nodes⟩
      change ((taskStep s.tasks op).tasks i).state ≠ .unused at used
      change Canonical ((taskStep s.tasks op).tasks i).cwd ∧ ((taskStep s.tasks op).tasks i).cwd.length < cwdSize
      by_cases unused : (s.tasks.tasks i).state = .unused
      · obtain ⟨name, ppid, fresh⟩ := inv.tasks.taken op unused used
        rw [fresh]
        exact ⟨canonical_root, show [slash].length < cwdSize by decide⟩
      · rcases taskStep_slot s.tasks op i with ⟨state, ticks, wakeup, code, same⟩ | ⟨free, -⟩
        · rw [same]
          exact inv.cwd i unused
        · exact absurd free unused

theorem mount (inv : KernelInv s) {archive : List UInt8} {r : Int} (returns : fsMountInitramfs s archive = some (r, t)) :
    KernelInv t := by
  obtain ⟨u, unpacked, rfl⟩ := fsMountInitramfs_cases returns
  refine ⟨inv.tasks, inv.cwd, ?_⟩
  exact mountLoop_invariant (fun _ _ _ _ _ reached made => TmpfsReachable.mountNode reached made) inv.nodes unpacked

theorem boot {console : Console} (boots : fsBoot console = some s) : KernelInv s := by
  have booted := Booted.of_fsBoot boots
  refine ⟨?_, fun i used => ?_, fsBoot_reachable boots⟩
  · rw [booted.tasks]
    exact TableInv.boot.tasks
  · rw [booted.tasks] at used ⊢
    rw [bootTasks_used used]
    exact ⟨canonical_root, by decide⟩

theorem step {k k' : Kernel} (inv : KernelInv k.fs) {op : KernelOp} (steps : kernelStep k op = some k') :
    KernelInv k'.fs := by
  cases op with
  | call c =>
      obtain ⟨⟨r, t⟩, returns, rfl⟩ := Option.map_eq_some_iff.mp steps
      exact inv.call returns
  | chdir path =>
      obtain ⟨⟨r, t⟩, returns, rfl⟩ := Option.map_eq_some_iff.mp steps
      exact inv.chdir returns
  | elfProbe path =>
      obtain ⟨⟨result, k'⟩, returns, rfl⟩ := Option.map_eq_some_iff.mp steps
      exact elfProbePath_invariant (fun _ _ _ _ before returns => KernelInv.call before returns) inv returns
  | task c =>
      cases steps
      exact inv.task c
  | mount archive =>
      obtain ⟨⟨r, t⟩, returns, rfl⟩ := Option.map_eq_some_iff.mp steps
      exact inv.mount returns

theorem of_reachable {k : Kernel} (reachable : Reachable k) : KernelInv k.fs := by
  obtain ⟨console, s, ops, boots, reaches⟩ := reachable
  exact run_invariant (fun _ _ _ inv _ steps => KernelInv.step inv steps) (fun _ _ => trivial) (boot boots) reaches

end KernelInv

end Mgcore
