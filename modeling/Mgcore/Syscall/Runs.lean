import Mgcore.Fs.Splitting
import Mgcore.Sched.Sleep
import Mgcore.Syscall.Model

/-!
# Runs of the system

Programs change their memory and make system calls, the timer ticks, characters come in. Every call does one thing to the
kernel (`KernelEffect`), which keeps its invariants; and in every state that is reached a call whose pointers lie in the
memory of the programs comes back, unless it is `reboot` or it creates a name that does not fit the buffer of `split_parent`.
-/

namespace Mgcore
open Function Lib

/-! ## What a call does to the kernel -/

/-- The calls that a task makes on the task table for itself. -/
inductive OwnCall : TaskCall → Prop
  | spawn (name : List UInt8) : OwnCall (.task (.spawnUser name))
  | exit (status : Int) : OwnCall (.task (.exit status))
  | sleep (tick : UInt64) : OwnCall (.task (.sleepUntil tick))
  | brk (address : UInt64) : OwnCall (.brk address)
  | mmap (length : UInt64) : OwnCall (.mmap length)

def FsCall.Fits (s : Fs) : FsCall → Prop
  | .write fd buffer => WriteFits s fd buffer.length
  | _ => True

inductive KernelEffect (stack : Nat → UInt8) (k : Kernel) : Int → Kernel → Prop
  | same (r : Int) : KernelEffect stack k r k
  | call {c : FsCall} {r : Int} {s : Fs} (fits : c.Fits k.fs)
      (returns : fsCall k.fs c = some (r, s)) : KernelEffect stack k r { k with fs := s }
  | chdir {path : List UInt8} {r : Int} {s : Fs} (returns : fsChdirPath k.fs path = some (r, s)) :
      KernelEffect stack k r { k with fs := s }
  | execve {path : List UInt8} {r : Int} {after : Kernel} (returns : sysExecve stack k path = some (r, after)) :
      KernelEffect stack k r after
  | task {c : TaskCall} (own : OwnCall c) (r : Int) :
      KernelEffect stack k r { k with fs := { k.fs with tasks := taskCallStep k.fs.tasks c } }

/-- The kernel changes by one effect; the clock, the memory guard and the place of the programs stay. -/
structure CallEffect (stack : Nat → UInt8) (m : Machine) (r : Int) (m' : Machine) : Prop where
  kernel : KernelEffect stack m.kernel r m'.kernel
  uptime : m'.uptimeTicks = m.uptimeTicks
  guard : m'.guard = m.guard
  action : m'.safebootAction = m.safebootAction
  programs : m'.programs = m.programs

def Lawful (stack : Nat → UInt8) (handler : SyscallHandler) : Prop :=
  ∀ m a r m', handler m a = some (r, m') → CallEffect stack m r m'

section
variable {stack : Nat → UInt8}

theorem CallEffect.none (m : Machine) (r : Int) : CallEffect stack m r m := ⟨.same r, rfl, rfl, rfl, rfl⟩

theorem CallEffect.file {m : Machine} {c : FsCall} {result : Int × Fs}
    (fits : c.Fits m.fs) (returns : fsCall m.fs c = some result) :
    CallEffect stack m (m.onFs result).1 (m.onFs result).2 := ⟨.call fits returns, rfl, rfl, rfl, rfl⟩

theorem Machine.put_eq {m m' : Machine} {address : UInt64} {bytes : List UInt8} (stored : m.put address bytes = some m') :
    m.Holds address.toNat bytes.length ∧ m' = { m with memory := store wordSize m.memory address.toNat bytes } := by
  unfold put at stored
  split_ifs at stored with inside
  cases stored
  exact ⟨inside, rfl⟩

theorem CallEffect.put {m m' m'' : Machine} {r : Int} (effect : CallEffect stack m r m') {address : UInt64}
    {bytes : List UInt8} (stored : m'.put address bytes = some m'') : CallEffect stack m r m'' := by
  obtain ⟨-, rfl⟩ := Machine.put_eq stored
  exact ⟨effect.kernel, effect.uptime, effect.guard, effect.action, effect.programs⟩

theorem CallEffect.of_some {m m' : Machine} {r : Int} {result : Int × Machine}
    (effect : CallEffect stack m result.1 result.2) (returns : some result = some (r, m')) : CallEffect stack m r m' := by
  cases returns
  exact effect

theorem lawful_task {call : TaskTable → Args → Int × TaskTable}
    (own : ∀ tasks a, ∃ c, OwnCall c ∧ (call tasks a).2 = taskCallStep tasks c) : Lawful stack (taskHandler call) := by
  intro m a r m' returns
  obtain ⟨c, mine, same⟩ := own m.tasks a
  cases returns
  refine ⟨?_, rfl, rfl, rfl, rfl⟩
  show KernelEffect stack m.kernel _ { m.kernel with fs := { m.kernel.fs with tasks := (call m.tasks a).2 } }
  rw [same]
  exact .task mine _

theorem lawful_path {call : Fs → List UInt8 → Option (Int × Fs)}
    (effect : ∀ k path r s, call k.fs path = some (r, s) → KernelEffect stack k r { k with fs := s }) :
    Lawful stack (pathCall call) := by
  intro m a r m' returns
  simp only [pathCall, Option.bind_eq_bind, Option.bind_eq_some_iff, Option.pure_def] at returns
  obtain ⟨path, -, ⟨value, s⟩, called, returns⟩ := returns
  cases returns
  exact ⟨effect m.kernel path value s called, rfl, rfl, rfl, rfl⟩

/-- The answer of a call that stores something on the way. -/
theorem CallEffect.of_put {m u m' : Machine} {r value : Int} {address : UInt64} {bytes : List UInt8}
    (effect : CallEffect stack m value u) (returns : (u.put address bytes).map (fun m => (value, m)) = some (r, m')) :
    CallEffect stack m r m' := by
  obtain ⟨after, stored, same⟩ := Option.map_eq_some_iff.mp returns
  exact (effect.put stored).of_some (congrArg some same)

theorem CallEffect.read {m m' : Machine} {fd r : Int} {buffer count : UInt64}
    (returns : readInto m fd buffer count = some (r, m')) : CallEffect stack m r m' := by
  have called : fsCall m.fs (.read fd (readCount m.fs fd buffer count)) = some
      ((fsReadFd m.fs fd (readCount m.fs fd buffer count)).1.1, (fsReadFd m.fs fd (readCount m.fs fd buffer count)).2) := rfl
  exact (CallEffect.file (c := .read fd (readCount m.fs fd buffer count)) trivial called).of_put returns

theorem sysRead_lawful : Lawful stack sysRead := fun _ _ _ _ => CallEffect.read

theorem CallEffect.write {m m' : Machine} {fd r : Int} {buffer : UInt64} {count : Nat}
    (returns : writeFrom m fd buffer count = some (r, m')) : CallEffect stack m r m' := by
  unfold writeFrom at returns
  split_ifs at returns with inside
  refine (CallEffect.file (c := .write fd (load wordSize m.memory buffer.toNat count)) ?_ rfl).of_some returns
  rw [FsCall.Fits, load_length]
  exact inside.1

theorem sysWrite_lawful : Lawful stack sysWrite := fun _ _ _ _ => CallEffect.write

theorem sysOpen_lawful : Lawful stack sysOpen := by
  intro m a r m' returns
  simp only [sysOpen, Option.bind_eq_bind, Option.bind_eq_some_iff, Option.pure_def] at returns
  obtain ⟨path, -, ⟨value, s⟩, opened, returns⟩ := returns
  cases returns
  exact ⟨.call (c := .openPath path a.a1.toUInt32 a.a2.toUInt32) trivial opened, rfl, rfl, rfl, rfl⟩

theorem sysOpenat_lawful : Lawful stack sysOpenat := by
  intro m a r m' returns
  simp only [sysOpenat] at returns
  split_ifs at returns with elsewhere
  · cases returns
    exact .none m _
  · simp only [Option.bind_eq_bind, Option.bind_eq_some_iff, Option.pure_def] at returns
    obtain ⟨path, -, ⟨value, s⟩, opened, returns⟩ := returns
    cases returns
    exact ⟨.call (c := .openPath path a.a2.toUInt32 a.a3.toUInt32) trivial opened, rfl, rfl, rfl, rfl⟩

theorem sysClose_lawful : Lawful stack sysClose := fun _ a _ _ =>
  (CallEffect.file (c := .close (intArg a.a0)) trivial rfl).of_some

theorem sysLseek_lawful : Lawful stack sysLseek := fun _ a _ _ =>
  (CallEffect.file (c := .lseek (intArg a.a0) (toSigned a.a1.toNat) (intArg a.a2)) trivial rfl).of_some

theorem sysStat_lawful : Lawful stack sysStat := by
  intro m a r m' returns
  simp only [sysStat, Option.bind_eq_bind, Option.bind_eq_some_iff, Option.pure_def] at returns
  obtain ⟨path, -, result, -, after, stored, returns⟩ := returns
  exact ((CallEffect.none m _).put stored).of_some returns

theorem CallEffect.fstat {m m' : Machine} {fd r : Int} {statbuf : UInt64}
    (returns : fstatInto m fd statbuf = some (r, m')) : CallEffect stack m r m' := by
  unfold fstatInto at returns
  split at returns
  · exact (CallEffect.none m _).of_some returns
  · split_ifs at returns
    · exact (CallEffect.none m _).of_some returns
    · exact (CallEffect.none m _).of_put returns

theorem sysFstat_lawful : Lawful stack sysFstat := fun _ _ _ _ => CallEffect.fstat

theorem sysExecve_lawful : Lawful stack (sysExecveCall stack) := by
  intro m a r m' returns
  simp only [sysExecveCall, Option.bind_eq_bind, Option.bind_eq_some_iff, Option.pure_def] at returns
  obtain ⟨path, -, ⟨value, after⟩, called, returns⟩ := returns
  cases returns
  exact ⟨.execve called, rfl, rfl, rfl, rfl⟩

theorem sysNanosleep_lawful : Lawful stack sysNanosleepCall := by
  intro m a r m' returns
  simp only [sysNanosleepCall, Option.bind_eq_bind, Option.bind_eq_some_iff, Option.pure_def] at returns
  obtain ⟨request, -, returns⟩ := returns
  cases returns
  exact ⟨.task (.sleep _) 0, rfl, rfl, rfl, rfl⟩

theorem sysFork_call (tasks : TaskTable) : (sysFork tasks).2 = taskCallStep tasks (.task (.spawnUser (taskCurrent tasks).name)) := by
  rw [taskCallStep, taskStep, sysFork]
  split <;> rename_i same <;> rw [same]

theorem sysNothing_lawful : Lawful stack sysNothing :=
  fun m _ _ _ => (CallEffect.none m 0).of_some

/-- A call that stores something unless its arguments are bad. -/
theorem lawful_refusal {handler : SyscallHandler} {bad : Machine → Args → Prop} [∀ m a, Decidable (bad m a)]
    {error : Int} {value : Machine → Args → Int} {address : Args → UInt64} {bytes : Machine → Args → List UInt8}
    (returns : ∀ m a, handler m a =
      if bad m a then some (error, m) else (m.put (address a) (bytes m a)).map fun m' => (value m a, m')) :
    Lawful stack handler := by
  intro m a r m' called
  rw [returns] at called
  split_ifs at called
  · cases called
    exact .none m error
  · exact (CallEffect.none m _).of_put called

theorem sysReboot_lawful : Lawful stack sysReboot := fun _ _ _ _ returns => nomatch returns

theorem syscallTable_lawful : ∀ entry ∈ syscallTable stack, Lawful stack entry.2 := by
  simp only [syscallTable, List.forall_mem_cons, List.not_mem_nil, IsEmpty.forall_iff, implies_true, and_true]
  refine ⟨sysRead_lawful, sysWrite_lawful, sysOpen_lawful, sysClose_lawful, sysStat_lawful, sysFstat_lawful, sysLseek_lawful,
    ?mmap, sysNothing_lawful, sysNothing_lawful, ?brk, sysNothing_lawful, sysNothing_lawful, sysNothing_lawful,
    sysNanosleep_lawful, ?getpid, ?signal, ?fork, sysExecve_lawful, ?exit, ?wait, ?kill, ?uname, ?getcwd,
    ?chdir, ?mkdir, ?rmdir, ?unlink, ?time, sysReboot_lawful, sysOpenat_lawful⟩
  case mmap => exact lawful_task fun tasks a => ⟨_, .mmap a.a1, rfl⟩
  case brk => exact lawful_task fun tasks a => ⟨_, .brk a.a0, rfl⟩
  case fork => exact lawful_task fun tasks a => ⟨_, .spawn _, sysFork_call tasks⟩
  case exit => exact lawful_task fun tasks a => ⟨_, .exit _, rfl⟩
  case getpid => exact fun m _ _ _ => (CallEffect.none m _).of_some
  case signal => exact fun m _ _ _ => (CallEffect.none m _).of_some
  case kill => exact fun m _ _ _ => (CallEffect.none m _).of_some
  case wait => exact fun m a _ _ => (CallEffect.none m _).of_put
  case uname => exact lawful_refusal fun m a => rfl
  case getcwd => exact lawful_refusal fun m a => rfl
  case time => exact lawful_refusal fun m a => rfl
  case chdir => exact lawful_path fun k path r s called => .chdir called
  case mkdir =>
    intro m a
    exact lawful_path (fun k path r s called => .call (c := .mkdir path a.a1.toUInt32) trivial called) m a
  case rmdir => exact lawful_path fun k path r s called => .call (c := .rmdir path) trivial called
  case unlink => exact lawful_path fun k path r s called => .call (c := .unlink path) trivial called

theorem syscallDispatch_cases {m m' : Machine} {nr : UInt64} {a : Args} {r : Int}
    (returns : syscallDispatch stack m nr a = some (r, m')) :
    (r = -eNOSYS ∧ m' = m) ∨ ∃ handler, (nr.toNat, handler) ∈ syscallTable stack ∧ handler m a = some (r, m') := by
  unfold syscallDispatch at returns
  split_ifs at returns
  · cases returns
    exact Or.inl ⟨rfl, rfl⟩
  · split at returns
    · cases returns
      exact Or.inl ⟨rfl, rfl⟩
    · rename_i number handler found
      have same : number = nr.toNat := by simpa using List.find?_some found
      exact Or.inr ⟨handler, same ▸ List.mem_of_find?_eq_some found, returns⟩

theorem syscallDispatch_effect {m m' : Machine} {nr : UInt64} {a : Args} {r : Int}
    (returns : syscallDispatch stack m nr a = some (r, m')) : CallEffect stack m r m' := by
  rcases syscallDispatch_cases returns with ⟨-, rfl⟩ | ⟨handler, entry, called⟩
  · exact .none m' r
  · exact syscallTable_lawful _ entry m a r m' called

end

/-! ## The invariant -/

theorem fsCall_tasks {s t : Fs} {c : FsCall} {r : Int} (returns : fsCall s c = some (r, t)) :
    t.tasks = s.tasks ∨ ∃ fd entry, t.tasks = (s.setFd fd entry).tasks := by
  cases fsCall_files returns with
  | same same _ _ => exact Or.inl same.tasks
  | dropped f file _ _ _ _ _ tasks _ => exact Or.inl tasks
  | opened f fd nodeId flags _ _ _ _ after =>
      obtain ⟨u, rfl⟩ := after
      exact Or.inr ⟨fd, some f, rfl⟩
  | closed f fd _ _ _ after =>
      rw [after]
      exact Or.inr ⟨fd.toNat, none, rfl⟩

theorem Fs.setFd_entry (s : Fs) (fd : Nat) (entry : Option Nat) (i : Fin maxTasks) :
    ∃ fds, (s.setFd fd entry).tasks.tasks i = { s.tasks.tasks i with fds := fds } ∧
      (i ≠ s.tasks.currentIndex → fds = (s.tasks.tasks i).fds) := by
  rw [Fs.setFd, TaskTable.setTask_tasks]
  by_cases current : i = s.tasks.currentIndex
  · subst current
    exact ⟨_, by rw [update_self]; rfl, fun other => absurd rfl other⟩
  · exact ⟨_, by rw [update_of_ne current], fun _ => rfl⟩

theorem TableInv.setFd {s : Fs} (inv : TableInv s.tasks) (fd : Nat) (entry : Option Nat) :
    TableInv (s.setFd fd entry).tasks := by
  refine ⟨inv.tasks.same (s.setFd_same fd entry), inv.next, ?_, ?_⟩
  · intro i used
    obtain ⟨fds, same, -⟩ := s.setFd_entry fd entry i
    rw [same] at used ⊢
    exact inv.pids i used
  · intro i
    obtain ⟨fds, same, -⟩ := s.setFd_entry fd entry i
    rw [same]
    exact inv.spaces i

theorem TableInv.call {s t : Fs} (inv : TableInv s.tasks) {c : FsCall} {r : Int} (returns : fsCall s c = some (r, t)) :
    TableInv t.tasks := by
  rcases fsCall_tasks returns with same | ⟨fd, entry, same⟩
  · rw [same]
    exact inv
  · rw [same]
    exact inv.setFd fd entry

structure SystemInv (k : Kernel) : Prop where
  kernel : KernelInv k.fs
  probes : ProbeInv k
  storage : StorageInv k.fs.tmpfs
  files : TableConsistent k.fs
  tasks : TableInv k.fs.tasks

namespace SystemInv
variable {k : Kernel}

/-- A step of `kernelStep` takes care of the first two. -/
theorem of_step (inv : SystemInv k) {k' : Kernel} (op : KernelOp) (steps : kernelStep k op = some k')
    (storage : StorageInv k'.fs.tmpfs) (files : TableConsistent k'.fs) (tasks : TableInv k'.fs.tasks) : SystemInv k' := by
  obtain ⟨bounded, aligned⟩ := inv.probes.heap_step steps
  have kernel := inv.kernel.step steps
  exact ⟨kernel, .of_kernel kernel bounded aligned, storage, files, tasks⟩

theorem chdir (inv : SystemInv k) {path : List UInt8} {r : Int} {s : Fs} (returns : fsChdirPath k.fs path = some (r, s)) :
    SystemInv { k with fs := s } := by
  refine inv.of_step (.chdir path) (by rw [kernelStep, returns]; rfl) ?_ ?_ ?_
  · rcases fsChdirPath_cases returns with ⟨rfl, -⟩ | ⟨-, i, -, -, rfl⟩
    · exact inv.storage
    · exact inv.storage
  · rcases fsChdirPath_cases returns with ⟨rfl, -⟩ | ⟨-, i, -, -, rfl⟩
    · exact inv.files
    · exact inv.files.congr (fun task => by rw [Fs.setCwd_entry]) (fun _ => rfl) (fun _ _ => rfl)
  · rcases fsChdirPath_cases returns with ⟨rfl, -⟩ | ⟨-, i, -, -, rfl⟩
    · exact inv.tasks
    · refine ⟨(inv.kernel.chdir returns).tasks, inv.tasks.next, fun j used => ?_, fun j => ?_⟩
      · rw [Fs.setCwd_entry] at used ⊢
        exact inv.tasks.pids j used
      · rw [Fs.setCwd_entry]
        exact inv.tasks.spaces j

theorem taskCall (inv : SystemInv k) (c : TaskCall) :
    SystemInv { k with fs := { k.fs with tasks := taskCallStep k.fs.tasks c } } := by
  refine inv.of_step (.task c) rfl inv.storage ?_ (inv.tasks.step c)
  have mapped (mm : AddressSpace) : TableConsistent { k.fs with tasks := setMm k.fs.tasks mm } := by
    refine inv.files.congr (fun i => ?_) (fun _ => rfl) (fun _ _ => rfl)
    obtain ⟨mm', same⟩ := setMm_kept k.fs.tasks mm i
    show ((setMm k.fs.tasks mm).tasks i).fds = _
    rw [same]
  cases c with
  | task op => exact @TableConsistent.step k _ inv.files (.task op) rfl
  | brk address =>
      rw [taskCallStep]
      rcases sysBrk_cases k.fs.tasks address with same | moved
      · rw [same]
        exact inv.files
      · rw [moved]
        exact mapped _
  | mmap length =>
      rw [taskCallStep]
      obtain ⟨cursor, -, moved⟩ := sysMmap_cases k.fs.tasks length
      rw [moved]
      exact mapped _

theorem call (inv : SystemInv k) {c : FsCall} (fits : c.Fits k.fs) {r : Int} {s : Fs} (returns : fsCall k.fs c = some (r, s)) :
    SystemInv { k with fs := s } := by
  have tables : TmpfsInv k.fs.tmpfs := ⟨inv.probes.tree, inv.storage⟩
  have stepFits : StepFits k.fs (k.fs.tasks.currentIndex, c) := by
    rintro fd buffer rfl
    exact fits
  have steps : fsStep k.fs (k.fs.tasks.currentIndex, c) = some s := congrArg (Option.map Prod.snd) returns
  exact inv.of_step (.call c) (by rw [kernelStep, returns]; rfl) (tables.fsStep stepFits steps).storage (inv.files.call returns)
    (inv.tasks.call returns)

theorem probe (inv : SystemInv k) {path : List UInt8} {result : Int × Option ElfImage} {after : Kernel}
    (probes : elfProbePath k path = some (result, after)) : SystemInv after := by
  refine inv.of_step (.elfProbe path) (congrArg (Option.map Prod.snd) probes) ?_ ?_ ?_
  · rcases inv.probes.probe path with ⟨stuck, -⟩ | ⟨_, _, found, same, -⟩
    · cases stuck.symm.trans probes
    · cases found.symm.trans probes
      rw [same.tmpfs]
      exact inv.storage
  · exact elfProbePath_invariant (fun _ _ _ _ before returns => TableConsistent.call before returns) inv.files probes
  · exact elfProbePath_invariant (P := fun s => TableInv s.tasks) (fun _ _ _ _ before returns => before.call returns)
      inv.tasks probes

/-- What is printed or typed is not part of it. -/
theorem setConsole (inv : SystemInv k) (console : Console) : SystemInv { k with fs := { k.fs with console } } :=
  ⟨⟨inv.kernel.tasks, inv.kernel.cwd, inv.kernel.nodes⟩,
    ⟨inv.probes.tree, inv.probes.sizes, inv.probes.bounded, inv.probes.aligned⟩, inv.storage,
    inv.files.congr (fun _ => rfl) (fun _ => rfl) (fun _ _ => rfl), inv.tasks⟩

theorem effect (inv : SystemInv k) {stack : Nat → UInt8} {r : Int} {k' : Kernel} (effect : KernelEffect stack k r k') :
    SystemInv k' := by
  cases effect with
  | same => exact inv
  | call fits returns => exact inv.call fits returns
  | chdir returns => exact inv.chdir returns
  | task own => exact inv.taskCall _
  | @execve path _ _ returns =>
      simp only [sysExecve, Option.bind_eq_bind, Option.bind_eq_some_iff] at returns
      obtain ⟨⟨⟨status, image⟩, after⟩, probes, returns⟩ := returns
      have probed := inv.probe probes
      dsimp only at returns
      split_ifs at returns
      · cases returns
        exact probed
      · simp only [Option.bind_eq_some_iff] at returns
        obtain ⟨console, -, returns⟩ := returns
        cases returns
        exact probed.setConsole console

theorem boot {console : Console} {s : Fs} (boots : fsBoot console = some s) : SystemInv { fs := s } := by
  have kernel : KernelInv s := .boot boots
  refine ⟨kernel, .of_kernel kernel (Nat.zero_le _) rfl, (Booted.of_fsBoot boots).tables.storage, .boot boots, ?_⟩
  rw [(Booted.of_fsBoot boots).tasks]
  exact .boot

end SystemInv

/-! ## What a call is given -/

/-- A string, up to its zero byte. -/
def Machine.HoldsString (m : Machine) (address : Nat) : Prop := ∃ n, m.Holds address (n + 1) ∧ m.memory (address + n) = 0

namespace Machine
variable {m : Machine}

theorem Holds.part {address size offset k : Nat} (holds : m.Holds address size) (inside : offset + k ≤ size) :
    m.Holds (address + offset) k := by
  unfold Holds at holds ⊢
  omega

theorem Holds.shorter {address size k : Nat} (holds : m.Holds address size) (inside : k ≤ size) : m.Holds address k := by
  unfold Holds at holds ⊢
  omega

theorem stringLoop_isSome {n fuel address : Nat} (enough : n < fuel) (holds : m.Holds address (n + 1))
    (zero : m.memory (address + n) = 0) : (m.stringLoop fuel address).isSome := by
  induction n generalizing fuel address with
  | zero =>
      obtain ⟨fuel, rfl⟩ := Nat.exists_eq_add_of_lt enough
      rw [Nat.add_zero] at zero
      rw [Nat.zero_add, stringLoop, if_neg (not_not.mpr holds), if_pos zero]
      rfl
  | succ n ih =>
      obtain ⟨fuel, rfl⟩ := Nat.exists_eq_add_of_lt (Nat.lt_trans (Nat.zero_lt_succ n) enough)
      rw [Nat.zero_add, stringLoop, if_neg (not_not.mpr (holds.shorter (by omega)))]
      split_ifs
      · rfl
      · rw [Option.isSome_map]
        exact ih (by omega) (holds.part (by omega)) (by rw [Nat.add_assoc, Nat.add_comm 1 n]; exact zero)

theorem HoldsString.path {address : UInt64} (string : address = 0 ∨ m.HoldsString address.toNat) :
    ∃ text, m.path address = some text := by
  rw [Machine.path]
  split_ifs with null
  · exact ⟨[], rfl⟩
  · obtain ⟨n, holds, zero⟩ := string.resolve_left null
    have enough : n < m.programs.last - address.toNat := by
      unfold Holds at holds
      omega
    exact Option.isSome_iff_exists.mp (stringLoop_isSome enough holds zero)

theorem put_isSome {address : UInt64} {bytes : List UInt8} {size : Nat} (holds : m.Holds address.toNat size)
    (short : bytes.length ≤ size) : (m.put address bytes).isSome := by
  rw [put, if_pos (holds.shorter short)]
  rfl

theorem put_nil_isSome (address : UInt64) : (m.put address []).isSome := put_isSome (Or.inl rfl) (Nat.le_refl 0)

end Machine

/-- The string that a call is given. -/
def stringArgument (nr : Nat) (a : Args) : Option UInt64 :=
  if nr ∈ [2, 4, 59, 80, 83, 84, 87] then some a.a0
  else if nr = 257 then some a.a1
  else none

/-- Where a call may store, and how many bytes. -/
def outputBuffer (nr : Nat) (a : Args) : UInt64 × Nat :=
  match nr with
  | 0 => (a.a1, a.a2.toNat)
  | 4 => (a.a1, statSize)
  | 5 => (a.a1, statSize)
  | 61 => (a.a1, 4)
  | 63 => (a.a0, 325)
  | 79 => (a.a0, a.a1.toNat)
  | 96 => (a.a0, 16)
  | _ => (0, 0)

def inputBuffer (nr : Nat) (a : Args) : UInt64 × Nat :=
  match nr with
  | 1 => (a.a1, a.a2.toNat)
  | 35 => (a.a0, 16)
  | _ => (0, 0)

/-- The buffer lies in the memory of the programs; all calls but `read` and `write` look for `NULL`. -/
def BufferInside (m : Machine) (nr : Nat) (buffer : UInt64 × Nat) : Prop :=
  m.Holds buffer.1.toNat buffer.2 ∨ (buffer.1 = 0 ∧ nr ≠ 0 ∧ nr ≠ 1)

/-- What a call is given lies in the memory of the programs, and what it writes in the storage of the file. -/
structure Inside (m : Machine) (nr : Nat) (a : Args) : Prop where
  string : ∀ address, stringArgument nr a = some address → address = 0 ∨ m.HoldsString address.toNat
  output : BufferInside m nr (outputBuffer nr a)
  input : BufferInside m nr (inputBuffer nr a)
  storage : nr = 1 → WriteFits m.fs (intArg a.a0) a.a2.toNat

/-! ## Calls that come back -/

theorem consoleReadLoop_length (count : Nat) (c : Console) : (consoleReadLoop count c).1.length ≤ count := by
  induction count generalizing c with
  | zero => exact Nat.le_refl 0
  | succ count ih =>
      rw [consoleReadLoop]
      split
      · exact Nat.zero_le _
      · exact Nat.succ_le_succ (ih _)

/-- A read stores what it counts: at most what was asked for, and nothing when it fails. -/
theorem fsReadFd_bytes (s : Fs) (fd : Int) (count : Nat) :
    (fsReadFd s fd count).1.2.length ≤ count ∧
      ((fsReadFd s fd count).1.2 = [] ∨ (fsReadFd s fd count).1.1 = toSigned (fsReadFd s fd count).1.2.length) := by
  have console := consoleReadLoop_length count s.console
  unfold fsReadFd
  dsimp only
  split
  · split_ifs
    · exact ⟨console, Or.inr rfl⟩
    · exact ⟨Nat.zero_le _, Or.inl rfl⟩
  · split
    · exact ⟨Nat.zero_le _, Or.inl rfl⟩
    · split_ifs with zero other counted
      · exact ⟨by simp, Or.inr (by simp)⟩
      · exact ⟨console, Or.inr rfl⟩
      all_goals
        unfold tmpfsReadNode
        split
        · exact ⟨Nat.zero_le _, Or.inl rfl⟩
        · split_ifs
          · exact ⟨Nat.zero_le _, Or.inl rfl⟩
          · exact ⟨Nat.zero_le _, Or.inl rfl⟩
          · exact ⟨by simp, Or.inr (by simp)⟩

theorem Stat.bytes_length (stat : Stat) : stat.bytes.length = statSize := by simp [Stat.bytes, leStore, statSize]

theorem tmpfsCreatePath_isSome_iff {s : Tmpfs} (inv : TreeInv s) (path : List UInt8) (type : NodeType) (mode : UInt32) :
    (tmpfsCreatePath s path type mode).isSome ↔ SplitFits s path := by
  constructor
  · intro returns
    by_contra unfit
    rw [tmpfsCreatePath_overflow unfit] at returns
    cases returns
  · intro fits
    obtain ⟨existing, resolved, -⟩ := inv.resolvePath_resolved path
    by_cases bad : path.head? ≠ some slash ∨ path.length = 1
    · rw [tmpfsCreatePath, if_pos bad]
      rfl
    by_cases found : 0 ≤ existing
    · rw [tmpfsCreatePath, if_neg bad, resolved, Option.bind_eq_bind, Option.bind_some, if_pos found]
      rfl
    obtain ⟨rooted, notRoot⟩ := not_or.mp bad
    have reached : SplitReached s path := ⟨not_not.mp rooted, notRoot, existing, resolved, Int.not_le.mp found⟩
    obtain ⟨parentFits, leafFits⟩ :=
      (splitParentInto_within (fun _ => 0) (fun _ => 0) path).mp (fits reached (fun _ => 0) (fun _ => 0))
    have split : splitParent path = some (splitText path) := by
      simp only [splitParent, copyInto, pathMax, nameMax, parentFits, leafFits, if_true]
      rfl
    obtain ⟨p, resolvedParent, -⟩ := inv.resolvePath_resolved (splitText path).1
    rw [tmpfsCreatePath, if_neg bad, resolved, Option.bind_eq_bind, Option.bind_some, if_neg found, split, Option.bind_eq_bind,
      Option.bind_some]
    dsimp only
    rw [resolvedParent, Option.bind_some]
    split_ifs <;> rfl

theorem fsOpenPath_isSome_iff {s : Fs} (inv : TreeInv s.tmpfs) (path : List UInt8) (flags mode : UInt32) :
    (fsOpenPath s path flags mode).isSome ↔ (flags &&& oCREAT ≠ 0 → SplitFits s.tmpfs (s.resolve path)) := by
  have opens : (fsOpenPath s path flags mode).isSome = (openNode s.tmpfs (s.resolve path) flags mode).isSome := by
    rw [fsOpenPath, Fs.resolve]
    cases openNode s.tmpfs (normalizePath (taskCurrent s.tasks).cwd path) flags mode with
    | none => rfl
    | some result =>
        rw [Option.bind_eq_bind, Option.bind_some]
        dsimp only
        split_ifs <;> rfl
  obtain ⟨nodeId, found, -⟩ := inv.resolvePath_resolved (s.resolve path)
  have looked : tmpfsLookupPath s.tmpfs (s.resolve path) = some nodeId := found
  rw [opens, openNode, looked, Option.bind_eq_bind, Option.bind_some]
  by_cases creates : nodeId < 0 ∧ flags &&& oCREAT ≠ 0
  · rw [if_pos creates, tmpfsCreatePath_isSome_iff inv]
    exact ⟨fun fits _ => fits, fun fits => fits creates.2⟩
  · rw [if_neg creates]
    refine iff_of_true rfl fun flag reached => ?_
    obtain ⟨e, missing, negative⟩ := reached.missing
    rw [found, Option.some.injEq] at missing
    exact absurd ⟨missing ▸ negative, flag⟩ creates

/-- The path that a call creates a node for, if it names nothing yet. -/
def creates (m : Machine) (nr : Nat) (a : Args) : Option (List UInt8) :=
  if nr = 83 then m.path a.a0
  else if nr = 2 ∧ a.a1.toUInt32 &&& oCREAT ≠ 0 then m.path a.a0
  else if nr = 257 ∧ toSigned a.a0.toNat = atFdcwd ∧ a.a2.toUInt32 &&& oCREAT ≠ 0 then m.path a.a1
  else none

def NamesFit (m : Machine) (nr : Nat) (a : Args) : Prop :=
  ∀ path ∈ creates m nr a, SplitFits m.fs.tmpfs (m.fs.resolve path)

/-- What decides whether a handler comes back. -/
def Returns (entry : Nat × SyscallHandler) : Prop :=
  ∀ m a, SystemInv m.kernel → Inside m entry.1 a → ((entry.2 m a).isSome ↔ entry.1 ≠ 169 ∧ NamesFit m entry.1 a)

section
variable {stack : Nat → UInt8}

theorem returns_always {nr : Nat} {handler : SyscallHandler} (harmless : nr ≠ 169) (creating : nr ≠ 83 ∧ nr ≠ 2 ∧ nr ≠ 257)
    (always : ∀ m a, SystemInv m.kernel → Inside m nr a → (handler m a).isSome) : Returns (nr, handler) := by
  intro m a inv inside
  refine iff_of_true (always m a inv inside) ⟨harmless, fun path created => ?_⟩
  simp [creates, creating] at created

theorem returns_path {nr : Nat} {call : Fs → List UInt8 → Option (Int × Fs)} (harmless : nr ≠ 169)
    (creating : nr ≠ 83 ∧ nr ≠ 2 ∧ nr ≠ 257) (string : ∀ a, stringArgument nr a = some a.a0) (always : ∀ s path, TreeInv s.tmpfs → (call s path).isSome) :
    Returns (nr, pathCall call) := by
  refine returns_always harmless creating fun m a inv inside => ?_
  obtain ⟨path, text⟩ := Machine.HoldsString.path (inside.string _ (string a))
  obtain ⟨result, called⟩ := Option.isSome_iff_exists.mp (always m.fs path inv.probes.tree)
  simp only [pathCall, text, called, Option.bind_eq_bind, Option.bind_some]
  rfl

theorem fsRemovePath_isSome {s : Fs} (inv : TreeInv s.tmpfs) (path : List UInt8) (wantDir : Bool) :
    (fsRemovePath s path wantDir).isSome := by
  obtain ⟨result, removed⟩ := inv.remove_returns (normalizePath (taskCurrent s.tasks).cwd path) wantDir
  rw [fsRemovePath, removed]
  rfl

theorem fsChdirPath_isSome {s : Fs} (inv : TreeInv s.tmpfs) (path : List UInt8) : (fsChdirPath s path).isSome := by
  obtain ⟨nodeId, found, -⟩ := inv.resolvePath_resolved (normalizePath (taskCurrent s.tasks).cwd path)
  have looked : tmpfsLookupPath s.tmpfs (normalizePath (taskCurrent s.tasks).cwd path) = some nodeId := found
  simp only [fsChdirPath, looked, Option.bind_eq_bind, Option.bind_some]
  split_ifs
  · rfl
  · split
    · rfl
    · split_ifs <;> rfl

theorem sysMkdir_returns : Returns (83, sysMkdir) := by
  intro m a inv inside
  obtain ⟨path, text⟩ := Machine.HoldsString.path (inside.string a.a0 rfl)
  have named : NamesFit m 83 a ↔ SplitFits m.fs.tmpfs (m.fs.resolve path) := by simp [NamesFit, creates, text]
  have made : (sysMkdir m a).isSome =
      (tmpfsCreatePath m.fs.tmpfs (m.fs.resolve path) .dir a.a1.toUInt32).isSome := by
    simp only [sysMkdir, pathCall, text, Option.bind_eq_bind, Option.bind_some, fsMkdirPath]
    rw [← Fs.resolve]
    cases tmpfsCreatePath m.fs.tmpfs (m.fs.resolve path) .dir a.a1.toUInt32 <;> rfl
  have tree : TreeInv m.fs.tmpfs := inv.probes.tree
  rw [made, tmpfsCreatePath_isSome_iff tree, named]
  exact ⟨fun fits => ⟨by decide, fits⟩, fun both => both.2⟩

theorem sysOpen_returns : Returns (2, sysOpen) := by
  intro m a inv inside
  obtain ⟨path, text⟩ := Machine.HoldsString.path (inside.string a.a0 rfl)
  have named : NamesFit m 2 a ↔ (a.a1.toUInt32 &&& oCREAT ≠ 0 → SplitFits m.fs.tmpfs (m.fs.resolve path)) := by
    by_cases flag : a.a1.toUInt32 &&& oCREAT = 0 <;> simp [NamesFit, creates, text, flag]
  have opened : (sysOpen m a).isSome = (fsOpenPath m.fs path a.a1.toUInt32 a.a2.toUInt32).isSome := by
    simp only [sysOpen, text, Option.bind_eq_bind, Option.bind_some]
    cases fsOpenPath m.fs path a.a1.toUInt32 a.a2.toUInt32 <;> rfl
  have tree : TreeInv m.fs.tmpfs := inv.probes.tree
  rw [opened, fsOpenPath_isSome_iff tree, named]
  exact ⟨fun fits => ⟨by decide, fits⟩, fun both => both.2⟩

theorem sysOpenat_returns : Returns (257, sysOpenat) := by
  intro m a inv inside
  by_cases here : toSigned a.a0.toNat = atFdcwd
  · obtain ⟨path, text⟩ := Machine.HoldsString.path (inside.string a.a1 rfl)
    have named : NamesFit m 257 a ↔ (a.a2.toUInt32 &&& oCREAT ≠ 0 → SplitFits m.fs.tmpfs (m.fs.resolve path)) := by
      by_cases flag : a.a2.toUInt32 &&& oCREAT = 0 <;> simp [NamesFit, creates, text, here, flag]
    have opened : (sysOpenat m a).isSome = (fsOpenPath m.fs path a.a2.toUInt32 a.a3.toUInt32).isSome := by
      rw [sysOpenat, if_neg (not_not.mpr here)]
      simp only [text, Option.bind_eq_bind, Option.bind_some]
      cases fsOpenPath m.fs path a.a2.toUInt32 a.a3.toUInt32 <;> rfl
    have tree : TreeInv m.fs.tmpfs := inv.probes.tree
    dsimp only
    rw [opened, fsOpenPath_isSome_iff tree, named]
    exact ⟨fun fits => ⟨by decide, fits⟩, fun both => both.2⟩
  · refine iff_of_true ?_ ⟨by decide, fun path created => ?_⟩
    · show (sysOpenat m a).isSome
      rw [sysOpenat, if_pos here]
      rfl
    · simp [creates, here] at created

/-- A file as large as its storage does not make the heap wrap. -/
theorem sysExecve_comes_back : Returns (59, sysExecveCall stack) := by
  refine returns_always (by decide) (by decide) fun m a inv inside => ?_
  obtain ⟨path, text⟩ := Machine.HoldsString.path (inside.string a.a0 rfl)
  have grants : sysExecve stack m.kernel path ≠ none := by
    intro stuck
    obtain ⟨n, asks, wraps⟩ := (inv.probes.execve stack path).2.1.mp stuck
    obtain ⟨nodeId, -, asks⟩ := Option.bind_eq_some_iff.mp asks
    split_ifs at asks
    cases asks
    have small : (m.kernel.fs.tmpfs.node nodeId).size ≤ arenaSize :=
      Nat.le_trans (inv.storage.size_le nodeId.toNat) (inv.probes.sizes.capacity nodeId.toNat)
    have offset := inv.probes.bounded
    unfold TestWraps wordSize at wraps
    unfold arenaSize at small
    unfold kernelHeapSize at offset
    omega
  obtain ⟨result, called⟩ := Option.ne_none_iff_exists'.mp grants
  simp only [sysExecveCall, text, called, Option.bind_eq_bind, Option.bind_some]
  rfl

theorem sysStat_returns : Returns (4, sysStat) := by
  refine returns_always (by decide) (by decide) fun m a inv inside => ?_
  obtain ⟨path, text⟩ := Machine.HoldsString.path (inside.string a.a0 rfl)
  obtain ⟨nodeId, found, -⟩ := inv.probes.tree.resolvePath_resolved (normalizePath (taskCurrent m.fs.tasks).cwd path)
  have looked : tmpfsLookupPath m.fs.tmpfs (normalizePath (taskCurrent m.fs.tasks).cwd path) = some nodeId := found
  obtain ⟨r, stat, stats, empty⟩ : ∃ r stat, fsStatPath m.fs path (a.a1 ≠ 0) = some (r, stat) ∧ (a.a1 = 0 → stat = none) := by
    simp only [fsStatPath, looked, Option.bind_eq_bind, Option.bind_some]
    split
    · exact ⟨_, _, rfl, fun _ => rfl⟩
    · rename_i node _
      by_cases null : a.a1 = 0
      · exact ⟨-eINVAL, none, by simp [null], fun _ => rfl⟩
      · exact ⟨0, some (fillStatFromNode node), by simp [null], fun zero => absurd zero null⟩
  have stored : (m.put a.a1 (stat.elim [] Stat.bytes)).isSome := by
    rcases inside.output with holds | ⟨null, -⟩
    · refine Machine.put_isSome holds ?_
      cases stat with
      | none => exact Nat.zero_le _
      | some stat => exact Nat.le_of_eq stat.bytes_length
    · rw [empty null]
      exact Machine.put_nil_isSome a.a1
  obtain ⟨after, put⟩ := Option.isSome_iff_exists.mp stored
  simp only [sysStat, text, stats, put, Option.bind_eq_bind, Option.bind_some]
  rfl

/-- A call that stores in its buffer unless that is `NULL` or refused. -/
theorem returns_refusal {nr : Nat} {handler : SyscallHandler} (harmless : nr ≠ 169) (creating : nr ≠ 83 ∧ nr ≠ 2 ∧ nr ≠ 257)
    {bad : Machine → Args → Prop} [∀ m a, Decidable (bad m a)] {error : Int} {value : Machine → Args → Int}
    {bytes : Machine → Args → List UInt8}
    (returns : ∀ m a, handler m a = if bad m a then some (error, m)
      else (m.put (outputBuffer nr a).1 (bytes m a)).map fun m' => (value m a, m'))
    (null : ∀ m a, (outputBuffer nr a).1 = 0 → bad m a)
    (short : ∀ m a, ¬bad m a → (bytes m a).length ≤ (outputBuffer nr a).2) : Returns (nr, handler) := by
  refine returns_always harmless creating fun m a inv inside => ?_
  rw [returns]
  split_ifs with refused
  · rfl
  · rw [Option.isSome_map]
    exact Machine.put_isSome (inside.output.resolve_right fun zero => refused (null m a zero.1)) (short m a refused)

theorem readCount_le (s : Fs) (fd : Int) (buffer count : UInt64) : readCount s fd buffer count ≤ count.toNat := by
  unfold readCount
  split_ifs
  · exact Nat.min_le_left _ _
  · exact Nat.le_refl _

theorem readInto_isSome {m : Machine} {fd : Int} {buffer count : UInt64} (holds : m.Holds buffer.toNat count.toNat) :
    (readInto m fd buffer count).isSome := by
  have short := (fsReadFd_bytes m.fs fd (readCount m.fs fd buffer count)).1
  rw [readInto, Option.isSome_map]
  exact Machine.put_isSome (m := m.setFs _) holds (Nat.le_trans short (readCount_le m.fs fd buffer count))

theorem fstatInto_isSome {m : Machine} {fd : Int} {statbuf : UInt64} (holds : statbuf = 0 ∨ m.Holds statbuf.toNat statSize) :
    (fstatInto m fd statbuf).isSome := by
  unfold fstatInto
  split
  · rfl
  · split_ifs with null
    · rfl
    · rw [Option.isSome_map]
      exact Machine.put_isSome (holds.resolve_left null) (Nat.le_of_eq (Stat.bytes_length _))

theorem sysWait4_status (tasks : TaskTable) (hasStatus : Bool) :
    ((sysWait4 tasks hasStatus).2.elim [] fun code => leStore 4 (toSize code)).length ≤ 4 ∧
      (hasStatus = false → (sysWait4 tasks hasStatus).2 = none) := by
  unfold sysWait4
  cases (List.range' 1 (maxTasks - 1)).findSome? (waitCandidate tasks) with
  | none => exact ⟨Nat.zero_le 4, fun _ => rfl⟩
  | some child => cases hasStatus <;> simp [leStore]

theorem syscallTable_returns : ∀ entry ∈ syscallTable stack, Returns entry := by
  simp only [syscallTable, List.forall_mem_cons, List.not_mem_nil, IsEmpty.forall_iff, implies_true, and_true]
  have plain {nr : Nat} {handler : SyscallHandler} (harmless : nr ≠ 169) (creating : nr ≠ 83 ∧ nr ≠ 2 ∧ nr ≠ 257)
      (always : ∀ m a, (handler m a).isSome) : Returns (nr, handler) :=
    returns_always harmless creating fun m a _ _ => always m a
  refine ⟨?read, ?write, sysOpen_returns, ?_, sysStat_returns, ?fstat, ?_, ?_, ?_, ?_, ?_, ?_, ?_, ?_, ?sleep, ?_, ?_, ?_,
    sysExecve_comes_back, ?_, ?wait, ?_, ?uname, ?getcwd, ?chdir, sysMkdir_returns, ?rmdir, ?unlink, ?time, ?reboot,
    sysOpenat_returns⟩
  case chdir => exact returns_path (by decide) (by decide) (fun _ => rfl) fun _ path inv => fsChdirPath_isSome inv path
  case rmdir => exact returns_path (by decide) (by decide) (fun _ => rfl) fun _ path inv => fsRemovePath_isSome inv path true
  case unlink => exact returns_path (by decide) (by decide) (fun _ => rfl) fun _ path inv => fsRemovePath_isSome inv path false
  case reboot => exact fun m a _ _ => iff_of_false (fun returns => nomatch returns) fun both => both.1 rfl
  case read =>
    refine returns_always (by decide) (by decide) fun m a _ inside => readInto_isSome ?_
    exact inside.output.resolve_right fun null => null.2.1 rfl
  case write =>
    refine returns_always (by decide) (by decide) fun m a _ inside => ?_
    have holds : m.Holds a.a1.toNat a.a2.toNat := inside.input.resolve_right fun null => null.2.2 rfl
    have stays : WriteFits m.fs (intArg a.a0) a.a2.toNat ∧
        (writeReads m.fs (intArg a.a0) a.a2.toNat → m.Holds a.a1.toNat a.a2.toNat) := ⟨inside.storage rfl, fun _ => holds⟩
    rw [sysWrite, writeFrom, if_pos stays]
    rfl
  case fstat =>
    exact returns_always (by decide) (by decide) fun m a _ inside => fstatInto_isSome (inside.output.symm.imp And.left id)
  case sleep =>
    refine returns_always (by decide) (by decide) fun m a _ inside => ?_
    have requested : (m.timespec a.a0).isSome := by
      unfold Machine.timespec Machine.get
      split_ifs with null outside
      · rfl
      · rfl
      · exact absurd (inside.input.resolve_right fun zero => null zero.1) outside
    obtain ⟨request, given⟩ := Option.isSome_iff_exists.mp requested
    simp only [sysNanosleepCall, given, Option.bind_eq_bind, Option.bind_some]
    rfl
  case wait =>
    refine returns_always (by decide) (by decide) fun m a _ inside => ?_
    obtain ⟨short, none⟩ := sysWait4_status m.tasks (a.a1 ≠ 0)
    rw [sysWait4Call, Option.isSome_map]
    rcases inside.output with holds | ⟨null, -⟩
    · exact Machine.put_isSome holds short
    · change a.a1 = 0 at null
      rw [none (by simp [null])]
      exact Machine.put_nil_isSome a.a1
  case uname =>
    exact returns_refusal (by decide) (by decide) (fun m a => rfl) (fun _ _ null => null)
      fun m a _ => show utsname.length ≤ 325 by decide +kernel
  case getcwd =>
    refine returns_refusal (by decide) (by decide) (fun m a => rfl) (fun _ _ null => Or.inl null) fun m a good => ?_
    rw [List.length_append, List.length_singleton]
    exact Nat.not_lt.mp fun small => good (Or.inr small)
  case time =>
    refine returns_refusal (by decide) (by decide) (fun m a => rfl) (fun _ _ null => null) fun m a _ => ?_
    simp [leStore, outputBuffer]
  all_goals exact plain (by decide) (by decide) fun m a => rfl

/-- The numbers without a handler are none of those that matter. -/
theorem syscallDispatch_isSome_iff {m : Machine} (inv : SystemInv m.kernel) {nr : UInt64} {a : Args}
    (inside : Inside m nr.toNat a) : (syscallDispatch stack m nr a).isSome ↔ nr ≠ 169 ∧ NamesFit m nr.toNat a := by
  have number : nr ≠ 169 ↔ nr.toNat ≠ 169 := not_congr UInt64.toNat_inj.symm
  rw [number]
  have unknown (none : ∀ entry ∈ syscallTable stack, entry.1 ≠ nr.toNat) : nr.toNat ≠ 169 ∧ NamesFit m nr.toNat a := by
    simp only [syscallTable, List.forall_mem_cons] at none
    refine ⟨by omega, fun path created => ?_⟩
    rw [creates, if_neg (by omega), if_neg (by omega), if_neg (by omega)] at created
    cases created
  unfold syscallDispatch
  split_ifs with large
  · refine iff_of_true rfl (unknown fun entry member => ?_)
    have small : ∀ entry ∈ syscallTable stack, entry.1 < 512 := by
      simp only [syscallTable, List.forall_mem_cons, List.not_mem_nil, IsEmpty.forall_iff, implies_true, and_true]
      decide
    have below := small entry member
    unfold syscallMax at large
    omega
  · split
    · rename_i none
      exact iff_of_true rfl (unknown fun entry member => by simpa using List.find?_eq_none.mp none entry member)
    · rename_i known handler found
      have same : known = nr.toNat := by simpa using List.find?_some found
      subst same
      exact syscallTable_returns _ (List.mem_of_find?_eq_some found) m a inv inside

end

/-! ## Runs -/

inductive MachineOp
  | syscall (nr : UInt64) (a : Args)
  | program (memory : Nat → UInt8)
  | tick (total free : UInt64)
  | input (c : UInt8)

def Machine.sched (m : Machine) : Sched :=
  { tasks := m.tasks, uptimeTicks := m.uptimeTicks, guard := m.guard, safebootAction := m.safebootAction }

def machineStep (stack : Nat → UInt8) (m : Machine) : MachineOp → Option Machine
  | .syscall nr a => (syscallDispatch stack m nr a).map Prod.snd
  | .program memory => some { m with memory := memory }
  | .tick total free => (schedulerTick m.sched total free).toOption.map fun s =>
      { m.setTasks s.tasks with uptimeTicks := s.uptimeTicks, guard := s.guard }
  | .input c => some (m.setFs { m.fs with console := consoleEnqueueInput m.fs.console c })

def machineBoot (s : Fs) (programs : ProgramMemory) (memory : Nat → UInt8) : Machine :=
  { kernel := { fs := s }, programs, memory }

theorem SystemInv.step {stack : Nat → UInt8} {m m' : Machine} (inv : SystemInv m.kernel) {op : MachineOp}
    (steps : machineStep stack m op = some m') : SystemInv m'.kernel := by
  cases op with
  | syscall nr a =>
      obtain ⟨⟨r, after⟩, returns, rfl⟩ := Option.map_eq_some_iff.mp steps
      exact inv.effect (syscallDispatch_effect returns).kernel
  | program memory =>
      cases steps
      exact inv
  | tick total free =>
      obtain ⟨s, ticks, rfl⟩ := Option.map_eq_some_iff.mp steps
      show SystemInv { m.kernel with fs := { m.kernel.fs with tasks := s.tasks } }
      rw [(schedulerTick_tasks ticks).1]
      exact inv.taskCall (.task (.tick (m.uptimeTicks + 1)))
  | input c =>
      cases steps
      exact inv.setConsole _

theorem SystemInv.of_run {stack : Nat → UInt8} {console : Console} {s : Fs} (boots : fsBoot console = some s)
    {programs : ProgramMemory} {memory : Nat → UInt8} {ops : List MachineOp} {m : Machine}
    (reaches : run (machineStep stack) (machineBoot s programs memory) ops = some m) : SystemInv m.kernel := by
  have keeps (m : Machine) (op : MachineOp) (m' : Machine) (inv : SystemInv m.kernel) (_ : True)
      (steps : machineStep stack m op = some m') : SystemInv m'.kernel := inv.step steps
  have start : SystemInv (machineBoot s programs memory).kernel := SystemInv.boot boots
  exact run_invariant keeps (fun _ _ => trivial) start reaches

/-- As long as the calls keep to the memory of the programs: the tables stay consistent, and every call comes back that is not
`reboot` and does not create a name beyond the buffer. -/
theorem system_keeps_running (stack : Nat → UInt8) {console : Console} {s : Fs} (boots : fsBoot console = some s)
    (programs : ProgramMemory) (memory : Nat → UInt8) {ops : List MachineOp} {m : Machine}
    (reaches : run (machineStep stack) (machineBoot s programs memory) ops = some m) :
    SystemInv m.kernel ∧ ∀ nr a, Inside m nr.toNat a →
      ((syscallDispatch stack m nr a).isSome ↔ nr ≠ 169 ∧ NamesFit m nr.toNat a) := by
  have inv := SystemInv.of_run boots reaches
  exact ⟨inv, fun nr a inside => syscallDispatch_isSome_iff inv inside⟩

/-- Four pages of one program, with a string in the first. -/
def samplePrograms : ProgramMemory := { first := 0x800000, last := 0x804000, mapped := by decide }

def pathMemory : Nat → UInt8 := fun a => (ascii "/tmp/x").getD (a - 0x800000) 0

def mkdirRun : List MachineOp :=
  [.syscall 83 { a0 := 0x800000, a1 := 0o755 }, .tick 512 256, .syscall 57 {}, .syscall 4 { a0 := 0x800000, a1 := 0x801000 }]

theorem system_keeps_running_mkdir :
    ∃ s m, fsBoot {} = some s ∧ run (machineStep fun _ => 0) (machineBoot s samplePrograms pathMemory) mkdirRun = some m ∧
      SystemInv m.kernel ∧ (syscallDispatch (fun _ => 0) m 87 { a0 := 0x800000 }).isSome := by
  have runs : ((fsBoot {}).bind fun s =>
      run (machineStep fun _ => 0) (machineBoot s samplePrograms pathMemory) mkdirRun).map
      (fun m => decide (m.Holds 0x800000 7 ∧ m.memory (0x800000 + 6) = 0)) = some true := by decide +kernel
  obtain ⟨m, reaches, holds, zero⟩ := exists_of_check runs
  obtain ⟨s, boots, reaches⟩ := Option.bind_eq_some_iff.mp reaches
  obtain ⟨inv, back⟩ := system_keeps_running (fun _ => 0) boots samplePrograms pathMemory reaches
  have inside : Inside m 87 { a0 := 0x800000 } := by
    refine ⟨fun address given => ?_, Or.inl (Or.inl rfl), Or.inl (Or.inl rfl), nofun⟩
    cases given
    exact Or.inr ⟨6, holds, zero⟩
  have fits : NamesFit m 87 { a0 := 0x800000 } := fun path created => nomatch created
  exact ⟨s, m, boots, reaches, inv, (back 87 { a0 := 0x800000 } inside).mpr ⟨by decide, fits⟩⟩

end Mgcore
