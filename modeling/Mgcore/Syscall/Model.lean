import Mgcore.Fs.Execve
import Mgcore.Sched.Model

/-!
# The system calls

`src/syscall/syscall_impl.c`, the table of `src/syscall/syscall_table.c` and `syscall_dispatch` of `src/kernel/syscall.c`.
A handler takes the six arguments as they come in registers, and no pointer is checked. The kernel maps the first gigabyte
and shares it with the programs; `ProgramMemory` is the part of it where the kernel keeps nothing. `none` is a call that
does not come back (`reboot`, a name that leaves its buffer, a request that the heap never finishes), or one that leaves the
memory that is modelled: an address elsewhere is a page fault or data of the kernel, and so is a write beyond the storage of
its file.
-/

namespace Mgcore
open Lib

def eFAULT : Int := 14
def eNOSYS : Int := 38
def atFdcwd : Int := -100
def syscallMax : Nat := 512  -- `MGCORE_SYSCALL_MAX`

/-- The addresses from `first` up to `last`. -/
structure ProgramMemory where
  first : Nat
  last : Nat
  mapped : last ≤ 2 ^ 30

structure Machine where
  kernel : Kernel
  uptimeTicks : UInt64 := 0
  guard : MemoryGuard := {}
  safebootAction : SafebootAction := .reboot
  programs : ProgramMemory
  memory : Nat → UInt8

structure Args where
  a0 : UInt64 := 0
  a1 : UInt64 := 0
  a2 : UInt64 := 0
  a3 : UInt64 := 0
  a4 : UInt64 := 0
  a5 : UInt64 := 0

abbrev SyscallHandler := Machine → Args → Option (Int × Machine)

namespace Machine

def fs (m : Machine) : Fs := m.kernel.fs

def tasks (m : Machine) : TaskTable := m.kernel.fs.tasks

def setFs (m : Machine) (s : Fs) : Machine := { m with kernel := { m.kernel with fs := s } }

/-- The result of a call on the file system. -/
def onFs (m : Machine) (result : Int × Fs) : Int × Machine := (result.1, m.setFs result.2)

def setTasks (m : Machine) (tasks : TaskTable) : Machine := m.setFs { m.fs with tasks := tasks }

/-- The bytes belong to the programs, all of them. -/
def Holds (m : Machine) (address size : Nat) : Prop :=
  size = 0 ∨ (m.programs.first ≤ address ∧ address + size ≤ m.programs.last)

instance (m : Machine) (address size : Nat) : Decidable (m.Holds address size) := inferInstanceAs (Decidable (_ ∨ _))

def put (m : Machine) (address : UInt64) (bytes : List UInt8) : Option Machine :=
  if m.Holds address.toNat bytes.length then some { m with memory := store wordSize m.memory address.toNat bytes } else none

def get (m : Machine) (address : UInt64) (size : Nat) : Option (List UInt8) :=
  if m.Holds address.toNat size then some (load wordSize m.memory address.toNat size) else none

/-- The string at an address. -/
def stringLoop (m : Machine) : Nat → Nat → Option (List UInt8)
  | 0, _ => none
  | fuel + 1, address =>
      if ¬m.Holds address 1 then none
      else if m.memory address = 0 then some []
      else (stringLoop m fuel (address + 1)).map (m.memory address :: ·)

/-- A path. `normalize_path` takes `NULL` for the empty one. -/
def path (m : Machine) (address : UInt64) : Option (List UInt8) :=
  if address = 0 then some [] else m.stringLoop (m.programs.last - address.toNat) address.toNat

end Machine

def intArg (a : UInt64) : Int := toInt a.toNat

def leStore (width : Nat) (n : Nat) : List UInt8 := (List.range width).map fun i => (n / 2 ^ (8 * i)).toUInt8

/-! ## Files -/

/-- The reads of `fs_read_fd` that take characters from the console. -/
def readsConsole (s : Fs) (fd : Int) : Bool :=
  match lookupFile s fd with
  | none => fd = 0
  | some f =>
      match tmpfsGetNode s.tmpfs (s.openFiles f).nodeId with
      | none => false
      | some node => node.type = .chardev ∧ (node.deviceId = devNULL ∨ node.deviceId = devCONSOLE ∨ node.deviceId = devTTY)

/-- `console_try_read_char` refuses a `NULL` pointer, which ends a read from the console. -/
def readCount (s : Fs) (fd : Int) (buffer count : UInt64) : Nat :=
  if readsConsole s fd then min count.toNat ((wordSize - buffer.toNat) % wordSize) else count.toNat

def readInto (m : Machine) (fd : Int) (buffer count : UInt64) : Option (Int × Machine) :=
  let result := fsReadFd m.fs fd (readCount m.fs fd buffer count)
  ((m.setFs result.2).put buffer result.1.2).map fun m => (result.1.1, m)

def sysRead : SyscallHandler := fun m a => readInto m (intArg a.a0) a.a1 a.a2

instance (s : Tmpfs) (i endOffset : Nat) : Decidable (Refused s i endOffset) := inferInstanceAs (Decidable (_ ∧ _))

instance (s : Fs) (fd : Int) (count : Nat) : Decidable (WriteFits s fd count) :=
  match entry : lookupFile s fd with
  | none => isTrue fun f i onFile => nomatch entry.symm.trans onFile.entry
  | some f =>
      let i := (s.openFiles f).nodeId.toNat
      decidable_of_iff (OnFile s fd f i → (s.openFiles f).offset + count ≤ writeLimit ∨
          Refused s.tmpfs i (((s.openFiles f).offset + count) % wordSize))
        ⟨fun fits g j onFile => by
          have same : g = f := Option.some.inj (onFile.entry.symm.trans entry)
          subst same
          have node : j = i := by rw [← Int.toNat_natCast j, ← onFile.node]
          subst node
          exact fits onFile, fun fits => fits f i⟩

/-- The writes of `fs_write_fd` that read the buffer: to the console, and to a file that has or gets the room. -/
def writeReads (s : Fs) (fd : Int) (count : Nat) : Bool :=
  match lookupFile s fd with
  | none => fd = 1 ∨ fd = 2
  | some f =>
      let file := s.openFiles f
      match tmpfsGetNode s.tmpfs file.nodeId with
      | none => false
      | some node =>
          match node.type with
          | .chardev => node.deviceId = devCONSOLE ∨ node.deviceId = devTTY
          | .file => ¬Refused s.tmpfs file.nodeId.toNat ((file.offset + count) % wordSize)
          | _ => false

def writeFrom (m : Machine) (fd : Int) (buffer : UInt64) (count : Nat) : Option (Int × Machine) :=
  if WriteFits m.fs fd count ∧ (writeReads m.fs fd count → m.Holds buffer.toNat count) then
    some (m.onFs (fsWriteFd m.fs fd (load wordSize m.memory buffer.toNat count)))
  else none

def sysWrite : SyscallHandler := fun m a => writeFrom m (intArg a.a0) a.a1 a.a2.toNat

def sysOpen : SyscallHandler := fun m a => do
  let path ← m.path a.a0
  let (r, s) ← fsOpenPath m.fs path a.a1.toUInt32 a.a2.toUInt32
  return (r, m.setFs s)

def sysOpenat : SyscallHandler := fun m a => do
  if toSigned a.a0.toNat ≠ atFdcwd then return (-eNOSYS, m)
  let path ← m.path a.a1
  let (r, s) ← fsOpenPath m.fs path a.a2.toUInt32 a.a3.toUInt32
  return (r, m.setFs s)

def sysClose : SyscallHandler := fun m a => some (m.onFs (fsCloseFd m.fs (intArg a.a0)))

def statSize : Nat := 120

/-- The bytes of a `struct mgcore_stat`. -/
def Stat.bytes (stat : Stat) : List UInt8 :=
  leStore 8 0 ++ leStore 8 (toSize stat.ino) ++ leStore 8 stat.nlink ++ leStore 4 stat.mode.toNat ++ leStore 4 0 ++
  leStore 4 0 ++ leStore 4 0 ++ leStore 8 0 ++ leStore 8 (toSize stat.size) ++ leStore 8 (toSize stat.blksize) ++
  leStore 8 (toSize stat.blocks) ++ List.replicate 48 0

def sysStat : SyscallHandler := fun m a => do
  let path ← m.path a.a0
  let (r, stat) ← fsStatPath m.fs path (a.a1 ≠ 0)
  let m ← m.put a.a1 (stat.elim [] Stat.bytes)
  return (r, m)

/-- `fs_fstat_fd` with a pointer that may be `NULL`. -/
def fstatInto (m : Machine) (fd : Int) (statbuf : UInt64) : Option (Int × Machine) :=
  match fsFstatFd m.fs fd with
  | (r, none) => some (r, m)
  | (r, some stat) => if statbuf = 0 then some (-eINVAL, m) else (m.put statbuf stat.bytes).map fun m => (r, m)

def sysFstat : SyscallHandler := fun m a => fstatInto m (intArg a.a0) a.a1

def sysLseek : SyscallHandler := fun m a =>
  some (m.onFs (fsLseekFd m.fs (intArg a.a0) (toSigned a.a1.toNat) (intArg a.a2)))

/-- A call that only names a path. -/
def pathCall (call : Fs → List UInt8 → Option (Int × Fs)) : SyscallHandler := fun m a => do
  let path ← m.path a.a0
  let (r, s) ← call m.fs path
  return (r, m.setFs s)

def sysMkdir : SyscallHandler := fun m a => pathCall (fun s path => fsMkdirPath s path a.a1.toUInt32) m a

def sysRmdir : SyscallHandler := pathCall fsRmdirPath

def sysUnlink : SyscallHandler := pathCall fsUnlinkPath

def sysChdir : SyscallHandler := pathCall fsChdirPath

def sysGetcwd : SyscallHandler := fun m a =>
  let cwd := (taskCurrent m.tasks).cwd
  if a.a0 = 0 ∨ a.a1.toNat < cwd.length + 1 then some (-eINVAL, m)
  else (m.put a.a0 (cwd ++ [0])).map fun m => (toSigned a.a0.toNat, m)

def sysExecveCall (stack : Nat → UInt8) : SyscallHandler := fun m a => do
  let path ← m.path a.a0
  let (r, k) ← sysExecve stack m.kernel path
  return (r, { m with kernel := k })

/-! ## Tasks and time -/

def taskHandler (call : TaskTable → Args → Int × TaskTable) : SyscallHandler := fun m a =>
  let result := call m.tasks a
  some (result.1, m.setTasks result.2)

def sysMmapCall : SyscallHandler := taskHandler fun tasks a => sysMmap tasks a.a1

def sysBrkCall : SyscallHandler := taskHandler fun tasks a => sysBrk tasks a.a0

def sysForkCall : SyscallHandler := taskHandler fun tasks _ => sysFork tasks

def sysExitCall : SyscallHandler := taskHandler fun tasks a => sysExit tasks a.a0

def sysWait4Call : SyscallHandler := fun m a =>
  let result := sysWait4 m.tasks (a.a1 ≠ 0)
  (m.put a.a1 (result.2.elim [] fun code => leStore 4 (toSize code))).map fun m => (result.1, m)

/-- `struct mgcore_timespec` -/
def Timespec.ofBytes (bytes : List UInt8) : Timespec :=
  { tvSec := toSigned (leBytes (bytes.take 8)), tvNsec := toSigned (leBytes (bytes.drop 8)) }

/-- The request at an address. -/
def Machine.timespec (m : Machine) (address : UInt64) : Option (Option Timespec) :=
  if address = 0 then some none else (m.get address 16).map fun bytes => some (.ofBytes bytes)

def sysNanosleepCall : SyscallHandler := fun m a => do
  let request ← m.timespec a.a0
  return (0, m.setTasks (taskSleepUntil m.tasks (m.uptimeTicks + sleepTicks request)))

def sysGetpid : SyscallHandler := fun m _ => some ((taskCurrent m.tasks).pid, m)

def signalSend (tasks : TaskTable) (pid : Int) : Int := if (taskFind tasks pid).isSome then 0 else -1

def sysKill : SyscallHandler := fun m a => some (signalSend m.tasks (intArg a.a0), m)

def sysSignal : SyscallHandler := fun m a => some (if a.a0 < 32 then 0 else -eINVAL, m)

def sysGettimeofday : SyscallHandler := fun m a =>
  let ms := m.uptimeTicks * 1000 / hz
  if a.a0 = 0 then some (-eFAULT, m)
  else (m.put a.a0 (leStore 8 (ms / 1000).toNat ++ leStore 8 (ms % 1000 * 1000).toNat)).map fun m => (0, m)

/-! ## The machine -/

def utsField (text : String) : List UInt8 := ascii text ++ List.replicate (65 - text.length) 0

def utsname : List UInt8 :=
  utsField "MGCORE" ++ utsField "mgcore" ++ utsField "0.1" ++ utsField "linux-like syscall scaffold" ++ utsField "x86_64"

def sysUname : SyscallHandler := fun m a =>
  if a.a0 = 0 then some (-eFAULT, m) else (m.put a.a0 utsname).map fun m => (0, m)

/-- A call that is accepted and has no effect. -/
def sysNothing : SyscallHandler := fun m _ => some (0, m)

def sysMprotect : SyscallHandler := sysNothing

def sysMunmap : SyscallHandler := sysNothing

def sysRtSigaction : SyscallHandler := sysNothing

def sysIoctl : SyscallHandler := sysNothing

def sysSchedYield : SyscallHandler := sysNothing

/-- `kernel_reboot` does not return. -/
def sysReboot : SyscallHandler := fun _ _ => none

/-- `g_syscall_table`, the entries that are not `NULL`. -/
def syscallTable (stack : Nat → UInt8) : List (Nat × SyscallHandler) :=
  [ (0, sysRead), (1, sysWrite), (2, sysOpen),
    (3, sysClose), (4, sysStat), (5, sysFstat),
    (8, sysLseek), (9, sysMmapCall), (10, sysMprotect),
    (11, sysMunmap), (12, sysBrkCall), (13, sysRtSigaction),
    (16, sysIoctl), (24, sysSchedYield), (35, sysNanosleepCall),
    (39, sysGetpid), (48, sysSignal), (57, sysForkCall),
    (59, sysExecveCall stack), (60, sysExitCall), (61, sysWait4Call),
    (62, sysKill), (63, sysUname), (79, sysGetcwd),
    (80, sysChdir), (83, sysMkdir), (84, sysRmdir),
    (87, sysUnlink), (96, sysGettimeofday), (169, sysReboot),
    (257, sysOpenat) ]

def syscallDispatch (stack : Nat → UInt8) (m : Machine) (nr : UInt64) (a : Args) : Option (Int × Machine) :=
  if syscallMax ≤ nr.toNat then some (-eNOSYS, m)
  else
    match (syscallTable stack).find? fun entry => entry.1 = nr.toNat with
    | none => some (-eNOSYS, m)
    | some (_, handler) => handler m a

end Mgcore
