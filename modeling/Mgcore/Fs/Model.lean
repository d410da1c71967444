import Mgcore.Console.Input
import Mgcore.Task.Model
import Mgcore.Tmpfs.Model

/-!
# The file system calls

`src/kernel/fs.c`: paths are made absolute against the working directory of the current task, and a
descriptor is an entry of the task's table that points into the table of 128 open files.
-/

namespace Mgcore
open Function

def maxFds : Nat := 32  -- `MGCORE_MAX_FDS`
def maxOpenFiles : Nat := 128  -- The length of `g_open_files`

def oCREAT : UInt32 := 64

def seekSET : Int := 0
def seekCUR : Int := 1
def seekEND : Int := 2

def devCONSOLE : Int := 1
def devTTY : Int := 2
def devNULL : Int := 3
def devZERO : Int := 4

structure VfsFile where
  used : Bool := false
  refs : Int := 0
  nodeId : Int := 0
  offset : Nat := 0
  flags : UInt32 := 0
  deriving DecidableEq

structure Fs where
  tmpfs : Tmpfs := {}
  openFiles : Nat → VfsFile := fun _ => {}
  tasks : TaskTable := {}
  console : Console := {}

namespace Fs

def setFile (s : Fs) (i : Nat) (file : VfsFile) : Fs := { s with openFiles := update s.openFiles i file }

def setFd (s : Fs) (fd : Nat) (entry : Option Nat) : Fs :=
  let task := { taskCurrent s.tasks with fds := update (taskCurrent s.tasks).fds fd entry }
  { s with tasks := s.tasks.setTask s.tasks.currentIndex task }

end Fs

/-! ## Paths and tables -/

def normalizeLoop (out : List UInt8) : List UInt8 → List UInt8
  | [] => out
  | c :: source =>
      if out.length + 1 < pathMax then
        if c = slash ∧ out.getLast? = some slash then normalizeLoop out source
        else normalizeLoop (out ++ [c]) source
      else out

/-- A `NULL` path is the empty one. -/
def normalizePath (cwd path : List UInt8) : List UInt8 :=
  if path = [] then [slash]
  else
    let base :=
      if path.head? = some slash then []
      else if 1 < cwd.length ∧ cwd.getLast? ≠ some slash then cwd ++ [slash]
      else cwd
    normalizeLoop base path

def freeFile (s : Fs) : Option Nat := (List.range maxOpenFiles).find? fun i => !(s.openFiles i).used

def allocOpenFile (s : Fs) : Int × Fs :=
  match freeFile s with
  | none => (-eNFILE, s)
  | some i => (i, s.setFile i { s.openFiles i with used := true, refs := 1, offset := 0 })

def freeFd (t : Task) : Option Nat := (List.range' 3 (maxFds - 3)).find? fun fd => (t.fds fd).isNone

def attachFd (s : Fs) (openId : Nat) : Int × Fs :=
  match freeFd (taskCurrent s.tasks) with
  | none => (-eMFILE, s.setFile openId { s.openFiles openId with used := false })
  | some fd => (fd, s.setFd fd (some openId))

def lookupFile (s : Fs) (fd : Int) : Option Nat :=
  if fd < 0 ∨ (maxFds : Int) ≤ fd then none else (taskCurrent s.tasks).fds fd.toNat

def initDeviceNode (s : Tmpfs) (path : List UInt8) (deviceId : Int) : Option Tmpfs := do
  let (created, t) ← tmpfsCreatePath s path .chardev 0o666
  let nodeId ← (if created < 0 then tmpfsLookupPath t path else some created)
  match tmpfsGetNode t nodeId with
  | none => return t
  | some node => return t.setNode nodeId.toNat { node with deviceId := deviceId }

/-! ## The calls -/

def fsInitNodes (s : Tmpfs) : Option Tmpfs := do
  let (_, t) ← tmpfsCreatePath (tmpfsInit s) (ascii "/dev") .dir 0o755
  let (_, t) ← tmpfsCreatePath t (ascii "/bin") .dir 0o755
  let (_, t) ← tmpfsCreatePath t (ascii "/tmp") .dir 0o777
  let (_, t) ← tmpfsCreatePath t (ascii "/etc") .dir 0o755
  let t ← initDeviceNode t (ascii "/dev/console") devCONSOLE
  let t ← initDeviceNode t (ascii "/dev/tty") devTTY
  let t ← initDeviceNode t (ascii "/dev/null") devNULL
  initDeviceNode t (ascii "/dev/zero") devZERO

def fsInit (s : Fs) : Option Fs := do
  let t ← fsInitNodes s.tmpfs
  return { s with tmpfs := t, console := consoleWriteN s.console (ascii "fs: tmpfs root mounted\n") }

def openNode (s : Tmpfs) (resolved : List UInt8) (flags mode : UInt32) : Option (Int × Tmpfs) := do
  let nodeId ← tmpfsLookupPath s resolved
  if nodeId < 0 ∧ flags &&& oCREAT ≠ 0 then tmpfsCreatePath s resolved .file mode
  else return (nodeId, s)

def fsOpenPath (s : Fs) (path : List UInt8) (flags mode : UInt32) : Option (Int × Fs) := do
  let (nodeId, t) ← openNode s.tmpfs (normalizePath (taskCurrent s.tasks).cwd path) flags mode
  let s := { s with tmpfs := t }
  if nodeId < 0 then return (nodeId, s)
  let (openId, s) := allocOpenFile s
  if openId < 0 then return (openId, s)
  let s := s.setFile openId.toNat { s.openFiles openId.toNat with nodeId := nodeId, flags := flags }
  return attachFd s openId.toNat

/-- The value returned, the bytes stored in the caller's buffer, and the state after. -/
def fsReadFd (s : Fs) (fd : Int) (count : Nat) : (Int × List UInt8) × Fs :=
  let readConsole :=
    let (bytes, console) := consoleReadLoop count s.console
    ((toSigned bytes.length, bytes), { s with console := console })
  match lookupFile s fd with
  | none => if fd = 0 then readConsole else ((-eBADF, []), s)
  | some f =>
      let file := s.openFiles f
      match tmpfsGetNode s.tmpfs file.nodeId with
      | none => ((-eBADF, []), s)
      | some node =>
          if node.type = .chardev ∧ node.deviceId = devZERO then
            ((toSigned count, List.replicate count 0), s)
          else if node.type = .chardev ∧
              (node.deviceId = devNULL ∨ node.deviceId = devCONSOLE ∨ node.deviceId = devTTY) then readConsole
          else
            let (i, bytes) := tmpfsReadNode s.tmpfs file.nodeId count file.offset
            if 0 ≤ i then
              ((i, bytes), s.setFile f { file with offset := (file.offset + i.toNat) % wordSize })
            else ((i, bytes), s)

def fsWriteFd (s : Fs) (fd : Int) (buffer : List UInt8) : Int × Fs :=
  let writeConsole := (toSigned buffer.length, { s with console := consoleWriteN s.console buffer })
  match lookupFile s fd with
  | none => if fd = 1 ∨ fd = 2 then writeConsole else (-eBADF, s)
  | some f =>
      let file := s.openFiles f
      match tmpfsGetNode s.tmpfs file.nodeId with
      | none => (-eBADF, s)
      | some node =>
          if node.type = .chardev ∧ node.deviceId = devNULL then (toSigned buffer.length, s)
          else if node.type = .chardev ∧ (node.deviceId = devCONSOLE ∨ node.deviceId = devTTY) then writeConsole
          else
            let (r, t) := tmpfsWriteNode s.tmpfs file.nodeId buffer file.offset
            (r, { s with tmpfs := t })

def fsCloseFd (s : Fs) (fd : Int) : Int × Fs :=
  match lookupFile s fd with
  | none => (if 0 ≤ fd ∧ fd ≤ 2 then 0 else -eBADF, s)
  | some f =>
      let file := { s.openFiles f with refs := (s.openFiles f).refs - 1 }
      (0, (s.setFile f (if file.refs ≤ 0 then {} else file)).setFd fd.toNat none)

def fsLseekFd (s : Fs) (fd : Int) (offset whence : Int) : Int × Fs :=
  match lookupFile s fd with
  | none => (-eBADF, s)
  | some f =>
      let file := s.openFiles f
      match tmpfsGetNode s.tmpfs file.nodeId with
      | none => (-eBADF, s)
      | some node =>
          let moved (target : Nat) := (toSigned target, s.setFile f { file with offset := target })
          if whence = seekSET then moved (toSize offset)
          else if whence = seekCUR then moved ((file.offset + toSize offset) % wordSize)
          else if whence = seekEND then moved ((node.size + toSize offset) % wordSize)
          else (-eINVAL, s)

def fsMkdirPath (s : Fs) (path : List UInt8) (mode : UInt32) : Option (Int × Fs) := do
  let (r, t) ← tmpfsCreatePath s.tmpfs (normalizePath (taskCurrent s.tasks).cwd path) .dir mode
  return (r, { s with tmpfs := t })

def fsRemovePath (s : Fs) (path : List UInt8) (wantDir : Bool) : Option (Int × Fs) := do
  let (r, t) ← tmpfsRemovePath s.tmpfs (normalizePath (taskCurrent s.tasks).cwd path) wantDir
  return (r, { s with tmpfs := t })

def fsRmdirPath (s : Fs) (path : List UInt8) : Option (Int × Fs) := fsRemovePath s path true

def fsUnlinkPath (s : Fs) (path : List UInt8) : Option (Int × Fs) := fsRemovePath s path false

def cwdSize : Nat := 128  -- `sizeof(task_current()->cwd)`

def fsChdirPath (s : Fs) (path : List UInt8) : Option (Int × Fs) := do
  let resolved := normalizePath (taskCurrent s.tasks).cwd path
  let nodeId ← tmpfsLookupPath s.tmpfs resolved
  if nodeId < 0 then return (nodeId, s)
  match tmpfsGetNode s.tmpfs nodeId with
  | none => return (-eNOTDIR, s)
  | some node =>
      if node.type ≠ .dir then return (-eNOTDIR, s)
      let task := { taskCurrent s.tasks with cwd := resolved.take (cwdSize - 1) }
      return (0, { s with tasks := s.tasks.setTask s.tasks.currentIndex task })

end Mgcore
