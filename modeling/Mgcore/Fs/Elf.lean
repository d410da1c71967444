import Mgcore.Fs.Model
import Mgcore.Lib.Memory

/-!
# Probing executables

`src/kernel/elf.c`, `fs_stat_path` and `fs_fstat_fd` of `src/kernel/fs.c` and the kernel heap of `src/kernel/util.c`,
which hands out blocks from one array and never takes them back. Heap addresses count from the start of that array.
-/

namespace Mgcore

def kernelHeapSize : Nat := 1024 * 1024  -- `KERNEL_HEAP_SIZE`

structure Heap where
  bytes : Nat → UInt8 := fun _ => 0
  offset : Nat := 0

/-- `(value + (align - 1)) & ~(align - 1)` for a power of two. -/
def kalignUp (value align : Nat) : Nat := (value + (align - 1)) % wordSize / align * align

/-- What the call makes of `g_heap_offset`; `none` is a request that is turned down. -/
def kallocOffset (h : Heap) (size : Nat) : Option Nat :=
  let aligned := kalignUp size 16
  if aligned = 0 then none
  else if kernelHeapSize < (h.offset + aligned) % wordSize then none
  else some ((h.offset + aligned) % wordSize)

/-- `none` is a call that does not come back: the sum of the test has wrapped, and `kmemset` runs from the block through
all of memory. -/
def kalloc (h : Heap) (size : Nat) : Option (Option Nat × Heap) :=
  match kallocOffset h size with
  | none => some (none, h)
  | some offset =>
      let ends := h.offset + kalignUp size 16
      if kernelHeapSize < ends then none
      else some (some h.offset, { bytes := fun a => if h.offset ≤ a ∧ a < ends then 0 else h.bytes a, offset := offset })

/-- `struct mgcore_stat`, without the fields that `kmemset` leaves zero. -/
structure Stat where
  ino : Int
  nlink : Nat
  mode : UInt32
  size : Int
  blksize : Int
  blocks : Int

def fillStatFromNode (node : VfsNode) : Stat :=
  { ino := node.id + 1, nlink := 1, mode := node.mode, size := toSigned node.size, blksize := 4096
    blocks := toSigned ((node.size + 511) % wordSize / 512) }

/-- The result, and what is stored in `stat_out` when it is 0. Without `hasBuffer` that is `NULL`. -/
def fsStatPath (s : Fs) (path : List UInt8) (hasBuffer : Bool) : Option (Int × Option Stat) := do
  let nodeId ← tmpfsLookupPath s.tmpfs (normalizePath (taskCurrent s.tasks).cwd path)
  match tmpfsGetNode s.tmpfs nodeId with
  | none => return (-eINVAL, none)
  | some node => return if hasBuffer then (0, some (fillStatFromNode node)) else (-eINVAL, none)

/-- The result, and what is stored in `stat_out` when it is 0. -/
def fsFstatFd (s : Fs) (fd : Int) : Int × Option Stat :=
  match lookupFile s fd with
  | none => (-eBADF, none)
  | some f =>
      match tmpfsGetNode s.tmpfs (s.openFiles f).nodeId with
      | none => (-eINVAL, none)
      | some node => (0, some (fillStatFromNode node))

structure ElfImage where
  base : Nat
  size : Nat
  entry : Nat

def elfMagic : List UInt8 := [0x7F, 0x45, 0x4C, 0x46]
def elfClass64 : UInt8 := 2
def emX8664 : Nat := 62
def elfHeaderSize : Nat := 64

def leBytes (bytes : List UInt8) : Nat := bytes.foldr (fun b value => b.toNat + 2 ^ 8 * value) 0

def elfParseImage (base : Nat) (data : List UInt8) : Int × Option ElfImage :=
  if data.length < elfHeaderSize then (-eINVAL, none)
  else if data.take 4 ≠ elfMagic ∨ data[4]? ≠ some elfClass64 then (-eNOEXEC, none)
  else if leBytes ((data.drop 18).take 2) ≠ emX8664 then (-eNOEXEC, none)
  else (0, some { base := base, size := data.length, entry := leBytes ((data.drop 24).take 8) })

structure Kernel where
  fs : Fs
  heap : Heap := {}

def elfProbePath (k : Kernel) (path : List UInt8) : Option ((Int × Option ElfImage) × Kernel) := do
  let (fd, s) ← fsOpenPath k.fs path 0 0
  if fd < 0 then return ((fd, none), { k with fs := s })
  match fsFstatFd s fd with
  | (status, none) => return ((status, none), { k with fs := (fsCloseFd s fd).2 })
  | (_, some stat) =>
      let size := toSize stat.size
      match ← kalloc k.heap size with
      | (none, heap) => return ((-eNOMEM, none), { fs := (fsCloseFd s fd).2, heap := heap })
      | (some buffer, heap) =>
          let ((count, bytes), s) := fsReadFd s fd size
          let heap := { heap with bytes := Lib.store wordSize heap.bytes buffer bytes }
          let k := { fs := (fsCloseFd s fd).2, heap := heap }
          if count < 0 then return ((- eIO, none), k)
          return (elfParseImage buffer (Lib.load wordSize heap.bytes buffer size), k)

end Mgcore
