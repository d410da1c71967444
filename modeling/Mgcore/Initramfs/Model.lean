import Mathlib.Data.Char
import Mathlib.Data.List.Lex
import Mathlib.Data.Nat.Digits.Defs
import Mgcore.Fs.Model
import Mgcore.Lib.Bytes

/-!
# The initial file system

`scripts/mkinitramfs.py` packs a directory into a `newc` archive on the host; `fs_mount_initramfs` of
`src/kernel/fs.c` unpacks it into the tmpfs. A Python `str` is a list of characters, a `bytes` a list of bytes.
-/

namespace Mgcore

open Lib

/-! ## The packer -/

def align4 (value : Nat) : Nat := (value + 3) / 4 * 4

def hexDigit (d : Nat) : UInt8 := if d < 10 then (48 + d).toUInt8 else (87 + d).toUInt8

/-- `f"{n:08x}"`: at least eight digits. -/
def hex08 (n : Nat) : List UInt8 := ((Nat.digits 16 n).reverse.map hexDigit).leftpad 8 48

def encodeUtf8 (name : List Char) : List UInt8 := name.flatMap String.utf8EncodeChar

def headerFields (mode fileSize nameSize : Nat) : List Nat :=
  [0, mode, 0, 0, 1, 0, fileSize, 0, 0, 0, 0, nameSize, 0]

def writeEntry (name : List Char) (mode : Nat) (data : List UInt8) : List UInt8 :=
  let namesz := name.length + 1
  ascii "070701" ++ (headerFields mode data.length namesz).flatMap hex08 ++
  (encodeUtf8 name ++ [0]) ++ List.replicate (align4 (110 + namesz) - (110 + namesz)) 0 ++
  data ++ List.replicate (align4 data.length - data.length) 0

inductive SourceFile
  | dir
  | file (data : List UInt8)
  deriving DecidableEq

def SourceName (n : List Char) : Prop :=
  n ≠ [] ∧ '/' ∉ n ∧ '\x00' ∉ n ∧ n ≠ ['.'] ∧ n ≠ ['.', '.']

instance : DecidablePred SourceName := fun _ => inferInstanceAs (Decidable (_ ∧ _))

/-- What `root.rglob("*")` finds, in any order: the paths relative to `root` by components. -/
structure SourceTree where
  entries : List (List (List Char) × SourceFile)
  named : ∀ e ∈ entries, e.1 ≠ [] ∧ ∀ n ∈ e.1, SourceName n
  distinct : (entries.map Prod.fst).Nodup
  closed : ∀ e ∈ entries, e.1.dropLast = [] ∨ (e.1.dropLast, .dir) ∈ entries

def relativeName (path : List (List Char)) : List Char := List.intercalate ['/'] path

def dirMode : Nat := 0o040755
def regMode : Nat := 0o100755

def emitEntry (e : List (List Char) × SourceFile) : List UInt8 :=
  match e.2 with
  | .dir => writeEntry (relativeName e.1) dirMode []
  | .file data => writeEntry (relativeName e.1) regMode data

/-- Paths compare by their components, these by their characters. -/
def SourceTree.sorted (tree : SourceTree) : List (List (List Char) × SourceFile) :=
  tree.entries.mergeSort fun a b => decide (a.1 ≤ b.1)

def emitTree (tree : SourceTree) : List UInt8 :=
  writeEntry ['.'] dirMode [] ++ tree.sorted.flatMap emitEntry ++ writeEntry "TRAILER!!!".toList 0 []

/-! ## The kernel -/

def hexValue (c : UInt8) : Option UInt32 :=
  if 48 ≤ c ∧ c ≤ 57 then some (c - 48).toUInt32
  else if 97 ≤ c ∧ c ≤ 102 then some (c - 97 + 10).toUInt32
  else if 65 ≤ c ∧ c ≤ 70 then some (c - 65 + 10).toUInt32
  else none

def pushHex (value : UInt32) (c : UInt8) : Option UInt32 := (hexValue c).map fun d => (value <<< 4) ||| d

def parseCpioHex (text : List UInt8) : Option UInt32 := text.foldlM pushHex 0

def alignSize (size : UInt32) : UInt32 := (size + 3) &&& ~~~3

/-- The string at `start`, or `none` when it is read past the end of the archive. A name without a terminator is
read until the buffer of `normalize_path` is full. -/
def entryName (cwd archive : List UInt8) (start : Nat) : Option (List UInt8) :=
  let rest := archive.drop start
  if 0 ∈ rest then some (rest.takeWhile (· ≠ 0))
  else if pathMax ≤ (normalizePath cwd rest.dropLast).length + 1 then some rest
  else none

def mountNode (s : Tmpfs) (path : List UInt8) (mode : UInt32) (data : List UInt8) : Option Tmpfs :=
  if mode &&& 0o170000 = 0o040000 then (tmpfsCreatePath s path .dir mode).map Prod.snd
  else do
    let (nodeId, t) ← tmpfsCreatePath s path .file mode
    if 0 ≤ nodeId ∧ data ≠ [] then some (tmpfsWriteNode t nodeId data 0).2 else some t

/-- The loop of `fs_mount_initramfs`, at most `fuel` tests of its condition. -/
def mountLoop (cwd archive : List UInt8) : Nat → Nat → Tmpfs → Option (Int × Tmpfs)
  | 0, _, _ => none
  | fuel + 1, cursor, s =>
      if cursor + 110 ≤ archive.length then
        if slice archive cursor 6 ≠ ascii "070701" then some (-eINVAL, s)
        else
          let mode := (parseCpioHex (slice archive (cursor + 14) 8)).getD 0
          let fileSize := (parseCpioHex (slice archive (cursor + 54) 8)).getD 0
          let nameSize := (parseCpioHex (slice archive (cursor + 94) 8)).getD 0
          if nameSize = 0 ∨ archive.length < cursor + 110 + nameSize.toNat then some (-eINVAL, s)
          else do
            let name ← entryName cwd archive (cursor + 110)
            let data := cursor + (alignSize (110 + nameSize)).toNat
            if name = ascii "TRAILER!!!" then some (0, s)
            else if name = ascii "." then mountLoop cwd archive fuel (data + (alignSize fileSize).toNat) s
            else if archive.length < data + fileSize.toNat then some (-eINVAL, s)
            else do
              let t ← mountNode s (normalizePath cwd name) mode (slice archive data fileSize.toNat)
              mountLoop cwd archive fuel (data + (alignSize fileSize).toNat) t
      else some (0, s)

def fsMountInitramfs (s : Fs) (archive : List UInt8) : Option (Int × Fs) := do
  let (code, t) ← mountLoop (taskCurrent s.tasks).cwd archive (archive.length + 1) 0 s.tmpfs
  some (code, { s with tmpfs := t })

end Mgcore
