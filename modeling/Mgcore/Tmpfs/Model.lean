import Mgcore.Base
import Mgcore.Lib.Chain
import Mgcore.Lib.Memory

/-!
# The in-memory file system

`src/kernel/tmpfs.c`: a table of 256 nodes linked by index (parent, first child, next sibling) and a bump
arena for file contents. An operation that may not return is an `Option`: `none` is a list walk that
never ends or a store past the end of a stack buffer.
-/

namespace Mgcore
open Function

def maxNodes : Nat := 256  -- `MGCORE_MAX_NODES`
def pathMax : Nat := 256  -- `MGCORE_PATH_MAX`
def nameMax : Nat := 32  -- `MGCORE_NAME_MAX`
def arenaSize : Nat := 1024 * 1024  -- `TMPFS_DATA_ARENA_SIZE`

/-- `vfs_node_type`; a slot of type `NONE` is free. -/
inductive NodeType
  | none | file | dir | chardev
  deriving DecidableEq, Repr

/-- `vfs_node`. `data` is an offset into the arena, `none` is `NULL`. The defaults are the zeros of
`kmemset`. -/
structure VfsNode where
  id : Int := 0
  parentId : Int := 0
  firstChildId : Int := 0
  nextSiblingId : Int := 0
  type : NodeType := .none
  name : List UInt8 := []
  data : Option Nat := Option.none
  size : Nat := 0
  capacity : Nat := 0
  mode : UInt32 := 0
  deviceId : Int := 0
  deriving DecidableEq

/-- The static variables of `tmpfs.c`. The arena is addressed relative to `g_data_arena`, modulo the word
size: only the first `arenaSize` addresses belong to it. -/
structure Tmpfs where
  nodes : Nat → VfsNode := fun _ => {}
  arena : Nat → UInt8 := fun _ => 0
  dataOffset : Nat := 0

namespace Tmpfs

def node (s : Tmpfs) (i : Int) : VfsNode := s.nodes i.toNat

def setNode (s : Tmpfs) (i : Nat) (n : VfsNode) : Tmpfs := { s with nodes := update s.nodes i n }

@[simp] theorem setNode_nodes (s : Tmpfs) (i : Nat) (n : VfsNode) :
    (s.setNode i n).nodes = update s.nodes i n := rfl
@[simp] theorem setNode_arena (s : Tmpfs) (i : Nat) (n : VfsNode) : (s.setNode i n).arena = s.arena := rfl
@[simp] theorem setNode_dataOffset (s : Tmpfs) (i : Nat) (n : VfsNode) :
    (s.setNode i n).dataOffset = s.dataOffset := rfl
@[simp] theorem node_natCast (s : Tmpfs) (i : Nat) : s.node (i : Int) = s.nodes i := rfl

end Tmpfs

def linkOf (i : Int) : Option Nat := if 0 ≤ i then some i.toNat else none

/-- Iterations after which a walk over the table must have met a node twice. -/
def walkFuel : Nat := maxNodes + 1

/-! ## Nodes and storage -/

def freeSlot (s : Tmpfs) : Option Nat := (List.range maxNodes).find? fun i => (s.nodes i).type = .none

/-- `alloc_node` resets every field but the type and the name. -/
def allocNode (s : Tmpfs) : Int × Tmpfs :=
  match freeSlot s with
  | none => (-eNOSPC, s)
  | some i =>
      (i, s.setNode i { s.nodes i with
        id := i, parentId := -1, firstChildId := -1, nextSiblingId := -1, data := none, size := 0,
        capacity := 0, mode := 0, deviceId := 0 })

/-- `(size + 15) & ~15U`: the mask is a 32-bit constant widened with zeros. -/
def alignStorage (size : Nat) : Nat := (size + 15) % wordSize &&& 0xFFFFFFF0

def allocStorage (s : Tmpfs) (size : Nat) : Option (Nat × Tmpfs) :=
  let aligned := alignStorage size
  if arenaSize < (s.dataOffset + aligned) % wordSize then none
  else some (s.dataOffset, { s with dataOffset := (s.dataOffset + aligned) % wordSize })

/-! ## Names and paths -/

def lookupChild (s : Tmpfs) (parentId : Int) (name : List UInt8) : Option Int :=
  (Lib.walk linkOf (fun i => (s.nodes i).nextSiblingId) (fun i => (s.nodes i).name = name) walkFuel
    (s.node parentId).firstChildId).map fun found =>
      match found with
      | some child => child
      | none => -eNOENT

/-- `kstrcpy` into a buffer of `capacity` bytes. -/
def copyInto (capacity : Nat) (text : List UInt8) : Option (List UInt8) :=
  if text.length < capacity then some text else none

/-- `last - path` after the two loops of `split_parent`. -/
def lastComponent (path : List UInt8) : Nat :=
  ((path.reverse.dropWhile (· = slash)).dropWhile (· ≠ slash)).length

/-- The strings `split_parent` stores in `parent` and `leaf`. -/
def splitText (path : List UInt8) : List UInt8 × List UInt8 :=
  if lastComponent path = 0 then ([slash], if path.head? = some slash then path.drop 1 else path)
  else (path.take (lastComponent path), path.drop (lastComponent path))

def splitParent (path : List UInt8) : Option (List UInt8 × List UInt8) := do
  let parent ← copyInto pathMax (splitText path).1
  let leaf ← copyInto nameMax (splitText path).2
  return (parent, leaf)

def createChild (s : Tmpfs) (parentId : Int) (name : List UInt8) (type : NodeType) (mode : UInt32) :
    Int × Tmpfs :=
  let (id, t) := allocNode s
  if id < 0 then (id, t)
  else
    let node := { t.node id with
      type := type, mode := mode, parentId := parentId, name := name.take (nameMax - 1) }
    let t := t.setNode id.toNat node
    let t := t.setNode id.toNat { node with nextSiblingId := (t.node parentId).firstChildId }
    (id, t.setNode parentId.toNat { t.node parentId with firstChildId := id })

/-- The main loop of `resolve_path`; every iteration consumes at least one byte of `cursor`. -/
def resolveLoop (s : Tmpfs) : Nat → List UInt8 → Int → Option Int
  | 0, _, _ => none
  | fuel + 1, cursor, current =>
      if cursor = [] then some current
      else
        let token := (cursor.takeWhile (· ≠ slash)).take (nameMax - 1)
        let rest := (cursor.drop token.length).dropWhile (· = slash)
        if token = [] ∨ token = ascii "." then resolveLoop s fuel rest current
        else if token = ascii ".." then
          resolveLoop s fuel rest (if 0 ≤ (s.node current).parentId then (s.node current).parentId else 0)
        else
          (lookupChild s current token).bind fun child =>
            if child < 0 then some child else resolveLoop s fuel rest child

def resolvePath (s : Tmpfs) (path : List UInt8) : Option Int :=
  if path.head? ≠ some slash then some (-eINVAL)
  else if path.length = 1 then some 0
  else resolveLoop s (path.length + 1) (path.dropWhile (· = slash)) 0

/-! ## The operations -/

def rootNode : VfsNode :=
  { id := 0, parentId := -1, firstChildId := -1, nextSiblingId := -1, type := .dir, mode := 0o755,
    name := ascii "/" }

def tmpfsInit (s : Tmpfs) : Tmpfs :=
  { s with nodes := update (fun _ => {}) 0 rootNode, dataOffset := 0 }

def tmpfsLookupPath (s : Tmpfs) (path : List UInt8) : Option Int := resolvePath s path

def tmpfsCreatePath (s : Tmpfs) (path : List UInt8) (type : NodeType) (mode : UInt32) :
    Option (Int × Tmpfs) :=
  if path.head? ≠ some slash ∨ path.length = 1 then some (-eINVAL, s)
  else do
    let existing ← resolvePath s path
    if 0 ≤ existing then return (existing, s)
    let (parent, leaf) ← splitParent path
    let parentId ← resolvePath s parent
    if parentId < 0 then return (parentId, s)
    if (s.node parentId).type ≠ .dir then return (-eNOTDIR, s)
    return createChild s parentId leaf type mode

/-- The unlink step of `tmpfs_remove_path`: the sibling list of `parent` loses `id`. -/
def unlinkChild (s : Tmpfs) (parent id : Int) : Option Tmpfs :=
  let child := (s.node parent).firstChildId
  if child = id then
    some (s.setNode parent.toNat { s.node parent with firstChildId := (s.node id).nextSiblingId })
  else
    (Lib.walk linkOf (fun i => (s.nodes i).nextSiblingId) (fun i => (s.nodes i).nextSiblingId = id)
      walkFuel child).map fun found =>
        match found with
        | some p => s.setNode p { s.nodes p with nextSiblingId := (s.node id).nextSiblingId }
        | none => s

def tmpfsRemovePath (s : Tmpfs) (path : List UInt8) (wantDir : Bool) : Option (Int × Tmpfs) := do
  let id ← resolvePath s path
  if id ≤ 0 then return (-eINVAL, s)
  if wantDir ∧ (s.node id).type ≠ .dir then return (-eNOTDIR, s)
  if ¬wantDir ∧ (s.node id).type = .dir then return (-eISDIR, s)
  if (s.node id).type = .dir ∧ 0 ≤ (s.node id).firstChildId then return (-eNOTEMPTY, s)
  let t ← unlinkChild s (s.node id).parentId id
  return (0, t.setNode id.toNat {})

def tmpfsGetNode (s : Tmpfs) (nodeId : Int) : Option VfsNode :=
  if nodeId < 0 ∨ (maxNodes : Int) ≤ nodeId ∨ (s.node nodeId).type = .none then none
  else some (s.node nodeId)

def tmpfsReadNode (s : Tmpfs) (nodeId : Int) (count offset : Nat) : Int × List UInt8 :=
  match tmpfsGetNode s nodeId with
  | none => (-eNOENT, [])
  | some node =>
      if node.type ≠ .file then (-eISDIR, [])
      else if node.size ≤ offset then (0, [])
      else
        let count := min count (node.size - offset)
        (toSigned count, Lib.load wordSize s.arena (node.data.getD 0 + offset) count)

/-- `(end_offset + 255) & ~255U`, masked with a 32-bit constant like `alignStorage`. -/
def roundCapacity (endOffset : Nat) : Nat := (endOffset + 255) % wordSize &&& 0xFFFFFF00

def growNode (s : Tmpfs) (nodeId : Int) (endOffset : Nat) : Option Tmpfs :=
  let node := s.node nodeId
  match allocStorage s (roundCapacity endOffset) with
  | none => none
  | some (newData, t) =>
      let arena := match node.data with
        | some old => if node.size = 0 then t.arena else Lib.copy wordSize t.arena newData old node.size
        | none => t.arena
      some ({ t with arena := arena }.setNode nodeId.toNat
        { node with data := some newData, capacity := roundCapacity endOffset })

/-- The final copy and size update of `tmpfs_write_node`. A store through a `NULL` data pointer does not
reach the arena. -/
def putBytes (s : Tmpfs) (nodeId : Int) (buffer : List UInt8) (offset endOffset : Nat) : Tmpfs :=
  let node := s.node nodeId
  let arena := match node.data with
    | some base => Lib.store wordSize s.arena (base + offset) buffer
    | none => s.arena
  { s with arena := arena }.setNode nodeId.toNat { node with size := max node.size endOffset }

def tmpfsWriteNode (s : Tmpfs) (nodeId : Int) (buffer : List UInt8) (offset : Nat) : Int × Tmpfs :=
  let endOffset := (offset + buffer.length) % wordSize
  match tmpfsGetNode s nodeId with
  | none => (-eNOENT, s)
  | some node =>
      if node.type ≠ .file then (-eISDIR, s)
      else if node.capacity < endOffset then
        match growNode s nodeId endOffset with
        | none => (-eNOSPC, s)
        | some t => (toSigned buffer.length, putBytes t nodeId buffer offset endOffset)
      else (toSigned buffer.length, putBytes s nodeId buffer offset endOffset)

end Mgcore
