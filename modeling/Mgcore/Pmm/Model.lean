import Mgcore.Base
import Mgcore.Lib.Bitmap

/-!
# The page allocator

`src/kernel/pmm.c` and the tag walk of `include/mgcore/multiboot2.h`. The boot information is a memory addressed from
the start of the block; addresses past the block hold whatever lies there. Both loops of `pmm_init` follow sizes that
the boot loader wrote, so they take fuel and answer `none` when it runs out.
-/

namespace Mgcore

def pmmMaxPages : Nat := 1024 * 1024  -- `PMM_MAX_PAGES`

structure Pmm where
  bitmap : Nat → UInt8 := fun _ => 0
  totalPages : Nat := 0
  freePages : Nat := 0

def setBit (p : Pmm) (page : Nat) : Pmm := { p with bitmap := Lib.bitSet p.bitmap page }

def clearBit (p : Pmm) (page : Nat) : Pmm := { p with bitmap := Lib.bitClear p.bitmap page }

def testBit (p : Pmm) (page : Nat) : Bool := Lib.bitTest p.bitmap page

/-- `if (g_free_pages != 0) --g_free_pages;` -/
def takePage (p : Pmm) : Pmm := if p.freePages ≠ 0 then { p with freePages := p.freePages - 1 } else p

/-- One turn of the loop in `reserve_range`. -/
def reservePage (p : Pmm) (page : Nat) : Pmm := if testBit p page then p else takePage (setBit p page)

/-- The values of `page` in `for (page = first; page < last && page < PMM_MAX_PAGES; ++page)`. -/
def pageRange (first last : Nat) : List Nat := List.range' first (min last pmmMaxPages - first)

def reserveRange (p : Pmm) (start finish : Nat) : Pmm :=
  (pageRange (start / 4096) ((finish + 4095) % wordSize / 4096)).foldl reservePage p

/-! ## The memory map -/

def le32 (mem : Nat → UInt8) (a : Nat) : Nat :=
  (mem a).toNat + 2 ^ 8 * (mem (a + 1)).toNat + 2 ^ 16 * (mem (a + 2)).toNat + 2 ^ 24 * (mem (a + 3)).toNat

def le64 (mem : Nat → UInt8) (a : Nat) : Nat := le32 mem a + 2 ^ 32 * le32 mem (a + 4)

structure MemoryMapEntry where
  addr : Nat
  len : Nat
  type : Nat
  deriving DecidableEq

def memoryMapEntry (mem : Nat → UInt8) (cursor : Nat) : MemoryMapEntry :=
  { addr := le64 mem cursor, len := le64 mem (cursor + 8), type := le32 mem (cursor + 16) }

def tagEnd : Nat := 0  -- `MULTIBOOT2_TAG_END`
def tagMmap : Nat := 6  -- `MULTIBOOT2_TAG_MMAP`

def tagType (mem : Nat → UInt8) (tag : Nat) : Nat := le32 mem tag
def tagSize (mem : Nat → UInt8) (tag : Nat) : Nat := le32 mem (tag + 4)
def mmapEntrySize (mem : Nat → UInt8) (tag : Nat) : Nat := le32 mem (tag + 8)

def multiboot2FirstTag : Nat := 8

/-- `(tag->size + 7U) & ~7U` is computed in 32 bits. -/
def multiboot2NextTag (mem : Nat → UInt8) (tag : Nat) : Nat := tag + (tagSize mem tag + 7) % 2 ^ 32 / 8 * 8

/-- One turn of the loop over the pages of a region. -/
def releasePage (p : Pmm) (page : Nat) : Pmm :=
  { clearBit p page with totalPages := p.totalPages + 1, freePages := p.freePages + 1 }

def entryPages (entry : MemoryMapEntry) : List Nat :=
  pageRange (entry.addr / 4096) ((entry.addr + entry.len) % wordSize / 4096)

def addEntry (p : Pmm) (entry : MemoryMapEntry) : Pmm :=
  if entry.type = 1 then (entryPages entry).foldl releasePage p else p

def entryLoop (mem : Nat → UInt8) (entrySize limit fuel cursor : Nat) (p : Pmm) : Option Pmm :=
  if cursor < limit then
    match fuel with
    | 0 => none
    | fuel + 1 => entryLoop mem entrySize limit fuel (cursor + entrySize) (addEntry p (memoryMapEntry mem cursor))
  else some p

/-- The body of the tag loop. -/
def visitTag (mem : Nat → UInt8) (fuel tag : Nat) (p : Pmm) : Option Pmm :=
  if tagType mem tag = tagMmap then
    entryLoop mem (mmapEntrySize mem tag) (tag + tagSize mem tag) fuel (tag + 16) p
  else some p

def tagLoop (mem : Nat → UInt8) (fuel tag : Nat) (p : Pmm) : Option Pmm :=
  if tagType mem tag = tagEnd then some p
  else
    match fuel with
    | 0 => none
    | fuel + 1 => (visitTag mem fuel tag p).bind (tagLoop mem fuel (multiboot2NextTag mem tag))

def pmmInit (fuel : Nat) (info : Nat → UInt8) (kernelStart kernelEnd : Nat) : Option Pmm := do
  let p ← tagLoop info fuel multiboot2FirstTag { bitmap := fun _ => 0xFF }
  let p := reserveRange p 0 0x100000
  some (reserveRange p kernelStart kernelEnd)

/-! ## Pages -/

def pmmAllocPage (p : Pmm) : Nat × Pmm :=
  match (List.range' 0 pmmMaxPages).find? fun page => !testBit p page with
  | some page => (page * 4096, takePage (setBit p page))
  | none => (0, p)

def pmmFreePage (p : Pmm) (physical : Nat) : Pmm :=
  let page := physical / 4096
  if page < pmmMaxPages ∧ testBit p page then
    { clearBit p page with freePages := p.freePages + 1 }
  else p

end Mgcore
