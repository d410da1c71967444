import Mgcore.Fs.Elf
import Mgcore.Lib.Run

/-!
# Blocks of the kernel heap

`kalloc`, `kcalloc` and `kstrdup` of `src/kernel/util.c`. The three take the next bytes of one array, so the blocks are in
order of their requests. What a caller asks for is an exact number, which for `kcalloc` is a product; what `kalloc` sees
is that number modulo the word size, and the test against the end of the array is modulo the word size as well. A call
whose test wraps moves the offset back and then clears memory without coming to an end.
-/

namespace Mgcore
open Lib

def kcalloc (h : Heap) (count size : Nat) : Option (Option Nat × Heap) := kalloc h (count * size % wordSize)

/-- A string that is not `NULL`. -/
def kstrdup (h : Heap) (s : List UInt8) : Option (Option Nat × Heap) := do
  let len := (s.length + 1) % wordSize
  match ← kalloc h len with
  | (none, h) => return (none, h)
  | (some copy, h) => return (some copy, { h with bytes := store wordSize h.bytes copy ((s ++ [0]).take len) })

inductive HeapCall
  | kalloc (size : UInt64)
  | kcalloc (count size : UInt64)
  | kstrdup (s : List UInt8)

/-- The number of bytes that the caller asks for. -/
def HeapCall.request : HeapCall → Nat
  | .kalloc size => size.toNat
  | .kcalloc count size => count.toNat * size.toNat
  | .kstrdup s => s.length + 1

def HeapCall.zeroed : HeapCall → Bool
  | .kstrdup _ => false
  | _ => true

def heapCall (h : Heap) : HeapCall → Option (Option Nat × Heap)
  | .kalloc size => kalloc h size.toNat
  | .kcalloc count size => kcalloc h count.toNat size.toNat
  | .kstrdup s => kstrdup h s

/-- `g_heap_offset` behind the call, or when it clears the block that it does not come back from. -/
def HeapCall.offset (h : Heap) (c : HeapCall) : Nat := (kallocOffset h (c.request % wordSize)).getD h.offset

/-! ## Runs -/

structure Block where
  base : Nat
  size : Nat

/-- A call, and what the heap holds when it is made: the owners of the blocks write to them. -/
structure HeapOp where
  contents : Nat → UInt8
  call : HeapCall

/-- The heap with the blocks that have been returned. -/
structure HeapLog where
  heap : Heap := {}
  blocks : List Block := []

def HeapLog.answer (s : HeapLog) (op : HeapOp) : Option (Option Nat × Heap) := heapCall { s.heap with bytes := op.contents } op.call

def heapStep (s : HeapLog) (op : HeapOp) : Option HeapLog := do
  let (base, heap) ← s.answer op
  return { heap, blocks := s.blocks ++ base.toList.map fun base => { base, size := op.call.request } }

structure NewBlock (s : HeapLog) (op : HeapOp) (base : Nat) (heap : Heap) : Prop where
  inside : base + op.call.request ≤ kernelHeapSize
  disjoint : ∀ block ∈ s.blocks, block.base + block.size ≤ base ∨ base + op.call.request ≤ block.base
  zeroed : op.call.zeroed → ∀ a, base ≤ a → a < base + op.call.request → heap.bytes a = 0

structure CallSound (s : HeapLog) (op : HeapOp) : Prop where
  grows : s.heap.offset ≤ op.call.offset s.heap
  bounded : op.call.offset s.heap ≤ kernelHeapSize
  block : ∀ base heap, s.answer op = some (some base, heap) → NewBlock s op base heap

/-- The sum of the test wraps. -/
def TestWraps (offset size : Nat) : Prop := wordSize - 16 - offset < size ∧ size ≤ wordSize - 16

instance (offset size : Nat) : Decidable (TestWraps offset size) := inferInstanceAs (Decidable (_ ∧ _))

/-- The request is one whose end wraps below the offset, or a product that looks small modulo the word size. -/
def Misjudged (offset request : Nat) : Prop :=
  TestWraps offset (request % wordSize) ∨
    wordSize ≤ request ∧ 0 < request % wordSize ∧ request % wordSize ≤ kernelHeapSize - offset

instance (offset request : Nat) : Decidable (Misjudged offset request) := inferInstanceAs (Decidable (_ ∨ _))

/-! ## One call -/

/-- A request is turned down, has no end, or gets the block at the offset. -/
inductive KallocCase (h : Heap) (n : Nat) : Prop
  | refused (answer : kalloc h n = some (none, h)) (offset : kallocOffset h n = none)
      (reason : n = 0 ∨ wordSize - 16 < n ∨ kernelHeapSize - h.offset < n ∧ n ≤ wordSize - 16 - h.offset)
  | endless (answer : kalloc h n = none) (wraps : TestWraps h.offset n)
      (back : ∃ offset, kallocOffset h n = some offset ∧ offset < h.offset)
  | granted (heap : Heap) (answer : kalloc h n = some (some h.offset, heap)) (offset : kallocOffset h n = some heap.offset)
      (positive : 0 < n) (fits : n ≤ kernelHeapSize - h.offset) (aligned : heap.offset % 16 = 0)
      (bounded : heap.offset ≤ kernelHeapSize) (room : h.offset + n ≤ heap.offset)
      (zeros : ∀ a, h.offset ≤ a → a < h.offset + n → heap.bytes a = 0)

theorem kalloc_cases {h : Heap} (bounded : h.offset ≤ kernelHeapSize) (aligned : h.offset % 16 = 0) {n : Nat}
    (word : n < wordSize) : KallocCase h n := by
  have size : kernelHeapSize = 2 ^ 20 := rfl
  have up : kalignUp n 16 = (n + 15) % 2 ^ 64 / 16 * 16 := rfl
  have words : wordSize = 2 ^ 64 := rfl
  rw [size] at bounded
  rw [words] at word
  have answer : ∀ result, kallocOffset h n = result → kalloc h n = _ := fun result same => by rw [kalloc, same]
  by_cases empty : kalignUp n 16 = 0
  · have offset : kallocOffset h n = none := if_pos empty
    refine .refused (answer _ offset) offset ?_
    omega
  by_cases large : kernelHeapSize < (h.offset + kalignUp n 16) % wordSize
  · have offset : kallocOffset h n = none := (if_neg empty).trans (if_pos large)
    refine .refused (answer _ offset) offset ?_
    rw [words] at large ⊢
    omega
  have offset : kallocOffset h n = some _ := (if_neg empty).trans (if_neg large)
  by_cases ends : kernelHeapSize < h.offset + kalignUp n 16
  · refine .endless ((answer _ offset).trans (if_pos ends)) ⟨?_, ?_⟩ ⟨_, offset, ?_⟩
    all_goals
      rw [words] at large ⊢
      omega
  · refine .granted _ ((answer _ offset).trans (if_neg ends)) offset ?_ ?_ ?_ ?_ ?_ fun a low high => if_pos ⟨low, ?_⟩
    all_goals
      simp only [words] at large ⊢
      omega

/-- All three calls are a `kalloc` of the request modulo the word size; only `kstrdup` stores to the block. -/
theorem heapCall_kalloc (h : Heap) (c : HeapCall) :
    match kalloc h (c.request % wordSize) with
    | none => heapCall h c = none
    | some (base, heap) => ∃ bytes, heapCall h c = some (base, { heap with bytes }) ∧ (c.zeroed → bytes = heap.bytes) := by
  cases c with
  | kalloc size =>
      have word : size.toNat % wordSize = size.toNat := Nat.mod_eq_of_lt size.toNat_lt
      rw [HeapCall.request, word]
      cases answer : kalloc h size.toNat with
      | none => exact answer
      | some result => exact ⟨result.2.bytes, answer, fun _ => rfl⟩
  | kcalloc count size =>
      rw [HeapCall.request]
      cases answer : kalloc h (count.toNat * size.toNat % wordSize) with
      | none => exact answer
      | some result => exact ⟨result.2.bytes, answer, fun _ => rfl⟩
  | kstrdup s =>
      rw [heapCall, kstrdup, HeapCall.request]
      cases kalloc h ((s.length + 1) % wordSize) with
      | none => rfl
      | some result =>
          obtain ⟨base, heap⟩ := result
          cases base with
          | none => exact ⟨heap.bytes, rfl, fun _ => rfl⟩
          | some copy => exact ⟨_, rfl, nofun⟩

structure HeapInv (s : HeapLog) : Prop where
  bounded : s.heap.offset ≤ kernelHeapSize
  aligned : s.heap.offset % 16 = 0
  below : ∀ block ∈ s.blocks, block.base + block.size ≤ s.heap.offset

namespace HeapInv
variable {s : HeapLog} {op : HeapOp}

theorem refused (inv : HeapInv s) {bytes : Nat → UInt8} (answer : s.answer op = some (none, { s.heap with bytes }))
    (same : op.call.offset s.heap = s.heap.offset) :
    CallSound s op ∧ ∀ t, heapStep s op = some t → HeapInv t := by
  refine ⟨⟨Nat.le_of_eq same.symm, same ▸ inv.bounded, fun base heap found => ?_⟩, fun t steps => ?_⟩
  · cases answer.symm.trans found
  · rw [heapStep, answer] at steps
    cases steps
    exact ⟨inv.bounded, inv.aligned, fun block member => inv.below block (by simpa using member)⟩

/-- A new block starts where the blocks before it end. -/
theorem granted (inv : HeapInv s) {heap : Heap} (answer : s.answer op = some (some s.heap.offset, heap))
    (offset : op.call.offset s.heap = heap.offset) (aligned : heap.offset % 16 = 0) (bounded : heap.offset ≤ kernelHeapSize)
    (room : s.heap.offset + op.call.request ≤ heap.offset)
    (zeros : op.call.zeroed → ∀ a, s.heap.offset ≤ a → a < s.heap.offset + op.call.request → heap.bytes a = 0) :
    CallSound s op ∧ ∀ t, heapStep s op = some t → HeapInv t := by
  refine ⟨⟨?_, offset ▸ bounded, fun base after found => ?_⟩, fun t steps => ?_⟩
  · rw [offset]
    exact Nat.le_of_add_right_le room
  · cases answer.symm.trans found
    exact ⟨Nat.le_trans room bounded, fun block member => Or.inl (inv.below block member), zeros⟩
  · rw [heapStep, answer] at steps
    cases steps
    refine ⟨bounded, aligned, fun block member => ?_⟩
    rcases List.mem_append.mp member with earlier | new
    · exact Nat.le_trans (inv.below block earlier) (Nat.le_of_add_right_le room)
    · cases List.mem_singleton.mp new
      exact room

/-- The calls that are misjudged are the ones that break the promise, and the others keep the invariant. -/
theorem call (inv : HeapInv s) (op : HeapOp) :
    (CallSound s op ↔ ¬Misjudged s.heap.offset op.call.request) ∧
      (¬Misjudged s.heap.offset op.call.request → ∀ t, heapStep s op = some t → HeapInv t) := by
  have small : kernelHeapSize < wordSize - 16 := by decide
  have bounded := inv.bounded
  have word := Nat.mod_lt op.call.request (show 0 < wordSize by decide)
  have answers := heapCall_kalloc { s.heap with bytes := op.contents } op.call
  have moves : op.call.offset s.heap =
      (kallocOffset { s.heap with bytes := op.contents } (op.call.request % wordSize)).getD s.heap.offset := rfl
  cases kalloc_cases (h := { s.heap with bytes := op.contents }) inv.bounded inv.aligned word with
  | refused answer offset reason =>
      rw [answer] at answers
      obtain ⟨bytes, answer, -⟩ := answers
      obtain ⟨sound, after⟩ := inv.refused answer (by rw [moves, offset, Option.getD_none])
      refine ⟨iff_of_true sound ?_, fun _ => after⟩
      unfold Misjudged TestWraps
      dsimp only at reason
      omega
  | endless answer wraps back =>
      obtain ⟨offset, moved, back⟩ := back
      refine ⟨iff_of_false (fun sound => ?_) (not_not.mpr (Or.inl wraps)), fun judged => absurd (Or.inl wraps) judged⟩
      have grows := sound.grows
      rw [moves, moved, Option.getD_some] at grows
      exact absurd grows (Nat.not_le.mpr back)
  | granted heap answer offset positive fits aligned most room zeros =>
      rw [answer] at answers
      obtain ⟨bytes, answer, zeroed⟩ := answers
      have moved : op.call.offset s.heap = heap.offset := by rw [moves, offset, Option.getD_some]
      dsimp only at fits room zeros
      by_cases exactly : op.call.request < wordSize
      · rw [Nat.mod_eq_of_lt exactly] at fits room zeros
        obtain ⟨sound, after⟩ := inv.granted answer moved aligned most room fun zero => (zeroed zero).symm ▸ zeros
        refine ⟨iff_of_true sound ?_, fun _ => after⟩
        unfold Misjudged TestWraps
        rw [Nat.mod_eq_of_lt exactly]
        omega
      · have wrong : Misjudged s.heap.offset op.call.request := Or.inr ⟨Nat.le_of_not_lt exactly, positive, fits⟩
        refine ⟨iff_of_false (fun sound => ?_) (not_not.mpr wrong), fun judged => absurd wrong judged⟩
        have inside := (sound.block _ _ answer).inside
        omega

end HeapInv

/-- Every call of the sequence is sound in the state that the earlier ones have led to, if they have come back. -/
def HeapSound (ops : List HeapOp) : Prop :=
  ∀ before op s, before ++ [op] <+: ops → run heapStep {} before = some s → CallSound s op

/-- The heap keeps its promise in a sequence of calls exactly if none of them is misjudged. -/
theorem heap_blocks_sound_iff (ops : List HeapOp) :
    HeapSound ops ↔ Along heapStep (fun s op => ¬Misjudged s.heap.offset op.call.request) {} ops := by
  have start : HeapInv {} := ⟨Nat.zero_le _, rfl, by simp⟩
  exact steps_iff (fun s op t inv judged => (inv.call op).2 judged t) (fun s op inv => (inv.call op).1) start ops

-- A product of 2^64 + 16 bytes.
def wrappingProduct : HeapOp := ⟨fun _ => 0, .kcalloc 0x1000000000000001 16⟩

/-- A block of 16 bytes is returned for the product. -/
theorem wrapping_product_gets_small_block :
    ∃ s, run heapStep {} [wrappingProduct] = some s ∧ s.heap.offset = 16 ∧ s.blocks.map Block.base = [0] ∧
      ¬HeapSound [wrappingProduct] := by
  obtain ⟨s, reaches, offset, blocks⟩ := exists_of_check
    (P := fun s : HeapLog => s.heap.offset = 16 ∧ s.blocks.map Block.base = [0])
    (show (run heapStep {} [wrappingProduct]).map _ = some true by decide +kernel)
  refine ⟨s, reaches, offset, blocks, fun sound => ?_⟩
  have judged := ((heap_blocks_sound_iff _).mp sound).1
  exact absurd judged (by decide +kernel)

end Mgcore
