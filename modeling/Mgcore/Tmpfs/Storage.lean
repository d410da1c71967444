import Mgcore.Lib.Bits
import Mgcore.Tmpfs.Runs

/-!
# File contents

Each file owns a region of the arena that no other file shares; the bytes of the region past the size of the
file, and all bytes past `g_data_offset`, are still zero. Under this invariant the table behaves as a store
of byte strings: `contents` is the abstraction function, and a write is `Lib.overwrite` on one string.
-/

namespace Mgcore
open Function

/-! ## Rounding -/

theorem roundCapacity_eq (n : Nat) : roundCapacity n = (n + 255) % wordSize % 2 ^ 32 / 256 * 256 :=
  Lib.and_shiftLeft_mask ((n + 255) % wordSize) 24 8

theorem alignStorage_eq (n : Nat) : alignStorage n = (n + 15) % wordSize % 2 ^ 32 / 16 * 16 :=
  Lib.and_shiftLeft_mask ((n + 15) % wordSize) 28 4

theorem alignStorage_roundCapacity (n : Nat) : alignStorage (roundCapacity n) = roundCapacity n := by
  rw [alignStorage_eq, roundCapacity_eq]
  unfold wordSize
  omega

theorem le_roundCapacity {n : Nat} (small : n ≤ writeLimit) : n ≤ roundCapacity n := by
  rw [roundCapacity_eq]
  unfold writeLimit at small
  unfold wordSize
  omega

/-! ## The invariant -/

structure StorageInv (s : Tmpfs) : Prop where
  offset_le : s.dataOffset ≤ arenaSize
  region : ∀ i d, (s.nodes i).data = some d → d + (s.nodes i).capacity ≤ s.dataOffset
  no_data : ∀ i, (s.nodes i).data = none → (s.nodes i).capacity = 0
  size_le : ∀ i, (s.nodes i).size ≤ (s.nodes i).capacity
  apart : ∀ i j d e, i ≠ j → (s.nodes i).data = some d → (s.nodes j).data = some e →
    d + (s.nodes i).capacity ≤ e ∨ e + (s.nodes j).capacity ≤ d
  zero_tail : ∀ i d, (s.nodes i).data = some d → ∀ a, d + (s.nodes i).size ≤ a →
    a < d + (s.nodes i).capacity → s.arena a = 0
  zero_free : ∀ a, s.dataOffset ≤ a → a < arenaSize → s.arena a = 0

/-- The byte string of the file in slot `i`; nothing for other kinds of node. -/
def contents (s : Tmpfs) (i : Nat) : Option (List UInt8) :=
  if (s.nodes i).type = .file then
    some (Lib.load wordSize s.arena ((s.nodes i).data.getD 0) (s.nodes i).size)
  else none

theorem contents_eq_some {s : Tmpfs} {i : Nat} {text : List UInt8} (file : contents s i = some text) :
    (s.nodes i).type = .file ∧
      text = Lib.load wordSize s.arena ((s.nodes i).data.getD 0) (s.nodes i).size := by
  unfold contents at file
  split_ifs at file with isFile
  exact ⟨isFile, (Option.some.inj file).symm⟩

theorem contents_length {s : Tmpfs} {i : Nat} {text : List UInt8} (file : contents s i = some text) :
    text.length = (s.nodes i).size := by
  rw [(contents_eq_some file).2, Lib.load_length]

namespace StorageInv
variable {s t : Tmpfs}

theorem region_fits (inv : StorageInv s) (i : Nat) :
    (s.nodes i).data.getD 0 + (s.nodes i).capacity ≤ arenaSize := by
  have offset := inv.offset_le
  cases data : (s.nodes i).data with
  | none => simp [inv.no_data i data]
  | some d =>
      have region := inv.region i d data
      simp only [Option.getD_some]
      omega

theorem load_fits (inv : StorageInv s) (i : Nat) :
    (s.nodes i).data.getD 0 + (s.nodes i).size ≤ wordSize := by
  have region := inv.region_fits i
  have size := inv.size_le i
  simp only [arenaSize, wordSize] at *
  omega

theorem contents_getD (inv : StorageInv s) {i : Nat} {text : List UInt8} (file : contents s i = some text)
    {d : Nat} (data : (s.nodes i).data = some d) {k : Nat} (inside : k < (s.nodes i).capacity) :
    text.getD k 0 = s.arena (d + k) := by
  have length := contents_length file
  have fits := inv.load_fits i
  by_cases early : k < (s.nodes i).size
  · rw [List.getD_eq_getElem _ _ (by omega)]
    obtain ⟨-, rfl⟩ := contents_eq_some file
    rw [Lib.load_getElem fits, data, Option.getD_some]
  · rw [List.getD_eq_default _ _ (by omega), inv.zero_tail i d data (d + k) (by omega) (by omega)]

theorem congr (inv : StorageInv s) (arena : t.arena = s.arena) (offset : t.dataOffset = s.dataOffset)
    (same : ∀ i, (t.nodes i).data = (s.nodes i).data ∧ (t.nodes i).size = (s.nodes i).size ∧
      (t.nodes i).capacity = (s.nodes i).capacity) : StorageInv t := by
  have datas : ∀ i, (t.nodes i).data = (s.nodes i).data := fun i => (same i).1
  have sizes : ∀ i, (t.nodes i).size = (s.nodes i).size := fun i => (same i).2.1
  have capacities : ∀ i, (t.nodes i).capacity = (s.nodes i).capacity := fun i => (same i).2.2
  obtain ⟨offsetLe, region, noData, sizeLe, apart, zeroTail, zeroFree⟩ := inv
  constructor <;> simp only [arena, offset, datas, sizes, capacities] <;> assumption

theorem clear (inv : StorageInv s) (id : Nat) (n : VfsNode) (data : n.data = none) (size : n.size = 0)
    (capacity : n.capacity = 0) : StorageInv (s.setNode id n) := by
  have nodes : ∀ i, i ≠ id → (s.setNode id n).nodes i = s.nodes i := fun i other => by simp [other]
  have cleared : (s.setNode id n).nodes id = n := by simp
  have kept : ∀ i d, ((s.setNode id n).nodes i).data = some d → i ≠ id := by
    rintro i d present rfl
    rw [cleared, data] at present
    cases present
  constructor
  · exact inv.offset_le
  · intro i d present
    have other := kept i d present
    rw [nodes i other] at present ⊢
    exact inv.region i d present
  · intro i absent
    by_cases same : i = id
    · rw [same, cleared, capacity]
    · rw [nodes i same] at absent ⊢
      exact inv.no_data i absent
  · intro i
    by_cases same : i = id
    · rw [same, cleared, size]
      exact Nat.zero_le _
    · rw [nodes i same]
      exact inv.size_le i
  · intro i j d e distinct presentI presentJ
    have otherI := kept i d presentI
    have otherJ := kept j e presentJ
    rw [nodes i otherI] at presentI ⊢
    rw [nodes j otherJ] at presentJ ⊢
    exact inv.apart i j d e distinct presentI presentJ
  · intro i d present
    have other := kept i d present
    rw [nodes i other] at present ⊢
    exact inv.zero_tail i d present
  · exact inv.zero_free

/-! ## Creation and removal -/

theorem insertChild (inv : StorageInv s) {id p : Nat} (other : p ≠ id) (name : List UInt8) (type : NodeType)
    (mode : UInt32) : StorageInv (insertChild s id p name type mode) := by
  have fresh : ((Mgcore.insertChild s id p name type mode).nodes id).data = none ∧
      ((Mgcore.insertChild s id p name type mode).nodes id).size = 0 ∧
      ((Mgcore.insertChild s id p name type mode).nodes id).capacity = 0 := by
    simp [insertChild_nodes other]
  refine (inv.clear id _ fresh.1 fresh.2.1 fresh.2.2).congr rfl rfl fun i => ?_
  by_cases new : i = id
  · simp [new, insertChild_nodes other]
  · by_cases isParent : i = p
    · simp [isParent, other, insertChild_nodes other]
    · simp [new, isParent, insertChild_nodes other]

theorem unlinkChild_keeps {parent id : Int} (result : unlinkChild s parent id = some t) :
    t.arena = s.arena ∧ t.dataOffset = s.dataOffset ∧ ∀ i, (t.nodes i).type = (s.nodes i).type ∧
      (t.nodes i).data = (s.nodes i).data ∧ (t.nodes i).size = (s.nodes i).size ∧
      (t.nodes i).capacity = (s.nodes i).capacity := by
  -- Either branch of the unlink step replaces one link of one node.
  have changed : ∀ (j : Nat) (n : VfsNode), n.type = (s.nodes j).type → n.data = (s.nodes j).data →
      n.size = (s.nodes j).size → n.capacity = (s.nodes j).capacity → ∀ i,
      ((s.setNode j n).nodes i).type = (s.nodes i).type ∧ ((s.setNode j n).nodes i).data = (s.nodes i).data ∧
      ((s.setNode j n).nodes i).size = (s.nodes i).size ∧
      ((s.setNode j n).nodes i).capacity = (s.nodes i).capacity := by
    intro j n type data size capacity i
    by_cases same : i = j
    · subst same; simp [type, data, size, capacity]
    · simp [same]
  unfold unlinkChild at result
  dsimp only at result
  split_ifs at result
  · cases result
    exact ⟨rfl, rfl, changed _ _ rfl rfl rfl rfl⟩
  · obtain ⟨found, -, rfl⟩ := Option.map_eq_some_iff.mp result
    cases found with
    | none => exact ⟨rfl, rfl, fun i => ⟨rfl, rfl, rfl, rfl⟩⟩
    | some q => exact ⟨rfl, rfl, changed _ _ rfl rfl rfl rfl⟩

theorem unlinked (inv : StorageInv s) {parent id : Int} (result : unlinkChild s parent id = some t) :
    StorageInv t ∧ contents t = contents s := by
  obtain ⟨arena, offset, same⟩ := unlinkChild_keeps result
  refine ⟨inv.congr arena offset fun i => (same i).2, ?_⟩
  funext i
  simp only [contents, arena, same]

theorem contents_insertChild {id p : Nat} (other : p ≠ id) (isDir : (s.nodes p).type = .dir) (name : List UInt8)
    (type : NodeType) (mode : UInt32) :
    contents (Mgcore.insertChild s id p name type mode) =
      update (contents s) id (if type = .file then some [] else none) := by
  funext i
  by_cases new : i = id
  · subst new
    simp [contents, insertChild_nodes other, Lib.load]
  · rw [update_of_ne new]
    by_cases isParent : i = p
    · subst isParent
      simp [contents, insertChild_nodes other, other, isDir]
    · simp only [contents, insertChild_nodes other, new, isParent, if_false]
      rfl

theorem contents_clear (id : Nat) : contents (s.setNode id {}) = update (contents s) id none := by
  funext i
  by_cases same : i = id
  · subst same; simp [contents]
  · simp [contents, same]

/-! ## Writes -/

theorem allocStorage_roundCapacity (inv : StorageInv s) (endOffset : Nat) :
    allocStorage s (roundCapacity endOffset) =
      if arenaSize < s.dataOffset + roundCapacity endOffset then none
      else some (s.dataOffset, { s with dataOffset := s.dataOffset + roundCapacity endOffset }) := by
  have offset := inv.offset_le
  have small : roundCapacity endOffset < 2 ^ 32 := by
    rw [roundCapacity_eq]
    omega
  have noWrap : (s.dataOffset + roundCapacity endOffset) % wordSize = s.dataOffset + roundCapacity endOffset := by
    unfold arenaSize at offset
    unfold wordSize
    omega
  simp only [allocStorage, alignStorage_roundCapacity, noWrap]

theorem growNode_eq_none {i endOffset : Nat} (inv : StorageInv s) :
    growNode s i endOffset = none ↔ arenaSize < s.dataOffset + roundCapacity endOffset := by
  unfold growNode
  rw [inv.allocStorage_roundCapacity]
  by_cases full : arenaSize < s.dataOffset + roundCapacity endOffset
  · simp [full]
  · simp [full]

theorem growNode_spec {i endOffset : Nat} (inv : StorageInv s) (grown : growNode s i endOffset = some t) :
    s.dataOffset + roundCapacity endOffset ≤ arenaSize ∧
    t.dataOffset = s.dataOffset + roundCapacity endOffset ∧
    (∀ j, t.nodes j = if j = i then
      { s.nodes i with data := some s.dataOffset, capacity := roundCapacity endOffset } else s.nodes j) ∧
    t.arena = match (s.nodes i).data with
      | some old => if (s.nodes i).size = 0 then s.arena
          else Lib.copy wordSize s.arena s.dataOffset old (s.nodes i).size
      | none => s.arena := by
  unfold growNode at grown
  rw [inv.allocStorage_roundCapacity] at grown
  by_cases full : arenaSize < s.dataOffset + roundCapacity endOffset
  · simp [full] at grown
  · rw [if_neg full] at grown
    cases grown
    refine ⟨by omega, rfl, fun j => ?_, rfl⟩
    by_cases same : j = i
    · simp [same]
    · simp [same]

theorem grown_arena {i endOffset : Nat} (inv : StorageInv s) (grown : growNode s i endOffset = some t)
    (larger : (s.nodes i).capacity ≤ roundCapacity endOffset) :
    (∀ a, a < s.dataOffset → t.arena a = s.arena a) ∧
    (∀ k, k < (s.nodes i).size → t.arena (s.dataOffset + k) = s.arena ((s.nodes i).data.getD 0 + k)) ∧
    (∀ a, s.dataOffset + (s.nodes i).size ≤ a → a < arenaSize → t.arena a = 0) := by
  obtain ⟨room, -, -, arena⟩ := inv.growNode_spec grown
  have size := inv.size_le i
  cases data : (s.nodes i).data with
  | none =>
      have empty : (s.nodes i).size = 0 := by
        have := inv.no_data i data
        omega
      simp only [data] at arena
      rw [arena, empty]
      exact ⟨fun a _ => rfl, by simp, fun a above below => inv.zero_free a (by omega) below⟩
  | some old =>
      have region := inv.region i old data
      simp only [data] at arena
      split_ifs at arena with empty
      · rw [arena, empty]
        exact ⟨fun a _ => rfl, by simp, fun a above below => inv.zero_free a (by omega) below⟩
      · have fits : s.dataOffset + (s.nodes i).size ≤ wordSize := by
          simp only [arenaSize, wordSize] at *
          omega
        rw [arena]
        refine ⟨fun a below => Lib.copy_of_outside fits (Or.inl below), fun k early => ?_, fun a above below => ?_⟩
        · rw [Lib.copy_inside fits (Or.inr (by omega)) early]
          rfl
        · rw [Lib.copy_of_outside fits (Or.inr above)]
          exact inv.zero_free a (by omega) below

theorem growNode {i endOffset : Nat} (inv : StorageInv s) (grown : growNode s i endOffset = some t)
    (larger : (s.nodes i).capacity ≤ roundCapacity endOffset) : StorageInv t := by
  obtain ⟨room, offset, nodes, -⟩ := inv.growNode_spec grown
  obtain ⟨below, -, above⟩ := inv.grown_arena grown larger
  have same : t.nodes i = { s.nodes i with data := some s.dataOffset, capacity := roundCapacity endOffset } := by
    rw [nodes, if_pos rfl]
  have others : ∀ j, j ≠ i → t.nodes j = s.nodes j := fun j other => by rw [nodes, if_neg other]
  have size := inv.size_le i
  constructor
  · omega
  · intro j d data
    by_cases isI : j = i
    · subst isI
      rw [same] at data ⊢
      cases data
      simp only
      omega
    · rw [others j isI] at data ⊢
      have := inv.region j d data
      omega
  · intro j data
    by_cases isI : j = i
    · subst isI
      rw [same] at data
      cases data
    · rw [others j isI] at data ⊢
      exact inv.no_data j data
  · intro j
    by_cases isI : j = i
    · subst isI
      rw [same]
      exact size.trans larger
    · rw [others j isI]
      exact inv.size_le j
  · intro j k d e distinct dataJ dataK
    by_cases isJ : j = i
    · subst isJ
      rw [others k (Ne.symm distinct)] at dataK ⊢
      rw [same] at dataJ
      cases dataJ
      exact Or.inr (inv.region k e dataK)
    · rw [others j isJ] at dataJ ⊢
      by_cases isK : k = i
      · subst isK
        rw [same] at dataK
        cases dataK
        exact Or.inl (inv.region j d dataJ)
      · rw [others k isK] at dataK ⊢
        exact inv.apart j k d e distinct dataJ dataK
  · intro j d data a from_ to_
    by_cases isI : j = i
    · subst isI
      rw [same] at data from_ to_
      cases data
      simp only at from_ to_
      exact above a from_ (by omega)
    · rw [others j isI] at data from_ to_
      have := inv.region j d data
      rw [below a (by omega)]
      exact inv.zero_tail j d data a from_ to_
  · intro a from_ to_
    exact above a (by omega) to_

theorem contents_growNode {i endOffset : Nat} (inv : StorageInv s) (grown : Mgcore.growNode s i endOffset = some t)
    (larger : (s.nodes i).capacity ≤ roundCapacity endOffset) : contents t = contents s := by
  obtain ⟨room, -, nodes, -⟩ := inv.growNode_spec grown
  obtain ⟨below, moved, -⟩ := inv.grown_arena grown larger
  have size := inv.size_le i
  funext j
  by_cases isI : j = i
  · subst isI
    have fits := inv.load_fits j
    simp only [contents, nodes, if_true, Option.getD_some]
    split_ifs
    · congr 1
      refine Lib.load_congr fits ?_ moved
      simp only [arenaSize, wordSize] at *
      omega
    · rfl
  · have size := inv.size_le j
    have fits := inv.load_fits j
    simp only [contents, nodes, isI, if_false]
    split_ifs
    · congr 1
      refine Lib.load_congr fits fits fun k early => below _ ?_
      cases data : (s.nodes j).data with
      | none =>
          have := inv.no_data j data
          omega
      | some d =>
          have := inv.region j d data
          simp only [Option.getD_some]
          omega
    · rfl

theorem putBytes_nodes (s : Tmpfs) (i : Nat) (buffer : List UInt8) (offset endOffset j : Nat) :
    (putBytes s i buffer offset endOffset).nodes j =
      if j = i then { s.nodes i with size := max (s.nodes i).size endOffset } else s.nodes j := by
  by_cases same : j = i
  · simp [putBytes, same]
  · simp [putBytes, same]

theorem putBytes_arena {i offset : Nat} {buffer : List UInt8} (inv : StorageInv s)
    (within : offset + buffer.length ≤ (s.nodes i).capacity) (a endOffset : Nat) :
    (putBytes s i buffer offset endOffset).arena a =
      if (s.nodes i).data.getD 0 + offset ≤ a ∧ a < (s.nodes i).data.getD 0 + offset + buffer.length then
        buffer.getD (a - ((s.nodes i).data.getD 0 + offset)) 0
      else s.arena a := by
  have region := inv.region_fits i
  cases data : (s.nodes i).data with
  | none =>
      have := inv.no_data i data
      have empty : ¬(0 + offset ≤ a ∧ a < 0 + offset + buffer.length) := by omega
      simp only [Option.getD_none, if_neg empty]
      simp [putBytes, data]
  | some d =>
      simp only [data, Option.getD_some] at region ⊢
      have fits : d + offset + buffer.length ≤ wordSize := by
        simp only [arenaSize, wordSize] at *
        omega
      rw [← Lib.store_apply fits]
      simp [putBytes, data]

theorem putBytes_regions (s : Tmpfs) (i : Nat) (buffer : List UInt8) (offset endOffset j : Nat) :
    ((putBytes s i buffer offset endOffset).nodes j).data = (s.nodes j).data ∧
      ((putBytes s i buffer offset endOffset).nodes j).capacity = (s.nodes j).capacity := by
  rw [putBytes_nodes]
  split_ifs with same
  · rw [same]
    exact ⟨rfl, rfl⟩
  · exact ⟨rfl, rfl⟩

theorem putBytes_outside {i offset a : Nat} {buffer : List UInt8} (inv : StorageInv s)
    (within : offset + buffer.length ≤ (s.nodes i).capacity) (endOffset : Nat)
    (away : ∀ d, (s.nodes i).data = some d → a < d ∨ d + (s.nodes i).capacity ≤ a) :
    (putBytes s i buffer offset endOffset).arena a = s.arena a := by
  rw [inv.putBytes_arena within, if_neg]
  rintro ⟨from_, to_⟩
  cases data : (s.nodes i).data with
  | none =>
      have := inv.no_data i data
      rw [data, Option.getD_none] at from_ to_
      omega
  | some d =>
      have := away d data
      rw [data, Option.getD_some] at from_ to_
      omega

theorem putBytes {i offset : Nat} {buffer : List UInt8} (inv : StorageInv s)
    (within : offset + buffer.length ≤ (s.nodes i).capacity) :
    StorageInv (putBytes s i buffer offset (offset + buffer.length)) := by
  have nodes := putBytes_nodes s i buffer offset (offset + buffer.length)
  have datas := fun j => (putBytes_regions s i buffer offset (offset + buffer.length) j).1
  have capacities := fun j => (putBytes_regions s i buffer offset (offset + buffer.length) j).2
  constructor
  · exact inv.offset_le
  · intro j d data
    rw [datas] at data
    rw [capacities]
    exact inv.region j d data
  · intro j data
    rw [datas] at data
    rw [capacities]
    exact inv.no_data j data
  · intro j
    have size := inv.size_le j
    rw [nodes]
    split_ifs with same
    · subst same
      exact max_le size within
    · exact size
  · intro j k d e distinct dataJ dataK
    rw [datas] at dataJ dataK
    rw [capacities, capacities]
    exact inv.apart j k d e distinct dataJ dataK
  · intro j d data a from_ to_
    rw [datas] at data
    rw [capacities] at to_
    rw [nodes] at from_
    split_ifs at from_ with same
    · subst same
      have late : max (s.nodes j).size (offset + buffer.length) ≤ a - d := by
        simp only at from_
        omega
      rw [inv.putBytes_arena within, if_neg]
      · exact inv.zero_tail j d data a (by omega) to_
      · rw [data, Option.getD_some]
        omega
    · rw [inv.putBytes_outside within]
      · exact inv.zero_tail j d data a from_ to_
      · intro e dataI
        have := inv.apart j i d e same data dataI
        omega
  · intro a from_ to_
    rw [inv.putBytes_outside within]
    · exact inv.zero_free a from_ to_
    · intro d data
      have := inv.region i d data
      exact Or.inr (le_trans this from_)

theorem contents_putBytes {i offset : Nat} {buffer text : List UInt8} (inv : StorageInv s)
    (within : offset + buffer.length ≤ (s.nodes i).capacity) (file : contents s i = some text) :
    contents (Mgcore.putBytes s i buffer offset (offset + buffer.length)) =
      update (contents s) i (some (Lib.overwrite 0 text offset buffer)) := by
  have nodes := putBytes_nodes s i buffer offset (offset + buffer.length)
  have arena := fun a => inv.putBytes_arena within a (offset + buffer.length)
  have length := contents_length file
  have size := inv.size_le i
  have region := inv.region_fits i
  funext j
  by_cases isI : j = i
  · subst isI
    rw [update_self]
    simp only [contents, nodes, if_true, (contents_eq_some file).1]
    congr 1
    apply List.ext_getElem
    · simp [length]
    · intro k h h'
      have inside : k < (s.nodes j).capacity := by
        simp only [Lib.load_length] at h
        omega
      rw [Lib.overwrite_getElem h', Lib.load_getElem (by simp only [arenaSize, wordSize] at *; omega), arena]
      cases data : (s.nodes j).data with
      | none =>
          have := inv.no_data j data
          omega
      | some d =>
          rw [inv.contents_getD file data inside, Option.getD_some]
          by_cases hit : offset ≤ k ∧ k < offset + buffer.length
          · rw [if_pos hit, if_pos (by omega)]
            congr 1
            omega
          · rw [if_neg hit, if_neg (by omega)]
  · rw [update_of_ne isI]
    have fits := inv.load_fits j
    simp only [contents, nodes, isI, if_false]
    split_ifs
    · congr 1
      refine Lib.load_congr fits fits fun k early => ?_
      have sizeJ := inv.size_le j
      apply inv.putBytes_outside within
      intro d dataI
      cases dataJ : (s.nodes j).data with
      | none =>
          have := inv.no_data j dataJ
          omega
      | some e =>
          have := inv.apart i j d e (Ne.symm isI) dataI dataJ
          rw [Option.getD_some]
          omega
    · rfl

/-! ## The operations on the abstract store -/

theorem write_cases (inv : StorageInv s) {i : Nat} (bound : i < maxNodes) {text buffer : List UInt8}
    {offset : Nat} (file : contents s i = some text) (limit : offset + buffer.length ≤ writeLimit) :
    (tmpfsWriteNode s i buffer offset = (-eNOSPC, s) ∧ (s.nodes i).capacity < offset + buffer.length ∧
      arenaSize < s.dataOffset + roundCapacity (offset + buffer.length)) ∨
    ((tmpfsWriteNode s i buffer offset).1 = buffer.length ∧
      StorageInv (tmpfsWriteNode s i buffer offset).2 ∧
      contents (tmpfsWriteNode s i buffer offset).2 =
        update (contents s) i (some (Lib.overwrite 0 text offset buffer))) := by
  have isFile := (contents_eq_some file).1
  have noWrap : (offset + buffer.length) % wordSize = offset + buffer.length := by
    unfold writeLimit at limit
    unfold wordSize
    omega
  have signed : toSigned buffer.length = buffer.length := by
    unfold writeLimit at limit
    unfold toSigned wordSize
    omega
  rw [tmpfsWriteNode_file bound isFile, noWrap, signed]
  split_ifs with grows
  · cases grown : Mgcore.growNode s i (offset + buffer.length) with
    | none => exact Or.inl ⟨rfl, grows, inv.growNode_eq_none.mp grown⟩
    | some t =>
        have rounded := le_roundCapacity limit
        have larger : (s.nodes i).capacity ≤ roundCapacity (offset + buffer.length) := by omega
        have invT := inv.growNode grown larger
        have sameContents := inv.contents_growNode grown larger
        have within : offset + buffer.length ≤ (t.nodes i).capacity := by
          rw [(inv.growNode_spec grown).2.2.1, if_pos rfl]
          exact rounded
        refine Or.inr ⟨rfl, invT.putBytes within, ?_⟩
        rw [← sameContents] at file ⊢
        exact invT.contents_putBytes within file
  · have within : offset + buffer.length ≤ (s.nodes i).capacity := by omega
    exact Or.inr ⟨rfl, inv.putBytes within, inv.contents_putBytes within file⟩

theorem read_eq (inv : StorageInv s) {i : Nat} (bound : i < maxNodes) {text : List UInt8}
    (file : contents s i = some text) (count offset : Nat) :
    tmpfsReadNode s i count offset =
      (↑((text.drop offset).take count).length, (text.drop offset).take count) := by
  obtain ⟨isFile, rfl⟩ := contents_eq_some file
  have region := inv.region_fits i
  have size := inv.size_le i
  have fits := inv.load_fits i
  have found := tmpfsGetNode_natCast bound (show (s.nodes i).type ≠ .none by simp [isFile])
  simp only [tmpfsReadNode, found, isFile, ne_eq, not_true_eq_false, if_false]
  split_ifs with past
  · simp [List.drop_eq_nil_of_le, past]
  · have small : min count ((s.nodes i).size - offset) < 2 ^ 63 := by
      unfold arenaSize at region
      omega
    have signed : toSigned (min count ((s.nodes i).size - offset)) = (min count ((s.nodes i).size - offset) : Nat) := by
      unfold toSigned wordSize
      omega
    have bytes : Lib.load wordSize s.arena ((s.nodes i).data.getD 0 + offset) (min count ((s.nodes i).size - offset)) =
        ((Lib.load wordSize s.arena ((s.nodes i).data.getD 0) (s.nodes i).size).drop offset).take count := by
      apply List.ext_getElem
      · simp
      · intro k h h'
        rw [Lib.load_getElem (by simp only [arenaSize, wordSize] at *; omega), List.getElem_take, List.getElem_drop,
          Lib.load_getElem fits, Nat.add_assoc]
    rw [signed, bytes]
    simp

end StorageInv

end Mgcore
