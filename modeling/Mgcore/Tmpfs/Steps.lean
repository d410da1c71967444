import Mgcore.Tmpfs.Model

/-!
# What each operation can do

One inversion lemma for each operation of `tmpfs.c`: an operation that returns either changed nothing or
made one of three changes, `insertChild`, an unlink followed by clearing the slot, and a write to the
storage of one node. Every invariant is proved from these.
-/

namespace Mgcore
open Function

def insertChild (s : Tmpfs) (id parent : Nat) (name : List UInt8) (type : NodeType) (mode : UInt32) :
    Tmpfs :=
  (s.setNode id
    { id := id, parentId := parent, firstChildId := -1, nextSiblingId := (s.nodes parent).firstChildId,
      type := type, name := name.take (nameMax - 1), data := none, size := 0, capacity := 0, mode := mode,
      deviceId := 0 }).setNode parent { s.nodes parent with firstChildId := id }

section
variable {s : Tmpfs} {id parent : Nat} (other : parent ≠ id) (name : List UInt8) (type : NodeType) (mode : UInt32)
include other

theorem insertChild_nodes (i : Nat) : (insertChild s id parent name type mode).nodes i =
    if i = id then
      { id := id, parentId := parent, firstChildId := -1, nextSiblingId := (s.nodes parent).firstChildId,
        type := type, name := name.take (nameMax - 1), data := none, size := 0, capacity := 0, mode := mode,
        deviceId := 0 }
    else if i = parent then { s.nodes parent with firstChildId := id }
    else s.nodes i := by
  by_cases isParent : i = parent
  · subst isParent; simp [insertChild, other]
  · by_cases isNew : i = id
    · subst isNew; simp [insertChild, isParent]
    · simp [insertChild, isParent, isNew]

theorem insertChild_type (i : Nat) : ((insertChild s id parent name type mode).nodes i).type =
    if i = id then type else (s.nodes i).type := by
  rw [insertChild_nodes other]
  split_ifs with isNew isParent
  · rfl
  · rw [isParent]
  · rfl

theorem insertChild_parentId (i : Nat) : ((insertChild s id parent name type mode).nodes i).parentId =
    if i = id then (parent : Int) else (s.nodes i).parentId := by
  rw [insertChild_nodes other]
  split_ifs with isNew isParent
  · rfl
  · rw [isParent]
  · rfl

theorem insertChild_nextSiblingId (i : Nat) : ((insertChild s id parent name type mode).nodes i).nextSiblingId =
    if i = id then (s.nodes parent).firstChildId else (s.nodes i).nextSiblingId := by
  rw [insertChild_nodes other]
  split_ifs with isNew isParent
  · rfl
  · rw [isParent]
  · rfl

theorem insertChild_firstChildId (i : Nat) : ((insertChild s id parent name type mode).nodes i).firstChildId =
    if i = id then -1 else if i = parent then (id : Int) else (s.nodes i).firstChildId := by
  rw [insertChild_nodes other]
  split_ifs <;> rfl

theorem insertChild_name (i : Nat) : ((insertChild s id parent name type mode).nodes i).name =
    if i = id then name.take (nameMax - 1) else (s.nodes i).name := by
  rw [insertChild_nodes other]
  split_ifs with isNew isParent
  · rfl
  · rw [isParent]
  · rfl

theorem insertChild_id (i : Nat) : ((insertChild s id parent name type mode).nodes i).id =
    if i = id then (id : Int) else (s.nodes i).id := by
  rw [insertChild_nodes other]
  split_ifs with isNew isParent
  · rfl
  · rw [isParent]
  · rfl

end

theorem freeSlot_spec {s : Tmpfs} {id : Nat} (free : freeSlot s = some id) :
    (s.nodes id).type = .none ∧ id < maxNodes := by
  have member := List.mem_of_find?_eq_some free
  have type := List.find?_some free
  exact ⟨by simpa using type, List.mem_range.mp member⟩

theorem dir_ne_free {s : Tmpfs} {p id : Nat} (isDir : (s.nodes p).type = .dir) (free : (s.nodes id).type = .none) :
    p ≠ id := by
  intro same
  rw [same, free] at isDir
  cases isDir

theorem createChild_cases (s : Tmpfs) (parent : Nat) (name : List UInt8) (type : NodeType) (mode : UInt32)
    (isDir : (s.nodes parent).type = .dir) :
    (freeSlot s = none ∧ createChild s parent name type mode = (-eNOSPC, s)) ∨
    ∃ id, freeSlot s = some id ∧
      createChild s parent name type mode = ((id : Int), insertChild s id parent name type mode) := by
  cases free : freeSlot s with
  | none => exact Or.inl ⟨rfl, by simp [createChild, allocNode, free, eNOSPC]⟩
  | some id =>
      refine Or.inr ⟨id, rfl, ?_⟩
      have other : parent ≠ id := dir_ne_free isDir (freeSlot_spec free).1
      have nonneg : ¬((id : Int) < 0) := by omega
      simp only [createChild, allocNode, free, if_neg nonneg, Int.toNat_natCast, Tmpfs.node_natCast,
        Tmpfs.setNode_nodes, update_self, update_of_ne other]
      simp only [insertChild, Tmpfs.setNode, update_idem]

/-! ## Creation and removal -/

theorem splitParent_eq_some {path parent leaf : List UInt8} (split : splitParent path = some (parent, leaf)) :
    splitText path = (parent, leaf) := by
  simp only [splitParent, copyInto, Option.bind_eq_bind, Option.bind_eq_some_iff, Option.pure_def] at split
  obtain ⟨a, copiedParent, b, copiedLeaf, both⟩ := split
  split_ifs at copiedParent copiedLeaf
  cases copiedParent
  cases copiedLeaf
  cases both
  rfl

theorem lookupChild_result {s : Tmpfs} {parentId : Int} {name : List UInt8} {r : Int}
    (returns : lookupChild s parentId name = some r) : 0 ≤ r ∨ r = -eNOENT := by
  obtain ⟨found, -, result⟩ := Option.map_eq_some_iff.mp returns
  cases found with
  | none => exact Or.inr result.symm
  | some child =>
      left
      rw [← result]
      exact Int.natCast_nonneg child

theorem resolveLoop_result {s : Tmpfs} {fuel : Nat} {cursor : List UInt8} {current r : Int} (start : 0 ≤ current)
    (returns : resolveLoop s fuel cursor current = some r) : 0 ≤ r ∨ r = -eNOENT := by
  induction fuel generalizing cursor current with
  | zero => cases returns
  | succ fuel ih =>
      unfold resolveLoop at returns
      dsimp only at returns
      split_ifs at returns with done stay up root
      · cases returns
        exact Or.inl start
      · exact ih start returns
      · exact ih root returns
      · exact ih (Int.le_refl 0) returns
      · obtain ⟨child, found, returns⟩ := Option.bind_eq_some_iff.mp returns
        split_ifs at returns with missing
        · cases returns
          exact lookupChild_result found
        · exact ih (Int.not_lt.mp missing) returns

theorem resolvePath_result {s : Tmpfs} {path : List UInt8} {r : Int} (returns : resolvePath s path = some r) :
    0 ≤ r ∨ r = -eNOENT ∨ r = -eINVAL := by
  unfold resolvePath at returns
  split_ifs at returns
  · cases returns
    exact Or.inr (Or.inr rfl)
  · cases returns
    exact Or.inl (Int.le_refl 0)
  · exact (resolveLoop_result (Int.le_refl 0) returns).imp_right Or.inl

theorem tmpfsCreatePath_cases {s t : Tmpfs} {path : List UInt8} {type : NodeType} {mode : UInt32} {r : Int}
    (returns : tmpfsCreatePath s path type mode = some (r, t)) :
    (t = s ∧ (r < 0 ∨ resolvePath s path = some r)) ∨
    ∃ e parent leaf, ∃ p id : Nat, resolvePath s path = some e ∧ e < 0 ∧ splitParent path = some (parent, leaf) ∧
      resolvePath s parent = some (p : Int) ∧ (s.nodes p).type = .dir ∧ freeSlot s = some id ∧
      r = id ∧ t = insertChild s id p leaf type mode := by
  unfold tmpfsCreatePath at returns
  split_ifs at returns with malformed
  · cases returns
    exact Or.inl ⟨rfl, Or.inl (by decide)⟩
  · simp only [Option.bind_eq_bind, Option.bind_eq_some_iff, Option.pure_def] at returns
    obtain ⟨existing, resolved, returns⟩ := returns
    split_ifs at returns with present
    · cases returns
      exact Or.inl ⟨rfl, Or.inr resolved⟩
    · simp only [Option.bind_eq_some_iff] at returns
      obtain ⟨⟨parent, leaf⟩, split, p, resolvedParent, returns⟩ := returns
      split_ifs at returns with missing notDir
      · cases returns
        exact Or.inl ⟨rfl, Or.inl missing⟩
      · cases returns
        exact Or.inl ⟨rfl, Or.inl (by decide)⟩
      · obtain ⟨p, rfl⟩ := Int.eq_ofNat_of_zero_le (Int.not_lt.mp missing)
        have isDir : (s.nodes p).type = .dir := by simpa using notDir
        rcases createChild_cases s p leaf type mode isDir with ⟨-, full⟩ | ⟨id, free, created⟩
        · rw [full] at returns
          cases returns
          exact Or.inl ⟨rfl, Or.inl (by decide)⟩
        · rw [created] at returns
          cases returns
          exact Or.inr ⟨existing, parent, leaf, p, id, resolved, Int.not_le.mp present, split, resolvedParent,
            isDir, free, rfl, rfl⟩

theorem tmpfsCreatePath_dataOffset {s t : Tmpfs} {path : List UInt8} {type : NodeType} {mode : UInt32} {r : Int}
    (returns : tmpfsCreatePath s path type mode = some (r, t)) : t.dataOffset = s.dataOffset := by
  rcases tmpfsCreatePath_cases returns with ⟨rfl, -⟩ | ⟨_, _, _, _, _, -, -, -, -, -, -, -, rfl⟩
  · rfl
  · rfl

theorem tmpfsRemovePath_cases {s t : Tmpfs} {path : List UInt8} {wantDir : Bool} {r : Int}
    (returns : tmpfsRemovePath s path wantDir = some (r, t)) :
    (t = s ∧ r < 0) ∨
    ∃ (id : Nat) (u : Tmpfs), resolvePath s path = some (id : Int) ∧ id ≠ 0 ∧
      (wantDir = true ↔ (s.nodes id).type = .dir) ∧
      ¬((s.nodes id).type = .dir ∧ 0 ≤ (s.nodes id).firstChildId) ∧
      unlinkChild s (s.nodes id).parentId id = some u ∧ r = 0 ∧ t = u.setNode id {} := by
  simp only [tmpfsRemovePath, Option.bind_eq_bind, Option.bind_eq_some_iff, Option.pure_def] at returns
  obtain ⟨id, resolved, returns⟩ := returns
  split_ifs at returns with invalid notDir isDir nonempty
  · cases returns
    exact Or.inl ⟨rfl, by decide⟩
  · cases returns
    exact Or.inl ⟨rfl, by decide⟩
  · cases returns
    exact Or.inl ⟨rfl, by decide⟩
  · cases returns
    exact Or.inl ⟨rfl, by decide⟩
  · obtain ⟨id, rfl⟩ := Int.eq_ofNat_of_zero_le (show 0 ≤ id by omega)
    obtain ⟨u, unlinked, returns⟩ := Option.bind_eq_some_iff.mp returns
    cases returns
    simp only [Tmpfs.node_natCast] at notDir isDir nonempty unlinked
    refine Or.inr ⟨id, u, resolved, by omega, ?_, nonempty, unlinked, rfl, rfl⟩
    cases wantDir <;> simp_all

/-! ## Writes -/

theorem tmpfsGetNode_eq_some {s : Tmpfs} {nodeId : Int} {node : VfsNode}
    (found : tmpfsGetNode s nodeId = some node) :
    ∃ i : Nat, nodeId = i ∧ i < maxNodes ∧ node = s.nodes i ∧ (s.nodes i).type ≠ .none := by
  unfold tmpfsGetNode at found
  split_ifs at found with absent
  cases found
  obtain ⟨i, rfl⟩ := Int.eq_ofNat_of_zero_le (show 0 ≤ nodeId by omega)
  refine ⟨i, rfl, by omega, rfl, ?_⟩
  simpa using fun free => absent (Or.inr (Or.inr free))

theorem tmpfsGetNode_natCast {s : Tmpfs} {i : Nat} (bound : i < maxNodes) (used : (s.nodes i).type ≠ .none) :
    tmpfsGetNode s i = some (s.nodes i) := by
  have present : ¬((i : Int) < 0 ∨ (maxNodes : Int) ≤ i ∨ (s.node i).type = .none) := by
    simp only [Tmpfs.node_natCast, not_or]
    exact ⟨by omega, by omega, used⟩
  rw [tmpfsGetNode, if_neg present, Tmpfs.node_natCast]

theorem tmpfsWriteNode_file {s : Tmpfs} {i : Nat} (bound : i < maxNodes) (isFile : (s.nodes i).type = .file)
    (buffer : List UInt8) (offset : Nat) :
    tmpfsWriteNode s i buffer offset =
      if (s.nodes i).capacity < (offset + buffer.length) % wordSize then
        match growNode s i ((offset + buffer.length) % wordSize) with
        | none => (-eNOSPC, s)
        | some t => (toSigned buffer.length, putBytes t i buffer offset ((offset + buffer.length) % wordSize))
      else (toSigned buffer.length, putBytes s i buffer offset ((offset + buffer.length) % wordSize)) := by
  have used : (s.nodes i).type ≠ .none := by simp [isFile]
  rw [tmpfsWriteNode, tmpfsGetNode_natCast bound used]
  exact if_neg (not_not.mpr isFile)

theorem tmpfsWriteNode_other {s : Tmpfs} {nodeId : Int}
    (other : ∀ i : Nat, nodeId = i → i < maxNodes → (s.nodes i).type ≠ .file) (buffer : List UInt8)
    (offset : Nat) : ∃ r : Int, r < 0 ∧ tmpfsWriteNode s nodeId buffer offset = (r, s) := by
  cases found : tmpfsGetNode s nodeId with
  | none => exact ⟨-eNOENT, by decide, by simp [tmpfsWriteNode, found]⟩
  | some node =>
      obtain ⟨i, rfl, bound, rfl, -⟩ := tmpfsGetNode_eq_some found
      exact ⟨-eISDIR, by decide, by simp [tmpfsWriteNode, found, other i rfl bound]⟩

def VfsNode.header (n : VfsNode) : VfsNode := { n with data := none, size := 0, capacity := 0 }

theorem VfsNode.of_header {n m : VfsNode} (same : n.header = m.header) :
    n.type = m.type ∧ n.id = m.id ∧ n.parentId = m.parentId ∧ n.firstChildId = m.firstChildId ∧
      n.nextSiblingId = m.nextSiblingId ∧ n.name = m.name := by
  simp only [VfsNode.header, VfsNode.mk.injEq] at same
  obtain ⟨id, parent, first, next, type, name, -⟩ := same
  exact ⟨type, id, parent, first, next, name⟩

theorem putBytes_header (s : Tmpfs) (i : Nat) (buffer : List UInt8) (offset endOffset j : Nat) :
    ((putBytes s i buffer offset endOffset).nodes j).header = (s.nodes j).header := by
  by_cases same : j = i
  · subst same; simp [putBytes, VfsNode.header]
  · simp [putBytes, same]

theorem growNode_header {s t : Tmpfs} {i endOffset : Nat} (grown : growNode s i endOffset = some t) (j : Nat) :
    (t.nodes j).header = (s.nodes j).header := by
  unfold growNode at grown
  cases alloc : allocStorage s (roundCapacity endOffset) with
  | none => simp [alloc] at grown
  | some result =>
      obtain ⟨newData, u⟩ := result
      have nodes : u.nodes = s.nodes := by
        unfold allocStorage at alloc
        dsimp only at alloc
        split_ifs at alloc
        cases alloc
        rfl
      simp only [alloc, Option.some.injEq] at grown
      subst grown
      by_cases same : j = i
      · subst same; simp [VfsNode.header]
      · simp [same, nodes]

theorem tmpfsWriteNode_header (s : Tmpfs) (nodeId : Int) (buffer : List UInt8) (offset j : Nat) :
    ((tmpfsWriteNode s nodeId buffer offset).2.nodes j).header = (s.nodes j).header := by
  by_cases reaches : ∃ i : Nat, nodeId = i ∧ i < maxNodes ∧ (s.nodes i).type = .file
  · obtain ⟨i, rfl, bound, isFile⟩ := reaches
    rw [tmpfsWriteNode_file bound isFile]
    split_ifs
    · cases grown : growNode s i ((offset + buffer.length) % wordSize) with
      | none => rfl
      | some t => exact (putBytes_header t i buffer offset _ j).trans (growNode_header grown j)
    · exact putBytes_header s i buffer offset _ j
  · obtain ⟨r, -, eq⟩ := tmpfsWriteNode_other
      (fun i same bound isFile => reaches ⟨i, same, bound, isFile⟩) buffer offset
    rw [eq]

theorem tmpfsCreatePath_result {s t : Tmpfs} {path : List UInt8} {type : NodeType} {mode : UInt32} {r : Int}
    (returns : tmpfsCreatePath s path type mode = some (r, t)) :
    0 ≤ r ∨ r ∈ [-eINVAL, -eNOENT, -eNOTDIR, -eNOSPC] := by
  unfold tmpfsCreatePath at returns
  split_ifs at returns with malformed
  · cases returns
    exact Or.inr (by simp)
  · simp only [Option.bind_eq_bind, Option.bind_eq_some_iff, Option.pure_def] at returns
    obtain ⟨existing, resolved, returns⟩ := returns
    split_ifs at returns with present
    · cases returns
      exact Or.inl present
    · simp only [Option.bind_eq_some_iff] at returns
      obtain ⟨⟨parent, leaf⟩, split, p, resolvedParent, returns⟩ := returns
      split_ifs at returns with missing notDir
      · cases returns
        rcases resolvePath_result resolvedParent with nonneg | error | error
        · exact Or.inl nonneg
        · exact Or.inr (by simp [error])
        · exact Or.inr (by simp [error])
      · cases returns
        exact Or.inr (by simp)
      · obtain ⟨p, rfl⟩ := Int.eq_ofNat_of_zero_le (Int.not_lt.mp missing)
        have isDir : (s.nodes p).type = .dir := by simpa using notDir
        rcases createChild_cases s p leaf type mode isDir with ⟨-, full⟩ | ⟨id, -, created⟩
        · rw [full] at returns
          cases returns
          exact Or.inr (by simp)
        · rw [created] at returns
          cases returns
          exact Or.inl (Int.natCast_nonneg id)

end Mgcore
