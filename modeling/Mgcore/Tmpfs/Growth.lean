import Mgcore.Tmpfs.Creation

/-!
# What creations and writes keep

A creation and a write leave every path at its node and every node at its type (`Extends`). `Creatable` is the state in
which a path that leads nowhere can be created so that it is found afterwards.
-/

namespace Mgcore
open Function Lib

def nodeAt (s : Tmpfs) (path : List UInt8) : Option Nat := (tmpfsLookupPath s path).bind linkOf

structure Extends (s t : Tmpfs) : Prop where
  paths : ∀ path i, nodeAt s path = some i → nodeAt t path = some i
  types : ∀ i, InUse s i → (t.nodes i).type = (s.nodes i).type

namespace Extends
variable {s t u : Tmpfs}

theorem refl (s : Tmpfs) : Extends s s := ⟨fun _ _ found => found, fun _ _ => rfl⟩

theorem used (grows : Extends s t) {i : Nat} (used : InUse s i) : InUse t i := by
  rw [InUse, grows.types i used]
  exact used

theorem trans (first : Extends s t) (second : Extends t u) : Extends s u := by
  constructor
  · intro path i found
    exact second.paths path i (first.paths path i found)
  · intro i used
    rw [second.types i (first.used used), first.types i used]

end Extends

theorem nodeAt_eq_some {s : Tmpfs} {path : List UInt8} {i : Nat} :
    nodeAt s path = some i ↔ tmpfsLookupPath s path = some (i : Int) := by
  rw [nodeAt, Option.bind_eq_some_iff]
  constructor
  · rintro ⟨r, lookup, link⟩
    rw [lookup, linkOf_eq_some.mp link]
  · intro lookup
    exact ⟨i, lookup, linkOf_natCast i⟩

theorem nodeAt_rooted {s : Tmpfs} {path : List UInt8} {i : Nat} (found : nodeAt s path = some i) :
    path.head? = some slash := by
  by_contra other
  rw [nodeAt_eq_some, tmpfsLookupPath, resolvePath, if_pos other] at found
  exact absurd (Option.some.inj found) (by simp [eINVAL])

namespace ChildInv
variable {s t : Tmpfs} {path : List UInt8}

theorem nodeAt_walk (inv : ChildInv s) (rooted : path.head? = some slash) : nodeAt s path = walkPath s (tokens path) := by
  rw [nodeAt, tmpfsLookupPath, inv.resolvePath_walk rooted, Option.bind_some]
  cases walkPath s (tokens path) with
  | none => rfl
  | some i => exact linkOf_natCast i

theorem nodeAt_used (inv : ChildInv s) {i : Nat} (found : nodeAt s path = some i) : InUse s i :=
  inv.tree.resolvePath_used (nodeAt_eq_some.mp found)

/-! ## Writing -/

theorem walkStep_congr (same : ∀ i, (t.nodes i).type = (s.nodes i).type ∧ (t.nodes i).parentId = (s.nodes i).parentId ∧
    (t.nodes i).name = (s.nodes i).name) : walkStep t = walkStep s := by
  funext current name
  simp only [walkStep, childNamed, (same _).1, (same _).2.1, (same _).2.2]

theorem write_extends (inv : ChildInv s) (nodeId : Int) (buffer : List UInt8) (offset : Nat) :
    ChildInv (tmpfsWriteNode s nodeId buffer offset).2 ∧ Extends s (tmpfsWriteNode s nodeId buffer offset).2 := by
  have same (j : Nat) : ((tmpfsWriteNode s nodeId buffer offset).2.nodes j).type = (s.nodes j).type ∧
      ((tmpfsWriteNode s nodeId buffer offset).2.nodes j).parentId = (s.nodes j).parentId ∧
      ((tmpfsWriteNode s nodeId buffer offset).2.nodes j).name = (s.nodes j).name := by
    obtain ⟨type, -, parent, -, -, name⟩ := VfsNode.of_header (tmpfsWriteNode_header s nodeId buffer offset j)
    exact ⟨type, parent, name⟩
  have after := inv.congr (inv.tree.write nodeId buffer offset) same
  refine ⟨after, ?_, fun i _ => (same i).1⟩
  intro path i found
  have rooted := nodeAt_rooted found
  rw [inv.nodeAt_walk rooted] at found
  rw [after.nodeAt_walk rooted, walkPath, walkStep_congr same]
  exact found

/-! ## Creating -/

theorem insertChild_extends (inv : ChildInv s) {component trailing : List UInt8} {above : List (List UInt8)} {p id : Nat}
    (new : NewLeaf s path above p component trailing) (free : freeSlot s = some id) (isDir : (s.nodes p).type = .dir)
    {type : NodeType} (kind : type ≠ .none) (mode : UInt32) :
    Extends s (Mgcore.insertChild s id p (component ++ trailing) type mode) := by
  have noType := (freeSlot_spec free).1
  have after := inv.insertChild new free isDir kind mode
  constructor
  · intro other i found
    have rooted := nodeAt_rooted found
    rw [inv.nodeAt_walk rooted] at found
    rw [after.nodeAt_walk rooted]
    exact walkPath_insertChild inv new free isDir kind mode (fun name member => mem_tokens member) inv.tree.root_used found
  · intro i used
    rw [insertChild_type (dir_ne_free isDir noType), if_neg]
    rintro rfl
    exact used noType

end ChildInv

def Creatable (s : Tmpfs) (path : List UInt8) : Prop :=
  path.head? = some slash ∧ path.getLast? ≠ some slash ∧ (freeSlot s).isSome ∧
    ∃ split ∈ splitParent path, ∃ p ∈ nodeAt s split.1, (s.nodes p).type = .dir

instance (s : Tmpfs) (path : List UInt8) : Decidable (Creatable s path) := inferInstanceAs (Decidable (_ ∧ _))

theorem tmpfsCreatePath_creatable {s : Tmpfs} {path : List UInt8} (inv : ChildInv s) (creatable : Creatable s path)
    (absent : nodeAt s path = none) (type : NodeType) (mode : UInt32) :
    ∃ (id : Nat) (t : Tmpfs), tmpfsCreatePath s path type mode = some ((id : Int), t) := by
  obtain ⟨rooted, bare, slot, ⟨parent, leaf⟩, split, p, found, isDir⟩ := creatable
  have filled : path.length ≠ 1 := by
    intro single
    obtain ⟨c, rfl⟩ := List.length_eq_one_iff.mp single
    exact bare (by simpa using rooted)
  have missing : ∃ r : Int, ¬0 ≤ r ∧ resolvePath s path = some r := by
    refine ⟨_, ?_, inv.resolvePath_walk rooted⟩
    rw [inv.nodeAt_walk rooted] at absent
    exact Int.not_le.mpr (nodeOrError_neg.mpr absent)
  obtain ⟨r, negative, missing⟩ := missing
  have nonneg : ¬(p : Int) < 0 := Int.not_lt.mpr (Int.natCast_nonneg p)
  obtain ⟨id, free⟩ := Option.isSome_iff_exists.mp slot
  rcases createChild_cases s p leaf type mode isDir with ⟨full, -⟩ | ⟨id, -, created⟩
  · rw [full] at free
    cases free
  refine ⟨id, insertChild s id p leaf type mode, ?_⟩
  have resolved : resolvePath s parent = some (p : Int) := nodeAt_eq_some.mp found
  rw [tmpfsCreatePath, if_neg (not_or.mpr ⟨not_not.mpr rooted, filled⟩), missing]
  simp only [Option.bind_eq_bind, Option.bind_some, if_neg negative, Option.mem_def.mp split, resolved, if_neg nonneg,
    Tmpfs.node_natCast, isDir, ne_eq, not_true_eq_false, if_false, created, Option.pure_def]

/-- A creatable path leads to the new node afterwards. -/
theorem ChildInv.create_creatable {s : Tmpfs} {path : List UInt8} (inv : ChildInv s) (creatable : Creatable s path)
    (absent : nodeAt s path = none) {type : NodeType} (kind : type ≠ .none) (mode : UInt32) :
    ∃ (id : Nat) (t : Tmpfs), tmpfsCreatePath s path type mode = some ((id : Int), t) ∧ ChildInv t ∧ Extends s t ∧
      ¬InUse s id ∧ nodeAt t path = some id ∧ (t.nodes id).type = type := by
  obtain ⟨id, t, returns⟩ := tmpfsCreatePath_creatable inv creatable absent type mode
  obtain ⟨rooted, bare, -, -⟩ := creatable
  obtain ⟨after, effect⟩ := inv.create kind returns
  rcases effect with ⟨-, negative | found⟩ | ⟨above, component, trailing, p, i, new, isDir, free, same, rfl⟩
  · exact absurd negative (Int.not_lt.mpr (Int.natCast_nonneg id))
  · rw [nodeAt_eq_some.mpr found] at absent
    cases absent
  · cases Int.ofNat_inj.mp same
    have noType := (freeSlot_spec free).1
    have found := resolvePath_insertChild inv new free isDir kind mode rooted
    rw [if_pos (not_not.mp fun some => bare (new.ends.mpr some))] at found
    refine ⟨id, _, returns, after, inv.insertChild_extends new free isDir kind mode, not_not.mpr noType, ?_, ?_⟩
    · exact nodeAt_eq_some.mpr found
    · rw [insertChild_type (dir_ne_free isDir noType), if_pos rfl]

end Mgcore
