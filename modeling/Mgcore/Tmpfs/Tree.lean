import Mgcore.Lib.Run
import Mgcore.Tmpfs.Steps

/-!
# The tree invariant of the node table

`TreeInv` says that the three index links of the table describe one tree rooted at node 0. Creation adds
a leaf in a free slot, removal splices a childless node out of its sibling list and clears its slot, and a
write touches no link; so the invariant survives every run, and every list walk ends.
-/

namespace Mgcore
open Function

abbrev InUse (s : Tmpfs) (i : Nat) : Prop := (s.nodes i).type ≠ .none

abbrev Siblings (s : Tmpfs) (start : Int) (l : List Nat) : Prop :=
  Lib.Chain linkOf (fun i => (s.nodes i).nextSiblingId) start l

abbrev Ancestors (s : Tmpfs) (start : Int) (l : List Nat) : Prop :=
  Lib.Chain linkOf (fun i => (s.nodes i).parentId) start l

structure TreeInv (s : Tmpfs) : Prop where
  root_type : (s.nodes 0).type = .dir
  root_parent : (s.nodes 0).parentId = -1
  bounded : ∀ i, InUse s i → i < maxNodes
  node_id : ∀ i, InUse s i → (s.nodes i).id = i
  has_parent : ∀ i, InUse s i → i ≠ 0 → ∃ p : Nat, (s.nodes i).parentId = p ∧ (s.nodes p).type = .dir
  siblings : ∀ p, InUse s p → ∃ l, Siblings s (s.nodes p).firstChildId l ∧
    ∀ i, i ∈ l ↔ InUse s i ∧ (s.nodes i).parentId = p
  childless : ∀ i, InUse s i → (s.nodes i).type ≠ .dir → (s.nodes i).firstChildId = -1
  rooted : ∀ i, InUse s i → ∃ l, Ancestors s i (l ++ [0])

@[simp] theorem linkOf_natCast (i : Nat) : linkOf (i : Int) = some i := by simp [linkOf]

@[simp] theorem linkOf_neg_one : linkOf (-1) = none := rfl

theorem linkOf_eq_some {i : Int} {a : Nat} : linkOf i = some a ↔ i = a := by
  unfold linkOf
  split_ifs with nonneg
  · rw [Option.some.injEq]
    omega
  · simp only [false_iff]
    omega

namespace TreeInv
variable {s t : Tmpfs}

theorem root_used (inv : TreeInv s) : InUse s 0 := by simp [InUse, inv.root_type]

theorem parent_dir (inv : TreeInv s) {i p : Nat} (used : InUse s i) (parent : (s.nodes i).parentId = p) :
    (s.nodes p).type = .dir := by
  have notRoot : i ≠ 0 := by
    rintro rfl
    rw [inv.root_parent] at parent
    omega
  obtain ⟨q, eq, isDir⟩ := inv.has_parent i used notRoot
  rw [eq] at parent
  cases Int.ofNat.inj parent
  exact isDir

theorem ancestors_used (inv : TreeInv s) {start : Int} {l : List Nat} (chain : Ancestors s start l)
    (used : ∀ i : Nat, start = i → InUse s i) : ∀ a ∈ l, InUse s a := by
  induction chain with
  | nil => simp
  | @cons start i l here rest ih =>
      have usedI : InUse s i := used i (linkOf_eq_some.mp here)
      intro a member
      rcases List.mem_cons.mp member with rfl | inner
      · exact usedI
      · refine ih (fun p parent => ?_) a inner
        simp [InUse, inv.parent_dir usedI parent]

theorem siblings_length (inv : TreeInv s) {p : Nat} {l : List Nat}
    (chain : Siblings s (s.nodes p).firstChildId l)
    (members : ∀ i, i ∈ l ↔ InUse s i ∧ (s.nodes i).parentId = p) : l.length < walkFuel := by
  have bound : l.length ≤ maxNodes :=
    Lib.length_le_of_nodup_lt chain.nodup fun i member => inv.bounded i ((members i).mp member).1
  exact Nat.lt_succ_of_le bound

theorem lookupChild_eq (inv : TreeInv s) {p : Nat} (used : InUse s p) (name : List UInt8) :
    ∃ l, Siblings s (s.nodes p).firstChildId l ∧ (∀ i, i ∈ l ↔ InUse s i ∧ (s.nodes i).parentId = p) ∧
      lookupChild s p name = some (match l.find? fun i => (s.nodes i).name = name with
        | some child => (child : Int)
        | none => -eNOENT) := by
  obtain ⟨l, chain, members⟩ := inv.siblings p used
  refine ⟨l, chain, members, ?_⟩
  rw [lookupChild, Tmpfs.node_natCast, chain.walk_eq _ (inv.siblings_length chain members)]
  rfl

theorem congr (inv : TreeInv s)
    (same : ∀ i, (t.nodes i).type = (s.nodes i).type ∧ (t.nodes i).id = (s.nodes i).id ∧
      (t.nodes i).parentId = (s.nodes i).parentId ∧ (t.nodes i).firstChildId = (s.nodes i).firstChildId ∧
      (t.nodes i).nextSiblingId = (s.nodes i).nextSiblingId) : TreeInv t := by
  have types : ∀ i, (t.nodes i).type = (s.nodes i).type := fun i => (same i).1
  have ids : ∀ i, (t.nodes i).id = (s.nodes i).id := fun i => (same i).2.1
  have parents : ∀ i, (t.nodes i).parentId = (s.nodes i).parentId := fun i => (same i).2.2.1
  have firsts : ∀ i, (t.nodes i).firstChildId = (s.nodes i).firstChildId := fun i => (same i).2.2.2.1
  have nexts : ∀ i, (t.nodes i).nextSiblingId = (s.nodes i).nextSiblingId := fun i => (same i).2.2.2.2
  obtain ⟨rootType, rootParent, bounded, nodeId, hasParent, siblings, childless, rooted⟩ := inv
  constructor <;> simp only [InUse, Siblings, Ancestors, types, ids, parents, firsts, nexts] <;> assumption

/-! ## Creation -/

section
variable {id p : Nat}

theorem not_below_free (inv : TreeInv s) (free : (s.nodes id).type = .none) {i : Nat} (used : InUse s i) :
    (s.nodes i).parentId ≠ id := by
  intro parent
  rw [inv.parent_dir used parent] at free
  cases free

theorem ancestors_avoid (inv : TreeInv s) (free : (s.nodes id).type = .none) {i : Nat} {l : List Nat}
    (used : InUse s i) (chain : Ancestors s i l) : ∀ a ∈ l, a ≠ id := by
  rintro a member rfl
  exact inv.ancestors_used chain (fun j eq => Int.ofNat.inj eq ▸ used) a member free

section
variable (free : (s.nodes id).type = .none) (isDir : (s.nodes p).type = .dir) (name : List UInt8) {type : NodeType}
  (kind : type ≠ .none) (mode : UInt32)
include free isDir kind

theorem insertChild_inUse (i : Nat) : InUse (insertChild s id p name type mode) i ↔ i = id ∨ InUse s i := by
  simp only [InUse, insertChild_type (dir_ne_free isDir free)]
  split_ifs with new <;> simp [new, kind]

theorem insertChild_siblings (inv : TreeInv s) {q : Nat} (used : InUse (insertChild s id p name type mode) q) :
    ∃ l, Siblings (insertChild s id p name type mode) ((insertChild s id p name type mode).nodes q).firstChildId l ∧
      ∀ i, i ∈ l ↔ InUse (insertChild s id p name type mode) i ∧
        ((insertChild s id p name type mode).nodes i).parentId = q := by
  have other : p ≠ id := dir_ne_free isDir free
  have inUse := insertChild_inUse free isDir name kind mode
  have parents := insertChild_parentId (s := s) other name type mode
  have nexts := insertChild_nextSiblingId (s := s) other name type mode
  have firsts := insertChild_firstChildId (s := s) other name type mode
  -- The new node heads its parent's list and has an empty one itself; no other list changes.
  have frame : ∀ {start l}, Siblings s start l → id ∉ l →
      Siblings (insertChild s id p name type mode) start l := by
    intro start l chain avoids
    refine chain.congr fun a member => ?_
    rw [nexts, if_neg]
    rintro rfl
    exact avoids member
  by_cases new : q = id
  · refine ⟨[], ?_, fun i => ?_⟩
    · rw [firsts, if_pos new]
      exact .nil rfl
    · simp only [List.not_mem_nil, false_iff, not_and, inUse, parents, new]
      rintro (rfl | old)
      · rw [if_pos rfl]
        exact fun eq => other (Int.ofNat.inj eq)
      · split_ifs with fresh
        · exact fun eq => other (Int.ofNat.inj eq)
        · exact inv.not_below_free free old
  · have old := ((inUse q).mp used).resolve_left new
    obtain ⟨l, chain, members⟩ := inv.siblings q old
    have avoids : id ∉ l := fun member => ((members id).mp member).1 free
    by_cases isParent : q = p
    · subst isParent
      refine ⟨id :: l, ?_, fun i => ?_⟩
      · rw [firsts, if_neg other, if_pos rfl]
        refine .cons (linkOf_natCast id) ?_
        rw [nexts, if_pos rfl]
        exact frame chain avoids
      · simp only [List.mem_cons, members, inUse, parents]
        by_cases fresh : i = id <;> simp [fresh]
    · refine ⟨l, ?_, fun i => ?_⟩
      · rw [firsts, if_neg new, if_neg isParent]
        exact frame chain avoids
      · simp only [members, inUse, parents]
        by_cases fresh : i = id
        · subst fresh
          simp only [if_true, true_or, true_and]
          exact ⟨fun h => absurd free h.1, fun eq => absurd (Int.ofNat.inj eq).symm isParent⟩
        · simp [fresh]

theorem insertChild_rooted (inv : TreeInv s) {i : Nat} (used : InUse (insertChild s id p name type mode) i) :
    ∃ l, Ancestors (insertChild s id p name type mode) i (l ++ [0]) := by
  have parents := insertChild_parentId (s := s) (dir_ne_free isDir free) name type mode
  have frame : ∀ {j : Nat} {l : List Nat}, InUse s j → Ancestors s j l →
      Ancestors (insertChild s id p name type mode) j l := by
    intro j l usedJ chain
    refine chain.congr fun a member => ?_
    rw [parents, if_neg (inv.ancestors_avoid free usedJ chain a member)]
  rcases (insertChild_inUse free isDir name kind mode i).mp used with rfl | old
  · have usedP : InUse s p := by simp [InUse, isDir]
    obtain ⟨l, chain⟩ := inv.rooted p usedP
    refine ⟨i :: l, .cons (linkOf_natCast i) ?_⟩
    rw [parents, if_pos rfl]
    exact frame usedP chain
  · obtain ⟨l, chain⟩ := inv.rooted i old
    exact ⟨l, frame old chain⟩

end

theorem insertChild (inv : TreeInv s) (free : (s.nodes id).type = .none) (bound : id < maxNodes)
    (isDir : (s.nodes p).type = .dir) (name : List UInt8) {type : NodeType} (kind : type ≠ .none)
    (mode : UInt32) : TreeInv (insertChild s id p name type mode) := by
  have other : p ≠ id := dir_ne_free isDir free
  have rootOther : 0 ≠ id := by
    rintro rfl
    exact inv.root_used free
  have types := insertChild_type (s := s) other name type mode
  have parents := insertChild_parentId (s := s) other name type mode
  have inUse := insertChild_inUse free isDir name kind mode
  constructor
  · rw [types, if_neg rootOther, inv.root_type]
  · rw [parents, if_neg rootOther, inv.root_parent]
  · intro i used
    rcases (inUse i).mp used with rfl | old
    · exact bound
    · exact inv.bounded i old
  · intro i used
    rw [insertChild_id other]
    split_ifs with new
    · rw [new]
    · exact inv.node_id i (((inUse i).mp used).resolve_left new)
  · intro i used notRoot
    rw [parents]
    split_ifs with new
    · exact ⟨p, rfl, by rw [types, if_neg other, isDir]⟩
    · obtain ⟨q, parent, dirQ⟩ := inv.has_parent i (((inUse i).mp used).resolve_left new) notRoot
      have otherQ : q ≠ id := dir_ne_free dirQ free
      exact ⟨q, parent, by rw [types, if_neg otherQ, dirQ]⟩
  · exact fun q used => insertChild_siblings free isDir name kind mode inv used
  · intro i used notDir
    rw [types] at notDir
    rw [insertChild_firstChildId other]
    split_ifs at notDir ⊢ with new isParent
    · rfl
    · rw [isParent, isDir] at notDir
      exact absurd rfl notDir
    · exact inv.childless i (((inUse i).mp used).resolve_left new) notDir
  · exact fun i used => insertChild_rooted free isDir name kind mode inv used

end

end TreeInv

/-! ## Removal -/

/-- `u` is `s` with `id` taken out of the sibling list of `p`. -/
structure Unlinked (s u : Tmpfs) (p id : Nat) : Prop where
  nodes : ∀ i, u.nodes i = { s.nodes i with
    firstChildId := (u.nodes i).firstChildId, nextSiblingId := (u.nodes i).nextSiblingId }
  first : ∀ q, q ≠ p → (u.nodes q).firstChildId = (s.nodes q).firstChildId
  next : ∀ a, ¬(InUse s a ∧ (s.nodes a).parentId = p) → (u.nodes a).nextSiblingId = (s.nodes a).nextSiblingId
  siblings : ∃ l, Siblings u (u.nodes p).firstChildId l ∧
    ∀ i, i ∈ l ↔ (InUse s i ∧ (s.nodes i).parentId = p) ∧ i ≠ id

theorem Unlinked.fields {s u : Tmpfs} {p id : Nat} (unlinked : Unlinked s u p id) (i : Nat) :
    (u.nodes i).type = (s.nodes i).type ∧ (u.nodes i).id = (s.nodes i).id ∧
      (u.nodes i).parentId = (s.nodes i).parentId := by
  rw [unlinked.nodes i]
  exact ⟨rfl, rfl, rfl⟩

theorem Unlinked.inUse_cleared {s u : Tmpfs} {p id : Nat} (unlinked : Unlinked s u p id) (i : Nat) :
    InUse (u.setNode id {}) i ↔ i ≠ id ∧ InUse s i := by
  by_cases gone : i = id
  · simp [InUse, gone]
  · simp [InUse, gone, (unlinked.fields i).1]

section
variable {s : Tmpfs} {p id b : Nat} {before rest : List Nat}

theorem unlinked_first (chain : Siblings s (s.nodes p).firstChildId (id :: rest))
    (members : ∀ i, i ∈ id :: rest ↔ InUse s i ∧ (s.nodes i).parentId = p) :
    Unlinked s (s.setNode p { s.nodes p with firstChildId := (s.nodes id).nextSiblingId }) p id := by
  have nexts : ∀ a, ((s.setNode p { s.nodes p with firstChildId := (s.nodes id).nextSiblingId }).nodes a).nextSiblingId =
      (s.nodes a).nextSiblingId := by
    intro a
    by_cases isParent : a = p
    · subst isParent; simp
    · simp [isParent]
  have distinct := List.nodup_cons.mp chain.nodup
  constructor
  · intro i
    by_cases isParent : i = p
    · subst isParent; simp
    · simp [isParent]
  · intro q otherQ
    simp [otherQ]
  · exact fun a _ => nexts a
  · refine ⟨rest, ?_, fun i => ?_⟩
    · obtain _ | ⟨here, tail⟩ := chain
      rw [Tmpfs.setNode_nodes, update_self]
      exact tail.congr fun a _ => nexts a
    · rw [← members, List.mem_cons]
      by_cases gone : i = id
      · simp [gone, distinct.1]
      · simp [gone]

theorem unlinked_later (chain : Siblings s (s.nodes p).firstChildId (before ++ b :: id :: rest))
    (members : ∀ i, i ∈ before ++ b :: id :: rest ↔ InUse s i ∧ (s.nodes i).parentId = p) :
    Unlinked s (s.setNode b { s.nodes b with nextSiblingId := (s.nodes id).nextSiblingId }) p id := by
  have firsts : ∀ q, ((s.setNode b { s.nodes b with nextSiblingId := (s.nodes id).nextSiblingId }).nodes q).firstChildId =
      (s.nodes q).firstChildId := by
    intro q
    by_cases isB : q = b
    · subst isB; simp
    · simp [isB]
  constructor
  · intro i
    by_cases isB : i = b
    · subst isB; simp
    · simp [isB]
  · exact fun q _ => firsts q
  · intro a outside
    have otherB : a ≠ b := by
      rintro rfl
      exact outside ((members a).mp (by simp))
    simp [otherB]
  · refine ⟨before ++ b :: rest, ?_, fun i => ?_⟩
    · rw [firsts]
      exact chain.splice (by simp) fun c otherC _ => by simp [otherC]
    · have distinct := chain.nodup
      simp only [List.nodup_append, List.nodup_cons, List.mem_cons, not_or] at distinct
      rw [← members]
      simp only [List.mem_append, List.mem_cons]
      by_cases gone : i = id
      · subst gone
        have notBefore : i ∉ before := fun early => distinct.2.2 i early i (by simp) rfl
        simp [notBefore, Ne.symm distinct.2.1.1.1, distinct.2.1.2.1]
      · simp [gone]

end

theorem TreeInv.unlinkChild_spec {s : Tmpfs} (inv : TreeInv s) {p id : Nat} (used : InUse s id)
    (parent : (s.nodes id).parentId = p) : ∃ u, unlinkChild s p id = some u ∧ Unlinked s u p id := by
  have usedP : InUse s p := by simp [InUse, inv.parent_dir used parent]
  obtain ⟨l, chain, members⟩ := inv.siblings p usedP
  have member : id ∈ l := (members id).mpr ⟨used, parent⟩
  by_cases first : (s.nodes p).firstChildId = id
  · obtain ⟨rest, rfl⟩ : ∃ rest, l = id :: rest := by
      obtain _ | ⟨here, _⟩ := chain
      · cases member
      · cases Int.ofNat.inj ((linkOf_eq_some.mp here).symm.trans first)
        exact ⟨_, rfl⟩
    exact ⟨_, by rw [unlinkChild, if_pos (by simpa using first)]; rfl, unlinked_first chain members⟩
  · have notFirst : linkOf (s.nodes p).firstChildId ≠ some id := fun h => first (linkOf_eq_some.mp h)
    have stops : ∀ b, decide ((s.nodes b).nextSiblingId = id) = true ↔ linkOf (s.nodes b).nextSiblingId = some id := by
      simp [linkOf_eq_some]
    obtain ⟨before, b, rest, rfl, found⟩ :=
      chain.walk_predecessor member notFirst stops (inv.siblings_length chain members)
    refine ⟨_, ?_, unlinked_later chain members⟩
    rw [unlinkChild, if_neg (by simpa using first), Tmpfs.node_natCast s p, found]
    rfl

namespace TreeInv
variable {s : Tmpfs}

theorem not_below_empty (inv : TreeInv s) {id : Nat} (used : InUse s id)
    (empty : ¬((s.nodes id).type = .dir ∧ 0 ≤ (s.nodes id).firstChildId)) {i : Nat} (usedI : InUse s i) :
    (s.nodes i).parentId ≠ id := by
  intro parent
  have isDir := inv.parent_dir usedI parent
  obtain ⟨l, chain, members⟩ := inv.siblings id used
  have negative : linkOf (s.nodes id).firstChildId = none := by
    rw [linkOf, if_neg fun h => empty ⟨isDir, h⟩]
  have member := (members i).mpr ⟨usedI, parent⟩
  rw [chain.eq_nil negative] at member
  cases member

theorem ancestors_ne (inv : TreeInv s) {id : Nat} (childless : ∀ i, InUse s i → (s.nodes i).parentId ≠ id)
    {start : Int} {l : List Nat} (chain : Ancestors s start l)
    (used : ∀ i : Nat, start = i → InUse s i) (other : start ≠ id) : ∀ a ∈ l, a ≠ id := by
  induction chain with
  | nil => simp
  | @cons start i l here rest ih =>
      have startI := linkOf_eq_some.mp here
      have usedI := used i startI
      intro a member
      rcases List.mem_cons.mp member with rfl | inner
      · rintro rfl
        exact other startI
      · refine ih (fun p parent => ?_) (childless i usedI) a inner
        simp [InUse, inv.parent_dir usedI parent]

section
variable {u : Tmpfs} {p id : Nat}

theorem remove_siblings (inv : TreeInv s) (unlinked : Unlinked s u p id) (parent : (s.nodes id).parentId = p) {q : Nat}
    (usedQ : InUse (u.setNode id {}) q) :
    ∃ l, Siblings (u.setNode id {}) ((u.setNode id {}).nodes q).firstChildId l ∧
      ∀ i, i ∈ l ↔ InUse (u.setNode id {}) i ∧ ((u.setNode id {}).nodes i).parentId = q := by
  have frame : ∀ {start l}, Siblings u start l → id ∉ l → Siblings (u.setNode id {}) start l := by
    intro start l chain avoids
    refine chain.congr fun a member => ?_
    have kept : a ≠ id := by
      rintro rfl
      exact avoids member
    rw [Tmpfs.setNode_nodes, update_of_ne kept]
  have below : ∀ {i}, (s.nodes i).parentId = q → q ≠ p → (s.nodes i).parentId ≠ p :=
    fun parentQ other parentP => other (Int.ofNat.inj (parentQ.symm.trans parentP))
  obtain ⟨keptQ, old⟩ := (unlinked.inUse_cleared q).mp usedQ
  rw [Tmpfs.setNode_nodes, update_of_ne keptQ]
  by_cases isParent : q = p
  · subst isParent
    obtain ⟨l, chain, members⟩ := unlinked.siblings
    refine ⟨l, frame chain (fun member => ((members id).mp member).2 rfl), fun i => ?_⟩
    rw [members, unlinked.inUse_cleared]
    by_cases gone : i = id
    · simp [gone]
    · simp [gone, unlinked.fields i]
  · obtain ⟨l, chain, members⟩ := inv.siblings q old
    have avoids : id ∉ l := fun member => below ((members id).mp member).2 isParent parent
    refine ⟨l, frame ?_ avoids, fun i => ?_⟩
    · rw [unlinked.first q isParent]
      exact chain.congr fun a member => unlinked.next a fun h => below ((members a).mp member).2 isParent h.2
    · rw [members, unlinked.inUse_cleared]
      by_cases gone : i = id
      · subst gone
        simp only [ne_eq, not_true_eq_false, false_and, iff_false, not_and]
        exact fun _ parentQ => below parentQ isParent parent
      · simp [gone, unlinked.fields i]

theorem remove (inv : TreeInv s) (used : InUse s id) (notRoot : id ≠ 0) (parent : (s.nodes id).parentId = p)
    (childless : ∀ i, InUse s i → (s.nodes i).parentId ≠ id) (unlinked : Unlinked s u p id) :
    TreeInv (u.setNode id {}) := by
  have fields := unlinked.fields
  have inUse := unlinked.inUse_cleared
  have nodes : ∀ i, i ≠ id → (u.setNode id {}).nodes i = u.nodes i := fun i kept => by simp [kept]
  constructor
  · rw [nodes 0 (Ne.symm notRoot), (fields 0).1, inv.root_type]
  · rw [nodes 0 (Ne.symm notRoot), (fields 0).2.2, inv.root_parent]
  · exact fun i usedI => inv.bounded i ((inUse i).mp usedI).2
  · intro i usedI
    obtain ⟨kept, old⟩ := (inUse i).mp usedI
    rw [nodes i kept, (fields i).2.1, inv.node_id i old]
  · intro i usedI nonzero
    obtain ⟨kept, old⟩ := (inUse i).mp usedI
    obtain ⟨q, parentQ, isDir⟩ := inv.has_parent i old nonzero
    have keptQ : q ≠ id := by
      rintro rfl
      exact childless i old parentQ
    exact ⟨q, by rw [nodes i kept, (fields i).2.2, parentQ], by rw [nodes q keptQ, (fields q).1, isDir]⟩
  · exact fun q usedQ => inv.remove_siblings unlinked parent usedQ
  · intro i usedI notDir
    obtain ⟨kept, old⟩ := (inUse i).mp usedI
    rw [nodes i kept] at notDir ⊢
    rw [(fields i).1] at notDir
    have otherParent : i ≠ p := by
      rintro rfl
      exact notDir (inv.parent_dir used parent)
    rw [unlinked.first i otherParent, inv.childless i old notDir]
  · intro i usedI
    obtain ⟨kept, old⟩ := (inUse i).mp usedI
    obtain ⟨l, chain⟩ := inv.rooted i old
    refine ⟨l, chain.congr fun a member => ?_⟩
    have avoids := inv.ancestors_ne childless chain (fun j eq => Int.ofNat.inj eq ▸ old)
      (fun eq => kept (Int.ofNat.inj eq)) a member
    rw [nodes a avoids, (fields a).2.2]

end

end TreeInv

end Mgcore
