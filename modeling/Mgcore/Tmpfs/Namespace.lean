import Mgcore.Tmpfs.Names

/-!
# Creation and removal in the namespace

Creation adds one pair to the map `PathTo` and removal takes one out; what a node holds apart from its links
to children and siblings (`VfsNode.entry`) changes nowhere else.
-/

namespace Mgcore
open Function

def VfsNode.entry (n : VfsNode) : VfsNode := { n with firstChildId := -1, nextSiblingId := -1 }

theorem VfsNode.of_entry {n m : VfsNode} (same : n.entry = m.entry) :
    n.type = m.type ∧ n.parentId = m.parentId ∧ n.name = m.name := by
  have type : n.entry.type = m.entry.type := by rw [same]
  have parent : n.entry.parentId = m.entry.parentId := by rw [same]
  have name : n.entry.name = m.entry.name := by rw [same]
  exact ⟨type, parent, name⟩

theorem insertChild_entry {s : Tmpfs} {id p i : Nat} (other : p ≠ id) (kept : i ≠ id) (name : List UInt8)
    (type : NodeType) (mode : UInt32) :
    ((insertChild s id p name type mode).nodes i).entry = (s.nodes i).entry := by
  rw [insertChild_nodes other, if_neg kept]
  split_ifs with isParent
  · rw [isParent]
    rfl
  · rfl

theorem Unlinked.removed_entry {s u : Tmpfs} {p id i : Nat} (unlinked : Unlinked s u p id) (kept : i ≠ id) :
    ((u.setNode id {}).nodes i).entry = (s.nodes i).entry := by
  rw [Tmpfs.setNode_nodes, update_of_ne kept, unlinked.nodes i]
  rfl

namespace NameInv
variable {s t : Tmpfs}

/-! ## Creation -/

section
variable {id p : Nat} {above : List (List UInt8)} {leaf : List UInt8}

theorem pathTo_insertChild (inv : NameInv s) (free : (s.nodes id).type = .none) (isDir : (s.nodes p).type = .dir)
    (parentPath : PathTo s above p) (short : leaf.length < nameMax) {type : NodeType} (kind : type ≠ .none)
    (mode : UInt32) (q : List (List UInt8)) (j : Nat) :
    PathTo (insertChild s id p leaf type mode) q j ↔ PathTo s q j ∨ q = above ++ [leaf] ∧ j = id := by
  have other : p ≠ id := dir_ne_free isDir free
  have whole : leaf.take (nameMax - 1) = leaf := List.take_of_length_le (Nat.le_pred_of_lt short)
  induction q using List.reverseRecOn generalizing j with
  | nil => simp [PathTo.nil_iff]
  | append_singleton q n ih =>
      simp only [PathTo.snoc_iff, ih, InUse, insertChild_type other, insertChild_parentId other,
        insertChild_name other, whole]
      constructor
      · rintro ⟨m, path | ⟨rfl, rfl⟩, used, parent, name⟩
        · split_ifs at used parent name with new
          · cases Int.ofNat.inj parent
            rw [inv.names_unique path parentPath, name]
            exact Or.inr ⟨rfl, new⟩
          · exact Or.inl ⟨m, path, used, parent, name⟩
        · split_ifs at used parent name with new
          · exact absurd (Int.ofNat.inj parent) other
          · exact absurd parent (inv.tree.not_below_free free used)
      · rintro (⟨m, path, used, parent, name⟩ | ⟨eq, rfl⟩)
        · have old : j ≠ id := by
            rintro rfl
            exact used free
          simp only [if_neg old]
          exact ⟨m, Or.inl path, used, parent, name⟩
        · obtain ⟨rfl, last⟩ := List.append_inj' eq rfl
          simp only [if_true]
          exact ⟨p, Or.inl parentPath, kind, rfl, (List.singleton_inj.mp last).symm⟩

theorem insertChild (inv : NameInv s) (free : (s.nodes id).type = .none) (bound : id < maxNodes)
    (isDir : (s.nodes p).type = .dir) (short : leaf.length < nameMax)
    (fresh : ∀ c, InUse s c → (s.nodes c).parentId = p → (s.nodes c).name ≠ leaf) {type : NodeType}
    (kind : type ≠ .none) (mode : UInt32) : NameInv (insertChild s id p leaf type mode) := by
  have other : p ≠ id := dir_ne_free isDir free
  have whole : leaf.take (nameMax - 1) = leaf := List.take_of_length_le (Nat.le_pred_of_lt short)
  refine ⟨inv.tree.insertChild free bound isDir leaf kind mode, fun i j usedI usedJ parents names => ?_⟩
  simp only [InUse, insertChild_type other, insertChild_parentId other, insertChild_name other, whole]
    at usedI usedJ parents names
  split_ifs at usedI usedJ parents names with newI newJ newJ
  · rw [newI, newJ]
  · exact absurd names.symm (fresh j usedJ parents.symm)
  · exact absurd names (fresh i usedI parents)
  · exact inv.unique i j usedI usedJ parents names

end

theorem create_present (inv : NameInv s) (p : CanonicalPath) {j : Nat} (path : PathTo s p.names j) (type : NodeType)
    (mode : UInt32) : tmpfsCreatePath s p.text type mode = some ((j : Int), s) := by
  have found : resolvePath s p.text = some (j : Int) := (inv.lookup_eq p).1 j path
  have nonneg : (0 : Int) ≤ j := Int.natCast_nonneg j
  rw [tmpfsCreatePath, if_neg p.wellFormed, found]
  simp [nonneg]

structure Created (s t : Tmpfs) (p : CanonicalPath) (id : Nat) (type : NodeType) (mode : UInt32) : Prop where
  inv : NameInv t
  fresh : ¬InUse s id
  type_eq : (t.nodes id).type = type
  mode_eq : (t.nodes id).mode = mode
  size_eq : (t.nodes id).size = 0
  others : ∀ i, i ≠ id → (t.nodes i).entry = (s.nodes i).entry
  paths : ∀ q j, PathTo t q j ↔ PathTo s q j ∨ q = p.names ∧ j = id

theorem create_absent (inv : NameInv s) (p : CanonicalPath) (absent : ∀ j, ¬PathTo s p.names j) {type : NodeType}
    (kind : type ≠ .none) {mode : UInt32} {r : Int} (returns : tmpfsCreatePath s p.text type mode = some (r, t)) :
    (r < 0 ∧ t = s) ∨ ∃ id : Nat, r = id ∧ Created s t p id type mode := by
  have missing : resolvePath s p.text = some (-eNOENT) := (inv.lookup_eq p).2 absent
  rcases tmpfsCreatePath_cases returns with ⟨same, negative | found⟩ |
    ⟨_, parent, leaf, q, id, -, -, split, resolved, isDir, free, rfl, rfl⟩
  · exact Or.inl ⟨negative, same⟩
  · rw [missing, Option.some.injEq] at found
    exact Or.inl ⟨by rw [← found]; decide, same⟩
  · obtain ⟨names, last, eq⟩ : ∃ names last, p.names = names ++ [last] :=
      ⟨_, _, (List.dropLast_append_getLast p.nonempty).symm⟩
    have validLast : ValidName last := p.valid last (by simp [eq])
    have validNames : ∀ n ∈ names, ValidName n := fun n member => p.valid n (by simp [eq, member])
    -- `split_parent` cuts the path where the list of names is cut.
    obtain ⟨rfl, rfl⟩ : parent = render names ++ [slash] ∧ leaf = last := by
      have cut := splitParent_eq_some split
      rw [CanonicalPath.text, eq, splitText_render validLast] at cut
      cases cut
      exact ⟨rfl, rfl⟩
    have parentPath : PathTo s names q := by
      rcases inv.resolvePath_spec validNames 1 (Or.inr Nat.one_pos) with ⟨j, found, path⟩ | ⟨failed, -⟩
      · rw [List.replicate_one, resolved, Option.some.injEq] at found
        exact Int.ofNat.inj found ▸ path
      · rw [List.replicate_one, resolved, Option.some.injEq, eNOENT] at failed
        omega
    have fresh : ∀ c, InUse s c → (s.nodes c).parentId = q → (s.nodes c).name ≠ leaf := by
      intro c used parent name
      refine absent c ?_
      rw [eq]
      exact PathTo.snoc_iff.mpr ⟨q, parentPath, used, parent, name⟩
    obtain ⟨noType, bound⟩ := freeSlot_spec free
    have other : q ≠ id := dir_ne_free isDir noType
    have entry := insertChild_nodes (s := s) other leaf type mode id
    rw [if_pos rfl] at entry
    refine Or.inr ⟨id, rfl, ?_⟩
    constructor
    · exact inv.insertChild noType bound isDir validLast.2.1 fresh kind mode
    · exact not_not.mpr noType
    · rw [entry]
    · rw [entry]
    · rw [entry]
    · exact fun i kept => insertChild_entry other kept leaf type mode
    · intro path j
      rw [eq]
      exact inv.pathTo_insertChild noType isDir parentPath validLast.2.1 kind mode path j

theorem create (inv : NameInv s) (p : CanonicalPath) {type : NodeType} (kind : type ≠ .none) {mode : UInt32} {r : Int}
    (returns : tmpfsCreatePath s p.text type mode = some (r, t)) : NameInv t := by
  by_cases present : ∃ j, PathTo s p.names j
  · obtain ⟨j, path⟩ := present
    rw [inv.create_present p path, Option.some.injEq] at returns
    cases returns
    exact inv
  · rcases inv.create_absent p (fun j path => present ⟨j, path⟩) kind returns with ⟨-, rfl⟩ | ⟨id, -, created⟩
    · exact inv
    · exact created.inv

theorem create_returns (inv : NameInv s) (p : CanonicalPath) (type : NodeType) (mode : UInt32) :
    ∃ r t, tmpfsCreatePath s p.text type mode = some (r, t) := by
  have leafFits : (splitText p.text).2.length < nameMax := by
    obtain ⟨names, last, eq⟩ : ∃ names last, p.names = names ++ [last] :=
      ⟨_, _, (List.dropLast_append_getLast p.nonempty).symm⟩
    have validLast : ValidName last := p.valid last (by simp [eq])
    rw [CanonicalPath.text, eq, splitText_render validLast]
    exact validLast.2.1
  obtain ⟨⟨r, t⟩, returns⟩ := inv.tree.create_returns p.fits leafFits type mode
  exact ⟨r, t, returns⟩

/-! ## Removal -/

structure Removed (s t : Tmpfs) (p : CanonicalPath) (id : Nat) : Prop where
  inv : NameInv t
  present : PathTo s p.names id
  gone : t.nodes id = {}
  others : ∀ i, i ≠ id → (t.nodes i).entry = (s.nodes i).entry
  paths : ∀ q j, PathTo t q j ↔ PathTo s q j ∧ q ≠ p.names

theorem path_of_resolved (inv : NameInv s) (p : CanonicalPath) {id : Nat}
    (resolved : resolvePath s p.text = some (id : Int)) : PathTo s p.names id := by
  by_contra none
  have absent : ∀ j, ¬PathTo s p.names j := by
    intro j path
    rw [show resolvePath s p.text = some (j : Int) from (inv.lookup_eq p).1 j path, Option.some.injEq] at resolved
    exact none (Int.ofNat.inj resolved ▸ path)
  rw [show resolvePath s p.text = some (-eNOENT) from (inv.lookup_eq p).2 absent, Option.some.injEq, eNOENT] at resolved
  omega

section
variable {u : Tmpfs} {m id : Nat} (unlinked : Unlinked s u m id)
include unlinked

theorem removed_fields {i : Nat} (used : InUse (u.setNode id {}) i) :
    i ≠ id ∧ InUse s i ∧ ((u.setNode id {}).nodes i).parentId = (s.nodes i).parentId ∧
      ((u.setNode id {}).nodes i).name = (s.nodes i).name := by
  obtain ⟨kept, old⟩ := (unlinked.inUse_cleared i).mp used
  obtain ⟨-, parent, name⟩ := VfsNode.of_entry (unlinked.removed_entry kept)
  exact ⟨kept, old, parent, name⟩

theorem removed_paths (notRoot : id ≠ 0) (childless : ∀ i, InUse s i → (s.nodes i).parentId ≠ id)
    (q : List (List UInt8)) (j : Nat) : PathTo (u.setNode id {}) q j ↔ PathTo s q j ∧ j ≠ id := by
  induction q using List.reverseRecOn generalizing j with
  | nil =>
      simp only [PathTo.nil_iff]
      exact ⟨fun root => ⟨root, fun isId => notRoot (isId.symm.trans root)⟩, fun both => both.1⟩
  | append_singleton q n ih =>
      simp only [PathTo.snoc_iff, ih]
      constructor
      · rintro ⟨a, ⟨path, -⟩, usedJ, parentJ, nameJ⟩
        obtain ⟨keptJ, old, parent, name⟩ := removed_fields unlinked usedJ
        exact ⟨⟨a, path, old, parent.symm.trans parentJ, name.symm.trans nameJ⟩, keptJ⟩
      · rintro ⟨⟨a, path, old, parentJ, nameJ⟩, keptJ⟩
        have keptA : a ≠ id := by
          rintro rfl
          exact childless j old parentJ
        have usedJ := (unlinked.inUse_cleared j).mpr ⟨keptJ, old⟩
        obtain ⟨-, -, parent, name⟩ := removed_fields unlinked usedJ
        exact ⟨a, ⟨path, keptA⟩, usedJ, parent.trans parentJ, name.trans nameJ⟩

end

theorem remove_cases (inv : NameInv s) (p : CanonicalPath) {wantDir : Bool} {r : Int}
    (returns : tmpfsRemovePath s p.text wantDir = some (r, t)) :
    (r < 0 ∧ t = s) ∨ r = 0 ∧ ∃ id, Removed s t p id := by
  have tree := inv.tree.removal returns
  rcases inv.tree.remove_cases returns with ⟨same, negative⟩ |
    ⟨id, m, u, resolved, notRoot, used, parent, childless, -, unlinked, rfl, rfl⟩
  · exact Or.inl ⟨negative, same⟩
  · have present := inv.path_of_resolved p resolved
    refine Or.inr ⟨rfl, id, ⟨tree, fun i j usedI usedJ parentsEq namesEq => ?_⟩, present, by simp,
      fun i kept => unlinked.removed_entry kept, fun q j => ?_⟩
    · obtain ⟨-, oldI, parentI, nameI⟩ := removed_fields unlinked usedI
      obtain ⟨-, oldJ, parentJ, nameJ⟩ := removed_fields unlinked usedJ
      rw [parentI, parentJ] at parentsEq
      rw [nameI, nameJ] at namesEq
      exact inv.unique i j oldI oldJ parentsEq namesEq
    · rw [removed_paths unlinked notRoot childless]
      constructor
      · rintro ⟨path, keptJ⟩
        refine ⟨path, ?_⟩
        rintro rfl
        exact keptJ (inv.path_unique path present)
      · rintro ⟨path, other⟩
        refine ⟨path, ?_⟩
        rintro rfl
        exact other (inv.names_unique path present)

/-! ## Runs -/

theorem init (before : Tmpfs) : NameInv (tmpfsInit before) := by
  have onlyRoot : ∀ i, InUse (tmpfsInit before) i → i = 0 := by
    intro i used
    by_contra other
    simp [InUse, tmpfsInit, other] at used
  refine ⟨TreeInv.init before, fun i j usedI usedJ _ _ => ?_⟩
  rw [onlyRoot i usedI, onlyRoot j usedJ]

end NameInv

inductive NameOp
  | create (path : CanonicalPath) (type : NodeType) (kind : type ≠ .none) (mode : UInt32)
  | remove (path : CanonicalPath) (wantDir : Bool)

def NameOp.call : NameOp → TmpfsOp
  | .create path type _ mode => .create path.text type mode
  | .remove path wantDir => .remove path.text wantDir

theorem NameInv.step {s : Tmpfs} (inv : NameInv s) (op : NameOp) :
    ∃ t, tmpfsStep s op.call = some t ∧ NameInv t := by
  cases op with
  | create p type kind mode =>
      obtain ⟨r, t, returns⟩ := inv.create_returns p type mode
      exact ⟨t, by rw [NameOp.call, tmpfsStep, returns]; rfl, inv.create p kind returns⟩
  | remove p wantDir =>
      obtain ⟨⟨r, t⟩, returns⟩ := inv.tree.remove_returns p.text wantDir
      refine ⟨t, by rw [NameOp.call, tmpfsStep, returns]; rfl, ?_⟩
      rcases inv.remove_cases p returns with ⟨-, rfl⟩ | ⟨-, id, removed⟩
      · exact inv
      · exact removed.inv

theorem tmpfs_namespace_refinement (before : Tmpfs) (ops : List NameOp) :
    ∃ s, Lib.run tmpfsStep (tmpfsInit before) (ops.map NameOp.call) = some s ∧
      -- the paths are a map to nodes, one path for each node in use
      (∀ names i j, PathTo s names i → PathTo s names j → i = j) ∧
      (∀ i, InUse s i → ∃! names, PathTo s names i) ∧
      -- lookup
      (∀ p : CanonicalPath, (∀ j, PathTo s p.names j → tmpfsLookupPath s p.text = some (j : Int)) ∧
        ((∀ j, ¬PathTo s p.names j) → ∃ r, r < 0 ∧ tmpfsLookupPath s p.text = some r)) ∧
      -- creation
      (∀ (p : CanonicalPath) (type : NodeType) (mode : UInt32), type ≠ .none →
        ∃ r t, tmpfsCreatePath s p.text type mode = some (r, t) ∧
          (∀ j, PathTo s p.names j → r = (j : Int) ∧ t = s) ∧
          (r < 0 → t = s) ∧
          ((∀ j, ¬PathTo s p.names j) → 0 ≤ r → ∃ id : Nat, r = id ∧ ¬InUse s id ∧
            (t.nodes id).type = type ∧ (t.nodes id).mode = mode ∧ (t.nodes id).size = 0 ∧
            (∀ i, i ≠ id → (t.nodes i).entry = (s.nodes i).entry) ∧
            ∀ q j, PathTo t q j ↔ PathTo s q j ∨ q = p.names ∧ j = id) ∧
          ∀ q : CanonicalPath, q.names ≠ p.names → tmpfsLookupPath t q.text = tmpfsLookupPath s q.text) ∧
      -- removal
      (∀ (p : CanonicalPath) (wantDir : Bool),
        ∃ r t, tmpfsRemovePath s p.text wantDir = some (r, t) ∧
          (r < 0 → t = s) ∧
          (0 ≤ r → ∃ id, PathTo s p.names id ∧ (∀ i, i ≠ id → (t.nodes i).entry = (s.nodes i).entry) ∧
            ∀ q j, PathTo t q j ↔ PathTo s q j ∧ q ≠ p.names) ∧
          ∀ q : CanonicalPath, q.names ≠ p.names → tmpfsLookupPath t q.text = tmpfsLookupPath s q.text) ∧
      -- siblings have distinct names
      (∀ i j, InUse s i → InUse s j → (s.nodes i).parentId = (s.nodes j).parentId →
        (s.nodes i).name = (s.nodes j).name → i = j) := by
  obtain ⟨s, reaches, inv⟩ : ∃ s, Lib.run tmpfsStep (tmpfsInit before) (ops.map NameOp.call) = some s ∧ NameInv s := by
    have progress : ∀ s op, NameInv s → (∃ o : NameOp, o.call = op) → ∃ t, tmpfsStep s op = some t ∧ NameInv t := by
      rintro s _ inv ⟨op, rfl⟩
      exact inv.step op
    refine Lib.run_isSome progress (fun op member => ?_) (NameInv.init before)
    obtain ⟨o, -, rfl⟩ := List.mem_map.mp member
    exact ⟨o, rfl⟩
  refine ⟨s, reaches, fun names i j => inv.path_unique, fun i used => ?_, fun p => ?_, fun p type mode kind => ?_,
    fun p wantDir => ?_, inv.unique⟩
  · obtain ⟨names, path⟩ := inv.tree.exists_path used
    exact ⟨names, path, fun more other => inv.names_unique other path⟩
  · exact ⟨(inv.lookup_eq p).1, fun absent => ⟨-eNOENT, by decide, (inv.lookup_eq p).2 absent⟩⟩
  · obtain ⟨r, t, returns⟩ := inv.create_returns p type mode
    refine ⟨r, t, returns, ?_⟩
    by_cases present : ∃ j, PathTo s p.names j
    · obtain ⟨j, path⟩ := present
      rw [inv.create_present p path, Option.some.injEq] at returns
      cases returns
      refine ⟨fun i other => ⟨by rw [inv.path_unique path other], rfl⟩, fun _ => rfl, fun absent => ?_, fun _ _ => rfl⟩
      exact absurd path (absent j)
    · have absent : ∀ j, ¬PathTo s p.names j := fun j path => present ⟨j, path⟩
      rcases inv.create_absent p absent kind returns with ⟨negative, rfl⟩ | ⟨id, rfl, created⟩
      · exact ⟨fun j path => absurd path (absent j), fun _ => rfl,
          fun _ nonneg => absurd negative (Int.not_lt.mpr nonneg), fun _ _ => rfl⟩
      · refine ⟨fun j path => absurd path (absent j), fun negative => ?_, fun _ _ => ?_, fun q other => ?_⟩
        · exact absurd negative (Int.not_lt.mpr (Int.natCast_nonneg id))
        · exact ⟨id, rfl, created.fresh, created.type_eq, created.mode_eq, created.size_eq, created.others,
            created.paths⟩
        · refine inv.lookup_congr created.inv fun j => ?_
          rw [created.paths]
          exact ⟨fun either => either.resolve_right fun new => other new.1, Or.inl⟩
  · obtain ⟨⟨r, t⟩, returns⟩ := inv.tree.remove_returns p.text wantDir
    refine ⟨r, t, returns, ?_⟩
    rcases inv.remove_cases p returns with ⟨negative, rfl⟩ | ⟨rfl, id, removed⟩
    · exact ⟨fun _ => rfl, fun nonneg => absurd negative (Int.not_lt.mpr nonneg), fun _ _ => rfl⟩
    · refine ⟨fun negative => absurd negative (Int.lt_irrefl 0), fun _ => ?_, fun q other => ?_⟩
      · exact ⟨id, removed.present, removed.others, removed.paths⟩
      · refine inv.lookup_congr removed.inv fun j => ?_
        rw [removed.paths]
        exact ⟨fun both => both.1, fun path => ⟨path, other⟩⟩

end Mgcore
