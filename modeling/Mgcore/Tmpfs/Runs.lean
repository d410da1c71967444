import Mgcore.Tmpfs.Tree

/-!
# Runs of the node table

Path resolution ends in every good state, at a node in use or with an error, so every operation whose path
fits the stack buffers returns; and each one keeps the tree invariant.
-/

namespace Mgcore
open Function

inductive TmpfsOp
  | create (path : List UInt8) (type : NodeType) (mode : UInt32)
  | remove (path : List UInt8) (wantDir : Bool)
  | write (nodeId : Int) (buffer : List UInt8) (offset : Nat)
  | read (nodeId : Int) (count offset : Nat)

def tmpfsStep (s : Tmpfs) : TmpfsOp → Option Tmpfs
  | .create path type mode => (tmpfsCreatePath s path type mode).map Prod.snd
  | .remove path wantDir => (tmpfsRemovePath s path wantDir).map Prod.snd
  | .write nodeId buffer offset => some (tmpfsWriteNode s nodeId buffer offset).2
  | .read _ _ _ => some s

/-- The end of the largest write that the 32-bit masks round correctly. -/
def writeLimit : Nat := 2 ^ 32 - 256

/-- The text after the last component separator fits the leaf buffer, the type is one that a node can
have, and a write ends within `writeLimit`. -/
def TmpfsOp.Admissible : TmpfsOp → Prop
  | .create path type _ => type ≠ .none ∧ (splitText path).2.length < nameMax
  | .remove _ _ => True
  | .write _ buffer offset => offset + buffer.length ≤ writeLimit
  | .read _ _ _ => True

instance : DecidablePred TmpfsOp.Admissible
  | .create _ _ _ => inferInstanceAs (Decidable (_ ∧ _))
  | .remove _ _ => inferInstanceAs (Decidable True)
  | .write _ _ _ => inferInstanceAs (Decidable (_ ≤ _))
  | .read _ _ _ => inferInstanceAs (Decidable True)

/-- The path fits the buffers of `fs.c`, through which every path reaches the table. -/
def TmpfsOp.PathFits : TmpfsOp → Prop
  | .create path _ _ => path.length < pathMax
  | .remove _ _ => True
  | .write _ _ _ => True
  | .read _ _ _ => True

instance : DecidablePred TmpfsOp.PathFits
  | .create _ _ _ => inferInstanceAs (Decidable (_ < _))
  | .remove _ _ => inferInstanceAs (Decidable True)
  | .write _ _ _ => inferInstanceAs (Decidable True)
  | .read _ _ _ => inferInstanceAs (Decidable True)

/-! ## Resolution ends -/

theorem resolveRest_length {cursor : List UInt8} (more : cursor ≠ []) :
    ((cursor.drop ((cursor.takeWhile (· ≠ slash)).take (nameMax - 1)).length).dropWhile (· = slash)).length <
      cursor.length := by
  obtain ⟨c, rest, rfl⟩ := List.exists_cons_of_ne_nil more
  by_cases sep : c = slash
  · subst sep
    have shorter := (List.dropWhile_sublist (fun b : UInt8 => decide (b = slash)) (l := rest)).length_le
    simp only [ne_eq, decide_not, decide_true, Bool.not_true, Bool.false_eq_true, not_false_eq_true,
      List.takeWhile_cons_of_neg, List.take_nil, List.length_nil, List.drop_zero, List.dropWhile_cons_of_pos,
      List.length_cons]
    omega
  · simp only [ne_eq, sep, not_false_eq_true, decide_true, List.takeWhile_cons_of_pos, nameMax, Nat.reduceSub,
      List.take_succ_cons, List.length_cons, List.drop_succ_cons]
    refine Nat.lt_succ_of_le ?_
    exact ((List.dropWhile_sublist _).trans (List.drop_sublist _ _)).length_le

namespace TreeInv
variable {s : Tmpfs}

def Resolved (s : Tmpfs) (r : Int) : Prop := r < 0 ∨ ∃ i : Nat, r = i ∧ InUse s i

theorem lookupChild_resolved (inv : TreeInv s) {p : Nat} (used : InUse s p) (name : List UInt8) :
    ∃ r, lookupChild s p name = some r ∧ Resolved s r := by
  obtain ⟨l, -, members, eq⟩ := inv.lookupChild_eq used name
  refine ⟨_, eq, ?_⟩
  cases found : l.find? fun i => (s.nodes i).name = name with
  | none => exact Or.inl (by decide)
  | some child => exact Or.inr ⟨child, rfl, ((members child).mp (List.mem_of_find?_eq_some found)).1⟩

theorem resolveLoop_resolved (inv : TreeInv s) {fuel : Nat} {cursor : List UInt8} {current : Nat}
    (enough : cursor.length < fuel) (used : InUse s current) :
    ∃ r, resolveLoop s fuel cursor current = some r ∧ Resolved s r := by
  induction fuel generalizing cursor current with
  | zero => omega
  | succ fuel ih =>
      unfold resolveLoop
      by_cases done : cursor = []
      · exact ⟨current, by rw [if_pos done], Or.inr ⟨current, rfl, used⟩⟩
      · have shorter := resolveRest_length done
        rw [if_neg done]
        dsimp only
        generalize (cursor.takeWhile (· ≠ slash)).take (nameMax - 1) = token at shorter ⊢
        split_ifs with stay up nonneg
        · exact ih (by omega) used
        · obtain ⟨p, parent⟩ := Int.eq_ofNat_of_zero_le nonneg
          have isDir := inv.parent_dir used parent
          rw [parent]
          exact ih (by omega) (by simp [InUse, isDir])
        · exact ih (by omega) inv.root_used
        · obtain ⟨child, eq, resolved⟩ := inv.lookupChild_resolved used token
          rw [eq, Option.bind_some]
          split_ifs with missing
          · exact ⟨child, rfl, resolved⟩
          · obtain ⟨i, rfl, usedI⟩ := resolved.resolve_left missing
            exact ih (by omega) usedI

theorem resolvePath_resolved (inv : TreeInv s) (path : List UInt8) :
    ∃ r, resolvePath s path = some r ∧ Resolved s r := by
  unfold resolvePath
  split_ifs
  · exact ⟨_, rfl, Or.inl (by decide)⟩
  · exact ⟨0, rfl, Or.inr ⟨0, rfl, inv.root_used⟩⟩
  · have enough : (path.dropWhile (· = slash)).length < path.length + 1 :=
      Nat.lt_succ_of_le (List.dropWhile_sublist _).length_le
    exact inv.resolveLoop_resolved enough inv.root_used

theorem resolvePath_used (inv : TreeInv s) {path : List UInt8} {i : Nat}
    (resolves : resolvePath s path = some (i : Int)) : InUse s i := by
  obtain ⟨r, eq, resolved⟩ := inv.resolvePath_resolved path
  rw [resolves, Option.some.injEq] at eq
  subst eq
  obtain negative | ⟨j, same, used⟩ := resolved
  · omega
  · rwa [Int.ofNat.inj same]

/-! ## Steps -/

theorem create (inv : TreeInv s) {t : Tmpfs} {path : List UInt8} {type : NodeType} {mode : UInt32} {r : Int}
    (kind : type ≠ .none) (returns : tmpfsCreatePath s path type mode = some (r, t)) : TreeInv t := by
  rcases tmpfsCreatePath_cases returns with ⟨rfl, -⟩ | ⟨e, parent, leaf, p, id, -, -, -, -, isDir, free, -, rfl⟩
  · exact inv
  · obtain ⟨type, bound⟩ := freeSlot_spec free
    exact inv.insertChild type bound isDir leaf kind mode

theorem remove_cases (inv : TreeInv s) {t : Tmpfs} {path : List UInt8} {wantDir : Bool} {r : Int}
    (returns : tmpfsRemovePath s path wantDir = some (r, t)) :
    (t = s ∧ r < 0) ∨
    ∃ (id p : Nat) (u : Tmpfs), resolvePath s path = some (id : Int) ∧ id ≠ 0 ∧ InUse s id ∧
      (s.nodes id).parentId = p ∧ (∀ i, InUse s i → (s.nodes i).parentId ≠ id) ∧ unlinkChild s p id = some u ∧
      Unlinked s u p id ∧ r = 0 ∧ t = u.setNode id {} := by
  rcases tmpfsRemovePath_cases returns with same | ⟨id, u, resolved, notRoot, -, empty, unlinked, zero, eq⟩
  · exact Or.inl same
  · have used := inv.resolvePath_used resolved
    obtain ⟨p, parent, -⟩ := inv.has_parent id used notRoot
    obtain ⟨u', unlinked', spec⟩ := inv.unlinkChild_spec used parent
    rw [parent, unlinked', Option.some.injEq] at unlinked
    subst unlinked
    exact Or.inr ⟨id, p, u', resolved, notRoot, used, parent, fun i => inv.not_below_empty used empty, unlinked',
      spec, zero, eq⟩

theorem removal (inv : TreeInv s) {t : Tmpfs} {path : List UInt8} {wantDir : Bool} {r : Int}
    (returns : tmpfsRemovePath s path wantDir = some (r, t)) : TreeInv t := by
  rcases inv.remove_cases returns with ⟨rfl, -⟩ | ⟨id, p, u, -, notRoot, used, parent, childless, -, spec, -, rfl⟩
  · exact inv
  · exact inv.remove used notRoot parent childless spec

theorem write (inv : TreeInv s) (nodeId : Int) (buffer : List UInt8) (offset : Nat) :
    TreeInv (tmpfsWriteNode s nodeId buffer offset).2 := by
  refine inv.congr fun j => ?_
  obtain ⟨type, id, parent, first, next, -⟩ := VfsNode.of_header (tmpfsWriteNode_header s nodeId buffer offset j)
  exact ⟨type, id, parent, first, next⟩

theorem init (before : Tmpfs) : TreeInv (tmpfsInit before) := by
  have free : ∀ i, i ≠ 0 → (tmpfsInit before).nodes i = {} := fun i other => by simp [tmpfsInit, other]
  have root : (tmpfsInit before).nodes 0 = rootNode := by simp [tmpfsInit]
  have onlyRoot : ∀ i, InUse (tmpfsInit before) i → i = 0 := by
    intro i used
    by_contra other
    simp [InUse, free i other] at used
  constructor
  · rw [root]; rfl
  · rw [root]; rfl
  · intro i used
    rw [onlyRoot i used]
    decide
  · intro i used
    rw [onlyRoot i used, root]
    rfl
  · intro i used other
    exact absurd (onlyRoot i used) other
  · intro p used
    refine ⟨[], .nil (by rw [onlyRoot p used, root]; rfl), fun i => ?_⟩
    simp only [List.not_mem_nil, false_iff, not_and]
    intro usedI
    rw [onlyRoot i usedI, root]
    simp only [rootNode]
    omega
  · intro i used notDir
    rw [onlyRoot i used, root] at notDir
    exact absurd rfl notDir
  · intro i used
    refine ⟨[], .cons (a := 0) (by rw [onlyRoot i used]; rfl) (.nil ?_)⟩
    rw [root]
    rfl

theorem step (inv : TreeInv s) {t : Tmpfs} {op : TmpfsOp} (admissible : op.Admissible)
    (steps : tmpfsStep s op = some t) : TreeInv t := by
  cases op with
  | create path type mode =>
      obtain ⟨⟨r, u⟩, returns, rfl⟩ := Option.map_eq_some_iff.mp steps
      exact inv.create admissible.1 returns
  | remove path wantDir =>
      obtain ⟨⟨r, u⟩, returns, rfl⟩ := Option.map_eq_some_iff.mp steps
      exact inv.removal returns
  | write nodeId buffer offset =>
      cases steps
      exact inv.write nodeId buffer offset
  | read nodeId count offset =>
      cases steps
      exact inv

/-! ## Every operation returns -/

theorem create_returns (inv : TreeInv s) {path : List UInt8} (pathFits : path.length < pathMax)
    (leafFits : (splitText path).2.length < nameMax) (type : NodeType) (mode : UInt32) :
    ∃ result, tmpfsCreatePath s path type mode = some result := by
  have parentFits : (splitText path).1.length < pathMax := by
    unfold splitText
    by_cases bare : lastComponent path = 0
    · rw [if_pos bare]
      exact (by decide : 1 < pathMax)
    · rw [if_neg bare]
      exact Nat.lt_of_le_of_lt (List.take_sublist _ _).length_le pathFits
  have split : splitParent path = some (splitText path) := by
    simp [splitParent, copyInto, parentFits, leafFits]
  obtain ⟨existing, resolved, -⟩ := inv.resolvePath_resolved path
  obtain ⟨p, resolvedParent, -⟩ := inv.resolvePath_resolved (splitText path).1
  unfold tmpfsCreatePath
  simp only [resolved, split, resolvedParent, Option.bind_eq_bind, Option.bind_some, Option.pure_def]
  split_ifs <;> exact ⟨_, rfl⟩

theorem remove_returns (inv : TreeInv s) (path : List UInt8) (wantDir : Bool) :
    ∃ result, tmpfsRemovePath s path wantDir = some result := by
  obtain ⟨r, resolved, kind⟩ := inv.resolvePath_resolved path
  unfold tmpfsRemovePath
  simp only [resolved, Option.bind_eq_bind, Option.bind_some, Option.pure_def]
  split_ifs with invalid
  any_goals exact ⟨_, rfl⟩
  obtain ⟨id, rfl, used⟩ := kind.resolve_left (by omega)
  obtain ⟨p, parent, -⟩ := inv.has_parent id used (by omega)
  obtain ⟨u, unlinked, -⟩ := inv.unlinkChild_spec used parent
  rw [Tmpfs.node_natCast, parent, unlinked]
  exact ⟨_, rfl⟩

theorem step_returns (inv : TreeInv s) {op : TmpfsOp} (admissible : op.Admissible) (fits : op.PathFits) :
    ∃ t, tmpfsStep s op = some t ∧ TreeInv t := by
  obtain ⟨t, steps⟩ : ∃ t, tmpfsStep s op = some t := by
    cases op with
    | create path type mode =>
        obtain ⟨result, returns⟩ := inv.create_returns fits admissible.2 type mode
        exact ⟨result.2, by rw [tmpfsStep, returns]; rfl⟩
    | remove path wantDir =>
        obtain ⟨result, returns⟩ := inv.remove_returns path wantDir
        exact ⟨result.2, by rw [tmpfsStep, returns]; rfl⟩
    | write nodeId buffer offset => exact ⟨_, rfl⟩
    | read nodeId count offset => exact ⟨_, rfl⟩
  exact ⟨t, steps, inv.step admissible steps⟩

theorem run {before t : Tmpfs} {ops : List TmpfsOp} (admissible : ∀ op ∈ ops, op.Admissible)
    (reaches : Lib.run tmpfsStep (tmpfsInit before) ops = some t) : TreeInv t :=
  Lib.run_invariant (fun _ _ _ inv ok steps => inv.step ok steps) admissible (TreeInv.init before) reaches

end TreeInv

theorem tmpfs_tree_invariant (before : Tmpfs) (ops : List TmpfsOp) (admissible : ∀ op ∈ ops, op.Admissible) :
    (∀ t, Lib.run tmpfsStep (tmpfsInit before) ops = some t →
      -- (a) the root
      ((t.nodes 0).type = .dir ∧ (t.nodes 0).parentId = -1) ∧
      -- (b) every other node is known to its parent, once
      (∀ i, InUse t i → i ≠ 0 → (t.nodes i).id = i ∧ ∃ p : Nat, (t.nodes i).parentId = p ∧
        (t.nodes p).type = .dir ∧ ∃ l, Siblings t (t.nodes p).firstChildId l ∧ l.count i = 1) ∧
      -- (c) the sibling lists
      (∀ p, InUse t p → ∃ l, Siblings t (t.nodes p).firstChildId l ∧ l.Nodup ∧
        ∀ i ∈ l, InUse t i ∧ (t.nodes i).parentId = p) ∧
      -- (d) the way up
      (∀ i, InUse t i → ∃ l, Ancestors t i (l ++ [0]) ∧ (l ++ [0]).Nodup) ∧
      -- (e) only directories have children
      (∀ i, InUse t i → (t.nodes i).type ≠ .dir → (t.nodes i).firstChildId = -1) ∧
      (∀ p name, InUse t p → (lookupChild t p name).isSome) ∧
      (∀ i, InUse t i → i ≠ 0 → (unlinkChild t (t.nodes i).parentId i).isSome)) ∧
    ((∀ op ∈ ops, op.PathFits) → ∃ t, Lib.run tmpfsStep (tmpfsInit before) ops = some t) := by
  constructor
  · intro t reaches
    have inv := TreeInv.run admissible reaches
    refine ⟨⟨inv.root_type, inv.root_parent⟩, ?_, ?_, ?_, inv.childless, ?_, ?_⟩
    · intro i used notRoot
      obtain ⟨p, parent, isDir⟩ := inv.has_parent i used notRoot
      obtain ⟨l, chain, members⟩ := inv.siblings p (by simp [InUse, isDir])
      have once : l.count i = 1 := List.count_eq_one_of_mem chain.nodup ((members i).mpr ⟨used, parent⟩)
      exact ⟨inv.node_id i used, p, parent, isDir, l, chain, once⟩
    · intro p used
      obtain ⟨l, chain, members⟩ := inv.siblings p used
      exact ⟨l, chain, chain.nodup, fun i member => (members i).mp member⟩
    · intro i used
      obtain ⟨l, chain⟩ := inv.rooted i used
      exact ⟨l, chain, chain.nodup⟩
    · intro p name used
      obtain ⟨r, found, -⟩ := inv.lookupChild_resolved used name
      rw [found]
      rfl
    · intro i used notRoot
      obtain ⟨p, parent, -⟩ := inv.has_parent i used notRoot
      obtain ⟨u, unlinked, -⟩ := inv.unlinkChild_spec used parent
      rw [parent, unlinked]
      rfl
  · intro fits
    have progress : ∀ s op, TreeInv s → op.Admissible ∧ op.PathFits → ∃ t, tmpfsStep s op = some t ∧ TreeInv t :=
      fun s op inv ok => inv.step_returns ok.1 ok.2
    obtain ⟨t, reaches, -⟩ := Lib.run_isSome progress (fun op member => ⟨admissible op member, fits op member⟩)
      (TreeInv.init before)
    exact ⟨t, reaches⟩

def sampleRun : List TmpfsOp :=
  [.create (ascii "/a") .dir 0o755, .create (ascii "/a/b") .file 0o644, .write 2 (ascii "hello") 0,
    .remove (ascii "/a/b") false, .create (ascii "/a/c/") .chardev 0]

theorem tmpfs_tree_invariant_sample :
    (∀ op ∈ sampleRun, op.Admissible ∧ op.PathFits) ∧
    ∃ t, Lib.run tmpfsStep (tmpfsInit {}) sampleRun = some t ∧ (t.nodes 0).type = .dir := by
  have fits : ∀ op ∈ sampleRun, op.Admissible ∧ op.PathFits := by decide
  obtain ⟨good, returns⟩ := tmpfs_tree_invariant {} sampleRun fun op member => (fits op member).1
  obtain ⟨t, reaches⟩ := returns fun op member => (fits op member).2
  exact ⟨fits, t, reaches, (good t reaches).1.1⟩

end Mgcore
