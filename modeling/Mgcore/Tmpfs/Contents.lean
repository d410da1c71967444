import Mathlib.Data.List.Infix
import Mathlib.Data.List.TakeWhile
import Mgcore.Tmpfs.Storage

/-!
# The table as a store of byte strings

The storage invariant along runs, and what each operation does to `contents` in every state reached.
-/

namespace Mgcore
open Function

/-! ## Paths that fit the leaf buffer -/

def ShortComponents (n : Nat) (path : List UInt8) : Prop :=
  ∀ component, component <:+: path → slash ∉ component → component.length ≤ n

theorem drop_lastComponent (path : List UInt8) : ∃ component trailing,
    path.drop (lastComponent path) = component ++ trailing ∧
    path = path.take (lastComponent path) ++ component ++ trailing ∧
    slash ∉ component ∧ ∀ b ∈ trailing, b = slash := by
  let back := path.reverse.dropWhile (· = slash)
  let last := (back.takeWhile (· ≠ slash)).reverse
  let before := (back.dropWhile (· ≠ slash)).reverse
  let separators := (path.reverse.takeWhile (· = slash)).reverse
  have whole : path = before ++ last ++ separators := by
    apply List.reverse_injective
    simp only [before, last, separators, List.reverse_append, List.reverse_reverse, back,
      List.takeWhile_append_dropWhile]
  have length : lastComponent path = before.length := by
    simp [lastComponent, before, back]
  refine ⟨last, separators, ?_, ?_, ?_, ?_⟩
  · rw [length]
    conv_lhs => rw [whole]
    rw [List.append_assoc, List.drop_left]
  · rw [length]
    conv_rhs => rw [whole]
    rw [List.append_assoc before last separators, List.take_left]
    exact whole
  · intro member
    have := List.mem_takeWhile_imp (List.mem_reverse.mp member)
    simp at this
  · intro b member
    have := List.mem_takeWhile_imp (List.mem_reverse.mp member)
    simpa using this

theorem leaf_length_le {path : List UInt8} {n : Nat} (short : ShortComponents n path)
    (single : ¬[slash, slash] <:+: path) : (splitText path).2.length ≤ n + 1 := by
  obtain ⟨component, trailing, leaf, whole, clean, separators⟩ := drop_lastComponent path
  have bound : component.length ≤ n :=
    short component ⟨path.take (lastComponent path), trailing, whole.symm⟩ clean
  have few : trailing.length ≤ 1 := by
    by_contra many
    obtain ⟨a, b, rest, rfl⟩ : ∃ a b rest, trailing = a :: b :: rest := by
      match trailing, many with
      | a :: b :: rest, _ => exact ⟨a, b, rest, rfl⟩
      | [_], h => simp at h
      | [], h => simp at h
    rw [separators a (by simp), separators b (by simp)] at whole
    refine single ⟨path.take (lastComponent path) ++ component, rest, ?_⟩
    simpa using whole.symm
  have suffix : (path.drop (lastComponent path)).length ≤ n + 1 := by
    rw [leaf, List.length_append]
    omega
  unfold splitText
  by_cases bare : lastComponent path = 0
  · rw [bare, List.drop_zero] at suffix
    rw [if_pos bare]
    dsimp only
    split_ifs
    · rw [List.length_drop]
      omega
    · exact suffix
  · rw [if_neg bare]
    exact suffix

theorem ShortComponents.of_length {path : List UInt8} {n : Nat} (short : path.length ≤ n) :
    ShortComponents n path :=
  fun _ inside _ => inside.length_le.trans short

/-- Components of at most 30 bytes, a real node type, writes within the limit. -/
def TmpfsOp.ShortNames : TmpfsOp → Prop
  | .create path type _ => type ≠ .none ∧ ShortComponents 30 path
  | .remove path _ => ShortComponents 30 path
  | .write _ buffer offset => offset + buffer.length ≤ writeLimit
  | .read _ _ _ => True

/-- What `normalize_path` guarantees of the paths that reach the table. -/
def TmpfsOp.Normalized : TmpfsOp → Prop
  | .create path _ _ => path.length < pathMax ∧ ¬[slash, slash] <:+: path
  | _ => True

theorem TmpfsOp.ShortNames.admissible {op : TmpfsOp} (short : op.ShortNames) (normal : op.Normalized) :
    op.Admissible ∧ op.PathFits := by
  cases op with
  | create path type mode =>
      have leaf := leaf_length_le short.2 normal.2
      exact ⟨⟨short.1, Nat.lt_succ_of_le leaf⟩, normal.1⟩
  | remove path wantDir => exact ⟨trivial, trivial⟩
  | write nodeId buffer offset => exact ⟨short, trivial⟩
  | read nodeId count offset => exact ⟨trivial, trivial⟩

/-! ## The invariant along runs -/

structure TmpfsInv (s : Tmpfs) : Prop where
  tree : TreeInv s
  storage : StorageInv s

namespace TmpfsInv
variable {s t : Tmpfs}

theorem init {before : Tmpfs} (zeroed : ∀ a, a < arenaSize → before.arena a = 0) : TmpfsInv (tmpfsInit before) := by
  have empty : ∀ i, ((tmpfsInit before).nodes i).data = none ∧ ((tmpfsInit before).nodes i).size = 0 ∧
      ((tmpfsInit before).nodes i).capacity = 0 := by
    intro i
    by_cases root : i = 0
    · subst root; simp [tmpfsInit, rootNode]
    · simp [tmpfsInit, root]
  refine ⟨TreeInv.init before, ?_⟩
  constructor
  · exact Nat.zero_le _
  · intro i d data
    rw [(empty i).1] at data
    cases data
  · exact fun i _ => (empty i).2.2
  · intro i
    rw [(empty i).2.1]
    exact Nat.zero_le _
  · intro i j d e _ data
    rw [(empty i).1] at data
    cases data
  · intro i d data
    rw [(empty i).1] at data
    cases data
  · exact fun a _ below => zeroed a below

theorem create_cases (inv : TmpfsInv s) {path : List UInt8} {type : NodeType} {mode : UInt32} {r : Int}
    (kind : type ≠ .none) (returns : tmpfsCreatePath s path type mode = some (r, t)) :
    TmpfsInv t ∧ ((t = s ∧ (r < 0 ∨ resolvePath s path = some r)) ∨
      ∃ id : Nat, r = id ∧ ¬InUse s id ∧ InUse t id ∧
        contents t = update (contents s) id (if type = .file then some [] else none)) := by
  have tree := inv.tree.create kind returns
  rcases tmpfsCreatePath_cases returns with ⟨rfl, result⟩ | ⟨_, _, leaf, p, id, -, -, -, -, isDir, free, rfl, rfl⟩
  · exact ⟨inv, Or.inl ⟨rfl, result⟩⟩
  · have none := (freeSlot_spec free).1
    have other : p ≠ id := dir_ne_free isDir none
    refine ⟨⟨tree, inv.storage.insertChild other leaf type mode⟩, Or.inr ⟨id, rfl, not_not.mpr none, ?_, ?_⟩⟩
    · rw [InUse, insertChild_type other, if_pos rfl]
      exact kind
    · exact StorageInv.contents_insertChild other isDir leaf type mode

theorem remove_cases (inv : TmpfsInv s) {path : List UInt8} {wantDir : Bool} {r : Int}
    (returns : tmpfsRemovePath s path wantDir = some (r, t)) :
    TmpfsInv t ∧ ((t = s ∧ r < 0) ∨
      ∃ id : Nat, r = 0 ∧ resolvePath s path = some (id : Int) ∧ contents t = update (contents s) id none) := by
  have tree := inv.tree.removal returns
  rcases inv.tree.remove_cases returns with ⟨rfl, failed⟩ | ⟨id, p, u, resolved, -, -, -, -, unlinked, -, rfl, rfl⟩
  · exact ⟨inv, Or.inl ⟨rfl, failed⟩⟩
  · obtain ⟨storage, same⟩ := inv.storage.unlinked unlinked
    refine ⟨⟨tree, storage.clear id {} rfl rfl rfl⟩, Or.inr ⟨id, rfl, resolved, ?_⟩⟩
    rw [StorageInv.contents_clear, same]

theorem write_cases (inv : TmpfsInv s) (nodeId : Int) {buffer : List UInt8} {offset : Nat}
    (limit : offset + buffer.length ≤ writeLimit) :
    TmpfsInv (tmpfsWriteNode s nodeId buffer offset).2 ∧
    (((tmpfsWriteNode s nodeId buffer offset).2 = s ∧ (tmpfsWriteNode s nodeId buffer offset).1 < 0) ∨
      ∃ (i : Nat) (text : List UInt8), nodeId = i ∧ contents s i = some text ∧
        (tmpfsWriteNode s nodeId buffer offset).1 = buffer.length ∧
        contents (tmpfsWriteNode s nodeId buffer offset).2 =
          update (contents s) i (some (Lib.overwrite 0 text offset buffer))) := by
  have tree := inv.tree.write nodeId buffer offset
  by_cases reaches : ∃ i : Nat, nodeId = i ∧ i < maxNodes ∧ (s.nodes i).type = .file
  · obtain ⟨i, rfl, bound, isFile⟩ := reaches
    have file : contents s i = some _ := if_pos isFile
    rcases inv.storage.write_cases bound file limit with ⟨refused, -, -⟩ | ⟨returned, storage, changed⟩
    · rw [refused]
      exact ⟨inv, Or.inl ⟨rfl, by show -eNOSPC < 0; decide⟩⟩
    · exact ⟨⟨tree, storage⟩, Or.inr ⟨i, _, rfl, file, returned, changed⟩⟩
  · obtain ⟨r, negative, eq⟩ := tmpfsWriteNode_other
      (fun i same bound isFile => reaches ⟨i, same, bound, isFile⟩) buffer offset
    rw [eq]
    exact ⟨inv, Or.inl ⟨rfl, negative⟩⟩

theorem step (inv : TmpfsInv s) {op : TmpfsOp} (short : op.ShortNames) (steps : tmpfsStep s op = some t) :
    TmpfsInv t := by
  cases op with
  | create path type mode =>
      obtain ⟨⟨r, u⟩, returns, rfl⟩ := Option.map_eq_some_iff.mp steps
      exact (inv.create_cases short.1 returns).1
  | remove path wantDir =>
      obtain ⟨⟨r, u⟩, returns, rfl⟩ := Option.map_eq_some_iff.mp steps
      exact (inv.remove_cases returns).1
  | write nodeId buffer offset =>
      cases steps
      exact (inv.write_cases nodeId short).1
  | read nodeId count offset =>
      cases steps
      exact inv

theorem step_returns (inv : TmpfsInv s) {op : TmpfsOp} (short : op.ShortNames) (normal : op.Normalized) :
    ∃ t, tmpfsStep s op = some t ∧ TmpfsInv t := by
  obtain ⟨admissible, fits⟩ := short.admissible normal
  obtain ⟨t, steps, -⟩ := inv.tree.step_returns admissible fits
  exact ⟨t, steps, inv.step short steps⟩

end TmpfsInv

theorem tmpfs_contents_refinement (before : Tmpfs) (zeroed : ∀ a, a < arenaSize → before.arena a = 0)
    (ops : List TmpfsOp) (short : ∀ op ∈ ops, op.ShortNames) :
    (∀ s, Lib.run tmpfsStep (tmpfsInit before) ops = some s →
      -- a creation adds at most an empty file, whatever its slot held before
      (∀ path type mode r t, type ≠ .none → tmpfsCreatePath s path type mode = some (r, t) →
        (t = s ∧ (r < 0 ∨ resolvePath s path = some r)) ∨
        ∃ id : Nat, r = id ∧ ¬InUse s id ∧ InUse t id ∧
          contents t = update (contents s) id (if type = .file then some [] else none)) ∧
      (∀ path wantDir r t, tmpfsRemovePath s path wantDir = some (r, t) → (t = s ∧ r < 0) ∨
        ∃ id : Nat, r = 0 ∧ resolvePath s path = some (id : Int) ∧ contents t = update (contents s) id none) ∧
      -- a write fails without any effect or overwrites one string
      (∀ nodeId buffer offset, offset + buffer.length ≤ writeLimit → ∀ r t,
        tmpfsWriteNode s nodeId buffer offset = (r, t) →
        (r < 0 → t = s) ∧
        (0 ≤ r → r = buffer.length ∧ ∃ (i : Nat) (text : List UInt8), nodeId = i ∧ contents s i = some text ∧
          contents t = update (contents s) i (some (Lib.overwrite 0 text offset buffer)) ∧
          (t.nodes i).size = max (s.nodes i).size (offset + buffer.length))) ∧
      (∀ (i : Nat) (text : List UInt8), contents s i = some text → ∀ count offset,
        tmpfsReadNode s i count offset =
          (↑((text.drop offset).take count).length, (text.drop offset).take count))) ∧
    ((∀ op ∈ ops, op.Normalized) → ∃ s, Lib.run tmpfsStep (tmpfsInit before) ops = some s) := by
  have start := TmpfsInv.init zeroed
  constructor
  · intro s reaches
    have inv : TmpfsInv s := Lib.run_invariant (fun _ _ _ inv ok steps => inv.step ok steps) short start reaches
    refine ⟨?_, ?_, ?_, ?_⟩
    · intro path type mode r t kind returns
      exact (inv.create_cases kind returns).2
    · intro path wantDir r t returns
      exact (inv.remove_cases returns).2
    · intro nodeId buffer offset limit r t returns
      have cases := (inv.write_cases nodeId limit).2
      rw [returns] at cases
      rcases cases with ⟨same, negative⟩ | ⟨i, text, rfl, file, returned, changed⟩
      · exact ⟨fun _ => same, fun nonneg => absurd negative (Int.not_lt.mpr nonneg)⟩
      · refine ⟨fun negative => ?_, fun _ => ⟨returned, i, text, rfl, file, changed, ?_⟩⟩
        · simp only at returned
          omega
        · have after : contents t i = some (Lib.overwrite 0 text offset buffer) := by
            rw [show contents t = _ from changed, update_self]
          rw [← contents_length after, Lib.overwrite_length, contents_length file]
    · intro i text file count offset
      have used : InUse s i := by
        rw [InUse, (contents_eq_some file).1]
        simp
      exact inv.storage.read_eq (inv.tree.bounded i used) file count offset
  · intro normal
    have progress : ∀ s op, TmpfsInv s → op.ShortNames ∧ op.Normalized → ∃ t, tmpfsStep s op = some t ∧ TmpfsInv t :=
      fun s op inv ok => inv.step_returns ok.1 ok.2
    obtain ⟨t, reaches, -⟩ := Lib.run_isSome progress (fun op member => ⟨short op member, normal op member⟩) start
    exact ⟨t, reaches⟩

theorem tmpfs_contents_refinement_sample :
    (∀ op ∈ sampleRun, op.ShortNames ∧ op.Normalized) ∧
    ∃ s, Lib.run tmpfsStep (tmpfsInit {}) sampleRun = some s ∧
      ∀ (i : Nat) (text : List UInt8), contents s i = some text → ∀ count offset,
        tmpfsReadNode s i count offset =
          (↑((text.drop offset).take count).length, (text.drop offset).take count) := by
  have short : ∀ op ∈ sampleRun, op.ShortNames ∧ op.Normalized := by
    intro op member
    simp only [sampleRun, List.mem_cons, List.not_mem_nil, or_false] at member
    rcases member with rfl | rfl | rfl | rfl | rfl
    · exact ⟨⟨by decide, .of_length (by decide)⟩, by decide, by decide⟩
    · exact ⟨⟨by decide, .of_length (by decide)⟩, by decide, by decide⟩
    · exact ⟨by show _ ≤ _; decide, trivial⟩
    · exact ⟨.of_length (by decide), trivial⟩
    · exact ⟨⟨by decide, .of_length (by decide)⟩, by decide, by decide⟩
  obtain ⟨good, returns⟩ := tmpfs_contents_refinement {} (fun _ _ => rfl) sampleRun
    fun op member => (short op member).1
  obtain ⟨s, reaches⟩ := returns fun op member => (short op member).2
  exact ⟨short, s, reaches, (good s reaches).2.2.2⟩

end Mgcore
