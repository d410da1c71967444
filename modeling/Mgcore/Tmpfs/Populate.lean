import Mathlib.Data.Finset.Card
import Mathlib.Data.Finset.Range
import Mgcore.Tmpfs.Contents
import Mgcore.Tmpfs.Namespace

/-!
# Filling the tree

As long as there is a free slot and room in the arena, a node can be added below every directory. `Populated` is
what a creation and the first write do together.
-/

namespace Mgcore
open Function

/-! ## Free slots -/

def freeNodes (s : Tmpfs) : Nat := ((Finset.range maxNodes).filter fun i => (s.nodes i).type = .none).card

theorem exists_freeSlot {s : Tmpfs} (room : 0 < freeNodes s) : ∃ id, freeSlot s = some id := by
  obtain ⟨i, member⟩ := Finset.card_pos.mp room
  obtain ⟨bound, free⟩ := Finset.mem_filter.mp member
  apply Option.isSome_iff_exists.mp
  rw [freeSlot, List.find?_isSome]
  exact ⟨i, List.mem_range.mpr (Finset.mem_range.mp bound), by simpa using free⟩

theorem freeNodes_insert {s t : Tmpfs} {id : Nat} (bound : id < maxNodes) (free : (s.nodes id).type = .none)
    (used : (t.nodes id).type ≠ .none) (others : ∀ i, i ≠ id → (t.nodes i).type = (s.nodes i).type) :
    freeNodes t + 1 = freeNodes s := by
  have erased : (Finset.range maxNodes).filter (fun i => (t.nodes i).type = .none) =
      ((Finset.range maxNodes).filter fun i => (s.nodes i).type = .none).erase id := by
    ext i
    simp only [Finset.mem_filter, Finset.mem_erase]
    constructor
    · rintro ⟨inside, none⟩
      have other : i ≠ id := by
        rintro rfl
        exact used none
      exact ⟨other, inside, others i other ▸ none⟩
    · rintro ⟨other, inside, none⟩
      exact ⟨inside, (others i other).trans none⟩
  have member : id ∈ (Finset.range maxNodes).filter fun i => (s.nodes i).type = .none :=
    Finset.mem_filter.mpr ⟨Finset.mem_range.mpr bound, free⟩
  rw [freeNodes, erased, Finset.card_erase_of_mem member, freeNodes]
  have positive := Finset.card_pos.mpr ⟨id, member⟩
  omega

/-! ## Adding a node -/

namespace NameInv
variable {s t : Tmpfs}

theorem create_succeeds (inv : NameInv s) {p : CanonicalPath} (absent : ∀ j, ¬PathTo s p.names j) {q : Nat}
    (parent : PathTo s p.names.dropLast q) (isDir : (s.nodes q).type = .dir) (room : 0 < freeNodes s)
    {type : NodeType} (kind : type ≠ .none) (mode : UInt32) :
    ∃ (id : Nat) (t : Tmpfs), tmpfsCreatePath s p.text type mode = some ((id : Int), t) ∧ Created s t p id type mode := by
  obtain ⟨names, last, eq⟩ : ∃ names last, p.names = names ++ [last] :=
    ⟨_, _, (List.dropLast_append_getLast p.nonempty).symm⟩
  rw [eq, List.dropLast_concat] at parent
  have validLast : ValidName last := p.valid last (by simp [eq])
  have validNames : ∀ n ∈ names, ValidName n := fun n member => p.valid n (by simp [eq, member])
  have missing : resolvePath s p.text = some (-eNOENT) := (inv.lookup_eq p).2 absent
  have split : splitParent p.text = some (render names ++ [slash], last) := by
    have fits := p.fits
    have positive := List.length_pos_iff.mpr validLast.1
    rw [eq, render_append] at fits
    simp only [render_cons, render_nil, List.append_nil, List.length_append, List.length_cons] at fits
    have short : (render names ++ [slash]).length < pathMax := by
      simp only [List.length_append, List.length_singleton]
      omega
    rw [splitParent, CanonicalPath.text, eq, splitText_render validLast]
    simp only [copyInto, if_pos short, if_pos validLast.2.1]
    rfl
  have resolved : resolvePath s (render names ++ [slash]) = some (q : Int) := by
    rcases inv.resolvePath_spec validNames 1 (Or.inr Nat.one_pos) with ⟨j, found, path⟩ | ⟨-, none⟩
    · rw [inv.path_unique parent path]
      exact found
    · exact absurd parent (none q)
  obtain ⟨id, free⟩ := exists_freeSlot room
  rcases createChild_cases s q last type mode isDir with ⟨full, -⟩ | ⟨id, -, created⟩
  · rw [full] at free
    cases free
  have returns : tmpfsCreatePath s p.text type mode = some ((id : Int), Mgcore.insertChild s id q last type mode) := by
    have negative : ¬(0 : Int) ≤ -eNOENT := by decide
    have nonneg : ¬(q : Int) < 0 := Int.not_lt.mpr (Int.natCast_nonneg q)
    rw [tmpfsCreatePath, if_neg p.wellFormed, missing]
    simp only [Option.bind_eq_bind, Option.bind_some, if_neg negative, split, resolved, if_neg nonneg,
      Tmpfs.node_natCast, isDir, ne_eq, not_true_eq_false, if_false, created, Option.pure_def]
  rcases inv.create_absent p absent kind returns with ⟨negative, -⟩ | ⟨id', same, made⟩
  · exact absurd negative (Int.not_lt.mpr (Int.natCast_nonneg id))
  · cases Int.ofNat.inj same
    exact ⟨id, _, returns, made⟩

end NameInv

/-- One more node in the tree, a file with these bytes or else a directory. -/
structure Populated (s t : Tmpfs) (p : CanonicalPath) (text : Option (List UInt8)) (id : Nat) : Prop where
  tables : TmpfsInv t
  names : NameInv t
  type_eq : (t.nodes id).type = if text.isSome then .file else .dir
  contents_eq : contents t = update (contents s) id text
  types : ∀ i, i ≠ id → (t.nodes i).type = (s.nodes i).type
  fresh : ¬InUse s id
  paths : ∀ q j, PathTo t q j ↔ PathTo s q j ∨ q = p.names ∧ j = id
  free : freeNodes t + 1 = freeNodes s
  offset : t.dataOffset ≤ s.dataOffset + roundCapacity (text.getD []).length

namespace NameInv
variable {s t : Tmpfs} {p : CanonicalPath} {id : Nat} {type : NodeType} {mode : UInt32}

theorem Created.types (created : Created s t p id type mode) (i : Nat) (other : i ≠ id) :
    (t.nodes i).type = (s.nodes i).type :=
  (VfsNode.of_entry (created.others i other)).1

theorem Created.freeNodes (created : Created s t p id type mode) (kind : type ≠ .none) :
    freeNodes t + 1 = Mgcore.freeNodes s := by
  have used : InUse t id := by
    rw [InUse, created.type_eq]
    exact kind
  exact freeNodes_insert (created.inv.tree.bounded id used) (not_not.mp created.fresh) used created.types

theorem Created.populated (created : Created s t p id type mode) (tables : TmpfsInv s)
    (kind : type = .file ∨ type = .dir) (returns : tmpfsCreatePath s p.text type mode = some ((id : Int), t)) :
    Populated s t p (if type = .file then some [] else none) id := by
  have used : type ≠ .none := by
    rcases kind with rfl | rfl
    · simp
    · simp
  obtain ⟨after, effect⟩ := tables.create_cases used returns
  rcases effect with ⟨rfl, -⟩ | ⟨id', same, -, -, changed⟩
  · have notUsed := created.fresh
    rw [InUse, created.type_eq] at notUsed
    exact absurd used notUsed
  cases Int.ofNat.inj same
  constructor
  · exact after
  · exact created.inv
  · rw [created.type_eq]
    rcases kind with rfl | rfl
    · rfl
    · rfl
  · exact changed
  · exact created.types
  · exact created.fresh
  · exact created.paths
  · exact created.freeNodes used
  · rw [tmpfsCreatePath_dataOffset returns]
    exact Nat.le_add_right _ _

end NameInv

theorem tmpfsWriteNode_dataOffset_le {s : Tmpfs} (inv : StorageInv s) {i : Nat} (bound : i < maxNodes)
    (isFile : (s.nodes i).type = .file) (buffer : List UInt8) (offset : Nat) :
    (tmpfsWriteNode s i buffer offset).2.dataOffset ≤
      s.dataOffset + roundCapacity ((offset + buffer.length) % wordSize) := by
  rw [tmpfsWriteNode_file bound isFile]
  split_ifs
  · cases grown : growNode s i ((offset + buffer.length) % wordSize) with
    | none => exact Nat.le_add_right _ _
    | some t => exact (inv.growNode_spec grown).2.1.le
  · exact Nat.le_add_right _ _

theorem Populated.write {s t : Tmpfs} {p : CanonicalPath} {id : Nat} (empty : Populated s t p (some []) id)
    {data : List UInt8} (limit : data.length ≤ writeLimit)
    (room : t.dataOffset + roundCapacity data.length ≤ arenaSize) (sameOffset : t.dataOffset = s.dataOffset) :
    Populated s (tmpfsWriteNode t id data 0).2 p (some data) id := by
  have isFile : (t.nodes id).type = .file := empty.type_eq
  have used : InUse t id := by simp [InUse, isFile]
  have bound := empty.names.tree.bounded id used
  have text : contents t id = some [] := by rw [empty.contents_eq, update_self]
  have headers := fun j => VfsNode.of_header (tmpfsWriteNode_header t id data 0 j)
  have tree := empty.names.tree.write id data 0
  have kept : ∀ j, ((tmpfsWriteNode t id data 0).2.nodes j).type = (t.nodes j).type ∧
      ((tmpfsWriteNode t id data 0).2.nodes j).parentId = (t.nodes j).parentId ∧
      ((tmpfsWriteNode t id data 0).2.nodes j).name = (t.nodes j).name :=
    fun j => ⟨(headers j).1, (headers j).2.2.1, (headers j).2.2.2.2.2⟩
  have noWrap : (0 + data.length) % wordSize = data.length := by
    unfold writeLimit at limit
    unfold wordSize
    omega
  rcases empty.tables.storage.write_cases bound text (show 0 + data.length ≤ writeLimit by omega) with
    ⟨-, -, full⟩ | ⟨-, storage, changed⟩
  · rw [Nat.zero_add] at full
    omega
  constructor
  · exact ⟨tree, storage⟩
  · exact empty.names.congr tree kept
  · rw [(kept id).1, isFile]
    rfl
  · rw [changed, empty.contents_eq, update_idem, Lib.overwrite_empty]
  · intro i other
    rw [(kept i).1, empty.types i other]
  · exact empty.fresh
  · intro q j
    rw [PathTo.congr kept, empty.paths]
  · rw [← empty.free]
    simp only [freeNodes, fun j => (kept j).1]
  · have grows := tmpfsWriteNode_dataOffset_le empty.tables.storage bound isFile data 0
    rw [noWrap, sameOffset] at grows
    exact grows

end Mgcore
