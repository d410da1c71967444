import Mgcore.Fs.Boot
import Mgcore.Initramfs.Paths
import Mgcore.Tmpfs.Populate

/-!
# Unpacking what was packed

The loop of `fs_mount_initramfs` over an archive of `emit_tree`, entry by entry. The entries are sorted, so a
directory comes before what it holds; after each entry the tree is the one after `fs_init` with the entries so far
added (`Unpacked`).
-/

namespace Mgcore

open Function Lib

/-! ## Lookups -/

def typeAt (s : Tmpfs) (path : List UInt8) : Option NodeType :=
  (tmpfsLookupPath s path).bind fun id => if 0 ≤ id then some (s.node id).type else none

def fileAt (s : Tmpfs) (path : List UInt8) : Option (List UInt8) :=
  (tmpfsLookupPath s path).bind fun id => if 0 ≤ id then contents s id.toNat else none

section
variable {s : Tmpfs} (inv : NameInv s) {names : List (List UInt8)} (nonempty : names ≠ [])
  (valid : ∀ n ∈ names, ValidName n)
include inv nonempty valid

theorem lookup_present {j : Nat} (path : PathTo s names j) : tmpfsLookupPath s (render names) = some (j : Int) := by
  have spec := inv.resolvePath_spec valid 0 (Or.inl nonempty)
  rw [List.replicate_zero, List.append_nil] at spec
  rcases spec with ⟨i, found, other⟩ | ⟨-, none⟩
  · cases inv.path_unique path other
    exact found
  · exact absurd path (none j)

theorem lookup_missing (absent : ∀ j, ¬PathTo s names j) : tmpfsLookupPath s (render names) = some (-eNOENT) := by
  have spec := inv.resolvePath_spec valid 0 (Or.inl nonempty)
  rw [List.replicate_zero, List.append_nil] at spec
  rcases spec with ⟨i, -, path⟩ | ⟨missing, -⟩
  · exact absurd path (absent i)
  · exact missing

theorem typeAt_present {j : Nat} (path : PathTo s names j) : typeAt s (render names) = some (s.nodes j).type := by
  rw [typeAt, lookup_present inv nonempty valid path]
  simp

theorem fileAt_present {j : Nat} (path : PathTo s names j) : fileAt s (render names) = contents s j := by
  rw [fileAt, lookup_present inv nonempty valid path]
  simp

theorem typeAt_eq_none : typeAt s (render names) = none ↔ ∀ j, ¬PathTo s names j := by
  constructor
  · intro none j path
    rw [typeAt_present inv nonempty valid path] at none
    cases none
  · intro absent
    rw [typeAt, lookup_missing inv nonempty valid absent]
    rfl

end

/-! ## The trees that fit -/

def SourceFile.mode : SourceFile → Nat
  | .dir => dirMode
  | .file _ => regMode

def SourceFile.data : SourceFile → List UInt8
  | .dir => []
  | .file data => data

theorem emitEntry_eq (e : List (List Char) × SourceFile) :
    emitEntry e = writeEntry (relativeName e.1) e.2.mode e.2.data := by
  obtain ⟨path, file⟩ := e
  cases file <;> rfl

def SourceFile.room (f : SourceFile) : Nat := (f.data.length + 255) / 256 * 256

def entryText (e : List (List Char) × SourceFile) : List UInt8 := slash :: encodeUtf8 (relativeName e.1)

/-- What the tmpfs `b` can take: ASCII paths of at most 254 bytes with components of at most 31, no entry of the
name of the trailer, no entry in the place of a node unless both are directories, a slot for every other one and
the files in the arena. -/
structure Mountable (b : Tmpfs) (tree : SourceTree) : Prop where
  ascii : ∀ e ∈ tree.entries, ∀ c ∈ relativeName e.1, c.toNat < 128
  short : ∀ e ∈ tree.entries, (relativeName e.1).length ≤ 254
  components : ∀ e ∈ tree.entries, ∀ n ∈ e.1, n.length ≤ 31
  trailer : ∀ e ∈ tree.entries, e.1 ≠ ["TRAILER!!!".toList]
  apart : ∀ e ∈ tree.entries, ∀ type ∈ typeAt b (entryText e), e.2 = .dir ∧ type = .dir
  slots : (tree.entries.filter fun e => typeAt b (entryText e) = none).length ≤ freeNodes b
  arena : (tree.entries.map fun e => e.2.room).sum ≤ arenaSize

/-! ## One entry -/

def Holds (s : Tmpfs) (id : Nat) : SourceFile → Prop
  | .dir => (s.nodes id).type = .dir
  | .file data => (s.nodes id).type = .file ∧ contents s id = some data

structure Unpacked (b s : Tmpfs) (done : List (List (List Char) × SourceFile)) : Prop where
  tables : TmpfsInv s
  names : NameInv s
  kept : ∀ q j, PathTo b q j → PathTo s q j ∧ (s.nodes j).type = (b.nodes j).type
  added : ∀ q j, PathTo s q j → PathTo b q j ∨ ∃ e ∈ done, q = pathBytes e.1
  made : ∀ e ∈ done, ∃ j, PathTo s (pathBytes e.1) j ∧ Holds s j e.2
  slots : freeNodes b ≤ freeNodes s + (done.filter fun e => typeAt b (entryText e) = none).length
  arena : s.dataOffset ≤ (done.map fun e => e.2.room).sum

def SourceFile.text : SourceFile → Option (List UInt8)
  | .dir => none
  | .file data => some data

theorem SourceFile.room_eq {f : SourceFile} (small : f.room ≤ arenaSize) :
    roundCapacity (f.text.getD []).length = f.room := by
  have same : (f.text.getD []).length = f.data.length := by cases f <;> rfl
  rw [same, roundCapacity_eq]
  unfold room arenaSize at *
  unfold wordSize
  omega

theorem holds_populated {s t : Tmpfs} {p : CanonicalPath} {id : Nat} {f : SourceFile}
    (populated : Populated s t p f.text id) : Holds t id f := by
  have type := populated.type_eq
  have bytes : contents t id = f.text := by rw [populated.contents_eq, update_self]
  cases f with
  | dir => exact type
  | file data => exact ⟨type, bytes⟩

theorem holds_kept {s t : Tmpfs} {p : CanonicalPath} {id j : Nat} {text : Option (List UInt8)} {f : SourceFile}
    (populated : Populated s t p text id) (other : j ≠ id) (holds : Holds s j f) : Holds t j f := by
  have type := populated.types j other
  have bytes : contents t j = contents s j := by rw [populated.contents_eq, update_of_ne other]
  cases f with
  | dir => exact type.trans holds
  | file data => exact ⟨type.trans holds.1, bytes.trans holds.2⟩

theorem dirMode_isDir : (SourceFile.dir).mode.toUInt32 &&& 0o170000 = 0o040000 := by decide

theorem regMode_isFile (data : List UInt8) : ¬((SourceFile.file data).mode.toUInt32 &&& 0o170000 = 0o040000) := by
  change ¬(regMode.toUInt32 &&& 0o170000 = 0o040000)
  decide

theorem mountNode_new {s : Tmpfs} {p : CanonicalPath} {q : Nat} (tables : TmpfsInv s) (names : NameInv s)
    (absent : ∀ j, ¬PathTo s p.names j) (parentPath : PathTo s p.names.dropLast q) (isDir : (s.nodes q).type = .dir)
    (free : 0 < freeNodes s) (f : SourceFile) (room : s.dataOffset + f.room ≤ arenaSize) :
    ∃ t id, mountNode s p.text f.mode.toUInt32 f.data = some t ∧ Populated s t p f.text id := by
  have creates := fun {type : NodeType} (kind : type ≠ .none) =>
    names.create_succeeds absent parentPath isDir free kind f.mode.toUInt32
  cases f with
  | dir =>
      obtain ⟨id, t, returns, created⟩ := creates (show NodeType.dir ≠ .none by simp)
      refine ⟨t, id, ?_, created.populated tables (Or.inr rfl) returns⟩
      rw [mountNode, if_pos dirMode_isDir, returns]
      rfl
  | file data =>
      obtain ⟨id, t, returns, created⟩ := creates (show NodeType.file ≠ .none by simp)
      have empty := created.populated tables (Or.inl rfl) returns
      have sameOffset := tmpfsCreatePath_dataOffset returns
      rw [mountNode, if_neg (regMode_isFile data), returns]
      rcases eq_or_ne data [] with rfl | nonempty
      · exact ⟨t, id, by simp [SourceFile.data], empty⟩
      · have small : (SourceFile.file data).room ≤ arenaSize := by omega
        have rounded : roundCapacity data.length = (SourceFile.file data).room := SourceFile.room_eq small
        have limit : data.length ≤ writeLimit := by
          simp only [SourceFile.room, SourceFile.data, arenaSize] at room
          unfold writeLimit
          omega
        have enough : t.dataOffset + roundCapacity data.length ≤ arenaSize := by
          rw [sameOffset, rounded]
          exact room
        exact ⟨_, id, by simp [SourceFile.data, nonempty], empty.write limit enough sameOffset⟩

namespace Unpacked
variable {b s t : Tmpfs} {done : List (List (List Char) × SourceFile)} {e : List (List Char) × SourceFile}
  {p : CanonicalPath}

theorem add (unpacked : Unpacked b s done) {id : Nat} (populated : Populated s t p e.2.text id)
    (isPath : p.names = pathBytes e.1) (new : typeAt b (entryText e) = none) (small : e.2.room ≤ arenaSize) :
    Unpacked b t (done ++ [e]) := by
  have other : ∀ {q j}, PathTo s q j → j ≠ id := by
    rintro q j path rfl
    exact populated.fresh (unpacked.names.path_used path)
  constructor
  · exact populated.tables
  · exact populated.names
  · intro q j path
    obtain ⟨below, type⟩ := unpacked.kept q j path
    exact ⟨(populated.paths q j).mpr (Or.inl below), (populated.types j (other below)).trans type⟩
  · intro q j path
    rcases (populated.paths q j).mp path with old | ⟨rfl, -⟩
    · rcases unpacked.added q j old with before | ⟨d, member, here⟩
      · exact Or.inl before
      · exact Or.inr ⟨d, by simp [member], here⟩
    · exact Or.inr ⟨e, by simp, isPath⟩
  · intro d member
    rcases List.mem_append.mp member with earlier | last
    · obtain ⟨j, path, holds⟩ := unpacked.made d earlier
      exact ⟨j, (populated.paths _ j).mpr (Or.inl path), holds_kept populated (other path) holds⟩
    · rw [List.mem_singleton.mp last]
      exact ⟨id, (populated.paths _ id).mpr (Or.inr ⟨isPath.symm, rfl⟩), holds_populated populated⟩
  · have free := populated.free
    have slots := unpacked.slots
    simp only [List.filter_append, List.length_append, List.filter_cons, new, decide_true, if_true, List.filter_nil,
      List.length_singleton]
    omega
  · have offset := populated.offset
    have arena := unpacked.arena
    rw [SourceFile.room_eq small] at offset
    simp only [List.map_append, List.sum_append, List.map_cons, List.map_nil, List.sum_cons, List.sum_nil]
    omega

theorem skip (unpacked : Unpacked b s done) {j : Nat} (path : PathTo b (pathBytes e.1) j) (isDir : e.2 = .dir)
    (type : (b.nodes j).type = .dir) : Unpacked b s (done ++ [e]) := by
  constructor
  · exact unpacked.tables
  · exact unpacked.names
  · exact unpacked.kept
  · intro q i below
    rcases unpacked.added q i below with before | ⟨d, member, here⟩
    · exact Or.inl before
    · exact Or.inr ⟨d, by simp [member], here⟩
  · intro d member
    rcases List.mem_append.mp member with earlier | last
    · exact unpacked.made d earlier
    · rw [List.mem_singleton.mp last]
      obtain ⟨below, same⟩ := unpacked.kept _ j path
      refine ⟨j, below, ?_⟩
      rw [isDir]
      exact same.trans type
  · have slots := unpacked.slots
    simp only [List.filter_append, List.length_append]
    omega
  · have arena := unpacked.arena
    simp only [List.map_append, List.sum_append]
    omega

theorem mount (unpacked : Unpacked b s done) (inv : NameInv b) (isPath : p.names = pathBytes e.1)
    (isText : entryText e = p.text) (new : ∀ d ∈ done, pathBytes d.1 ≠ pathBytes e.1)
    (parent : p.names.dropLast = [] ∨ ∃ d ∈ done, pathBytes d.1 = p.names.dropLast ∧ d.2 = .dir)
    (apart : ∀ type ∈ typeAt b (entryText e), e.2 = .dir ∧ type = .dir)
    (slot : typeAt b (entryText e) = none →
      (done.filter fun d => typeAt b (entryText d) = none).length < freeNodes b)
    (room : (done.map fun d => d.2.room).sum + e.2.room ≤ arenaSize) :
    ∃ t, mountNode s p.text e.2.mode.toUInt32 e.2.data = some t ∧ Unpacked b t (done ++ [e]) := by
  by_cases present : ∃ j, PathTo b p.names j
  · obtain ⟨j, path⟩ := present
    have type : typeAt b (entryText e) = some (b.nodes j).type := by
      rw [isText]
      exact typeAt_present inv p.nonempty p.valid path
    obtain ⟨isDir, sameKind⟩ := apart _ type
    have found := unpacked.names.create_present p (unpacked.kept _ j path).1 .dir (SourceFile.dir).mode.toUInt32
    refine ⟨s, ?_, unpacked.skip (isPath ▸ path) isDir sameKind⟩
    rw [isDir, mountNode, if_pos dirMode_isDir, found]
    rfl
  -- the path is new, its parent is a directory that is there already
  have absentB : ∀ j, ¬PathTo b p.names j := fun j path => present ⟨j, path⟩
  have unresolved : typeAt b (entryText e) = none := by
    rw [isText]
    exact (typeAt_eq_none inv p.nonempty p.valid).mpr absentB
  have absent : ∀ j, ¬PathTo s p.names j := by
    intro j path
    rcases unpacked.added _ j path with before | ⟨d, member, here⟩
    · exact absentB j before
    · exact new d member (here.symm.trans isPath)
  obtain ⟨q, parentPath, isDir⟩ : ∃ q, PathTo s p.names.dropLast q ∧ (s.nodes q).type = .dir := by
    rcases parent with top | ⟨d, member, here, directory⟩
    · rw [top]
      exact ⟨0, .root, unpacked.names.tree.root_type⟩
    · obtain ⟨q, path, holds⟩ := unpacked.made d member
      rw [directory] at holds
      exact ⟨q, here ▸ path, holds⟩
  have free : 0 < freeNodes s := by
    have slots := unpacked.slots
    have left := slot unresolved
    omega
  have small : e.2.room ≤ arenaSize := by omega
  have arena := unpacked.arena
  obtain ⟨t, id, returns, populated⟩ :=
    mountNode_new unpacked.tables unpacked.names absent parentPath isDir free e.2 (by omega)
  exact ⟨t, returns, unpacked.add populated isPath unresolved small⟩

end Unpacked

/-! ## The order of the entries -/

namespace SourceTree
variable (tree : SourceTree)

theorem sorted_perm : tree.sorted.Perm tree.entries := List.mergeSort_perm _ _

theorem sorted_pairwise : tree.sorted.Pairwise fun d e => d.1 ≤ e.1 := by
  have transitive : ∀ d e f : List (List Char) × SourceFile, decide (d.1 ≤ e.1) = true → decide (e.1 ≤ f.1) = true →
      decide (d.1 ≤ f.1) = true := by
    simp only [decide_eq_true_eq]
    intro d e f
    exact le_trans
  have total : ∀ d e : List (List Char) × SourceFile, (decide (d.1 ≤ e.1) || decide (e.1 ≤ d.1)) = true := by
    simp only [Bool.or_eq_true, decide_eq_true_eq]
    intro d e
    exact le_total d.1 e.1
  exact (List.pairwise_mergeSort transitive total tree.entries).imp of_decide_eq_true

variable {tree}

theorem parent_first {done todo : List (List (List Char) × SourceFile)} {e : List (List Char) × SourceFile}
    (split : tree.sorted = done ++ e :: todo) : e.1.dropLast = [] ∨ (e.1.dropLast, .dir) ∈ done := by
  have member : e ∈ tree.entries := tree.sorted_perm.mem_iff.mp (by simp [split])
  rcases tree.closed e member with top | parent
  · exact Or.inl top
  have inside : (e.1.dropLast, SourceFile.dir) ∈ done ++ e :: todo := by
    rw [← split]
    exact tree.sorted_perm.mem_iff.mpr parent
  have nonempty := (tree.named e member).1
  have shorter : e.1.dropLast ≠ e.1 := by
    intro same
    have length := congrArg List.length same
    have positive := List.length_pos_iff.mpr nonempty
    rw [List.length_dropLast] at length
    omega
  rcases List.mem_append.mp inside with before | later
  · exact Or.inr before
  rcases List.mem_cons.mp later with same | after
  · exact absurd (congrArg Prod.fst same) shorter
  · have ordered := tree.sorted_pairwise
    rw [split, List.pairwise_append, List.pairwise_cons] at ordered
    have above : e.1 ≤ e.1.dropLast := ordered.2.1.1 _ after
    have below : e.1.dropLast < e.1 := by
      have longer : List.Lex (· < ·) (e.1.dropLast ++ []) (e.1.dropLast ++ [e.1.getLast nonempty]) :=
        List.Lex.append_left _ List.Lex.nil _
      rwa [List.append_nil, List.dropLast_append_getLast] at longer
    exact absurd above (not_le_of_gt below)

theorem parent_path {done todo : List (List (List Char) × SourceFile)} {e : List (List Char) × SourceFile}
    (split : tree.sorted = done ++ e :: todo) {p : CanonicalPath} (isPath : p.names = pathBytes e.1) :
    p.names.dropLast = [] ∨ ∃ d ∈ done, pathBytes d.1 = p.names.dropLast ∧ d.2 = .dir := by
  have above : p.names.dropLast = pathBytes e.1.dropLast := by
    rw [isPath, pathBytes, pathBytes, List.map_dropLast]
  rw [above]
  rcases parent_first split with top | earlier
  · rw [top]
    exact Or.inl rfl
  · exact Or.inr ⟨_, earlier, rfl, rfl⟩

theorem fresh_in_order {done todo : List (List (List Char) × SourceFile)} {e : List (List Char) × SourceFile}
    (split : tree.sorted = done ++ e :: todo) : ∀ d ∈ done, d.1 ≠ e.1 := by
  have distinct : (tree.sorted.map Prod.fst).Nodup := (tree.sorted_perm.map Prod.fst).nodup_iff.mpr tree.distinct
  rw [split, List.map_append, List.nodup_append] at distinct
  intro d member
  exact distinct.2.2 d.1 (List.mem_map_of_mem member) e.1 (by simp)

end SourceTree

/-! ## The archive -/

namespace Mountable
variable {b : Tmpfs} {tree : SourceTree} (mountable : Mountable b tree)
  {e : List (List Char) × SourceFile} (member : e ∈ tree.entries)
include mountable member

theorem component_ascii : ∀ n ∈ e.1, ∀ c ∈ n, c.toNat < 128 := by
  intro n component c inside
  exact mountable.ascii e member c (mem_relativeName_of_mem component inside)

theorem valid : ∀ n ∈ pathBytes e.1, ValidName n := by
  intro n component
  obtain ⟨m, inside, rfl⟩ := List.mem_map.mp component
  exact validName_encodeUtf8 ((tree.named e member).2 m inside) (mountable.component_ascii member m inside)
    (mountable.components e member m inside)

theorem fits : (render (pathBytes e.1)).length < pathMax := by
  have short := mountable.short e member
  rw [render_pathBytes (tree.named e member).1, encodeUtf8_ascii (mountable.ascii e member), List.length_cons,
    List.length_map]
  unfold pathMax
  omega

theorem exists_path : ∃ p : CanonicalPath, p.names = pathBytes e.1 ∧ entryText e = p.text := by
  have nonempty := (tree.named e member).1
  refine ⟨⟨pathBytes e.1, ?_, mountable.valid member, mountable.fits member⟩, rfl, ?_⟩
  · simpa [pathBytes] using nonempty
  · exact (render_pathBytes nonempty).symm

theorem room_le : e.2.room ≤ arenaSize := by
  obtain ⟨before, after, split⟩ := List.append_of_mem member
  have sum := mountable.arena
  rw [split, List.map_append, List.sum_append, List.map_cons, List.sum_cons] at sum
  omega

theorem packable : Packable (relativeName e.1) e.2.mode e.2.data := by
  have room := mountable.room_le member
  have short := mountable.short e member
  constructor
  · cases e.2 with
    | dir => exact (by decide : dirMode < 2 ^ 32)
    | file data => exact (by decide : regMode < 2 ^ 32)
  · unfold SourceFile.room arenaSize at room
    omega
  · omega
  · exact mountable.ascii e member
  · intro zero
    rcases mem_relativeName zero with separator | ⟨n, component, inside⟩
    · cases separator
    · exact ((tree.named e member).2 n component).2.2.1 inside

theorem name_ne {text : List Char} (ascii : ∀ c ∈ text, c.toNat < 128) (plain : '/' ∉ text) (other : e.1 ≠ [text]) :
    encodeUtf8 (relativeName e.1) ≠ encodeUtf8 text := by
  intro same
  have named := encodeUtf8_inj (mountable.ascii e member) ascii same
  rw [← named] at plain other
  exact other (eq_singleton_of_relativeName (tree.named e member).1 plain)

omit member
variable {done todo : List (List (List Char) × SourceFile)} (split : tree.sorted = done ++ e :: todo)
include split

theorem fresh : ∀ d ∈ done, pathBytes d.1 ≠ pathBytes e.1 := by
  have inTree : ∀ d ∈ done ++ e :: todo, d ∈ tree.entries := by
    intro d inside
    rw [← split] at inside
    exact tree.sorted_perm.mem_iff.mp inside
  intro d earlier same
  apply SourceTree.fresh_in_order split d earlier
  exact pathBytes_inj (mountable.component_ascii (inTree d (by simp [earlier])))
    (mountable.component_ascii (inTree e (by simp))) same

theorem slot (new : typeAt b (entryText e) = none) :
    (done.filter fun d => typeAt b (entryText d) = none).length < freeNodes b := by
  have slots := mountable.slots
  rw [← (tree.sorted_perm.filter _).length_eq, split, List.filter_append, List.length_append,
    List.filter_cons_of_pos (by simpa using new), List.length_cons] at slots
  omega

theorem room : (done.map fun d => d.2.room).sum + e.2.room ≤ arenaSize := by
  have arena := mountable.arena
  rw [← (tree.sorted_perm.map _).sum_eq, split, List.map_append, List.sum_append, List.map_cons, List.sum_cons] at arena
  omega

end Mountable

theorem trailer_packable : Packable "TRAILER!!!".toList 0 [] :=
  ⟨by decide, by decide, by decide, by simp, by simp⟩

theorem dot_packable : Packable ['.'] dirMode [] :=
  ⟨by decide, by decide, by decide, by simp, by simp⟩

section
variable {b : Tmpfs} {tree : SourceTree} (mountable : Mountable b tree) (inv : NameInv b) {archive : List UInt8}
include mountable inv

theorem mountLoop_emit {done todo : List (List (List Char) × SourceFile)} (split : tree.sorted = done ++ todo)
    {cursor : Nat} (here : archive.drop cursor = todo.flatMap emitEntry ++ writeEntry "TRAILER!!!".toList 0 [])
    {s : Tmpfs} (unpacked : Unpacked b s done) {fuel : Nat} (enough : todo.length < fuel) :
    ∃ t, mountLoop (ascii "/") archive fuel cursor s = some (0, t) ∧ Unpacked b t tree.sorted := by
  induction todo generalizing done cursor s fuel with
  | nil =>
      obtain ⟨fuel, rfl⟩ := Nat.exists_eq_succ_of_ne_zero (Nat.ne_of_gt enough)
      rw [List.append_nil] at split
      rw [split]
      refine ⟨s, ?_, unpacked⟩
      rw [List.flatMap_nil, List.nil_append, ← List.append_nil (writeEntry _ _ _)] at here
      rw [mountLoop_entry here trailer_packable, if_pos (by decide)]
  | cons e todo ih =>
      obtain ⟨fuel, rfl⟩ := Nat.exists_eq_succ_of_ne_zero (Nat.ne_of_gt (Nat.lt_of_le_of_lt (Nat.zero_le _) enough))
      have member : e ∈ tree.entries := tree.sorted_perm.mem_iff.mp (by simp [split])
      have packable := mountable.packable member
      rw [List.flatMap_cons, emitEntry_eq, List.append_assoc] at here
      obtain ⟨p, isPath, isText⟩ := mountable.exists_path member
      obtain ⟨t, mounted, more⟩ := unpacked.mount inv isPath isText (mountable.fresh split)
        (SourceTree.parent_path split isPath) (mountable.apart e member) (mountable.slot split) (mountable.room split)
      have path : normalizePath (ascii "/") (encodeUtf8 (relativeName e.1)) = p.text := by
        rw [normalizePath_relativeName (tree.named e member).1 (mountable.valid member) (mountable.fits member),
          CanonicalPath.text, isPath]
      have notTrailer : encodeUtf8 (relativeName e.1) ≠ ascii "TRAILER!!!" :=
        mountable.name_ne member (by simp) (by simp) (mountable.trailer e member)
      have notDot : encodeUtf8 (relativeName e.1) ≠ ascii "." := by
        apply mountable.name_ne member (by simp : ∀ c ∈ ['.'], c.toNat < 128) (by simp)
        intro dot
        exact ((tree.named e member).2 ['.'] (by simp [dot])).2.2.2.1 rfl
      rw [mountLoop_entry here packable, if_neg notTrailer, if_neg notDot, path, mounted]
      rw [List.append_cons] at split
      exact ih split (entry_next here packable) more (Nat.lt_of_succ_lt_succ enough)

end

theorem length_le_emit (entries : List (List (List Char) × SourceFile)) :
    entries.length ≤ (entries.flatMap emitEntry).length := by
  have positive (e : List (List Char) × SourceFile) : 0 < (emitEntry e).length := by
    rw [emitEntry_eq, writeEntry_eq, entryHeader]
    simp [ascii]
  induction entries with
  | nil => exact Nat.zero_le _
  | cons e entries ih =>
      have first := positive e
      rw [List.flatMap_cons, List.length_append, List.length_cons]
      omega

theorem fsInitNodes_dataOffset {before t : Tmpfs} (returns : fsInitNodes before = some t) : t.dataOffset = 0 := by
  refine fsInitNodes_invariant (P := fun s => s.dataOffset = 0) ?_ ?_ rfl returns
  · intro s t p type mode r _ zero created
    rw [tmpfsCreatePath_dataOffset created]
    exact zero
  · intro s i deviceId zero
    exact zero

theorem mountLoop_emitTree {b : Tmpfs} {tree : SourceTree} (tables : TmpfsInv b) (inv : NameInv b)
    (unallocated : b.dataOffset = 0) (mountable : Mountable b tree) :
    ∃ t, mountLoop (ascii "/") (emitTree tree) ((emitTree tree).length + 1) 0 b = some (0, t) ∧
      Unpacked b t tree.sorted := by
  have start : Unpacked b b [] := by
    constructor
    · exact tables
    · exact inv
    · exact fun q j path => ⟨path, rfl⟩
    · exact fun q j path => Or.inl path
    · intro e member
      cases member
    · exact Nat.le_add_right _ _
    · rw [unallocated]
      exact Nat.zero_le _
  have whole : emitTree tree = writeEntry ['.'] dirMode [] ++
      (tree.sorted.flatMap emitEntry ++ writeEntry "TRAILER!!!".toList 0 []) := List.append_assoc _ _ _
  have here : (emitTree tree).drop 0 = writeEntry ['.'] dirMode [] ++
      (tree.sorted.flatMap emitEntry ++ writeEntry "TRAILER!!!".toList 0 []) := whole
  have enough : tree.sorted.length < (emitTree tree).length := by
    have all := length_le_emit tree.sorted
    have first := le_align4 (110 + (['.'].length + 1))
    rw [whole]
    simp only [List.length_append, writeEntry_length dot_packable.fits dot_packable.ascii]
    omega
  obtain ⟨t, loop, unpacked⟩ := mountLoop_emit mountable inv (List.nil_append tree.sorted).symm
    (entry_next here dot_packable) start enough
  refine ⟨t, ?_, unpacked⟩
  rw [mountLoop_entry here dot_packable, if_neg (by decide), if_pos (by decide)]
  exact loop

/-- The tree that `emit_tree` packs is the tree that `fs_mount_initramfs` adds to the one of `fs_init`. -/
theorem initramfs_round_trip (console : Console) (tasks : TaskTable) (cwd : (taskCurrent tasks).cwd = ascii "/")
    (booted : Fs) (boots : fsInit { tasks := tasks, console := console } = some booted) (tree : SourceTree)
    (mountable : Mountable booted.tmpfs tree) :
    ∃ after, fsMountInitramfs booted (emitTree tree) = some (0, after) ∧
      (∀ e ∈ tree.entries, e.2 = .dir → typeAt after.tmpfs (entryText e) = some .dir) ∧
      (∀ e ∈ tree.entries, ∀ data, e.2 = .file data →
        typeAt after.tmpfs (entryText e) = some .file ∧ fileAt after.tmpfs (entryText e) = some data) ∧
      ∀ names : List (List UInt8), names ≠ [] → (∀ n ∈ names, ValidName n) →
        (∀ e ∈ tree.entries, entryText e ≠ render names) →
        tmpfsLookupPath after.tmpfs (render names) = tmpfsLookupPath booted.tmpfs (render names) := by
  simp only [fsInit, Option.bind_eq_bind, Option.bind_eq_some_iff] at boots
  obtain ⟨b, nodes, same⟩ := boots
  cases same
  obtain ⟨tables, inv⟩ := fsInitNodes_inv (fun _ _ => rfl) nodes
  obtain ⟨t, mounts, unpacked⟩ := mountLoop_emitTree tables inv (fsInitNodes_dataOffset nodes) mountable
  -- every entry is where it was packed, with its components as the path
  have made : ∀ e ∈ tree.entries, ∃ j, PathTo t (pathBytes e.1) j ∧ Holds t j e.2 ∧ pathBytes e.1 ≠ [] ∧
      entryText e = render (pathBytes e.1) := by
    intro e member
    obtain ⟨j, path, holds⟩ := unpacked.made e (tree.sorted_perm.mem_iff.mpr member)
    have nonempty := (tree.named e member).1
    exact ⟨j, path, holds, by simpa [pathBytes] using nonempty, (render_pathBytes nonempty).symm⟩
  refine ⟨{ tmpfs := t, tasks := tasks, console := consoleWriteN console (ascii "fs: tmpfs root mounted\n") },
    ?_, ?_, ?_, ?_⟩
  · simp only [fsMountInitramfs, cwd, mounts]
    rfl
  · intro e member isDir
    obtain ⟨j, path, holds, nonempty, text⟩ := made e member
    rw [isDir] at holds
    rw [text, typeAt_present unpacked.names nonempty (mountable.valid member) path]
    exact congrArg some holds
  · intro e member data isFile
    obtain ⟨j, path, holds, nonempty, text⟩ := made e member
    rw [isFile] at holds
    rw [text, typeAt_present unpacked.names nonempty (mountable.valid member) path,
      fileAt_present unpacked.names nonempty (mountable.valid member) path]
    exact ⟨congrArg some holds.1, holds.2⟩
  · intro names nonempty valid outside
    by_cases present : ∃ j, PathTo b names j
    · obtain ⟨j, path⟩ := present
      rw [lookup_present inv nonempty valid path,
        lookup_present unpacked.names nonempty valid (unpacked.kept names j path).1]
    · have absent : ∀ j, ¬PathTo t names j := by
        intro j path
        rcases unpacked.added names j path with before | ⟨e, member, rfl⟩
        · exact present ⟨j, before⟩
        · have inTree := tree.sorted_perm.mem_iff.mp member
          obtain ⟨-, -, -, -, text⟩ := made e inTree
          exact outside e inTree text
      rw [lookup_missing unpacked.names nonempty valid absent,
        lookup_missing inv nonempty valid fun j path => present ⟨j, path⟩]

def sampleTree : SourceTree where
  entries := [(["home".toList, "notes".toList], .file (ascii "hello\n")), (["etc".toList], .dir), (["home".toList], .dir)]
  named := by decide
  distinct := by decide
  closed := by decide

theorem initramfs_round_trip_sample :
    ∃ booted after, fsInit { tasks := bootTasks } = some booted ∧
      fsMountInitramfs booted (emitTree sampleTree) = some (0, after) ∧
      fileAt after.tmpfs (ascii "/home/notes") = some (ascii "hello\n") ∧
      tmpfsLookupPath after.tmpfs (ascii "/dev/null") = tmpfsLookupPath booted.tmpfs (ascii "/dev/null") := by
  obtain ⟨booted, boots, apart, slots⟩ := exists_of_check
    (P := fun booted : Fs =>
      (∀ e ∈ sampleTree.entries, ∀ type ∈ typeAt booted.tmpfs (entryText e), e.2 = .dir ∧ type = .dir) ∧
      (sampleTree.entries.filter fun e => typeAt booted.tmpfs (entryText e) = none).length ≤ freeNodes booted.tmpfs)
    (show (fsInit { tasks := bootTasks }).map _ = some true by decide +kernel)
  have plain : ∀ e ∈ sampleTree.entries, (relativeName e.1).all (fun c => c.toNat < 128) = true := by decide
  have mountable : Mountable booted.tmpfs sampleTree :=
    ⟨fun e member c inside => of_decide_eq_true (List.all_eq_true.mp (plain e member) c inside),
      by decide, by decide, by decide, apart, slots, by decide⟩
  obtain ⟨after, mounts, -, files, others⟩ :=
    initramfs_round_trip {} bootTasks (by decide +kernel) booted boots sampleTree mountable
  have notes := files (["home".toList, "notes".toList], .file (ascii "hello\n")) (by decide) _ rfl
  have null := others [ascii "dev", ascii "null"] (by decide) (by decide) (by decide)
  exact ⟨booted, after, boots, mounts, notes.2, null⟩

end Mgcore
