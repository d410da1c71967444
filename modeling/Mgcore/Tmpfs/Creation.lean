import Mgcore.Tmpfs.Components

/-!
# Finding what was created

`tmpfs_create_path` derives the name of a new node with `split_parent`, and `tmpfs_lookup_path` looks for the last
component. The two names are the same unless the path ends in a slash.
-/

namespace Mgcore
open Function Lib

section
variable {s : Tmpfs} {path component trailing : List UInt8} {above : List (List UInt8)} {p id : Nat}
  (inv : ChildInv s) (new : NewLeaf s path above p component trailing) (free : freeSlot s = some id)
  (isDir : (s.nodes p).type = .dir) {type : NodeType} (kind : type ≠ .none) (mode : UInt32)
include inv new free isDir kind

/-- A walk over old nodes is not disturbed by the new one. -/
theorem walkStep_insertChild {current next : Nat} {name : List UInt8} (used : InUse s current) (plain : slash ∉ name)
    (steps : walkStep s current name = some next) :
    walkStep (insertChild s id p (component ++ trailing) type mode) current name = some next := by
  have noType := (freeSlot_spec free).1
  have other : p ≠ id := dir_ne_free isDir noType
  have after := inv.insertChild new free isDir kind mode
  have old {i : Nat} (usedI : InUse s i) : i ≠ id := by
    rintro rfl
    exact usedI noType
  unfold walkStep at steps ⊢
  rw [insertChild_parentId other, if_neg (old used)]
  split_ifs at steps ⊢ with dot dots
  · exact steps
  · exact steps
  · exact steps
  · obtain ⟨usedNext, parent, rfl⟩ := childNamed_eq_some steps
    have name : ((insertChild s id p (component ++ trailing) type mode).nodes next).name = (s.nodes next).name := by
      rw [insertChild_name other, if_neg (old usedNext)]
    rw [← name]
    apply after.childNamed_eq
    · rw [InUse, insertChild_type other, if_neg (old usedNext)]
      exact usedNext
    · rw [insertChild_parentId other, if_neg (old usedNext), parent]
    · rw [name]
      exact plain

theorem walkPath_insertChild {names : List (List UInt8)} (plain : ∀ name ∈ names, slash ∉ name) {current next : Nat}
    (used : InUse s current) (walks : run (walkStep s) current names = some next) :
    run (walkStep (insertChild s id p (component ++ trailing) type mode)) current names = some next := by
  induction names generalizing current with
  | nil => exact walks
  | cons name names ih =>
      rw [run_cons, Option.bind_eq_some_iff] at walks
      obtain ⟨middle, steps, walks⟩ := walks
      have usedMiddle := walkStep_used inv.tree used steps
      rw [run_cons, walkStep_insertChild inv new free isDir kind mode used (plain name List.mem_cons_self) steps,
        Option.bind_some]
      exact ih (fun n member => plain n (List.mem_cons_of_mem name member)) usedMiddle walks

/-- The new node is found by its component alone. -/
theorem walkStep_component :
    walkStep (insertChild s id p (component ++ trailing) type mode) p component =
      if trailing = [] then some id else none := by
  have noType := (freeSlot_spec free).1
  have other : p ≠ id := dir_ne_free isDir noType
  have after := inv.insertChild new free isDir kind mode
  have name : ((insertChild s id p (component ++ trailing) type mode).nodes id).name = component ++ trailing := by
    rw [insertChild_name other, if_pos rfl]
    exact List.take_of_length_le (Nat.le_pred_of_lt new.short)
  obtain ⟨notDot, notDots, missing⟩ := new.unnamed
  rw [walkStep, if_neg notDot, if_neg notDots]
  split_ifs with bare
  · have found := @ChildInv.childNamed_eq _ after p id
      (by rw [InUse, insertChild_type other, if_pos rfl]; exact kind)
      (by rw [insertChild_parentId other, if_pos rfl])
      (by rw [name, bare, List.append_nil]; exact new.plain)
    rw [name, bare, List.append_nil] at found
    rw [bare, List.append_nil]
    exact found
  · cases found : childNamed (insertChild s id p (component ++ trailing) type mode) p component with
    | none => rfl
    | some c =>
        exfalso
        obtain ⟨used, parent, same⟩ := childNamed_eq_some found
        by_cases isNew : c = id
        · rw [isNew, name] at same
          exact bare (List.append_right_eq_self.mp same)
        · rw [InUse, insertChild_type other, if_neg isNew] at used
          rw [insertChild_parentId other, if_neg isNew] at parent
          rw [insertChild_name other, if_neg isNew] at same
          exact inv.childNamed_none missing used parent same

theorem resolvePath_insertChild (rooted : path.head? = some slash) :
    resolvePath (insertChild s id p (component ++ trailing) type mode) path =
      some (if trailing = [] then (id : Int) else -eNOENT) := by
  have after := inv.insertChild new free isDir kind mode
  have plain : ∀ name ∈ above, slash ∉ name := fun name member =>
    mem_tokens (show name ∈ tokens path by rw [new.names]; exact List.mem_append_left _ member)
  have walks : walkPath (insertChild s id p (component ++ trailing) type mode) above = some p :=
    walkPath_insertChild inv new free isDir kind mode plain inv.tree.root_used new.reaches
  rw [after.resolvePath_walk rooted, new.names, walkPath_append, walks, Option.bind_some,
    walkStep_component inv new free isDir kind mode]
  split_ifs <;> rfl

end

theorem tmpfsCreatePath_existing {s : Tmpfs} {path : List UInt8} (rooted : path.head? = some slash)
    (filled : path.length ≠ 1) {i : Int} (found : resolvePath s path = some i) (present : 0 ≤ i) (type : NodeType)
    (mode : UInt32) : tmpfsCreatePath s path type mode = some (i, s) := by
  rw [tmpfsCreatePath, if_neg (not_or.mpr ⟨not_not.mpr rooted, filled⟩), found]
  simp [present]

/-- A creation is refused with `-ENOTDIR` only below a node that is no directory. -/
theorem ChildInv.create_notDir {s t : Tmpfs} (inv : ChildInv s) {path : List UInt8} {type : NodeType} {mode : UInt32}
    (refused : tmpfsCreatePath s path type mode = some (-eNOTDIR, t)) :
    ∃ above component trailing, ∃ p : Nat, NewLeaf s path above p component trailing ∧ (s.nodes p).type ≠ .dir := by
  unfold tmpfsCreatePath at refused
  split_ifs at refused with malformed
  · exact absurd (Prod.mk.inj (Option.some.inj refused)).1 (by decide)
  simp only [Option.bind_eq_bind, Option.bind_eq_some_iff, Option.pure_def] at refused
  obtain ⟨existing, resolved, refused⟩ := refused
  split_ifs at refused with present
  · cases refused
    exact absurd present (by decide)
  simp only [Option.bind_eq_some_iff] at refused
  obtain ⟨⟨parent, leaf⟩, split, q, resolvedParent, refused⟩ := refused
  split_ifs at refused with missing notDir
  · cases refused
    rcases resolvePath_result resolvedParent with nonneg | error | error
    · exact absurd nonneg (by decide)
    · exact absurd error (by decide)
    · exact absurd error (by decide)
  · obtain ⟨p, rfl⟩ := Int.eq_ofNat_of_zero_le (Int.not_lt.mp missing)
    obtain ⟨above, component, trailing, -, new⟩ := inv.newLeaf (not_not.mp (not_or.mp malformed).1) resolved
      (Int.not_le.mp present) split resolvedParent
    exact ⟨above, component, trailing, p, new, notDir⟩
  · obtain ⟨p, rfl⟩ := Int.eq_ofNat_of_zero_le (Int.not_lt.mp missing)
    have isDir : (s.nodes p).type = .dir := by simpa using notDir
    rcases createChild_cases s p leaf type mode isDir with ⟨-, full⟩ | ⟨id, -, created⟩
    · rw [full] at refused
      exact absurd (Prod.mk.inj (Option.some.inj refused)).1 (by decide)
    · rw [created] at refused
      exact absurd (Prod.mk.inj (Option.some.inj refused)).1 (by simp [eNOTDIR])

theorem ChildInv.create_below {s t : Tmpfs} (inv : ChildInv s) {path name : List UInt8} (filled : name ≠ [])
    (plain : slash ∉ name) (short : name.length ≤ nameMax - 1) {i : Nat} (rooted : path.head? = some slash)
    (found : resolvePath s path = some (i : Int)) (isDir : (s.nodes i).type = .dir) {type : NodeType} {mode : UInt32}
    {r : Int} (returns : tmpfsCreatePath s (path ++ slash :: name) type mode = some (r, t)) : r ≠ -eNOTDIR := by
  rintro rfl
  obtain ⟨above, component, trailing, p, new, notDir⟩ := inv.create_notDir returns
  have names : tokens (path ++ slash :: name) = tokens path ++ [name] := by
    unfold tokens
    rw [components_append_slash, List.flatMap_append, components_plain filled plain, List.flatMap_cons,
      cut_short filled short]
    rfl
  -- the names above the child are those of the directory
  obtain ⟨rfl, -⟩ := List.append_inj' (new.names.symm.trans names) rfl
  rw [inv.resolvePath_walk rooted, new.reaches, Option.some.injEq] at found
  cases Int.ofNat_inj.mp found
  exact notDir isDir

structure FoundAgain (t : Tmpfs) (path : List UInt8) (type : NodeType) (mode : UInt32) (id : Int) : Prop where
  lookup : tmpfsLookupPath t path = some id
  again : tmpfsCreatePath t path type mode = some (id, t)

/-- What was created is found again exactly when the path does not end in a slash or was there before. -/
theorem create_found_again_iff {s t : Tmpfs} (reached : TmpfsReachable s) {path : List UInt8} {type : NodeType}
    (kind : type ≠ .none) {mode : UInt32} {id : Int} (returns : tmpfsCreatePath s path type mode = some (id, t))
    (created : 0 ≤ id) :
    FoundAgain t path type mode id ↔
      path.getLast? ≠ some slash ∨ ∃ existing, 0 ≤ existing ∧ tmpfsLookupPath s path = some existing := by
  have inv := ChildInv.of_reachable reached
  obtain ⟨rooted, filled⟩ := (tmpfsCreatePath_rooted returns).resolve_left fun failed => by omega
  have again (found : resolvePath t path = some id) : FoundAgain t path type mode id :=
    ⟨found, tmpfsCreatePath_existing rooted filled found created type mode⟩
  rcases (inv.create kind returns).2 with ⟨rfl, negative | found⟩ |
    ⟨above, component, trailing, p, i, new, isDir, free, rfl, rfl⟩
  · omega
  · exact ⟨fun _ => Or.inr ⟨id, created, found⟩, fun _ => again found⟩
  · have found := resolvePath_insertChild inv new free isDir kind mode rooted
    have lost : ¬∃ existing, 0 ≤ existing ∧ tmpfsLookupPath s path = some existing := by
      rintro ⟨existing, present, lookup⟩
      rw [tmpfsLookupPath, new.unresolved inv rooted, Option.some.injEq] at lookup
      exact absurd present (Int.not_le.mpr (lookup ▸ by decide))
    rw [or_iff_left lost, ne_eq, new.ends, not_not]
    constructor
    · intro both
      by_contra some
      rw [if_neg some] at found
      have same := found.symm.trans both.lookup
      rw [Option.some.injEq] at same
      exact absurd created (Int.not_le.mpr (same ▸ by decide))
    · intro bare
      rw [if_pos bare] at found
      exact again found

theorem create_found_again_iff_sample :
    ∃ t, tmpfsCreatePath (tmpfsInit {}) (ascii "/a") .dir 0o755 = some (1, t) ∧
      FoundAgain t (ascii "/a") .dir 0o755 1 := by
  have one : (tmpfsCreatePath (tmpfsInit {}) (ascii "/a") .dir 0o755).map Prod.fst = some 1 := by decide +kernel
  obtain ⟨⟨id, t⟩, returns, rfl⟩ := Option.map_eq_some_iff.mp one
  refine ⟨t, returns, ?_⟩
  exact (create_found_again_iff (.init {}) (by decide) returns (by decide)).mpr (Or.inl (by decide))

/-- The node made for `/a/` is named `a/`, and `/a/` is looked for under the name `a`. -/
theorem trailing_slash_not_found :
    ∃ t, TmpfsReachable (tmpfsInit {}) ∧ tmpfsCreatePath (tmpfsInit {}) (ascii "/a/") .dir 0o755 = some (1, t) ∧
      ¬FoundAgain t (ascii "/a/") .dir 0o755 1 := by
  have one : (tmpfsCreatePath (tmpfsInit {}) (ascii "/a/") .dir 0o755).map Prod.fst = some 1 := by decide +kernel
  have lost : (tmpfsCreatePath (tmpfsInit {}) (ascii "/a/") .dir 0o755).bind
      (fun result => tmpfsLookupPath result.2 (ascii "/a/")) = some (-eNOENT) := by decide +kernel
  obtain ⟨⟨id, t⟩, returns, rfl⟩ := Option.map_eq_some_iff.mp one
  rw [returns, Option.bind_some] at lost
  refine ⟨t, .init {}, returns, fun found => ?_⟩
  exact absurd (lost.symm.trans found.lookup) (by decide)

end Mgcore
