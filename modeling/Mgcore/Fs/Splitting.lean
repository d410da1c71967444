import Mgcore.Fs.Kernel

/-!
# Splitting a path

`split_parent` copies the part before the last component into a buffer of 256 bytes and the rest, with the slashes at
the end, into one of 32. The path it is given has at most 255 bytes, so the first copy fits. The second one fits only if
the last component is short, which nothing checks.
-/

namespace Mgcore
open Lib

/-- `split_parent` on its two buffers. -/
def splitParentInto (parent leaf : Buffer UInt8) (path : List UInt8) : Buffer UInt8 × Buffer UInt8 :=
  let last := lastComponent path
  if last = 0 then (kstrcpy parent [slash], kstrcpy leaf (if path.head? = some slash then path.drop 1 else path))
  else ((parent.write 0 (path.take last)).put last 0, kstrcpy leaf (path.drop last))

/-- `tmpfs_create_path` comes to the call of `split_parent`. -/
structure SplitReached (s : Tmpfs) (path : List UInt8) : Prop where
  rooted : path.head? = some slash
  notRoot : path.length ≠ 1
  missing : ∃ e, resolvePath s path = some e ∧ e < 0

def SplitFits (s : Tmpfs) (path : List UInt8) : Prop :=
  SplitReached s path → ∀ parent leaf : Nat → UInt8,
    (splitParentInto ⟨parent, []⟩ ⟨leaf, []⟩ path).1.Within 256 ∧ (splitParentInto ⟨parent, []⟩ ⟨leaf, []⟩ path).2.Within 32

/-- The states in which the loop of `fs_mount_initramfs` comes to an entry. -/
inductive MountVisits (cwd archive : List UInt8) (s : Tmpfs) : Nat → Tmpfs → Prop
  | start : MountVisits cwd archive s 0 s
  | skip {cursor next : Nat} {u : Tmpfs} (visited : MountVisits cwd archive s cursor u)
      (round : entryStep cwd archive cursor = some (.skip next)) : MountVisits cwd archive s next u
  | mount {cursor next : Nat} {u v : Tmpfs} {path data : List UInt8} {mode : UInt32}
      (visited : MountVisits cwd archive s cursor u) (round : entryStep cwd archive cursor = some (.mount path mode data next))
      (made : mountNode u path mode data = some v) : MountVisits cwd archive s next v

/-- A call in the state `s` hands `path` to `tmpfs_create_path` when the nodes are `u`. -/
inductive PassedOn (s : Fs) : Tmpfs → List UInt8 → Prop
  | openPath (path : List UInt8) {flags : UInt32} (creates : flags &&& oCREAT ≠ 0)
      (missing : ∃ e, tmpfsLookupPath s.tmpfs (s.resolve path) = some e ∧ e < 0) : PassedOn s s.tmpfs (s.resolve path)
  | mkdir (path : List UInt8) : PassedOn s s.tmpfs (s.resolve path)
  | mount {archive path data : List UInt8} {cursor next : Nat} {u : Tmpfs} {mode : UInt32}
      (visited : MountVisits (taskCurrent s.tasks).cwd archive s.tmpfs cursor u)
      (round : entryStep (taskCurrent s.tasks).cwd archive cursor = some (.mount path mode data next)) : PassedOn s u path

/-- The length of the last component and of the slashes behind it. -/
def leafBytes (path : List UInt8) : Nat :=
  ((path.reverse.dropWhile (· = slash)).takeWhile (· ≠ slash)).length + (path.reverse.takeWhile (· = slash)).length

/-! ## The stores -/

theorem lastComponent_add_leafBytes (path : List UInt8) : lastComponent path + leafBytes path = path.length := by
  have outer := congrArg List.length (List.takeWhile_append_dropWhile (p := (· = slash)) (l := path.reverse))
  have inner := congrArg List.length
    (List.takeWhile_append_dropWhile (p := (· ≠ slash)) (l := path.reverse.dropWhile (· = slash)))
  rw [List.length_append] at outer inner
  rw [List.length_reverse] at outer
  unfold lastComponent leafBytes
  omega

theorem splitParentInto_eq (parent leaf : Buffer UInt8) (path : List UInt8) :
    splitParentInto parent leaf path = (kstrcpy parent (splitText path).1, kstrcpy leaf (splitText path).2) := by
  have total := lastComponent_add_leafBytes path
  rw [splitParentInto, splitText]
  split_ifs
  · rfl
  · rfl
  · have size : (path.take (lastComponent path)).length = lastComponent path :=
      List.length_take_of_le (by omega)
    have terminated : kstrcpy parent (path.take (lastComponent path)) =
        (parent.write 0 (path.take (lastComponent path))).put (lastComponent path) 0 := by
      rw [kstrcpy, Buffer.write_append, size, Nat.zero_add]
      rfl
    rw [terminated]

theorem splitParentInto_within (parent leaf : Nat → UInt8) (path : List UInt8) :
    ((splitParentInto ⟨parent, []⟩ ⟨leaf, []⟩ path).1.Within 256 ∧
      (splitParentInto ⟨parent, []⟩ ⟨leaf, []⟩ path).2.Within 32) ↔
      (splitText path).1.length < 256 ∧ (splitText path).2.length < 32 := by
  rw [splitParentInto_eq]
  exact and_congr (kstrcpy_within (Buffer.within_empty parent 256)) (kstrcpy_within (Buffer.within_empty leaf 32))

/-- Where a store would leave one of the buffers the call has no result. -/
theorem tmpfsCreatePath_overflow {s : Tmpfs} {path : List UInt8} (unfit : ¬SplitFits s path) (type : NodeType)
    (mode : UInt32) : tmpfsCreatePath s path type mode = none := by
  unfold SplitFits at unfit
  push Not at unfit
  obtain ⟨reached, parent, leaf, beyond⟩ := unfit
  have lengths := (splitParentInto_within parent leaf path).not.mp fun fits => beyond fits.1 fits.2
  obtain ⟨e, resolved, negative⟩ := reached.missing
  have none : splitParent path = none := by
    rw [splitParent, copyInto, copyInto]
    unfold pathMax nameMax
    split_ifs with fits short
    · exact absurd ⟨fits, short⟩ lengths
    · rfl
    · rfl
    · rfl
  have goes : ¬(path.head? ≠ some slash ∨ path.length = 1) :=
    not_or.mpr ⟨not_not.mpr reached.rooted, reached.notRoot⟩
  rw [tmpfsCreatePath, if_neg goes, resolved]
  simp only [Option.bind_eq_bind, Option.bind_some, if_neg (Int.not_le.mpr negative), none, Option.bind_none]

/-! ## The callers -/

theorem Canonical.lastComponent_ne_zero {path : List UInt8} (canonical : Canonical path) (notRoot : path.length ≠ 1) :
    lastComponent path ≠ 0 := by
  intro bare
  obtain ⟨component, trailing, -, whole, plain, slashes⟩ := drop_lastComponent path
  obtain ⟨rooted, single⟩ := canonical
  rw [bare, List.take_zero, List.nil_append] at whole
  cases component with
  | cons c component =>
      rw [whole] at rooted
      cases Option.some.inj rooted
      exact plain List.mem_cons_self
  | nil =>
      rw [List.nil_append] at whole
      rw [whole] at rooted notRoot single
      obtain ⟨rest, rfl⟩ := List.head?_eq_some_iff.mp rooted
      cases rest with
      | nil => exact notRoot rfl
      | cons d rest =>
          have second : d = slash := slashes d (List.mem_cons_of_mem _ List.mem_cons_self)
          exact (List.isChain_cons_cons.mp single).1 ⟨rfl, second⟩

theorem MountVisits.reached {cwd archive : List UInt8} {s u : Tmpfs} {cursor : Nat} (start : TmpfsReachable s)
    (visited : MountVisits cwd archive s cursor u) : TmpfsReachable u := by
  induction visited with
  | start => exact start
  | skip _ _ ih => exact ih
  | mount _ _ made ih => exact ih.mountNode made

theorem PassedOn.spec {s : Fs} (inv : KernelInv s) {u : Tmpfs} {path : List UInt8} (passed : PassedOn s u path) :
    TmpfsReachable u ∧ Canonical path ∧ path.length < pathMax := by
  cases passed with
  | openPath path _ _ => exact ⟨inv.nodes, inv.resolve path⟩
  | mkdir path => exact ⟨inv.nodes, inv.resolve path⟩
  | mount visited round =>
      refine ⟨visited.reached inv.nodes, ?_⟩
      obtain same | same | ⟨name, -, -, same | same⟩ := entryStep_cases round
      · cases same
      · cases same
      · cases same
      · cases same
        exact inv.resolve name

/-- The stores of `split_parent` fit exactly when it is not reached, because the path is the root or leads somewhere, or
the last component with the slashes behind it has at most 31 bytes. -/
theorem split_fits_iff (k : Kernel) (reachable : Reachable k) (u : Tmpfs) (path : List UInt8)
    (passed : PassedOn k.fs u path) :
    SplitFits u path ↔
      path.length = 1 ∨ (∃ i : Nat, tmpfsLookupPath u path = some (i : Int)) ∨ leafBytes path ≤ 31 := by
  obtain ⟨nodes, canonical, bounded⟩ := passed.spec (KernelInv.of_reachable reachable)
  have total := lastComponent_add_leafBytes path
  have parts (notRoot : path.length ≠ 1) : (splitText path).1.length < 256 ∧
      ((splitText path).2.length < 32 ↔ leafBytes path ≤ 31) := by
    rw [splitText, if_neg (canonical.lastComponent_ne_zero notRoot), List.length_take, List.length_drop]
    unfold pathMax at bounded
    omega
  constructor
  · intro fits
    by_cases root : path.length = 1
    · exact Or.inl root
    obtain ⟨r, resolved, -⟩ := (ChildInv.of_reachable nodes).tree.resolvePath_resolved path
    right
    rcases lt_or_ge r 0 with negative | nonneg
    · have stores := fits ⟨canonical.rooted, root, r, resolved, negative⟩ (fun _ => 0) (fun _ => 0)
      have lengths := (splitParentInto_within _ _ path).mp stores
      exact Or.inr ((parts root).2.mp lengths.2)
    · obtain ⟨i, rfl⟩ := Int.eq_ofNat_of_zero_le nonneg
      exact Or.inl ⟨i, resolved⟩
  · intro condition reached parent leaf
    apply (splitParentInto_within parent leaf path).mpr
    obtain ⟨e, resolved, negative⟩ := reached.missing
    rcases condition with root | ⟨i, found⟩ | short
    · exact absurd root reached.notRoot
    · cases resolved.symm.trans found
      omega
    · exact ⟨(parts reached.notRoot).1, (parts reached.notRoot).2.mpr short⟩

theorem split_fits_iff_sample :
    ∃ k, Reachable k ∧ PassedOn k.fs k.fs.tmpfs (k.fs.resolve (ascii "/tmp/x")) ∧
      SplitFits k.fs.tmpfs (k.fs.resolve (ascii "/tmp/x")) := by
  obtain ⟨k, runs, short⟩ := exists_of_check (P := fun k : Kernel => leafBytes (k.fs.resolve (ascii "/tmp/x")) ≤ 31)
    (show (bootRun []).map _ = some true by decide +kernel)
  have reachable := Reachable.of_bootRun runs
  have passed : PassedOn k.fs k.fs.tmpfs (k.fs.resolve (ascii "/tmp/x")) := .mkdir (ascii "/tmp/x")
  exact ⟨k, reachable, passed, (split_fits_iff k reachable _ _ passed).mpr (Or.inr (Or.inr short))⟩

def longName : List UInt8 := slash :: List.replicate 32 97

/-- `mkdir` of a name with 32 bytes stores its terminator behind the end of `leaf`. -/
theorem long_name_leaves_buffer :
    ∃ k, Reachable k ∧ PassedOn k.fs k.fs.tmpfs (k.fs.resolve longName) ∧
      ¬SplitFits k.fs.tmpfs (k.fs.resolve longName) := by
  obtain ⟨k, runs, missing, path⟩ := exists_of_check
    (P := fun k : Kernel => resolvePath k.fs.tmpfs (k.fs.resolve longName) = some (-eNOENT) ∧
      k.fs.resolve longName = longName)
    (show (bootRun []).map _ = some true by decide +kernel)
  refine ⟨k, Reachable.of_bootRun runs, .mkdir longName, fun fits => ?_⟩
  rw [path] at fits missing
  have stores := fits ⟨rfl, by decide, _, missing, by decide⟩ (fun _ => 0) (fun _ => 0)
  have lengths := (splitParentInto_within _ _ longName).mp stores
  exact absurd lengths.2 (by decide)

end Mgcore
