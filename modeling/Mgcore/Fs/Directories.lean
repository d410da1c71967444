import Mgcore.Fs.Boot
import Mgcore.Tmpfs.Creation

/-!
# Making directories

`fs_mkdir_path` leaves the decision to `tmpfs_create_path`, for which a node that is already there is a success
whatever its type. What it makes itself is a directory, and is found again unless `normalize_path` cut the path
behind a slash.
-/

namespace Mgcore
open Function

/-! ## Reachable tables -/

theorem fsBoot_reachable {console : Console} {s : Fs} (boots : fsBoot console = some s) : TmpfsReachable s.tmpfs := by
  refine fsInitNodes_invariant (P := TmpfsReachable) ?_ ?_ (.init {}) (Booted.of_fsBoot boots).nodes
  · intro s t p type mode r kind reached created
    have steps : tmpfsStep s (.create p.text type mode) = some t := congrArg (Option.map Prod.snd) created
    exact reached.step (.create p.text type mode) kind steps
  · intro s i deviceId reached
    exact reached.device i deviceId

theorem TmpfsReachable.fsStep {s t : Fs} {op : Fin maxTasks × FsCall} (reached : TmpfsReachable s.tmpfs)
    (steps : fsStep s op = some t) : TmpfsReachable t.tmpfs := by
  obtain ⟨⟨r, u⟩, returns, rfl⟩ := Option.map_eq_some_iff.mp steps
  have effect := fsCall_tmpfs returns
  change TmpfsReachable u.tmpfs
  generalize u.tmpfs = table at effect ⊢
  cases effect with
  | same => exact reached
  | @created _ path type mode r kind _ created =>
      have steps : tmpfsStep s.tmpfs (.create path type mode) = some table := congrArg (Option.map Prod.snd) created
      exact reached.step (.create path type mode) kind steps
  | @removed _ path wantDir r removed =>
      have steps : tmpfsStep s.tmpfs (.remove path wantDir) = some table := congrArg (Option.map Prod.snd) removed
      exact reached.step (.remove path wantDir) trivial steps
  | @written fd buffer _ nodeId offset =>
      exact reached.step (.write nodeId buffer offset) trivial rfl

/-! ## The call -/

def Fs.resolve (s : Fs) (path : List UInt8) : List UInt8 := normalizePath (taskCurrent s.tasks).cwd path

/-- `path` denotes a directory: it can be entered, and no child of it is refused for want of one. -/
structure IsDirectory (s : Fs) (path : List UInt8) : Prop where
  resolves : ∃ i : Nat, tmpfsLookupPath s.tmpfs (s.resolve path) = some (i : Int) ∧ (s.tmpfs.nodes i).type = .dir
  enters : ∃ t, fsChdirPath s path = some (0, t)
  children : ∀ name type mode r t, name ≠ [] → slash ∉ name → name.length ≤ 31 →
    tmpfsCreatePath s.tmpfs (s.resolve path ++ slash :: name) type mode = some (r, t) → r ≠ -eNOTDIR

theorem isDirectory_of_resolves {s : Fs} (inv : ChildInv s.tmpfs) {path : List UInt8} {i : Nat}
    (rooted : (s.resolve path).head? = some slash) (found : tmpfsLookupPath s.tmpfs (s.resolve path) = some (i : Int))
    (isDir : (s.tmpfs.nodes i).type = .dir) : IsDirectory s path := by
  refine ⟨⟨i, found, isDir⟩, ?_, ?_⟩
  · have used : InUse s.tmpfs i := by simp [InUse, isDir]
    have nonneg : ¬(i : Int) < 0 := Int.not_lt.mpr (Int.natCast_nonneg i)
    have lookup : tmpfsLookupPath s.tmpfs (normalizePath (taskCurrent s.tasks).cwd path) = some (i : Int) := found
    simp only [fsChdirPath, lookup, Option.bind_eq_bind, Option.bind_some, if_neg nonneg,
      tmpfsGetNode_natCast (inv.tree.bounded i used) used, isDir, ne_eq, not_true_eq_false, if_false]
    exact ⟨_, rfl⟩
  · intro name type mode r t filled plain short returns
    exact inv.create_below filled plain short rooted found isDir returns

/-- A successful `mkdir` yields a directory exactly when the path led to nothing else before and, where it led nowhere,
does not end in a slash once it is normalized. -/
theorem mkdir_makes_directory_iff {s t : Fs} (reached : TmpfsReachable s.tmpfs) {path : List UInt8} {mode : UInt32}
    {r : Int} (returns : fsMkdirPath s path mode = some (r, t)) (succeeded : 0 ≤ r) :
    IsDirectory t path ↔
      (∀ i : Nat, tmpfsLookupPath s.tmpfs (s.resolve path) = some (i : Int) → (s.tmpfs.nodes i).type = .dir) ∧
      ((∃ i : Nat, tmpfsLookupPath s.tmpfs (s.resolve path) = some (i : Int)) ∨ (s.resolve path).getLast? ≠ some slash) := by
  have inv := ChildInv.of_reachable reached
  obtain ⟨⟨r', u⟩, created, returns⟩ := Option.bind_eq_some_iff.mp returns
  cases returns
  change tmpfsCreatePath s.tmpfs (s.resolve path) .dir mode = some (r, u) at created
  obtain ⟨rooted, -⟩ := (tmpfsCreatePath_rooted created).resolve_left fun failed => by omega
  have after := inv.create (by simp) created
  have same : ({ s with tmpfs := u } : Fs).resolve path = s.resolve path := rfl
  rcases after.2 with ⟨rfl, negative | found⟩ | ⟨above, component, trailing, p, id, new, isDir, free, rfl, rfl⟩
  · omega
  · obtain ⟨i, rfl⟩ := Int.eq_ofNat_of_zero_le succeeded
    have found : tmpfsLookupPath s.tmpfs (s.resolve path) = some (i : Int) := found
    constructor
    · intro directory
      obtain ⟨j, resolves, kind⟩ := directory.resolves
      refine ⟨fun k resolves' => ?_, Or.inl ⟨i, found⟩⟩
      cases Int.ofNat_inj.mp (Option.some.inj (resolves.symm.trans resolves'))
      exact kind
    · intro condition
      exact isDirectory_of_resolves inv rooted found (condition.1 i found)
  · have lost (i : Nat) : tmpfsLookupPath s.tmpfs (s.resolve path) ≠ some (i : Int) := by
      intro lookup
      rw [tmpfsLookupPath, new.unresolved inv rooted, Option.some.injEq] at lookup
      exact absurd (Int.natCast_nonneg i) (Int.not_le.mpr (lookup ▸ by decide))
    have found := resolvePath_insertChild inv new free isDir (show NodeType.dir ≠ .none by simp) mode rooted
    have other : p ≠ id := dir_ne_free isDir (freeSlot_spec free).1
    rw [or_iff_right fun existing => lost existing.choose existing.choose_spec, ne_eq, new.ends, not_not]
    constructor
    · intro directory
      refine ⟨fun i lookup => absurd lookup (lost i), ?_⟩
      by_contra some
      obtain ⟨j, resolves, -⟩ := directory.resolves
      rw [if_neg some] at found
      have clash := found.symm.trans resolves
      rw [Option.some.injEq] at clash
      exact absurd (Int.natCast_nonneg j) (Int.not_le.mpr (clash ▸ by decide))
    · rintro ⟨-, bare⟩
      rw [if_pos bare] at found
      exact isDirectory_of_resolves after.1 rooted found (by rw [insertChild_type other, if_pos rfl])

-- The state after `fs_init`, and what a `mkdir` there returns and leaves.
def mkdirAfterBoot (path : List UInt8) : Option (Fs × Int × Fs) :=
  (fsBoot {}).bind fun s => (fsMkdirPath s path 0o755).map fun made => (s, made)

theorem mkdirAfterBoot_eq {path : List UInt8} {s t : Fs} {r : Int} (made : mkdirAfterBoot path = some (s, r, t)) :
    fsBoot {} = some s ∧ fsMkdirPath s path 0o755 = some (r, t) := by
  obtain ⟨s', boots, made⟩ := Option.bind_eq_some_iff.mp made
  obtain ⟨result, returns, same⟩ := Option.map_eq_some_iff.mp made
  cases same
  exact ⟨boots, returns⟩

theorem mkdir_makes_directory_iff_sample :
    ∃ s t r, TmpfsReachable s.tmpfs ∧ fsMkdirPath s (ascii "/tmp/x") 0o755 = some (r, t) ∧ 0 ≤ r ∧
      IsDirectory t (ascii "/tmp/x") := by
  obtain ⟨⟨s, r, t⟩, made, succeeded, missing, ends⟩ := Lib.exists_of_check
    (P := fun made : Fs × Int × Fs => 0 ≤ made.2.1 ∧
      tmpfsLookupPath made.1.tmpfs (made.1.resolve (ascii "/tmp/x")) = some (-eNOENT) ∧
      (made.1.resolve (ascii "/tmp/x")).getLast? ≠ some slash)
    (show (mkdirAfterBoot (ascii "/tmp/x")).map _ = some true by decide +kernel)
  obtain ⟨boots, returns⟩ := mkdirAfterBoot_eq made
  have reached := fsBoot_reachable boots
  refine ⟨s, t, r, reached, returns, succeeded, (mkdir_makes_directory_iff reached returns succeeded).mpr ⟨?_, Or.inr ends⟩⟩
  intro i found
  exact absurd (Int.natCast_nonneg i) (Int.not_le.mpr (Option.some.inj (missing.symm.trans found) ▸ by decide))

/-- `mkdir` of a device succeeds. -/
theorem mkdir_of_device :
    ∃ s t r, TmpfsReachable s.tmpfs ∧ fsMkdirPath s (ascii "/dev/null") 0o755 = some (r, t) ∧ 0 ≤ r ∧
      ¬IsDirectory t (ascii "/dev/null") := by
  obtain ⟨⟨s, r, t⟩, made, succeeded, found, device⟩ := Lib.exists_of_check
    (P := fun made : Fs × Int × Fs => 0 ≤ made.2.1 ∧
      tmpfsLookupPath made.2.2.tmpfs (made.2.2.resolve (ascii "/dev/null")) = some ((7 : Nat) : Int) ∧
      (made.2.2.tmpfs.nodes 7).type = .chardev)
    (show (mkdirAfterBoot (ascii "/dev/null")).map _ = some true by decide +kernel)
  obtain ⟨boots, returns⟩ := mkdirAfterBoot_eq made
  refine ⟨s, t, r, fsBoot_reachable boots, returns, succeeded, fun directory => ?_⟩
  obtain ⟨i, resolves, isDir⟩ := directory.resolves
  cases Int.ofNat_inj.mp (Option.some.inj (found.symm.trans resolves))
  rw [device] at isDir
  cases isDir

end Mgcore
