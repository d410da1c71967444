import Mgcore.Fs.Identity
import Mgcore.Fs.Kernel

/-!
# Calls that fail

`fs_open_path` takes a node, an open file and a descriptor one after the other. When one of the last two is missing, the
open file is given back but a file that was created for the call stays. The error of a lookup comes back from an open
and from `chdir`; `stat`, `unlink` and `rmdir` answer with `EINVAL` instead.
-/

namespace Mgcore
open Function Lib

/-! ## Opening -/

structure OpenUnchanged (s t : Fs) : Prop where
  nodes : t.tmpfs.nodes = s.tmpfs.nodes
  used : ∀ f, (t.openFiles f).used = (s.openFiles f).used
  fds : ∀ task, (t.tasks.tasks task).fds = (s.tasks.tasks task).fds

def FailedOpenUnchanged (s : Fs) (path : List UInt8) (flags mode : UInt32) : Prop :=
  ∀ r t, fsOpenPath s path flags mode = some (r, t) → r < 0 → OpenUnchanged s t

/-- The open creates a file and then finds the table of open files or of descriptors full. -/
structure CreatesInVain (s : Fs) (path : List UInt8) (flags : UInt32) : Prop where
  creates : flags &&& oCREAT ≠ 0
  would : ∃ i, WouldCreate s.tmpfs (s.resolve path) i
  full : freeFile s = none ∨ freeFd (taskCurrent s.tasks) = none

theorem fsOpenPath_opens {s : Fs} {path : List UInt8} {flags mode : UInt32} {nodeId : Int} {u : Tmpfs} {f fd : Nat}
    (opens : openNode s.tmpfs (s.resolve path) flags mode = some (nodeId, u)) (found : 0 ≤ nodeId)
    (free : freeFile s = some f) (slot : freeFd (taskCurrent s.tasks) = some fd) :
    ∃ t, fsOpenPath s path flags mode = some ((fd : Int), t) := by
  have opens : openNode s.tmpfs (normalizePath (taskCurrent s.tasks).cwd path) flags mode = some (nodeId, u) := opens
  have free : freeFile { s with tmpfs := u } = some f := free
  have nonneg : ¬(f : Int) < 0 := Int.not_lt.mpr (Int.natCast_nonneg f)
  simp only [fsOpenPath, opens, Option.bind_eq_bind, Option.bind_some, if_neg (Int.not_lt.mpr found), allocOpenFile, free,
    nonneg, if_false, attachFd, Fs.setFile_tasks, slot, Option.pure_def]
  exact ⟨_, rfl⟩

/-- A node table that the open changed has a new file in it. -/
theorem openNode_created {s u : Tmpfs} {resolved : List UInt8} {flags mode : UInt32} {nodeId : Int}
    (opens : openNode s resolved flags mode = some (nodeId, u)) :
    u = s ∨ flags &&& oCREAT ≠ 0 ∧ 0 ≤ nodeId ∧ ∃ i, WouldCreate s resolved i := by
  rcases openNode_cases opens with ⟨same, -⟩ | ⟨creates, created⟩
  · exact Or.inl same
  · rcases tmpfsCreatePath_rooted created with ⟨same, -⟩ | wellFormed
    · exact Or.inl same
    · rcases tmpfsCreatePath_cases created with ⟨same, -⟩ |
        ⟨e, parent, leaf, p, id, absent, negative, split, resolvedParent, isDir, free, rfl, -⟩
      · exact Or.inl same
      · exact Or.inr ⟨creates, Int.natCast_nonneg id, id, wellFormed, ⟨e, absent, negative⟩,
          ⟨parent, leaf, p, split, resolvedParent, isDir⟩, free⟩

theorem CreatesInVain.file_left {s : Fs} {path : List UInt8} {flags : UInt32} (vain : CreatesInVain s path flags)
    (mode : UInt32) : ∃ r t, fsOpenPath s path flags mode = some (r, t) ∧ r < 0 ∧ t.tmpfs.nodes ≠ s.tmpfs.nodes := by
  obtain ⟨creates, ⟨i, would⟩, full⟩ := vain
  obtain ⟨e, absent, negative⟩ := would.absent
  obtain ⟨nodeId, u, created, isFile⟩ := would.create .file mode
  have opens : openNode s.tmpfs (s.resolve path) flags mode = some (nodeId, u) := by
    rw [openNode, tmpfsLookupPath, absent, Option.bind_eq_bind, Option.bind_some, if_pos ⟨negative, creates⟩]
    exact created
  obtain ⟨r, t, returns, table⟩ := fsOpenPath_returns opens
  refine ⟨r, t, returns, ?_, fun same => ?_⟩
  · obtain ⟨_, _, -, ⟨failed, -⟩ | ⟨failed, -⟩ | ⟨f, fd, -, free, slot, -⟩⟩ := fsOpenPath_cases returns
    · exact failed
    · exact failed
    · rcases full with none | none
      · rw [none] at free
        cases free
      · rw [none] at slot
        cases slot
  · rw [← table, same, (freeSlot_spec would.slot).1] at isFile
    cases isFile

/-- A failed open leaves the tables as they are exactly when it does not create a file in vain. -/
theorem failed_open_unchanged_iff (s : Fs) (path : List UInt8) (flags mode : UInt32) :
    FailedOpenUnchanged s path flags mode ↔ ¬CreatesInVain s path flags := by
  constructor
  · intro unchanged vain
    obtain ⟨r, t, returns, failed, changed⟩ := vain.file_left mode
    exact changed (unchanged r t returns failed).nodes
  · intro free r t returns failed
    obtain ⟨nodeId, u, opens, outcome⟩ := fsOpenPath_cases returns
    have same : u = s.tmpfs := by
      rcases openNode_created opens with same | ⟨creates, found, would⟩
      · exact same
      · -- both tables have room, so the open would have succeeded
        obtain ⟨room, slot⟩ := not_or.mp fun full => free ⟨creates, would, full⟩
        obtain ⟨f, room⟩ := Option.ne_none_iff_exists'.mp room
        obtain ⟨fd, slot⟩ := Option.ne_none_iff_exists'.mp slot
        obtain ⟨t', succeeds⟩ := fsOpenPath_opens opens found room slot
        cases returns.symm.trans succeeds
        omega
    rcases outcome with ⟨-, f, unused, rfl⟩ | ⟨-, rfl⟩ | ⟨f, fd, -, -, -, rfl, -⟩
    · refine ⟨by rw [← same]; rfl, fun g => ?_, fun _ => rfl⟩
      by_cases here : g = f
      · subst here
        rw [Fs.setFile_openFiles, update_self, unused]
      · rw [Fs.setFile_openFiles, update_of_ne here]
    · exact ⟨by rw [← same], fun _ => rfl, fun _ => rfl⟩
    · omega

-- Every descriptor of the task is on the null device.
def descriptorsTaken : List KernelOp := List.replicate 29 (.call (.openPath (ascii "/dev/null") 0 0))

/-- The open fails for want of a descriptor and leaves the new file behind. -/
theorem failed_open_leaves_file : ∃ k, Reachable k ∧ ¬FailedOpenUnchanged k.fs (ascii "/a") oCREAT 0o644 := by
  obtain ⟨k, runs, opens, unused⟩ := exists_of_check
    (P := fun k : Kernel => (fsOpenPath k.fs (ascii "/a") oCREAT 0o644).map
        (fun opened => (opened.1, (opened.2.tmpfs.nodes 9).type)) = some (-eMFILE, .file) ∧
      (k.fs.tmpfs.nodes 9).type = .none)
    (show (bootRun descriptorsTaken).map _ = some true by decide +kernel)
  obtain ⟨⟨r, t⟩, returns, values⟩ := Option.map_eq_some_iff.mp opens
  rw [Prod.mk.injEq] at values
  obtain ⟨rfl, isFile⟩ := values
  refine ⟨k, Reachable.of_bootRun runs, fun unchanged => ?_⟩
  have same := (unchanged _ t returns (by decide)).nodes
  rw [same, unused] at isFile
  cases isFile

/-! ## Lookups -/

/-- The calls on `path` answer with `e` and leave the state unchanged. -/
structure ReportedAlike (s : Fs) (path : List UInt8) (e : Int) : Prop where
  openPath : ∀ flags mode, flags &&& oCREAT = 0 → fsOpenPath s path flags mode = some (e, s)
  statPath : fsStatPath s path true = some (e, none)
  unlink : fsUnlinkPath s path = some (e, s)
  rmdir : fsRmdirPath s path = some (e, s)
  chdir : fsChdirPath s path = some (e, s)

/-- What the calls answer in fact. -/
structure LookupFailure (s : Fs) (path : List UInt8) : Prop where
  openPath : ∀ flags mode, flags &&& oCREAT = 0 → fsOpenPath s path flags mode = some (-eNOENT, s)
  statPath : ∀ hasBuffer, fsStatPath s path hasBuffer = some (-eINVAL, none)
  unlink : fsUnlinkPath s path = some (-eINVAL, s)
  rmdir : fsRmdirPath s path = some (-eINVAL, s)
  chdir : fsChdirPath s path = some (-eNOENT, s)

theorem lookupFailure {s : Fs} {path : List UInt8} (failed : tmpfsLookupPath s.tmpfs (s.resolve path) = some (-eNOENT)) :
    LookupFailure s path := by
  have failed : tmpfsLookupPath s.tmpfs (normalizePath (taskCurrent s.tasks).cwd path) = some (-eNOENT) := failed
  have negative : -eNOENT < 0 := by decide
  have removal (wantDir : Bool) : fsRemovePath s path wantDir = some (-eINVAL, s) := by
    have resolved : resolvePath s.tmpfs (normalizePath (taskCurrent s.tasks).cwd path) = some (-eNOENT) := failed
    simp only [fsRemovePath, tmpfsRemovePath, resolved, Option.bind_eq_bind, Option.bind_some, if_pos (Int.le_of_lt negative),
      Option.pure_def]
  constructor
  · intro flags mode plain
    simp only [fsOpenPath, openNode, failed, Option.bind_eq_bind, Option.bind_some, plain, ne_eq, not_true_eq_false,
      and_false, if_false, Option.pure_def, if_pos negative]
  · intro hasBuffer
    have noNode : tmpfsGetNode s.tmpfs (-eNOENT) = none := if_pos (Or.inl negative)
    simp only [fsStatPath, failed, Option.bind_eq_bind, Option.bind_some, noNode, Option.pure_def]
  · exact removal false
  · exact removal true
  · simp only [fsChdirPath, failed, Option.bind_eq_bind, Option.bind_some, if_pos negative, Option.pure_def]

/-- No failed lookup is reported alike: it fails with `ENOENT`, and three of the calls answer `EINVAL`. -/
theorem lookup_failures_differ (k : Kernel) (reachable : Reachable k) (path : List UInt8) (e : Int) (negative : e < 0)
    (failed : tmpfsLookupPath k.fs.tmpfs (k.fs.resolve path) = some e) : ¬ReportedAlike k.fs path e := by
  have inv := KernelInv.of_reachable reachable
  have missing : e = -eNOENT := by
    have walk := (ChildInv.of_reachable inv.nodes).resolvePath_walk (inv.resolve path).1.rooted
    rw [tmpfsLookupPath, walk, Option.some.injEq] at failed
    have none := nodeOrError_neg.mp (failed ▸ negative)
    rw [none] at failed
    exact failed.symm
  rw [missing] at failed
  intro alike
  have values := alike.unlink.symm.trans (lookupFailure failed).unlink
  rw [missing, Option.some.injEq, Prod.mk.injEq] at values
  exact absurd values.1 (by decide)

theorem lookup_failures_differ_sample :
    ∃ k, Reachable k ∧ -eNOENT < 0 ∧ tmpfsLookupPath k.fs.tmpfs (k.fs.resolve (ascii "missing")) = some (-eNOENT) ∧
      ¬ReportedAlike k.fs (ascii "missing") (-eNOENT) := by
  obtain ⟨k, runs, failed⟩ := exists_of_check
    (P := fun k : Kernel => tmpfsLookupPath k.fs.tmpfs (k.fs.resolve (ascii "missing")) = some (-eNOENT))
    (show (bootRun [.chdir (ascii "/tmp")]).map _ = some true by decide +kernel)
  have reachable := Reachable.of_bootRun runs
  exact ⟨k, reachable, by decide, failed, lookup_failures_differ k reachable _ _ (by decide) failed⟩

/-- An `unlink` of a path that is not there answers `EINVAL`. -/
theorem unlink_of_missing :
    ∃ k, Reachable k ∧ tmpfsLookupPath k.fs.tmpfs (k.fs.resolve (ascii "/missing")) = some (-eNOENT) ∧
      ¬ReportedAlike k.fs (ascii "/missing") (-eNOENT) := by
  obtain ⟨k, runs, failed, answer⟩ := exists_of_check
    (P := fun k : Kernel => tmpfsLookupPath k.fs.tmpfs (k.fs.resolve (ascii "/missing")) = some (-eNOENT) ∧
      (fsUnlinkPath k.fs (ascii "/missing")).map Prod.fst = some (-eINVAL))
    (show (bootRun []).map _ = some true by decide +kernel)
  refine ⟨k, Reachable.of_bootRun runs, failed, fun alike => ?_⟩
  rw [alike.unlink] at answer
  have same : -eNOENT = -eINVAL := Option.some.inj answer
  exact absurd same (by decide)

end Mgcore
