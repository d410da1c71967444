import Mgcore.Fs.Kernel

/-!
# Working directories

`fs_chdir_path` keeps the normalized path as text, and relative paths are put behind it. The text is cut to the 127
bytes of its field without notice, so what follows is resolved from another directory when the part that is left leads
there.
-/

namespace Mgcore
open Lib

/-! ## Normalization -/

structure SoundNormalizer (s : Fs) : Prop where
  cwd : ∀ i, (s.tasks.tasks i).state ≠ .unused →
    Canonical (s.tasks.tasks i).cwd ∧ (s.tasks.tasks i).cwd.length ≤ 127
  canonical : ∀ path, Canonical (s.resolve path)
  bounded : ∀ path, (s.resolve path).length ≤ 255
  buffer : ∀ (out : Nat → UInt8) path,
    (normalizePathInto ⟨out, []⟩ (taskCurrent s.tasks).cwd path).Holds (s.resolve path ++ [0])
  stores : ∀ (out : Nat → UInt8) path, (normalizePathInto ⟨out, []⟩ (taskCurrent s.tasks).cwd path).Within 256
  fixed : ∀ path, s.resolve (s.resolve path) = s.resolve path
  lookup : ∀ path, path.head? = some slash → path.length ≤ 255 →
    ∀ u : Tmpfs, tmpfsLookupPath u (s.resolve path) = tmpfsLookupPath u path

theorem normalize_path_sound (k : Kernel) (reachable : Reachable k) : SoundNormalizer k.fs := by
  have inv := KernelInv.of_reachable reachable
  constructor
  · intro i used
    exact ⟨(inv.cwd i used).1, Nat.le_of_lt_succ (inv.cwd i used).2⟩
  · intro path
    exact (inv.resolve path).1
  · intro path
    exact Nat.le_of_lt_succ (inv.resolve path).2
  · intro out path
    exact (normalizePathInto_spec (Buffer.within_empty out pathMax) inv.current.2 path).1
  · intro out path
    exact (normalizePathInto_spec (Buffer.within_empty out pathMax) inv.current.2 path).2
  · intro path
    exact normalizePath_fixed _ (inv.resolve path).1 (inv.resolve path).2
  · intro path rooted fits u
    exact resolvePath_congr u rooted (inv.resolve path).1.rooted
      (components_absolute _ rooted (Nat.lt_succ_of_le fits))

theorem normalize_path_sound_sample :
    ∃ k, Reachable k ∧ (taskCurrent k.fs.tasks).cwd = ascii "/tmp/" ∧ k.fs.resolve (ascii "a//b") = ascii "/tmp/a/b" ∧
      SoundNormalizer k.fs := by
  obtain ⟨k, runs, cwd, joined⟩ := exists_of_check
    (P := fun k : Kernel => (taskCurrent k.fs.tasks).cwd = ascii "/tmp/" ∧
      k.fs.resolve (ascii "a//b") = ascii "/tmp/a/b")
    (show (bootRun [.chdir (ascii "//tmp//")]).map _ = some true by decide +kernel)
  have reachable := Reachable.of_bootRun runs
  exact ⟨k, reachable, cwd, joined, normalize_path_sound k reachable⟩

/-! ## Changing the directory -/

/-- After entering `path`, with result `t`, relative paths lead where they lead behind the text of `path`. -/
structure ChdirComposes (s : Fs) (path : List UInt8) (t : Fs) : Prop where
  relative : ∀ q, q ≠ [] → q.head? ≠ some slash → (s.resolve path).length + 1 + q.length < 256 →
    tmpfsLookupPath t.tmpfs (t.resolve q) = tmpfsLookupPath t.tmpfs (t.resolve (s.resolve path ++ slash :: q))
  dot : tmpfsLookupPath t.tmpfs (t.resolve (ascii ".")) = tmpfsLookupPath s.tmpfs (s.resolve path)

theorem nodeOrError_inj {a b : Option Nat} (same : nodeOrError a = nodeOrError b) : a = b := by
  cases b with
  | none => exact nodeOrError_neg.mp (same ▸ nodeOrError_neg.mpr rfl)
  | some i => exact nodeOrError_eq.mp same

/-- Behind a directory, resolution goes on from its node. -/
theorem ChildInv.resolvePath_below {s : Tmpfs} (inv : ChildInv s) {path base rest : List UInt8}
    (rooted : path.head? = some slash) (parts : components path = components base ++ components rest) :
    resolvePath s path = some (nodeOrError ((walkPath s (tokens base)).bind fun i => run (walkStep s) i (tokens rest))) := by
  have names : tokens path = tokens base ++ tokens rest := by
    rw [tokens, parts, List.flatMap_append]
    rfl
  rw [inv.resolvePath_walk rooted, names, walkPath, run_append]
  rfl

theorem ChildInv.lookup_relative {s : Tmpfs} (inv : ChildInv s) {cwd q : List UInt8} (canonical : Canonical cwd)
    (filled : q ≠ []) (relative : q.head? ≠ some slash) (fits : cwd.length + 1 + q.length < pathMax) :
    tmpfsLookupPath s (normalizePath cwd q) =
      some (nodeOrError ((walkPath s (tokens cwd)).bind fun i => run (walkStep s) i (tokens q))) :=
  inv.resolvePath_below (normalizePath_canonical canonical q).rooted (components_relative canonical filled relative fits)

theorem ChildInv.lookup_dot {s : Tmpfs} (inv : ChildInv s) {cwd : List UInt8} (canonical : Canonical cwd)
    (short : cwd.length < cwdSize) : tmpfsLookupPath s (normalizePath cwd (ascii ".")) = tmpfsLookupPath s cwd := by
  have stays : (fun i => run (walkStep s) i (tokens (ascii "."))) = some := by
    funext i
    rfl
  have fits : cwd.length + 1 + (ascii ".").length < pathMax := by
    have one : (ascii ".").length = 1 := rfl
    unfold cwdSize at short
    unfold pathMax
    omega
  rw [inv.lookup_relative canonical (by decide) (by decide) fits, stays, Option.bind_fun_some]
  exact (inv.resolvePath_walk canonical.rooted).symm

theorem Fs.setCwd_resolve (s : Fs) (cwd path : List UInt8) : (s.setCwd cwd).resolve path = normalizePath cwd path := by
  have entry := s.setCwd_entry cwd s.tasks.currentIndex
  rw [if_pos rfl] at entry
  have current : (taskCurrent (s.setCwd cwd).tasks).cwd = cwd := congrArg Task.cwd entry
  rw [Fs.resolve, current]

/-- Relative paths compose with a change of directory exactly when the first 127 bytes of the normalized path lead where
the whole of it leads. -/
theorem chdir_composes_iff (k : Kernel) (reachable : Reachable k) (path : List UInt8) (t : Fs)
    (returns : fsChdirPath k.fs path = some (0, t)) :
    ChdirComposes k.fs path t ↔
      tmpfsLookupPath k.fs.tmpfs ((k.fs.resolve path).take 127) = tmpfsLookupPath k.fs.tmpfs (k.fs.resolve path) := by
  have inv := KernelInv.of_reachable reachable
  have nodes := ChildInv.of_reachable inv.nodes
  obtain ⟨canonical, bounded⟩ := inv.resolve path
  obtain ⟨-, failed⟩ | ⟨-, i, found, -, rfl⟩ := fsChdirPath_cases returns
  · exact absurd failed (lt_irrefl 0)
  have cut : Canonical ((k.fs.resolve path).take 127) := canonical.take (by decide)
  have short : ((k.fs.resolve path).take 127).length < cwdSize :=
    Nat.lt_succ_of_le (List.length_take_le 127 (k.fs.resolve path))
  have here := nodes.lookup_dot cut short
  constructor
  · intro composes
    have dot := composes.dot
    rw [Fs.setCwd_resolve] at dot
    exact here.symm.trans dot
  · intro same
    have start : walkPath k.fs.tmpfs (tokens ((k.fs.resolve path).take 127)) =
        walkPath k.fs.tmpfs (tokens (k.fs.resolve path)) := by
      rw [tmpfsLookupPath, tmpfsLookupPath, nodes.resolvePath_walk cut.rooted, nodes.resolvePath_walk canonical.rooted,
        Option.some.injEq] at same
      exact nodeOrError_inj same
    constructor
    · intro q filled relative fits
      have whole : (k.fs.resolve path ++ slash :: q).length < pathMax := by
        rw [List.length_append, List.length_cons]
        unfold pathMax
        omega
      have rooted : (k.fs.resolve path ++ slash :: q).head? = some slash := by
        rw [List.head?_append, canonical.rooted]
        rfl
      have less : ((k.fs.resolve path).take 127).length ≤ (k.fs.resolve path).length := by
        rw [List.length_take]
        exact Nat.min_le_right _ _
      rw [Fs.setCwd_resolve, Fs.setCwd_resolve]
      refine (nodes.lookup_relative cut filled relative (by unfold pathMax; omega)).trans ?_
      rw [start]
      refine (nodes.resolvePath_below (normalizePath_canonical cut _).rooted ?_).symm
      rw [components_absolute _ rooted whole, components_append_slash]
    · rw [Fs.setCwd_resolve]
      exact here.trans same

theorem chdir_composes_iff_sample :
    ∃ k t, Reachable k ∧ fsChdirPath k.fs (ascii "../dev") = some (0, t) ∧ ChdirComposes k.fs (ascii "../dev") t := by
  obtain ⟨k, runs, entered, same⟩ := exists_of_check
    (P := fun k : Kernel => (fsChdirPath k.fs (ascii "../dev")).map Prod.fst = some 0 ∧
      tmpfsLookupPath k.fs.tmpfs ((k.fs.resolve (ascii "../dev")).take 127) =
        tmpfsLookupPath k.fs.tmpfs (k.fs.resolve (ascii "../dev")))
    (show (bootRun [.chdir (ascii "/tmp")]).map _ = some true by decide +kernel)
  obtain ⟨⟨r, t⟩, returns, rfl⟩ := Option.map_eq_some_iff.mp entered
  have reachable := Reachable.of_bootRun runs
  exact ⟨k, t, reachable, returns, (chdir_composes_iff k reachable (ascii "../dev") t returns).mpr same⟩

-- In and out of /tmp eighteen times, and in again: 130 bytes.
def longWay : List UInt8 := (List.replicate 18 (ascii "/tmp/..")).flatten ++ ascii "/tmp"

theorem long_way_cut_short :
    ∃ k t, Reachable k ∧ fsChdirPath k.fs longWay = some (0, t) ∧ ¬ChdirComposes k.fs longWay t := by
  obtain ⟨k, runs, entered⟩ := exists_of_check
    (P := fun k : Kernel => (fsChdirPath k.fs longWay).map (fun entered =>
        (entered.1, tmpfsLookupPath entered.2.tmpfs (entered.2.resolve (ascii ".")),
          tmpfsLookupPath k.fs.tmpfs (k.fs.resolve longWay))) = some (0, some 0, some 3))
    (show (bootRun []).map _ = some true by decide +kernel)
  obtain ⟨⟨r, t⟩, returns, values⟩ := Option.map_eq_some_iff.mp entered
  rw [Prod.mk.injEq, Prod.mk.injEq] at values
  obtain ⟨rfl, here, there⟩ := values
  refine ⟨k, t, Reachable.of_bootRun runs, returns, fun composes => ?_⟩
  have same := composes.dot
  rw [here, there] at same
  cases same

end Mgcore
