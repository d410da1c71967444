import Mathlib.Data.List.Chain
import Mgcore.Fs.Model
import Mgcore.Lib.Buffer
import Mgcore.Tmpfs.Components

/-!
# Normalized paths

`normalize_path` puts the working directory before a relative path and leaves out repeated slashes. Behind a working
directory that is rooted, short and without repeated slashes the result is so too, the stores stay in the buffer, and a
second pass changes nothing. As long as nothing is cut off the components are those of the path, so `resolve_path` finds
the same node.
-/

namespace Mgcore
open Lib

/-! ## The loop -/

theorem normalizeLoop_full {out : List UInt8} (full : pathMax ≤ out.length + 1) (text : List UInt8) :
    normalizeLoop out text = out := by
  cases text with
  | nil => rfl
  | cons c text => rw [normalizeLoop, if_neg (Nat.not_lt.mpr full)]

theorem normalizeLoop_cons {out : List UInt8} (room : ¬pathMax ≤ out.length + 1) (c : UInt8) (text : List UInt8) :
    normalizeLoop out (c :: text) =
      normalizeLoop (if c = slash ∧ out.getLast? = some slash then out else out ++ [c]) text := by
  rw [normalizeLoop, if_pos (Nat.lt_of_not_le room)]
  split_ifs <;> rfl

theorem normalizeLoop_length_le (out text : List UInt8) : (normalizeLoop out text).length ≤ out.length + text.length := by
  induction text generalizing out with
  | nil => exact le_rfl
  | cons c text ih =>
      by_cases full : pathMax ≤ out.length + 1
      · rw [normalizeLoop_full full]
        exact Nat.le_add_right _ _
      · rw [normalizeLoop_cons full, List.length_cons]
        split_ifs
        · have rest := ih out
          omega
        · have rest := ih (out ++ [c])
          rw [List.length_append, List.length_singleton] at rest
          omega

/-- Rooted, and without two slashes in a row. -/
structure Canonical (text : List UInt8) : Prop where
  rooted : text.head? = some slash
  single : text.IsChain fun a b => ¬(a = slash ∧ b = slash)

theorem normalizeLoop_bounded {out : List UInt8} (bounded : out.length < pathMax) (text : List UInt8) :
    (normalizeLoop out text).length < pathMax := by
  induction text generalizing out with
  | nil => exact bounded
  | cons c text ih =>
      by_cases full : pathMax ≤ out.length + 1
      · rw [normalizeLoop_full full]
        exact bounded
      · rw [normalizeLoop_cons full]
        split_ifs
        · exact ih bounded
        · exact ih (by rw [List.length_append, List.length_singleton]; omega)

theorem normalizeLoop_prefix (out text : List UInt8) : out <+: normalizeLoop out text := by
  induction text generalizing out with
  | nil => exact List.prefix_rfl
  | cons c text ih =>
      by_cases full : pathMax ≤ out.length + 1
      · rw [normalizeLoop_full full]
      · rw [normalizeLoop_cons full]
        split_ifs
        · exact ih out
        · exact (List.prefix_append out [c]).trans (ih (out ++ [c]))

theorem single_concat {out : List UInt8} {c : UInt8} :
    (out ++ [c]).IsChain (fun a b => ¬(a = slash ∧ b = slash)) ↔
      out.IsChain (fun a b => ¬(a = slash ∧ b = slash)) ∧ ¬(c = slash ∧ out.getLast? = some slash) := by
  rw [List.isChain_append]
  constructor
  · rintro ⟨single, -, seam⟩
    refine ⟨single, fun ⟨isSlash, last⟩ => ?_⟩
    exact seam slash last c rfl ⟨rfl, isSlash⟩
  · rintro ⟨single, seam⟩
    refine ⟨single, List.isChain_singleton c, fun a last b first => ?_⟩
    rintro ⟨rfl, rfl⟩
    cases first
    exact seam ⟨rfl, last⟩

theorem normalizeLoop_single {out : List UInt8} (single : out.IsChain fun a b => ¬(a = slash ∧ b = slash))
    (text : List UInt8) : (normalizeLoop out text).IsChain fun a b => ¬(a = slash ∧ b = slash) := by
  induction text generalizing out with
  | nil => exact single
  | cons c text ih =>
      by_cases full : pathMax ≤ out.length + 1
      · rw [normalizeLoop_full full]
        exact single
      · rw [normalizeLoop_cons full]
        split_ifs with repeated
        · exact ih single
        · exact ih (single_concat.mpr ⟨single, repeated⟩)

/-- A text that is already normalized is copied. -/
theorem normalizeLoop_fixed {out text : List UInt8} (single : (out ++ text).IsChain fun a b => ¬(a = slash ∧ b = slash))
    (fits : (out ++ text).length < pathMax) : normalizeLoop out text = out ++ text := by
  induction text generalizing out with
  | nil => rw [normalizeLoop, List.append_nil]
  | cons c text ih =>
      have step : out ++ c :: text = out ++ [c] ++ text := List.append_cons out c text
      have room : ¬pathMax ≤ out.length + 1 := by
        rw [List.length_append, List.length_cons] at fits
        omega
      rw [step] at single fits ⊢
      obtain ⟨-, different⟩ := single_concat.mp (List.isChain_append.mp single).1
      rw [normalizeLoop_cons room, if_neg different]
      exact ih single fits

theorem components_normalizeLoop {out text : List UInt8} (fits : out.length + text.length < pathMax) :
    components (normalizeLoop out text) = components (out ++ text) := by
  induction text generalizing out with
  | nil => rw [normalizeLoop, List.append_nil]
  | cons c text ih =>
      rw [List.length_cons] at fits
      rw [normalizeLoop_cons (by omega)]
      split_ifs with repeated
      · obtain ⟨rfl, last⟩ := repeated
        obtain ⟨front, rfl⟩ := List.getLast?_eq_some_iff.mp last
        rw [ih (by omega), List.append_assoc, List.singleton_append, components_append_slash, components_append_slash]
        congr 1
        exact (runs_append_one (by decide) front).symm
      · rw [ih (by rw [List.length_append, List.length_singleton]; omega), List.append_assoc, List.singleton_append]

/-! ## The path -/

def pathBase (cwd : List UInt8) (first : UInt8) : List UInt8 :=
  if first = slash then []
  else if 1 < cwd.length ∧ cwd.getLast? ≠ some slash then cwd ++ [slash]
  else cwd

theorem pathBase_length_le (cwd : List UInt8) (first : UInt8) : (pathBase cwd first).length ≤ cwd.length + 1 := by
  unfold pathBase
  split_ifs
  · exact Nat.zero_le _
  · rw [List.length_append, List.length_singleton]
  · exact Nat.le_succ _

theorem normalizePath_cons (cwd : List UInt8) (c : UInt8) (text : List UInt8) :
    normalizePath cwd (c :: text) = normalizeLoop (pathBase cwd c) (c :: text) := by
  simp [normalizePath, pathBase]

theorem Canonical.take {text : List UInt8} (canonical : Canonical text) {n : Nat} (positive : 0 < n) :
    Canonical (text.take n) := by
  obtain ⟨rest, rfl⟩ := List.head?_eq_some_iff.mp canonical.rooted
  obtain ⟨n, rfl⟩ := Nat.exists_eq_succ_of_ne_zero (Nat.ne_of_gt positive)
  exact ⟨rfl, canonical.single.take _⟩

theorem Canonical.extend {out text : List UInt8} (canonical : Canonical out) : Canonical (normalizeLoop out text) := by
  obtain ⟨more, eq⟩ := normalizeLoop_prefix out text
  refine ⟨?_, normalizeLoop_single canonical.single text⟩
  rw [← eq, List.head?_append, canonical.rooted]
  rfl

theorem canonical_root : Canonical [slash] := ⟨rfl, List.isChain_singleton slash⟩

/-- What ends a working directory that gets no slash. -/
theorem Canonical.ends_in_slash {cwd : List UInt8} (canonical : Canonical cwd)
    (closed : ¬(1 < cwd.length ∧ cwd.getLast? ≠ some slash)) : ∃ front, cwd = front ++ [slash] := by
  apply List.getLast?_eq_some_iff.mp
  by_contra other
  have short : cwd.length ≤ 1 := Nat.not_lt.mp fun long => closed ⟨long, other⟩
  obtain ⟨rest, rfl⟩ := List.head?_eq_some_iff.mp canonical.rooted
  have empty : rest = [] := by simpa using short
  rw [empty] at other
  exact other rfl

theorem Canonical.pathBase {cwd : List UInt8} (canonical : Canonical cwd) {c : UInt8} (relative : c ≠ slash) :
    Canonical (pathBase cwd c) := by
  unfold Mgcore.pathBase
  rw [if_neg relative]
  split_ifs with seam
  · refine ⟨?_, single_concat.mpr ⟨canonical.single, fun repeated => seam.2 repeated.2⟩⟩
    rw [List.head?_append, canonical.rooted]
    rfl
  · exact canonical

theorem normalizePath_canonical {cwd : List UInt8} (canonical : Canonical cwd) (path : List UInt8) :
    Canonical (normalizePath cwd path) := by
  cases path with
  | nil => exact canonical_root
  | cons c text =>
      rw [normalizePath_cons]
      by_cases absolute : c = slash
      · rw [absolute, pathBase, if_pos rfl, normalizeLoop_cons (by decide), if_neg (by simp)]
        exact canonical_root.extend
      · exact (canonical.pathBase absolute).extend

theorem normalizePath_bounded {cwd : List UInt8} (short : cwd.length < cwdSize) (path : List UInt8) :
    (normalizePath cwd path).length < pathMax := by
  cases path with
  | nil => exact Nat.lt_of_sub_eq_succ rfl
  | cons c text =>
      have base := pathBase_length_le cwd c
      rw [normalizePath_cons]
      apply normalizeLoop_bounded
      unfold cwdSize at short
      unfold pathMax
      omega

theorem normalizePath_fixed (cwd : List UInt8) {path : List UInt8} (canonical : Canonical path)
    (fits : path.length < pathMax) : normalizePath cwd path = path := by
  obtain ⟨rest, rfl⟩ := List.head?_eq_some_iff.mp canonical.rooted
  rw [normalizePath_cons, pathBase, if_pos rfl]
  exact normalizeLoop_fixed canonical.single fits

theorem components_absolute (cwd : List UInt8) {path : List UInt8} (rooted : path.head? = some slash)
    (fits : path.length < pathMax) : components (normalizePath cwd path) = components path := by
  obtain ⟨rest, rfl⟩ := List.head?_eq_some_iff.mp rooted
  rw [normalizePath_cons, pathBase, if_pos rfl, components_normalizeLoop (by rwa [List.length_nil, Nat.zero_add])]
  rfl

theorem components_relative {cwd path : List UInt8} (canonical : Canonical cwd) (filled : path ≠ [])
    (relative : path.head? ≠ some slash) (fits : cwd.length + 1 + path.length < pathMax) :
    components (normalizePath cwd path) = components cwd ++ components path := by
  obtain ⟨c, text, rfl⟩ := List.exists_cons_of_ne_nil filled
  have notSlash : c ≠ slash := by simpa using relative
  have base := pathBase_length_le cwd c
  rw [normalizePath_cons, components_normalizeLoop (by omega), pathBase, if_neg notSlash]
  split_ifs with seam
  · rw [List.append_assoc, List.singleton_append, components_append_slash]
  · obtain ⟨front, rfl⟩ := canonical.ends_in_slash seam
    rw [List.append_assoc, List.singleton_append, components_append_slash]
    congr 1
    exact (runs_append_one (by decide) front).symm

/-! ## The stores -/

def kstrcpy (out : Buffer UInt8) (text : List UInt8) : Buffer UInt8 := out.write 0 (text ++ [0])

/-- The loop of `normalize_path` on its output buffer, with `out_len` bytes in it. -/
def normalizeLoopInto (out : Buffer UInt8) (outLen : Nat) : List UInt8 → Buffer UInt8
  | [] => out.put outLen 0
  | c :: source =>
      if outLen + 1 < pathMax then
        if c = slash ∧ 0 < outLen ∧ out.cells (outLen - 1) = slash then normalizeLoopInto out outLen source
        else normalizeLoopInto (out.put outLen c) (outLen + 1) source
      else out.put outLen 0

def normalizePathInto (out : Buffer UInt8) (cwd path : List UInt8) : Buffer UInt8 :=
  if path = [] then kstrcpy out [slash]
  else if path.head? = some slash then normalizeLoopInto out 0 path
  else
    let out := kstrcpy out cwd
    let outLen := cwd.length
    if 1 < outLen ∧ out.cells (outLen - 1) ≠ slash then
      normalizeLoopInto ((out.put outLen slash).put (outLen + 1) 0) (outLen + 1) path
    else normalizeLoopInto out outLen path

theorem kstrcpy_spec (out : Buffer UInt8) (text : List UInt8) : (kstrcpy out text).Holds (text ++ [0]) := by
  have written := (Buffer.holds_nil out).write (text ++ [0])
  rw [List.nil_append] at written
  exact written

theorem kstrcpy_within {out : Buffer UInt8} {n : Nat} (inside : out.Within n) {text : List UInt8} :
    (kstrcpy out text).Within n ↔ text.length < n := by
  rw [kstrcpy, Buffer.within_write_iff 0 (by simp), List.length_append, List.length_singleton]
  constructor
  · rintro ⟨-, fits⟩
    omega
  · intro fits
    exact ⟨inside, by omega⟩

theorem normalizeLoopInto_spec {out : Buffer UInt8} {text : List UInt8} (holds : out.Holds text)
    (inside : out.Within pathMax) (bounded : text.length < pathMax) (source : List UInt8) :
    (normalizeLoopInto out text.length source).Holds (normalizeLoop text source ++ [0]) ∧
      (normalizeLoopInto out text.length source).Within pathMax := by
  induction source generalizing out text with
  | nil => exact ⟨holds.put 0, inside.put bounded 0⟩
  | cons c source ih =>
      rw [normalizeLoopInto]
      by_cases full : pathMax ≤ text.length + 1
      · rw [if_neg (Nat.not_lt.mpr full), normalizeLoop_full full]
        exact ⟨holds.put 0, inside.put bounded 0⟩
      · have last : c = slash ∧ 0 < text.length ∧ out.cells (text.length - 1) = slash ↔
            c = slash ∧ text.getLast? = some slash := by
          by_cases filled : text = []
          · rw [filled]
            simp
          · rw [holds.last filled, Option.some.injEq]
            simp [List.length_pos_iff.mpr filled]
        rw [if_pos (Nat.lt_of_not_le full), if_congr last rfl rfl, normalizeLoop_cons full]
        split_ifs
        · exact ih holds inside bounded
        · have next := ih (holds.put c) (inside.put bounded c) (by rw [List.length_append, List.length_singleton]; omega)
          rw [List.length_append] at next
          exact next

/-- On its buffer `normalize_path` leaves the text that `normalizePath` gives, and no store leaves the buffer. -/
theorem normalizePathInto_spec {out : Buffer UInt8} (inside : out.Within pathMax) {cwd : List UInt8}
    (short : cwd.length < cwdSize) (path : List UInt8) :
    (normalizePathInto out cwd path).Holds (normalizePath cwd path ++ [0]) ∧
      (normalizePathInto out cwd path).Within pathMax := by
  have room : cwd.length + 1 < pathMax := by
    unfold cwdSize at short
    unfold pathMax
    omega
  cases path with
  | nil => exact ⟨kstrcpy_spec out [slash], (kstrcpy_within inside).mpr (by decide)⟩
  | cons c text =>
      rw [normalizePathInto, if_neg (List.cons_ne_nil c text), normalizePath_cons, pathBase]
      by_cases absolute : c = slash
      · rw [if_pos (by rw [List.head?_cons, absolute]), if_pos absolute]
        exact normalizeLoopInto_spec (Buffer.holds_nil out) inside (by decide) (c :: text)
      · have copied : (kstrcpy out cwd).Holds cwd := (kstrcpy_spec out cwd).left
        have within := (kstrcpy_within inside).mpr (Nat.lt_of_succ_lt room)
        have seam : 1 < cwd.length ∧ (kstrcpy out cwd).cells (cwd.length - 1) ≠ slash ↔
            1 < cwd.length ∧ cwd.getLast? ≠ some slash := by
          apply and_congr_right
          intro long
          have filled : cwd ≠ [] := List.ne_nil_of_length_pos (Nat.zero_lt_of_lt long)
          rw [copied.last filled, ne_eq, ne_eq, Option.some.injEq]
        rw [if_neg (by rwa [List.head?_cons, Option.some.injEq]), if_neg absolute, if_congr seam rfl rfl]
        split_ifs
        · -- the terminator stored behind the slash is overwritten
          have base := ((copied.put slash).put 0).left
          have stores := (within.put (Nat.lt_of_succ_lt room) slash).put room 0
          rw [List.length_append] at base
          have next := normalizeLoopInto_spec base stores (by rwa [List.length_append]) (c :: text)
          rw [List.length_append] at next
          exact next
        · exact normalizeLoopInto_spec copied within (Nat.lt_of_succ_lt room) (c :: text)

end Mgcore
