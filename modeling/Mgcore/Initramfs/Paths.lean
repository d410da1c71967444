import Mgcore.Initramfs.Format
import Mgcore.Tmpfs.Names

/-!
# The paths of the archive

The relative name of an entry, made absolute against the root, is the text of the entry's components. For ASCII
names the encoding forgets nothing, so distinct entries have distinct paths.
-/

namespace Mgcore

open Lib

/-! ## Encoding -/

theorem encodeUtf8_append (a b : List Char) : encodeUtf8 (a ++ b) = encodeUtf8 a ++ encodeUtf8 b := by
  rw [encodeUtf8, List.flatMap_append, encodeUtf8, encodeUtf8]

theorem decode_encodeUtf8 {name : List Char} (ascii : ∀ c ∈ name, c.toNat < 128) :
    (encodeUtf8 name).map (fun b => Char.ofNat b.toNat) = name := by
  have back : ∀ c ∈ name, Char.ofNat c.toNat.toUInt8.toNat = c := by
    intro c member
    have small : c.toNat.toUInt8.toNat = c.toNat := Nat.mod_eq_of_lt (Nat.lt_trans (ascii c member) (by decide))
    rw [small, Char.ofNat_toNat]
  rw [encodeUtf8_ascii ascii, List.map_map]
  exact (List.map_congr_left back).trans (List.map_id name)

theorem encodeUtf8_inj {a b : List Char} (asciiA : ∀ c ∈ a, c.toNat < 128) (asciiB : ∀ c ∈ b, c.toNat < 128)
    (same : encodeUtf8 a = encodeUtf8 b) : a = b := by
  rw [← decode_encodeUtf8 asciiA, ← decode_encodeUtf8 asciiB, same]

theorem validName_encodeUtf8 {n : List Char} (named : SourceName n) (ascii : ∀ c ∈ n, c.toNat < 128)
    (short : n.length ≤ 31) : ValidName (encodeUtf8 n) := by
  obtain ⟨nonempty, noSlash, -, notDot, notDots⟩ := named
  refine ⟨?_, ?_, ?_, ?_, ?_⟩
  · rw [encodeUtf8_ascii ascii]
    simpa using nonempty
  · rw [encodeUtf8_ascii ascii, List.length_map]
    exact Nat.lt_succ_of_le short
  · rw [encodeUtf8_ascii ascii]
    intro member
    obtain ⟨c, inName, isSlash⟩ := List.mem_map.mp member
    have small := ascii c inName
    have code : c.toNat = '/'.toNat := by
      have value : c.toNat % 256 = 47 := congrArg UInt8.toNat isSlash
      change c.toNat = 47
      omega
    exact noSlash (Char.toNat_inj.mp code ▸ inName)
  · intro dot
    exact notDot (encodeUtf8_inj ascii (by simp) dot)
  · intro dots
    exact notDots (encodeUtf8_inj ascii (by simp) dots)

/-! ## Relative names -/

def pathBytes (path : List (List Char)) : List (List UInt8) := path.map encodeUtf8

theorem relativeName_cons (n : List Char) (path : List (List Char)) :
    relativeName (n :: path) = n ++ path.flatMap fun m => '/' :: m := by
  induction path generalizing n with
  | nil => simp [relativeName]
  | cons m path ih =>
      have step : relativeName (n :: m :: path) = n ++ '/' :: relativeName (m :: path) := by
        simp [relativeName, List.intercalate, List.intersperse]
      rw [step, ih, List.flatMap_cons, List.cons_append]

theorem mem_relativeName {path : List (List Char)} {c : Char} :
    c ∈ relativeName path → c = '/' ∨ ∃ n ∈ path, c ∈ n := by
  cases path with
  | nil =>
      intro member
      cases member
  | cons n path =>
      rw [relativeName_cons, List.mem_append, List.mem_flatMap]
      rintro (first | ⟨m, later, member⟩)
      · exact Or.inr ⟨n, List.mem_cons_self, first⟩
      · rcases List.mem_cons.mp member with separator | inside
        · exact Or.inl separator
        · exact Or.inr ⟨m, List.mem_cons_of_mem _ later, inside⟩

theorem mem_relativeName_of_mem {path : List (List Char)} {n : List Char} {c : Char} (component : n ∈ path)
    (member : c ∈ n) : c ∈ relativeName path := by
  cases path with
  | nil => cases component
  | cons m path =>
      rw [relativeName_cons, List.mem_append, List.mem_flatMap]
      rcases List.mem_cons.mp component with rfl | later
      · exact Or.inl member
      · exact Or.inr ⟨n, later, List.mem_cons_of_mem _ member⟩

theorem eq_singleton_of_relativeName {path : List (List Char)} (nonempty : path ≠ [])
    (single : '/' ∉ relativeName path) : path = [relativeName path] := by
  obtain ⟨n, rest, rfl⟩ := List.exists_cons_of_ne_nil nonempty
  cases rest with
  | nil => simp [relativeName_cons]
  | cons m rest =>
      rw [relativeName_cons] at single
      simp at single

theorem encodeUtf8_relativeName (n : List Char) (path : List (List Char)) :
    encodeUtf8 (relativeName (n :: path)) = encodeUtf8 n ++ render (pathBytes path) := by
  rw [relativeName_cons, encodeUtf8_append]
  congr 1
  induction path with
  | nil => rfl
  | cons m path ih =>
      rw [List.flatMap_cons, encodeUtf8_append, ih]
      rfl

theorem render_pathBytes {path : List (List Char)} (nonempty : path ≠ []) :
    render (pathBytes path) = slash :: encodeUtf8 (relativeName path) := by
  obtain ⟨n, rest, rfl⟩ := List.exists_cons_of_ne_nil nonempty
  rw [encodeUtf8_relativeName]
  rfl

theorem pathBytes_inj {a b : List (List Char)} (asciiA : ∀ n ∈ a, ∀ c ∈ n, c.toNat < 128)
    (asciiB : ∀ n ∈ b, ∀ c ∈ n, c.toNat < 128) (same : pathBytes a = pathBytes b) : a = b := by
  have back : ∀ path : List (List Char), (∀ n ∈ path, ∀ c ∈ n, c.toNat < 128) →
      (pathBytes path).map (fun n => n.map fun b => Char.ofNat b.toNat) = path := by
    intro path ascii
    rw [pathBytes, List.map_map]
    exact (List.map_congr_left fun n member => decode_encodeUtf8 (ascii n member)).trans (List.map_id path)
  rw [← back a asciiA, ← back b asciiB, same]

/-! ## Normalization -/

theorem normalizeLoop_plain {out text : List UInt8} (plain : slash ∉ text) (fits : out.length + text.length < pathMax)
    (more : List UInt8) : normalizeLoop out (text ++ more) = normalizeLoop (out ++ text) more := by
  induction text generalizing out with
  | nil => simp
  | cons c text ih =>
      have notSlash : c ≠ slash := fun same => plain (by simp [same])
      simp only [List.length_cons] at fits
      rw [List.cons_append, normalizeLoop, if_pos (by omega), if_neg (fun both => notSlash both.1),
        ih (fun member => plain (by simp [member])) (by simp; omega), List.append_assoc]
      rfl

theorem normalizeLoop_render {names : List (List UInt8)} (valid : ∀ n ∈ names, ValidName n) {out : List UInt8}
    (ends : out.getLast? ≠ some slash) (fits : out.length + (render names).length < pathMax) :
    normalizeLoop out (render names) = out ++ render names := by
  induction names generalizing out with
  | nil => simp [normalizeLoop]
  | cons n names ih =>
      have named := valid n (by simp)
      rw [render_cons] at fits ⊢
      simp only [List.length_cons, List.length_append] at fits
      have last : (out ++ [slash] ++ n).getLast? ≠ some slash := by
        intro isSlash
        rw [List.getLast?_append_of_ne_nil _ named.1] at isSlash
        exact named.2.2.1 (List.mem_of_getLast? isSlash)
      rw [normalizeLoop, if_pos (by omega), if_neg (fun both => ends both.2),
        normalizeLoop_plain named.2.2.1 (by simp; omega),
        ih (fun m member => valid m (by simp [member])) last (by simp; omega)]
      simp

theorem normalizePath_relativeName {path : List (List Char)} (nonempty : path ≠ [])
    (valid : ∀ n ∈ pathBytes path, ValidName n) (fits : (render (pathBytes path)).length < pathMax) :
    normalizePath (ascii "/") (encodeUtf8 (relativeName path)) = render (pathBytes path) := by
  obtain ⟨n, rest, rfl⟩ := List.exists_cons_of_ne_nil nonempty
  have named : ValidName (encodeUtf8 n) := valid _ (by simp [pathBytes])
  have others : ∀ m ∈ pathBytes rest, ValidName m := fun m member => valid m (by simp_all [pathBytes])
  have whole : render (pathBytes (n :: rest)) = slash :: (encodeUtf8 n ++ render (pathBytes rest)) := rfl
  rw [whole] at fits ⊢
  simp only [List.length_cons, List.length_append] at fits
  obtain ⟨c, text, first⟩ := List.exists_cons_of_ne_nil named.1
  have notSlash : c ≠ slash := by
    intro same
    apply named.2.2.1
    rw [first, same]
    exact List.mem_cons_self
  have last : ([slash] ++ encodeUtf8 n).getLast? ≠ some slash := by
    intro isSlash
    rw [List.getLast?_append_of_ne_nil _ named.1] at isSlash
    exact named.2.2.1 (List.mem_of_getLast? isSlash)
  have start : normalizePath (ascii "/") (encodeUtf8 n ++ render (pathBytes rest)) =
      normalizeLoop [slash] (encodeUtf8 n ++ render (pathBytes rest)) := by
    rw [first]
    simp only [normalizePath, List.cons_append, List.head?_cons, Option.some.injEq, notSlash, if_false]
    rfl
  rw [encodeUtf8_relativeName, start, normalizeLoop_plain named.2.2.1 (by simp; omega),
    normalizeLoop_render others last (by simp; omega)]
  rfl

end Mgcore
