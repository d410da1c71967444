import Mathlib.Data.List.Induction
import Mgcore.Tmpfs.Runs

/-!
# The namespace

A canonical path is a list of names. `resolve_path` walks it from the left and `split_parent` cuts it from
the right; on canonical texts both are the list operations one expects. `PathTo s p j` says that the chain of
names from the root to node `j` is `p`: a partial map from paths to nodes, which creation extends at one path
and removal restricts at one path.
-/

namespace Mgcore
open Function

/-! ## Canonical texts -/

def ValidName (n : List UInt8) : Prop :=
  n ≠ [] ∧ n.length < nameMax ∧ slash ∉ n ∧ n ≠ ascii "." ∧ n ≠ ascii ".."

instance : DecidablePred ValidName := fun _ => inferInstanceAs (Decidable (_ ∧ _))

def render (names : List (List UInt8)) : List UInt8 := names.flatMap fun n => slash :: n

structure CanonicalPath where
  names : List (List UInt8)
  nonempty : names ≠ []
  valid : ∀ n ∈ names, ValidName n
  fits : (render names).length < pathMax

def CanonicalPath.text (p : CanonicalPath) : List UInt8 := render p.names

@[simp] theorem render_nil : render [] = [] := rfl

@[simp] theorem render_cons (n : List UInt8) (names : List (List UInt8)) :
    render (n :: names) = slash :: (n ++ render names) := rfl

theorem render_append (names more : List (List UInt8)) : render (names ++ more) = render names ++ render more := by
  simp [render]

theorem CanonicalPath.wellFormed (p : CanonicalPath) : ¬(p.text.head? ≠ some slash ∨ p.text.length = 1) := by
  obtain ⟨names, nonempty, valid, -⟩ := p
  cases names with
  | nil => exact absurd rfl nonempty
  | cons n names =>
      have length := List.length_pos_iff.mpr (valid n (by simp)).1
      simp only [CanonicalPath.text, render_cons, List.head?_cons, ne_eq, not_true_eq_false, List.length_cons,
        List.length_append, false_or]
      omega

theorem dropWhile_slash_replicate (k : Nat) : (List.replicate k slash).dropWhile (· = slash) = [] := by
  induction k with
  | zero => rfl
  | succ k ih => simp [List.replicate_succ]

namespace ValidName
variable {n : List UInt8}

theorem ne_slash (valid : ValidName n) : ∀ b ∈ n, b ≠ slash := by
  rintro b member rfl
  exact valid.2.2.1 member

theorem dropWhile_slash (valid : ValidName n) (text : List UInt8) :
    (slash :: (n ++ text)).dropWhile (· = slash) = n ++ text := by
  cases n with
  | nil => exact absurd rfl valid.1
  | cons b rest =>
      have other : b ≠ slash := valid.ne_slash b List.mem_cons_self
      simp [other]

theorem takeWhile_token (valid : ValidName n) {text : List UInt8} (ends : text = [] ∨ text.head? = some slash) :
    ((n ++ text).takeWhile (· ≠ slash)).take (nameMax - 1) = n := by
  have all : ∀ b ∈ n, decide (b ≠ slash) = true := by simpa using valid.ne_slash
  have stops : text.takeWhile (fun b => decide (b ≠ slash)) = [] := by
    cases text with
    | nil => rfl
    | cons b rest =>
        have isSlash : b = slash := by simpa using ends
        simp [isSlash]
  rw [List.takeWhile_append_of_pos all, stops, List.append_nil]
  exact List.take_of_length_le (Nat.le_pred_of_lt valid.2.1)

end ValidName

def lookupFrom (s : Tmpfs) (current : Int) : List (List UInt8) → Option Int
  | [] => some current
  | n :: names =>
      (lookupChild s current n).bind fun child => if child < 0 then some child else lookupFrom s child names

theorem resolveLoop_render (s : Tmpfs) {names : List (List UInt8)} (valid : ∀ n ∈ names, ValidName n) (k : Nat)
    {fuel : Nat} (enough : names.length < fuel) (current : Int) :
    resolveLoop s fuel ((render names ++ List.replicate k slash).dropWhile (· = slash)) current =
      lookupFrom s current names := by
  induction names generalizing fuel current with
  | nil =>
      cases fuel with
      | zero => simp at enough
      | succ fuel => simp only [render_nil, List.nil_append, dropWhile_slash_replicate, resolveLoop, if_true, lookupFrom]
  | cons n names ih =>
      cases fuel with
      | zero => simp at enough
      | succ fuel =>
          have validN := valid n (by simp)
          have ends : render names ++ List.replicate k slash = [] ∨
              (render names ++ List.replicate k slash).head? = some slash := by
            cases names with
            | nil =>
                cases k with
                | zero => exact Or.inl rfl
                | succ k => exact Or.inr rfl
            | cons m names => exact Or.inr rfl
          rw [render_cons, List.cons_append, List.append_assoc, validN.dropWhile_slash]
          have more : n ++ (render names ++ List.replicate k slash) ≠ [] := by simp [validN.1]
          rw [resolveLoop, if_neg more, validN.takeWhile_token ends]
          dsimp only
          rw [List.drop_left]
          obtain ⟨nonempty, -, -, dot, dots⟩ := validN
          simp only [nonempty, dot, dots, or_self, if_false, lookupFrom]
          congr 1
          funext child
          rw [ih (fun m member => valid m (by simp [member])) (by simpa using enough)]

theorem length_le_render (names : List (List UInt8)) : names.length ≤ (render names).length := by
  induction names with
  | nil => simp
  | cons n names ih =>
      simp only [render_cons, List.length_cons, List.length_append]
      omega

theorem resolvePath_render (s : Tmpfs) {names : List (List UInt8)} (valid : ∀ n ∈ names, ValidName n) (k : Nat)
    (rooted : names ≠ [] ∨ 0 < k) :
    resolvePath s (render names ++ List.replicate k slash) = lookupFrom s 0 names := by
  have head : (render names ++ List.replicate k slash).head? = some slash := by
    cases names with
    | nil =>
        cases k with
        | zero => simp at rooted
        | succ k => rfl
    | cons n names => rfl
  have enough : names.length < (render names ++ List.replicate k slash).length + 1 := by
    have := length_le_render names
    rw [List.length_append]
    omega
  unfold resolvePath
  rw [if_neg (not_not.mpr head)]
  split_ifs with bare
  · -- Only the root has a text of one byte.
    cases names with
    | nil => rfl
    | cons n names =>
        have nonempty := List.length_pos_iff.mpr (valid n (by simp)).1
        simp only [render_cons, List.cons_append, List.length_cons, List.length_append] at bare
        omega
  · exact resolveLoop_render s valid k enough 0

theorem splitText_render {names : List (List UInt8)} {leaf : List UInt8} (valid : ValidName leaf) :
    splitText (render (names ++ [leaf])) = (render names ++ [slash], leaf) := by
  have shape : render (names ++ [leaf]) = (render names ++ [slash]) ++ leaf := by
    rw [render_append]
    simp
  have noSlash : ∀ b ∈ leaf.reverse, decide (b ≠ slash) = true := by
    intro b member
    simpa using valid.ne_slash b (List.mem_reverse.mp member)
  have cut : lastComponent (render (names ++ [leaf])) = (render names ++ [slash]).length := by
    have first : (leaf.reverse ++ slash :: (render names).reverse).dropWhile (· = slash) =
        leaf.reverse ++ slash :: (render names).reverse := by
      cases rev : leaf.reverse with
      | nil => exact absurd (List.reverse_eq_nil_iff.mp rev) valid.1
      | cons b rest =>
          have other : b ≠ slash := valid.ne_slash b (by rw [← List.mem_reverse, rev]; simp)
          simp [other]
    rw [lastComponent, shape]
    simp only [List.reverse_append, List.reverse_cons, List.reverse_nil, List.nil_append, List.singleton_append]
    rw [first, List.dropWhile_append_of_pos noSlash]
    simp
  have notBare : ¬(render names ++ [slash]).length = 0 := by simp
  rw [splitText, cut, if_neg notBare, shape, List.take_left, List.drop_left]

/-! ## The map from paths to nodes -/

inductive PathTo (s : Tmpfs) : List (List UInt8) → Nat → Prop
  | root : PathTo s [] 0
  | child {names : List (List UInt8)} {p c : Nat} (above : PathTo s names p) (used : InUse s c)
      (parent : (s.nodes c).parentId = p) : PathTo s (names ++ [(s.nodes c).name]) c

structure NameInv (s : Tmpfs) : Prop where
  tree : TreeInv s
  unique : ∀ i j, InUse s i → InUse s j → (s.nodes i).parentId = (s.nodes j).parentId →
    (s.nodes i).name = (s.nodes j).name → i = j

theorem PathTo.snoc_iff {s : Tmpfs} {names : List (List UInt8)} {n : List UInt8} {c : Nat} :
    PathTo s (names ++ [n]) c ↔
      ∃ p : Nat, PathTo s names p ∧ InUse s c ∧ (s.nodes c).parentId = p ∧ (s.nodes c).name = n := by
  constructor
  · intro path
    generalize whole : names ++ [n] = q at path
    cases path with
    | root => simp at whole
    | child above used parent =>
        obtain ⟨rfl, last⟩ := List.append_inj' whole rfl
        exact ⟨_, above, used, parent, (List.singleton_inj.mp last).symm⟩
  · rintro ⟨p, above, used, parent, rfl⟩
    exact .child above used parent

theorem PathTo.nil_iff {s : Tmpfs} {c : Nat} : PathTo s [] c ↔ c = 0 := by
  constructor
  · intro path
    generalize whole : ([] : List (List UInt8)) = q at path
    cases path with
    | root => rfl
    | child above => simp at whole
  · rintro rfl
    exact .root

theorem PathTo.above {s : Tmpfs} {names more : List (List UInt8)} {c : Nat} (path : PathTo s (names ++ more) c) :
    ∃ p, PathTo s names p := by
  induction more using List.reverseRecOn generalizing c with
  | nil => exact ⟨c, by simpa using path⟩
  | append_singleton more n ih =>
      rw [← List.append_assoc, PathTo.snoc_iff] at path
      obtain ⟨p, above, -⟩ := path
      exact ih above

theorem TreeInv.exists_path {s : Tmpfs} (inv : TreeInv s) {i : Nat} (used : InUse s i) : ∃ names, PathTo s names i := by
  obtain ⟨l, chain⟩ := inv.rooted i used
  -- Along the chain of ancestors, from the root down.
  induction l generalizing i with
  | nil =>
      obtain _ | ⟨here, rest⟩ := chain
      cases Int.ofNat.inj (linkOf_eq_some.mp here)
      exact ⟨[], .root⟩
  | cons a l ih =>
      obtain _ | ⟨here, rest⟩ := chain
      cases Int.ofNat.inj (linkOf_eq_some.mp here)
      by_cases isRoot : a = 0
      · subst isRoot
        exact ⟨[], .root⟩
      · obtain ⟨p, parent, isDir⟩ := inv.has_parent a used isRoot
        rw [parent] at rest
        obtain ⟨names, above⟩ := ih (by simp [InUse, isDir]) rest
        exact ⟨_, .child above used parent⟩

theorem PathTo.congr {s t : Tmpfs} (same : ∀ i, (t.nodes i).type = (s.nodes i).type ∧
    (t.nodes i).parentId = (s.nodes i).parentId ∧ (t.nodes i).name = (s.nodes i).name)
    (q : List (List UInt8)) (j : Nat) : PathTo t q j ↔ PathTo s q j := by
  induction q using List.reverseRecOn generalizing j with
  | nil => rw [PathTo.nil_iff, PathTo.nil_iff]
  | append_singleton q n ih =>
      obtain ⟨type, parent, name⟩ := same j
      simp only [PathTo.snoc_iff, ih, InUse, type, parent, name]

namespace NameInv
variable {s t : Tmpfs}

theorem congr (inv : NameInv s) (tree : TreeInv t) (same : ∀ i, (t.nodes i).type = (s.nodes i).type ∧
    (t.nodes i).parentId = (s.nodes i).parentId ∧ (t.nodes i).name = (s.nodes i).name) : NameInv t := by
  refine ⟨tree, fun j k usedJ usedK parents names => ?_⟩
  rw [InUse, (same j).1] at usedJ
  rw [InUse, (same k).1] at usedK
  rw [(same j).2.1, (same k).2.1] at parents
  rw [(same j).2.2, (same k).2.2] at names
  exact inv.unique j k usedJ usedK parents names

theorem path_used (inv : NameInv s) {names : List (List UInt8)} {c : Nat} (path : PathTo s names c) : InUse s c := by
  cases path with
  | root => exact inv.tree.root_used
  | child above used parent => exact used

theorem path_unique (inv : NameInv s) {names : List (List UInt8)} {c d : Nat} (left : PathTo s names c)
    (right : PathTo s names d) : c = d := by
  induction left generalizing d with
  | root => exact (PathTo.nil_iff.mp right).symm
  | child above used parent ih =>
      obtain ⟨p, above', used', parent', name⟩ := PathTo.snoc_iff.mp right
      cases ih above'
      exact inv.unique _ _ used used' (parent.trans parent'.symm) name.symm

theorem names_unique (inv : NameInv s) {names more : List (List UInt8)} {c : Nat} (left : PathTo s names c)
    (right : PathTo s more c) : names = more := by
  induction left generalizing more with
  | root =>
      cases right with
      | root => rfl
      | child above used parent =>
          rw [inv.tree.root_parent] at parent
          omega
  | child above used parent ih =>
      cases right with
      | root =>
          rw [inv.tree.root_parent] at parent
          omega
      | child above' used' parent' =>
          rw [parent] at parent'
          cases Int.ofNat.inj parent'
          rw [ih above']

/-! ## Lookup -/

theorem lookupChild_spec (inv : NameInv s) {p : Nat} (used : InUse s p) (n : List UInt8) :
    (∃ c : Nat, lookupChild s p n = some (c : Int) ∧ InUse s c ∧ (s.nodes c).parentId = p ∧ (s.nodes c).name = n) ∨
    lookupChild s p n = some (-eNOENT) ∧ ∀ c, InUse s c → (s.nodes c).parentId = p → (s.nodes c).name ≠ n := by
  obtain ⟨l, -, members, eq⟩ := inv.tree.lookupChild_eq used n
  cases found : l.find? fun i => (s.nodes i).name = n with
  | none =>
      rw [found] at eq
      refine Or.inr ⟨eq, fun c usedC parent name => ?_⟩
      have differs := List.find?_eq_none.mp found c ((members c).mpr ⟨usedC, parent⟩)
      simp [name] at differs
  | some c =>
      rw [found] at eq
      obtain ⟨usedC, parent⟩ := (members c).mp (List.mem_of_find?_eq_some found)
      exact Or.inl ⟨c, eq, usedC, parent, by simpa using List.find?_some found⟩

theorem lookupFrom_spec (inv : NameInv s) {names more : List (List UInt8)} {i : Nat} (path : PathTo s names i) :
    (∃ j : Nat, lookupFrom s i more = some (j : Int) ∧ PathTo s (names ++ more) j) ∨
    lookupFrom s i more = some (-eNOENT) ∧ ∀ j, ¬PathTo s (names ++ more) j := by
  induction more generalizing names i with
  | nil => exact Or.inl ⟨i, rfl, by simpa using path⟩
  | cons n more ih =>
      rcases inv.lookupChild_spec (inv.path_used path) n with ⟨c, found, used, parent, name⟩ | ⟨missing, none⟩
      · have below : PathTo s (names ++ [n]) c := PathTo.snoc_iff.mpr ⟨i, path, used, parent, name⟩
        have nonneg : ¬(c : Int) < 0 := Int.not_lt.mpr (Int.natCast_nonneg c)
        have rest := ih below
        rw [List.append_assoc, List.singleton_append] at rest
        simpa only [lookupFrom, found, Option.bind_some, if_neg nonneg] using rest
      · refine Or.inr ⟨by simp only [lookupFrom, missing, Option.bind_some]; rfl, fun j whole => ?_⟩
        rw [← List.singleton_append, ← List.append_assoc] at whole
        obtain ⟨c, below⟩ := whole.above
        obtain ⟨p, above, used, parent, name⟩ := PathTo.snoc_iff.mp below
        cases inv.path_unique path above
        exact none c used parent name

theorem resolvePath_spec (inv : NameInv s) {names : List (List UInt8)} (valid : ∀ n ∈ names, ValidName n) (k : Nat)
    (rooted : names ≠ [] ∨ 0 < k) :
    (∃ j : Nat, resolvePath s (render names ++ List.replicate k slash) = some (j : Int) ∧ PathTo s names j) ∨
    resolvePath s (render names ++ List.replicate k slash) = some (-eNOENT) ∧ ∀ j, ¬PathTo s names j := by
  rw [resolvePath_render s valid k rooted]
  exact inv.lookupFrom_spec PathTo.root

theorem lookup_eq (inv : NameInv s) (p : CanonicalPath) :
    (∀ j, PathTo s p.names j → tmpfsLookupPath s p.text = some (j : Int)) ∧
    ((∀ j, ¬PathTo s p.names j) → tmpfsLookupPath s p.text = some (-eNOENT)) := by
  have spec := inv.resolvePath_spec p.valid 0 (Or.inl p.nonempty)
  rw [List.replicate_zero, List.append_nil] at spec
  rcases spec with ⟨j, found, path⟩ | ⟨missing, none⟩
  · refine ⟨fun i other => ?_, fun absent => absurd path (absent j)⟩
    cases inv.path_unique path other
    exact found
  · exact ⟨fun i path => absurd path (none i), fun _ => missing⟩

theorem lookup_congr (inv : NameInv s) (inv' : NameInv t) {p : CanonicalPath}
    (same : ∀ j, PathTo t p.names j ↔ PathTo s p.names j) : tmpfsLookupPath t p.text = tmpfsLookupPath s p.text := by
  by_cases present : ∃ j, PathTo s p.names j
  · obtain ⟨j, path⟩ := present
    rw [(inv.lookup_eq p).1 j path, (inv'.lookup_eq p).1 j ((same j).mpr path)]
  · have absent : ∀ j, ¬PathTo s p.names j := fun j path => present ⟨j, path⟩
    rw [(inv.lookup_eq p).2 absent, (inv'.lookup_eq p).2 fun j path => absent j ((same j).mp path)]

end NameInv

end Mgcore
