import Mgcore.Lib.Split
import Mgcore.Tmpfs.Contents
import Mgcore.Tmpfs.Namespace

/-!
# Paths as components

`components` are the slash-free parts of a path, and `walkPath` goes from node to node by the names it is given. What
`resolve_path` walks by are the `tokens`: the components cut after every 31 bytes, the length of its buffer. The two
agree unless a component is too long and its parts happen to be names on the way.

A state is reachable if `tmpfs_init` and calls that create nodes of a real type lead to it; device numbers are stored by
`fs_init`. In such a state a name without a slash is found below a directory at most once. Names with a slash are there
too: a trailing slash stays in the leaf that `split_parent` cuts off.
-/

namespace Mgcore
open Function Lib

def components (path : List UInt8) : List (List UInt8) := runs (· = slash) path

def tokens (path : List UInt8) : List (List UInt8) := (components path).flatMap (cut (nameMax - 1))

def childNamed (s : Tmpfs) (p : Nat) (name : List UInt8) : Option Nat :=
  (List.range maxNodes).find? fun i => (s.nodes i).type ≠ .none ∧ (s.nodes i).parentId = p ∧ (s.nodes i).name = name

def walkStep (s : Tmpfs) (current : Nat) (name : List UInt8) : Option Nat :=
  if name = ascii "." then some current
  else if name = ascii ".." then some (if 0 ≤ (s.nodes current).parentId then (s.nodes current).parentId.toNat else 0)
  else childNamed s current name

def walkPath (s : Tmpfs) (names : List (List UInt8)) : Option Nat := run (walkStep s) 0 names

def nodeOrError (found : Option Nat) : Int := found.elim (-eNOENT) fun i => i

/-! ## Tokens -/

theorem components_append_slash (left right : List UInt8) :
    components (left ++ slash :: right) = components left ++ components right :=
  runs_append_break (by decide) left right

theorem mem_components {path name : List UInt8} (member : name ∈ components path) : name ≠ [] ∧ slash ∉ name := by
  obtain ⟨filled, plain⟩ := mem_runs member
  refine ⟨filled, fun inside => ?_⟩
  exact plain slash inside (decide_eq_true rfl)

theorem components_plain {name : List UInt8} (filled : name ≠ []) (plain : slash ∉ name) : components name = [name] := by
  apply runs_plain filled
  intro c member isSlash
  exact plain (of_decide_eq_true isSlash ▸ member)

theorem tokens_of_short {path : List UInt8} (short : ∀ name ∈ components path, name.length ≤ nameMax - 1) :
    tokens path = components path := by
  have each : ∀ name ∈ components path, cut (nameMax - 1) name = [name] := fun name member =>
    cut_short (mem_components member).1 (short name member)
  unfold tokens
  generalize components path = names at each
  induction names with
  | nil => rfl
  | cons name names ih =>
      rw [List.flatMap_cons, each name List.mem_cons_self, ih fun n member => each n (List.mem_cons_of_mem name member)]
      rfl

theorem mem_tokens {path name : List UInt8} (member : name ∈ tokens path) : slash ∉ name := by
  obtain ⟨component, inPath, piece⟩ := List.mem_flatMap.mp member
  exact fun inside => (mem_components inPath).2 (mem_cutLoop piece slash inside)

theorem head?_dropWhile_slash (text : List UInt8) : (text.dropWhile (· = slash)).head? ≠ some slash := by
  intro first
  have stops := List.head?_dropWhile_not (fun b : UInt8 => decide (b = slash)) text
  rw [first] at stops
  simp at stops

theorem tokens_dropWhile_slash (text : List UInt8) : tokens (text.dropWhile (· = slash)) = tokens text := by
  unfold tokens components
  rw [runs_dropWhile]

/-- One round of the loop of `resolve_path` takes the first token. -/
theorem tokens_cursor {cursor : List UInt8} (more : cursor ≠ []) (start : cursor.head? ≠ some slash) :
    let token := (cursor.takeWhile (· ≠ slash)).take (nameMax - 1)
    token ≠ [] ∧ slash ∉ token ∧
      tokens cursor = token :: tokens ((cursor.drop token.length).dropWhile (· = slash)) := by
  obtain ⟨word, hword⟩ : ∃ word, word = cursor.takeWhile (· ≠ slash) := ⟨_, rfl⟩
  obtain ⟨rest, hrest⟩ : ∃ rest, rest = cursor.dropWhile (· ≠ slash) := ⟨_, rfl⟩
  have whole : cursor = word ++ rest := by rw [hword, hrest, List.takeWhile_append_dropWhile]
  have plain : ∀ c ∈ word, ¬decide (c = slash) = true := by
    intro c member
    rw [hword] at member
    simpa using List.mem_takeWhile_imp member
  have noSlash : slash ∉ word := fun member => plain slash member (decide_eq_true rfl)
  have filled : word ≠ [] := by
    obtain ⟨c, text, rfl⟩ := List.exists_cons_of_ne_nil more
    have other : c ≠ slash := by simpa using start
    rw [hword, List.takeWhile_cons_of_pos (by simpa using other)]
    exact List.cons_ne_nil _ _
  have ends : ∀ c, rest.head? = some c → decide (c = slash) = true := by
    intro c first
    have stops := List.head?_dropWhile_not (fun b : UInt8 => decide (b ≠ slash)) cursor
    rw [← hrest, first] at stops
    simpa using stops
  have parts : components cursor = word :: components rest := by
    rw [whole]
    exact runs_word_break filled plain ends
  dsimp only
  rw [← hword]
  refine ⟨?_, fun member => noSlash (List.mem_of_mem_take member), ?_⟩
  · intro empty
    obtain ⟨c, text, rfl⟩ := List.exists_cons_of_ne_nil filled
    simp [nameMax] at empty
  rw [tokens_dropWhile_slash]
  rcases Nat.lt_or_ge (nameMax - 1) word.length with long | short
  · -- the rest of the component is the next word of the cursor
    have size : (word.take (nameMax - 1)).length = nameMax - 1 := List.length_take_of_le (Nat.le_of_lt long)
    have tail : cursor.drop (nameMax - 1) = word.drop (nameMax - 1) ++ rest := by
      rw [whole, List.drop_append_of_le_length (Nat.le_of_lt long)]
    have left : word.drop (nameMax - 1) ≠ [] := by
      intro empty
      have := congrArg List.length empty
      rw [List.length_drop, List.length_nil] at this
      omega
    have next : components (word.drop (nameMax - 1) ++ rest) = word.drop (nameMax - 1) :: components rest :=
      runs_word_break left (fun c member => plain c (List.mem_of_mem_drop member)) ends
    rw [size, tail, tokens, parts, tokens, next, List.flatMap_cons, List.flatMap_cons,
      cut_cons (by decide) filled, List.cons_append]
  · have all : word.take (nameMax - 1) = word := List.take_of_length_le short
    have tail : cursor.drop word.length = rest := by rw [whole, List.drop_left]
    rw [all, tail, tokens, parts, List.flatMap_cons, cut_short filled short]
    rfl

/-- The loop of `resolve_path` over the tokens. -/
def resolveTokens (s : Tmpfs) : List (List UInt8) → Int → Option Int
  | [], current => some current
  | token :: names, current =>
      if token = ascii "." then resolveTokens s names current
      else if token = ascii ".." then
        resolveTokens s names (if 0 ≤ (s.node current).parentId then (s.node current).parentId else 0)
      else
        (lookupChild s current token).bind fun child =>
          if child < 0 then some child else resolveTokens s names child

theorem resolveLoop_tokens (s : Tmpfs) {fuel : Nat} {cursor : List UInt8} (enough : cursor.length < fuel)
    (start : cursor.head? ≠ some slash) (current : Int) :
    resolveLoop s fuel cursor current = resolveTokens s (tokens cursor) current := by
  induction fuel generalizing cursor current with
  | zero => omega
  | succ fuel ih =>
      unfold resolveLoop
      by_cases done : cursor = []
      · rw [if_pos done, done]
        rfl
      obtain ⟨filled, -, next⟩ := tokens_cursor done start
      have shorter := resolveRest_length done
      rw [if_neg done, next, resolveTokens]
      dsimp only
      generalize (cursor.takeWhile (· ≠ slash)).take (nameMax - 1) = token at filled shorter ⊢
      have go (node : Int) := ih (Nat.lt_of_lt_of_le shorter (Nat.le_of_lt_succ enough))
        (head?_dropWhile_slash (cursor.drop token.length)) node
      by_cases dot : token = ascii "."
      · rw [if_pos (Or.inr dot), if_pos dot, go]
      rw [if_neg (not_or.mpr ⟨filled, dot⟩), if_neg dot]
      by_cases dots : token = ascii ".."
      · rw [if_pos dots, if_pos dots, go]
      · simp only [if_neg dots, go]

theorem resolvePath_tokens (s : Tmpfs) {path : List UInt8} (rooted : path.head? = some slash) :
    resolvePath s path = resolveTokens s (tokens path) 0 := by
  obtain ⟨rest, rfl⟩ := List.head?_eq_some_iff.mp rooted
  unfold resolvePath
  rw [if_neg (not_not.mpr rooted)]
  split_ifs with bare
  · have empty : rest = [] := by simpa using bare
    rw [empty]
    rfl
  · have enough : ((slash :: rest).dropWhile (· = slash)).length < (slash :: rest).length + 1 :=
      Nat.lt_succ_of_le (List.dropWhile_sublist _).length_le
    rw [resolveLoop_tokens s enough (head?_dropWhile_slash _), tokens_dropWhile_slash]

/-- The names on the way decide what is found, in whatever state the nodes are. -/
theorem resolvePath_congr (s : Tmpfs) {path path' : List UInt8} (rooted : path.head? = some slash)
    (rooted' : path'.head? = some slash) (same : components path' = components path) :
    resolvePath s path' = resolvePath s path := by
  rw [resolvePath_tokens s rooted, resolvePath_tokens s rooted', tokens, tokens, same]

/-! ## Children by name -/

structure ChildInv (s : Tmpfs) : Prop where
  tree : TreeInv s
  short : ∀ i, InUse s i → (s.nodes i).name.length ≤ nameMax - 1
  unique : ∀ i j, InUse s i → InUse s j → (s.nodes i).parentId = (s.nodes j).parentId →
    (s.nodes i).name = (s.nodes j).name → slash ∉ (s.nodes i).name → i = j

theorem childNamed_eq_some {s : Tmpfs} {p c : Nat} {name : List UInt8} (found : childNamed s p name = some c) :
    InUse s c ∧ (s.nodes c).parentId = p ∧ (s.nodes c).name = name := by
  have holds := List.find?_some found
  exact of_decide_eq_true holds

theorem walkStep_used {s : Tmpfs} (inv : TreeInv s) {current next : Nat} (used : InUse s current) {name : List UInt8}
    (steps : walkStep s current name = some next) : InUse s next := by
  unfold walkStep at steps
  split_ifs at steps with dot dots above
  · cases steps
    exact used
  · cases steps
    obtain ⟨p, parent⟩ := Int.eq_ofNat_of_zero_le above
    rw [parent, InUse, Int.toNat_natCast, inv.parent_dir used parent]
    simp
  · cases steps
    exact inv.root_used
  · exact (childNamed_eq_some steps).1

theorem nodeOrError_eq {found : Option Nat} {i : Nat} : nodeOrError found = i ↔ found = some i := by
  cases found with
  | none => simp [nodeOrError, eNOENT]
  | some j =>
      rw [Option.some.injEq]
      exact Int.ofNat_inj

theorem nodeOrError_neg {found : Option Nat} : nodeOrError found < 0 ↔ found = none := by
  cases found with
  | none => simp [nodeOrError, eNOENT]
  | some j => simp [nodeOrError]

namespace ChildInv
variable {s t : Tmpfs}

theorem childNamed_none (inv : ChildInv s) {p : Nat} {name : List UInt8} (missing : childNamed s p name = none) {c : Nat}
    (used : InUse s c) (parent : (s.nodes c).parentId = p) : (s.nodes c).name ≠ name := by
  intro same
  have fails := List.find?_eq_none.mp missing c (List.mem_range.mpr (inv.tree.bounded c used))
  exact fails (decide_eq_true ⟨used, parent, same⟩)

theorem childNamed_eq (inv : ChildInv s) {p c : Nat} (used : InUse s c) (parent : (s.nodes c).parentId = p)
    (plain : slash ∉ (s.nodes c).name) : childNamed s p (s.nodes c).name = some c := by
  cases found : childNamed s p (s.nodes c).name with
  | none => exact absurd rfl (inv.childNamed_none found used parent)
  | some d =>
      obtain ⟨usedD, parentD, same⟩ := childNamed_eq_some found
      rw [inv.unique c d used usedD (parent.trans parentD.symm) same.symm plain]

theorem lookupChild_eq (inv : ChildInv s) {p : Nat} (used : InUse s p) {name : List UInt8} (plain : slash ∉ name) :
    lookupChild s p name = some (nodeOrError (childNamed s p name)) := by
  obtain ⟨l, -, members, eq⟩ := inv.tree.lookupChild_eq used name
  rw [eq]
  cases found : l.find? fun i => (s.nodes i).name = name with
  | some c =>
      obtain ⟨usedC, parent⟩ := (members c).mp (List.mem_of_find?_eq_some found)
      have same : (s.nodes c).name = name := by simpa using List.find?_some found
      rw [← same, inv.childNamed_eq usedC parent (same ▸ plain)]
      rfl
  | none =>
      cases other : childNamed s p name with
      | none => rfl
      | some c =>
          obtain ⟨usedC, parent, same⟩ := childNamed_eq_some other
          have differs := List.find?_eq_none.mp found c ((members c).mpr ⟨usedC, parent⟩)
          exact absurd (decide_eq_true same) differs

/-! ## Resolution is a walk -/

theorem resolveTokens_walk (inv : ChildInv s) {names : List (List UInt8)} (plain : ∀ name ∈ names, slash ∉ name)
    {current : Nat} (used : InUse s current) :
    resolveTokens s names current = some (nodeOrError (run (walkStep s) current names)) := by
  induction names generalizing current with
  | nil => rfl
  | cons token names ih =>
      have go {node : Nat} (usedNode : InUse s node) :=
        @ih (fun name member => plain name (List.mem_cons_of_mem token member)) node usedNode
      have up : (if 0 ≤ (s.node current).parentId then (s.node current).parentId else 0) =
          ((if 0 ≤ (s.nodes current).parentId then (s.nodes current).parentId.toNat else 0 : Nat) : Int) := by
        rw [Tmpfs.node_natCast]
        split_ifs with above
        · exact (Int.toNat_of_nonneg above).symm
        · rfl
      rw [resolveTokens, run_cons, up]
      by_cases dot : token = ascii "."
      · have step : walkStep s current token = some current := if_pos dot
        rw [if_pos dot, step, go used, Option.bind_some]
      rw [if_neg dot]
      by_cases dots : token = ascii ".."
      · have step : walkStep s current token = some _ := (if_neg dot).trans (if_pos dots)
        rw [if_pos dots, step, go (walkStep_used inv.tree used step), Option.bind_some]
      · have step : walkStep s current token = childNamed s current token := (if_neg dot).trans (if_neg dots)
        rw [if_neg dots, step, inv.lookupChild_eq used (plain token List.mem_cons_self), Option.bind_some]
        cases found : childNamed s current token with
        | none => rfl
        | some child =>
            have nonneg : ¬nodeOrError (some child) < 0 := Int.not_lt.mpr (Int.natCast_nonneg child)
            rw [if_neg nonneg, Option.bind_some]
            exact go (childNamed_eq_some found).1

theorem resolvePath_walk (inv : ChildInv s) {path : List UInt8} (rooted : path.head? = some slash) :
    resolvePath s path = some (nodeOrError (walkPath s (tokens path))) := by
  rw [resolvePath_tokens s rooted]
  exact inv.resolveTokens_walk (fun name member => mem_tokens member) inv.tree.root_used

end ChildInv

/-! ## Splitting off the leaf -/

/-- Where `split_parent` cuts a rooted path: before the last component, whose trailing slashes stay with it. -/
theorem splitText_rooted {path : List UInt8} (rooted : path.head? = some slash) :
    ∃ above component trailing, splitText path = (above ++ [slash], component ++ trailing) ∧
      path = above ++ [slash] ++ (component ++ trailing) ∧ slash ∉ component ∧ ∀ b ∈ trailing, b = slash := by
  obtain ⟨component, trailing, leaf, whole, plain, slashes⟩ := drop_lastComponent path
  by_cases bare : lastComponent path = 0
  · -- a rooted path without a second component has slashes only
    rw [bare, List.take_zero, List.nil_append] at whole
    have empty : component = [] := by
      cases component with
      | nil => rfl
      | cons c component =>
          rw [whole] at rooted
          cases Option.some.inj rooted
          exact absurd List.mem_cons_self plain
    rw [empty, List.nil_append] at whole
    obtain ⟨rest, rfl⟩ := List.head?_eq_some_iff.mp rooted
    refine ⟨[], [], rest, ?_, rfl, List.not_mem_nil, fun b member => slashes b (whole ▸ List.mem_cons_of_mem _ member)⟩
    rw [splitText, if_pos bare, if_pos rooted]
    rfl
  · obtain ⟨back, hback⟩ : ∃ back, back = (path.reverse.dropWhile (· = slash)).dropWhile (· ≠ slash) := ⟨_, rfl⟩
    have size : lastComponent path = back.reverse.length := by rw [hback, List.length_reverse]; rfl
    have start : path.take (lastComponent path) = back.reverse := by
      have suffix : back <:+ path.reverse := by
        rw [hback]
        exact (List.dropWhile_suffix _).trans (List.dropWhile_suffix _)
      have front := List.reverse_prefix.mpr suffix
      rw [List.reverse_reverse] at front
      rw [size]
      exact (List.prefix_iff_eq_take.mp front).symm
    obtain ⟨b, others, cons⟩ : ∃ b others, back = b :: others := by
      apply List.exists_cons_of_ne_nil
      intro empty
      rw [size, empty] at bare
      exact bare rfl
    have isSlash : b = slash := by
      have stops := List.head?_dropWhile_not (fun c : UInt8 => decide (c ≠ slash)) (path.reverse.dropWhile (· = slash))
      rw [← hback, cons] at stops
      simpa using stops
    rw [cons, List.reverse_cons, isSlash] at start
    refine ⟨others.reverse, component, trailing, ?_, ?_, plain, slashes⟩
    · rw [splitText, if_neg bare, start, leaf]
    · rw [start, List.append_assoc] at whole
      exact whole

theorem components_word_slashes {component trailing : List UInt8} (filled : component ≠ []) (plain : slash ∉ component)
    (slashes : ∀ b ∈ trailing, b = slash) : components (component ++ trailing) = [component] := by
  have none : components trailing = [] := runs_breaks fun c member => decide_eq_true (slashes c member)
  unfold components at none ⊢
  rw [runs_word_break filled, none]
  · exact fun c member isSlash => plain (of_decide_eq_true isSlash ▸ member)
  · exact fun c first => decide_eq_true (slashes c (List.mem_of_head? first))

theorem walkPath_append (s : Tmpfs) (names : List (List UInt8)) (name : List UInt8) :
    walkPath s (names ++ [name]) = (walkPath s names).bind fun p => walkStep s p name := by
  unfold walkPath
  rw [run_append]
  congr 1
  funext p
  rw [run_cons]
  cases walkStep s p name <;> rfl

theorem splitParent_leaf {path parent leaf : List UInt8} (split : splitParent path = some (parent, leaf)) :
    leaf.length < nameMax := by
  have text := splitParent_eq_some split
  simp only [splitParent, Option.bind_eq_bind, Option.bind_eq_some_iff, text] at split
  obtain ⟨-, -, copied, fits, both⟩ := split
  unfold copyInto at fits
  split_ifs at fits with short
  exact short

/-- What is known of a node that `tmpfs_create_path` adds: its component is missing below the directory that the names
above lead to. -/
structure NewLeaf (s : Tmpfs) (path : List UInt8) (above : List (List UInt8)) (p : Nat)
    (component trailing : List UInt8) : Prop where
  filled : component ≠ []
  plain : slash ∉ component
  slashes : ∀ b ∈ trailing, b = slash
  short : (component ++ trailing).length < nameMax
  ends : path.getLast? = some slash ↔ trailing ≠ []
  names : tokens path = above ++ [component]
  reaches : walkPath s above = some p
  missing : walkStep s p component = none

theorem NewLeaf.unnamed {s : Tmpfs} {path component trailing : List UInt8} {above : List (List UInt8)} {p : Nat}
    (new : NewLeaf s path above p component trailing) :
    component ≠ ascii "." ∧ component ≠ ascii ".." ∧ childNamed s p component = none := by
  have lost := new.missing
  unfold walkStep at lost
  split_ifs at lost with dot dots
  exact ⟨dot, dots, lost⟩

theorem NewLeaf.unresolved {s : Tmpfs} {path component trailing : List UInt8} {above : List (List UInt8)} {p : Nat}
    (new : NewLeaf s path above p component trailing) (inv : ChildInv s) (rooted : path.head? = some slash) :
    resolvePath s path = some (-eNOENT) := by
  rw [inv.resolvePath_walk rooted, new.names, walkPath_append, new.reaches, Option.bind_some, new.missing]
  rfl

theorem ChildInv.newLeaf {s : Tmpfs} (inv : ChildInv s) {path parent leaf : List UInt8} {p : Nat} {e : Int}
    (rooted : path.head? = some slash) (resolved : resolvePath s path = some e) (unresolved : e < 0)
    (split : splitParent path = some (parent, leaf)) (resolvedParent : resolvePath s parent = some (p : Int)) :
    ∃ above component trailing, leaf = component ++ trailing ∧ NewLeaf s path above p component trailing := by
  obtain ⟨above, component, trailing, text, whole, plain, slashes⟩ := splitText_rooted rooted
  have short := splitParent_leaf split
  rw [splitParent_eq_some split] at text
  obtain ⟨rfl, rfl⟩ := Prod.mk.inj text
  have rootedParent : (above ++ [slash]).head? = some slash := by
    rw [whole] at rooted
    cases above with
    | nil => rfl
    | cons c above => exact rooted
  -- the names above are those of the parent
  have parentNames : tokens (above ++ [slash]) = tokens above := by
    unfold tokens components
    rw [runs_append_one (by decide)]
  have reaches : walkPath s (tokens above) = some p := by
    rw [inv.resolvePath_walk rootedParent, parentNames, Option.some.injEq] at resolvedParent
    exact nodeOrError_eq.mp resolvedParent
  have allNames : tokens path = tokens above ++ tokens (component ++ trailing) := by
    unfold tokens
    rw [whole, List.append_assoc, List.singleton_append, components_append_slash, List.flatMap_append]
  have walk : walkPath s (tokens path) = none := by
    rw [inv.resolvePath_walk rooted, Option.some.injEq] at resolved
    exact nodeOrError_neg.mp (resolved ▸ unresolved)
  have filled : component ≠ [] := by
    rintro rfl
    have none : components trailing = [] := runs_breaks fun c member => decide_eq_true (slashes c member)
    rw [allNames, List.nil_append, show tokens trailing = [] by rw [tokens, none]; rfl, List.append_nil, reaches] at walk
    cases walk
  have leafNames : tokens (component ++ trailing) = [component] := by
    have bound : component.length ≤ nameMax - 1 := by
      rw [List.length_append] at short
      omega
    rw [tokens, components_word_slashes filled plain slashes, List.flatMap_cons, cut_short filled bound]
    rfl
  have names : tokens path = tokens above ++ [component] := by rw [allNames, leafNames]
  refine ⟨tokens above, component, trailing, rfl, filled, plain, slashes, short, ?_, names, reaches, ?_⟩
  · rw [whole]
    constructor
    · rintro last rfl
      rw [List.append_nil, List.getLast?_append_of_ne_nil _ filled] at last
      exact plain (List.mem_of_getLast? last)
    · intro some
      rw [← List.append_assoc, List.getLast?_append_of_ne_nil _ some]
      rw [List.getLast?_eq_getLast_of_ne_nil some, slashes _ (List.getLast_mem some)]
  · rw [names, walkPath_append, reaches] at walk
    exact walk

/-! ## Reachable states -/

def TmpfsOp.Typed : TmpfsOp → Prop
  | .create _ type _ => type ≠ .none
  | _ => True

inductive TmpfsReachable : Tmpfs → Prop
  | init (before : Tmpfs) : TmpfsReachable (tmpfsInit before)
  | step {s t : Tmpfs} (reached : TmpfsReachable s) (op : TmpfsOp) (typed : op.Typed) (steps : tmpfsStep s op = some t) :
      TmpfsReachable t
  | device {s : Tmpfs} (reached : TmpfsReachable s) (i : Nat) (deviceId : Int) :
      TmpfsReachable (s.setNode i { s.nodes i with deviceId := deviceId })

theorem tmpfsCreatePath_rooted {s t : Tmpfs} {path : List UInt8} {type : NodeType} {mode : UInt32} {r : Int}
    (returns : tmpfsCreatePath s path type mode = some (r, t)) :
    (t = s ∧ r < 0) ∨ path.head? = some slash ∧ path.length ≠ 1 := by
  by_cases malformed : path.head? ≠ some slash ∨ path.length = 1
  · rw [tmpfsCreatePath, if_pos malformed] at returns
    cases returns
    exact Or.inl ⟨rfl, by decide⟩
  · obtain ⟨rooted, filled⟩ := not_or.mp malformed
    exact Or.inr ⟨not_not.mp rooted, filled⟩

namespace ChildInv
variable {s t : Tmpfs}

theorem congr (inv : ChildInv s) (tree : TreeInv t) (same : ∀ i, (t.nodes i).type = (s.nodes i).type ∧
    (t.nodes i).parentId = (s.nodes i).parentId ∧ (t.nodes i).name = (s.nodes i).name) : ChildInv t := by
  have types : ∀ i, (t.nodes i).type = (s.nodes i).type := fun i => (same i).1
  have parents : ∀ i, (t.nodes i).parentId = (s.nodes i).parentId := fun i => (same i).2.1
  have names : ∀ i, (t.nodes i).name = (s.nodes i).name := fun i => (same i).2.2
  refine ⟨tree, ?_, ?_⟩
  · simpa only [InUse, types, names] using inv.short
  · simpa only [InUse, types, parents, names] using inv.unique

/-- A new leaf is fresh among its siblings, or has a slash in its name. -/
theorem insertChild (inv : ChildInv s) {path component trailing : List UInt8} {above : List (List UInt8)} {p id : Nat}
    (new : NewLeaf s path above p component trailing) (free : freeSlot s = some id) (isDir : (s.nodes p).type = .dir)
    {type : NodeType} (kind : type ≠ .none) (mode : UInt32) :
    ChildInv (insertChild s id p (component ++ trailing) type mode) := by
  obtain ⟨noType, bound⟩ := freeSlot_spec free
  have other : p ≠ id := dir_ne_free isDir noType
  have whole : (component ++ trailing).take (nameMax - 1) = component ++ trailing :=
    List.take_of_length_le (Nat.le_pred_of_lt new.short)
  have types := insertChild_type (s := s) other (component ++ trailing) type mode
  have parents := insertChild_parentId (s := s) other (component ++ trailing) type mode
  have names := insertChild_name (s := s) other (component ++ trailing) type mode
  rw [whole] at names
  have fresh {j : Nat} (used : InUse s j) (parent : (s.nodes j).parentId = p)
      (same : (s.nodes j).name = component ++ trailing) (plain : slash ∉ component ++ trailing) : False := by
    have bare : trailing = [] := by
      cases trailing with
      | nil => rfl
      | cons b trailing =>
          rw [new.slashes b List.mem_cons_self] at plain
          exact absurd (List.mem_append_right _ List.mem_cons_self) plain
    rw [bare, List.append_nil] at same
    exact inv.childNamed_none new.unnamed.2.2 used parent same
  refine ⟨inv.tree.insertChild noType bound isDir _ kind mode, ?_, ?_⟩
  · intro i used
    rw [InUse, types] at used
    rw [names]
    split_ifs at used ⊢ with isNew
    · exact Nat.le_pred_of_lt new.short
    · exact inv.short i used
  · intro i j usedI usedJ sameParent sameName plain
    rw [InUse, types] at usedI usedJ
    rw [parents, parents] at sameParent
    rw [names, names] at sameName
    rw [names] at plain
    split_ifs at usedI usedJ sameParent sameName plain with newI newJ newJ
    · rw [newI, newJ]
    · exact (fresh usedJ sameParent.symm sameName.symm plain).elim
    · exact (fresh usedI sameParent sameName (sameName ▸ plain)).elim
    · exact inv.unique i j usedI usedJ sameParent sameName plain

theorem create (inv : ChildInv s) {path : List UInt8} {type : NodeType} {mode : UInt32} {r : Int} (kind : type ≠ .none)
    (returns : tmpfsCreatePath s path type mode = some (r, t)) :
    ChildInv t ∧ ((t = s ∧ (r < 0 ∨ resolvePath s path = some r)) ∨
      ∃ above component trailing, ∃ p id : Nat, NewLeaf s path above p component trailing ∧
        (s.nodes p).type = .dir ∧ freeSlot s = some id ∧ r = id ∧
        t = Mgcore.insertChild s id p (component ++ trailing) type mode) := by
  rcases tmpfsCreatePath_rooted returns with ⟨rfl, failed⟩ | ⟨rooted, -⟩
  · exact ⟨inv, Or.inl ⟨rfl, Or.inl failed⟩⟩
  rcases tmpfsCreatePath_cases returns with ⟨rfl, result⟩ |
    ⟨e, parent, leaf, p, id, resolved, unresolved, split, resolvedParent, isDir, free, rfl, rfl⟩
  · exact ⟨inv, Or.inl ⟨rfl, result⟩⟩
  · obtain ⟨above, component, trailing, rfl, new⟩ := inv.newLeaf rooted resolved unresolved split resolvedParent
    exact ⟨inv.insertChild new free isDir kind mode,
      Or.inr ⟨above, component, trailing, p, id, new, isDir, free, rfl, rfl⟩⟩

theorem removal (inv : ChildInv s) {path : List UInt8} {wantDir : Bool} {r : Int}
    (returns : tmpfsRemovePath s path wantDir = some (r, t)) : ChildInv t := by
  have tree := inv.tree.removal returns
  rcases inv.tree.remove_cases returns with ⟨rfl, -⟩ | ⟨id, p, u, -, -, -, -, -, -, unlinked, -, rfl⟩
  · exact inv
  · refine ⟨tree, ?_, ?_⟩
    · intro i used
      obtain ⟨-, old, -, name⟩ := NameInv.removed_fields unlinked used
      rw [name]
      exact inv.short i old
    · intro i j usedI usedJ sameParent sameName plain
      obtain ⟨-, oldI, parentI, nameI⟩ := NameInv.removed_fields unlinked usedI
      obtain ⟨-, oldJ, parentJ, nameJ⟩ := NameInv.removed_fields unlinked usedJ
      rw [parentI, parentJ] at sameParent
      rw [nameI, nameJ] at sameName
      rw [nameI] at plain
      exact inv.unique i j oldI oldJ sameParent sameName plain

theorem init (before : Tmpfs) : ChildInv (tmpfsInit before) := by
  have onlyRoot : ∀ i, InUse (tmpfsInit before) i → i = 0 := by
    intro i used
    by_contra other
    simp [InUse, tmpfsInit, other] at used
  have root : (tmpfsInit before).nodes 0 = rootNode := by simp [tmpfsInit]
  refine ⟨TreeInv.init before, ?_, ?_⟩
  · intro i used
    rw [onlyRoot i used, root]
    decide
  · intro i j usedI usedJ _ _ _
    rw [onlyRoot i usedI, onlyRoot j usedJ]

theorem device (inv : ChildInv s) (i : Nat) (deviceId : Int) :
    ChildInv (s.setNode i { s.nodes i with deviceId := deviceId }) := by
  have tree : TreeInv (s.setNode i { s.nodes i with deviceId := deviceId }) := by
    refine inv.tree.congr fun j => ?_
    by_cases same : j = i
    · subst same; simp
    · simp [same]
  refine inv.congr tree fun j => ?_
  by_cases same : j = i
  · subst same; simp
  · simp [same]

theorem of_reachable (reached : TmpfsReachable s) : ChildInv s := by
  induction reached with
  | init before => exact ChildInv.init before
  | device _ i deviceId inv => exact inv.device i deviceId
  | @step s t _ op typed steps inv =>
      cases op with
      | create path type mode =>
          obtain ⟨⟨r, u⟩, returns, rfl⟩ := Option.map_eq_some_iff.mp steps
          exact (inv.create typed returns).1
      | remove path wantDir =>
          obtain ⟨⟨r, u⟩, returns, rfl⟩ := Option.map_eq_some_iff.mp steps
          exact inv.removal returns
      | write nodeId buffer offset =>
          cases steps
          refine inv.congr (inv.tree.write nodeId buffer offset) fun j => ?_
          obtain ⟨type, -, parent, -, -, name⟩ := VfsNode.of_header (tmpfsWriteNode_header s nodeId buffer offset j)
          exact ⟨type, parent, name⟩
      | read nodeId count offset =>
          cases steps
          exact inv

end ChildInv

theorem TmpfsReachable.run {s t : Tmpfs} {ops : List TmpfsOp} (reached : TmpfsReachable s) (typed : ∀ op ∈ ops, op.Typed)
    (reaches : Lib.run tmpfsStep s ops = some t) : TmpfsReachable t :=
  Lib.run_invariant (fun _ op _ reached typed steps => reached.step op typed steps) typed reached reaches

/-! ## Component-wise resolution -/

theorem ChildInv.walkPath_long {s : Tmpfs} (inv : ChildInv s) {names : List (List UInt8)} {name : List UInt8}
    (member : name ∈ names) (long : nameMax - 1 < name.length) : walkPath s names = none := by
  have fails (q : Nat) : walkStep s q name = none := by
    have notDot : name ≠ ascii "." := by
      rintro rfl
      exact absurd long (by decide)
    have notDots : name ≠ ascii ".." := by
      rintro rfl
      exact absurd long (by decide)
    rw [walkStep, if_neg notDot, if_neg notDots]
    cases found : childNamed s q name with
    | none => rfl
    | some c =>
        obtain ⟨used, -, same⟩ := childNamed_eq_some found
        have short := inv.short c used
        rw [same] at short
        omega
  obtain ⟨before, after, rfl⟩ := List.append_of_mem member
  unfold walkPath
  rw [run_append]
  cases run (walkStep s) 0 before with
  | none => rfl
  | some q =>
      rw [Option.bind_some, run_cons, fails q]
      rfl

structure ResolvesByComponents (s : Tmpfs) (path : List UInt8) : Prop where
  fold : resolvePath s path = some (nodeOrError (walkPath s (components path)))
  long : (∃ name ∈ components path, 31 < name.length) → ∃ r, r < 0 ∧ resolvePath s path = some r

/-- Resolution follows the components of a path, except where the 31-byte pieces of one that is too long are names of
nodes below each other. -/
theorem resolve_by_components_iff {s : Tmpfs} (reached : TmpfsReachable s) {path : List UInt8}
    (rooted : path.head? = some slash) :
    ResolvesByComponents s path ↔
      (∀ name ∈ components path, name.length ≤ 31) ∨ walkPath s (tokens path) = none := by
  have inv := ChildInv.of_reachable reached
  have walk := inv.resolvePath_walk rooted
  constructor
  · intro byComponents
    cases found : walkPath s (tokens path) with
    | none => exact Or.inr rfl
    | some i =>
        refine Or.inl fun name member => ?_
        by_contra long
        obtain ⟨r, negative, resolves⟩ := byComponents.long ⟨name, member, Nat.lt_of_not_le long⟩
        rw [walk, found, Option.some.injEq] at resolves
        rw [← resolves] at negative
        exact absurd (nodeOrError_neg.mp negative) (by simp)
  · intro condition
    by_cases short : ∀ name ∈ components path, name.length ≤ 31
    · refine ⟨by rw [walk, tokens_of_short short], ?_⟩
      rintro ⟨name, member, long⟩
      exact absurd (short name member) (Nat.not_le.mpr long)
    · have lost := condition.resolve_left short
      obtain ⟨name, member, long⟩ : ∃ name ∈ components path, 31 < name.length := by
        simpa using short
      rw [lost] at walk
      refine ⟨by rw [walk, inv.walkPath_long member long], fun _ => ⟨-eNOENT, by decide, walk⟩⟩

def aliasRun : List TmpfsOp :=
  [.create (slash :: List.replicate 31 97) .dir 0o755,
    .create (slash :: List.replicate 31 97 ++ ascii "/b") .file 0o644]

def aliasPath : List UInt8 := slash :: List.replicate 31 97 ++ ascii "b"

theorem aliasRun_typed : ∀ op ∈ aliasRun, op.Typed := by
  intro op member
  simp only [aliasRun, List.mem_cons, List.not_mem_nil, or_false] at member
  rcases member with rfl | rfl
  · simp [TmpfsOp.Typed]
  · simp [TmpfsOp.Typed]

def nestedRun : List TmpfsOp :=
  [.create (ascii "/a") .dir 0o755, .create (ascii "/a/b") .dir 0o755, .create (ascii "/a/b/c") .file 0o644]

def nestedPath : List UInt8 := ascii "//a/./b/../b//c"

theorem nestedRun_typed : ∀ op ∈ nestedRun, op.Typed := by
  intro op member
  simp only [nestedRun, List.mem_cons, List.not_mem_nil, or_false] at member
  rcases member with rfl | rfl | rfl <;> simp [TmpfsOp.Typed]

theorem resolve_by_components_iff_sample :
    ∃ s, TmpfsReachable s ∧ nestedPath.head? = some slash ∧ resolvePath s nestedPath = some 3 ∧
      ResolvesByComponents s nestedPath := by
  have found : ((run tmpfsStep (tmpfsInit {}) nestedRun).bind fun s => resolvePath s nestedPath) = some 3 := by
    decide +kernel
  obtain ⟨s, reaches, resolves⟩ := Option.bind_eq_some_iff.mp found
  have reached := (TmpfsReachable.init {}).run nestedRun_typed reaches
  exact ⟨s, reached, rfl, resolves, (resolve_by_components_iff reached rfl).mpr (Or.inl (by decide))⟩

/-- A 32-byte component is found: its first 31 bytes name a directory and its last one a file in it. -/
theorem long_component_resolves :
    ∃ s, TmpfsReachable s ∧ aliasPath.head? = some slash ∧ ¬ResolvesByComponents s aliasPath := by
  have found : ((run tmpfsStep (tmpfsInit {}) aliasRun).bind fun s => resolvePath s aliasPath) = some 2 := by
    decide +kernel
  obtain ⟨s, reaches, resolves⟩ := Option.bind_eq_some_iff.mp found
  refine ⟨s, (TmpfsReachable.init {}).run aliasRun_typed reaches, rfl, fun byComponents => ?_⟩
  obtain ⟨r, negative, same⟩ := byComponents.long (by decide)
  rw [resolves] at same
  cases same
  exact absurd negative (by decide)

end Mgcore
