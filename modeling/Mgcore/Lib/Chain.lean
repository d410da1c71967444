import Mathlib.Data.List.Nodup
import Mathlib.Data.List.Perm.Subperm

/-!
# Linked chains in a table

Links are values of a type `ι` that `decode` reads: `none` ends the chain, `some a` is the node `a`.
`Chain decode next start l` says that following `next` from the link `start` meets exactly the nodes `l`
and then ends. `walk` is the loop that searches such a chain.
-/

namespace Mgcore.Lib

section
variable {ι α : Type*} {decode : ι → Option α} {next next' : α → ι}

inductive Chain (decode : ι → Option α) (next : α → ι) : ι → List α → Prop
  | nil {start : ι} (done : decode start = none) : Chain decode next start []
  | cons {start : ι} {a : α} {l : List α} (here : decode start = some a)
      (rest : Chain decode next (next a) l) : Chain decode next start (a :: l)

namespace Chain

theorem unique {start : ι} {l m : List α} (left : Chain decode next start l)
    (right : Chain decode next start m) : l = m := by
  induction left generalizing m with
  | nil done =>
      cases right with
      | nil => rfl
      | cons here => rw [done] at here; cases here
  | cons here rest ih =>
      cases right with
      | nil done => rw [done] at here; cases here
      | cons here' rest' =>
          rw [here, Option.some.injEq] at here'
          subst here'
          rw [ih rest']

theorem eq_nil {start : ι} {l : List α} (chain : Chain decode next start l)
    (done : decode start = none) : l = [] := unique chain (.nil done)

theorem exists_split {start : ι} {l : List α} {a : α} (chain : Chain decode next start l) (member : a ∈ l) :
    ∃ before after, l = before ++ a :: after ∧ Chain decode next (next a) after := by
  induction chain with
  | nil => simp at member
  | @cons _ b rest _ tail ih =>
      rcases List.mem_cons.mp member with rfl | inner
      · exact ⟨[], rest, rfl, tail⟩
      · obtain ⟨before, after, eq, behind⟩ := ih inner
        exact ⟨b :: before, after, by rw [eq]; rfl, behind⟩

theorem nodup {start : ι} {l : List α} (chain : Chain decode next start l) : l.Nodup := by
  induction chain with
  | nil => exact List.nodup_nil
  | @cons _ a rest _ tail ih =>
      -- A second occurrence would start the same chain as the first one, and a shorter one.
      refine List.nodup_cons.mpr ⟨fun member => ?_, ih⟩
      obtain ⟨before, after, eq, behind⟩ := tail.exists_split member
      have length := congrArg List.length eq
      rw [unique behind tail] at length
      simp only [List.length_append, List.length_cons] at length
      omega

theorem congr {start : ι} {l : List α} (chain : Chain decode next start l)
    (same : ∀ a ∈ l, next' a = next a) : Chain decode next' start l := by
  induction chain with
  | nil done => exact .nil done
  | @cons _ a _ here _ ih =>
      refine .cons here ?_
      rw [same a (by simp)]
      exact ih fun b member => same b (by simp [member])

theorem splice {start : ι} {before after : List α} {p a : α}
    (chain : Chain decode next start (before ++ p :: a :: after))
    (redirected : next' p = next a) (same : ∀ b, b ≠ p → b ≠ a → next' b = next b) :
    Chain decode next' start (before ++ p :: after) := by
  have distinct := chain.nodup
  induction before generalizing start with
  | nil =>
      obtain _ | ⟨hereP, _ | ⟨hereA, rest⟩⟩ := chain
      simp only [List.nil_append, List.nodup_cons, List.mem_cons, not_or] at distinct
      refine .cons hereP ?_
      rw [redirected]
      refine rest.congr fun b member => same b ?_ ?_
      · rintro rfl; exact distinct.1.2 member
      · rintro rfl; exact distinct.2.1 member
  | cons b before ih =>
      obtain _ | ⟨here, rest⟩ := chain
      simp only [List.cons_append, List.nodup_cons, List.mem_append, List.mem_cons, not_or] at distinct
      refine .cons here ?_
      rw [same b distinct.1.2.1 distinct.1.2.2.1]
      exact ih rest distinct.2

theorem exists_predecessor {start : ι} {l : List α} {a : α} (chain : Chain decode next start l)
    (member : a ∈ l) (notFirst : decode start ≠ some a) :
    ∃ p ∈ l, decode (next p) = some a := by
  induction chain with
  | nil => simp at member
  | @cons _ b rest here tail ih =>
      have inner : a ∈ rest := by
        rcases List.mem_cons.mp member with rfl | inner
        · exact absurd here notFirst
        · exact inner
      by_cases first : decode (next b) = some a
      · exact ⟨b, by simp, first⟩
      · obtain ⟨p, memberP, link⟩ := ih inner first
        exact ⟨p, by simp [memberP], link⟩

end Chain

/-! ## Searching a chain -/

/-- The loop `while (link is a node) { if (stop node) return node; link = next node; }`: `none` when
the fuel runs out, `some none` when the chain ends. -/
def walk (decode : ι → Option α) (next : α → ι) (stop : α → Bool) : Nat → ι → Option (Option α)
  | 0, _ => none
  | fuel + 1, link =>
      match decode link with
      | none => some none
      | some a => if stop a then some (some a) else walk decode next stop fuel (next a)

theorem Chain.walk_eq {start : ι} {l : List α} (chain : Chain decode next start l) (stop : α → Bool)
    {fuel : Nat} (enough : l.length < fuel) : walk decode next stop fuel start = some (l.find? stop) := by
  induction chain generalizing fuel with
  | nil done =>
      obtain ⟨fuel, rfl⟩ : ∃ n, fuel = n + 1 := ⟨fuel - 1, by omega⟩
      simp [walk, done]
  | @cons _ a rest here _ ih =>
      obtain ⟨fuel, rfl⟩ : ∃ n, fuel = n + 1 := ⟨fuel - 1, by simp at enough; omega⟩
      have shorter : rest.length < fuel := by simpa using enough
      by_cases hit : stop a = true
      · simp [walk, here, hit]
      · simp [walk, here, hit, ih shorter]

theorem Chain.walk_predecessor {start : ι} {l : List α} {a : α} (chain : Chain decode next start l) (member : a ∈ l)
    (notFirst : decode start ≠ some a) {stop : α → Bool} (stops : ∀ b, stop b = true ↔ decode (next b) = some a)
    {fuel : Nat} (enough : l.length < fuel) :
    ∃ before b after, l = before ++ b :: a :: after ∧ walk decode next stop fuel start = some (some b) := by
  obtain ⟨q, memberQ, link⟩ := chain.exists_predecessor member notFirst
  obtain ⟨b, found⟩ : ∃ b, l.find? stop = some b := by
    rw [← Option.isSome_iff_exists, List.find?_isSome]
    exact ⟨q, memberQ, (stops q).mpr link⟩
  have linkB := (stops b).mp (List.find?_some found)
  obtain ⟨before, behind, eq, tail⟩ := chain.exists_split (List.mem_of_find?_eq_some found)
  obtain done | ⟨here, rest⟩ := tail
  · rw [linkB] at done
    cases done
  · rw [linkB, Option.some.injEq] at here
    subst here
    exact ⟨before, b, _, eq, by rw [chain.walk_eq stop enough, found]⟩

theorem length_le_of_nodup_lt {l : List Nat} {n : Nat} (distinct : l.Nodup) (bounded : ∀ a ∈ l, a < n) :
    l.length ≤ n := by
  have sub : l ⊆ List.range n := fun a member => List.mem_range.mpr (bounded a member)
  simpa using (List.subperm_of_subset distinct sub).length_le

end

end Mgcore.Lib
