import Mathlib.Data.List.Basic

/-!
# Runs of a partial step function

`step s op = none` is a call that does not return. A run is `List.foldlM` in `Option`; the rules below
reduce a statement about every run to one about every step. `Along step guard s ops` says that each
step of the run from `s` starts in a state that meets `guard`, and `transcript` is what the steps put out.
`trace` is the run of a total step function that also answers, and `trace_simulates` compares the answers of
two of them.
-/

namespace Mgcore.Lib

section
variable {σ ι : Type*} (step : σ → ι → Option σ)

def run (s : σ) (ops : List ι) : Option σ := ops.foldlM step s

@[simp] theorem run_nil (s : σ) : run step s [] = some s := rfl

@[simp] theorem run_cons (s : σ) (op : ι) (ops : List ι) :
    run step s (op :: ops) = (step s op).bind fun t => run step t ops := rfl

theorem run_append (s : σ) (first last : List ι) :
    run step s (first ++ last) = (run step s first).bind fun t => run step t last :=
  List.foldlM_append

def Along (guard : σ → ι → Prop) : σ → List ι → Prop
  | _, [] => True
  | s, op :: ops => guard s op ∧ ∀ t, step s op = some t → Along guard t ops

instance Along.decidable (guard : σ → ι → Prop) [∀ s op, Decidable (guard s op)] :
    ∀ s ops, Decidable (Along step guard s ops)
  | _, [] => isTrue trivial
  | s, op :: ops =>
      have : Decidable (∀ t, step s op = some t → Along step guard t ops) :=
        match step s op with
        | none => isTrue fun _ h => nomatch h
        | some t =>
            have := Along.decidable guard t ops
            decidable_of_iff (Along step guard t ops) ⟨fun h _ same => Option.some.inj same ▸ h, fun h => h t rfl⟩
      inferInstanceAs (Decidable (_ ∧ _))

variable {step}

theorem along_of_forall {guard : σ → ι → Prop} {ops : List ι}
    (all : ∀ op ∈ ops, ∀ s, guard s op) (s : σ) : Along step guard s ops := by
  induction ops generalizing s with
  | nil => trivial
  | cons op ops ih =>
      exact ⟨all op (by simp) s, fun t _ => ih (fun o ho => all o (by simp [ho])) t⟩

theorem along_true (s : σ) (ops : List ι) : Along step (fun _ _ => True) s ops :=
  along_of_forall (fun _ _ _ => trivial) s

theorem Along.of_prefix {guard : σ → ι → Prop} {s : σ} {ops before : List ι} (guarded : Along step guard s ops)
    (shorter : before <+: ops) : Along step guard s before := by
  induction before generalizing s ops with
  | nil => trivial
  | cons op before ih =>
      obtain ⟨rest, rfl⟩ := shorter
      exact ⟨guarded.1, fun t steps => ih (guarded.2 t steps) ⟨rest, rfl⟩⟩

theorem Along.invariant {guard : σ → ι → Prop} {inv : σ → Prop}
    (keeps : ∀ s op t, inv s → guard s op → step s op = some t → inv t)
    {s t : σ} {ops : List ι} (guarded : Along step guard s ops) (start : inv s)
    (reaches : run step s ops = some t) : inv t := by
  induction ops generalizing s with
  | nil =>
      cases reaches
      exact start
  | cons op ops ih =>
      rw [run_cons, Option.bind_eq_some_iff] at reaches
      obtain ⟨u, first, rest⟩ := reaches
      exact ih (guarded.2 u first) (keeps s op u start guarded.1 first) rest

theorem run_invariant {ok : ι → Prop} {inv : σ → Prop}
    (keeps : ∀ s op t, inv s → ok op → step s op = some t → inv t)
    {s t : σ} {ops : List ι} (allowed : ∀ op ∈ ops, ok op) (start : inv s)
    (reaches : run step s ops = some t) : inv t := by
  have guarded : Along step (fun _ op => ok op) s ops :=
    along_of_forall (fun op member _ => allowed op member) s
  exact guarded.invariant keeps start reaches

/-- In a run of allowed steps, a property of every state reached is equivalent to a guard on every step, when the guard
keeps an invariant that gives the property and an allowed step outside the guard breaks it at once. -/
theorem prefixes_iff_along {allow guard : σ → ι → Prop} {inv P : σ → Prop} (holds : ∀ s, inv s → P s)
    (keeps : ∀ s op t, inv s → allow s op → guard s op → step s op = some t → inv t)
    (breaks : ∀ s op, inv s → allow s op → ¬guard s op → ∃ t, step s op = some t ∧ ¬P t)
    {s : σ} {ops : List ι} (allowed : Along step allow s ops) (start : inv s) :
    (∀ before t, before <+: ops → run step s before = some t → P t) ↔ Along step guard s ops := by
  induction ops generalizing s with
  | nil =>
      refine ⟨fun _ => trivial, fun _ before t shorter reaches => ?_⟩
      cases List.prefix_nil.mp shorter
      cases reaches
      exact holds s start
  | cons op ops ih =>
      obtain ⟨first, rest⟩ := allowed
      constructor
      · intro always
        have inside : guard s op := by
          by_contra outside
          obtain ⟨t, steps, broken⟩ := breaks s op start first outside
          exact broken (always [op] t ⟨ops, rfl⟩ (by rw [run_cons, steps]; rfl))
        refine ⟨inside, fun t steps => ?_⟩
        apply (ih (rest t steps) (keeps s op t start first inside steps)).mp
        intro before u shorter reaches
        apply always (op :: before) u (List.cons_prefix_cons.mpr ⟨rfl, shorter⟩)
        rw [run_cons, steps]
        exact reaches
      · intro guarded before u shorter reaches
        cases before with
        | nil =>
            cases reaches
            exact holds s start
        | cons other before =>
            obtain ⟨rfl, tail⟩ := List.cons_prefix_cons.mp shorter
            rw [run_cons, Option.bind_eq_some_iff] at reaches
            obtain ⟨t, steps, reaches⟩ := reaches
            have after := keeps s other t start first guarded.1 steps
            exact (ih (rest t steps) after).mpr (guarded.2 t steps) before u tail reaches

/-- As `prefixes_iff_along`, and every step inside the guard returns. -/
theorem prefixes_reach_iff_along {allow guard : σ → ι → Prop} {inv P : σ → Prop} (holds : ∀ s, inv s → P s)
    (keeps : ∀ s op, inv s → allow s op → guard s op → ∃ t, step s op = some t ∧ inv t)
    (breaks : ∀ s op, inv s → allow s op → ¬guard s op → ∃ t, step s op = some t ∧ ¬P t)
    {s : σ} {ops : List ι} (allowed : Along step allow s ops) (start : inv s) :
    (∀ before, before <+: ops → ∃ t, run step s before = some t ∧ P t) ↔ Along step guard s ops := by
  induction ops generalizing s with
  | nil =>
      refine ⟨fun _ => trivial, fun _ before shorter => ?_⟩
      cases List.prefix_nil.mp shorter
      exact ⟨s, rfl, holds s start⟩
  | cons op ops ih =>
      obtain ⟨first, rest⟩ := allowed
      constructor
      · intro always
        have inside : guard s op := by
          by_contra outside
          obtain ⟨t, steps, broken⟩ := breaks s op start first outside
          obtain ⟨u, reaches, good⟩ := always [op] ⟨ops, rfl⟩
          rw [run_cons, steps] at reaches
          cases reaches
          exact broken good
        refine ⟨inside, fun t steps => ?_⟩
        obtain ⟨u, same, after⟩ := keeps s op start first inside
        cases steps.symm.trans same
        apply (ih (rest t steps) after).mp
        intro before shorter
        obtain ⟨u, reaches, good⟩ := always (op :: before) (List.cons_prefix_cons.mpr ⟨rfl, shorter⟩)
        rw [run_cons, steps] at reaches
        exact ⟨u, reaches, good⟩
      · intro guarded before shorter
        cases before with
        | nil => exact ⟨s, rfl, holds s start⟩
        | cons other before =>
            obtain ⟨rfl, tail⟩ := List.cons_prefix_cons.mp shorter
            obtain ⟨t, steps, after⟩ := keeps s other start first guarded.1
            obtain ⟨u, reaches, good⟩ := (ih (rest t steps) after).mpr (guarded.2 t steps) before tail
            exact ⟨u, by rw [run_cons, steps]; exact reaches, good⟩

theorem Along.run_isSome {guard : σ → ι → Prop} {inv : σ → Prop}
    (progress : ∀ s op, inv s → guard s op → ∃ t, step s op = some t ∧ inv t)
    {s : σ} {ops : List ι} (guarded : Along step guard s ops) (start : inv s) :
    ∃ t, run step s ops = some t ∧ inv t := by
  induction ops generalizing s with
  | nil => exact ⟨s, rfl, start⟩
  | cons op ops ih =>
      obtain ⟨u, first, good⟩ := progress s op start guarded.1
      obtain ⟨t, rest, done⟩ := ih (guarded.2 u first) good
      exact ⟨t, by rw [run_cons, first]; exact rest, done⟩

/-- What the steps of a run put out, in their order. -/
def transcript {ο : Type*} (step : σ → ι → Option σ) (emit : σ → ι → σ → List ο) : σ → List ι → List ο
  | _, [] => []
  | s, op :: ops =>
      match step s op with
      | none => []
      | some t => emit s op t ++ transcript step emit t ops

/-- An invariant of the state and of what has been put out so far. -/
theorem Along.transcript_invariant {ο : Type*} {emit : σ → ι → σ → List ο} {guard : σ → ι → Prop} {inv : σ → List ο → Prop}
    (keeps : ∀ s log op t, inv s log → guard s op → step s op = some t → inv t (log ++ emit s op t))
    {s t : σ} {log : List ο} {ops : List ι} (guarded : Along step guard s ops) (start : inv s log)
    (reaches : run step s ops = some t) : inv t (log ++ transcript step emit s ops) := by
  induction ops generalizing s log with
  | nil =>
      cases reaches
      rw [transcript, List.append_nil]
      exact start
  | cons op ops ih =>
      rw [run_cons, Option.bind_eq_some_iff] at reaches
      obtain ⟨u, first, rest⟩ := reaches
      have later := ih (guarded.2 u first) (keeps s log op u start guarded.1 first) rest
      rw [transcript, first, ← List.append_assoc]
      exact later

theorem run_isSome {ok : ι → Prop} {inv : σ → Prop}
    (progress : ∀ s op, inv s → ok op → ∃ t, step s op = some t ∧ inv t)
    {s : σ} {ops : List ι} (allowed : ∀ op ∈ ops, ok op) (start : inv s) :
    ∃ t, run step s ops = some t ∧ inv t := by
  have guarded : Along step (fun _ op => ok op) s ops :=
    along_of_forall (fun op member _ => allowed op member) s
  exact guarded.run_isSome progress start

end

/-- A counting loop is described by its state before each round. -/
theorem foldlM_range_eq {σ : Type*} (step : σ → Nat → Option σ) (state : Nat → σ) {n : Nat}
    (next : ∀ i, i < n → step (state i) i = some (state (i + 1))) :
    (List.range n).foldlM step (state 0) = some (state n) := by
  induction n with
  | zero => rfl
  | succ n ih =>
      rw [List.range_succ, List.foldlM_append, ih fun i less => next i (Nat.lt_succ_of_lt less)]
      simp [next n (Nat.lt_succ_self n)]

theorem run_total {σ ι : Type*} (f : σ → ι → σ) (s : σ) (ops : List ι) :
    run (fun s op => some (f s op)) s ops = some (ops.foldl f s) := by
  induction ops generalizing s with
  | nil => rfl
  | cons op ops ih => exact ih (f s op)

theorem along_total_iff {σ ι : Type*} {f : σ → ι → σ} {ok : ι → Prop} {s : σ} {ops : List ι} :
    Along (fun s op => some (f s op)) (fun _ op => ok op) s ops ↔ ∀ op ∈ ops, ok op := by
  induction ops generalizing s with
  | nil => exact iff_of_true trivial (List.forall_mem_nil ok)
  | cons op ops ih =>
      rw [List.forall_mem_cons, ← ih (s := f s op)]
      exact and_congr_right fun _ => ⟨fun later => later _ rfl, fun rest t steps => Option.some.inj steps ▸ rest⟩

/-- A step function follows a reference in every state of a run exactly if the reference's run meets a guard, when the
guard keeps the relation and a step outside the guard parts the two at once. -/
theorem simulated_prefixes_iff {σ τ ι : Type*} {step : σ → ι → Option σ} {spec : τ → ι → τ} {allow guard : τ → ι → Prop}
    {inv P : σ → τ → Prop} (holds : ∀ s t, inv s t → P s t)
    (keeps : ∀ s t op, inv s t → allow t op → guard t op → ∃ u, step s op = some u ∧ inv u (spec t op))
    (breaks : ∀ s t op, inv s t → allow t op → ¬guard t op → ∃ u, step s op = some u ∧ ¬P u (spec t op))
    {s : σ} {t : τ} {ops : List ι} (allowed : Along (fun t op => some (spec t op)) allow t ops) (start : inv s t) :
    (∀ before, before <+: ops → ∃ u, run step s before = some u ∧ P u (before.foldl spec t)) ↔
      Along (fun t op => some (spec t op)) guard t ops := by
  induction ops generalizing s t with
  | nil =>
      refine ⟨fun _ => trivial, fun _ before shorter => ?_⟩
      cases List.prefix_nil.mp shorter
      exact ⟨s, rfl, holds s t start⟩
  | cons op ops ih =>
      obtain ⟨first, rest⟩ := allowed
      constructor
      · intro always
        have inside : guard t op := by
          by_contra outside
          obtain ⟨u, steps, broken⟩ := breaks s t op start first outside
          obtain ⟨v, reaches, good⟩ := always [op] ⟨ops, rfl⟩
          rw [run_cons, steps] at reaches
          cases reaches
          exact broken good
        obtain ⟨u, steps, after⟩ := keeps s t op start first inside
        refine ⟨inside, fun next same => ?_⟩
        cases same
        apply (ih (rest _ rfl) after).mp
        intro before shorter
        obtain ⟨v, reaches, good⟩ := always (op :: before) (List.cons_prefix_cons.mpr ⟨rfl, shorter⟩)
        rw [run_cons, steps] at reaches
        exact ⟨v, reaches, good⟩
      · intro guarded before shorter
        cases before with
        | nil => exact ⟨s, rfl, holds s t start⟩
        | cons other before =>
            obtain ⟨rfl, tail⟩ := List.cons_prefix_cons.mp shorter
            obtain ⟨u, steps, after⟩ := keeps s t other start first guarded.1
            obtain ⟨v, reaches, good⟩ := (ih (rest _ rfl) after).mpr (guarded.2 _ rfl) before tail
            exact ⟨v, by rw [run_cons, steps]; exact reaches, good⟩

theorem foldl_prefixes_iff {σ ι : Type*} {f : σ → ι → σ} {allow guard : σ → ι → Prop} {inv P : σ → Prop}
    (holds : ∀ s, inv s → P s) (keeps : ∀ s op, inv s → allow s op → guard s op → inv (f s op))
    (breaks : ∀ s op, inv s → allow s op → ¬guard s op → ¬P (f s op)) {s : σ} {ops : List ι}
    (allowed : Along (fun s op => some (f s op)) allow s ops) (start : inv s) :
    (∀ before, before <+: ops → P (before.foldl f s)) ↔ Along (fun s op => some (f s op)) guard s ops := by
  rw [← prefixes_iff_along holds ?_ ?_ allowed start]
  · constructor
    · intro always before t shorter reaches
      rw [run_total, Option.some.injEq] at reaches
      rw [← reaches]
      exact always before shorter
    · intro always before shorter
      exact always before _ shorter (run_total f s before)
  · intro s op t good first inside steps
    cases steps
    exact keeps s op good first inside
  · intro s op good first outside
    exact ⟨f s op, rfl, breaks s op good first outside⟩

/-- A property of every step of a run is a guard on every step, when the two agree where an invariant holds that the
guard keeps. -/
theorem steps_iff {σ ι : Type*} {step : σ → ι → Option σ} {inv : σ → Prop} {P guard : σ → ι → Prop}
    (keeps : ∀ s op t, inv s → guard s op → step s op = some t → inv t) (exact : ∀ s op, inv s → (P s op ↔ guard s op)) {s : σ}
    (start : inv s) (ops : List ι) :
    (∀ before op t, before ++ [op] <+: ops → run step s before = some t → P t op) ↔ Along step guard s ops := by
  induction ops generalizing s with
  | nil =>
      refine ⟨fun _ => trivial, fun _ before op t shorter => ?_⟩
      exact absurd (List.prefix_nil.mp shorter) (List.append_ne_nil_of_right_ne_nil before (List.cons_ne_nil op []))
  | cons first ops ih =>
      constructor
      · intro always
        have inside := (exact s first start).mp (always [] first s ⟨ops, rfl⟩ rfl)
        refine ⟨inside, fun t steps => ?_⟩
        apply (ih (keeps s first t start inside steps)).mp
        intro before op u shorter reaches
        refine always (first :: before) op u (List.cons_prefix_cons.mpr ⟨rfl, shorter⟩) ?_
        rw [run_cons, steps]
        exact reaches
      · rintro ⟨inside, guarded⟩ before op u shorter reaches
        cases before with
        | nil =>
            cases (List.cons_prefix_cons.mp shorter).1
            cases reaches
            exact (exact s first start).mpr inside
        | cons other before =>
            obtain ⟨rfl, tail⟩ := List.cons_prefix_cons.mp shorter
            rw [run_cons, Option.bind_eq_some_iff] at reaches
            obtain ⟨t, steps, reaches⟩ := reaches
            exact (ih (keeps s other t start inside steps)).mpr (guarded t steps) before op u tail reaches

theorem foldl_steps_iff {σ ι : Type*} {f : σ → ι → σ} {inv : σ → Prop} {P guard : σ → ι → Prop}
    (keeps : ∀ s op, inv s → guard s op → inv (f s op)) (exact : ∀ s op, inv s → (P s op ↔ guard s op)) {s : σ}
    (start : inv s) (ops : List ι) :
    (∀ before op, before ++ [op] <+: ops → P (before.foldl f s) op) ↔ Along (fun s op => some (f s op)) guard s ops := by
  rw [← steps_iff (P := P) (fun s op t here inside steps => Option.some.inj steps ▸ keeps s op here inside) exact start]
  refine forall_congr' fun before => forall_congr' fun op => ?_
  constructor
  · intro holds t shorter reaches
    rw [run_total] at reaches
    exact Option.some.inj reaches ▸ holds shorter
  · exact fun holds shorter => holds _ shorter (run_total f s before)

/-- A preorder between any earlier and any later state of a run is a guard on every step. -/
theorem related_prefixes_iff {σ ι : Type*} {f : σ → ι → σ} {R : σ → σ → Prop} {inv : σ → Prop} {guard : σ → ι → Prop}
    (refl : ∀ s, R s s) (trans : ∀ s t u, R s t → R t u → R s u) (keeps : ∀ s op, inv s → inv (f s op))
    (exact : ∀ s op, inv s → (R s (f s op) ↔ guard s op)) {s : σ} (start : inv s) (ops : List ι) :
    (∀ earlier later, earlier ++ later <+: ops → R (earlier.foldl f s) ((earlier ++ later).foldl f s)) ↔
      Along (fun s op => some (f s op)) guard s ops := by
  induction ops generalizing s with
  | nil =>
      refine ⟨fun _ => trivial, fun _ earlier later shorter => ?_⟩
      obtain ⟨rfl, rfl⟩ := List.append_eq_nil_iff.mp (List.prefix_nil.mp shorter)
      exact refl s
  | cons op ops ih =>
      constructor
      · intro related
        refine ⟨(exact s op start).mp (related [] [op] ⟨ops, rfl⟩), fun t steps => ?_⟩
        cases steps
        refine (ih (keeps s op start)).mp fun earlier later shorter => ?_
        exact related (op :: earlier) later (List.cons_prefix_cons.mpr ⟨rfl, shorter⟩)
      · intro guarded earlier later shorter
        have rest := (ih (keeps s op start)).mpr (guarded.2 _ rfl)
        cases earlier with
        | cons first earlier =>
            obtain ⟨rfl, tail⟩ := List.cons_prefix_cons.mp shorter
            exact rest earlier later tail
        | nil =>
            cases later with
            | nil => exact refl s
            | cons first later =>
                obtain ⟨rfl, tail⟩ := List.cons_prefix_cons.mp shorter
                exact trans _ _ _ ((exact s first start).mpr guarded.1) (rest [] later tail)

theorem exists_of_check {σ : Type*} {result : Option σ} {P : σ → Prop} [DecidablePred P]
    (check : result.map (fun s => decide (P s)) = some true) : ∃ s, result = some s ∧ P s := by
  obtain ⟨s, reaches, holds⟩ := Option.map_eq_some_iff.mp check
  exact ⟨s, reaches, of_decide_eq_true holds⟩

section
variable {σ τ ι ο μ : Type*}

def trace (step : σ → ι → ο × σ) : σ → List ι → List ο × σ
  | s, [] => ([], s)
  | s, op :: ops => ((step s op).1 :: (trace step (step s op).2 ops).1, (trace step (step s op).2 ops).2)

/-- `mode` is what both sides know about the past of the run; `ok` may depend on it. -/
def Guarded (step : σ → ι → ο × σ) (next : μ → ι → μ) (ok : μ → σ → ι → Prop) : μ → σ → List ι → Prop
  | _, _, [] => True
  | mode, s, op :: ops => ok mode s op ∧ Guarded step next ok (next mode op) (step s op).2 ops

theorem guarded_true (step : σ → ι → ο × σ) (next : μ → ι → μ) (mode : μ) (s : σ) (ops : List ι) :
    Guarded step next (fun _ _ _ => True) mode s ops := by
  induction ops generalizing mode s with
  | nil => trivial
  | cons op ops ih => exact ⟨trivial, ih (next mode op) (step s op).2⟩

theorem trace_simulates {impl : σ → ι → ο × σ} {spec : τ → ι → ο × τ} {next : μ → ι → μ} {ok : μ → σ → ι → Prop}
    {R : μ → σ → τ → Prop}
    (keeps : ∀ mode s t op, R mode s t → ok mode s op →
      (impl s op).1 = (spec t op).1 ∧ R (next mode op) (impl s op).2 (spec t op).2)
    {mode : μ} {s : σ} {t : τ} {ops : List ι} (related : R mode s t) (guarded : Guarded impl next ok mode s ops) :
    (trace impl s ops).1 = (trace spec t ops).1 ∧ ∃ last, R last (trace impl s ops).2 (trace spec t ops).2 := by
  induction ops generalizing mode s t with
  | nil => exact ⟨rfl, mode, related⟩
  | cons op ops ih =>
      obtain ⟨answer, after⟩ := keeps mode s t op related guarded.1
      obtain ⟨answers, last⟩ := ih after guarded.2
      exact ⟨by rw [trace, trace, answer, answers], last⟩

end

end Mgcore.Lib
