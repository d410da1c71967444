import Mathlib.Data.List.Rotate
import Mgcore.Lib.Run
import Mgcore.Task.Invariant

/-!
# Round robin

A window of ticks in which no sleeping task becomes due. The set of active slots does not change in it,
and the selection loop visits the slots in the same cyclic order from wherever it starts: after a slot
has been selected, the order of the next scan is the old one rotated past that slot.
-/

namespace Mgcore

def Task.Active (t : Task) : Prop := t.state = .runnable ∨ t.state = .running

instance (t : Task) : Decidable t.Active := inferInstanceAs (Decidable (_ ∨ _))

def activeSlots (s : TaskTable) : List (Fin maxTasks) :=
  (List.finRange maxTasks).filter fun i => (s.tasks i).Active

/-- How many slots after the one that follows `current` slot `i` is; `current` itself is the farthest. -/
def slotsAfter (current i : Fin maxTasks) : Nat := (i.val + 31 - current.val) % 32

def NoneDue (s : TaskTable) (now : UInt64) : Prop :=
  ∀ i, (s.tasks i).state = .sleeping → now < (s.tasks i).wakeupTick

instance (s : TaskTable) (now : UInt64) : Decidable (NoneDue s now) :=
  Nat.decidableForallFin fun i => (s.tasks i).state = .sleeping → now < (s.tasks i).wakeupTick

/-- The values of `g_current_index` after each tick, and the last state. -/
def tickTrace : TaskTable → List UInt64 → List (Fin maxTasks) × TaskTable :=
  Lib.trace fun s now => ((taskSchedulerTick s now).currentIndex, taskSchedulerTick s now)

/-! ## The scan order -/

theorem candidates_eq_rotate (current : Fin maxTasks) :
    candidates current = (List.finRange maxTasks).rotate (current.val + 1) := by
  apply List.ext_getElem
  · simp [candidates]
  · intro i inside _
    simp only [candidates, List.getElem_map, List.getElem_finRange, List.getElem_rotate, List.length_finRange]
    apply Fin.ext
    simp [Nat.add_comm]

theorem candidates_perm (current : Fin maxTasks) : (candidates current).Perm (List.finRange maxTasks) := by
  rw [candidates_eq_rotate]
  exact List.rotate_perm _ _

theorem candidates_rotated {current next : Fin maxTasks} {skipped later : List (Fin maxTasks)}
    (order : candidates current = skipped ++ next :: later) :
    candidates next = later ++ (skipped ++ [next]) := by
  have position : next.val = (current.val + 1 + skipped.length) % maxTasks := by
    have inside : skipped.length < (candidates current).length := by simp [order]
    have entry : (candidates current)[skipped.length] = next := by simp [order]
    rw [← entry]
    simp [candidates]
  have shifted : (List.finRange maxTasks).rotate (next.val + 1) =
      (candidates current).rotate (skipped.length + 1) := by
    rw [candidates_eq_rotate current, List.rotate_rotate, ← List.rotate_mod, position,
      ← List.rotate_mod _ (current.val + 1 + (skipped.length + 1)), List.length_finRange]
    congr 1
    show ((current.val + 1 + skipped.length) % 32 + 1) % 32 = (current.val + 1 + (skipped.length + 1)) % 32
    omega
  rw [candidates_eq_rotate, shifted, order]
  have split : skipped ++ next :: later = (skipped ++ [next]) ++ later := by simp
  have count : skipped.length + 1 = (skipped ++ [next]).length := by simp
  rw [split, count, List.rotate_append_length_eq]

theorem candidates_pairwise (current : Fin maxTasks) :
    (candidates current).Pairwise fun i j => slotsAfter current i < slotsAfter current j := by
  unfold candidates
  rw [List.pairwise_map]
  apply (List.pairwise_lt_finRange maxTasks).imp
  intro i j less
  have bounds : current.val < 32 ∧ i.val < 32 ∧ j.val < 32 := ⟨current.isLt, i.isLt, j.isLt⟩
  have order : i.val < j.val := less
  show ((current.val + 1 + i.val) % 32 + 31 - current.val) % 32 <
    ((current.val + 1 + j.val) % 32 + 31 - current.val) % 32
  omega

theorem candidates_last (current : Fin maxTasks) : ∃ others, candidates current = others ++ [current] := by
  obtain ⟨skipped, later, order⟩ := List.append_of_mem (mem_candidates current current)
  have again := candidates_rotated order
  exact ⟨later ++ skipped, by rw [again, List.append_assoc]⟩

/-! ## One tick -/

theorem awakeState_active {s : TaskTable} {now : UInt64} (early : NoneDue s now) (i : Fin maxTasks) :
    awakeState now (s.tasks i) = .runnable ↔ (s.tasks i).Active := by
  have notDue : ¬((s.tasks i).state = .sleeping ∧ (s.tasks i).wakeupTick ≤ now) :=
    fun due => UInt64.not_le.mpr (early i due.1) due.2
  unfold awakeState Task.Active
  rw [if_neg notDue]
  by_cases running : (s.tasks i).state = .running
  · simp [running]
  · simp [running]

theorem tick_noneDue {s : TaskTable} (inv : TaskInv s) (now : UInt64) {later : UInt64} (early : NoneDue s later) :
    NoneDue (taskSchedulerTick s now) later := by
  intro i sleeping
  rw [tick_wakeupTick]
  apply early i
  rw [tick_state inv] at sleeping
  split_ifs at sleeping
  unfold awakeState at sleeping
  split_ifs at sleeping
  exact sleeping

section
variable {s : TaskTable} (inv : TaskInv s) {now : UInt64} (early : NoneDue s now)
include inv early

theorem tick_active (i : Fin maxTasks) : ((taskSchedulerTick s now).tasks i).Active ↔ (s.tasks i).Active := by
  rw [← awakeState_active early, Task.Active, tick_state inv]
  split_ifs with selected
  · simp [selected.2]
  · simp [awakeState_ne_running]

theorem tick_selects {skipped later : List (Fin maxTasks)} {next : Fin maxTasks}
    (order : candidates s.currentIndex = skipped ++ next :: later)
    (idle : ∀ i ∈ skipped, ¬(s.tasks i).Active) (active : (s.tasks next).Active) :
    (taskSchedulerTick s now).currentIndex = next ∧ ((taskSchedulerTick s now).tasks next).state = .running := by
  have current : (taskSchedulerTick s now).currentIndex = next := by
    have found : (candidates s.currentIndex).find? (fun c => ((awake s now).tasks c).state = .runnable) = some next := by
      simp only [awake_state inv, awakeState_active early]
      rw [order, List.find?_append, List.find?_eq_none.mpr (by simpa using idle)]
      simp [active]
    rw [taskSchedulerTick, dispatch_currentIndex, selectNext, awake_currentIndex, found, Option.getD_some]
  refine ⟨current, ?_⟩
  rw [tick_state inv, if_pos ⟨current.symm, (awakeState_active early next).mpr active⟩]

end

/-! ## A window of ticks -/

theorem tickTrace_cons (s : TaskTable) (now : UInt64) (nows : List UInt64) :
    tickTrace s (now :: nows) =
      ((taskSchedulerTick s now).currentIndex :: (tickTrace (taskSchedulerTick s now) nows).1,
        (tickTrace (taskSchedulerTick s now) nows).2) := rfl

/-- The invariant of the window: the scan order of the current slot starts with the slots that are still to
be visited. -/
theorem tickTrace_visits {s : TaskTable} (inv : TaskInv s) {nows : List UInt64} (early : ∀ now ∈ nows, NoneDue s now)
    {todo done : List (Fin maxTasks)} (order : candidates s.currentIndex = todo ++ done)
    (count : nows.length = (todo.filter fun i => (s.tasks i).Active).length) :
    (tickTrace s nows).1 = todo.filter fun i => (s.tasks i).Active := by
  induction nows generalizing s todo done with
  | nil =>
      rw [List.eq_nil_of_length_eq_zero count.symm]
      rfl
  | cons now nows ih =>
      obtain ⟨next, rest, split⟩ := List.exists_cons_of_length_eq_add_one count.symm
      obtain ⟨skipped, later, rfl, idle, active, remaining⟩ := List.filter_eq_cons_iff.mp split
      have first : NoneDue s now := early now (by simp)
      simp only [decide_eq_true_eq] at idle active
      rw [List.append_assoc, List.cons_append] at order
      have selected := tick_selects inv first order idle active
      have same : (later.filter fun i => ((taskSchedulerTick s now).tasks i).Active) = rest := by
        simp only [tick_active inv first, remaining]
      have rotated : candidates (taskSchedulerTick s now).currentIndex = later ++ (done ++ (skipped ++ [next])) := by
        rw [selected.1, candidates_rotated order, List.append_assoc]
      have visits := ih (inv.tick now) (fun tick member => tick_noneDue inv now (early tick (by simp [member])))
        rotated (by rw [same]; simpa [split] using count)
      rw [tickTrace_cons, visits, same, split, selected.1]

theorem tickTrace_runtime {s : TaskTable} (inv : TaskInv s) {nows : List UInt64}
    (early : ∀ now ∈ nows, NoneDue s now) (running : (s.tasks s.currentIndex).state = .running) (i : Fin maxTasks) :
    ((tickTrace s nows).2.tasks i).runtimeTicks =
      (s.tasks i).runtimeTicks + UInt64.ofNat ((s.currentIndex :: (tickTrace s nows).1).dropLast.count i) := by
  induction nows generalizing s with
  | nil => simp [tickTrace, Lib.trace]
  | cons now nows ih =>
      have first : NoneDue s now := early now (by simp)
      have ran : ((taskSchedulerTick s now).tasks (taskSchedulerTick s now).currentIndex).state = .running := by
        have active : (s.tasks s.currentIndex).Active := Or.inr running
        rw [tick_state inv]
        rcases tick_current inv now with runnable | ⟨-, idle⟩
        · rw [if_pos ⟨rfl, runnable⟩]
        · exact absurd ((awakeState_active first _).mpr active) (idle _)
      have rest := ih (inv.tick now) (fun tick member => tick_noneDue inv now (early tick (by simp [member]))) ran
      rw [tickTrace_cons, rest, tick_runtime, List.dropLast_cons_cons, List.count_cons]
      generalize List.count i _ = later
      by_cases current : i = s.currentIndex
      · subst current
        have added : UInt64.ofNat (later + 1) = 1 + UInt64.ofNat later := by
          rw [UInt64.ofNat_add, UInt64.add_comm]
          rfl
        rw [if_pos ⟨rfl, running⟩, if_pos (beq_self_eq_true _), added, UInt64.add_assoc]
      · simp [current, Ne.symm current]

theorem round_robin (ops : List TaskOp) (nows : List UInt64) :
    let s := ops.foldl taskStep bootTasks
    (s.tasks s.currentIndex).state = .running → nows.length = (activeSlots s).length →
    (∀ now ∈ nows, NoneDue s now) →
    (tickTrace s nows).1.Pairwise (fun i j => slotsAfter s.currentIndex i < slotsAfter s.currentIndex j) ∧
    (tickTrace s nows).1.Nodup ∧
    (∀ i, i ∈ (tickTrace s nows).1 ↔ i ∈ activeSlots s) ∧
    (tickTrace s nows).1.getLast? = some s.currentIndex ∧
    ∀ i ∈ activeSlots s, ((tickTrace s nows).2.tasks i).runtimeTicks = (s.tasks i).runtimeTicks + 1 := by
  intro s running count early
  have inv : TaskInv s := TaskInv.run ops
  have active : (s.tasks s.currentIndex).Active := Or.inr running
  have members : ((candidates s.currentIndex).filter fun i => (s.tasks i).Active).Perm (activeSlots s) :=
    (candidates_perm s.currentIndex).filter _
  have visits := tickTrace_visits inv early (List.append_nil _).symm (count.trans members.length_eq.symm)
  have distinct : (tickTrace s nows).1.Nodup := by
    rw [visits]
    exact members.nodup_iff.mpr ((List.nodup_finRange maxTasks).filter _)
  have same : ∀ i, i ∈ (tickTrace s nows).1 ↔ i ∈ activeSlots s := fun i => by rw [visits, members.mem_iff]
  -- The old current slot is charged first and visited last, so every visited slot is charged once.
  obtain ⟨others, ending⟩ : ∃ others, (tickTrace s nows).1 = others ++ [s.currentIndex] := by
    obtain ⟨before, last⟩ := candidates_last s.currentIndex
    refine ⟨before.filter fun i => (s.tasks i).Active, ?_⟩
    rw [visits, last, List.filter_append]
    simp [active]
  refine ⟨?_, distinct, same, by simp [ending], ?_⟩
  · rw [visits]
    exact (candidates_pairwise s.currentIndex).filter _
  · intro i member
    have once : (s.currentIndex :: others).count i = 1 := by
      have counted := List.count_eq_one_of_mem distinct ((same i).mpr member)
      rw [ending, List.count_append, Nat.add_comm, ← List.count_append] at counted
      exact counted
    rw [tickTrace_runtime inv early running, ending, ← List.cons_append, List.dropLast_concat, once]
    rfl

-- Slots 0, 1, 2 are in use; slot 0 sleeps until tick 9, slot 1 runs.
def napRun : List TaskOp := [.createKernel [], .spawnUser [], .sleepUntil 9, .tick 1]

theorem round_robin_sample :
    activeSlots (napRun.foldl taskStep bootTasks) = [1, 2] ∧
    (tickTrace (napRun.foldl taskStep bootTasks) [2, 3]).1.getLast? =
      some (napRun.foldl taskStep bootTasks).currentIndex := by
  have early : ∀ now ∈ [2, 3], NoneDue (napRun.foldl taskStep bootTasks) now :=
    List.forall_mem_cons.mpr ⟨by decide +kernel, List.forall_mem_cons.mpr ⟨by decide +kernel, List.forall_mem_nil _⟩⟩
  have window := round_robin napRun [2, 3] (by decide +kernel) (by decide +kernel) early
  obtain ⟨-, -, -, last, -⟩ := window
  exact ⟨by decide +kernel, last⟩

end Mgcore
