import Mathlib.Algebra.GroupWithZero.Nat
import Mathlib.Data.List.FinRange
import Mathlib.Data.List.Induction
import Mathlib.Logic.Function.Basic

/-!
# A map in a fixed number of slots

A key is written to the slot that holds it, else to the first free one, else to slot 0, whose old key is lost.
As long as no key stands in two slots, such a map answers with the last value written or not at all, and a
write loses at most one key.
-/

namespace Mgcore.Lib

abbrev SlotMap (n : Nat) (κ ν : Type*) := Fin n → Option (κ × ν)

namespace SlotMap

variable {n : Nat} {κ ν : Type*}

def Distinct (m : SlotMap n κ ν) : Prop :=
  ∀ i j k v w, m i = some (k, v) → m j = some (k, w) → i = j

def Full (m : SlotMap n κ ν) (k : κ) : Prop := ∀ i, ∃ other v, m i = some (other, v) ∧ other ≠ k

def freeSlot (m : SlotMap n κ ν) : Option (Fin n) := (List.finRange n).find? fun i => (m i).isNone

theorem freeSlot_eq_some {m : SlotMap n κ ν} {i : Fin n} (found : freeSlot m = some i) : m i = none := by
  have free := List.find?_some found
  exact Option.isNone_iff_eq_none.mp free

theorem freeSlot_eq_none {m : SlotMap n κ ν} (missing : freeSlot m = none) (i : Fin n) : m i ≠ none := by
  intro free
  have fails := List.find?_eq_none.mp missing i (List.mem_finRange i)
  exact fails (by simp [free])

section
variable [DecidableEq κ]

def slotOf (m : SlotMap n κ ν) (k : κ) : Option (Fin n) :=
  (List.finRange n).find? fun i => (m i).map Prod.fst = some k

def lookup (m : SlotMap n κ ν) (k : κ) : Option ν := (slotOf m k).bind fun i => (m i).map Prod.snd

def put [NeZero n] (m : SlotMap n κ ν) (k : κ) (v : ν) : SlotMap n κ ν :=
  Function.update m ((slotOf m k).getD ((freeSlot m).getD 0)) (some (k, v))

variable {m : SlotMap n κ ν} {k : κ}

theorem slotOf_eq_some {i : Fin n} (found : slotOf m k = some i) : ∃ v, m i = some (k, v) := by
  have holds := List.find?_some found
  obtain ⟨⟨key, v⟩, entry, rfl⟩ := Option.map_eq_some_iff.mp (of_decide_eq_true holds)
  exact ⟨v, entry⟩

theorem slotOf_eq_none (missing : slotOf m k = none) (i : Fin n) (v : ν) : m i ≠ some (k, v) := by
  intro entry
  have fails := List.find?_eq_none.mp missing i (List.mem_finRange i)
  exact fails (by simp [entry])

theorem Distinct.lookup_iff (distinct : Distinct m) {v : ν} : lookup m k = some v ↔ ∃ i, m i = some (k, v) := by
  constructor
  · intro found
    obtain ⟨i, slot, value⟩ := Option.bind_eq_some_iff.mp found
    obtain ⟨w, entry⟩ := slotOf_eq_some slot
    rw [entry, Option.map_some, Option.some.injEq] at value
    exact ⟨i, by rw [entry, ← value]⟩
  · rintro ⟨i, entry⟩
    unfold lookup
    cases slot : slotOf m k with
    | none => exact absurd entry (slotOf_eq_none slot i v)
    | some j =>
        obtain ⟨w, held⟩ := slotOf_eq_some slot
        rw [distinct j i k w v held entry, Option.bind_some, entry, Option.map_some]

variable [NeZero n]

/-- The slot a key is written to: the only one that may hold it, and one in use by another key only in a full map. -/
theorem Distinct.put_slot (distinct : Distinct m) (k : κ) (v : ν) :
    ∃ slot, put m k v = Function.update m slot (some (k, v)) ∧ (∀ i w, m i = some (k, w) → i = slot) ∧
      (∀ other w, m slot = some (other, w) → other ≠ k → Full m k) := by
  refine ⟨_, rfl, ?_, ?_⟩
  · intro i w entry
    cases slot : slotOf m k with
    | none => exact absurd entry (slotOf_eq_none slot i w)
    | some j =>
        obtain ⟨u, held⟩ := slotOf_eq_some slot
        exact distinct i j k w u entry held
  · intro other w entry different
    cases slot : slotOf m k with
    | some j =>
        obtain ⟨u, held⟩ := slotOf_eq_some slot
        rw [slot, Option.getD_some, held] at entry
        cases entry
        exact absurd rfl different
    | none =>
        rw [slot, Option.getD_none] at entry
        cases free : freeSlot m with
        | some j =>
            rw [free, Option.getD_some, freeSlot_eq_some free] at entry
            cases entry
        | none =>
            intro i
            obtain ⟨⟨key, u⟩, held⟩ := Option.ne_none_iff_exists'.mp (freeSlot_eq_none free i)
            refine ⟨key, u, held, ?_⟩
            rintro rfl
            exact slotOf_eq_none slot i u held

theorem Distinct.put (distinct : Distinct m) (k : κ) (v : ν) : Distinct (put m k v) := by
  obtain ⟨slot, written, only, _⟩ := distinct.put_slot k v
  rw [written]
  -- an old entry elsewhere has another key than the new one
  have apart {i : Fin n} {key : κ} {u w : ν} (away : i ≠ slot) (old : Function.update m slot (some (k, v)) i = some (key, u))
      (fresh : Function.update m slot (some (k, v)) slot = some (key, w)) : False := by
    rw [Function.update_of_ne away] at old
    rw [Function.update_self] at fresh
    cases fresh
    exact away (only i u old)
  intro i j key u w first second
  by_cases atI : i = slot
  · by_cases atJ : j = slot
    · rw [atI, atJ]
    · subst atI
      exact (apart atJ second first).elim
  · by_cases atJ : j = slot
    · subst atJ
      exact (apart atI first second).elim
    · rw [Function.update_of_ne atI] at first
      rw [Function.update_of_ne atJ] at second
      exact distinct i j key u w first second

theorem Distinct.lookup_put_self (distinct : Distinct m) (k : κ) (v : ν) : lookup (SlotMap.put m k v) k = some v := by
  obtain ⟨slot, written, _, _⟩ := distinct.put_slot k v
  apply (distinct.put k v).lookup_iff.mpr
  exact ⟨slot, by rw [written, Function.update_self]⟩

theorem Distinct.lookup_put_of_ne (distinct : Distinct m) {key : κ} {u v : ν} (other : key ≠ k)
    (found : lookup (SlotMap.put m k v) key = some u) : lookup m key = some u := by
  obtain ⟨slot, written, _, _⟩ := distinct.put_slot k v
  obtain ⟨i, entry⟩ := (distinct.put k v).lookup_iff.mp found
  rw [written] at entry
  by_cases here : i = slot
  · subst here
    rw [Function.update_self] at entry
    cases entry
    exact absurd rfl other
  · rw [Function.update_of_ne here] at entry
    exact distinct.lookup_iff.mpr ⟨i, entry⟩

/-- What a write may lose is the key of the slot it took. -/
theorem Distinct.put_loses (distinct : Distinct m) (k : κ) (v : ν) :
    ∃ lost : Option κ, ∀ key, key ≠ k → lookup (SlotMap.put m k v) key ≠ lookup m key → some key = lost ∧ Full m k := by
  obtain ⟨slot, written, _, evicts⟩ := distinct.put_slot k v
  refine ⟨(m slot).map Prod.fst, ?_⟩
  intro key other changed
  cases found : lookup m key with
  | none =>
      cases now : lookup (SlotMap.put m k v) key with
      | none => exact absurd (now.trans found.symm) changed
      | some u => exact absurd ((distinct.lookup_put_of_ne other now).symm.trans found) (by simp)
  | some u =>
      obtain ⟨i, entry⟩ := distinct.lookup_iff.mp found
      by_cases here : i = slot
      · subst here
        exact ⟨by rw [entry, Option.map_some], evicts key u entry other⟩
      · have kept : lookup (SlotMap.put m k v) key = some u := by
          apply (distinct.put k v).lookup_iff.mpr
          exact ⟨i, by rw [written, Function.update_of_ne here, entry]⟩
        exact absurd (kept.trans found.symm) changed

end

/-! ## Runs of writes -/

variable [DecidableEq κ] [NeZero n]

def puts (m : SlotMap n κ ν) (writes : List (κ × ν)) : SlotMap n κ ν :=
  writes.foldl (fun m write => put m write.1 write.2) m

def lastWrite (writes : List (κ × ν)) (k : κ) : Option ν :=
  ((writes.filter fun write => write.1 = k).getLast?).map Prod.snd

theorem puts_append (m : SlotMap n κ ν) (writes : List (κ × ν)) (k : κ) (v : ν) :
    puts m (writes ++ [(k, v)]) = put (puts m writes) k v := by
  rw [puts, List.foldl_append]
  rfl

theorem lastWrite_append_self (writes : List (κ × ν)) (k : κ) (v : ν) :
    lastWrite (writes ++ [(k, v)]) k = some v := by
  simp [lastWrite]

theorem lastWrite_append_of_ne (writes : List (κ × ν)) {k key : κ} (v : ν) (other : key ≠ k) :
    lastWrite (writes ++ [(k, v)]) key = lastWrite writes key := by
  simp [lastWrite, other.symm]

theorem puts_spec {m : SlotMap n κ ν} (empty : ∀ i, m i = none) (writes : List (κ × ν)) :
    Distinct (puts m writes) ∧ ∀ k v, lookup (puts m writes) k = some v → lastWrite writes k = some v := by
  induction writes using List.reverseRecOn with
  | nil =>
      have distinct : Distinct m := fun i _ _ _ _ entry => absurd entry (by rw [empty i]; simp)
      refine ⟨distinct, fun k v found => ?_⟩
      obtain ⟨i, entry⟩ := distinct.lookup_iff.mp found
      exact absurd entry (by rw [empty i]; simp)
  | append_singleton writes write ih =>
      obtain ⟨k, v⟩ := write
      obtain ⟨distinct, last⟩ := ih
      rw [puts_append]
      refine ⟨distinct.put k v, fun key u found => ?_⟩
      by_cases same : key = k
      · subst same
        rw [distinct.lookup_put_self] at found
        rw [lastWrite_append_self, found]
      · rw [lastWrite_append_of_ne writes v same]
        exact last key u (distinct.lookup_put_of_ne same found)

end SlotMap

end Mgcore.Lib
