import Mathlib.Data.List.Basic

/-!
# Computations that read a byte string by index

A `Reading` asks for the byte at an index and goes on with what it found. `reads` are the indices it asks for, in order,
up to the first one outside the string; `value` is its result, and `none` if it reads outside (`reads_inside_iff`).
-/

namespace Mgcore.Lib

inductive Reading (α : Type)
  | done (a : α)
  | read (i : Nat) (next : UInt8 → Reading α)

namespace Reading

def andThen {α β : Type} : Reading α → (α → Reading β) → Reading β
  | done a, f => f a
  | read i next, f => read i fun b => (next b).andThen f

instance : Monad Reading where
  pure := done
  bind := andThen

def byte (i : Nat) : Reading UInt8 := read i done

section
variable {α β : Type} (bytes : List UInt8)

def value : Reading α → Option α
  | done a => some a
  | read i next => (bytes[i]?).bind fun b => (next b).value

def reads : Reading α → List Nat
  | done _ => []
  | read i next => i :: (bytes[i]?).elim [] fun b => (next b).reads

@[simp] theorem value_pure (a : α) : (pure a : Reading α).value bytes = some a := rfl

@[simp] theorem value_byte (i : Nat) : (byte i).value bytes = bytes[i]? := Option.bind_fun_some _

@[simp] theorem value_bind (p : Reading α) (f : α → Reading β) :
    (p >>= f).value bytes = (p.value bytes).bind fun a => (f a).value bytes := by
  change (p.andThen f).value bytes = _
  induction p with
  | done a => rfl
  | read i next ih =>
      rw [andThen, value, value, Option.bind_assoc]
      congr 1
      funext b
      exact ih b

theorem value_ite {c : Prop} [Decidable c] (p q : Reading α) :
    (if c then p else q).value bytes = if c then p.value bytes else q.value bytes := apply_ite _ _ _ _

theorem reads_inside_iff (p : Reading α) : (∀ i ∈ p.reads bytes, i < bytes.length) ↔ (p.value bytes).isSome := by
  induction p with
  | done a => simp [reads, value]
  | read i next ih =>
      rw [reads, value, List.forall_mem_cons]
      cases found : bytes[i]? with
      | none =>
          have outside := List.getElem?_eq_none_iff.mp found
          simp only [Option.elim_none, Option.bind_none, Option.isSome_none]
          exact iff_of_false (fun both => absurd both.1 (Nat.not_lt.mpr outside)) (by simp)
      | some b =>
          obtain ⟨inside, -⟩ := List.getElem?_eq_some_iff.mp found
          rw [Option.elim_some, Option.bind_some, ih b]
          exact and_iff_right inside

end

end Reading

end Mgcore.Lib
