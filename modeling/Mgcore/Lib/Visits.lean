import Mathlib.Data.List.Basic

/-!
# The places a loop visits

A loop that goes from `a` to `next a` as long as `goesOn a` holds, for at most `fuel` rounds. `visits` are the places
whose body is run, followed by `atEnd` of the place where it stops (that place itself if the loop looks at it, or
nothing); `none` means that the fuel did not suffice.
-/

namespace Mgcore.Lib

variable {α : Type*}

def visits (goesOn : α → Bool) (next : α → α) (atEnd : α → List α) (fuel : Nat) (a : α) : Option (List α) :=
  if goesOn a then
    match fuel with
    | 0 => none
    | fuel + 1 => (visits goesOn next atEnd fuel (next a)).map (a :: ·)
  else some (atEnd a)

variable {goesOn : α → Bool} {next : α → α} {atEnd : α → List α} {a : α}

theorem visits_stop (stops : ¬goesOn a) (fuel : Nat) : visits goesOn next atEnd fuel a = some (atEnd a) := by
  rw [visits.eq_def, if_neg stops]

theorem visits_zero (inside : goesOn a) : visits goesOn next atEnd 0 a = none := by
  rw [visits, if_pos inside]

theorem visits_succ (inside : goesOn a) (fuel : Nat) :
    visits goesOn next atEnd (fuel + 1) a = (visits goesOn next atEnd fuel (next a)).map (a :: ·) := by
  rw [visits, if_pos inside]

theorem visits_cases {fuel : Nat} {visited : List α} (returns : visits goesOn next atEnd fuel a = some visited) :
    (¬goesOn a ∧ visited = atEnd a) ∨
      (goesOn a ∧ ∃ less rest, fuel = less + 1 ∧ visits goesOn next atEnd less (next a) = some rest ∧
        visited = a :: rest) := by
  by_cases inside : goesOn a
  · cases fuel with
    | zero =>
        rw [visits_zero inside] at returns
        cases returns
    | succ less =>
        rw [visits_succ inside] at returns
        obtain ⟨rest, later, rfl⟩ := Option.map_eq_some_iff.mp returns
        exact Or.inr ⟨inside, less, rest, rfl, later, rfl⟩
  · rw [visits_stop inside] at returns
    exact Or.inl ⟨inside, (Option.some.inj returns).symm⟩

theorem visits_more {fuel more : Nat} {visited : List α} (returns : visits goesOn next atEnd fuel a = some visited)
    (enough : fuel ≤ more) : visits goesOn next atEnd more a = some visited := by
  induction fuel generalizing more a visited with
  | zero =>
      rcases visits_cases returns with ⟨stops, rfl⟩ | ⟨-, less, -, spent, -⟩
      · exact visits_stop stops more
      · cases spent
  | succ fuel ih =>
      rcases visits_cases returns with ⟨stops, rfl⟩ | ⟨inside, less, rest, spent, later, rfl⟩
      · exact visits_stop stops more
      · cases spent
        obtain ⟨more, rfl⟩ := Nat.exists_eq_add_of_le' (Nat.le_of_add_left_le enough)
        rw [visits_succ inside, ih later (by omega)]
        rfl

end Mgcore.Lib
