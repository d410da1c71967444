import Mathlib.Data.List.Basic
import Mathlib.Data.List.TakeWhile

/-!
# Runs of a text, and runs cut to a length

`runs p text` are the maximal non-empty pieces of a text without an element that satisfies `p`. `cut n` breaks a list
after every `n` elements.
-/

namespace Mgcore.Lib

variable {α : Type*}

section
variable (p : α → Bool)

def runs (text : List α) : List (List α) := (text.splitOnP p).filter (!·.isEmpty)

variable {p}

@[simp] theorem runs_nil : runs p [] = [] := by simp [runs]

theorem runs_append_break {c : α} (isBreak : p c) (left right : List α) :
    runs p (left ++ c :: right) = runs p left ++ runs p right := by
  rw [runs, List.splitOnP_append_cons left right isBreak, List.filter_append]
  rfl

theorem runs_cons_break {c : α} (isBreak : p c) (text : List α) : runs p (c :: text) = runs p text := by
  have split := runs_append_break isBreak [] text
  rw [runs_nil, List.nil_append, List.nil_append] at split
  exact split

theorem runs_append_one {c : α} (isBreak : p c) (text : List α) : runs p (text ++ [c]) = runs p text := by
  rw [runs_append_break isBreak, runs_nil, List.append_nil]

theorem runs_dropWhile (text : List α) : runs p (text.dropWhile p) = runs p text := by
  induction text with
  | nil => rfl
  | cons c text ih =>
      by_cases isBreak : p c
      · rw [List.dropWhile_cons_of_pos isBreak, ih, runs_cons_break isBreak]
      · rw [List.dropWhile_cons_of_neg isBreak]

theorem runs_breaks {text : List α} (all : ∀ c ∈ text, p c) : runs p text = [] := by
  induction text with
  | nil => exact runs_nil
  | cons c text ih =>
      rw [runs_cons_break (all c List.mem_cons_self)]
      exact ih fun d member => all d (List.mem_cons_of_mem c member)

theorem runs_plain {word : List α} (filled : word ≠ []) (plain : ∀ c ∈ word, ¬p c) : runs p word = [word] := by
  have single : word.splitOnP p = [word] := List.splitOnP_eq_singleton fun c member => by simpa using plain c member
  rw [runs, single]
  cases word with
  | nil => exact absurd rfl filled
  | cons c word => rfl

theorem runs_word_break {word : List α} (filled : word ≠ []) (plain : ∀ c ∈ word, ¬p c) {rest : List α}
    (ends : ∀ c, rest.head? = some c → p c) : runs p (word ++ rest) = word :: runs p rest := by
  cases rest with
  | nil => rw [List.append_nil, runs_plain filled plain, runs_nil]
  | cons c rest =>
      have isBreak := ends c rfl
      rw [runs_append_break isBreak, runs_plain filled plain, runs_cons_break isBreak, List.singleton_append]

/-- A text is made of breaks, a word, and a rest that is empty or starts with a break. -/
theorem exists_first_run (p : α → Bool) (text : List α) :
    ∃ breaks word rest, text = breaks ++ (word ++ rest) ∧ (∀ c ∈ breaks, p c) ∧ (∀ c ∈ word, ¬p c) ∧
      (∀ c, rest.head? = some c → p c) ∧ (word = [] → rest = []) := by
  refine ⟨text.takeWhile p, (text.dropWhile p).takeWhile (!p ·), (text.dropWhile p).dropWhile (!p ·), ?_, ?_, ?_, ?_, ?_⟩
  · rw [List.takeWhile_append_dropWhile, List.takeWhile_append_dropWhile]
  · exact fun c member => List.mem_takeWhile_imp member
  · exact fun c member => by simpa using List.mem_takeWhile_imp member
  · intro c head
    have ends := List.head?_dropWhile_not (!p ·) (text.dropWhile p)
    rw [head] at ends
    simpa using ends
  · intro empty
    have starts := List.head?_dropWhile_not p text
    cases left : text.dropWhile p with
    | nil => rfl
    | cons c rest =>
        rw [left] at starts empty
        have plain : p c = false := by simpa using starts
        rw [List.takeWhile_cons_of_pos (by simp [plain])] at empty
        cases empty

theorem runs_breaks_append {breaks : List α} (all : ∀ c ∈ breaks, p c) (text : List α) :
    runs p (breaks ++ text) = runs p text := by
  induction breaks with
  | nil => rfl
  | cons c breaks ih =>
      rw [List.cons_append, runs_cons_break (all c List.mem_cons_self)]
      exact ih fun d member => all d (List.mem_cons_of_mem c member)

/-- The first word, and the words behind the break that ends it. -/
theorem runs_first {breaks word rest : List α} (all : ∀ c ∈ breaks, p c) (plain : ∀ c ∈ word, ¬p c) (filled : word ≠ [])
    (ends : ∀ c, rest.head? = some c → p c) : runs p (breaks ++ (word ++ rest)) = word :: runs p (rest.drop 1) := by
  rw [runs_breaks_append all, runs_word_break filled plain ends]
  cases rest with
  | nil => rfl
  | cons c rest => rw [runs_cons_break (ends c rfl), List.drop_one, List.tail_cons]

theorem mem_splitOnP {text piece : List α} (member : piece ∈ text.splitOnP p) : ∀ c ∈ piece, ¬p c := by
  induction text generalizing piece with
  | nil =>
      rw [List.splitOnP_nil, List.mem_singleton] at member
      rw [member]
      exact fun c inside => nomatch inside
  | cons first text ih =>
      rw [List.splitOnP_cons_eq_if_modifyHead] at member
      split_ifs at member with isBreak
      · rcases List.mem_cons.mp member with rfl | later
        · exact fun c inside => nomatch inside
        · exact ih later
      · cases pieces : text.splitOnP p with
        | nil => exact absurd pieces (List.splitOnP_ne_nil p text)
        | cons head others =>
            rw [pieces] at member ih
            rcases List.mem_cons.mp member with rfl | later
            · intro c inside
              rcases List.mem_cons.mp inside with rfl | inside
              · exact isBreak
              · exact ih List.mem_cons_self c inside
            · exact ih (List.mem_cons_of_mem head later)

theorem mem_runs {text word : List α} (member : word ∈ runs p text) : word ≠ [] ∧ ∀ c ∈ word, ¬p c := by
  obtain ⟨piece, filled⟩ := List.mem_filter.mp member
  refine ⟨?_, mem_splitOnP piece⟩
  rintro rfl
  cases filled

end

/-! ## Cutting -/

def cutLoop (n : Nat) : Nat → List α → List (List α)
  | _, [] => []
  | 0, _ => []
  | fuel + 1, c :: word => (c :: word).take n :: cutLoop n fuel ((c :: word).drop n)

def cut (n : Nat) (word : List α) : List (List α) := cutLoop n word.length word

theorem cutLoop_fuel {n : Nat} (positive : 0 < n) {word : List α} {fuel more : Nat} (enough : word.length ≤ fuel)
    (enough' : word.length ≤ more) : cutLoop n fuel word = cutLoop n more word := by
  induction fuel generalizing word more with
  | zero =>
      cases word with
      | nil => cases more <;> rfl
      | cons c word => simp at enough
  | succ fuel ih =>
      cases word with
      | nil => cases more <;> rfl
      | cons c word =>
          cases more with
          | zero => simp at enough'
          | succ more =>
              have shorter : ((c :: word).drop n).length ≤ word.length := by
                rw [List.length_drop, List.length_cons]
                omega
              simp only [List.length_cons] at enough enough'
              rw [cutLoop, cutLoop, ih (by omega) (show _ ≤ more by omega)]

theorem cut_cons {n : Nat} (positive : 0 < n) {word : List α} (filled : word ≠ []) :
    cut n word = word.take n :: cut n (word.drop n) := by
  cases word with
  | nil => exact absurd rfl filled
  | cons c word =>
      have rest := @cutLoop_fuel _ n positive ((c :: word).drop n) word.length ((c :: word).drop n).length
        (by rw [List.length_drop, List.length_cons]; omega) (Nat.le_refl _)
      rw [cut, List.length_cons, cutLoop, rest]
      rfl

theorem mem_cutLoop {n fuel : Nat} {word piece : List α} (member : piece ∈ cutLoop n fuel word) : ∀ c ∈ piece, c ∈ word := by
  induction fuel generalizing word with
  | zero => cases word <;> cases member
  | succ fuel ih =>
      cases word with
      | nil => cases member
      | cons first word =>
          rw [cutLoop] at member
          intro c inside
          rcases List.mem_cons.mp member with rfl | later
          · exact List.mem_of_mem_take inside
          · exact List.mem_of_mem_drop (ih later c inside)

theorem cut_nil (n : Nat) : cut n ([] : List α) = [] := rfl

theorem cut_short {n : Nat} {word : List α} (filled : word ≠ []) (short : word.length ≤ n) : cut n word = [word] := by
  have positive : 0 < n := Nat.lt_of_lt_of_le (List.length_pos_of_ne_nil filled) short
  rw [cut_cons positive filled, List.take_of_length_le short, List.drop_eq_nil_of_le short, cut_nil]

end Mgcore.Lib
