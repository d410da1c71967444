import Mgcore.Lib.Split
import Mgcore.Text.Format

/-!
# Splitting a command line

The loop of `dispatch_line` in `src/cli/shell.c`, on a line of `size` bytes: the pointer into the line is an index, and
an access outside of the line is `none`. The loop stores a NUL behind every argument it has found and goes on behind that
NUL, so the part of the line in front of it is never read again.
-/

namespace Mgcore
open Function Lib

def cliMaxArgs : Nat := 16

def isBlank (c : UInt8) : Bool := c == 0x20 || c == 0x09

def charAt (size : Nat) (line : Nat → UInt8) (i : Nat) : Option UInt8 := if i < size then some (line i) else none

/-- `while (p(*cursor)) ++cursor;` -/
def scanWhile (size : Nat) (line : Nat → UInt8) (p : UInt8 → Bool) : Nat → Nat → Option Nat
  | 0, _ => none
  | fuel + 1, cursor => do
      let c ← charAt size line cursor
      if p c then scanWhile size line p fuel (cursor + 1) else some cursor

def isWord (c : UInt8) : Bool := c != 0 && !isBlank c

/-- The arguments found, and the line that is left. -/
def splitLoop (size : Nat) : Nat → (Nat → UInt8) → Nat → List Nat → Option (List Nat × (Nat → UInt8))
  | 0, _, _, _ => none
  | fuel + 1, line, cursor, argv => do
      let c ← charAt size line cursor
      if c ≠ 0 ∧ argv.length < cliMaxArgs then do
        let start ← scanWhile size line isBlank (size + 1) cursor
        let first ← charAt size line start
        if first = 0 then some (argv, line)
        else do
          let stop ← scanWhile size line isWord (size + 1) start
          let last ← charAt size line stop
          if last ≠ 0 then splitLoop size fuel (update line stop 0) (stop + 1) (argv ++ [start])
          else splitLoop size fuel line stop (argv ++ [start])
      else some (argv, line)

def splitLine (size : Nat) (line : Nat → UInt8) : Option (List Nat × (Nat → UInt8)) := splitLoop size (size + 1) line 0 []

/-! ## Commands -/

/-- The names in `k_commands` of `src/cli/commands/builtin.c`. -/
def commandNames : List (List UInt8) :=
  ["help", "clear", "echo", "sysinfo", "tasks", "fsls", "meminfo", "swap", "eth", "nearby", "connect", "ping", "mgctl",
    "shutdown", "reboot"].map ascii

inductive Dispatched
  | nothing
  | command (name : List UInt8) (argv : List Nat)
  | unknown (name : List UInt8)
  deriving DecidableEq

/-- The string that `kstrcmp` compares with the names. -/
def stringFrom (size : Nat) (line : Nat → UInt8) : Nat → Nat → Option (List UInt8)
  | 0, _ => none
  | fuel + 1, i => do
      let c ← charAt size line i
      if c = 0 then some [] else (stringFrom size line fuel (i + 1)).map (c :: ·)

/-- What is called, and the line that is left: the commands do not write to their arguments. -/
def dispatchLine (size : Nat) (line : Nat → UInt8) : Option (Dispatched × (Nat → UInt8)) := do
  let (argv, line) ← splitLine size line
  match argv with
  | [] => some (.nothing, line)
  | first :: _ => do
      let name ← stringFrom size line (size + 1) first
      some (if name ∈ commandNames then .command name argv else .unknown name, line)

/-! ## Strings in the line -/

/-- `text` is the C string at `start`. -/
def StringAt (line : Nat → UInt8) (start : Nat) (text : List UInt8) : Prop := HoldsText (fun i => line (start + i)) text

variable {size cursor : Nat} {line : Nat → UInt8}

theorem stringAt_zero {text : List UInt8} : StringAt line 0 text ↔ HoldsText line text := by
  simp only [StringAt, Nat.zero_add]

theorem StringAt.congr {after : Nat → UInt8} {text : List UInt8} (string : StringAt line cursor text)
    (same : ∀ i, cursor ≤ i → i ≤ cursor + text.length → after i = line i) : StringAt after cursor text := by
  refine ⟨string.plain, fun i c found => ?_, ?_⟩
  · have inside := (List.getElem?_eq_some_iff.mp found).1
    exact (same _ (by omega) (by omega)).trans (string.bytes i c found)
  · exact (same _ (by omega) (by omega)).trans string.terminated

theorem StringAt.drop {before text : List UInt8} (string : StringAt line cursor (before ++ text)) :
    StringAt line (cursor + before.length) text := by
  refine ⟨fun zero => string.plain (List.mem_append_right before zero), fun i c found => ?_, ?_⟩
  · have later := string.bytes (before.length + i) c
      (by rw [List.getElem?_append_right (by omega), Nat.add_sub_cancel_left, found])
    rwa [← Nat.add_assoc] at later
  · have last := string.terminated
    rwa [List.length_append, ← Nat.add_assoc] at last

/-- A NUL behind its first part ends the string there. -/
theorem StringAt.cut {after : Nat → UInt8} {text rest : List UInt8} (string : StringAt line cursor (text ++ rest))
    (same : ∀ i, cursor ≤ i → i < cursor + text.length → after i = line i) (ended : after (cursor + text.length) = 0) :
    StringAt after cursor text := by
  refine ⟨fun zero => string.plain (List.mem_append_left rest zero), fun i c found => ?_, ended⟩
  have inside := (List.getElem?_eq_some_iff.mp found).1
  rw [same _ (by omega) (by omega)]
  exact string.bytes i c (by rw [List.getElem?_append_left inside, found])

theorem charAt_eq {i : Nat} (inside : i < size) (line : Nat → UInt8) : charAt size line i = some (line i) := if_pos inside

/-- The scan stops behind a run of characters, at the first one that does not belong to it. -/
theorem scanWhile_eq {p : UInt8 → Bool} {run : List UInt8} (bytes : ∀ i c, run[i]? = some c → line (cursor + i) = c)
    (all : ∀ c ∈ run, p c) (stops : ¬p (line (cursor + run.length))) (inside : cursor + run.length < size) {fuel : Nat}
    (enough : run.length < fuel) : scanWhile size line p fuel cursor = some (cursor + run.length) := by
  induction fuel generalizing cursor run with
  | zero => omega
  | succ fuel ih =>
      cases run with
      | nil =>
          rw [scanWhile, charAt_eq (show cursor < size from inside)]
          exact if_neg stops
      | cons c run =>
          have first : line cursor = c := bytes 0 c rfl
          rw [List.length_cons] at inside enough stops
          have rest : scanWhile size line p fuel (cursor + 1) = some (cursor + 1 + run.length) := by
            refine ih (fun i d found => ?_) (fun d member => all d (List.mem_cons_of_mem c member)) ?_ (by omega) (by omega)
            · rw [← bytes (i + 1) d found, Nat.add_assoc, Nat.add_comm 1]
            · rwa [Nat.add_assoc, Nat.add_comm 1]
          rw [scanWhile, charAt_eq (by omega), Option.bind_eq_bind, Option.bind_some, first,
            if_pos (all c List.mem_cons_self), rest, List.length_cons, Nat.add_assoc, Nat.add_comm 1]

/-! ## One round -/

theorem StringAt.scan {run rest : List UInt8} (string : StringAt line cursor (run ++ rest)) {p : UInt8 → Bool}
    (all : ∀ c ∈ run, p c) (stops : ¬p (line (cursor + run.length))) (inside : cursor + (run ++ rest).length < size) :
    scanWhile size line p (size + 1) cursor = some (cursor + run.length) := by
  rw [List.length_append] at inside
  refine scanWhile_eq (fun i c found => ?_) all stops (by omega) (by omega)
  have within := (List.getElem?_eq_some_iff.mp found).1
  exact string.bytes i c (by rw [List.getElem?_append_left within, found])

/-- The character behind a part of the string is the first of the rest, or the NUL. -/
theorem StringAt.next {run rest : List UInt8} (string : StringAt line cursor (run ++ rest)) :
    line (cursor + run.length) = rest.headD 0 := by
  have last := string.drop
  cases rest with
  | nil => exact last.terminated
  | cons c rest => exact last.bytes 0 c rfl

theorem StringAt.head_ne {text : List UInt8} (string : StringAt line cursor text) (filled : text ≠ []) : line cursor ≠ 0 := by
  obtain ⟨c, text, rfl⟩ := List.exists_cons_of_ne_nil filled
  have first : line cursor = c := string.bytes 0 c rfl
  rw [first]
  rintro rfl
  exact string.plain List.mem_cons_self

theorem splitLoop_full {argv : List Nat} (full : cliMaxArgs ≤ argv.length) (inside : cursor < size) (fuel : Nat) :
    splitLoop size (fuel + 1) line cursor argv = some (argv, line) := by
  rw [splitLoop, charAt_eq inside, Option.bind_eq_bind, Option.bind_some, if_neg fun both => Nat.not_lt.mpr full both.2]

theorem splitLoop_blanks {blanks : List UInt8} (string : StringAt line cursor blanks) (all : ∀ c ∈ blanks, isBlank c)
    (inside : cursor + blanks.length < size) (fuel : Nat) (argv : List Nat) :
    splitLoop size (fuel + 1) line cursor argv = some (argv, line) := by
  have ended := string.terminated
  rw [splitLoop, charAt_eq (by omega), Option.bind_eq_bind, Option.bind_some]
  by_cases more : line cursor ≠ 0 ∧ argv.length < cliMaxArgs
  · rw [← List.append_nil blanks] at string inside
    have scanned := string.scan all (by rw [ended]; decide) inside
    rw [List.append_nil] at inside
    simp only [if_pos more, scanned, Option.bind_eq_bind, Option.bind_some, charAt_eq inside, ended, if_true]
  · rw [if_neg more]

section
variable {blanks word rest : List UInt8} (string : StringAt line cursor (blanks ++ (word ++ rest)))
  (allBlank : ∀ c ∈ blanks, isBlank c) (plain : ∀ c ∈ word, ¬isBlank c) (filled : word ≠ [])
  (inside : cursor + (blanks ++ (word ++ rest)).length < size)

include string allBlank plain filled inside

/-- A round that finds an argument. -/
theorem splitLoop_word (ends : ∀ c, rest.head? = some c → isBlank c) {argv : List Nat}
    (room : argv.length < cliMaxArgs) (fuel : Nat) :
    splitLoop size (fuel + 1) line cursor argv =
      if rest = [] then splitLoop size fuel line (cursor + blanks.length + word.length) (argv ++ [cursor + blanks.length])
      else splitLoop size fuel (update line (cursor + blanks.length + word.length) 0)
        (cursor + blanks.length + word.length + 1) (argv ++ [cursor + blanks.length]) := by
  have visible {c : UInt8} (member : c ∈ word ++ rest) : c ≠ 0 := by
    rintro rfl
    exact string.plain (List.mem_append_right blanks member)
  have wordAt := string.drop
  have wordInside : cursor + blanks.length + (word ++ rest).length < size := by
    rwa [List.length_append, ← Nat.add_assoc] at inside
  obtain ⟨first, letters, rfl⟩ := List.exists_cons_of_ne_nil filled
  have start : line (cursor + blanks.length) = first := wordAt.bytes 0 first rfl
  have skipped := string.scan allBlank (by rw [start]; exact plain first List.mem_cons_self) inside
  have letter (c : UInt8) (member : c ∈ first :: letters) : isWord c := by
    simp [isWord, visible (List.mem_append_left rest member), plain c member]
  have stop := wordAt.next
  have scanned := wordAt.scan letter
    (by
      rw [stop]
      cases rest with
      | nil => decide
      | cons c rest => simp [isWord, ends c rfl])
    wordInside
  have more : line cursor ≠ 0 ∧ argv.length < cliMaxArgs := ⟨string.head_ne (by simp), room⟩
  rw [List.length_append] at wordInside
  rw [splitLoop, charAt_eq (by omega), Option.bind_eq_bind, Option.bind_some, if_pos more, skipped,
    Option.bind_eq_bind, Option.bind_some, charAt_eq (by omega), Option.bind_some, if_neg (wordAt.head_ne (by simp)),
    scanned, Option.bind_some, charAt_eq (by omega), Option.bind_some, stop]
  cases rest with
  | nil => rfl
  | cons c rest =>
      have present : c ≠ 0 := visible (by simp)
      rw [if_neg (List.cons_ne_nil c rest), List.headD_cons, if_pos present]

/-- Where the next round goes on: behind the NUL that it has stored, or at the one that ends the line. -/
theorem splitLoop_round (ends : ∀ c, rest.head? = some c → isBlank c) {argv : List Nat}
    (room : argv.length < cliMaxArgs) (fuel : Nat) :
    ∃ line' cursor', splitLoop size (fuel + 1) line cursor argv =
        splitLoop size fuel line' cursor' (argv ++ [cursor + blanks.length]) ∧
      StringAt line' cursor' (rest.drop 1) ∧ cursor + blanks.length + word.length ≤ cursor' ∧
      cursor' + (rest.drop 1).length = cursor + (blanks ++ (word ++ rest)).length ∧
      line' (cursor + blanks.length + word.length) = 0 ∧
      (∀ j, j ≠ cursor + blanks.length + word.length → line' j = line j) ∧
      (cursor + blanks.length + word.length < cursor' ∨
        cursor' + (rest.drop 1).length ≤ cursor + blanks.length + word.length) := by
  rw [splitLoop_word string allBlank plain filled inside ends room]
  have restAt := string.drop.drop
  cases rest with
  | nil =>
      rw [if_pos rfl]
      refine ⟨line, _, rfl, restAt, Nat.le_refl _, ?_, restAt.terminated, fun _ _ => rfl, Or.inr (Nat.le_refl _)⟩
      simp only [List.drop_nil, List.length_nil, List.length_append]
      omega
  | cons c rest =>
      rw [if_neg (List.cons_ne_nil c rest), List.drop_one, List.tail_cons]
      have behind : StringAt line (cursor + blanks.length + word.length + 1) rest := by
        rw [← List.singleton_append] at restAt
        exact restAt.drop
      refine ⟨_, _, rfl, behind.congr fun j low _ => update_of_ne (by omega) .., by omega, ?_, update_self ..,
        fun j other => update_of_ne other .., Or.inl (Nat.lt_succ_self _)⟩
      simp only [List.length_append, List.length_cons]
      omega

end

/-! ## The loop -/

/-- What a scan of the string `text` at `cursor` has to leave, when there is room for `room` more arguments. -/
structure Splits (line : Nat → UInt8) (cursor : Nat) (text : List UInt8) (room : Nat) (starts : List Nat)
    (after : Nat → UInt8) : Prop where
  count : starts.length = min room (runs isBlank text).length
  words : ∀ (i start : Nat) (word : List UInt8), starts[i]? = some start → (runs isBlank text)[i]? = some word →
    cursor ≤ start ∧ start + word.length ≤ cursor + text.length ∧ StringAt after start word
  outside : ∀ j, j < cursor ∨ cursor + text.length ≤ j → after j = line j

theorem Splits.nothing {text : List UInt8} {room : Nat} (none : room = 0 ∨ runs isBlank text = []) :
    Splits line cursor text room [] line := by
  refine ⟨?_, ?_, fun _ _ => rfl⟩
  · rcases none with rfl | empty
    · exact (Nat.zero_min _).symm
    · rw [empty]
      exact (Nat.min_zero _).symm
  · intro i start word found
    cases found

theorem splitLoop_spec {text : List UInt8} (string : StringAt line cursor text) (inside : cursor + text.length < size)
    {fuel : Nat} (enough : text.length < fuel) (argv : List Nat) :
    ∃ starts after, splitLoop size fuel line cursor argv = some (argv ++ starts, after) ∧
      Splits line cursor text (cliMaxArgs - argv.length) starts after := by
  induction fuel generalizing line cursor text argv with
  | zero => omega
  | succ fuel ih =>
      by_cases full : cliMaxArgs ≤ argv.length
      · refine ⟨[], line, ?_, .nothing (Or.inl (by omega))⟩
        rw [splitLoop_full full (by omega), List.append_nil]
      obtain ⟨blanks, word, rest, rfl, allBlank, plain, ends, last⟩ := exists_first_run isBlank text
      by_cases empty : word = []
      · have alone : blanks ++ (word ++ rest) = blanks := by rw [empty, last empty, List.append_nil, List.append_nil]
        rw [alone] at string inside ⊢
        refine ⟨[], line, ?_, .nothing (Or.inr (runs_breaks allBlank))⟩
        rw [splitLoop_blanks string allBlank inside, List.append_nil]
      obtain ⟨line', cursor', round, behind, later, extent, ended, kept, separated⟩ :=
        splitLoop_round string allBlank plain empty inside ends (Nat.not_le.mp full) fuel
      have long := List.length_pos_iff.mpr empty
      have shorter : (rest.drop 1).length < fuel := by
        simp only [List.length_append, List.length_drop] at enough ⊢
        omega
      obtain ⟨starts, after, returns, splits⟩ := ih behind (by omega) shorter (argv ++ [cursor + blanks.length])
      refine ⟨(cursor + blanks.length) :: starts, after, ?_, ?_⟩
      · rw [round, returns, List.append_assoc]
        rfl
      have words := runs_first allBlank plain empty ends
      refine ⟨?_, fun i start other found run => ?_, fun j far => ?_⟩
      · have count := splits.count
        rw [List.length_append, List.length_singleton] at count
        rw [words, List.length_cons, List.length_cons]
        omega
      · rw [words] at run
        cases i with
        | zero =>
            cases found
            cases run
            refine ⟨by omega, by simp only [List.length_append]; omega, ?_⟩
            refine string.drop.cut (fun j _ before => ?_) ?_
            · rw [splits.outside j (Or.inl (by omega)), kept j (by omega)]
            · rw [splits.outside _ separated, ended]
        | succ i =>
            obtain ⟨low, high, string⟩ := splits.words i start other found run
            exact ⟨by omega, by omega, string⟩
      · rw [splits.outside j (by omega)]
        by_cases last : j = cursor + blanks.length + word.length
        · have finished : j = cursor + (blanks ++ (word ++ rest)).length := by
            simp only [List.length_append] at far ⊢
            omega
          rw [last, ended, ← last, finished]
          exact string.terminated.symm
        · exact kept j last

/-- The arguments are the runs of other characters than blanks, at most 16 of them, each a string of its own in the line,
and no access leaves the line. -/
theorem command_line_split (text : List UInt8) (line : Nat → UInt8) (string : StringAt line 0 text) :
    ∃ argv after, splitLine (text.length + 1) line = some (argv, after) ∧
      argv.length = min 16 (runs isBlank text).length ∧
      (∀ (i start : Nat), argv[i]? = some start → ∃ word, (runs isBlank text)[i]? = some word ∧
        start + word.length ≤ text.length ∧ StringAt after start word) ∧
      ∀ j, text.length ≤ j → after j = line j := by
  obtain ⟨argv, after, returns, splits⟩ :=
    splitLoop_spec string (show 0 + text.length < text.length + 1 by omega)
      (show text.length < text.length + 1 + 1 by omega) []
  refine ⟨argv, after, returns, splits.count, fun i start found => ?_, fun j far => splits.outside j (by omega)⟩
  have inside := (List.getElem?_eq_some_iff.mp found).1
  have count := splits.count
  have run := List.getElem?_eq_getElem (show i < (runs isBlank text).length by omega)
  obtain ⟨-, high, wordAt⟩ := splits.words i start _ found run
  exact ⟨_, run, by omega, wordAt⟩

theorem stringAt_getD {text : List UInt8} (plain : 0 ∉ text) : StringAt (fun i => text.getD i 0) 0 text := by
  refine ⟨plain, fun i c found => ?_, ?_⟩
  · change text.getD (0 + i) 0 = c
    rw [Nat.zero_add, List.getD_eq_getElem?_getD, found, Option.getD_some]
  · change text.getD (0 + text.length) 0 = 0
    rw [Nat.zero_add, List.getD_eq_getElem?_getD, List.getElem?_eq_none (Nat.le_refl _), Option.getD_none]

theorem command_line_split_sample :
    StringAt (fun i => (ascii "  ping\t10.0.2.2  3 ").getD i 0) 0 (ascii "  ping\t10.0.2.2  3 ") ∧
      ∃ argv after, splitLine 20 (fun i => (ascii "  ping\t10.0.2.2  3 ").getD i 0) = some (argv, after) ∧
        argv.length = 3 := by
  have string := stringAt_getD (show 0 ∉ ascii "  ping\t10.0.2.2  3 " by decide)
  obtain ⟨argv, after, returns, count, -⟩ := command_line_split _ _ string
  exact ⟨string, argv, after, returns, count.trans (by decide)⟩

/-! ## What is called -/

theorem stringFrom_eq {text : List UInt8} (string : StringAt line cursor text) (inside : cursor + text.length < size)
    {fuel : Nat} (enough : text.length < fuel) : stringFrom size line fuel cursor = some text := by
  induction fuel generalizing cursor text with
  | zero => omega
  | succ fuel ih =>
      rw [stringFrom, charAt_eq (by omega), Option.bind_eq_bind, Option.bind_some]
      cases text with
      | nil => exact if_pos string.terminated
      | cons c text =>
          have first : line cursor = c := string.bytes 0 c rfl
          rw [List.length_cons] at inside enough
          rw [if_neg (string.head_ne (List.cons_ne_nil c text)), first]
          rw [← List.singleton_append] at string
          have rest : StringAt line (cursor + 1) text := string.drop
          rw [ih rest (by omega) (by omega)]
          rfl

/-- The line up to the first blank behind a word. -/
def firstWord (text : List UInt8) : List UInt8 :=
  text.takeWhile isBlank ++ (text.dropWhile isBlank).takeWhile (!isBlank ·)

theorem firstWord_eq {blanks word rest : List UInt8} (allBlank : ∀ c ∈ blanks, isBlank c) (plain : ∀ c ∈ word, ¬isBlank c)
    (ends : ∀ c, rest.head? = some c → isBlank c) (last : word = [] → rest = []) :
    firstWord (blanks ++ (word ++ rest)) = blanks ++ word := by
  have starts : (word ++ rest).takeWhile isBlank = [] ∧ (word ++ rest).dropWhile isBlank = word ++ rest := by
    cases word with
    | nil => rw [last rfl]; exact ⟨rfl, rfl⟩
    | cons c word =>
        have letter := plain c List.mem_cons_self
        exact ⟨List.takeWhile_cons_of_neg letter, List.dropWhile_cons_of_neg letter⟩
  have letters : (word ++ rest).takeWhile (!isBlank ·) = word := by
    rw [List.takeWhile_append_of_pos fun c member => by simpa using plain c member]
    cases rest with
    | nil => rw [List.takeWhile_nil, List.append_nil]
    | cons c rest => rw [List.takeWhile_cons_of_neg (by simp [ends c rfl]), List.append_nil]
  rw [firstWord, List.takeWhile_append_of_pos allBlank, List.dropWhile_append_of_pos allBlank, starts.1, starts.2, letters,
    List.append_nil]

/-- The strings that a command finds in its `argv`. -/
def argumentTexts (size : Nat) (line : Nat → UInt8) (argv : List Nat) : List (List UInt8) :=
  argv.map fun start => (stringFrom size line (size + 1) start).getD []

theorem Splits.texts {text : List UInt8} {room : Nat} {starts : List Nat} {after : Nat → UInt8}
    (splits : Splits line cursor text room starts after) (inside : cursor + text.length < size) :
    argumentTexts size after starts = (runs isBlank text).take room := by
  have count := splits.count
  refine List.ext_getElem (by simp [argumentTexts, count]) fun i left right => ?_
  rw [argumentTexts, List.length_map] at left
  rw [List.length_take] at right
  have run := List.getElem?_eq_getElem (show i < (runs isBlank text).length by omega)
  obtain ⟨-, high, wordAt⟩ := splits.words i _ _ (List.getElem?_eq_getElem left) run
  simp only [argumentTexts, List.getElem_map, List.getElem_take]
  rw [stringFrom_eq wordAt (by omega) (by omega), Option.getD_some]

/-- The first word of the line is what is called, with the words as its arguments, and the line that is left ends behind
it. -/
theorem dispatchLine_spec {text : List UInt8} (string : StringAt line 0 text) (inside : text.length < size) :
    ∃ argv after, dispatchLine size line = some
        (match runs isBlank text with
          | [] => Dispatched.nothing
          | name :: _ => if name ∈ commandNames then .command name argv else .unknown name, after) ∧
      StringAt after 0 (firstWord text) ∧ argumentTexts size after argv = (runs isBlank text).take cliMaxArgs := by
  obtain ⟨blanks, word, rest, rfl, allBlank, plain, ends, last⟩ := exists_first_run isBlank text
  rw [firstWord_eq allBlank plain ends last]
  by_cases empty : word = []
  · have alone : blanks ++ (word ++ rest) = blanks := by rw [empty, last empty, List.append_nil, List.append_nil]
    rw [alone] at string inside ⊢
    rw [empty, List.append_nil, runs_breaks allBlank]
    have nothing := splitLoop_blanks string allBlank (by rwa [Nat.zero_add]) size []
    refine ⟨[], line, ?_, string, rfl⟩
    rw [dispatchLine, splitLine, nothing]
    rfl
  · rw [runs_first allBlank plain empty ends]
    obtain ⟨line', cursor', round, behind, later, extent, ended, kept, separated⟩ :=
      splitLoop_round string allBlank plain empty (by rwa [Nat.zero_add]) ends (show [].length < cliMaxArgs by decide) size
    have bound : cursor' + (rest.drop 1).length < size := by omega
    have shorter : (rest.drop 1).length < size := by omega
    obtain ⟨starts, after, returns, splits⟩ := splitLoop_spec behind bound shorter ([] ++ [0 + blanks.length])
    have front (j : Nat) (before : j < blanks.length + word.length) : after j = line j := by
      rw [splits.outside j (Or.inl (by omega)), kept j (by omega)]
    have stop : after (0 + blanks.length + word.length) = 0 := by
      rw [splits.outside _ separated, ended]
    have wordAt : StringAt after (0 + blanks.length) word := by
      refine string.drop.cut (fun j _ before => front j ?_) stop
      omega
    have name := stringFrom_eq wordAt (show 0 + blanks.length + word.length < size by omega)
      (show word.length < size + 1 by omega)
    refine ⟨(0 + blanks.length) :: starts, after, ?_, ?_, ?_⟩
    · rw [dispatchLine, splitLine, round, returns]
      simp only [List.nil_append, List.singleton_append, Option.bind_eq_bind, Option.bind_some, name]
    · rw [← List.append_assoc] at string
      refine string.cut (fun j _ before => front j ?_) ?_
      · rw [List.length_append] at before
        omega
      · rwa [List.length_append, ← Nat.add_assoc]
    · have rest := splits.texts bound
      rw [argumentTexts] at rest ⊢
      rw [List.map_cons, name, Option.getD_some, rest]
      rfl

end Mgcore
