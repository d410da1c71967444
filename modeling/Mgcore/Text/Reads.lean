import Mgcore.Lib.Reading
import Mgcore.Text.Bounded

/-!
# The bytes of a format that are read

The loops of `kvsnprintf` and `kvformat_braces` as sequences of reads from the format, which is its bytes and the NUL
behind them. `va_arg` takes the next 64-bit slot, whatever was passed. A directive is looked at as soon as its `%` is
found, and the loop then goes on behind it: after a `%` that stands alone at the end it goes on behind the NUL.
-/

namespace Mgcore

open Lib Reading

/-! ## Reading the format -/

/-- The slots that `va_arg` takes in turn, and the strings that those point to which are used as pointers. -/
structure VaList where
  slot : Nat → UInt64
  string : UInt64 → List UInt8

def VaList.text (va : VaList) (k : Nat) : Option (List UInt8) := if va.slot k = 0 then none else some (va.string (va.slot k))

def VaList.arg (va : VaList) (d : UInt8) (k : Nat) : Arg := if d = char 's' then .text (va.text k) else .word (va.slot k)

/-- The `switch` of `kvsnprintf`, with the number of slots that have been taken. -/
def vaDirective (size : Nat) (va : VaList) (d : UInt8) (k : Nat) (out : Output) : Option (Nat × Output) := do
  let (rest, out) ← formatDirective size d [va.arg d k] out
  some (k + 1 - rest.length, out)

/-- The result is `none` if the fuel does not suffice. -/
def formatAt (size : Nat) (va : VaList) : Nat → Nat → Nat → Output → Reading (Option Output)
  | 0, _, _, _ => pure none
  | fuel + 1, p, k, out => do
      let c ← byte p
      if c = 0 then return some out
      else if c ≠ char '%' then formatAt size va fuel (p + 1) k (appendChar size out c)
      else do
        let d ← byte (p + 1)
        match vaDirective size va d k out with
        | none => return none
        | some (k, out) => formatAt size va fuel (p + 2) k out

/-- `p[0] == a && p[1] == b` -/
def pairAt (p : Nat) (a b : UInt8) : Reading Bool := do
  let c ← byte p
  if c = a then do
    let d ← byte (p + 1)
    return d == b
  else return false

def bracesAt (size : Nat) (va : VaList) : Nat → Nat → Nat → Output → Reading (Option Output)
  | 0, _, _, _ => pure none
  | fuel + 1, p, k, out => do
      let c ← byte p
      if c = 0 then return some out
      else do
        let opening ← pairAt p (char '{') (char '{')
        if opening then bracesAt size va fuel (p + 2) k (appendChar size out (char '{'))
        else do
          let closing ← pairAt p (char '}') (char '}')
          if closing then bracesAt size va fuel (p + 2) k (appendChar size out (char '}'))
          else do
            let hole ← pairAt p (char '{') (char '}')
            if hole then
              match va.text k with
              | some s => bracesAt size va fuel (p + 2) (k + 1) (appendString size out (some s))
              | none =>
                  bracesAt size va fuel (p + 2) (k + 1) (appendChar size (appendChar size out (char '{')) (char '}'))
            else do
              let c ← byte p
              bracesAt size va fuel (p + 1) k (appendChar size out c)

/-- The last two lines of both functions. -/
def finishOutput (size : Nat) (out : Output) : Int × (Nat → UInt8) :=
  (toInt out.index, Function.update out.buffer (if out.index < size then out.index else size - 1) 0)

def kvsnprintfAt (buffer : Nat → UInt8) (size : Nat) (va : VaList) (fuel : Nat) : Reading (Option (Int × (Nat → UInt8))) :=
  if size = 0 then pure (some (0, buffer))
  else do
    let out ← formatAt size va fuel 0 0 { buffer, index := 0 }
    return out.map (finishOutput size)

/-- For a pattern that is not `NULL`. -/
def kvformatBracesAt (buffer : Nat → UInt8) (size : Nat) (va : VaList) (fuel : Nat) :
    Reading (Option (Int × (Nat → UInt8))) :=
  if size = 0 then pure (some (0, buffer))
  else do
    let out ← bracesAt size va fuel 0 0 { buffer, index := 0 }
    return out.map (finishOutput size)

/-! ## Percent signs at the end -/

/-- The number of percent signs that the format ends in. -/
def closingPercents (fmt : List UInt8) : Nat := (fmt.reverse.takeWhile (· == char '%')).length

theorem closingPercents_le (fmt : List UInt8) : closingPercents fmt ≤ fmt.length := by
  have most := (List.takeWhile_prefix (· == char '%') (l := fmt.reverse)).length_le
  rwa [List.length_reverse] at most

theorem closingPercents_cons (c : UInt8) (fmt : List UInt8) :
    closingPercents (c :: fmt) =
      if closingPercents fmt = fmt.length then fmt.length + (if c = char '%' then 1 else 0) else closingPercents fmt := by
  unfold closingPercents
  rw [List.reverse_cons, List.takeWhile_append, List.length_reverse]
  split_ifs with whole percent
  · rw [List.length_append, List.length_reverse, percent]
    rfl
  · rw [List.length_append, List.length_reverse, List.takeWhile_cons_of_neg (by simpa using percent)]
    rfl
  · rfl

theorem closingPercents_plain {c : UInt8} (plain : c ≠ char '%') (fmt : List UInt8) :
    closingPercents (c :: fmt) = closingPercents fmt := by
  rw [closingPercents_cons, if_neg plain]
  split_ifs with whole
  · exact whole.symm
  · rfl

/-- A directive in front changes the number by 2 or not at all. -/
theorem closingPercents_directive (d : UInt8) (fmt : List UInt8) :
    closingPercents (char '%' :: d :: fmt) % 2 = closingPercents fmt % 2 := by
  have most := closingPercents_le fmt
  rw [closingPercents_cons, if_pos rfl, closingPercents_cons, List.length_cons]
  split_ifs <;> omega

/-! ## The directives -/

theorem pieceOf_string {d : UInt8} {directive : Directive} (found : pieceOf d = .directive directive) :
    directive = .string ↔ d = char 's' := by
  have apart : char 's' ≠ char '%' ∧ char 's' ≠ char 'c' := by decide
  unfold pieceOf directiveOf at found
  by_cases string : d = char 's'
  · rw [string, if_neg apart.1, if_neg apart.2, if_pos rfl] at found
    cases found
    exact iff_of_true rfl string
  · rw [if_neg string] at found
    refine iff_of_false ?_ string
    rintro rfl
    split_ifs at found <;> cases found

theorem VaList.arg_suits (va : VaList) {d : UInt8} {directive : Directive} (found : pieceOf d = .directive directive)
    (k : Nat) : directive.suits (va.arg d k) := by
  have string := pieceOf_string found
  unfold VaList.arg
  split_ifs with isString
  · rw [string.mpr isString]
    rfl
  · have other := mt string.mp isString
    cases directive <;> first | rfl | exact absurd rfl other

/-- A directive always finds its argument: some arguments that the other model of `kvsnprintf` would take as well. -/
theorem vaDirective_eq (size : Nat) (va : VaList) (d : UInt8) (k : Nat) (out : Output) :
    ∃ args after, vaDirective size va d k out = some (k + args.length, after) ∧
      ∀ spare, formatDirective size d (args ++ spare) out = some (spare, after) := by
  simp only [vaDirective, formatDirective_eq, directiveText_eq]
  cases found : pieceOf d with
  | plain text => exact ⟨[], appendText size out text, rfl, fun spare => rfl⟩
  | directive directive =>
      have suits := va.arg_suits found k
      have taken (spare : List Arg) := Directive.take_cons suits spare
      refine ⟨[va.arg d k], appendText size out (directive.text (va.arg d k)), ?_, fun spare => ?_⟩
      · simp only [taken]
        rfl
      · simp only [List.singleton_append, taken]
        rfl

/-! ## The loops -/

section
variable {bytes rest : List UInt8} {p : Nat} (here : bytes.drop p = rest)
include here

theorem read_at (i : Nat) : bytes[p + i]? = rest[i]? := by
  rw [← here, List.getElem?_drop]

theorem read_here : bytes[p]? = rest[0]? := read_at here 0

theorem drop_at (n : Nat) : bytes.drop (p + n) = rest.drop n := by
  rw [← here, List.drop_drop]

end

section
variable (size : Nat) (va : VaList) {bytes : List UInt8} {p : Nat} (fuel k : Nat) (out : Output)

theorem formatAt_end (found : bytes[p]? = some 0) : (formatAt size va (fuel + 1) p k out).value bytes = some (some out) := by
  rw [formatAt, value_bind, value_byte, found]
  rfl

theorem formatAt_plain {c : UInt8} (found : bytes[p]? = some c) (nonzero : c ≠ 0) (plain : c ≠ char '%') :
    (formatAt size va (fuel + 1) p k out).value bytes =
      (formatAt size va fuel (p + 1) k (appendChar size out c)).value bytes := by
  rw [formatAt, value_bind, value_byte, found, Option.bind_some, if_neg nonzero, if_pos plain]

theorem formatAt_directive (found : bytes[p]? = some (char '%')) {d : UInt8} (next : bytes[p + 1]? = some d) :
    ∃ args after, (∀ spare, formatDirective size d (args ++ spare) out = some (spare, after)) ∧
      (formatAt size va (fuel + 1) p k out).value bytes =
        (formatAt size va fuel (p + 2) (k + args.length) after).value bytes := by
  obtain ⟨args, after, taken, same⟩ := vaDirective_eq size va d k out
  refine ⟨args, after, same, ?_⟩
  rw [formatAt, value_bind, value_byte, found, Option.bind_some, if_neg (by decide), if_neg (by decide), value_bind,
    value_byte, next, Option.bind_some]
  simp only [taken]

theorem formatLoop_plain {c : UInt8} (plain : c ≠ char '%') (fmt : List UInt8) (args : List Arg) :
    formatLoop size (c :: fmt) args out = formatLoop size fmt args (appendChar size out c) := by
  cases fmt with
  | nil => exact if_pos plain
  | cons d fmt => exact if_pos plain

end

/-- The loop ends at the NUL, with what the model on the bytes in front of it computes. -/
theorem formatAt_even (size : Nat) (va : VaList) {bytes fmt : List UInt8} {p : Nat} (here : bytes.drop p = fmt ++ [0])
    (string : 0 ∉ fmt) (even : closingPercents fmt % 2 = 0) {fuel : Nat} (enough : fmt.length < fuel) (k : Nat)
    (out : Output) :
    ∃ args after, (formatAt size va fuel p k out).value bytes = some (some after) ∧
      ∀ spare, formatLoop size fmt (args ++ spare) out = some after := by
  induction fuel generalizing fmt p k out with
  | zero => omega
  | succ fuel ih =>
      cases fmt with
      | nil => exact ⟨[], out, formatAt_end size va fuel k out (read_here here), fun spare => rfl⟩
      | cons c fmt =>
          obtain ⟨nonzero, others⟩ := not_or.mp (mt List.mem_cons.mpr string)
          rw [List.length_cons] at enough
          by_cases plain : c ≠ char '%'
          · rw [closingPercents_plain plain] at even
            obtain ⟨args, after, value, same⟩ := ih (drop_at here 1) others even (by omega) k (appendChar size out c)
            refine ⟨args, after, ?_, fun spare => ?_⟩
            · rw [formatAt_plain size va fuel k out (read_here here) (Ne.symm nonzero) plain, value]
            · rw [formatLoop_plain size out plain, same]
          · cases not_not.mp plain
            cases fmt with
            | nil => exact absurd even (by decide)
            | cons d fmt =>
                rw [closingPercents_directive] at even
                obtain ⟨-, others⟩ := not_or.mp (mt List.mem_cons.mpr others)
                obtain ⟨first, between, taken, step⟩ :=
                  formatAt_directive size va fuel k out (read_here here) (read_at here 1)
                obtain ⟨last, after, value, same⟩ :=
                  ih (drop_at here 2) others even (by rw [List.length_cons] at enough; omega) (k + first.length) between
                refine ⟨first ++ last, after, by rw [step, value], fun spare => ?_⟩
                rw [formatLoop, if_neg plain, List.append_assoc, taken, Option.bind_eq_bind, Option.bind_some]
                exact same spare

/-- With an odd number of percent signs at the end the loop never returns from within the format. -/
theorem formatAt_odd (size : Nat) (va : VaList) {bytes fmt : List UInt8} {p : Nat} (here : bytes.drop p = fmt ++ [0])
    (string : 0 ∉ fmt) (odd : closingPercents fmt % 2 = 1) (fuel k : Nat) (out after : Output) :
    (formatAt size va fuel p k out).value bytes ≠ some (some after) := by
  induction fuel generalizing fmt p k out with
  | zero => exact nofun
  | succ fuel ih =>
      cases fmt with
      | nil => exact absurd odd (by decide)
      | cons c fmt =>
          obtain ⟨nonzero, others⟩ := not_or.mp (mt List.mem_cons.mpr string)
          by_cases plain : c ≠ char '%'
          · rw [closingPercents_plain plain] at odd
            rw [formatAt_plain size va fuel k out (read_here here) (Ne.symm nonzero) plain]
            exact ih (drop_at here 1) others odd k _
          · cases not_not.mp plain
            cases fmt with
            | nil =>
                -- the byte behind the `%` is the NUL, and the next round starts behind that
                obtain ⟨args, between, -, step⟩ := formatAt_directive size va fuel k out (read_here here) (read_at here 1)
                rw [step]
                cases fuel with
                | zero => exact nofun
                | succ fuel =>
                    rw [formatAt, value_bind, value_byte, read_at here 2]
                    exact nofun
            | cons d fmt =>
                rw [closingPercents_directive] at odd
                obtain ⟨-, others⟩ := not_or.mp (mt List.mem_cons.mpr others)
                obtain ⟨first, between, -, step⟩ :=
                  formatAt_directive size va fuel k out (read_here here) (read_at here 1)
                rw [step]
                exact ih (drop_at here 2) others odd _ between

section
variable {bytes : List UInt8} {p : Nat} {c d : UInt8} (first : bytes[p]? = some c) (second : bytes[p + 1]? = some d)
include first second

theorem pairAt_value (a b : UInt8) : (pairAt p a b).value bytes = some (decide (c = a ∧ d = b)) := by
  rw [pairAt, value_bind, value_byte, first, Option.bind_some]
  by_cases same : c = a
  · rw [if_pos same, value_bind, value_byte, second, Option.bind_some, value_pure, beq_eq_decide]
    simp [same]
  · rw [if_neg same, value_pure]
    simp [same]

/-- A round of the loop in front of the NUL. -/
theorem bracesAt_round (size : Nat) (va : VaList) (nonzero : c ≠ 0) (fuel k : Nat) (out : Output) :
    (bracesAt size va (fuel + 1) p k out).value bytes =
      (if c = char '{' ∧ d = char '{' then bracesAt size va fuel (p + 2) k (appendChar size out (char '{'))
        else if c = char '}' ∧ d = char '}' then bracesAt size va fuel (p + 2) k (appendChar size out (char '}'))
        else if c = char '{' ∧ d = char '}' then
          match va.text k with
          | some s => bracesAt size va fuel (p + 2) (k + 1) (appendString size out (some s))
          | none => bracesAt size va fuel (p + 2) (k + 1) (appendChar size (appendChar size out (char '{')) (char '}'))
        else bracesAt size va fuel (p + 1) k (appendChar size out c)).value bytes := by
  rw [bracesAt, value_bind, value_byte, first, Option.bind_some, if_neg nonzero, value_bind, pairAt_value first second,
    Option.bind_some]
  simp only [decide_eq_true_eq]
  by_cases opening : c = char '{' ∧ d = char '{'
  · rw [if_pos opening, if_pos opening]
  rw [if_neg opening, if_neg opening, value_bind, pairAt_value first second, Option.bind_some]
  simp only [decide_eq_true_eq]
  by_cases closing : c = char '}' ∧ d = char '}'
  · rw [if_pos closing, if_pos closing]
  rw [if_neg closing, if_neg closing, value_bind, pairAt_value first second, Option.bind_some]
  simp only [decide_eq_true_eq]
  by_cases hole : c = char '{' ∧ d = char '}'
  · rw [if_pos hole, if_pos hole]
  rw [if_neg hole, if_neg hole, value_bind, value_byte, first, Option.bind_some]

end

theorem bracesAt_ends (size : Nat) (va : VaList) {bytes pattern : List UInt8} {p : Nat}
    (here : bytes.drop p = pattern ++ [0]) (string : 0 ∉ pattern) {fuel : Nat} (enough : pattern.length < fuel) (k : Nat)
    (out : Output) :
    ∃ args after, (bracesAt size va fuel p k out).value bytes = some (some after) ∧
      ∀ spare, bracesLoop size pattern (args ++ spare) out = some after := by
  induction fuel generalizing pattern p k out with
  | zero => omega
  | succ fuel ih =>
      cases pattern with
      | nil =>
          refine ⟨[], out, ?_, fun spare => rfl⟩
          rw [bracesAt, value_bind, value_byte, read_here here]
          rfl
      | cons c pattern =>
          obtain ⟨nonzero, others⟩ := not_or.mp (mt List.mem_cons.mpr string)
          rw [List.length_cons] at enough
          cases pattern with
          | nil =>
              have alone (a b : UInt8) (visible : b ≠ 0) : ¬(c = a ∧ 0 = b) := fun both => visible both.2.symm
              rw [bracesAt_round (read_here here) (read_at here 1) size va (Ne.symm nonzero), if_neg (alone _ _ (by decide)),
                if_neg (alone _ _ (by decide)), if_neg (alone _ _ (by decide))]
              exact ih (drop_at here 1) others (by omega) k (appendChar size out c)
          | cons d pattern =>
              obtain ⟨-, behind⟩ := not_or.mp (mt List.mem_cons.mpr others)
              rw [List.length_cons] at enough
              rw [bracesAt_round (read_here here) (read_at here 1) size va (Ne.symm nonzero)]
              have pair (k : Nat) := ih (drop_at here 2) behind (by omega) k
              by_cases opening : c = char '{' ∧ d = char '{'
              · simp only [bracesLoop, if_pos opening]
                exact pair k _
              by_cases closing : c = char '}' ∧ d = char '}'
              · simp only [bracesLoop, if_neg opening, if_pos closing]
                exact pair k _
              by_cases hole : c = char '{' ∧ d = char '}'
              · simp only [bracesLoop, if_neg opening, if_neg closing, if_pos hole]
                cases va.text k with
                | some s =>
                    obtain ⟨last, after, value, same⟩ := pair (k + 1) (appendString size out (some s))
                    exact ⟨.text (some s) :: last, after, value, same⟩
                | none =>
                    obtain ⟨last, after, value, same⟩ :=
                      pair (k + 1) (appendChar size (appendChar size out (char '{')) (char '}'))
                    exact ⟨.text none :: last, after, value, same⟩
              · simp only [bracesLoop, if_neg opening, if_neg closing, if_neg hole]
                exact ih (drop_at here 1) others (by rw [List.length_cons]; omega) k (appendChar size out c)

/-! ## The functions -/

/-- With enough fuel the computation returns, and reads no byte behind the NUL of `text`. -/
def ReadsWithin {α : Type} (text : List UInt8) (p : Nat → Reading (Option α)) : Prop :=
  ∃ enough, ∀ fuel, enough ≤ fuel →
    (∃ a, (p fuel).value (text ++ [0]) = some (some a)) ∧ ∀ i ∈ (p fuel).reads (text ++ [0]), i ≤ text.length

theorem ReadsWithin.of_value {α : Type} {text : List UInt8} {p : Nat → Reading (Option α)} (enough : Nat)
    (returns : ∀ fuel, enough ≤ fuel → ∃ a, (p fuel).value (text ++ [0]) = some (some a)) : ReadsWithin text p := by
  refine ⟨enough, fun fuel more => ⟨returns fuel more, fun i member => ?_⟩⟩
  obtain ⟨a, value⟩ := returns fuel more
  have inside := (reads_inside_iff (text ++ [0]) (p fuel)).mpr (by rw [value]; rfl) i member
  rw [List.length_append] at inside
  exact Nat.le_of_lt_succ inside

section
variable (buffer : Nat → UInt8) (size : Nat) (va : VaList)

/-- In front of an even number of percent signs `kvsnprintf` reads the format up to its NUL, and returns what the model
without the reads returns for some arguments. -/
theorem kvsnprintfAt_even {fmt : List UInt8} (string : 0 ∉ fmt) (even : closingPercents fmt % 2 = 0) {fuel : Nat}
    (enough : fmt.length < fuel) :
    ∃ args result, (kvsnprintfAt buffer size va fuel).value (fmt ++ [0]) = some (some result) ∧
      ∀ spare, kvsnprintf buffer size fmt (args ++ spare) = some result := by
  unfold kvsnprintfAt kvsnprintf
  by_cases room : size = 0
  · simp only [if_pos room]
    exact ⟨[], _, rfl, fun spare => rfl⟩
  simp only [if_neg room]
  have here : (fmt ++ [0]).drop 0 = fmt ++ [0] := rfl
  obtain ⟨args, after, value, same⟩ := formatAt_even size va here string even enough 0 { buffer, index := 0 }
  refine ⟨args, finishOutput size after, ?_, fun spare => ?_⟩
  · rw [value_bind, value]
    rfl
  · rw [same spare]
    rfl

theorem kvsnprintfAt_odd {fmt : List UInt8} (string : 0 ∉ fmt) (room : size ≠ 0) (odd : closingPercents fmt % 2 = 1) :
    ¬ReadsWithin fmt (kvsnprintfAt buffer size va) := by
  rintro ⟨enough, inside⟩
  obtain ⟨⟨result, value⟩, -⟩ := inside enough (Nat.le_refl _)
  rw [kvsnprintfAt, if_neg room, value_bind, Option.bind_eq_some_iff] at value
  obtain ⟨out, formatted, value⟩ := value
  obtain ⟨after, rfl, -⟩ := Option.map_eq_some_iff.mp (Option.some.inj value)
  exact formatAt_odd size va rfl string odd enough 0 _ after formatted

theorem kvformatBracesAt_returns {pattern : List UInt8} (string : 0 ∉ pattern) {fuel : Nat}
    (enough : pattern.length < fuel) :
    ∃ args result, (kvformatBracesAt buffer size va fuel).value (pattern ++ [0]) = some (some result) ∧
      ∀ spare, kvformatBraces buffer size (some pattern) (args ++ spare) = some result := by
  unfold kvformatBracesAt kvformatBraces
  by_cases room : size = 0
  · simp only [if_pos room]
    exact ⟨[], _, rfl, fun spare => rfl⟩
  simp only [if_neg room]
  have here : (pattern ++ [0]).drop 0 = pattern ++ [0] := rfl
  obtain ⟨args, after, value, same⟩ := bracesAt_ends size va here string enough 0 { buffer, index := 0 }
  refine ⟨args, finishOutput size after, ?_, fun spare => ?_⟩
  · rw [value_bind, value]
    rfl
  · rw [Option.getD_some, same spare]
    rfl

end

/-- Only a format that ends in an odd number of percent signs is read behind its NUL. -/
theorem formatters_read_inside_iff (buffer : Nat → UInt8) (size : Nat) (va : VaList) (fmt pattern : List UInt8)
    (formatString : 0 ∉ fmt) (patternString : 0 ∉ pattern) :
    (ReadsWithin fmt (kvsnprintfAt buffer size va) ∧ ReadsWithin pattern (kvformatBracesAt buffer size va)) ↔
      size = 0 ∨ closingPercents fmt % 2 = 0 := by
  have braces : ReadsWithin pattern (kvformatBracesAt buffer size va) := by
    refine ReadsWithin.of_value (pattern.length + 1) fun fuel more => ?_
    obtain ⟨-, result, value, -⟩ := kvformatBracesAt_returns buffer size va patternString more
    exact ⟨result, value⟩
  rw [and_iff_left braces]
  constructor
  · intro inside
    by_contra neither
    obtain ⟨room, odd⟩ := not_or.mp neither
    exact kvsnprintfAt_odd buffer size va formatString room (by omega) inside
  · rintro (none | even)
    · refine ReadsWithin.of_value 0 fun fuel _ => ⟨(0, buffer), ?_⟩
      rw [kvsnprintfAt, if_pos none]
      rfl
    · refine ReadsWithin.of_value (fmt.length + 1) fun fuel more => ?_
      obtain ⟨-, result, value, -⟩ := kvsnprintfAt_even buffer size va formatString even more
      exact ⟨result, value⟩

-- All slots are 0.
def emptyVaList : VaList := ⟨fun _ => 0, fun _ => []⟩

theorem formatters_read_inside_sample :
    ReadsWithin (ascii "100%%") (kvsnprintfAt (fun _ => 0) 8 emptyVaList) ∧
      ReadsWithin [char '{'] (kvformatBracesAt (fun _ => 0) 8 emptyVaList) :=
  (formatters_read_inside_iff (fun _ => 0) 8 emptyVaList (ascii "100%%") [char '{'] (by decide) (by decide)).mpr
    (Or.inr (by decide))

/-- `100%`: the loop goes on at index 5, the byte behind the NUL. -/
theorem lone_percent_read_past :
    (kvsnprintfAt (fun _ => 0) 8 emptyVaList 9).reads (ascii "100%" ++ [0]) = [0, 1, 2, 3, 4, 5] ∧
      ¬ReadsWithin (ascii "100%") (kvsnprintfAt (fun _ => 0) 8 emptyVaList) := by
  constructor
  · decide
  · exact kvsnprintfAt_odd (fun _ => 0) 8 emptyVaList (by decide) (by decide) (by decide)

end Mgcore
