import Mgcore.Base
import Mgcore.Lib.Numeral

/-!
# Formatted text

`kvsnprintf` of `src/kernel/string.c` and the functions it appends with. A format is its bytes before the NUL, a
buffer is a function from indices, and the arguments are the 64-bit words and the strings that `va_arg` yields in
turn. `none` is a read past the format or the arguments, or a store past the array of digits.

Every directive appends a text that does not depend on the buffer, so a format has a rendering, and formatting is
that rendering cut to the size of the buffer.
-/

namespace Mgcore

open Lib

def char (c : Char) : UInt8 := c.toNat.toUInt8

/-- A buffer and the index of the next character, which counts on past the end. -/
structure Output where
  buffer : Nat → UInt8
  index : Nat

def appendChar (size : Nat) (out : Output) (c : UInt8) : Output :=
  { buffer := if out.index + 1 < size then Function.update out.buffer out.index c else out.buffer
    index := out.index + 1 }

/-- `none` is the `NULL` string. -/
def appendString (size : Nat) (out : Output) (s : Option (List UInt8)) : Output :=
  (s.getD (ascii "(null)")).foldl (appendChar size) out

def digitTable (uppercase : Bool) : List UInt8 :=
  if uppercase then ascii "0123456789ABCDEF" else ascii "0123456789abcdef"

/-- The first loop of `append_unsigned`, with the room that is left in `temp` and what is stored there, the last digit
first. -/
def storeDigits (digits : List UInt8) (base : UInt64) : Nat → UInt64 → List UInt8 → Option (List UInt8)
  | 0, value, temp => if value ≠ 0 then none else some temp
  | room + 1, value, temp =>
      if value ≠ 0 then do
        let digit ← digits[(value % base).toNat]?
        storeDigits digits base room (value / base) (digit :: temp)
      else some temp

def appendUnsigned (size : Nat) (out : Output) (value base : UInt64) (uppercase : Bool) : Option Output :=
  if value = 0 then some (appendChar size out (char '0'))
  else do
    let temp ← storeDigits (digitTable uppercase) base 32 value []
    some (temp.foldl (appendChar size) out)

inductive Arg
  | word (value : UInt64)
  | text (s : Option (List UInt8))
  deriving DecidableEq

def vaWord : List Arg → Option (UInt64 × List Arg)
  | .word value :: args => some (value, args)
  | _ => none

def vaText : List Arg → Option (Option (List UInt8) × List Arg)
  | .text s :: args => some (s, args)
  | _ => none

/-- The `switch` of `kvsnprintf`. -/
def formatDirective (size : Nat) (d : UInt8) (args : List Arg) (out : Output) : Option (List Arg × Output) :=
  if d = char '%' then some (args, appendChar size out (char '%'))
  else if d = char 'c' then do
    let (value, args) ← vaWord args
    some (args, appendChar size out value.toUInt8)
  else if d = char 's' then do
    let (s, args) ← vaText args
    some (args, appendString size out s)
  else if d = char 'd' ∨ d = char 'i' then do
    let (value, args) ← vaWord args
    let out ← (if value.toInt64 < 0 then appendUnsigned size (appendChar size out (char '-')) (-value) 10 false
      else appendUnsigned size out value 10 false)
    some (args, out)
  else if d = char 'u' then do
    let (value, args) ← vaWord args
    let out ← appendUnsigned size out value 10 false
    some (args, out)
  else if d = char 'x' then do
    let (value, args) ← vaWord args
    let out ← appendUnsigned size out value 16 false
    some (args, out)
  else if d = char 'X' then do
    let (value, args) ← vaWord args
    let out ← appendUnsigned size out value 16 true
    some (args, out)
  else if d = char 'p' then do
    let (value, args) ← vaWord args
    let out ← appendUnsigned size (appendString size out (ascii "0x")) value 16 false
    some (args, out)
  else some (args, appendChar size (appendChar size out (char '%')) d)

def formatLoop (size : Nat) : List UInt8 → List Arg → Output → Option Output
  | [], _, out => some out
  | [c], args, out =>
      -- after a lone `%` the loop goes on behind the NUL
      if c ≠ char '%' then formatLoop size [] args (appendChar size out c) else none
  | c :: d :: fmt, args, out =>
      if c ≠ char '%' then formatLoop size (d :: fmt) args (appendChar size out c)
      else do
        let (args, out) ← formatDirective size d args out
        formatLoop size fmt args out

def kvsnprintf (buffer : Nat → UInt8) (size : Nat) (fmt : List UInt8) (args : List Arg) :
    Option (Int × (Nat → UInt8)) :=
  if size = 0 then some (0, buffer)
  else do
    let out ← formatLoop size fmt args { buffer, index := 0 }
    some (toInt out.index, Function.update out.buffer (if out.index < size then out.index else size - 1) 0)

/-! ## Renderings -/

def symbolOf (uppercase : Bool) (d : Nat) : UInt8 := (digitTable uppercase).getD d 0

def unsignedText (value : UInt64) (base : Nat) (uppercase : Bool) : List UInt8 :=
  numeral (symbolOf uppercase) base value.toNat

def signedText (value : UInt64) : List UInt8 :=
  if value.toInt64 < 0 then char '-' :: unsignedText (-value) 10 false else unsignedText value 10 false

def directiveText (d : UInt8) (args : List Arg) : Option (List Arg × List UInt8) :=
  if d = char '%' then some (args, [char '%'])
  else if d = char 'c' then (vaWord args).map fun (value, args) => (args, [value.toUInt8])
  else if d = char 's' then (vaText args).map fun (s, args) => (args, s.getD (ascii "(null)"))
  else if d = char 'd' ∨ d = char 'i' then (vaWord args).map fun (value, args) => (args, signedText value)
  else if d = char 'u' then (vaWord args).map fun (value, args) => (args, unsignedText value 10 false)
  else if d = char 'x' then (vaWord args).map fun (value, args) => (args, unsignedText value 16 false)
  else if d = char 'X' then (vaWord args).map fun (value, args) => (args, unsignedText value 16 true)
  else if d = char 'p' then (vaWord args).map fun (value, args) => (args, ascii "0x" ++ unsignedText value 16 false)
  else some (args, [char '%', d])

/-- What a format says, in a buffer without end. -/
def rendering : List UInt8 → List Arg → Option (List UInt8)
  | [], _ => some []
  | [c], args => if c ≠ char '%' then (rendering [] args).map (c :: ·) else none
  | c :: d :: fmt, args =>
      if c ≠ char '%' then (rendering (d :: fmt) args).map (c :: ·)
      else do
        let (args, text) ← directiveText d args
        (rendering fmt args).map (text ++ ·)

def appendText (size : Nat) (out : Output) (text : List UInt8) : Output := text.foldl (appendChar size) out

@[simp] theorem appendText_nil (size : Nat) (out : Output) : appendText size out [] = out := rfl

@[simp] theorem appendText_cons (size : Nat) (out : Output) (c : UInt8) (text : List UInt8) :
    appendText size out (c :: text) = appendText size (appendChar size out c) text := rfl

theorem appendText_append (size : Nat) (out : Output) (first last : List UInt8) :
    appendText size out (first ++ last) = appendText size (appendText size out first) last := List.foldl_append

theorem storeDigits_eq (uppercase : Bool) {base : UInt64} (large : 1 < base.toNat) (known : base.toNat ≤ 16)
    {room : Nat} {value : UInt64} (fits : value.toNat < base.toNat ^ room) (temp : List UInt8) :
    storeDigits (digitTable uppercase) base room value temp =
      some (((Nat.digits base.toNat value.toNat).map (symbolOf uppercase)).reverse ++ temp) := by
  induction room generalizing value temp with
  | zero =>
      have zero : value = 0 := UInt64.toNat_inj.mp (by simpa using fits)
      rw [zero]
      simp [storeDigits]
  | succ room ih =>
      rw [storeDigits]
      by_cases zero : value = 0
      · rw [zero]
        simp
      rw [if_pos zero]
      have positive : value.toNat ≠ 0 := fun none => zero (UInt64.toNat_inj.mp none)
      have digit : (value % base).toNat < (digitTable uppercase).length := by
        have below := Nat.mod_lt value.toNat (show 0 < base.toNat by omega)
        have sixteen : (digitTable uppercase).length = 16 := by cases uppercase <;> rfl
        rw [UInt64.toNat_mod, sixteen]
        omega
      have rest : (value / base).toNat < base.toNat ^ room := by
        rw [UInt64.toNat_div]
        exact Nat.div_lt_of_lt_mul (by rwa [← Nat.pow_succ'])
      rw [List.getElem?_eq_getElem digit, Option.bind_eq_bind, Option.bind_some, ih rest,
        Nat.digits_def' large (Nat.pos_of_ne_zero positive), List.map_cons, List.reverse_cons, List.append_assoc,
        UInt64.toNat_div]
      simp only [symbolOf, List.getD_eq_getElem?_getD, ← UInt64.toNat_mod, List.getElem?_eq_getElem digit,
        Option.getD_some, List.cons_append, List.nil_append]

theorem appendUnsigned_eq (size : Nat) (out : Output) (value : UInt64) {base : UInt64} (uppercase : Bool)
    (decimal : 10 ≤ base.toNat) (known : base.toNat ≤ 16) :
    appendUnsigned size out value base uppercase =
      some (appendText size out (unsignedText value base.toNat uppercase)) := by
  unfold appendUnsigned unsignedText numeral
  by_cases zero : value = 0
  · rw [if_pos zero, zero]
    cases uppercase <;> rfl
  · have positive : value.toNat ≠ 0 := fun none => zero (UInt64.toNat_inj.mp none)
    have fits : value.toNat < base.toNat ^ 32 :=
      calc value.toNat < 2 ^ 64 := value.toNat_lt
        _ ≤ 10 ^ 32 := by decide
        _ ≤ base.toNat ^ 32 := Nat.pow_le_pow_left decimal 32
    rw [if_neg zero, if_neg positive, storeDigits_eq uppercase (by omega) known fits, List.append_nil]
    rfl

theorem formatDirective_eq (size : Nat) (d : UInt8) (args : List Arg) (out : Output) :
    formatDirective size d args out = (directiveText d args).map fun (args, text) => (args, appendText size out text) := by
  have decimal (out : Output) (value : UInt64) :
      appendUnsigned size out value 10 false = some (appendText size out (unsignedText value 10 false)) :=
    appendUnsigned_eq size out value false (by decide) (by decide)
  have hexadecimal (out : Output) (value : UInt64) (uppercase : Bool) :
      appendUnsigned size out value 16 uppercase = some (appendText size out (unsignedText value 16 uppercase)) :=
    appendUnsigned_eq size out value uppercase (by decide) (by decide)
  have signed (value : UInt64) :
      (if value.toInt64 < 0 then appendUnsigned size (appendChar size out (char '-')) (-value) 10 false
        else appendUnsigned size out value 10 false) = some (appendText size out (signedText value)) := by
    unfold signedText
    split_ifs with negative
    · rw [decimal, appendText_cons]
    · rw [decimal]
  unfold formatDirective directiveText
  simp only [signed]
  simp only [decimal, hexadecimal]
  by_cases percent : d = char '%'
  · rw [if_pos percent, if_pos percent]
    rfl
  rw [if_neg percent, if_neg percent]
  by_cases character : d = char 'c'
  · rw [if_pos character, if_pos character]
    cases vaWord args <;> rfl
  rw [if_neg character, if_neg character]
  by_cases string : d = char 's'
  · rw [if_pos string, if_pos string]
    cases vaText args <;> rfl
  rw [if_neg string, if_neg string]
  by_cases integer : d = char 'd' ∨ d = char 'i'
  · rw [if_pos integer, if_pos integer]
    cases vaWord args <;> rfl
  rw [if_neg integer, if_neg integer]
  by_cases unsigned : d = char 'u'
  · rw [if_pos unsigned, if_pos unsigned]
    cases vaWord args <;> rfl
  rw [if_neg unsigned, if_neg unsigned]
  by_cases lower : d = char 'x'
  · rw [if_pos lower, if_pos lower]
    cases vaWord args <;> rfl
  rw [if_neg lower, if_neg lower]
  by_cases upper : d = char 'X'
  · rw [if_pos upper, if_pos upper]
    cases vaWord args <;> rfl
  rw [if_neg upper, if_neg upper]
  by_cases pointer : d = char 'p'
  · rw [if_pos pointer, if_pos pointer]
    cases vaWord args with
    | none => rfl
    | some pair => simp only [Option.bind_eq_bind, Option.bind_some, Option.map_some, appendText_append]; rfl
  rw [if_neg pointer, if_neg pointer]
  rfl

theorem formatLoop_eq (size : Nat) (fmt : List UInt8) (args : List Arg) (out : Output) :
    formatLoop size fmt args out = (rendering fmt args).map (appendText size out) := by
  induction fmt, args using rendering.induct generalizing out with
  | case1 args => rfl
  | case2 c args plain ih =>
      rw [formatLoop, rendering, if_pos plain, if_pos plain, ih, Option.map_map]
      rfl
  | case3 c args directive =>
      rw [formatLoop, rendering, if_neg directive, if_neg directive]
      rfl
  | case4 c d fmt args plain ih =>
      rw [formatLoop, rendering, if_pos plain, if_pos plain, ih, Option.map_map]
      rfl
  | case5 c d fmt args directive ih =>
      rw [formatLoop, rendering, if_neg directive, if_neg directive, formatDirective_eq]
      cases directiveText d args with
      | none => rfl
      | some pair =>
          simp only [Option.map_some, Option.bind_eq_bind, Option.bind_some, Option.map_map, ih]
          congr 1
          funext text
          exact (appendText_append size out pair.2 text).symm

/-! ## What the buffer holds -/

theorem appendText_index (size : Nat) (out : Output) (text : List UInt8) :
    (appendText size out text).index = out.index + text.length := by
  induction text generalizing out with
  | nil => rfl
  | cons c text ih =>
      rw [appendText_cons, ih, List.length_cons]
      simp only [appendChar]
      omega

theorem appendText_buffer (size : Nat) (out : Output) (text : List UInt8) (i : Nat) :
    (appendText size out text).buffer i =
      if out.index ≤ i ∧ i + 1 < size then (text[i - out.index]?).getD (out.buffer i) else out.buffer i := by
  induction text generalizing out with
  | nil => simp
  | cons c text ih =>
      rw [appendText_cons, ih]
      have stored : (appendChar size out c).buffer i = if out.index = i ∧ i + 1 < size then c else out.buffer i := by
        unfold appendChar
        by_cases here : out.index = i
        · subst here
          split_ifs <;> simp_all
        · simp only [here, false_and, if_false]
          split_ifs
          · exact Function.update_of_ne (Ne.symm here) ..
          · rfl
      have next : (appendChar size out c).index = out.index + 1 := rfl
      rw [stored, next]
      rcases Nat.lt_trichotomy out.index i with later | here | earlier
      · have tail : i - out.index = i - (out.index + 1) + 1 := by omega
        simp only [Nat.le_of_lt later, Nat.succ_le_of_lt later, Nat.ne_of_lt later, true_and, false_and, if_false, tail,
          List.getElem?_cons_succ]
      · subst here
        simp
      · simp only [show ¬out.index + 1 ≤ i by omega, show ¬out.index ≤ i by omega, Nat.ne_of_gt earlier, false_and,
          if_false]

/-- A text in a buffer of `size` bytes: as much of it as leaves room for the NUL, and the NUL. -/
def storeText (buffer : Nat → UInt8) (size : Nat) (text : List UInt8) (i : Nat) : UInt8 :=
  if i < min text.length (size - 1) then text.getD i 0
  else if i = min text.length (size - 1) then 0
  else buffer i

/-- The end of both formatting functions: the NUL, and the number of characters. -/
theorem appendText_finish (buffer : Nat → UInt8) {size : Nat} {out : Output} {text : List UInt8}
    (appended : out = appendText size { buffer, index := 0 } text) :
    (toInt out.index, Function.update out.buffer (if out.index < size then out.index else size - 1) 0) =
      (toInt text.length, storeText buffer size text) := by
  have index : out.index = text.length := by
    rw [appended, appendText_index, Nat.zero_add]
  have terminator : (if text.length < size then text.length else size - 1) = min text.length (size - 1) := by
    split_ifs with fits <;> omega
  rw [index, terminator, appended]
  apply congrArg (Prod.mk (toInt text.length))
  funext i
  unfold storeText
  by_cases last : i = min text.length (size - 1)
  · rw [last, Function.update_self, if_neg (Nat.lt_irrefl _), if_pos rfl]
  · rw [Function.update_of_ne last, appendText_buffer, if_neg last]
    simp only [Nat.zero_le, true_and, Nat.sub_zero]
    by_cases before : i < min text.length (size - 1)
    · rw [if_pos (by omega), if_pos before, List.getD_eq_getElem?_getD,
        List.getElem?_eq_getElem (show i < text.length by omega)]
      rfl
    · rw [if_neg before]
      split_ifs with inside
      · rw [List.getElem?_eq_none (show text.length ≤ i by omega), Option.getD_none]
      · rfl

theorem kvsnprintf_eq (buffer : Nat → UInt8) {size : Nat} (room : size ≠ 0) {fmt : List UInt8} {args : List Arg}
    {text : List UInt8} (renders : rendering fmt args = some text) :
    kvsnprintf buffer size fmt args = some (toInt text.length, storeText buffer size text) := by
  rw [kvsnprintf, if_neg room, formatLoop_eq, renders, Option.map_some, Option.bind_eq_bind, Option.bind_some]
  exact congrArg some (appendText_finish buffer rfl)

/-- `text` is the C string at the start of `buffer`. -/
structure HoldsText (buffer : Nat → UInt8) (text : List UInt8) : Prop where
  plain : 0 ∉ text
  bytes : ∀ i c, text[i]? = some c → buffer i = c
  terminated : buffer text.length = 0

theorem storeText_holds (buffer : Nat → UInt8) {size : Nat} {text : List UInt8} (plain : 0 ∉ text)
    (fits : text.length < size) : HoldsText (storeText buffer size text) text := by
  have whole : min text.length (size - 1) = text.length := by omega
  refine ⟨plain, ?_, ?_⟩
  · intro i c found
    have inside := (List.getElem?_eq_some_iff.mp found).1
    rw [storeText, whole, if_pos inside, List.getD_eq_getElem?_getD, found, Option.getD_some]
  · rw [storeText, whole, if_neg (Nat.lt_irrefl _), if_pos rfl]

end Mgcore
