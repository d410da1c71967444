import Mgcore.Text.Braces
import Mathlib.Data.List.Forall2

/-!
# Formatting into a bounded buffer

A format is a sequence of pieces, plain text and directives with an argument, and its rendering puts their texts together;
numbers appear as canonical numerals. What `kvsnprintf` and `kvformat_braces` store is a prefix of the rendering, and what
they return is the length of the whole.
-/

namespace Mgcore
open Lib

/-! ## Formats -/

/-- The directives that take an argument. -/
inductive Directive
  | character | string | integer | unsigned | pointer
  | hexadecimal (uppercase : Bool)
  deriving DecidableEq

def directiveOf (d : UInt8) : Option Directive :=
  if d = char 'c' then some .character
  else if d = char 's' then some .string
  else if d = char 'd' ∨ d = char 'i' then some .integer
  else if d = char 'u' then some .unsigned
  else if d = char 'x' then some (.hexadecimal false)
  else if d = char 'X' then some (.hexadecimal true)
  else if d = char 'p' then some .pointer
  else none

inductive Piece
  | plain (text : List UInt8)
  | directive (directive : Directive)
  deriving DecidableEq

/-- What a `%` and the byte behind it stand for. -/
def pieceOf (d : UInt8) : Piece :=
  if d = char '%' then .plain [char '%']
  else match directiveOf d with
    | some directive => .directive directive
    | none => .plain [char '%', d]

/-- The pieces of a format; a directive that starts at the last character is none. -/
def pieces : List UInt8 → Option (List Piece)
  | [] => some []
  | [c] => if c ≠ char '%' then some [.plain [c]] else none
  | c :: d :: fmt =>
      if c ≠ char '%' then (pieces (d :: fmt)).map (.plain [c] :: ·)
      else (pieces fmt).map (pieceOf d :: ·)

/-! ## Arguments -/

/-- Strings for `%s`, 64-bit words for the others. -/
def Directive.suits : Directive → Arg → Bool
  | .string, .text _ => true
  | .string, .word _ => false
  | _, .text _ => false
  | _, .word _ => true

def wanted : List Piece → List Directive
  | [] => []
  | .plain _ :: rest => wanted rest
  | .directive directive :: rest => directive :: wanted rest

/-- An integer in base 10, with its sign. -/
def integerText (n : Int) : List UInt8 :=
  (if n < 0 then [char '-'] else []) ++ numeral (symbolOf false) 10 n.natAbs

def Directive.text : Directive → Arg → List UInt8
  | .character, .word value => [value.toUInt8]
  | .string, .text s => s.getD (ascii "(null)")
  | .integer, .word value => integerText value.toInt64.toInt
  | .unsigned, .word value => numeral (symbolOf false) 10 value.toNat
  | .pointer, .word value => ascii "0x" ++ numeral (symbolOf false) 16 value.toNat
  | .hexadecimal uppercase, .word value => numeral (symbolOf uppercase) 16 value.toNat
  | _, _ => []

def formatted : List Piece → List Arg → List UInt8
  | [], _ => []
  | .plain text :: rest, args => text ++ formatted rest args
  | .directive directive :: rest, arg :: args => directive.text arg ++ formatted rest args
  | .directive _ :: _, [] => []

theorem signedText_eq (value : UInt64) : signedText value = integerText value.toInt64.toInt := by
  have size := value.toNat_lt
  have whole : value.toInt64.toInt = if 2 * value.toNat < 2 ^ 64 then (value.toNat : Int) else value.toNat - 2 ^ 64 :=
    BitVec.toInt_eq_toNat_cond value.toBitVec
  have negated : (-value).toNat = (2 ^ 64 - value.toNat) % 2 ^ 64 := UInt64.toNat_neg value
  have sign : value.toInt64 < 0 ↔ value.toInt64.toInt < 0 := Int64.lt_iff_toInt_lt
  unfold signedText integerText unsignedText
  by_cases negative : value.toInt64 < 0
  · have below := sign.mp negative
    have magnitude : (-value).toNat = value.toInt64.toInt.natAbs := by
      rw [whole] at below ⊢
      split_ifs at below ⊢ <;> omega
    rw [if_pos negative, if_pos below, magnitude]
    rfl
  · have above := mt sign.mpr negative
    have magnitude : value.toNat = value.toInt64.toInt.natAbs := by
      rw [whole] at above ⊢
      split_ifs at above ⊢ <;> omega
    rw [if_neg negative, if_neg above, List.nil_append, magnitude]

/-- The next argument, and its text. -/
def Directive.take (directive : Directive) (args : List Arg) : Option (List Arg × List UInt8) :=
  match directive with
  | .string => (vaText args).map fun (s, args) => (args, directive.text (.text s))
  | _ => (vaWord args).map fun (value, args) => (args, directive.text (.word value))

theorem directiveText_eq (d : UInt8) (args : List Arg) :
    directiveText d args = match pieceOf d with
      | .plain text => some (args, text)
      | .directive directive => directive.take args := by
  unfold directiveText pieceOf directiveOf
  simp only [signedText_eq]
  by_cases percent : d = char '%'
  · rw [if_pos percent, if_pos percent]
  rw [if_neg percent, if_neg percent]
  by_cases character : d = char 'c'
  · rw [if_pos character, if_pos character]
    rfl
  rw [if_neg character, if_neg character]
  by_cases string : d = char 's'
  · rw [if_pos string, if_pos string]
    rfl
  rw [if_neg string, if_neg string]
  by_cases integer : d = char 'd' ∨ d = char 'i'
  · rw [if_pos integer, if_pos integer]
    rfl
  rw [if_neg integer, if_neg integer]
  by_cases unsigned : d = char 'u'
  · rw [if_pos unsigned, if_pos unsigned]
    rfl
  rw [if_neg unsigned, if_neg unsigned]
  by_cases lower : d = char 'x'
  · rw [if_pos lower, if_pos lower]
    rfl
  rw [if_neg lower, if_neg lower]
  by_cases upper : d = char 'X'
  · rw [if_pos upper, if_pos upper]
    rfl
  rw [if_neg upper, if_neg upper]
  by_cases pointer : d = char 'p'
  · rw [if_pos pointer, if_pos pointer]
    rfl
  rw [if_neg pointer, if_neg pointer]

theorem Directive.take_cons {directive : Directive} {arg : Arg} (suits : directive.suits arg) (args : List Arg) :
    directive.take (arg :: args) = some (args, directive.text arg) := by
  cases directive <;> cases arg <;> cases suits <;> rfl

/-- The arguments behind those that the directives ask for do not matter. -/
theorem rendering_formatted {fmt : List UInt8} {parsed : List Piece} (format : pieces fmt = some parsed) {args : List Arg}
    (suits : List.Forall₂ (fun directive arg => directive.suits arg = true) (wanted parsed) args) (spare : List Arg) :
    rendering fmt (args ++ spare) = some (formatted parsed args) := by
  induction fmt using pieces.induct generalizing parsed args with
  | case1 =>
      cases format
      cases suits
      rfl
  | case2 c plain =>
      rw [pieces, if_pos plain] at format
      cases format
      cases suits
      rw [rendering, if_pos plain]
      rfl
  | case3 c percent =>
      rw [pieces, if_neg percent] at format
      cases format
  | case4 c d fmt plain ih =>
      rw [pieces, if_pos plain, Option.map_eq_some_iff] at format
      obtain ⟨rest, format, rfl⟩ := format
      rw [rendering, if_pos plain, ih format suits]
      rfl
  | case5 c d fmt percent ih =>
      rw [pieces, if_neg percent, Option.map_eq_some_iff] at format
      obtain ⟨rest, format, rfl⟩ := format
      rw [rendering, if_neg percent]
      cases found : pieceOf d with
      | plain text =>
          rw [found] at suits
          simp only [directiveText_eq, found, Option.bind_eq_bind, Option.bind_some]
          rw [ih format suits]
          rfl
      | directive directive =>
          rw [found, wanted, List.forall₂_cons_left_iff] at suits
          obtain ⟨arg, args, suits, others, rfl⟩ := suits
          simp only [List.cons_append, directiveText_eq, found, Directive.take_cons suits, Option.bind_eq_bind,
            Option.bind_some]
          rw [ih format others]
          rfl

/-! ## Patterns -/

/-- How many strings a pattern asks for. -/
def holes : List UInt8 → Nat
  | [] | [_] => 0
  | c :: d :: pattern =>
      if c = char '{' ∧ d = char '{' ∨ c = char '}' ∧ d = char '}' then holes pattern
      else if c = char '{' ∧ d = char '}' then holes pattern + 1
      else holes (d :: pattern)

/-- A doubled brace is one brace, and `{}` the next string; a `NULL` string leaves it as it stands. -/
def filled : List UInt8 → List (Option (List UInt8)) → List UInt8
  | [], _ => []
  | [c], _ => [c]
  | c :: d :: pattern, strings =>
      if c = char '{' ∧ d = char '{' ∨ c = char '}' ∧ d = char '}' then c :: filled pattern strings
      else if c = char '{' ∧ d = char '}' then (strings.headD none).getD [c, d] ++ filled pattern strings.tail
      else c :: filled (d :: pattern) strings

theorem bracesText_filled {pattern : List UInt8} {strings : List (Option (List UInt8))}
    (matching : strings.length = holes pattern) (spare : List Arg) :
    bracesText pattern (strings.map .text ++ spare) = some (filled pattern strings) := by
  induction pattern using holes.induct generalizing strings with
  | case1 => rfl
  | case2 c => rfl
  | case3 c d pattern doubled ih =>
      rw [holes, if_pos doubled] at matching
      rw [filled, if_pos doubled, bracesText, ih matching]
      rcases doubled with opening | closing
      · rw [if_pos opening, opening.1]
        rfl
      · rw [if_neg fun opening => absurd (opening.1.symm.trans closing.1) (by decide), if_pos closing, closing.1]
        rfl
  | case4 c d pattern single hole ih =>
      rw [holes, if_neg single, if_pos hole] at matching
      obtain ⟨s, strings, rfl⟩ := List.exists_cons_of_length_eq_add_one matching
      rw [filled, if_neg single, if_pos hole, bracesText, if_neg fun opening => single (Or.inl opening),
        if_neg fun closing => single (Or.inr closing), if_pos hole, List.map_cons, List.cons_append, vaText,
        Option.bind_eq_bind, Option.bind_some]
      dsimp only
      rw [ih (Nat.succ_inj.mp matching), hole.1, hole.2]
      rfl
  | case5 c d pattern single hole ih =>
      rw [holes, if_neg single, if_neg hole] at matching
      rw [filled, if_neg single, if_neg hole, bracesText, if_neg fun opening => single (Or.inl opening),
        if_neg fun closing => single (Or.inr closing), if_neg hole, ih matching]
      rfl

/-! ## What is stored -/

/-- `text`, cut so that the NUL has its place among the first `size` bytes, and nothing else. -/
structure Stored (size : Nat) (text : List UInt8) (buffer after : Nat → UInt8) : Prop where
  characters : ∀ i, i < min text.length (size - 1) → text[i]? = some (after i)
  terminated : after (min text.length (size - 1)) = 0
  untouched : ∀ i, min text.length (size - 1) < i → after i = buffer i

theorem storeText_stored (buffer : Nat → UInt8) (size : Nat) (text : List UInt8) :
    Stored size text buffer (storeText buffer size text) := by
  refine ⟨fun i before => ?_, ?_, fun i behind => ?_⟩
  · have inside : i < text.length := by omega
    rw [storeText, if_pos before, List.getD_eq_getElem?_getD, List.getElem?_eq_getElem inside, Option.getD_some]
  · rw [storeText, if_neg (Nat.lt_irrefl _), if_pos rfl]
  · rw [storeText, if_neg (by omega), if_neg (by omega)]

theorem toInt_small {n : Nat} (small : n < 2 ^ 31) : toInt n = n := by
  unfold toInt
  exact Int.bmod_eq_of_le (by omega) (by omega)

/-- Formatting stores a prefix of the rendering with a NUL behind it, writes nothing from `size` on, and returns the length
of the rendering. -/
theorem bounded_formatting (buffer : Nat → UInt8) (size : Nat) (room : 1 ≤ size) :
    (∀ (fmt : List UInt8) (parsed : List Piece) (args spare : List Arg), pieces fmt = some parsed →
      List.Forall₂ (fun directive arg => directive.suits arg = true) (wanted parsed) args →
      (formatted parsed args).length < 2 ^ 31 →
      ∃ after, kvsnprintf buffer size fmt (args ++ spare) = some (((formatted parsed args).length : Int), after) ∧
        Stored size (formatted parsed args) buffer after ∧ ∀ i, size ≤ i → after i = buffer i) ∧
    (∀ (pattern : Option (List UInt8)) (strings : List (Option (List UInt8))) (spare : List Arg),
      strings.length = holes (pattern.getD []) → (filled (pattern.getD []) strings).length < 2 ^ 31 →
      ∃ after, kvformatBraces buffer size pattern (strings.map .text ++ spare) =
          some (((filled (pattern.getD []) strings).length : Int), after) ∧
        Stored size (filled (pattern.getD []) strings) buffer after ∧ ∀ i, size ≤ i → after i = buffer i) := by
  have nonzero : size ≠ 0 := by omega
  have stored (text : List UInt8) : Stored size text buffer (storeText buffer size text) ∧
      ∀ i, size ≤ i → storeText buffer size text i = buffer i := by
    have cut := storeText_stored buffer size text
    exact ⟨cut, fun i outside => cut.untouched i (by omega)⟩
  constructor
  · intro fmt parsed args spare format suits small
    refine ⟨storeText buffer size (formatted parsed args), ?_, stored _⟩
    rw [kvsnprintf_eq buffer nonzero (rendering_formatted format suits spare), toInt_small small]
  · intro pattern strings spare matching small
    refine ⟨storeText buffer size (filled (pattern.getD []) strings), ?_, stored _⟩
    rw [kvformatBraces_eq buffer nonzero (bracesText_filled matching spare), toInt_small small]

/-- `%d` and `%x` into eight bytes, and a pattern with both kinds of braces. -/
theorem bounded_formatting_sample :
    (∃ after, kvsnprintf (fun _ => 0x55) 8 (ascii "id=%d/%x") [.word (-12), .word 0xBEEF] = some (11, after) ∧
      Stored 8 (ascii "id=-12/beef") (fun _ => 0x55) after) ∧
    ∃ after, kvformatBraces (fun _ => 0x55) 8 (some [char '{', char '}', char '}', char '}']) [.text (some (ascii "eth"))] =
        some (4, after) ∧ Stored 8 (ascii "eth" ++ [char '}']) (fun _ => 0x55) after := by
  obtain ⟨formats, fills⟩ := bounded_formatting (fun _ => 0x55) 8 (by decide)
  constructor
  · let parsed : List Piece := [.plain (ascii "i"), .plain (ascii "d"), .plain (ascii "="), .directive .integer,
      .plain (ascii "/"), .directive (.hexadecimal false)]
    have format : pieces (ascii "id=%d/%x") = some parsed := by decide
    have text : formatted parsed [.word (-12), .word 0xBEEF] = ascii "id=-12/beef" := by decide
    obtain ⟨after, returns, stored, -⟩ := formats _ parsed [.word (-12), .word 0xBEEF] [] format
      (by simp [parsed, wanted, Directive.suits]) (by rw [text]; decide)
    rw [text] at returns stored
    exact ⟨after, returns, stored⟩
  · have text : filled [char '{', char '}', char '}', char '}'] [some (ascii "eth")] = ascii "eth" ++ [char '}'] := by decide
    obtain ⟨after, returns, stored, -⟩ := fills (some [char '{', char '}', char '}', char '}']) [some (ascii "eth")] []
      (by decide) (by rw [Option.getD_some, text]; decide)
    rw [Option.getD_some, text] at returns stored
    exact ⟨after, returns, stored⟩

end Mgcore
