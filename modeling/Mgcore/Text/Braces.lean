import Mgcore.Text.Format

/-!
# Brace patterns

`kvformat_braces` of `src/kernel/string.c`. A pattern is its bytes before the NUL, `none` is the `NULL` pattern; the byte
behind the last one is the NUL, which closes no pair.
-/

namespace Mgcore

def bracesLoop (size : Nat) : List UInt8 → List Arg → Output → Option Output
  | [], _, out => some out
  | [c], args, out => bracesLoop size [] args (appendChar size out c)
  | c :: d :: pattern, args, out =>
      if c = char '{' ∧ d = char '{' then bracesLoop size pattern args (appendChar size out (char '{'))
      else if c = char '}' ∧ d = char '}' then bracesLoop size pattern args (appendChar size out (char '}'))
      else if c = char '{' ∧ d = char '}' then do
        let (arg, args) ← vaText args
        match arg with
        | some s => bracesLoop size pattern args (appendString size out (some s))
        | none => bracesLoop size pattern args (appendChar size (appendChar size out (char '{')) (char '}'))
      else bracesLoop size (d :: pattern) args (appendChar size out c)

def kvformatBraces (buffer : Nat → UInt8) (size : Nat) (pattern : Option (List UInt8)) (args : List Arg) :
    Option (Int × (Nat → UInt8)) :=
  if size = 0 then some (0, buffer)
  else do
    let out ← bracesLoop size (pattern.getD []) args { buffer, index := 0 }
    some (toInt out.index, Function.update out.buffer (if out.index < size then out.index else size - 1) 0)

/-! ## Renderings -/

/-- What a pattern says, in a buffer without end. -/
def bracesText : List UInt8 → List Arg → Option (List UInt8)
  | [], _ => some []
  | [c], args => (bracesText [] args).map (c :: ·)
  | c :: d :: pattern, args =>
      if c = char '{' ∧ d = char '{' then (bracesText pattern args).map (char '{' :: ·)
      else if c = char '}' ∧ d = char '}' then (bracesText pattern args).map (char '}' :: ·)
      else if c = char '{' ∧ d = char '}' then do
        let (arg, args) ← vaText args
        (bracesText pattern args).map (arg.getD [char '{', char '}'] ++ ·)
      else (bracesText (d :: pattern) args).map (c :: ·)

theorem bracesLoop_eq (size : Nat) (pattern : List UInt8) (args : List Arg) (out : Output) :
    bracesLoop size pattern args out = (bracesText pattern args).map (appendText size out) := by
  induction pattern, args using bracesText.induct generalizing out with
  | case1 args => rfl
  | case2 c args ih =>
      rw [bracesLoop, bracesText, ih, Option.map_map]
      rfl
  | case3 c d pattern args opening ih =>
      rw [bracesLoop, bracesText, if_pos opening, if_pos opening, ih, Option.map_map]
      rfl
  | case4 c d pattern args opening closing ih =>
      rw [bracesLoop, bracesText, if_neg opening, if_neg opening, if_pos closing, if_pos closing, ih, Option.map_map]
      rfl
  | case5 c d pattern args opening closing hole ih =>
      rw [bracesLoop, bracesText, if_neg opening, if_neg opening, if_neg closing, if_neg closing, if_pos hole, if_pos hole]
      cases vaText args with
      | none => rfl
      | some pair =>
          obtain ⟨arg, args⟩ := pair
          simp only [Option.bind_eq_bind, Option.bind_some, Option.map_map]
          cases arg with
          | none =>
              simp only [ih]
              rfl
          | some s =>
              simp only [ih, Option.getD_some]
              congr 1
              funext text
              exact (appendText_append size out s text).symm
  | case6 c d pattern args opening closing hole ih =>
      rw [bracesLoop, bracesText, if_neg opening, if_neg opening, if_neg closing, if_neg closing, if_neg hole, if_neg hole,
        ih, Option.map_map]
      rfl

theorem kvformatBraces_eq (buffer : Nat → UInt8) {size : Nat} (room : size ≠ 0) {pattern : Option (List UInt8)}
    {args : List Arg} {text : List UInt8} (renders : bracesText (pattern.getD []) args = some text) :
    kvformatBraces buffer size pattern args = some (toInt text.length, storeText buffer size text) := by
  rw [kvformatBraces, if_neg room, bracesLoop_eq, renders, Option.map_some, Option.bind_eq_bind, Option.bind_some]
  exact congrArg some (appendText_finish buffer rfl)

end Mgcore
