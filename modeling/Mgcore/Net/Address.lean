import Mgcore.Text.Format

/-!
# Addresses as text

`parse_ipv4` and `format_ip` of `src/kernel/net.c`. A text is its bytes before the NUL. The loop of `parse_ipv4`
keeps the number read since the last dot and not whether any digit was read, so an empty group counts as 0.
-/

namespace Mgcore

open Lib

def parseIpv4Loop : List UInt8 → UInt32 → UInt32 → Nat → Option (UInt32 × UInt32 × Nat)
  | [], value, octet, part => some (value, octet, part)
  | c :: text, value, octet, part =>
      if char '0' ≤ c ∧ c ≤ char '9' then
        let octet := octet * 10 + (c - char '0').toUInt32
        if 255 < octet then none else parseIpv4Loop text value octet part
      else if c = char '.' then
        if 3 ≤ part then none else parseIpv4Loop text ((value <<< 8) ||| octet) 0 (part + 1)
      else none

/-- The result, and what `*out_ip` is after the call. -/
def parseIpv4 (text : List UInt8) (outIp : UInt32) : Int × UInt32 :=
  if text = [] then (0, outIp)
  else
    match parseIpv4Loop text 0 0 0 with
    | none => (0, outIp)
    | some (value, octet, part) => if part ≠ 3 then (0, outIp) else (1, (value <<< 8) ||| octet)

def formatIp (ip : UInt32) (out : Nat → UInt8) (outSize : Nat) : Option (Nat → UInt8) :=
  let a := ((ip >>> 24) &&& 0xFF).toUInt8
  let b := ((ip >>> 16) &&& 0xFF).toUInt8
  let c := ((ip >>> 8) &&& 0xFF).toUInt8
  let d := (ip &&& 0xFF).toUInt8
  (kvsnprintf out outSize (ascii "%u.%u.%u.%u")
    [.word a.toUInt64, .word b.toUInt64, .word c.toUInt64, .word d.toUInt64]).map Prod.snd

/-! ## Groups -/

def Digit (c : UInt8) : Prop := char '0' ≤ c ∧ c ≤ char '9'

instance : DecidablePred Digit := fun _ => inferInstanceAs (Decidable (_ ∧ _))

def digitValue (c : UInt8) : Nat := c.toNat - 48

def groupValue (group : List UInt8) : Nat := readNumeral digitValue 10 0 group

def Octet (group : List UInt8) : Prop := (∀ c ∈ group, Digit c) ∧ groupValue group ≤ 255

-- The digits after some of the octet has been read: `start` is the value so far.
def OctetFrom (start : Nat) (group : List UInt8) : Prop :=
  (∀ c ∈ group, Digit c) ∧ readNumeral digitValue 10 start group ≤ 255

instance (start : Nat) : DecidablePred (OctetFrom start) := fun group =>
  @instDecidableAnd _ _ (List.decidableBAll Digit group) (Nat.decLe _ _)

instance : DecidablePred Octet := fun group => inferInstanceAs (Decidable (OctetFrom 0 group))

structure FourGroups (text a b c d : List UInt8) : Prop where
  joined : text = a ++ char '.' :: (b ++ char '.' :: (c ++ char '.' :: d))
  first : Octet a
  second : Octet b
  third : Octet c
  fourth : Octet d

def bigEndian (a b c d : Nat) : UInt32 := UInt32.ofNat (a * 2 ^ 24 + b * 2 ^ 16 + c * 2 ^ 8 + d)

theorem Octet.no_dot {group : List UInt8} (octet : Octet group) : char '.' ∉ group := by
  intro member
  exact absurd (octet.1 _ member) (by unfold Digit; decide)

theorem digit_toNat {c : UInt8} (digit : Digit c) : (c - char '0').toUInt32.toNat = digitValue c ∧ digitValue c ≤ 9 := by
  obtain ⟨low, high⟩ := digit
  have low' : 48 ≤ c.toNat := UInt8.le_iff_toNat_le.mp low
  have high' : c.toNat ≤ 57 := UInt8.le_iff_toNat_le.mp high
  have below : (char '0').toNat = 48 := rfl
  rw [UInt8.toNat_toUInt32, UInt8.toNat_sub_of_le _ _ low, below]
  exact ⟨rfl, by unfold digitValue; omega⟩

/-- One more digit: the accumulator stays exact, since it is at most 255 before. -/
theorem octet_step {c : UInt8} (digit : Digit c) {octet : UInt32} (small : octet.toNat ≤ 255) :
    (octet * 10 + (c - char '0').toUInt32).toNat = octet.toNat * 10 + digitValue c := by
  obtain ⟨value, small'⟩ := digit_toNat digit
  rw [UInt32.toNat_add, UInt32.toNat_mul, value, show (10 : UInt32).toNat = 10 from rfl]
  omega

theorem octetFrom_cons (start : Nat) (c : UInt8) (group : List UInt8) :
    OctetFrom start (c :: group) ↔ Digit c ∧ OctetFrom (start * 10 + digitValue c) group := by
  unfold OctetFrom
  rw [List.forall_mem_cons, readNumeral_cons, and_assoc]

theorem parseIpv4Loop_group {group : List UInt8} (noDot : char '.' ∉ group) (rest : List UInt8) (value : UInt32)
    {octet : UInt32} (small : octet.toNat ≤ 255) (part : Nat) :
    parseIpv4Loop (group ++ rest) value octet part =
      if OctetFrom octet.toNat group then
        parseIpv4Loop rest value (UInt32.ofNat (readNumeral digitValue 10 octet.toNat group)) part
      else none := by
  induction group generalizing octet with
  | nil => simp [OctetFrom, small]
  | cons c group ih =>
      have noDot' : char '.' ∉ group := fun inside => noDot (List.mem_cons_of_mem c inside)
      rw [List.cons_append, parseIpv4Loop, readNumeral_cons]
      by_cases digit : Digit c
      · have stepped := octet_step digit small
        rw [if_pos (show char '0' ≤ c ∧ c ≤ char '9' from digit)]
        by_cases large : 255 < octet * 10 + (c - char '0').toUInt32
        · have large' := UInt32.lt_iff_toNat_lt.mp large
          rw [stepped] at large'
          have grows := @le_readNumeral _ digitValue 10 (by decide) (octet.toNat * 10 + digitValue c) group
          have cut : ¬OctetFrom octet.toNat (c :: group) := fun whole =>
            Nat.not_le.mpr (Nat.lt_of_lt_of_le large' grows) ((octetFrom_cons _ c group).mp whole).2.2
          rw [if_neg cut]
          exact if_pos large
        · have small' := Nat.le_of_not_lt (mt UInt32.lt_iff_toNat_lt.mpr large)
          simp only [if_neg large, octetFrom_cons, digit, true_and]
          rw [ih noDot' small', stepped]
      · have other : c ≠ char '.' := fun same => noDot (same ▸ List.mem_cons_self)
        have bad : ¬OctetFrom octet.toNat (c :: group) := fun whole => digit ((octetFrom_cons _ c group).mp whole).1
        rw [if_neg (show ¬(char '0' ≤ c ∧ c ≤ char '9') from digit), if_neg other, if_neg bad]

/-! ## The four groups -/

theorem parseIpv4Loop_octet {group : List UInt8} (noDot : char '.' ∉ group) (rest : List UInt8) (value : UInt32)
    (part : Nat) :
    parseIpv4Loop (group ++ rest) value 0 part =
      if Octet group then parseIpv4Loop rest value (UInt32.ofNat (groupValue group)) part else none :=
  parseIpv4Loop_group noDot rest value (by decide) part

theorem parseIpv4Loop_last {group : List UInt8} (noDot : char '.' ∉ group) (value : UInt32) (part : Nat) :
    parseIpv4Loop group value 0 part =
      if Octet group then some (value, UInt32.ofNat (groupValue group), part) else none := by
  have whole := parseIpv4Loop_octet noDot [] value part
  rw [List.append_nil] at whole
  exact whole

theorem parseIpv4Loop_next {group : List UInt8} (noDot : char '.' ∉ group) (rest : List UInt8) (value : UInt32)
    (part : Nat) :
    parseIpv4Loop (group ++ char '.' :: rest) value 0 part =
      if Octet group ∧ part < 3 then
        parseIpv4Loop rest ((value <<< 8) ||| UInt32.ofNat (groupValue group)) 0 (part + 1)
      else none := by
  have dot (octet : UInt32) : parseIpv4Loop (char '.' :: rest) value octet part =
      if 3 ≤ part then none else parseIpv4Loop rest ((value <<< 8) ||| octet) 0 (part + 1) := rfl
  rw [parseIpv4Loop_octet noDot, dot]
  by_cases octet : Octet group
  · by_cases more : part < 3
    · simp only [octet, more, and_self, if_true, Nat.not_le.mpr more, if_false]
    · simp only [octet, more, and_false, if_true, if_false, Nat.le_of_not_lt more]
  · simp only [octet, false_and, if_false]

theorem join_byte {value octet : UInt32} (room : value.toNat < 2 ^ 24) (small : octet.toNat < 2 ^ 8) :
    ((value <<< 8) ||| octet).toNat = value.toNat * 2 ^ 8 + octet.toNat := by
  rw [UInt32.toNat_or, UInt32.toNat_shiftLeft, show (8 : UInt32).toNat % 32 = 8 from rfl,
    Nat.mod_eq_of_lt (by rw [Nat.shiftLeft_eq]; omega), ← Nat.shiftLeft_add_eq_or_of_lt small, Nat.shiftLeft_eq]

theorem join_four {a b c d : Nat} (ha : a ≤ 255) (hb : b ≤ 255) (hc : c ≤ 255) (hd : d ≤ 255) :
    ((((((0 : UInt32) <<< 8 ||| UInt32.ofNat a) <<< 8) ||| UInt32.ofNat b) <<< 8 ||| UInt32.ofNat c) <<< 8 |||
      UInt32.ofNat d) = bigEndian a b c d := by
  have byte {n : Nat} (small : n ≤ 255) : (UInt32.ofNat n).toNat = n := UInt32.toNat_ofNat_of_lt' (Nat.lt_of_le_of_lt small (by decide))
  have first := @join_byte 0 (UInt32.ofNat a) (by decide) (by rw [byte ha]; omega)
  rw [byte ha, show (0 : UInt32).toNat = 0 from rfl, Nat.zero_mul, Nat.zero_add] at first
  have second := @join_byte _ (UInt32.ofNat b) (by rw [first]; omega) (by rw [byte hb]; omega)
  rw [first, byte hb] at second
  have third := @join_byte _ (UInt32.ofNat c) (by rw [second]; omega) (by rw [byte hc]; omega)
  rw [second, byte hc] at third
  have fourth := @join_byte _ (UInt32.ofNat d) (by rw [third]; omega) (by rw [byte hd]; omega)
  rw [third, byte hd] at fourth
  apply UInt32.toNat_inj.mp
  rw [fourth, bigEndian, UInt32.toNat_ofNat_of_lt' (by unfold UInt32.size; omega)]
  omega

theorem parseIpv4_fourGroups {text a b c d : List UInt8} (groups : FourGroups text a b c d) (outIp : UInt32) :
    parseIpv4 text outIp = (1, bigEndian (groupValue a) (groupValue b) (groupValue c) (groupValue d)) := by
  obtain ⟨rfl, first, second, third, fourth⟩ := groups
  rw [parseIpv4, if_neg (by simp), parseIpv4Loop_next first.no_dot, if_pos ⟨first, by decide⟩,
    parseIpv4Loop_next second.no_dot, if_pos ⟨second, by decide⟩, parseIpv4Loop_next third.no_dot,
    if_pos ⟨third, by decide⟩, parseIpv4Loop_last fourth.no_dot, if_pos fourth]
  simp only [Nat.zero_add, Nat.reduceAdd, ne_eq, not_true_eq_false, if_false]
  rw [join_four first.2 second.2 third.2 fourth.2]

theorem parseIpv4Loop_more {text : List UInt8} {value v o : UInt32} {part : Nat} (before : part < 3)
    (accepts : parseIpv4Loop text value 0 part = some (v, o, 3)) :
    ∃ group rest, text = group ++ char '.' :: rest ∧ Octet group ∧
      parseIpv4Loop rest ((value <<< 8) ||| UInt32.ofNat (groupValue group)) 0 (part + 1) = some (v, o, 3) := by
  by_cases dotted : char '.' ∈ text
  · obtain ⟨group, rest, rfl, noDot⟩ := List.eq_append_cons_of_mem dotted
    rw [parseIpv4Loop_next noDot] at accepts
    split_ifs at accepts with octet
    exact ⟨group, rest, rfl, octet.1, accepts⟩
  · rw [parseIpv4Loop_last dotted] at accepts
    split_ifs at accepts
    cases accepts
    exact absurd before (by decide)

theorem parseIpv4Loop_done {text : List UInt8} {value v o : UInt32}
    (accepts : parseIpv4Loop text value 0 3 = some (v, o, 3)) : Octet text := by
  by_cases dotted : char '.' ∈ text
  · obtain ⟨group, rest, rfl, noDot⟩ := List.eq_append_cons_of_mem dotted
    rw [parseIpv4Loop_next noDot, if_neg fun more => absurd more.2 (by decide)] at accepts
    cases accepts
  · rw [parseIpv4Loop_last dotted] at accepts
    split_ifs at accepts with octet
    exact octet

theorem parseIpv4_cases (text : List UInt8) (outIp : UInt32) :
    (∃ a b c d, FourGroups text a b c d) ∨ parseIpv4 text outIp = (0, outIp) := by
  unfold parseIpv4
  split_ifs with empty
  · exact .inr rfl
  cases parsed : parseIpv4Loop text 0 0 0 with
  | none => exact .inr rfl
  | some found =>
      obtain ⟨value, octet, part⟩ := found
      by_cases three : part = 3
      · subst three
        obtain ⟨a, rest, rfl, first, parsed⟩ := parseIpv4Loop_more (by decide) parsed
        obtain ⟨b, rest, rfl, second, parsed⟩ := parseIpv4Loop_more (by decide) parsed
        obtain ⟨c, rest, rfl, third, parsed⟩ := parseIpv4Loop_more (by decide) parsed
        exact .inl ⟨a, b, c, rest, rfl, first, second, third, parseIpv4Loop_done parsed⟩
      · exact .inr (if_pos three)

/-! ## Dotted quads -/

structure DottedQuad (text a b c d : List UInt8) : Prop extends FourGroups text a b c d where
  filled : a ≠ [] ∧ b ≠ [] ∧ c ≠ [] ∧ d ≠ []

structure ParsesExactly (text : List UInt8) (outIp : UInt32) : Prop where
  accepts : (parseIpv4 text outIp).1 = 1 ↔ ∃ a b c d, DottedQuad text a b c d
  value : ∀ a b c d, DottedQuad text a b c d →
    (parseIpv4 text outIp).2 = bigEndian (groupValue a) (groupValue b) (groupValue c) (groupValue d)
  refuses : (parseIpv4 text outIp).1 ≠ 1 → parseIpv4 text outIp = (0, outIp)

theorem FourGroups.splitOn {text a b c d : List UInt8} (groups : FourGroups text a b c d) :
    text.splitOn (char '.') = [a, b, c, d] := by
  rw [groups.joined, List.splitOn_append_cons_self_of_not_mem groups.first.no_dot,
    List.splitOn_append_cons_self_of_not_mem groups.second.no_dot,
    List.splitOn_append_cons_self_of_not_mem groups.third.no_dot, List.splitOn_eq_singleton groups.fourth.no_dot]

/-- Dotted quads are told from all other texts, except from those that only lack digits in a group. -/
theorem parse_ipv4_exact_iff (text : List UInt8) (outIp : UInt32) :
    ParsesExactly text outIp ↔ ∀ a b c d, FourGroups text a b c d → a ≠ [] ∧ b ≠ [] ∧ c ≠ [] ∧ d ≠ [] := by
  constructor
  · intro exactly a b c d groups
    have accepted : (parseIpv4 text outIp).1 = 1 := by rw [parseIpv4_fourGroups groups]
    obtain ⟨a', b', c', d', quad⟩ := exactly.accepts.mp accepted
    have same := groups.splitOn.symm.trans quad.toFourGroups.splitOn
    cases same
    exact quad.filled
  · intro filled
    refine ⟨⟨?_, ?_⟩, ?_, ?_⟩
    · intro accepted
      rcases parseIpv4_cases text outIp with ⟨a, b, c, d, groups⟩ | refused
      · exact ⟨a, b, c, d, groups, filled a b c d groups⟩
      · rw [refused] at accepted
        cases accepted
    · rintro ⟨a, b, c, d, quad⟩
      rw [parseIpv4_fourGroups quad.toFourGroups]
    · intro a b c d quad
      rw [parseIpv4_fourGroups quad.toFourGroups]
    · intro refused
      rcases parseIpv4_cases text outIp with ⟨a, b, c, d, groups⟩ | same
      · rw [parseIpv4_fourGroups groups] at refused
        exact absurd rfl refused
      · exact same

/-- Three dots are an address. -/
theorem three_dots_accepted : ¬ParsesExactly (ascii "...") 7 := by
  intro exactly
  obtain ⟨a, b, c, d, quad⟩ := exactly.accepts.mp (by decide)
  have size := congrArg List.length quad.joined
  rw [show (ascii "...").length = 3 from rfl] at size
  simp only [List.length_append, List.length_cons] at size
  have filled := List.length_pos_of_ne_nil quad.filled.1
  omega

/-! ## Printing and reading back -/

theorem symbolOf_decimal {d : Nat} (small : d < 10) :
    Digit (symbolOf false d) ∧ digitValue (symbolOf false d) = d ∧ (symbolOf false d = symbolOf false 0 → d = 0) := by
  interval_cases d <;> decide

def octetText (octet : UInt8) : List UInt8 := unsignedText octet.toUInt64 10 false

theorem groupValue_octetText (octet : UInt8) : groupValue (octetText octet) = octet.toNat := by
  have read := @readNumeral_numeral _ digitValue 10 (symbolOf false) (by decide)
    (fun d small => (symbolOf_decimal small).2.1) octet.toUInt64.toNat
  rw [UInt8.toNat_toUInt64] at read
  exact read

theorem octetText_octet (octet : UInt8) : Octet (octetText octet) := by
  constructor
  · intro c member
    obtain ⟨d, small, rfl⟩ := mem_numeral (by decide) member
    exact (symbolOf_decimal small).1
  · rw [groupValue_octetText]
    exact Nat.le_of_lt_succ octet.toNat_lt

theorem octetText_length (octet : UInt8) : (octetText octet).length ≤ 3 := by
  apply numeral_length_le (by decide) (by decide)
  rw [UInt8.toNat_toUInt64]
  exact Nat.lt_trans octet.toNat_lt (by decide)

theorem octetText_head {octet : UInt8} (leading : (octetText octet).head? = some (char '0')) :
    octetText octet = [char '0'] :=
  numeral_head (by decide) (fun _ small => (symbolOf_decimal small).2.2) leading

def quadText (a b c d : UInt8) : List UInt8 :=
  octetText a ++ char '.' :: (octetText b ++ char '.' :: (octetText c ++ char '.' :: octetText d))

theorem quadText_groups (a b c d : UInt8) :
    FourGroups (quadText a b c d) (octetText a) (octetText b) (octetText c) (octetText d) :=
  ⟨rfl, octetText_octet a, octetText_octet b, octetText_octet c, octetText_octet d⟩

theorem quadText_length (a b c d : UInt8) : (quadText a b c d).length ≤ 15 := by
  have ha := octetText_length a
  have hb := octetText_length b
  have hc := octetText_length c
  have hd := octetText_length d
  simp only [quadText, List.length_append, List.length_cons]
  omega

theorem FourGroups.plain {text a b c d : List UInt8} (groups : FourGroups text a b c d) : 0 ∉ text := by
  have digits {group : List UInt8} (octet : Octet group) : 0 ∉ group := fun member =>
    absurd (octet.1 0 member) (by decide)
  have dot : (0 : UInt8) ≠ char '.' := by decide
  rw [groups.joined]
  simp only [List.mem_append, List.mem_cons, digits groups.first, digits groups.second, digits groups.third,
    digits groups.fourth, dot, or_self, not_false_eq_true]

theorem rendering_quad (a b c d : UInt8) :
    rendering (ascii "%u.%u.%u.%u") [.word a.toUInt64, .word b.toUInt64, .word c.toUInt64, .word d.toUInt64] =
      some (quadText a b c d) := by
  change some (octetText a ++ char '.' :: (octetText b ++ char '.' :: (octetText c ++ char '.' :: (octetText d ++ [])))) = _
  rw [List.append_nil]
  rfl

theorem byte_of_word (ip : UInt32) : (ip &&& 0xFF).toUInt8.toNat = ip.toNat % 2 ^ 8 := by
  rw [UInt32.toNat_toUInt8, UInt32.toNat_and, show (0xFF : UInt32).toNat = 2 ^ 8 - 1 from rfl,
    Nat.and_two_pow_sub_one_eq_mod, Nat.mod_mod]

theorem bigEndian_bytes (ip : UInt32) :
    bigEndian ((ip >>> 24) &&& 0xFF).toUInt8.toNat ((ip >>> 16) &&& 0xFF).toUInt8.toNat
      ((ip >>> 8) &&& 0xFF).toUInt8.toNat (ip &&& 0xFF).toUInt8.toNat = ip := by
  have bound := ip.toNat_lt
  apply UInt32.toNat_inj.mp
  simp only [byte_of_word, UInt32.toNat_shiftRight, Nat.shiftRight_eq_div_pow, UInt32.reduceToNat, Nat.reduceMod,
    Nat.reducePow]
  rw [bigEndian, UInt32.toNat_ofNat_of_lt' (by unfold UInt32.size; omega)]
  omega

/-- `buffer` holds a text of at most 15 characters whose groups have no redundant zeros. -/
structure CanonicalQuad (buffer : Nat → UInt8) (text : List UInt8) : Prop where
  holds : HoldsText buffer text
  short : text.length ≤ 15
  canonical : ∀ group ∈ text.splitOn (char '.'), group.head? = some (char '0') → group = [char '0']

theorem parse_ipv4_format_ip (ip : UInt32) (buffer : Nat → UInt8) (size : Nat) (room : 16 ≤ size) (old : UInt32) :
    ∃ out text, formatIp ip buffer size = some out ∧ CanonicalQuad out text ∧ parseIpv4 text old = (1, ip) := by
  let a := ((ip >>> 24) &&& 0xFF).toUInt8
  let b := ((ip >>> 16) &&& 0xFF).toUInt8
  let c := ((ip >>> 8) &&& 0xFF).toUInt8
  let d := (ip &&& 0xFF).toUInt8
  have short := quadText_length a b c d
  have groups := quadText_groups a b c d
  refine ⟨storeText buffer size (quadText a b c d), quadText a b c d, ?_, ⟨?_, short, ?_⟩, ?_⟩
  · rw [formatIp, kvsnprintf_eq buffer (by omega) (rendering_quad a b c d), Option.map_some]
  · exact storeText_holds buffer groups.plain (by omega)
  · intro group member leading
    rw [groups.splitOn] at member
    simp only [List.mem_cons, List.not_mem_nil, or_false] at member
    rcases member with rfl | rfl | rfl | rfl <;> exact octetText_head leading
  · rw [parseIpv4_fourGroups groups]
    simp only [groupValue_octetText]
    rw [bigEndian_bytes]

theorem parse_ipv4_format_ip_sample :
    16 ≤ 20 ∧ ∃ out text, formatIp 0x0A00020F (fun _ => 0xFF) 20 = some out ∧ CanonicalQuad out text ∧
      parseIpv4 text 0 = (1, 0x0A00020F) :=
  ⟨by decide, parse_ipv4_format_ip 0x0A00020F (fun _ => 0xFF) 20 (by decide) 0⟩

end Mgcore
