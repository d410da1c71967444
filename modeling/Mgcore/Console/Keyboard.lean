import Mathlib.Data.Finset.Basic
import Mgcore.Console.Printf
import Mgcore.Lib.Run

/-!
# The keyboard

`drivers/keyboard.c` decodes set 1 of the scan codes, one byte for each interrupt, and puts the characters into the
input ring. It keeps three flags. The decoder that it is compared with keeps the set of the modifier keys that are down:
two Shift keys share one flag and so do two Ctrl keys, and the codes of the Shift keys set and clear their flag also
after the byte that announces an extended code.
-/

namespace Mgcore
open Lib

def ps2ScancodeRelease : UInt8 := 0x80
def ps2ScancodeExtended : UInt8 := 0xE0
def scancodeLeftShift : UInt8 := 0x2A
def scancodeRightShift : UInt8 := 0x36
def scancodeCtrl : UInt8 := 0x1D
def scancodeEsc : UInt8 := 0x01
def scancodeArrowUp : UInt8 := 0x48
def scancodeArrowDown : UInt8 := 0x50
def scancodeArrowLeft : UInt8 := 0x4B
def scancodeArrowRight : UInt8 := 0x4D

structure KeymapEntry where
  normal : UInt8 := 0
  shifted : UInt8 := 0

def keymapEntry (scancode : UInt8) (symbols : String) : UInt8 × KeymapEntry :=
  (scancode, { normal := (ascii symbols).getD 0 0, shifted := (ascii symbols).getD 1 0 })

/-- The entries of `g_keymap` that are not zero. -/
def gKeymap : List (UInt8 × KeymapEntry) :=
  [keymapEntry 0x02 "1!", keymapEntry 0x03 "2@", keymapEntry 0x04 "3#", keymapEntry 0x05 "4$", keymapEntry 0x06 "5%",
    keymapEntry 0x07 "6^", keymapEntry 0x08 "7&", keymapEntry 0x09 "8*", keymapEntry 0x0A "9(", keymapEntry 0x0B "0)",
    keymapEntry 0x0C "-_", keymapEntry 0x0D "=+", keymapEntry 0x0E "\x08\x08", keymapEntry 0x0F "\t\t",
    keymapEntry 0x10 "qQ", keymapEntry 0x11 "wW", keymapEntry 0x12 "eE", keymapEntry 0x13 "rR", keymapEntry 0x14 "tT",
    keymapEntry 0x15 "yY", keymapEntry 0x16 "uU", keymapEntry 0x17 "iI", keymapEntry 0x18 "oO", keymapEntry 0x19 "pP",
    keymapEntry 0x1A "[\x7b", keymapEntry 0x1B "]\x7d", keymapEntry 0x1C "\n\n", keymapEntry 0x1E "aA",
    keymapEntry 0x1F "sS", keymapEntry 0x20 "dD", keymapEntry 0x21 "fF", keymapEntry 0x22 "gG", keymapEntry 0x23 "hH",
    keymapEntry 0x24 "jJ", keymapEntry 0x25 "kK", keymapEntry 0x26 "lL", keymapEntry 0x27 ";:", keymapEntry 0x28 "'\"",
    keymapEntry 0x29 "`~", keymapEntry 0x2B "\\|", keymapEntry 0x2C "zZ", keymapEntry 0x2D "xX", keymapEntry 0x2E "cC",
    keymapEntry 0x2F "vV", keymapEntry 0x30 "bB", keymapEntry 0x31 "nN", keymapEntry 0x32 "mM", keymapEntry 0x33 ",<",
    keymapEntry 0x34 ".>", keymapEntry 0x35 "/?", keymapEntry 0x39 "  "]

def keymapAt (scancode : UInt8) : KeymapEntry :=
  match gKeymap.find? fun entry => entry.1 = scancode with
  | some entry => entry.2
  | none => {}

/-! ## The driver -/

structure Keyboard where
  shiftActive : Bool := false
  ctrlActive : Bool := false
  extendedSequence : Bool := false
  deriving DecidableEq

def translateScancode (k : Keyboard) (scancode : UInt8) : UInt8 :=
  if 128 ≤ scancode then 0
  else
    let entry := keymapAt scancode
    if entry.normal = 0 then 0 else if k.shiftActive then entry.shifted else entry.normal

def translateExtendedScancode (scancode : UInt8) : UInt8 :=
  if scancode = scancodeArrowUp then inputKeyCtrlP
  else if scancode = scancodeArrowDown then inputKeyCtrlN
  else if scancode = scancodeArrowLeft then inputKeyCtrlB
  else if scancode = scancodeArrowRight then inputKeyCtrlF
  else 0

/-- What `apply_ctrl_translation` makes of a character while its flag is set. -/
def controlCharacter (translated : UInt8) : UInt8 :=
  if 0x61 ≤ translated ∧ translated ≤ 0x7A then translated - 0x61 + 1
  else if 0x41 ≤ translated ∧ translated ≤ 0x5A then translated - 0x41 + 1
  else if translated = 0x5B then inputKeyEsc
  else translated

def applyCtrlTranslation (k : Keyboard) (translated : UInt8) : UInt8 :=
  if !k.ctrlActive then translated else controlCharacter translated

/-- `typed` lists the characters given to `console_enqueue_input` since `keyboard_init`, also those that a full ring
refused. -/
structure Typing where
  keyboard : Keyboard := {}
  console : Console := {}
  typed : List UInt8 := []

def Typing.enqueue (s : Typing) (c : UInt8) : Typing :=
  { s with console := consoleEnqueueInput s.console c, typed := s.typed ++ [c] }

/-- The bytes that wait in the controller are thrown away. -/
def keyboardInit (stack : Nat → UInt8) (c : Console) : Option Typing := do
  let c ← consoleWriteln stack c (ascii "keyboard: PS/2 input ready")
  return { console := c }

/-- The argument is the byte in the controller, `none` if the status port says that there is none. -/
def keyboardHandleIrq (s : Typing) : Option UInt8 → Typing
  | none => s
  | some scancode =>
      let k := s.keyboard
      if scancode = ps2ScancodeExtended then { s with keyboard := { k with extendedSequence := true } }
      else if scancode &&& ps2ScancodeRelease ≠ 0 then
        let scancode := scancode &&& ~~~ps2ScancodeRelease
        let k :=
          if scancode = scancodeLeftShift ∨ scancode = scancodeRightShift then { k with shiftActive := false }
          else if scancode = scancodeCtrl then { k with ctrlActive := false }
          else k
        { s with keyboard := if k.extendedSequence then { k with extendedSequence := false } else k }
      else if scancode = scancodeLeftShift ∨ scancode = scancodeRightShift then
        { s with keyboard := { k with shiftActive := true } }
      else if scancode = scancodeCtrl then
        let k := { k with ctrlActive := true }
        { s with keyboard := if k.extendedSequence then { k with extendedSequence := false } else k }
      else
        let (translated, k) :=
          if k.extendedSequence then (translateExtendedScancode scancode, { k with extendedSequence := false })
          else if scancode = scancodeEsc then (inputKeyEsc, k)
          else (applyCtrlTranslation k (translateScancode k scancode), k)
        let s := { s with keyboard := k }
        if translated ≠ 0 then s.enqueue translated else s

/-! ## The reference -/

inductive Modifier
  | leftShift | rightShift | leftCtrl | rightCtrl
  deriving DecidableEq

/-- The other key of the same kind. -/
def Modifier.twin : Modifier → Modifier
  | .leftShift => .rightShift
  | .rightShift => .leftShift
  | .leftCtrl => .rightCtrl
  | .rightCtrl => .leftCtrl

inductive ScanCode
  | extended
  | press (code : UInt8)
  | release (code : UInt8)

def scanCode (b : UInt8) : ScanCode :=
  if b = ps2ScancodeExtended then .extended
  else if b &&& ps2ScancodeRelease ≠ 0 then .release (b &&& ~~~ps2ScancodeRelease)
  else .press b

/-- `pending`: the byte before this one announced an extended code. -/
structure Decoder where
  held : Finset Modifier := ∅
  pending : Bool := false
  typed : List UInt8 := []

namespace Decoder

abbrev ShiftHeld (d : Decoder) : Prop := .leftShift ∈ d.held ∨ .rightShift ∈ d.held
abbrev CtrlHeld (d : Decoder) : Prop := .leftCtrl ∈ d.held ∨ .rightCtrl ∈ d.held

/-- Right Ctrl is the extended code of left Ctrl; the Shift keys have codes of their own. -/
def modifier (extended : Bool) (code : UInt8) : Option Modifier :=
  match extended with
  | true => if code = scancodeCtrl then some .rightCtrl else none
  | false =>
      if code = scancodeLeftShift then some .leftShift
      else if code = scancodeRightShift then some .rightShift
      else if code = scancodeCtrl then some .leftCtrl
      else none

def symbol (d : Decoder) (code : UInt8) : UInt8 :=
  if d.pending then translateExtendedScancode code
  else if code = scancodeEsc then inputKeyEsc
  else if d.ShiftHeld then (keymapAt code).shifted
  else (keymapAt code).normal

def character (d : Decoder) (code : UInt8) : UInt8 :=
  if d.CtrlHeld then controlCharacter (d.symbol code) else d.symbol code

def handle (d : Decoder) : ScanCode → Decoder
  | .extended => { d with pending := true }
  | .press code =>
      match modifier d.pending code with
      | some key => { d with held := insert key d.held, pending := false }
      | none =>
          let c := d.character code
          { d with pending := false, typed := if c ≠ 0 then d.typed ++ [c] else d.typed }
  | .release code =>
      match modifier d.pending code with
      | some key => { d with held := d.held.erase key, pending := false }
      | none => { d with pending := false }

def step (d : Decoder) : Option UInt8 → Decoder
  | none => d
  | some b => d.handle (scanCode b)

end Decoder

/-! ## One byte -/

/-- The flags stand for the keys that are down. -/
@[mk_iff]
structure Tracks (k : Keyboard) (d : Decoder) : Prop where
  shift : k.shiftActive = true ↔ d.ShiftHeld
  ctrl : k.ctrlActive = true ↔ d.CtrlHeld
  extended : k.extendedSequence = d.pending

abbrev IsShift (code : UInt8) : Prop := code = scancodeLeftShift ∨ code = scancodeRightShift

/-- No code of a Shift key follows the byte for an extended code, unless it is a release and no Shift key is down, and
no key is released while its twin is down. -/
def Decoder.Clean (d : Decoder) : ScanCode → Prop
  | .extended => True
  | .press code => d.pending = true → ¬IsShift code
  | .release code => (d.pending = true → IsShift code → ¬d.ShiftHeld) ∧
      ∀ key, modifier d.pending code = some key → key.twin ∉ d.held

def Decoder.CleanByte (d : Decoder) : Option UInt8 → Prop
  | none => True
  | some b => d.Clean (scanCode b)

namespace Keyboard

def next (k : Keyboard) : ScanCode → Keyboard
  | .extended => { k with extendedSequence := true }
  | .press code =>
      if IsShift code then { k with shiftActive := true }
      else if code = scancodeCtrl then { k with ctrlActive := true, extendedSequence := false }
      else { k with extendedSequence := false }
  | .release code =>
      if IsShift code then { k with shiftActive := false, extendedSequence := false }
      else if code = scancodeCtrl then { k with ctrlActive := false, extendedSequence := false }
      else { k with extendedSequence := false }

/-- Zero where nothing is enqueued. -/
def character (k : Keyboard) : ScanCode → UInt8
  | .press code =>
      if IsShift code ∨ code = scancodeCtrl then 0
      else if k.extendedSequence then translateExtendedScancode code
      else if code = scancodeEsc then inputKeyEsc
      else applyCtrlTranslation k (translateScancode k code)
  | _ => 0

theorem clear_extended (k : Keyboard) :
    (if k.extendedSequence then { k with extendedSequence := false } else k) =
      { k with extendedSequence := false } := by
  obtain ⟨shift, ctrl, extended⟩ := k
  cases extended with
  | false => rfl
  | true => rfl

end Keyboard

theorem keyboardHandleIrq_eq (s : Typing) (b : UInt8) :
    keyboardHandleIrq s (some b) =
      let t := { s with keyboard := s.keyboard.next (scanCode b) }
      let c := s.keyboard.character (scanCode b)
      if c ≠ 0 then t.enqueue c else t := by
  unfold keyboardHandleIrq scanCode
  by_cases announces : b = ps2ScancodeExtended
  · simp only [if_pos announces]
    rfl
  simp only [if_neg announces]
  by_cases released : b &&& ps2ScancodeRelease ≠ 0
  · simp only [if_pos released, Keyboard.clear_extended, Keyboard.next, Keyboard.character, ne_eq, not_true_eq_false,
      if_false]
    split_ifs
    · rfl
    · rfl
    · rfl
  simp only [if_neg released, Keyboard.next, Keyboard.character]
  by_cases shift : IsShift b
  · simp only [if_pos shift, if_pos (Or.inl shift)]
    rfl
  by_cases ctrl : b = scancodeCtrl
  · simp only [if_neg shift, if_pos ctrl, if_pos (Or.inr ctrl)]
    exact congrArg (fun k => { s with keyboard := k }) (Keyboard.clear_extended { s.keyboard with ctrlActive := true })
  have ordinary : ¬(IsShift b ∨ b = scancodeCtrl) := not_or.mpr ⟨shift, ctrl⟩
  simp only [if_neg shift, if_neg ctrl, if_neg ordinary]
  obtain ⟨⟨_, _, extended⟩, _, _⟩ := s
  cases extended with
  | true => rfl
  | false =>
      by_cases escape : b = scancodeEsc
      · simp only [if_pos escape]
        rfl
      · simp only [if_neg escape]
        rfl

/-! ## Modifier keys -/

theorem Decoder.modifier_none {extended : Bool} {code : UInt8} (missing : modifier extended code = none) :
    extended = true ∧ IsShift code ∨ ¬IsShift code ∧ code ≠ scancodeCtrl := by
  cases extended with
  | true =>
      rw [modifier] at missing
      split_ifs at missing with isCtrl
      by_cases shift : IsShift code
      · exact Or.inl ⟨rfl, shift⟩
      · exact Or.inr ⟨shift, isCtrl⟩
  | false =>
      rw [modifier] at missing
      split_ifs at missing with left right isCtrl
      exact Or.inr ⟨not_or.mpr ⟨left, right⟩, isCtrl⟩

theorem Decoder.modifier_shift {code : UInt8} (shift : IsShift code) : modifier true code = none := by
  rcases shift with rfl | rfl
  · rfl
  · rfl

theorem Decoder.modifier_some {extended : Bool} {code : UInt8} {key : Modifier}
    (found : modifier extended code = some key) : IsShift code ∨ code = scancodeCtrl := by
  cases extended with
  | true =>
      rw [modifier] at found
      split_ifs at found with isCtrl
      exact Or.inr isCtrl
  | false =>
      rw [modifier] at found
      split_ifs at found with left right isCtrl
      · exact Or.inl (Or.inl left)
      · exact Or.inl (Or.inr right)
      · exact Or.inr isCtrl

/-! ## The characters -/

theorem keymapAt_cases (code : UInt8) : keymapAt code = {} ∨ (keymapAt code).normal ≠ 0 ∧ code < 128 := by
  have entries : ∀ entry ∈ gKeymap, entry.2.normal ≠ 0 ∧ entry.1 < 128 := by decide +kernel
  unfold keymapAt
  cases found : gKeymap.find? fun entry => entry.1 = code with
  | none => exact Or.inl rfl
  | some entry =>
      have same : entry.1 = code := by simpa using List.find?_some found
      rw [← same]
      exact Or.inr (entries entry (List.mem_of_find?_eq_some found))

theorem translateScancode_eq (k : Keyboard) (code : UInt8) :
    translateScancode k code = if k.shiftActive then (keymapAt code).shifted else (keymapAt code).normal := by
  unfold translateScancode
  rcases keymapAt_cases code with missing | ⟨present, small⟩
  · rw [missing]
    simp
  · simp only [if_neg (UInt8.not_le.mpr small), if_neg present]

theorem controlCharacter_extended (code : UInt8) :
    controlCharacter (translateExtendedScancode code) = translateExtendedScancode code := by
  unfold translateExtendedScancode
  split_ifs
  · decide
  · decide
  · decide
  · decide
  · decide

section
variable {k : Keyboard} {d : Decoder} (tracks : Tracks k d) {code : UInt8}
include tracks

/-- The arrow keys give control characters, which the Ctrl keys leave alone. -/
theorem Tracks.character_extended (pending : d.pending = true) : k.character (.press code) = d.character code := by
  have extended : k.extendedSequence = true := tracks.extended.trans pending
  have symbol : d.symbol code = translateExtendedScancode code := if_pos pending
  have same : d.character code = translateExtendedScancode code := by
    rw [Decoder.character, symbol, controlCharacter_extended, ite_self]
  rw [same, Keyboard.character, if_pos extended]
  split_ifs with special
  · -- None of the modifier codes is an arrow key.
    rcases special with (rfl | rfl) | rfl
    · rfl
    · rfl
    · rfl
  · rfl

theorem Tracks.character_ordinary (ordinary : ¬(IsShift code ∨ code = scancodeCtrl)) (pending : ¬d.pending = true) :
    k.character (.press code) = d.character code := by
  have extended : ¬k.extendedSequence = true := by rwa [tracks.extended]
  rw [Keyboard.character, if_neg ordinary, if_neg extended]
  by_cases escape : code = scancodeEsc
  · have symbol : d.symbol code = inputKeyEsc := by rw [Decoder.symbol, if_neg pending, if_pos escape]
    rw [if_pos escape, Decoder.character, symbol]
    split_ifs
    · decide
    · rfl
  · have symbol : d.symbol code = translateScancode k code := by
      rw [Decoder.symbol, if_neg pending, if_neg escape, translateScancode_eq]
      simp only [← tracks.shift]
    have held : d.CtrlHeld ↔ k.ctrlActive = true := tracks.ctrl.symm
    rw [if_neg escape, Decoder.character, symbol, applyCtrlTranslation]
    simp only [held]
    cases k.ctrlActive with
    | true => rfl
    | false => rfl

theorem Tracks.character (plain : Decoder.modifier d.pending code = none) :
    k.character (.press code) = d.character code := by
  by_cases pending : d.pending = true
  · exact tracks.character_extended pending
  · rcases Decoder.modifier_none plain with ⟨extended, -⟩ | ⟨shift, ctrl⟩
    · exact absurd extended pending
    · exact tracks.character_ordinary (not_or.mpr ⟨shift, ctrl⟩) pending

end

theorem Tracks.typed {k : Keyboard} {d : Decoder} (tracks : Tracks k d) (e : ScanCode) :
    (d.handle e).typed = if k.character e ≠ 0 then d.typed ++ [k.character e] else d.typed := by
  cases e with
  | extended => rfl
  | release code =>
      rw [Decoder.handle]
      cases Decoder.modifier d.pending code with
      | none => rfl
      | some key => rfl
  | press code =>
      rw [Decoder.handle]
      cases found : Decoder.modifier d.pending code with
      | none => rw [tracks.character found]
      | some key =>
          -- A modifier key gives no character.
          rw [Keyboard.character, if_pos (Decoder.modifier_some found)]
          rfl

/-! ## The flags -/

/-- What the driver does with the flag of a modifier key. -/
def Keyboard.set (k : Keyboard) (key : Modifier) (down : Bool) : Keyboard :=
  match key with
  | .leftShift | .rightShift => { k with shiftActive := down, extendedSequence := false }
  | .leftCtrl | .rightCtrl => { k with ctrlActive := down, extendedSequence := false }

theorem Keyboard.next_modifier {k : Keyboard} {code : UInt8} {key : Modifier}
    (found : Decoder.modifier k.extendedSequence code = some key) :
    k.next (.press code) = k.set key true ∧ k.next (.release code) = k.set key false := by
  obtain ⟨shift, ctrl, extended⟩ := k
  dsimp only at found
  cases extended with
  | true =>
      rw [Decoder.modifier] at found
      split_ifs at found with isCtrl
      cases found
      rw [isCtrl]
      exact ⟨rfl, rfl⟩
  | false =>
      rw [Decoder.modifier] at found
      split_ifs at found with left right isCtrl
      · cases found
        rw [left]
        exact ⟨rfl, rfl⟩
      · cases found
        rw [right]
        exact ⟨rfl, rfl⟩
      · cases found
        rw [isCtrl]
        exact ⟨rfl, rfl⟩

section
variable {k : Keyboard} {d : Decoder} (tracks : Tracks k d)
include tracks

theorem Tracks.set_down (key : Modifier) :
    Tracks (k.set key true) { d with held := insert key d.held, pending := false } := by
  have shift := tracks.shift
  have ctrl := tracks.ctrl
  rw [tracks_iff]
  cases key with
  | leftShift => simp [Keyboard.set, Decoder.ShiftHeld, Decoder.CtrlHeld, ctrl]
  | rightShift => simp [Keyboard.set, Decoder.ShiftHeld, Decoder.CtrlHeld, ctrl]
  | leftCtrl => simp [Keyboard.set, Decoder.ShiftHeld, Decoder.CtrlHeld, shift]
  | rightCtrl => simp [Keyboard.set, Decoder.ShiftHeld, Decoder.CtrlHeld, shift]

/-- The flag is cleared, so the other key must be up. -/
theorem Tracks.set_up_iff (key : Modifier) :
    Tracks (k.set key false) { d with held := d.held.erase key, pending := false } ↔ key.twin ∉ d.held := by
  have shift := tracks.shift
  have ctrl := tracks.ctrl
  rw [tracks_iff]
  cases key with
  | leftShift => simp [Keyboard.set, Decoder.ShiftHeld, Decoder.CtrlHeld, Modifier.twin, ctrl]
  | rightShift => simp [Keyboard.set, Decoder.ShiftHeld, Decoder.CtrlHeld, Modifier.twin, ctrl]
  | leftCtrl => simp [Keyboard.set, Decoder.ShiftHeld, Decoder.CtrlHeld, Modifier.twin, shift]
  | rightCtrl => simp [Keyboard.set, Decoder.ShiftHeld, Decoder.CtrlHeld, Modifier.twin, shift]

theorem Tracks.press_iff (code : UInt8) :
    Tracks (k.next (.press code)) (d.handle (.press code)) ↔ d.Clean (.press code) := by
  rw [Decoder.handle, Decoder.Clean]
  cases found : Decoder.modifier d.pending code with
  | some key =>
      rw [(Keyboard.next_modifier (tracks.extended ▸ found)).1]
      refine iff_of_true (tracks.set_down key) fun pending shift => ?_
      rw [pending, Decoder.modifier_shift shift] at found
      cases found
  | none =>
      rcases Decoder.modifier_none found with ⟨pending, shift⟩ | ⟨shift, ctrl⟩
      · -- The driver takes the key for a Shift key and waits for the next byte of the extended code.
        rw [Keyboard.next, if_pos shift]
        refine iff_of_false (fun after => ?_) (fun clean => clean pending shift)
        have cleared : k.extendedSequence = false := after.extended
        rw [tracks.extended, pending] at cleared
        cases cleared
      · rw [Keyboard.next, if_neg shift, if_neg ctrl]
        exact iff_of_true ⟨tracks.shift, tracks.ctrl, rfl⟩ fun _ => shift

theorem Tracks.release_iff (code : UInt8) :
    Tracks (k.next (.release code)) (d.handle (.release code)) ↔ d.Clean (.release code) := by
  rw [Decoder.handle, Decoder.Clean]
  cases found : Decoder.modifier d.pending code with
  | some key =>
      rw [(Keyboard.next_modifier (tracks.extended ▸ found)).2, tracks.set_up_iff key]
      constructor
      · intro up
        refine ⟨fun pending shift => ?_, fun other same => Option.some.inj same ▸ up⟩
        rw [pending, Decoder.modifier_shift shift] at found
        cases found
      · exact fun clean => clean.2 key rfl
  | none =>
      have noKey : ∀ key, (none : Option Modifier) = some key → key.twin ∉ d.held := nofun
      rcases Decoder.modifier_none found with ⟨pending, shift⟩ | ⟨shift, ctrl⟩
      · rw [Keyboard.next, if_pos shift]
        constructor
        · intro after
          refine ⟨fun _ _ held => ?_, noKey⟩
          cases after.shift.mpr held
        · intro clean
          have up := clean.1 pending shift
          exact ⟨iff_of_false nofun up, tracks.ctrl, rfl⟩
      · rw [Keyboard.next, if_neg shift, if_neg ctrl]
        exact iff_of_true ⟨tracks.shift, tracks.ctrl, rfl⟩ ⟨fun _ isShift => absurd isShift shift, noKey⟩

theorem Tracks.step_iff (e : ScanCode) : Tracks (k.next e) (d.handle e) ↔ d.Clean e := by
  cases e with
  | extended => exact iff_of_true ⟨tracks.shift, tracks.ctrl, rfl⟩ trivial
  | press code => exact tracks.press_iff code
  | release code => exact tracks.release_iff code

end

/-! ## Streams -/

/-- The driver has given the characters of the reference to the ring, which held `c`, and its flags stand for the keys
that are down. -/
structure TypesAs (c : Console) (s : Typing) (d : Decoder) : Prop where
  keys : Tracks s.keyboard d
  typed : s.typed = d.typed
  ring : s.console = d.typed.foldl consoleEnqueueInput c

theorem TypesAs.step_iff {c : Console} {s : Typing} {d : Decoder} (alike : TypesAs c s d) (data : Option UInt8) :
    TypesAs c (keyboardHandleIrq s data) (d.step data) ↔ d.CleanByte data := by
  cases data with
  | none => exact iff_of_true alike trivial
  | some b =>
      have characters := alike.keys.typed (scanCode b)
      rw [Decoder.CleanByte, ← alike.keys.step_iff, keyboardHandleIrq_eq, Decoder.step]
      dsimp only
      split_ifs with typed
      · refine ⟨fun after => after.keys, fun keys => ⟨keys, ?_, ?_⟩⟩
        · rw [characters, if_pos typed, ← alike.typed]
          rfl
        · rw [characters, if_pos typed, List.foldl_append, ← alike.ring]
          rfl
      · refine ⟨fun after => after.keys, fun keys => ⟨keys, ?_, ?_⟩⟩
        · rw [characters, if_neg typed]
          exact alike.typed
        · rw [characters, if_neg typed]
          exact alike.ring

theorem keyboardInit_eq (stack : Nat → UInt8) (c : Console) :
    keyboardInit stack c = some { console := consoleWriteN c (ascii "keyboard: PS/2 input ready\n") } := by
  rw [keyboardInit, consoleWriteln_eq stack c (by decide) (by decide) (by decide)]
  rfl

theorem keyboard_decodes_iff (stack : Nat → UInt8) (c : Console) (interrupts : List (Option UInt8)) :
    ∃ start, keyboardInit stack c = some start ∧
      ((∀ before, before <+: interrupts →
          TypesAs start.console (before.foldl keyboardHandleIrq start) (before.foldl Decoder.step {})) ↔
        Along (fun d data => some (d.step data)) Decoder.CleanByte {} interrupts) := by
  refine ⟨_, keyboardInit_eq stack c, ?_⟩
  generalize consoleWriteN c (ascii "keyboard: PS/2 input ready\n") = ready
  have start : TypesAs ready { console := ready } {} :=
    ⟨⟨iff_of_false nofun (by simp), iff_of_false nofun (by simp), rfl⟩, rfl, rfl⟩
  have keeps (s : Typing) (d : Decoder) (data : Option UInt8) (alike : TypesAs ready s d) (_ : True)
      (clean : d.CleanByte data) : ∃ t, some (keyboardHandleIrq s data) = some t ∧ TypesAs ready t (d.step data) :=
    ⟨_, rfl, (alike.step_iff data).mpr clean⟩
  have breaks (s : Typing) (d : Decoder) (data : Option UInt8) (alike : TypesAs ready s d) (_ : True)
      (unclean : ¬d.CleanByte data) : ∃ t, some (keyboardHandleIrq s data) = some t ∧ ¬TypesAs ready t (d.step data) :=
    ⟨_, rfl, mt (alike.step_iff data).mp unclean⟩
  rw [← simulated_prefixes_iff (fun _ _ alike => alike) keeps breaks (along_true {} interrupts) start]
  simp only [run_total, Option.some.injEq, exists_eq_left']

/-- Left Shift down, right Shift down, left Shift up, `a`. -/
def overlappingShifts : List (Option UInt8) := [some 0x2A, some 0x36, some 0xAA, some 0x1E]

theorem released_shift_forgotten :
    ∃ start, keyboardInit (fun _ => 0) {} = some start ∧
      (overlappingShifts.foldl keyboardHandleIrq start).typed = ascii "a" ∧
      (overlappingShifts.foldl Decoder.step {}).typed = ascii "A" ∧
      (overlappingShifts.foldl keyboardHandleIrq start).typed ≠ (overlappingShifts.foldl Decoder.step {}).typed := by
  refine ⟨_, keyboardInit_eq _ _, ?_, ?_, ?_⟩
  · decide +kernel
  · decide +kernel
  · decide +kernel

end Mgcore
