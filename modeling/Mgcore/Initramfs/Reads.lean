import Mgcore.Fs.Paths
import Mgcore.Initramfs.Entries
import Mgcore.Initramfs.Format
import Mgcore.Lib.Reading

/-!
# The bytes the reader looks at

`fs_mount_initramfs` compares the cursor and the sizes with the limit, but hands the name to string functions that stop
at a terminator. `readEntry` is a round of its loop as the sequence of its reads. The cursor only moves forward, so the
loop ends; every read is inside the archive exactly as long as each name it comes to has a terminator behind it, or
fills the buffer of `normalize_path` before the end.
-/

namespace Mgcore

open Lib Reading

def kstrncmpAt (start : Nat) : List UInt8 → Reading Bool
  | [] => pure true
  | b :: text => do
      let a ← byte start
      if a ≠ b ∨ a = 0 ∨ b = 0 then return a == b else kstrncmpAt (start + 1) text

def kstrcmpAt (start : Nat) : List UInt8 → Reading Bool
  | [] => do
      let a ← byte start
      return a == 0
  | b :: text => do
      let a ← byte start
      if a ≠ 0 ∧ a = b then kstrcmpAt (start + 1) text else return a == b

def parseCpioHexAt (start : Nat) : Nat → UInt32 → Reading (Option UInt32)
  | 0, value => pure (some value)
  | length + 1, value => do
      let c ← byte start
      match pushHex value c with
      | none => return none
      | some value => parseCpioHexAt (start + 1) length value

def bytesAt (start : Nat) : Nat → Reading (List UInt8)
  | 0 => pure []
  | length + 1 => do
      let b ← byte start
      let bytes ← bytesAt (start + 1) length
      return b :: bytes

/-- With `left` bytes before the limit. The bytes behind it are not known, and one read there is enough. -/
def normalizeLoopAt : Nat → Nat → List UInt8 → Reading (List UInt8)
  | 0, source, out => do
      let _ ← byte source
      return out
  | left + 1, source, out => do
      let c ← byte source
      if c = 0 ∨ pathMax ≤ out.length + 1 then return out
      else if c = slash ∧ out.getLast? = some slash then normalizeLoopAt left (source + 1) out
      else normalizeLoopAt left (source + 1) (out ++ [c])

def normalizePathAt (cwd : List UInt8) (limit path : Nat) : Reading (List UInt8) := do
  let first ← byte path
  if first = 0 then return [slash]
  else
    let base :=
      if first = slash then []
      else if 1 < cwd.length ∧ cwd.getLast? ≠ some slash then cwd ++ [slash]
      else cwd
    normalizeLoopAt (limit - path) path base

/-- A round of the loop from its first look at the name. The data of a regular file is read by `tmpfs_write_node`. -/
def readNamed (cwd : List UInt8) (limit name data : Nat) (mode fileSize : UInt32) : Reading EntryStep := do
  let trailer ← kstrcmpAt name (ascii "TRAILER!!!")
  if trailer then return .returns 0
  else
    let dot ← kstrcmpAt name (ascii ".")
    if dot then return .skip (data + (alignSize fileSize).toNat)
    else
      let path ← normalizePathAt cwd limit name
      if limit < data + fileSize.toNat then return .returns (-eINVAL)
      else if ModeIsDir mode then return .mount path mode [] (data + (alignSize fileSize).toNat)
      else
        let bytes ← bytesAt data fileSize.toNat
        return .mount path mode bytes (data + (alignSize fileSize).toNat)

def readEntry (cwd : List UInt8) (limit cursor : Nat) : Reading EntryStep := do
  if limit < cursor + 110 then return .returns 0
  else
    let magic ← kstrncmpAt cursor (ascii "070701")
    if magic = false then return .returns (-eINVAL)
    else
      let mode ← parseCpioHexAt (cursor + 14) 8 0
      let fileSize ← parseCpioHexAt (cursor + 54) 8 0
      let nameSize ← parseCpioHexAt (cursor + 94) 8 0
      if nameSize.getD 0 = 0 ∨ limit < cursor + 110 + (nameSize.getD 0).toNat then return .returns (-eINVAL)
      else
        readNamed cwd limit (cursor + 110) (cursor + (alignSize (110 + nameSize.getD 0)).toNat) (mode.getD 0)
          (fileSize.getD 0)

/-! ## What the routines find -/

section
variable {archive : List UInt8} {start : Nat}

theorem drop_of_getElem? {b : UInt8} (found : archive[start]? = some b) :
    archive.drop start = b :: archive.drop (start + 1) := by
  obtain ⟨inside, rfl⟩ := List.getElem?_eq_some_iff.mp found
  exact List.drop_eq_getElem_cons inside

theorem getElem?_of_lt (inside : start < archive.length) : ∃ b, archive[start]? = some b :=
  ⟨_, List.getElem?_eq_getElem inside⟩

theorem value_kstrncmpAt {text : List UInt8} (plain : 0 ∉ text) (inside : start + text.length ≤ archive.length) :
    (kstrncmpAt start text).value archive = some (decide (slice archive start text.length = text)) := by
  induction text generalizing start with
  | nil => simp [kstrncmpAt, slice_zero]
  | cons b text ih =>
      rw [List.length_cons] at inside
      obtain ⟨a, found⟩ := getElem?_of_lt (show start < archive.length by omega)
      obtain ⟨nonzero, rest⟩ := not_or.mp (mt List.mem_cons.mpr plain)
      rw [kstrncmpAt, value_bind, value_byte, found, Option.bind_some, value_ite, List.length_cons, slice_succ found]
      by_cases same : a = b
      · have goes : ¬(a ≠ b ∨ a = 0 ∨ b = 0) := by
          rw [same]
          simp [Ne.symm nonzero]
        rw [if_neg goes, ih rest (by omega)]
        simp [same]
      · rw [if_pos (Or.inl same), value_pure]
        simp [same]

theorem value_parseCpioHexAt {length : Nat} (inside : start + length ≤ archive.length) (value : UInt32) :
    (parseCpioHexAt start length value).value archive = some ((slice archive start length).foldlM pushHex value) := by
  induction length generalizing start value with
  | zero => rw [slice_zero]; rfl
  | succ length ih =>
      obtain ⟨c, found⟩ := getElem?_of_lt (show start < archive.length by omega)
      rw [parseCpioHexAt, value_bind, value_byte, found, Option.bind_some, slice_succ found, List.foldlM_cons]
      cases pushHex value c with
      | none => rfl
      | some value => exact ih (by omega) value

theorem value_bytesAt {length : Nat} (inside : start + length ≤ archive.length) :
    (bytesAt start length).value archive = some (slice archive start length) := by
  induction length generalizing start with
  | zero => rw [slice_zero]; rfl
  | succ length ih =>
      obtain ⟨b, found⟩ := getElem?_of_lt (show start < archive.length by omega)
      rw [bytesAt, value_bind, value_byte, found, Option.bind_some, value_bind, ih (by omega), slice_succ found]
      rfl

/-- A comparison reads past the end only of a string that ends with the archive and agrees up to there. -/
theorem value_kstrcmpAt {text : List UInt8} (plain : 0 ∉ text) :
    (kstrcmpAt start text).value archive =
      if 0 ∈ archive.drop start then some (decide ((archive.drop start).takeWhile (· ≠ 0) = text))
      else if archive.drop start <+: text then none else some false := by
  induction text generalizing start with
  | nil =>
      rw [kstrcmpAt, value_bind, value_byte]
      cases found : archive[start]? with
      | none =>
          rw [List.drop_eq_nil_of_le (List.getElem?_eq_none_iff.mp found)]
          rfl
      | some a =>
          rw [drop_of_getElem? found]
          by_cases zero : a = 0
          · simp [zero]
          · simp [zero, Ne.symm zero]
  | cons b text ih =>
      obtain ⟨nonzero, rest⟩ := not_or.mp (mt List.mem_cons.mpr plain)
      rw [kstrcmpAt, value_bind, value_byte]
      cases found : archive[start]? with
      | none =>
          rw [List.drop_eq_nil_of_le (List.getElem?_eq_none_iff.mp found)]
          simp
      | some a =>
          rw [Option.bind_some, value_ite, ih rest, drop_of_getElem? found]
          by_cases zero : a = 0
          · simp [zero, nonzero]
          · by_cases same : a = b
            · subst same
              simp [zero, Ne.symm zero]
            · simp [zero, Ne.symm zero, same]

theorem value_normalizeLoopAt (out : List UInt8) :
    (normalizeLoopAt (archive.length - start) start out).value archive =
      if 0 ∈ archive.drop start then some (normalizeLoop out ((archive.drop start).takeWhile (· ≠ 0)))
      else if archive.drop start ≠ [] ∧ pathMax ≤ (normalizeLoop out (archive.drop start).dropLast).length + 1 then
        some (normalizeLoop out (archive.drop start))
      else none := by
  obtain ⟨left, size⟩ : ∃ left, left = archive.length - start := ⟨_, rfl⟩
  rw [← size]
  induction left generalizing start out with
  | zero =>
      have outside : archive.length ≤ start := by omega
      rw [normalizeLoopAt, value_bind, value_byte, List.getElem?_eq_none outside, List.drop_eq_nil_of_le outside]
      rfl
  | succ left ih =>
      obtain ⟨c, found⟩ := getElem?_of_lt (show start < archive.length by omega)
      have step (out : List UInt8) := @ih (start + 1) out (by omega)
      rw [normalizeLoopAt, value_bind, value_byte, found, Option.bind_some, value_ite, drop_of_getElem? found]
      by_cases zero : c = 0
      · rw [if_pos (Or.inl zero), zero]
        rfl
      have more : 0 ∈ c :: archive.drop (start + 1) ↔ 0 ∈ archive.drop (start + 1) := by simp [Ne.symm zero]
      rw [List.takeWhile_cons_of_pos (by simpa using zero), if_congr more rfl rfl]
      by_cases full : pathMax ≤ out.length + 1
      · have filled : c :: archive.drop (start + 1) ≠ [] ∧ pathMax ≤ out.length + 1 := ⟨List.cons_ne_nil _ _, full⟩
        rw [if_pos (Or.inr full), value_pure, normalizeLoop_full full, normalizeLoop_full full, normalizeLoop_full full,
          if_pos filled, ite_self]
      rw [if_neg (not_or.mpr ⟨zero, full⟩), ← apply_ite (normalizeLoopAt left (start + 1)), step, normalizeLoop_cons full,
        normalizeLoop_cons full]
      cases rest : archive.drop (start + 1) with
      | nil => simp [normalizeLoop, full]
      | cons d rest => rw [List.dropLast_cons_cons, normalizeLoop_cons full]; simp

variable {cwd : List UInt8} (fits : cwd.length < cwdSize)
include fits

/-- Only a string of more than a hundred bytes fills the buffer behind a working directory. -/
theorem length_of_filled {text : List UInt8} (filled : pathMax ≤ (normalizePath cwd text).length + 1) :
    100 < text.length := by
  unfold pathMax at filled
  unfold cwdSize at fits
  cases text with
  | nil => exact absurd filled (by simp [normalizePath])
  | cons c text =>
      have base := pathBase_length_le cwd c
      have total := normalizeLoop_length_le (pathBase cwd c) (c :: text)
      rw [normalizePath_cons] at filled
      omega

theorem value_normalizePathAt (inside : start < archive.length) :
    (normalizePathAt cwd archive.length start).value archive =
      (entryName cwd archive start).map (normalizePath cwd) := by
  obtain ⟨c, found⟩ := getElem?_of_lt inside
  have rest := drop_of_getElem? found
  rw [normalizePathAt, value_bind, value_byte, found, Option.bind_some, value_ite]
  by_cases zero : c = 0
  · rw [if_pos zero, entryName, rest, zero]
    rfl
  rw [if_neg zero]
  change (normalizeLoopAt (archive.length - start) start (pathBase cwd c)).value archive = _
  rw [value_normalizeLoopAt, entryName, rest, List.takeWhile_cons_of_pos (by simpa using zero)]
  by_cases terminated : 0 ∈ c :: archive.drop (start + 1)
  · rw [if_pos terminated, if_pos terminated, Option.map_some, normalizePath_cons]
  rw [if_neg terminated, if_neg terminated]
  cases archive.drop (start + 1) with
  | nil =>
      have base := pathBase_length_le cwd c
      have open1 : ¬pathMax ≤ (pathBase cwd c).length + 1 := by
        unfold pathMax
        unfold cwdSize at fits
        omega
      have open2 : ¬pathMax ≤ (normalizePath cwd []).length + 1 := fun filled =>
        absurd (length_of_filled fits filled) (by simp)
      rw [List.dropLast_singleton, if_neg open2, if_neg fun both => open1 both.2]
      rfl
  | cons d rest =>
      rw [List.dropLast_cons_cons, normalizePath_cons]
      simp only [ne_eq, reduceCtorEq, not_false_eq_true, true_and]
      split_ifs
      · rw [Option.map_some, normalizePath_cons]
      · rfl

theorem value_kstrcmpAt_name {text : List UInt8} (plain : 0 ∉ text) (short : text.length ≤ 100) {name : List UInt8}
    (named : entryName cwd archive start = some name) :
    (kstrcmpAt start text).value archive = some (decide (name = text)) := by
  unfold entryName at named
  dsimp only at named
  rw [value_kstrcmpAt plain]
  by_cases terminated : 0 ∈ archive.drop start
  · rw [if_pos terminated] at named ⊢
    cases named
    rfl
  rw [if_neg terminated] at named ⊢
  split_ifs at named with filled
  cases named
  have long := length_of_filled fits filled
  rw [List.length_dropLast] at long
  have apart : ¬archive.drop start <+: text := by
    intro agrees
    have most := agrees.length_le
    omega
  have other : archive.drop start ≠ text := by
    rintro rfl
    exact apart List.prefix_rfl
  rw [if_neg apart, decide_eq_false other]

omit fits in
theorem value_kstrcmpAt_unnamed {text : List UInt8} (plain : 0 ∉ text) (named : entryName cwd archive start = none) :
    (kstrcmpAt start text).value archive = none ∨ (kstrcmpAt start text).value archive = some false := by
  unfold entryName at named
  dsimp only at named
  rw [value_kstrcmpAt plain]
  split_ifs at named ⊢
  · exact Or.inl rfl
  · exact Or.inr rfl

theorem value_readNamed {cursor : Nat} (inside : cursor + 110 < archive.length) :
    (readNamed cwd archive.length (cursor + 110) (dataStart archive cursor) ((modeField archive cursor).getD 0)
        ((sizeField archive cursor).getD 0)).value archive =
      (entryName cwd archive (cursor + 110)).map (namedStep cwd archive cursor) := by
  have path := value_normalizePathAt fits inside
  rw [readNamed, value_bind]
  cases named : entryName cwd archive (cursor + 110) with
  | none =>
      rw [named] at path
      rcases value_kstrcmpAt_unnamed (show 0 ∉ ascii "TRAILER!!!" by decide) named with trailer | trailer
      · rw [trailer]
        rfl
      rw [trailer, Option.bind_some, value_ite, if_neg (by decide), value_bind]
      rcases value_kstrcmpAt_unnamed (show 0 ∉ ascii "." by decide) named with dot | dot
      · rw [dot]
        rfl
      rw [dot, Option.bind_some, value_ite, if_neg (by decide), value_bind, path]
      rfl
  | some name =>
      rw [named, Option.map_some] at path
      rw [value_kstrcmpAt_name fits (by decide) (by decide) named, Option.bind_some, value_ite, Option.map_some, namedStep]
      by_cases trailer : name = ascii "TRAILER!!!"
      · rw [if_pos (decide_eq_true trailer), if_pos trailer]
        rfl
      rw [if_neg (by simpa using trailer), if_neg trailer, value_bind,
        value_kstrcmpAt_name fits (by decide) (by decide) named, Option.bind_some, value_ite]
      by_cases dot : name = ascii "."
      · rw [if_pos (decide_eq_true dot), if_pos dot]
        rfl
      rw [if_neg (by simpa using dot), if_neg dot, value_bind, path, Option.bind_some, value_ite, value_ite]
      by_cases outside : archive.length < dataStart archive cursor + ((sizeField archive cursor).getD 0).toNat
      · rw [if_pos outside, if_pos outside]
        rfl
      rw [if_neg outside, if_neg outside, value_bind, value_bytesAt (Nat.not_lt.mp outside), Option.bind_some, entryData]
      split_ifs
      · rfl
      · rfl

/-- The reads of a round are those of the round of the model, which fails where one of them is outside. -/
theorem value_readEntry (cursor : Nat) :
    (readEntry cwd archive.length cursor).value archive = entryStep cwd archive cursor := by
  rw [readEntry, value_ite]
  by_cases header : cursor + 110 ≤ archive.length
  · have magicRead : (kstrncmpAt cursor (ascii "070701")).value archive =
        some (decide (slice archive cursor 6 = ascii "070701")) :=
      value_kstrncmpAt (by decide) (Nat.le_trans (Nat.add_le_add_left (by decide) cursor) header)
    rw [if_neg (Nat.not_lt.mpr header), value_bind, magicRead, Option.bind_some, value_ite]
    by_cases magic : slice archive cursor 6 = ascii "070701"
    · have fields {k : Nat} (within : k + 8 ≤ 110) : (parseCpioHexAt (cursor + k) 8 0).value archive =
          some (parseCpioHex (slice archive (cursor + k) 8)) :=
        value_parseCpioHexAt (by omega) 0
      rw [if_neg (by simpa using magic), value_bind, fields (by decide), Option.bind_some, value_bind, fields (by decide),
        Option.bind_some, value_bind, fields (by decide), Option.bind_some]
      rw [entryStep, value_ite]
      by_cases bad : (nameField archive cursor).getD 0 = 0 ∨
          archive.length < cursor + 110 + ((nameField archive cursor).getD 0).toNat
      · rw [if_neg (not_hasEntry_of_size bad), if_pos header]
        exact if_pos bad
      · obtain ⟨filled, within⟩ := not_or.mp bad
        have entry : HasEntry archive cursor := ⟨header, magic, filled, Nat.not_lt.mp within⟩
        rw [if_pos entry, ← value_readNamed fits entry.name_inside]
        exact if_neg bad
    · have noEntry : ¬HasEntry archive cursor := fun entry => magic entry.2.1
      rw [if_pos (by simpa using magic), entryStep, if_neg noEntry, if_pos header]
      rfl
  · have noEntry : ¬HasEntry archive cursor := fun entry => header entry.1
    rw [if_pos (Nat.lt_of_not_le header), entryStep, if_neg noEntry, if_neg header]
    rfl

end

/-! ## The loop -/

/-- The cursors the loop comes to. -/
inductive Visited (cwd archive : List UInt8) : Nat → Prop
  | start : Visited cwd archive 0
  | next {cursor after : Nat} (visited : Visited cwd archive cursor) {step : EntryStep}
      (round : (readEntry cwd archive.length cursor).value archive = some step) (moves : step.next = some after) :
      Visited cwd archive after

structure StaysInside (cwd archive : List UInt8) : Prop where
  returns : ∃ cursor code, Visited cwd archive cursor ∧
    (readEntry cwd archive.length cursor).value archive = some (.returns code)
  forward : ∀ cursor step after, Visited cwd archive cursor →
    (readEntry cwd archive.length cursor).value archive = some step → step.next = some after → cursor < after
  inside : ∀ cursor, Visited cwd archive cursor →
    ∀ i ∈ (readEntry cwd archive.length cursor).reads archive, i < archive.length

/-- The name has a terminator in the archive, or the bytes before the last one fill the buffer of `normalize_path`. -/
def NameEnds (cwd archive : List UInt8) (name : Nat) : Prop :=
  0 ∈ archive.drop name ∨ pathMax ≤ (normalizePath cwd (archive.drop name).dropLast).length + 1

section
variable {cwd archive : List UInt8} {cursor : Nat}

theorem entryName_isSome_iff (name : Nat) : (entryName cwd archive name).isSome ↔ NameEnds cwd archive name := by
  unfold entryName NameEnds
  dsimp only
  split_ifs with terminated filled
  · exact iff_of_true rfl (Or.inl terminated)
  · exact iff_of_true rfl (Or.inr filled)
  · exact iff_of_false (by simp) (not_or.mpr ⟨terminated, filled⟩)

theorem entryStep_isSome_iff :
    (entryStep cwd archive cursor).isSome ↔ (HasEntry archive cursor → NameEnds cwd archive (cursor + 110)) := by
  unfold entryStep
  split_ifs with entry header
  · rw [Option.isSome_map, entryName_isSome_iff]
    exact ⟨fun ends _ => ends, fun ends => ends entry⟩
  · exact iff_of_true rfl fun present => absurd present entry
  · exact iff_of_true rfl fun present => absurd present entry

theorem entryStep_next {step : EntryStep} {after : Nat} (round : entryStep cwd archive cursor = some step)
    (moves : step.next = some after) : HasEntry archive cursor ∧ after = nextEntry archive cursor := by
  rcases entryStep_cases round with rfl | rfl | ⟨name, entry, -, rfl | rfl⟩
  · cases moves
  · cases moves
  · exact ⟨entry, (Option.some.inj moves).symm⟩
  · exact ⟨entry, (Option.some.inj moves).symm⟩

/-- The header alone moves the cursor, as long as the size of the name does not wrap around. -/
theorem cursor_lt_nextEntry (small : archive.length < 2 ^ 32 - 256) (entry : HasEntry archive cursor) :
    cursor < nextEntry archive cursor := by
  obtain ⟨-, -, -, within⟩ := entry
  have sum : (110 + (nameField archive cursor).getD 0).toNat = 110 + ((nameField archive cursor).getD 0).toNat := by
    rw [UInt32.toNat_add, show (110 : UInt32).toNat = 110 from rfl]
    exact Nat.mod_eq_of_lt (by omega)
  have aligned := le_align4 (110 + ((nameField archive cursor).getD 0).toNat)
  have start : dataStart archive cursor = cursor + align4 (110 + ((nameField archive cursor).getD 0).toNat) := by
    rw [dataStart, alignSize_toNat (by omega), sum]
  rw [nextEntry, start]
  omega

variable (fits : cwd.length < cwdSize) (small : archive.length < 2 ^ 32 - 256)
include fits small

theorem cursor_lt_of_next {step : EntryStep} {after : Nat}
    (round : (readEntry cwd archive.length cursor).value archive = some step) (moves : step.next = some after) :
    cursor < after := by
  rw [value_readEntry fits] at round
  obtain ⟨entry, rfl⟩ := entryStep_next round moves
  exact cursor_lt_nextEntry small entry

/-- The bytes left before the limit bound the rounds. -/
theorem returns_of_ends (ends : ∀ cursor, Visited cwd archive cursor → HasEntry archive cursor →
      NameEnds cwd archive (cursor + 110)) (left : Nat) (visited : Visited cwd archive cursor)
    (bound : archive.length ≤ cursor + left) :
    ∃ last code, Visited cwd archive last ∧ (readEntry cwd archive.length last).value archive = some (.returns code) := by
  induction left generalizing cursor with
  | zero =>
      have noEntry : ¬HasEntry archive cursor := fun entry => absurd entry.1 (by omega)
      refine ⟨cursor, 0, visited, ?_⟩
      rw [value_readEntry fits, entryStep, if_neg noEntry, if_neg (by omega)]
  | succ left ih =>
      have proceeds : ((readEntry cwd archive.length cursor).value archive).isSome := by
        rw [value_readEntry fits, entryStep_isSome_iff]
        exact ends cursor visited
      obtain ⟨step, round⟩ := Option.isSome_iff_exists.mp proceeds
      cases moves : step.next with
      | none =>
          cases step with
          | returns code => exact ⟨cursor, code, visited, round⟩
          | skip after => cases moves
          | mount path mode data after => cases moves
      | some after =>
          have advances := cursor_lt_of_next fits small round moves
          exact ih (visited.next round moves) (by omega)

/-- The loop ends without a read outside the archive exactly when every name it comes to ends inside. -/
theorem mount_stays_inside_iff :
    StaysInside cwd archive ↔
      ∀ cursor, Visited cwd archive cursor → HasEntry archive cursor → NameEnds cwd archive (cursor + 110) := by
  have roundReads (cursor : Nat) : (∀ i ∈ (readEntry cwd archive.length cursor).reads archive, i < archive.length) ↔
      (HasEntry archive cursor → NameEnds cwd archive (cursor + 110)) := by
    rw [reads_inside_iff, value_readEntry fits, entryStep_isSome_iff]
  constructor
  · intro stays cursor visited
    exact (roundReads cursor).mp (stays.inside cursor visited)
  · intro ends
    constructor
    · exact returns_of_ends fits small ends archive.length .start (Nat.le_add_left _ _)
    · intro cursor step after _ round moves
      exact cursor_lt_of_next fits small round moves
    · intro cursor visited
      exact (roundReads cursor).mpr (ends cursor visited)

end

theorem nameEnds_of_last_zero {archive : List UInt8} (last : archive.getLast? = some 0) (cwd : List UInt8) {cursor : Nat}
    (entry : HasEntry archive cursor) : NameEnds cwd archive (cursor + 110) := by
  have inside := entry.name_inside
  refine Or.inl (List.mem_of_getLast? ?_)
  rw [List.getLast?_drop, if_neg (Nat.not_le.mpr inside)]
  exact last

theorem mount_stays_inside_iff_sample :
    (ascii "/").length < cwdSize ∧ (writeEntry ['x'] regMode []).length < 2 ^ 32 - 256 ∧
      StaysInside (ascii "/") (writeEntry ['x'] regMode []) := by
  have fits : (ascii "/").length < cwdSize := by decide
  have length : (writeEntry ['x'] regMode []).length = 112 := by decide +kernel
  have small : (writeEntry ['x'] regMode []).length < 2 ^ 32 - 256 := by
    rw [length]
    decide
  refine ⟨fits, small, (mount_stays_inside_iff fits small).mpr fun cursor _ entry => ?_⟩
  exact nameEnds_of_last_zero (by decide +kernel) (ascii "/") entry

/-- A header that announces a name of one byte, and that byte without a terminator. -/
def cutArchive : List UInt8 := entryHeader [] regMode [] ++ ascii "x"

theorem unterminated_name_read_outside :
    cutArchive.length < 2 ^ 32 - 256 ∧ ¬StaysInside (ascii "/") cutArchive := by
  have length : cutArchive.length = 111 := by decide +kernel
  have read : 111 ∈ (readEntry (ascii "/") cutArchive.length 0).reads cutArchive := by decide +kernel
  constructor
  · rw [length]
    decide
  · intro stays
    have inside := stays.inside 0 .start 111 read
    rw [length] at inside
    exact absurd inside (by decide)

end Mgcore
