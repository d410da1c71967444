import Mgcore.Initramfs.Model

/-!
# The entries of an archive

What one round of the loop of `fs_mount_initramfs` does is decided by the archive alone; the tmpfs only takes what is
unpacked. `entryStep` is the round without the tmpfs, and `mountLoop_succ` puts the two together again.
-/

namespace Mgcore

open Lib

/-- What a round comes to: it returns, it passes over the entry of the root, or it unpacks an entry. -/
inductive EntryStep
  | returns (code : Int)
  | skip (next : Nat)
  | mount (path : List UInt8) (mode : UInt32) (data : List UInt8) (next : Nat)
  deriving DecidableEq

def EntryStep.next : EntryStep → Option Nat
  | returns _ => none
  | skip next => some next
  | mount _ _ _ next => some next

abbrev ModeIsDir (mode : UInt32) : Prop := mode &&& 0o170000 = 0o040000

section
variable (cwd archive : List UInt8) (cursor : Nat)

def modeField : Option UInt32 := parseCpioHex (slice archive (cursor + 14) 8)
def sizeField : Option UInt32 := parseCpioHex (slice archive (cursor + 54) 8)
def nameField : Option UInt32 := parseCpioHex (slice archive (cursor + 94) 8)

def dataStart : Nat := cursor + (alignSize (110 + (nameField archive cursor).getD 0)).toNat

def nextEntry : Nat := dataStart archive cursor + (alignSize ((sizeField archive cursor).getD 0)).toNat

def HasEntry : Prop :=
  cursor + 110 ≤ archive.length ∧ slice archive cursor 6 = ascii "070701" ∧
    (nameField archive cursor).getD 0 ≠ 0 ∧ cursor + 110 + ((nameField archive cursor).getD 0).toNat ≤ archive.length

instance : Decidable (HasEntry archive cursor) := inferInstanceAs (Decidable (_ ∧ _))

/-- The data of a directory is not looked at. -/
def entryData : List UInt8 :=
  if ModeIsDir ((modeField archive cursor).getD 0) then []
  else slice archive (dataStart archive cursor) ((sizeField archive cursor).getD 0).toNat

def namedStep (name : List UInt8) : EntryStep :=
  if name = ascii "TRAILER!!!" then .returns 0
  else if name = ascii "." then .skip (nextEntry archive cursor)
  else if archive.length < dataStart archive cursor + ((sizeField archive cursor).getD 0).toNat then .returns (-eINVAL)
  else .mount (normalizePath cwd name) ((modeField archive cursor).getD 0) (entryData archive cursor)
    (nextEntry archive cursor)

def entryStep : Option EntryStep :=
  if HasEntry archive cursor then (entryName cwd archive (cursor + 110)).map (namedStep cwd archive cursor)
  else if cursor + 110 ≤ archive.length then some (.returns (-eINVAL))
  else some (.returns 0)

end

section
variable {cwd archive : List UInt8} {cursor : Nat}

theorem not_hasEntry_of_size (bad : (nameField archive cursor).getD 0 = 0 ∨
    archive.length < cursor + 110 + ((nameField archive cursor).getD 0).toNat) : ¬HasEntry archive cursor := by
  rintro ⟨-, -, filled, inside⟩
  exact bad.elim filled (Nat.not_lt.mpr inside)

theorem HasEntry.name_inside (entry : HasEntry archive cursor) : cursor + 110 < archive.length := by
  obtain ⟨-, -, filled, within⟩ := entry
  have positive : 0 < ((nameField archive cursor).getD 0).toNat := Nat.pos_of_ne_zero fun zero =>
    filled (UInt32.toNat_inj.mp zero)
  omega

/-- Everything a round can come to. -/
theorem entryStep_cases {step : EntryStep} (round : entryStep cwd archive cursor = some step) :
    step = .returns 0 ∨ step = .returns (-eINVAL) ∨
    ∃ name, HasEntry archive cursor ∧ entryName cwd archive (cursor + 110) = some name ∧
      (step = .skip (nextEntry archive cursor) ∨
        step = .mount (normalizePath cwd name) ((modeField archive cursor).getD 0) (entryData archive cursor)
          (nextEntry archive cursor)) := by
  unfold entryStep at round
  split_ifs at round with entry
  · obtain ⟨name, named, result⟩ := Option.map_eq_some_iff.mp round
    unfold namedStep at result
    split_ifs at result
    · exact Or.inl result.symm
    · exact Or.inr (Or.inr ⟨name, entry, named, Or.inl result.symm⟩)
    · exact Or.inr (Or.inl result.symm)
    · exact Or.inr (Or.inr ⟨name, entry, named, Or.inr result.symm⟩)
  · exact Or.inr (Or.inl (Option.some.inj round).symm)
  · exact Or.inl (Option.some.inj round).symm

end

theorem mountNode_entryData (archive : List UInt8) (cursor : Nat) (s : Tmpfs) (path : List UInt8) :
    mountNode s path ((modeField archive cursor).getD 0) (entryData archive cursor) =
      mountNode s path ((modeField archive cursor).getD 0)
        (slice archive (dataStart archive cursor) ((sizeField archive cursor).getD 0).toNat) := by
  by_cases isDir : ModeIsDir ((modeField archive cursor).getD 0)
  · rw [mountNode, mountNode, if_pos isDir, if_pos isDir]
  · rw [entryData, if_neg isDir]

theorem mountLoop_succ (cwd archive : List UInt8) (fuel cursor : Nat) (s : Tmpfs) :
    mountLoop cwd archive (fuel + 1) cursor s = (entryStep cwd archive cursor).bind fun step =>
      match step with
      | .returns code => some (code, s)
      | .skip next => mountLoop cwd archive fuel next s
      | .mount path mode data next => (mountNode s path mode data).bind (mountLoop cwd archive fuel next) := by
  rw [mountLoop]
  by_cases header : cursor + 110 ≤ archive.length
  · rw [if_pos header]
    by_cases magic : slice archive cursor 6 = ascii "070701"
    · rw [if_neg (not_not.mpr magic)]
      dsimp only
      by_cases bad : (nameField archive cursor).getD 0 = 0 ∨
          archive.length < cursor + 110 + ((nameField archive cursor).getD 0).toNat
      · rw [entryStep, if_neg (not_hasEntry_of_size bad), if_pos header]
        exact if_pos bad
      · obtain ⟨filled, inside⟩ := not_or.mp bad
        refine (if_neg bad).trans ?_
        rw [entryStep, if_pos ⟨header, magic, filled, Nat.not_lt.mp inside⟩]
        cases entryName cwd archive (cursor + 110) with
        | none => rfl
        | some name =>
            rw [Option.map_some, Option.bind_some, namedStep]
            change (if name = ascii "TRAILER!!!" then some (0, s)
              else if name = ascii "." then mountLoop cwd archive fuel (nextEntry archive cursor) s
              else if archive.length < dataStart archive cursor + ((sizeField archive cursor).getD 0).toNat then
                some (-eINVAL, s)
              else _) = _
            split_ifs
            · rfl
            · rfl
            · rfl
            · dsimp only
              rw [mountNode_entryData]
              rfl
    · have noEntry : ¬HasEntry archive cursor := fun entry => magic entry.2.1
      rw [if_pos magic, entryStep, if_neg noEntry, if_pos header]
      rfl
  · have noEntry : ¬HasEntry archive cursor := fun entry => header entry.1
    rw [if_neg header, entryStep, if_neg noEntry, if_neg header]
    rfl

end Mgcore
