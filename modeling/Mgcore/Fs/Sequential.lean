import Mgcore.Fs.Bounds

/-!
# Descriptors and the sequential file model

The reference model is a byte string with a cursor that every read and write advances. `fs_read_fd` advances
the offset of the open file and `fs_lseek_fd` sets it, but `fs_write_fd` leaves it where it was: after a write
of at least one byte the descriptor is stale until the next seek to an absolute position. As long as no
operation uses a stale offset the descriptor follows the model.
-/

namespace Mgcore
open Function

inductive Whence
  | set | cur | fromEnd
  deriving DecidableEq

def Whence.code : Whence → Int
  | .set => seekSET
  | .cur => seekCUR
  | .fromEnd => seekEND

inductive FileOp
  | read (count : Nat)
  | write (buffer : List UInt8)
  | seek (offset : Int) (whence : Whence)

/-! ## The reference model -/

structure RefFile where
  text : List UInt8
  cursor : Nat

def seekTarget (cursor size : Nat) (offset : Int) : Whence → Int
  | .set => offset
  | .cur => cursor + offset
  | .fromEnd => size + offset

def RefFile.step (file : RefFile) : FileOp → (Int × List UInt8) × RefFile
  | .read count =>
      let bytes := (file.text.drop file.cursor).take count
      ((bytes.length, bytes), { file with cursor := file.cursor + bytes.length })
  | .write buffer =>
      ((buffer.length, []),
        { text := Lib.overwrite 0 file.text file.cursor buffer, cursor := file.cursor + buffer.length })
  | .seek offset whence =>
      let target := seekTarget file.cursor file.text.length offset whence
      ((target, []), { file with cursor := target.toNat })

/-! ## The descriptor -/

def fdStep (fd : Int) (s : Fs) : FileOp → (Int × List UInt8) × Fs
  | .read count => fsReadFd s fd count
  | .write buffer => (((fsWriteFd s fd buffer).1, []), (fsWriteFd s fd buffer).2)
  | .seek offset whence => (((fsLseekFd s fd offset whence.code).1, []), (fsLseekFd s fd offset whence.code).2)

/-- No arithmetic wraps, the arena is not exhausted, and a seek goes to a position. -/
def SmallArgument (fd : Int) (s : Fs) : FileOp → Prop
  | .read _ => True
  | .write buffer => ∀ f i, OnFile s fd f i → (s.openFiles f).offset + buffer.length ≤ writeLimit ∧
      ¬Refused s.tmpfs i ((s.openFiles f).offset + buffer.length)
  | .seek offset whence => ∀ f i, OnFile s fd f i →
      let target := seekTarget (s.openFiles f).offset (s.tmpfs.nodes i).size offset whence
      0 ≤ target ∧ target < 2 ^ 63

def SmallArguments (fd : Int) : Fs → List FileOp → Prop
  | _, [] => True
  | s, op :: ops => SmallArgument fd s op ∧ SmallArguments fd (fdStep fd s op).2 ops

def nextStale (stale : Bool) : FileOp → Bool
  | .read _ => stale
  | .write buffer => stale || !buffer.isEmpty
  | .seek _ _ => false

def Fresh : Bool → FileOp → Prop
  | false, _ => True
  | true, .read count => count = 0
  | true, .write buffer => buffer = []
  | true, .seek _ whence => whence ≠ .cur

def NeverStale : Bool → List FileOp → Prop
  | _, [] => True
  | stale, op :: ops => Fresh stale op ∧ NeverStale (nextStale stale op) ops

structure Follows (fd : Int) (f i : Nat) (stale : Bool) (s : Fs) (file : RefFile) : Prop where
  onFile : OnFile s fd f i
  tables : TmpfsInv s.tmpfs
  text_eq : contents s.tmpfs i = some file.text
  offset_lt : (s.openFiles f).offset < wordSize
  in_step : stale = false → (s.openFiles f).offset = file.cursor
  behind : stale = true → (s.openFiles f).offset ≤ file.text.length ∧ file.cursor ≤ file.text.length

def seekOffset (cursor size : Nat) (offset : Int) : Whence → Nat
  | .set => toSize offset
  | .cur => (cursor + toSize offset) % wordSize
  | .fromEnd => (size + toSize offset) % wordSize

theorem seekOffset_eq {cursor size : Nat} {offset : Int} {whence : Whence}
    (target : 0 ≤ seekTarget cursor size offset whence ∧ seekTarget cursor size offset whence < 2 ^ 63) :
    seekOffset cursor size offset whence = (seekTarget cursor size offset whence).toNat := by
  cases whence with
  | set =>
      dsimp only [seekOffset, seekTarget, toSize, wordSize] at *
      omega
  | cur =>
      dsimp only [seekOffset, seekTarget, toSize, wordSize] at *
      omega
  | fromEnd =>
      dsimp only [seekOffset, seekTarget, toSize, wordSize] at *
      omega

theorem OnFile.fsLseekFd_code {s : Fs} {fd : Int} {f i : Nat} (onFile : OnFile s fd f i) (offset : Int)
    (whence : Whence) :
    fsLseekFd s fd offset whence.code =
      (toSigned (seekOffset (s.openFiles f).offset (s.tmpfs.nodes i).size offset whence),
        s.setFile f { s.openFiles f with
          offset := seekOffset (s.openFiles f).offset (s.tmpfs.nodes i).size offset whence }) := by
  rw [onFile.fsLseekFd_eq]
  cases whence with
  | set => rfl
  | cur => rfl
  | fromEnd => rfl

theorem OnFile.setOffset {s : Fs} {fd : Int} {f i : Nat} (onFile : OnFile s fd f i) (offset : Nat) :
    OnFile (s.setFile f { s.openFiles f with offset := offset }) fd f i := by
  refine ⟨onFile.entry, ?_, onFile.bound, onFile.regular⟩
  rw [Fs.setFile_openFiles, update_self]
  exact onFile.node

theorem OnFile.setTmpfs {s : Fs} {fd : Int} {f i : Nat} (onFile : OnFile s fd f i) {t : Tmpfs}
    (regular : (t.nodes i).type = .file) : OnFile { s with tmpfs := t } fd f i :=
  ⟨onFile.entry, onFile.node, onFile.bound, regular⟩

namespace Follows
variable {fd : Int} {f i : Nat} {stale : Bool} {s : Fs} {file : RefFile}

theorem length_le (follows : Follows fd f i stale s file) : file.text.length ≤ arenaSize := by
  have region := follows.tables.storage.region_fits i
  have size := follows.tables.storage.size_le i
  rw [contents_length follows.text_eq]
  omega

theorem setOffset (follows : Follows fd f i stale s file) {offset cursor : Nat} {stale' : Bool}
    (fits : offset < wordSize) (inStep : stale' = false → offset = cursor)
    (behind : stale' = true → offset ≤ file.text.length ∧ cursor ≤ file.text.length) :
    Follows fd f i stale' (s.setFile f { s.openFiles f with offset := offset }) { file with cursor := cursor } := by
  refine ⟨follows.onFile.setOffset offset, follows.tables, follows.text_eq, ?_, ?_, ?_⟩ <;>
    rw [Fs.setFile_openFiles, update_self] <;> assumption

theorem read (follows : Follows fd f i stale s file) {count : Nat} (fresh : Fresh stale (.read count)) :
    (fdStep fd s (.read count)).1 = (file.step (.read count)).1 ∧
      Follows fd f i stale (fdStep fd s (.read count)).2 (file.step (.read count)).2 := by
  have length := follows.length_le
  have offset := follows.offset_lt
  have nonneg : ∀ n : Nat, (0 : Int) ≤ n := Int.natCast_nonneg
  have eq := follows.onFile.fsReadFd_eq count
  rw [follows.tables.storage.read_eq follows.onFile.bound follows.text_eq] at eq
  dsimp only at eq
  rw [if_pos (nonneg _), Int.toNat_natCast] at eq
  have noWrap : (s.openFiles f).offset + ((file.text.drop (s.openFiles f).offset).take count).length < wordSize := by
    rw [List.length_take, List.length_drop]
    unfold arenaSize at length
    unfold wordSize at offset ⊢
    omega
  rw [Nat.mod_eq_of_lt noWrap] at eq
  simp only [fdStep, eq, RefFile.step]
  cases stale with
  | false =>
      have cursor := follows.in_step rfl
      rw [cursor]
      refine ⟨rfl, follows.setOffset ?_ (fun _ => rfl) (fun stale => by cases stale)⟩
      rw [← cursor]
      exact noWrap
  | true =>
      have none : count = 0 := fresh
      subst none
      simp only [List.take_zero, List.length_nil, Nat.add_zero, true_and]
      exact follows.setOffset offset (fun fresh => by cases fresh) follows.behind

theorem write (follows : Follows fd f i stale s file) {buffer : List UInt8} (fresh : Fresh stale (.write buffer))
    (small : SmallArgument fd s (.write buffer)) :
    (fdStep fd s (.write buffer)).1 = (file.step (.write buffer)).1 ∧
      Follows fd f i (nextStale stale (.write buffer)) (fdStep fd s (.write buffer)).2
        (file.step (.write buffer)).2 := by
  obtain ⟨limit, accepted⟩ := small f i follows.onFile
  have tables := (follows.tables.write_cases i limit).1
  rcases follows.tables.storage.write_cases follows.onFile.bound follows.text_eq limit with
    ⟨-, grows, full⟩ | ⟨returned, -, changed⟩
  · exact absurd ⟨grows, full⟩ accepted
  · -- Both sides overwrite at the same place, or nothing at all.
    have text : Lib.overwrite 0 file.text (s.openFiles f).offset buffer =
        Lib.overwrite 0 file.text file.cursor buffer := by
      cases stale with
      | false => rw [follows.in_step rfl]
      | true =>
          have none : buffer = [] := fresh
          have inside := follows.behind rfl
          rw [none, Lib.overwrite_no_bytes _ inside.1, Lib.overwrite_no_bytes _ inside.2]
    have after : contents (tmpfsWriteNode s.tmpfs i buffer (s.openFiles f).offset).2 i =
        some (Lib.overwrite 0 file.text file.cursor buffer) := by
      rw [changed, update_self, text]
    simp only [fdStep, follows.onFile.fsWriteFd_eq, RefFile.step, returned, true_and]
    refine ⟨follows.onFile.setTmpfs (contents_eq_some after).1, tables, after, follows.offset_lt, ?_, ?_⟩
    · intro still
      simp only [nextStale, Bool.or_eq_false_iff, Bool.not_eq_false', List.isEmpty_iff] at still
      rw [follows.in_step still.1, still.2]
      rfl
    · intro _
      rw [Lib.overwrite_length]
      dsimp only
      cases stale with
      | false =>
          rw [follows.in_step rfl]
          omega
      | true =>
          have none : buffer = [] := fresh
          have inside := follows.behind rfl
          rw [none, List.length_nil]
          omega

theorem seek (follows : Follows fd f i stale s file) {offset : Int} {whence : Whence}
    (fresh : Fresh stale (.seek offset whence)) (small : SmallArgument fd s (.seek offset whence)) :
    (fdStep fd s (.seek offset whence)).1 = (file.step (.seek offset whence)).1 ∧
      Follows fd f i false (fdStep fd s (.seek offset whence)).2 (file.step (.seek offset whence)).2 := by
  have size := contents_length follows.text_eq
  have same : seekTarget (s.openFiles f).offset (s.tmpfs.nodes i).size offset whence =
      seekTarget file.cursor file.text.length offset whence := by
    cases stale with
    | false => rw [follows.in_step rfl, size]
    | true =>
        cases whence with
        | set => rfl
        | cur => exact absurd rfl fresh
        | fromEnd => rw [seekTarget, seekTarget, size]
  have target := small f i follows.onFile
  have eq := follows.onFile.fsLseekFd_code offset whence
  rw [seekOffset_eq target, same] at eq
  rw [same] at target
  simp only [fdStep, eq, RefFile.step]
  have below : (seekTarget file.cursor file.text.length offset whence).toNat < 2 ^ 63 := by omega
  refine ⟨by rw [toSigned_of_lt below, Int.toNat_of_nonneg target.1], ?_⟩
  exact follows.setOffset (by unfold wordSize; omega) (fun _ => rfl) (fun stale => by cases stale)

theorem step (follows : Follows fd f i stale s file) {op : FileOp} (small : SmallArgument fd s op)
    (fresh : Fresh stale op) :
    (fdStep fd s op).1 = (file.step op).1 ∧ Follows fd f i (nextStale stale op) (fdStep fd s op).2 (file.step op).2 := by
  cases op with
  | read count => exact follows.read fresh
  | write buffer => exact follows.write fresh small
  | seek offset whence => exact follows.seek fresh small

end Follows

theorem guarded_of_small {fd : Int} {s : Fs} {stale : Bool} {ops : List FileOp} (small : SmallArguments fd s ops)
    (fresh : NeverStale stale ops) :
    Lib.Guarded (fdStep fd) nextStale (fun stale s op => SmallArgument fd s op ∧ Fresh stale op) stale s ops := by
  induction ops generalizing s stale with
  | nil => trivial
  | cons op ops ih => exact ⟨⟨small.1, fresh.1⟩, ih small.2 fresh.2⟩

theorem fsRun_inv {console : Console} {s t : Fs} {calls : List (Fin maxTasks × FsCall)} (boots : fsBoot console = some s)
    (fits : Lib.Along fsStep StepFits s calls) (reaches : Lib.run fsStep s calls = some t) :
    TmpfsInv t.tmpfs ∧ ∀ f, (t.openFiles f).offset < wordSize := by
  have start : TmpfsInv s.tmpfs ∧ ∀ f, (s.openFiles f).offset < wordSize := by
    have booted := Booted.of_fsBoot boots
    refine ⟨booted.tables, fun f => ?_⟩
    rw [booted.files]
    exact (by decide : 0 < wordSize)
  have keeps : ∀ s op t, (TmpfsInv s.tmpfs ∧ ∀ f, (s.openFiles f).offset < wordSize) → StepFits s op →
      fsStep s op = some t → TmpfsInv t.tmpfs ∧ ∀ f, (t.openFiles f).offset < wordSize := by
    rintro s op t ⟨tables, offsets⟩ ok steps
    refine ⟨tables.fsStep ok steps, ?_⟩
    obtain ⟨⟨r, u⟩, returns, rfl⟩ := Option.map_eq_some_iff.mp steps
    exact fsCall_offsets (s := s.as op.1) offsets returns
  exact fits.invariant keeps start reaches

theorem fd_follows_sequential_file (console : Console) (s t : Fs) (boots : fsBoot console = some s)
    (calls : List (Fin maxTasks × FsCall)) (fits : Lib.Along fsStep StepFits s calls)
    (reaches : Lib.run fsStep s calls = some t) (caller : Fin maxTasks) (fd : Int) (f i : Nat)
    (onFile : OnFile (t.as caller) fd f i) (ops : List FileOp) (small : SmallArguments fd (t.as caller) ops)
    (fresh : NeverStale false ops) :
    ∃ text, contents t.tmpfs i = some text ∧
      let code := Lib.trace (fdStep fd) (t.as caller) ops
      let reference := Lib.trace RefFile.step ⟨text, (t.openFiles f).offset⟩ ops
      code.1 = reference.1 ∧ contents code.2.tmpfs i = some reference.2.text := by
  obtain ⟨tables, offsets⟩ := fsRun_inv boots fits reaches
  have file : contents t.tmpfs i = some _ := if_pos onFile.regular
  refine ⟨_, file, ?_⟩
  have start : Follows fd f i false (t.as caller) ⟨_, (t.openFiles f).offset⟩ :=
    ⟨onFile, tables, file, offsets f, fun _ => rfl, fun stale => by cases stale⟩
  have keeps : ∀ stale s file op, Follows fd f i stale s file → SmallArgument fd s op ∧ Fresh stale op →
      (fdStep fd s op).1 = (file.step op).1 ∧ Follows fd f i (nextStale stale op) (fdStep fd s op).2 (file.step op).2 :=
    fun _ _ _ _ follows ok => follows.step ok.1 ok.2
  obtain ⟨answers, last, follows⟩ := Lib.trace_simulates keeps start (guarded_of_small small fresh)
  exact ⟨answers, follows.text_eq⟩

def sequentialSample : List FileOp := [.write (ascii "hello"), .seek 0 .set, .read 3]

theorem fd_follows_sequential_file_sample :
    ∃ s t, fsBoot {} = some s ∧ Lib.run fsStep s openSample = some t ∧ OnFile (t.as 0) 3 0 9 ∧
      (Lib.trace (fdStep 3) (t.as 0) sequentialSample).1 = [(5, []), (0, []), (3, ascii "hel")] := by
  obtain ⟨t, reaches, onFile, offset, unallocated, empty⟩ := Lib.exists_of_check
    (P := fun t : Fs => OnFile (t.as 0) 3 0 9 ∧ (t.openFiles 0).offset = 0 ∧ t.tmpfs.dataOffset = 0 ∧
      contents t.tmpfs 9 = some [])
    (show ((fsBoot {}).bind fun s => Lib.run fsStep s openSample).map _ = some true by decide +kernel)
  obtain ⟨s, boots, reaches⟩ := Option.bind_eq_some_iff.mp reaches
  have fits : Lib.Along fsStep StepFits s openSample :=
    ⟨fun _ _ isWrite => (nomatch isWrite), fun _ _ => trivial⟩
  have small : SmallArguments 3 (t.as 0) sequentialSample := by
    refine ⟨fun f i there => ?_, fun f i _ => (by decide : (0 : Int) ≤ 0 ∧ (0 : Int) < 2 ^ 63), trivial, trivial⟩
    cases Option.some.inj (onFile.entry.symm.trans there.entry)
    rw [Fs.as_openFiles, offset]
    refine ⟨by decide, fun refused => ?_⟩
    have full := refused.2
    rw [Fs.as_tmpfs, unallocated] at full
    exact absurd full (by decide +kernel)
  have fresh : NeverStale false sequentialSample := ⟨trivial, (by decide : Whence.set ≠ Whence.cur), trivial, trivial⟩
  obtain ⟨text, file, answers, -⟩ := fd_follows_sequential_file {} s t boots openSample fits reaches 0 3 0 9 onFile
    sequentialSample small fresh
  refine ⟨s, t, boots, reaches, onFile, ?_⟩
  rw [empty, Option.some.injEq] at file
  rw [answers, ← file, offset]
  decide +kernel

/-- Two writes through one descriptor: the second lands on the first. -/
theorem fd_write_keeps_offset :
    ∃ s t, fsBoot {} = some s ∧ Lib.run fsStep s openSample = some t ∧ OnFile (t.as 0) 3 0 9 ∧
      (t.openFiles 0).offset = 0 ∧ contents t.tmpfs 9 = some [] ∧
      let ops := [FileOp.write (ascii "a"), FileOp.write (ascii "b")]
      SmallArguments 3 (t.as 0) ops ∧
        contents (Lib.trace (fdStep 3) (t.as 0) ops).2.tmpfs 9 = some (ascii "b") ∧
        (Lib.trace RefFile.step ⟨[], 0⟩ ops).2.text = ascii "ab" := by
  obtain ⟨t, reaches, onFile, offset, unallocated, empty, written, onFile', offset', capacity⟩ := Lib.exists_of_check
    (P := fun t : Fs => OnFile (t.as 0) 3 0 9 ∧ (t.openFiles 0).offset = 0 ∧ t.tmpfs.dataOffset = 0 ∧
      contents t.tmpfs 9 = some [] ∧
      contents (Lib.trace (fdStep 3) (t.as 0) [.write (ascii "a"), .write (ascii "b")]).2.tmpfs 9 = some (ascii "b") ∧
      OnFile (fdStep 3 (t.as 0) (.write (ascii "a"))).2 3 0 9 ∧
      ((fdStep 3 (t.as 0) (.write (ascii "a"))).2.openFiles 0).offset = 0 ∧
      ((fdStep 3 (t.as 0) (.write (ascii "a"))).2.tmpfs.nodes 9).capacity = 256)
    (show ((fsBoot {}).bind fun s => Lib.run fsStep s openSample).map _ = some true by decide +kernel)
  obtain ⟨s, boots, reaches⟩ := Option.bind_eq_some_iff.mp reaches
  refine ⟨s, t, boots, reaches, onFile, offset, empty, ⟨fun f i there => ?_, fun f i there => ?_, trivial⟩, written,
    by decide +kernel⟩
  · cases Option.some.inj (onFile.entry.symm.trans there.entry)
    rw [Fs.as_openFiles, offset]
    refine ⟨by decide, fun refused => ?_⟩
    have full := refused.2
    rw [Fs.as_tmpfs, unallocated] at full
    exact absurd full (by decide +kernel)
  · cases Option.some.inj (onFile'.entry.symm.trans there.entry)
    cases Int.ofNat.inj (onFile'.node.symm.trans there.node)
    rw [offset']
    refine ⟨by decide, fun refused => ?_⟩
    have grows := refused.1
    rw [capacity] at grows
    exact absurd grows (by decide)

end Mgcore
