import Mgcore.Fs.Kernel
import Mgcore.Fs.Sequential

/-!
# Seeking

`fs_lseek_fd` adds a signed argument to an unsigned offset, stores the sum modulo the word size and returns it as a
signed number. It is exact as long as each position asked for is one that a signed word can hold; otherwise the offset
has moved although the call reports an error.
-/

namespace Mgcore
open Function Lib

inductive SeekOp
  | lseek (offset : Int64) (whence : Int32)
  | read (count : UInt64)

def seekStep (fd : Int) (s : Fs) : SeekOp → Fs
  | .lseek offset whence => (fsLseekFd s fd offset.toInt whence.toInt).2
  | .read count => (fsReadFd s fd count.toNat).2

/-- `normalize_result` of `lib/libc/syscall.c`: the value, and what is stored in `errno`. -/
def normalizeResult (result : Int) : Int × Option Int :=
  if result < 0 ∧ -4096 < result then (-1, some (-result)) else (result, none)

def whenceOf (whence : Int) : Option Whence :=
  if whence = seekSET then some .set
  else if whence = seekCUR then some .cur
  else if whence = seekEND then some .fromEnd
  else none

def fileSize (s : Fs) (f : Nat) : Nat := (s.tmpfs.node (s.openFiles f).nodeId).size

structure LseekExact (fd : Int) (f : Nat) (s : Fs) (offset whence : Int) : Prop where
  failed : (fsLseekFd s fd offset whence).1 < 0 →
    ((fsLseekFd s fd offset whence).2.openFiles f).offset = (s.openFiles f).offset
  exact : 0 ≤ (fsLseekFd s fd offset whence).1 →
    (fsLseekFd s fd offset whence).1 = ((fsLseekFd s fd offset whence).2.openFiles f).offset ∧
    ∃ w, whenceOf whence = some w ∧
      (fsLseekFd s fd offset whence).1 = seekTarget (s.openFiles f).offset (fileSize s f) offset w
  reported : whenceOf whence ≠ none →
    normalizeResult (fsLseekFd s fd offset whence).1 = ((fsLseekFd s fd offset whence).1, none)

def StepExact (fd : Int) (s : Fs) (op : SeekOp) : Prop :=
  ∀ f, lookupFile s fd = some f →
    (∀ offset whence, op = .lseek offset whence → LseekExact fd f s offset.toInt whence.toInt) ∧
    ((seekStep fd s op).openFiles f).offset < 2 ^ 63

/-- How far a read moves the offset. -/
def readAdvance (s : Fs) (f count : Nat) : Nat :=
  let node := s.tmpfs.node (s.openFiles f).nodeId
  let n := min count (node.size - (s.openFiles f).offset)
  if node.type = .file ∧ n < 2 ^ 63 then n else 0

/-- The position asked for is one that a signed word can hold. -/
def SeekInRange (fd : Int) (s : Fs) : SeekOp → Prop
  | .lseek offset whence => ∀ f, lookupFile s fd = some f → ∀ w, whenceOf whence.toInt = some w →
      0 ≤ seekTarget (s.openFiles f).offset (fileSize s f) offset.toInt w ∧
        seekTarget (s.openFiles f).offset (fileSize s f) offset.toInt w < 2 ^ 63
  | .read count => ∀ f, lookupFile s fd = some f → (s.openFiles f).offset + readAdvance s f count.toNat < 2 ^ 63

instance (fd : Int) (s : Fs) (op : SeekOp) : Decidable (SeekInRange fd s op) :=
  match op with
  | .lseek _ whence => inferInstanceAs (Decidable (∀ f ∈ lookupFile s fd, ∀ w ∈ whenceOf whence.toInt, _ ∧ _))
  | .read _ => inferInstanceAs (Decidable (∀ f ∈ lookupFile s fd, _ < _))

/-! ## One call -/

structure OnNode (s : Fs) (fd : Int) (f i : Nat) : Prop where
  entry : lookupFile s fd = some f
  node : (s.openFiles f).nodeId = i
  bound : i < maxNodes
  used : InUse s.tmpfs i

namespace OnNode
variable {s : Fs} {fd : Int} {f i : Nat}

theorem get_node (onNode : OnNode s fd f i) : tmpfsGetNode s.tmpfs i = some (s.tmpfs.nodes i) :=
  tmpfsGetNode_natCast onNode.bound onNode.used

theorem fileSize_eq (onNode : OnNode s fd f i) : fileSize s f = (s.tmpfs.nodes i).size := by
  rw [fileSize, onNode.node, Tmpfs.node_natCast]

theorem setOffset (onNode : OnNode s fd f i) (offset : Nat) :
    OnNode (s.setFile f { s.openFiles f with offset := offset }) fd f i := by
  refine ⟨onNode.entry, ?_, onNode.bound, onNode.used⟩
  rw [Fs.setFile_openFiles, update_self]
  exact onNode.node

theorem fsLseekFd_eq (onNode : OnNode s fd f i) (offset whence : Int) :
    fsLseekFd s fd offset whence = (whenceOf whence).elim (-eINVAL, s) fun w =>
      let target := seekOffset (s.openFiles f).offset (fileSize s f) offset w
      (toSigned target, s.setFile f { s.openFiles f with offset := target }) := by
  rw [onNode.fileSize_eq]
  simp only [fsLseekFd, onNode.entry, onNode.node, onNode.get_node, whenceOf]
  split_ifs
  · rfl
  · rfl
  · rfl
  · rfl

theorem fsReadFd_offset (onNode : OnNode s fd f i) (small : (s.openFiles f).offset < 2 ^ 63) (count : UInt64) :
    ∃ console, (fsReadFd s fd count.toNat).2 = { s with console := console }.setFile f
      { s.openFiles f with offset := (s.openFiles f).offset + readAdvance s f count.toNat } := by
  have rests {console : Console} {t : Fs} (none : readAdvance s f count.toNat = 0) (same : t = { s with console := console }) :
      t = { s with console := console }.setFile f
        { s.openFiles f with offset := (s.openFiles f).offset + readAdvance s f count.toNat } := by
    rw [none, Nat.add_zero, Fs.setFile, update_eq_self, same]
  have node : s.tmpfs.node (s.openFiles f).nodeId = s.tmpfs.nodes i := by rw [onNode.node, Tmpfs.node_natCast]
  by_cases regular : (s.tmpfs.nodes i).type = .file
  · have onFile : OnFile s fd f i := ⟨onNode.entry, onNode.node, onNode.bound, regular⟩
    have fits : min count.toNat ((s.tmpfs.nodes i).size - (s.openFiles f).offset) < wordSize :=
      Nat.lt_of_le_of_lt (Nat.min_le_left _ _) count.toNat_lt
    refine ⟨s.console, ?_⟩
    rw [onFile.fsReadFd_eq]
    dsimp only
    rw [onFile.read_value]
    by_cases positive : min count.toNat ((s.tmpfs.nodes i).size - (s.openFiles f).offset) < 2 ^ 63
    · have advance : readAdvance s f count.toNat =
          min count.toNat ((s.tmpfs.nodes i).size - (s.openFiles f).offset) := by
        rw [readAdvance, node]
        exact if_pos ⟨regular, positive⟩
      have total : (s.openFiles f).offset + readAdvance s f count.toNat < wordSize := by
        rw [advance]
        unfold wordSize
        omega
      rw [if_pos ((toSigned_nonneg fits).mpr positive), toSigned_of_lt positive, Int.toNat_natCast, ← advance,
        Nat.mod_eq_of_lt total]
    · have none : readAdvance s f count.toNat = 0 := by
        rw [readAdvance, node]
        exact if_neg fun both => positive both.2
      rw [if_neg (mt (toSigned_nonneg fits).mp positive)]
      exact rests none rfl
  · have none : readAdvance s f count.toNat = 0 := by
      rw [readAdvance, node]
      exact if_neg fun both => regular both.1
    have refused : tmpfsReadNode s.tmpfs i count.toNat (s.openFiles f).offset = (-eISDIR, []) := by
      rw [tmpfsReadNode, onNode.get_node]
      exact if_pos regular
    have negative : ¬0 ≤ -eISDIR := by decide
    have quiet : ∃ console, (fsReadFd s fd count.toNat).2 = { s with console := console } := by
      simp only [fsReadFd, onNode.entry, onNode.node, onNode.get_node, refused, if_neg negative]
      split_ifs
      · exact ⟨s.console, rfl⟩
      · exact ⟨_, rfl⟩
      · exact ⟨s.console, rfl⟩
    obtain ⟨console, same⟩ := quiet
    exact ⟨console, rests none same⟩

/-! ## One step -/

theorem seekOffset_mod (cursor size : Nat) (offset : Int) (w : Whence) :
    (seekOffset cursor size offset w : Int) = seekTarget cursor size offset w % 2 ^ 64 := by
  cases w with
  | set =>
      dsimp only [seekOffset, seekTarget, toSize, wordSize]
      omega
  | cur =>
      dsimp only [seekOffset, seekTarget, toSize, wordSize]
      omega
  | fromEnd =>
      dsimp only [seekOffset, seekTarget, toSize, wordSize]
      omega

theorem lseekExact_iff (onNode : OnNode s fd f i) (offset : Int) {whence : Int} {w : Whence}
    (valid : whenceOf whence = some w) :
    (LseekExact fd f s offset whence ∧ ((fsLseekFd s fd offset whence).2.openFiles f).offset < 2 ^ 63) ↔
      0 ≤ seekTarget (s.openFiles f).offset (fileSize s f) offset w ∧
        seekTarget (s.openFiles f).offset (fileSize s f) offset w < 2 ^ 63 := by
  obtain ⟨target, stored⟩ : ∃ target, target = seekOffset (s.openFiles f).offset (fileSize s f) offset w := ⟨_, rfl⟩
  have call := onNode.fsLseekFd_eq offset whence
  rw [valid, Option.elim_some, ← stored] at call
  have result : (fsLseekFd s fd offset whence).1 = toSigned target := by rw [call]
  have after : ((fsLseekFd s fd offset whence).2.openFiles f).offset = target := by
    rw [call, Fs.setFile_openFiles, update_self]
  have wraps := seekOffset_mod (s.openFiles f).offset (fileSize s f) offset w
  rw [← stored] at wraps
  rw [after]
  constructor
  · rintro ⟨exact, bounded⟩
    -- a position that fits is returned as it is, and is then the one asked for
    have value := toSigned_of_lt bounded
    obtain ⟨-, w', same, asked⟩ := exact.exact (by rw [result, value]; exact Int.natCast_nonneg target)
    cases valid.symm.trans same
    rw [result, value] at asked
    omega
  · intro range
    have here : (target : Int) = seekTarget (s.openFiles f).offset (fileSize s f) offset w := by omega
    have value : toSigned target = target := toSigned_of_lt (by omega)
    refine ⟨⟨fun negative => ?_, fun _ => ?_, fun _ => ?_⟩, by omega⟩
    · rw [result, value] at negative
      omega
    · rw [after, result, value]
      exact ⟨rfl, w, valid, here⟩
    · rw [result, value, normalizeResult, if_neg]
      rintro ⟨negative, -⟩
      omega

theorem stepExact_iff (onNode : OnNode s fd f i) (small : (s.openFiles f).offset < 2 ^ 63) (op : SeekOp) :
    StepExact fd s op ↔ SeekInRange fd s op := by
  have only {g : Nat} (entry : lookupFile s fd = some g) : g = f := Option.some.inj (entry.symm.trans onNode.entry)
  cases op with
  | read count =>
      obtain ⟨console, after⟩ := onNode.fsReadFd_offset small count
      have moved : ((seekStep fd s (.read count)).openFiles f).offset =
          (s.openFiles f).offset + readAdvance s f count.toNat := by
        rw [seekStep, after, Fs.setFile_openFiles, update_self]
      constructor
      · intro exact g entry
        cases only entry
        rw [← moved]
        exact (exact f onNode.entry).2
      · intro range g entry
        cases only entry
        constructor
        · intro offset whence isSeek
          cases isSeek
        · rw [moved]
          exact range f onNode.entry
  | lseek offset whence =>
      cases valid : whenceOf whence.toInt with
      | none =>
          have call := onNode.fsLseekFd_eq offset.toInt whence.toInt
          rw [valid, Option.elim_none] at call
          constructor
          · intro _ g _ w named
            rw [valid] at named
            cases named
          · intro _ g entry
            cases only entry
            rw [seekStep, call]
            refine ⟨fun _ _ same => ?_, small⟩
            cases same
            refine ⟨fun _ => by rw [call], fun nonneg => ?_, fun named => absurd valid named⟩
            rw [call] at nonneg
            exact absurd nonneg (show ¬0 ≤ -eINVAL by decide)
      | some w =>
          have exactly := onNode.lseekExact_iff offset.toInt valid
          constructor
          · intro exact g entry w' named
            cases only entry
            cases valid.symm.trans named
            exact exactly.mp ⟨(exact f onNode.entry).1 offset whence rfl, (exact f onNode.entry).2⟩
          · intro range g entry
            cases only entry
            obtain ⟨exact, bounded⟩ := exactly.mpr (range f onNode.entry w valid)
            refine ⟨fun _ _ same => ?_, bounded⟩
            cases same
            exact exact

theorem step (onNode : OnNode s fd f i) (small : (s.openFiles f).offset < 2 ^ 63) (op : SeekOp) :
    OnNode (seekStep fd s op) fd f i := by
  cases op with
  | read count =>
      obtain ⟨console, after⟩ := onNode.fsReadFd_offset small count
      rw [seekStep, after]
      have other : OnNode { s with console := console } fd f i :=
        ⟨onNode.entry, onNode.node, onNode.bound, onNode.used⟩
      exact other.setOffset _
  | lseek offset whence =>
      rw [seekStep, onNode.fsLseekFd_eq]
      cases whenceOf whence.toInt with
      | none => exact onNode
      | some w => exact onNode.setOffset _

end OnNode

/-! ## From an open -/

theorem openNode_used {s u : Tmpfs} (inv : TreeInv s) {resolved : List UInt8} {flags mode : UInt32} {i : Nat}
    (opens : openNode s resolved flags mode = some ((i : Int), u)) : TreeInv u ∧ InUse u i := by
  rcases openNode_cases opens with ⟨rfl, found⟩ | ⟨-, created⟩
  · exact ⟨inv, inv.resolvePath_used found⟩
  · refine ⟨inv.create (by simp) created, ?_⟩
    rcases tmpfsCreatePath_cases created with ⟨rfl, negative | found⟩ |
      ⟨e, parent, leaf, p, id, -, -, -, -, isDir, free, same, rfl⟩
    · omega
    · exact inv.resolvePath_used found
    · cases Int.ofNat_inj.mp same
      have other : p ≠ i := dir_ne_free isDir (freeSlot_spec free).1
      rw [InUse, insertChild_type other, if_pos rfl]
      simp

theorem OnNode.opened {s t : Fs} (inv : TreeInv s.tmpfs) {path : List UInt8} {flags mode : UInt32} {fd : Int}
    (returns : fsOpenPath s path flags mode = some (fd, t)) (succeeded : 0 ≤ fd) :
    ∃ f i, OnNode t fd f i ∧ (t.openFiles f).offset = 0 := by
  obtain ⟨nodeId, u, opens, ⟨failed, -⟩ | ⟨failed, -⟩ | ⟨f, slot, found, -, free, rfl, after⟩⟩ := fsOpenPath_cases returns
  · omega
  · omega
  obtain ⟨i, rfl⟩ := Int.eq_ofNat_of_zero_le found
  obtain ⟨tree, used⟩ := openNode_used inv opens
  have nodes : t.tmpfs = u := by rw [after, Fs.setFd_tmpfs, Fs.setFile_tmpfs]
  have entry : lookupFile (t.as s.tasks.currentIndex) slot = some f := by
    apply lookupFile_as.mpr
    refine ⟨slot, rfl, (freeFd_spec free).2.2, ?_⟩
    rw [after, Fs.setFd_fds]
    exact if_pos ⟨rfl, rfl⟩
  have current : t.tasks.currentIndex = s.tasks.currentIndex := by
    rw [after]
    rfl
  rw [← current] at entry
  refine ⟨f, i, ⟨entry, ?_, tree.bounded i used, by rwa [nodes]⟩, ?_⟩
  · rw [after, Fs.setFd_openFiles, Fs.setFile_openFiles, update_self]
  · rw [after, Fs.setFd_openFiles, Fs.setFile_openFiles, update_self]

structure Positioned (fd : Int) (f i : Nat) (s : Fs) : Prop where
  onNode : OnNode s fd f i
  small : (s.openFiles f).offset < 2 ^ 63

theorem Positioned.step {fd : Int} {f i : Nat} {s : Fs} (here : Positioned fd f i s) {op : SeekOp}
    (inRange : SeekInRange fd s op) : Positioned fd f i (seekStep fd s op) := by
  have exact := (here.onNode.stepExact_iff here.small op).mpr inRange
  exact ⟨here.onNode.step here.small op, (exact f here.onNode.entry).2⟩

/-- After an open, every seek of a run is exact and the offset stays below 2^63 exactly when every position asked for is
one that a signed word can hold. -/
theorem lseek_exact_iff (k : Kernel) (reachable : Reachable k) (path : List UInt8) (flags mode : UInt32) (fd : Int) (s : Fs)
    (opens : fsOpenPath k.fs path flags mode = some (fd, s)) (succeeded : 0 ≤ fd) (ops : List SeekOp) :
    (∀ before op, before ++ [op] <+: ops → StepExact fd (before.foldl (seekStep fd) s) op) ↔
      Along (fun s op => some (seekStep fd s op)) (SeekInRange fd) s ops := by
  have tree := (ChildInv.of_reachable (KernelInv.of_reachable reachable).nodes).tree
  obtain ⟨f, i, onNode, start⟩ := OnNode.opened tree opens succeeded
  have small : (s.openFiles f).offset < 2 ^ 63 := by
    rw [start]
    decide
  have first : Positioned fd f i s := ⟨onNode, small⟩
  have keeps : ∀ s op, Positioned fd f i s → SeekInRange fd s op → Positioned fd f i (seekStep fd s op) :=
    fun _ _ here inRange => here.step inRange
  exact foldl_steps_iff keeps (fun _ op here => here.onNode.stepExact_iff here.small op) first ops

theorem lseek_exact_iff_sample :
    ∃ k s, Reachable k ∧ fsOpenPath k.fs (ascii "/a") oCREAT 0o644 = some (3, s) ∧
      ∀ before op, before ++ [op] <+: [.lseek 3 0, .lseek (-1) 1] → StepExact 3 (before.foldl (seekStep 3) s) op := by
  obtain ⟨k, runs, opens⟩ := exists_of_check
    (P := fun k : Kernel => (fsOpenPath k.fs (ascii "/a") oCREAT 0o644).map (fun opened =>
      (opened.1, decide (SeekInRange 3 opened.2 (.lseek 3 0)),
        decide (SeekInRange 3 (seekStep 3 opened.2 (.lseek 3 0)) (.lseek (-1) 1)))) = some (3, true, true))
    (show (bootRun []).map _ = some true by decide +kernel)
  obtain ⟨⟨fd, s⟩, returns, values⟩ := Option.map_eq_some_iff.mp opens
  rw [Prod.mk.injEq, Prod.mk.injEq] at values
  obtain ⟨rfl, first, second⟩ := values
  have reachable := Reachable.of_bootRun runs
  refine ⟨k, s, reachable, returns, (lseek_exact_iff k reachable _ _ _ 3 s returns (by decide) _).mpr ?_⟩
  refine ⟨of_decide_eq_true first, fun t steps => ?_⟩
  cases steps
  exact ⟨of_decide_eq_true second, fun _ _ => trivial⟩

/-- A seek to -5 moves the offset and reports error 5. -/
theorem lseek_negative_moves :
    ∃ k s, Reachable k ∧ fsOpenPath k.fs (ascii "/a") oCREAT 0o644 = some (3, s) ∧ ¬StepExact 3 s (.lseek (-5) 0) := by
  obtain ⟨k, runs, opens⟩ := exists_of_check
    (P := fun k : Kernel => (fsOpenPath k.fs (ascii "/a") oCREAT 0o644).map (fun opened =>
      (opened.1, lookupFile opened.2 3, (opened.2.openFiles 0).offset, (fsLseekFd opened.2 3 (-5) 0).1,
        ((fsLseekFd opened.2 3 (-5) 0).2.openFiles 0).offset)) = some (3, some 0, 0, -5, 2 ^ 64 - 5))
    (show (bootRun []).map _ = some true by decide +kernel)
  obtain ⟨⟨fd, s⟩, returns, values⟩ := Option.map_eq_some_iff.mp opens
  simp only [Prod.mk.injEq] at values
  obtain ⟨rfl, entry, start, result, moved⟩ := values
  refine ⟨k, s, Reachable.of_bootRun runs, returns, fun exact => ?_⟩
  have kept := ((exact 0 entry).1 (-5) 0 rfl).failed
  have offset : (-5 : Int64).toInt = -5 := by decide
  have whence : (0 : Int32).toInt = 0 := by decide
  rw [offset, whence, result, moved, start] at kept
  exact absurd (kept (by decide)) (by decide)

end Mgcore
