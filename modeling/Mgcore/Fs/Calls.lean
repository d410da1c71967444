import Mgcore.Fs.Model
import Mgcore.Task.Invariant
import Mgcore.Tmpfs.Contents
import Mgcore.Tmpfs.Namespace

/-!
# Runs of file system calls

A step is one call by one task. Every call that returns leaves the node table alone or does one operation of
`tmpfs.c` on it; reads, writes and seeks on a descriptor of a regular file are the tmpfs operations at the
offset of the open file.
-/

namespace Mgcore
open Function

inductive FsCall
  | openPath (path : List UInt8) (flags mode : UInt32)
  | read (fd : Int) (count : Nat)
  | write (fd : Int) (buffer : List UInt8)
  | close (fd : Int)
  | lseek (fd offset whence : Int)
  | mkdir (path : List UInt8) (mode : UInt32)
  | rmdir (path : List UInt8)
  | unlink (path : List UInt8)

def fsCall (s : Fs) : FsCall → Option (Int × Fs)
  | .openPath path flags mode => fsOpenPath s path flags mode
  | .read fd count => some ((fsReadFd s fd count).1.1, (fsReadFd s fd count).2)
  | .write fd buffer => some (fsWriteFd s fd buffer)
  | .close fd => some (fsCloseFd s fd)
  | .lseek fd offset whence => some (fsLseekFd s fd offset whence)
  | .mkdir path mode => fsMkdirPath s path mode
  | .rmdir path => fsRmdirPath s path
  | .unlink path => fsUnlinkPath s path

def Fs.as (s : Fs) (caller : Fin maxTasks) : Fs := { s with tasks := { s.tasks with currentIndex := caller } }

@[simp] theorem Fs.as_tmpfs (s : Fs) (caller : Fin maxTasks) : (s.as caller).tmpfs = s.tmpfs := rfl
@[simp] theorem Fs.as_openFiles (s : Fs) (caller : Fin maxTasks) : (s.as caller).openFiles = s.openFiles := rfl
@[simp] theorem Fs.setFile_tmpfs (s : Fs) (i : Nat) (file : VfsFile) : (s.setFile i file).tmpfs = s.tmpfs := rfl
@[simp] theorem Fs.setFile_tasks (s : Fs) (i : Nat) (file : VfsFile) : (s.setFile i file).tasks = s.tasks := rfl
@[simp] theorem Fs.setFile_openFiles (s : Fs) (i : Nat) (file : VfsFile) :
    (s.setFile i file).openFiles = update s.openFiles i file := rfl
@[simp] theorem Fs.setFd_tmpfs (s : Fs) (fd : Nat) (entry : Option Nat) : (s.setFd fd entry).tmpfs = s.tmpfs := rfl
@[simp] theorem Fs.setFd_openFiles (s : Fs) (fd : Nat) (entry : Option Nat) :
    (s.setFd fd entry).openFiles = s.openFiles := rfl

theorem Fs.setFd_fds (s : Fs) (fd : Nat) (entry : Option Nat) (task : Fin maxTasks) (fd' : Nat) :
    ((s.setFd fd entry).tasks.tasks task).fds fd' =
      if task = s.tasks.currentIndex ∧ fd' = fd then entry else (s.tasks.tasks task).fds fd' := by
  by_cases current : task = s.tasks.currentIndex
  · subst current
    by_cases here : fd' = fd
    · simp [Fs.setFd, here]
    · simp [Fs.setFd, here, taskCurrent]
  · simp [Fs.setFd, current]

theorem lookupFile_as {s : Fs} {caller : Fin maxTasks} {fd : Int} {f : Nat} :
    lookupFile (s.as caller) fd = some f ↔ ∃ k : Nat, fd = k ∧ k < maxFds ∧ (s.tasks.tasks caller).fds k = some f := by
  unfold lookupFile
  constructor
  · intro entry
    split_ifs at entry with outside
    obtain ⟨k, rfl⟩ := Int.eq_ofNat_of_zero_le (show 0 ≤ fd by omega)
    exact ⟨k, rfl, by omega, entry⟩
  · rintro ⟨k, rfl, bound, entry⟩
    rw [if_neg (by omega)]
    exact entry

theorem freeFile_spec {s : Fs} {f : Nat} (free : freeFile s = some f) :
    f < maxOpenFiles ∧ (s.openFiles f).used = false := by
  have member := List.mem_of_find?_eq_some free
  have unused := List.find?_some free
  exact ⟨List.mem_range.mp member, by simpa using unused⟩

theorem freeFd_spec {t : Task} {fd : Nat} (slot : freeFd t = some fd) : t.fds fd = none ∧ 3 ≤ fd ∧ fd < maxFds := by
  have member := List.mem_of_find?_eq_some slot
  have empty := List.find?_some slot
  rw [List.mem_range'_1] at member
  have limit : maxFds = 32 := rfl
  exact ⟨by simpa using empty, by omega⟩

def fsStep (s : Fs) (op : Fin maxTasks × FsCall) : Option Fs := (fsCall (s.as op.1) op.2).map Prod.snd

/-! ## Calls and the node table -/

theorem openNode_cases {s t : Tmpfs} {resolved : List UInt8} {flags mode : UInt32} {r : Int}
    (returns : openNode s resolved flags mode = some (r, t)) :
    (t = s ∧ tmpfsLookupPath s resolved = some r) ∨
      flags &&& oCREAT ≠ 0 ∧ tmpfsCreatePath s resolved .file mode = some (r, t) := by
  simp only [openNode, Option.bind_eq_bind, Option.bind_eq_some_iff, Option.pure_def] at returns
  obtain ⟨nodeId, found, returns⟩ := returns
  split_ifs at returns with creates
  · exact Or.inr ⟨creates.2, returns⟩
  · cases returns
    exact Or.inl ⟨rfl, found⟩

theorem openNode_error {s t : Tmpfs} {resolved : List UInt8} {flags mode : UInt32} {r : Int}
    (returns : openNode s resolved flags mode = some (r, t)) (failed : r < 0) : r ≠ -eNFILE := by
  rcases openNode_cases returns with ⟨-, found⟩ | ⟨-, created⟩
  · rcases resolvePath_result found with nonneg | missing | malformed
    · omega
    · rw [missing]
      decide
    · rw [malformed]
      decide
  · rcases tmpfsCreatePath_result created with nonneg | error
    · omega
    · intro same
      rw [same] at error
      exact absurd error (by decide)

theorem fsOpenPath_cases {s t : Fs} {path : List UInt8} {flags mode : UInt32} {r : Int}
    (returns : fsOpenPath s path flags mode = some (r, t)) :
    ∃ nodeId u, openNode s.tmpfs (normalizePath (taskCurrent s.tasks).cwd path) flags mode = some (nodeId, u) ∧
      ((r < 0 ∧ ∃ f, (s.openFiles f).used = false ∧
          t = { s with tmpfs := u }.setFile f
            { used := false, refs := 1, nodeId := nodeId, offset := 0, flags := flags }) ∨
        (r < 0 ∧ t = { s with tmpfs := u }) ∨
        ∃ f fd : Nat, 0 ≤ nodeId ∧ freeFile s = some f ∧ freeFd (taskCurrent s.tasks) = some fd ∧ r = fd ∧
          t = ({ s with tmpfs := u }.setFile f
            { used := true, refs := 1, nodeId := nodeId, offset := 0, flags := flags }).setFd fd (some f)) := by
  simp only [fsOpenPath, Option.bind_eq_bind, Option.bind_eq_some_iff, Option.pure_def] at returns
  obtain ⟨⟨nodeId, u⟩, opened, returns⟩ := returns
  refine ⟨nodeId, u, opened, ?_⟩
  dsimp only at returns
  split_ifs at returns with missing full
  · cases returns
    exact Or.inr (Or.inl ⟨missing, rfl⟩)
  · cases free : freeFile { s with tmpfs := u } with
    | none =>
        simp only [allocOpenFile, free, Option.some.injEq] at returns
        cases returns
        exact Or.inr (Or.inl ⟨by decide, rfl⟩)
    | some f =>
        simp only [allocOpenFile, free] at full
        omega
  · cases free : freeFile { s with tmpfs := u } with
    | none =>
        simp only [allocOpenFile, free] at full
        exact absurd (by decide) full
    | some f =>
        have unused : (s.openFiles f).used = false := (freeFile_spec free).2
        simp only [allocOpenFile, free, Option.some.injEq, Int.toNat_natCast, attachFd] at returns
        cases slot : freeFd (taskCurrent s.tasks) with
        | none =>
            simp only [Fs.setFile_tasks, slot] at returns
            cases returns
            refine Or.inl ⟨by decide, f, unused, ?_⟩
            simp only [Fs.setFile, update_idem, update_self]
        | some fd =>
            simp only [Fs.setFile_tasks, slot] at returns
            cases returns
            refine Or.inr (Or.inr ⟨f, fd, Int.not_lt.mp missing, free, rfl, rfl, ?_⟩)
            simp only [Fs.setFile, update_idem, update_self]

def OpensToCreate (s : Fs) (c : FsCall) (resolved : List UInt8) : Prop :=
  ∃ path flags mode, c = .openPath path flags mode ∧ flags &&& oCREAT ≠ 0 ∧
    resolved = normalizePath (taskCurrent s.tasks).cwd path

inductive TableEffect (s : Fs) (c : FsCall) : Tmpfs → Prop
  | same : TableEffect s c s.tmpfs
  | created {t : Tmpfs} {path : List UInt8} {type : NodeType} {mode : UInt32} {r : Int} (kind : type ≠ .none)
      (origin : type = .dir ∨ type = .file ∧ OpensToCreate s c path)
      (returns : tmpfsCreatePath s.tmpfs path type mode = some (r, t)) : TableEffect s c t
  | removed {t : Tmpfs} {path : List UInt8} {wantDir : Bool} {r : Int}
      (returns : tmpfsRemovePath s.tmpfs path wantDir = some (r, t)) : TableEffect s c t
  | written {fd : Int} {buffer : List UInt8} (isWrite : c = .write fd buffer) (nodeId : Int) (offset : Nat) :
      TableEffect s c (tmpfsWriteNode s.tmpfs nodeId buffer offset).2

theorem fsReadFd_tmpfs (s : Fs) (fd : Int) (count : Nat) : (fsReadFd s fd count).2.tmpfs = s.tmpfs := by
  unfold fsReadFd
  cases lookupFile s fd with
  | none =>
      dsimp only
      split_ifs <;> rfl
  | some f =>
      dsimp only
      cases tmpfsGetNode s.tmpfs (s.openFiles f).nodeId with
      | none => rfl
      | some node =>
          dsimp only
          split_ifs <;> rfl

theorem fsLseekFd_tmpfs (s : Fs) (fd offset whence : Int) : (fsLseekFd s fd offset whence).2.tmpfs = s.tmpfs := by
  unfold fsLseekFd
  cases lookupFile s fd with
  | none => rfl
  | some f =>
      dsimp only
      cases tmpfsGetNode s.tmpfs (s.openFiles f).nodeId with
      | none => rfl
      | some node =>
          dsimp only
          split_ifs <;> rfl

theorem fsCloseFd_tmpfs (s : Fs) (fd : Int) : (fsCloseFd s fd).2.tmpfs = s.tmpfs := by
  unfold fsCloseFd
  cases lookupFile s fd with
  | none => rfl
  | some f => rfl

/-- A descriptor of the current task on the regular file in slot `i`, through entry `f` of the open files. -/
structure OnFile (s : Fs) (fd : Int) (f i : Nat) : Prop where
  entry : lookupFile s fd = some f
  node : (s.openFiles f).nodeId = i
  bound : i < maxNodes
  regular : (s.tmpfs.nodes i).type = .file

instance (s : Fs) (fd : Int) (f i : Nat) : Decidable (OnFile s fd f i) :=
  decidable_of_iff (lookupFile s fd = some f ∧ (s.openFiles f).nodeId = i ∧ i < maxNodes ∧
      (s.tmpfs.nodes i).type = .file)
    ⟨fun h => ⟨h.1, h.2.1, h.2.2.1, h.2.2.2⟩, fun h => ⟨h.entry, h.node, h.bound, h.regular⟩⟩

namespace OnFile
variable {s : Fs} {fd : Int} {f i : Nat}

theorem get_node (onFile : OnFile s fd f i) : tmpfsGetNode s.tmpfs i = some (s.tmpfs.nodes i) :=
  tmpfsGetNode_natCast onFile.bound (by simp [onFile.regular])

theorem fsWriteFd_eq (onFile : OnFile s fd f i) (buffer : List UInt8) :
    fsWriteFd s fd buffer = ((tmpfsWriteNode s.tmpfs i buffer (s.openFiles f).offset).1,
      { s with tmpfs := (tmpfsWriteNode s.tmpfs i buffer (s.openFiles f).offset).2 }) := by
  have notDevice : ¬((s.tmpfs.nodes i).type = .chardev) := by simp [onFile.regular]
  simp only [fsWriteFd, onFile.entry, onFile.get_node, notDevice, false_and, if_false, onFile.node]

theorem fsLseekFd_eq (onFile : OnFile s fd f i) (offset whence : Int) :
    fsLseekFd s fd offset whence =
      let moved (target : Nat) := (toSigned target, s.setFile f { s.openFiles f with offset := target })
      if whence = seekSET then moved (toSize offset)
      else if whence = seekCUR then moved (((s.openFiles f).offset + toSize offset) % wordSize)
      else if whence = seekEND then moved (((s.tmpfs.nodes i).size + toSize offset) % wordSize)
      else (-eINVAL, s) := by
  simp only [fsLseekFd, onFile.entry, onFile.node, onFile.get_node]

theorem fsReadFd_eq (onFile : OnFile s fd f i) (count : Nat) :
    fsReadFd s fd count =
      let (r, bytes) := tmpfsReadNode s.tmpfs i count (s.openFiles f).offset
      if 0 ≤ r then
        ((r, bytes), s.setFile f { s.openFiles f with offset := ((s.openFiles f).offset + r.toNat) % wordSize })
      else ((r, bytes), s) := by
  have notDevice : ¬((s.tmpfs.nodes i).type = .chardev) := by simp [onFile.regular]
  simp only [fsReadFd, onFile.entry, onFile.get_node, notDevice, false_and, if_false, onFile.node]

theorem read_value (onFile : OnFile s fd f i) (count offset : Nat) :
    (tmpfsReadNode s.tmpfs i count offset).1 = toSigned (min count ((s.tmpfs.nodes i).size - offset)) := by
  rw [tmpfsReadNode, onFile.get_node]
  dsimp only
  rw [if_neg (not_not.mpr onFile.regular)]
  split_ifs with ended
  · rw [Nat.sub_eq_zero_of_le ended, Nat.min_zero]
    rfl
  · rfl

end OnFile

theorem fsWriteFd_other {s : Fs} {fd : Int} (other : ∀ f i, ¬OnFile s fd f i) (buffer : List UInt8) :
    (fsWriteFd s fd buffer).2.tmpfs = s.tmpfs := by
  unfold fsWriteFd
  cases entry : lookupFile s fd with
  | none =>
      dsimp only
      split_ifs <;> rfl
  | some f =>
      dsimp only
      cases tmpfsGetNode s.tmpfs (s.openFiles f).nodeId with
      | none => rfl
      | some node =>
          dsimp only
          split_ifs
          · rfl
          · rfl
          · obtain ⟨r, -, refused⟩ := tmpfsWriteNode_other (s := s.tmpfs)
              (fun i same bound regular => other f i ⟨entry, same, bound, regular⟩) buffer (s.openFiles f).offset
            rw [refused]

theorem fsCall_tmpfs {s t : Fs} {c : FsCall} {r : Int} (returns : fsCall s c = some (r, t)) :
    TableEffect s c t.tmpfs := by
  cases c with
  | openPath path flags mode =>
      obtain ⟨nodeId, u, opened, change⟩ := fsOpenPath_cases returns
      have table : t.tmpfs = u := by
        rcases change with ⟨-, f, -, rfl⟩ | ⟨-, rfl⟩ | ⟨f, fd, -, -, -, -, rfl⟩
        · rfl
        · rfl
        · rfl
      rw [table]
      rcases openNode_cases opened with ⟨rfl, -⟩ | ⟨creates, created⟩
      · exact .same
      · exact .created (by simp) (Or.inr ⟨rfl, path, flags, mode, rfl, creates, rfl⟩) created
  | read fd count =>
      cases returns
      rw [fsReadFd_tmpfs]
      exact .same
  | write fd buffer =>
      have eq : t = (fsWriteFd s fd buffer).2 := congrArg Prod.snd (Option.some.inj returns).symm
      rw [eq]
      by_cases reaches : ∃ f i, OnFile s fd f i
      · obtain ⟨f, i, onFile⟩ := reaches
        rw [onFile.fsWriteFd_eq]
        exact .written rfl _ _
      · rw [fsWriteFd_other (fun f i here => reaches ⟨f, i, here⟩)]
        exact .same
  | close fd =>
      have eq : t = (fsCloseFd s fd).2 := congrArg Prod.snd (Option.some.inj returns).symm
      rw [eq, fsCloseFd_tmpfs]
      exact .same
  | lseek fd offset whence =>
      have eq : t = (fsLseekFd s fd offset whence).2 := congrArg Prod.snd (Option.some.inj returns).symm
      rw [eq, fsLseekFd_tmpfs]
      exact .same
  | mkdir path mode =>
      simp only [fsCall, fsMkdirPath, Option.bind_eq_bind, Option.bind_eq_some_iff, Option.pure_def] at returns
      obtain ⟨⟨r', u⟩, created, returns⟩ := returns
      cases returns
      exact .created (by simp) (Or.inl rfl) created
  | rmdir path =>
      simp only [fsCall, fsRmdirPath, fsRemovePath, Option.bind_eq_bind, Option.bind_eq_some_iff,
        Option.pure_def] at returns
      obtain ⟨⟨r', u⟩, removed, returns⟩ := returns
      cases returns
      exact .removed removed
  | unlink path =>
      simp only [fsCall, fsUnlinkPath, fsRemovePath, Option.bind_eq_bind, Option.bind_eq_some_iff,
        Option.pure_def] at returns
      obtain ⟨⟨r', u⟩, removed, returns⟩ := returns
      cases returns
      exact .removed removed

/-! ## Calls and the open files -/

structure SameFiles (s t : Fs) : Prop where
  tasks : t.tasks = s.tasks
  files : ∀ f, ∃ offset, t.openFiles f = { s.openFiles f with offset := offset } ∧
    (offset = (s.openFiles f).offset ∨ offset < wordSize)

theorem SameFiles.of_eq {s t : Fs} (tasks : t.tasks = s.tasks) (files : t.openFiles = s.openFiles) : SameFiles s t :=
  ⟨tasks, fun f => ⟨(s.openFiles f).offset, by rw [files], Or.inl rfl⟩⟩

theorem SameFiles.moved (s : Fs) (f : Nat) {offset : Nat} (fits : offset < wordSize) :
    SameFiles s (s.setFile f { s.openFiles f with offset := offset }) := by
  refine ⟨rfl, fun g => ?_⟩
  by_cases same : g = f
  · subst same
    exact ⟨offset, by simp, Or.inr fits⟩
  · exact ⟨(s.openFiles g).offset, by simp [same], Or.inl rfl⟩

theorem fsReadFd_files (s : Fs) (fd : Int) (count : Nat) : SameFiles s (fsReadFd s fd count).2 := by
  have wraps : ∀ n, n % wordSize < wordSize := fun n => Nat.mod_lt n (by decide)
  unfold fsReadFd
  cases lookupFile s fd with
  | none =>
      dsimp only
      split_ifs
      · exact .of_eq rfl rfl
      · exact .of_eq rfl rfl
  | some f =>
      dsimp only
      cases tmpfsGetNode s.tmpfs (s.openFiles f).nodeId with
      | none => exact .of_eq rfl rfl
      | some node =>
          dsimp only
          split_ifs
          · exact .of_eq rfl rfl
          · exact .of_eq rfl rfl
          · exact .moved s f (wraps _)
          · exact .of_eq rfl rfl

theorem fsWriteFd_files (s : Fs) (fd : Int) (buffer : List UInt8) : SameFiles s (fsWriteFd s fd buffer).2 := by
  unfold fsWriteFd
  cases lookupFile s fd with
  | none =>
      dsimp only
      split_ifs
      · exact .of_eq rfl rfl
      · exact .of_eq rfl rfl
  | some f =>
      dsimp only
      cases tmpfsGetNode s.tmpfs (s.openFiles f).nodeId with
      | none => exact .of_eq rfl rfl
      | some node =>
          dsimp only
          split_ifs
          · exact .of_eq rfl rfl
          · exact .of_eq rfl rfl
          · exact .of_eq rfl rfl

theorem fsLseekFd_files (s : Fs) (fd offset whence : Int) : SameFiles s (fsLseekFd s fd offset whence).2 := by
  have wraps : ∀ n, n % wordSize < wordSize := fun n => Nat.mod_lt n (by decide)
  unfold fsLseekFd
  cases lookupFile s fd with
  | none => exact .of_eq rfl rfl
  | some f =>
      dsimp only
      cases tmpfsGetNode s.tmpfs (s.openFiles f).nodeId with
      | none => exact .of_eq rfl rfl
      | some node =>
          dsimp only
          split_ifs
          · refine .moved s f ?_
            unfold toSize wordSize
            omega
          · exact .moved s f (wraps _)
          · exact .moved s f (wraps _)
          · exact .of_eq rfl rfl

inductive FileEffect (s : Fs) (c : FsCall) (r : Int) (t : Fs) : Prop
  | same (same : SameFiles s t) (notOpened : ∀ path flags mode, c = .openPath path flags mode → r < 0)
      (notClosed : ∀ fd, c = .close fd → lookupFile s fd = none)
  | dropped (f : Nat) (file : VfsFile) (isOpen : ∃ path flags mode, c = .openPath path flags mode) (failed : r < 0)
      (free : (s.openFiles f).used = false) (unused : file.used = false) (start : file.offset = 0)
      (tasks : t.tasks = s.tasks) (files : t.openFiles = update s.openFiles f file)
  | opened (f fd nodeId : Nat) (flags : UInt32) (isOpen : ∃ path mode, c = .openPath path flags mode)
      (free : freeFile s = some f) (slot : freeFd (taskCurrent s.tasks) = some fd) (result : r = fd)
      (after : ∃ u, t = ({ s with tmpfs := u }.setFile f
        { used := true, refs := 1, nodeId := nodeId, offset := 0, flags := flags }).setFd fd (some f))
  | closed (f : Nat) (fd : Int) (isClose : c = .close fd) (entry : lookupFile s fd = some f) (result : r = 0)
      (after : t = (s.setFile f (if (s.openFiles f).refs - 1 ≤ 0 then {}
        else { s.openFiles f with refs := (s.openFiles f).refs - 1 })).setFd fd.toNat none)

theorem fsCall_files {s t : Fs} {c : FsCall} {r : Int} (returns : fsCall s c = some (r, t)) : FileEffect s c r t := by
  cases c with
  | openPath path flags mode =>
      obtain ⟨nodeId, u, opened, ⟨failed, f, free, rfl⟩ | ⟨failed, rfl⟩ | ⟨f, fd, nonneg, free, slot, rfl, rfl⟩⟩ :=
        fsOpenPath_cases returns
      · exact .dropped f _ ⟨path, flags, mode, rfl⟩ failed free rfl rfl rfl rfl
      · exact .same (.of_eq rfl rfl) (fun _ _ _ _ => failed) (fun _ isClose => by cases isClose)
      · obtain ⟨i, rfl⟩ := Int.eq_ofNat_of_zero_le nonneg
        exact .opened f fd i flags ⟨path, mode, rfl⟩ free slot rfl ⟨u, rfl⟩
  | read fd count =>
      cases returns
      exact .same (fsReadFd_files s fd count) (fun _ _ _ isOpen => by cases isOpen) (fun _ isClose => by cases isClose)
  | write fd buffer =>
      have eq : t = (fsWriteFd s fd buffer).2 := congrArg Prod.snd (Option.some.inj returns).symm
      rw [eq]
      exact .same (fsWriteFd_files s fd buffer) (fun _ _ _ isOpen => by cases isOpen) (fun _ isClose => by cases isClose)
  | close fd =>
      have eq : fsCloseFd s fd = (r, t) := Option.some.inj returns
      cases entry : lookupFile s fd with
      | none =>
          simp only [fsCloseFd, entry] at eq
          cases eq
          refine .same (.of_eq rfl rfl) (fun _ _ _ isOpen => by cases isOpen) (fun _ isClose => ?_)
          cases isClose
          exact entry
      | some f =>
          simp only [fsCloseFd, entry] at eq
          cases eq
          exact .closed f fd rfl entry rfl rfl
  | lseek fd offset whence =>
      have eq : t = (fsLseekFd s fd offset whence).2 := congrArg Prod.snd (Option.some.inj returns).symm
      rw [eq]
      exact .same (fsLseekFd_files s fd offset whence) (fun _ _ _ isOpen => by cases isOpen) (fun _ isClose => by cases isClose)
  | mkdir path mode =>
      simp only [fsCall, fsMkdirPath, Option.bind_eq_bind, Option.bind_eq_some_iff, Option.pure_def] at returns
      obtain ⟨⟨r', u⟩, -, returns⟩ := returns
      cases returns
      exact .same (.of_eq rfl rfl) (fun _ _ _ isOpen => by cases isOpen) (fun _ isClose => by cases isClose)
  | rmdir path =>
      simp only [fsCall, fsRmdirPath, fsRemovePath, Option.bind_eq_bind, Option.bind_eq_some_iff,
        Option.pure_def] at returns
      obtain ⟨⟨r', u⟩, -, returns⟩ := returns
      cases returns
      exact .same (.of_eq rfl rfl) (fun _ _ _ isOpen => by cases isOpen) (fun _ isClose => by cases isClose)
  | unlink path =>
      simp only [fsCall, fsUnlinkPath, fsRemovePath, Option.bind_eq_bind, Option.bind_eq_some_iff,
        Option.pure_def] at returns
      obtain ⟨⟨r', u⟩, -, returns⟩ := returns
      cases returns
      exact .same (.of_eq rfl rfl) (fun _ _ _ isOpen => by cases isOpen) (fun _ isClose => by cases isClose)

theorem fsCall_offsets {s t : Fs} {c : FsCall} {r : Int} (fits : ∀ f, (s.openFiles f).offset < wordSize)
    (returns : fsCall s c = some (r, t)) : ∀ f, (t.openFiles f).offset < wordSize := by
  have updated : ∀ (f : Nat) (file : VfsFile), file.offset < wordSize → ∀ g,
      (update s.openFiles f file g).offset < wordSize := by
    intro f file small g
    by_cases same : g = f
    · subst same; simpa using small
    · simpa [same] using fits g
  intro g
  cases fsCall_files returns with
  | same same _ _ =>
      obtain ⟨offset, eq, small⟩ := same.files g
      rw [eq]
      rcases small with old | small
      · exact old ▸ fits g
      · exact small
  | dropped f file _ _ _ _ start _ files =>
      rw [files]
      exact updated f file (by rw [start]; decide) g
  | opened f fd nodeId flags _ _ _ _ after =>
      obtain ⟨u, rfl⟩ := after
      exact updated f _ (Nat.two_pow_pos 64) g
  | closed f fd _ _ _ after =>
      rw [after]
      refine updated f _ ?_ g
      split_ifs
      · decide
      · exact fits f

theorem fsCall_tree {s t : Fs} {c : FsCall} {r : Int} (inv : TreeInv s.tmpfs) (returns : fsCall s c = some (r, t)) :
    TreeInv t.tmpfs := by
  have effect := fsCall_tmpfs returns
  generalize t.tmpfs = table at effect
  cases effect with
  | same => exact inv
  | created kind _ created => exact inv.create kind created
  | removed removed => exact inv.removal removed
  | written _ nodeId offset => exact inv.write nodeId _ offset

end Mgcore
