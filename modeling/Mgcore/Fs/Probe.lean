import Mgcore.Fs.Bounds
import Mgcore.Fs.Failures
import Mgcore.Fs.Seeking
import Mgcore.Heap.Blocks
import Mgcore.Tmpfs.Storage

/-!
# What a probe leaves

`elf_probe_path` opens the path, asks the kernel heap for as many bytes as the node has, reads, closes and parses. Every
way out behind the open goes through the close, so the tables are afterwards as they were; only the heap is not given
back.
-/

namespace Mgcore
open Function Lib

/-! ## Sizes -/

/-- Only regular files have a size, and no region is larger than the arena, whatever was written. -/
structure SizeInv (s : Tmpfs) : Prop where
  offset : s.dataOffset ≤ arenaSize
  capacity : ∀ i, (s.nodes i).capacity ≤ arenaSize
  word : ∀ i, (s.nodes i).size < wordSize
  others : ∀ i, (s.nodes i).type ≠ .file → (s.nodes i).size = 0

namespace SizeInv
variable {s t : Tmpfs}

theorem congr (inv : SizeInv s) (offset : t.dataOffset = s.dataOffset) (same : ∀ i, (t.nodes i).type = (s.nodes i).type ∧
    (t.nodes i).size = (s.nodes i).size ∧ (t.nodes i).capacity = (s.nodes i).capacity) : SizeInv t := by
  refine ⟨offset ▸ inv.offset, fun i => ?_, fun i => ?_, fun i other => ?_⟩
  · rw [(same i).2.2]
    exact inv.capacity i
  · rw [(same i).2.1]
    exact inv.word i
  · rw [(same i).1] at other
    rw [(same i).2.1]
    exact inv.others i other

theorem setNode (inv : SizeInv s) (i : Nat) {n : VfsNode} (capacity : n.capacity ≤ arenaSize) (word : n.size < wordSize)
    (others : n.type ≠ .file → n.size = 0) : SizeInv (s.setNode i n) := by
  have nodes (j : Nat) : (s.setNode i n).nodes j = if j = i then n else s.nodes j := by
    rw [Tmpfs.setNode_nodes, update_apply]
  refine ⟨inv.offset, fun j => ?_, fun j => ?_, fun j other => ?_⟩
  · rw [nodes]
    split_ifs
    · exact capacity
    · exact inv.capacity j
  · rw [nodes]
    split_ifs
    · exact word
    · exact inv.word j
  · rw [nodes] at other ⊢
    split_ifs at other ⊢
    · exact others other
    · exact inv.others j other

theorem insertChild (inv : SizeInv s) {id p : Nat} (other : p ≠ id) (name : List UInt8) (type : NodeType) (mode : UInt32) :
    SizeInv (insertChild s id p name type mode) := by
  have fresh := inv.setNode id (n := { type }) (Nat.zero_le _) (Nat.two_pow_pos 64) fun _ => rfl
  refine fresh.congr rfl fun i => ?_
  rw [insertChild_nodes other]
  by_cases new : i = id
  · simp [new]
  · by_cases parent : i = p
    · simp [parent, other]
    · simp [new, parent]

theorem grow (inv : SizeInv s) {i endOffset : Nat} (isFile : (s.nodes i).type = .file)
    (grown : growNode s i endOffset = some t) : SizeInv t ∧ (t.nodes i).type = .file := by
  have small : roundCapacity endOffset < 2 ^ 32 := by
    rw [roundCapacity_eq]
    omega
  have offset := inv.offset
  simp only [growNode, allocStorage, alignStorage_roundCapacity] at grown
  by_cases full : arenaSize < (s.dataOffset + roundCapacity endOffset) % wordSize
  · rw [if_pos full] at grown
    cases grown
  rw [if_neg full] at grown
  cases grown
  unfold arenaSize at offset full
  unfold wordSize at full
  have room : s.dataOffset + roundCapacity endOffset ≤ arenaSize := by
    unfold arenaSize
    omega
  have exactly : (s.dataOffset + roundCapacity endOffset) % wordSize = s.dataOffset + roundCapacity endOffset :=
    Nat.mod_eq_of_lt (by unfold wordSize; omega)
  have moved : SizeInv { s with dataOffset := s.dataOffset + roundCapacity endOffset } :=
    ⟨room, inv.capacity, inv.word, inv.others⟩
  have changed := moved.setNode i
    (n := { s.nodes i with data := some s.dataOffset, capacity := roundCapacity endOffset })
    (Nat.le_of_add_left_le room) (inv.word i) (inv.others i)
  refine ⟨changed.congr exactly fun j => ⟨rfl, rfl, rfl⟩, ?_⟩
  rw [Tmpfs.setNode_nodes, Int.toNat_natCast, update_self]
  exact isFile

theorem put (inv : SizeInv s) {i : Nat} (isFile : (s.nodes i).type = .file) (buffer : List UInt8) (offset : Nat)
    {endOffset : Nat} (word : endOffset < wordSize) : SizeInv (putBytes s i buffer offset endOffset) := by
  have changed := inv.setNode i (n := { s.nodes i with size := max (s.nodes i).size endOffset }) (inv.capacity i)
    (max_lt (inv.word i) word) fun other => absurd isFile other
  exact changed.congr rfl fun j => ⟨rfl, rfl, rfl⟩

theorem write (inv : SizeInv s) (nodeId : Int) (buffer : List UInt8) (offset : Nat) :
    SizeInv (tmpfsWriteNode s nodeId buffer offset).2 := by
  have word : (offset + buffer.length) % wordSize < wordSize := Nat.mod_lt _ (by decide)
  by_cases reaches : ∃ i : Nat, nodeId = i ∧ i < maxNodes ∧ (s.nodes i).type = .file
  · obtain ⟨i, rfl, bound, isFile⟩ := reaches
    rw [tmpfsWriteNode_file bound isFile]
    split_ifs
    · cases grown : growNode s i ((offset + buffer.length) % wordSize) with
      | none => exact inv
      | some t =>
          obtain ⟨after, still⟩ := inv.grow isFile grown
          exact after.put still buffer offset word
    · exact inv.put isFile buffer offset word
  · obtain ⟨r, -, same⟩ := tmpfsWriteNode_other
      (fun i same bound isFile => reaches ⟨i, same, bound, isFile⟩) buffer offset
    rw [same]
    exact inv

theorem of_reachable (reached : TmpfsReachable s) : SizeInv s := by
  induction reached with
  | init before =>
      have empty : SizeInv { before with nodes := fun _ => {}, dataOffset := 0 } :=
        ⟨Nat.zero_le _, fun _ => Nat.zero_le _, fun _ => Nat.two_pow_pos 64, fun _ _ => rfl⟩
      exact empty.setNode 0 (n := rootNode) (Nat.zero_le _) (Nat.two_pow_pos 64) fun _ => rfl
  | @device s _ i deviceId inv => exact inv.setNode i (inv.capacity i) (inv.word i) (inv.others i)
  | @step s t _ op typed steps inv =>
      cases op with
      | create path type mode =>
          obtain ⟨⟨r, u⟩, returns, rfl⟩ := Option.map_eq_some_iff.mp steps
          rcases tmpfsCreatePath_cases returns with ⟨rfl, -⟩ | ⟨_, _, leaf, p, id, -, -, -, -, isDir, free, -, rfl⟩
          · exact inv
          · exact inv.insertChild (dir_ne_free isDir (freeSlot_spec free).1) leaf type mode
      | remove path wantDir =>
          obtain ⟨⟨r, u⟩, returns, rfl⟩ := Option.map_eq_some_iff.mp steps
          rcases tmpfsRemovePath_cases returns with ⟨rfl, -⟩ | ⟨id, v, -, -, -, -, unlinked, -, rfl⟩
          · exact inv
          · obtain ⟨-, offset, same⟩ := StorageInv.unlinkChild_keeps unlinked
            have kept := inv.congr offset fun i => ⟨(same i).1, (same i).2.2⟩
            exact kept.setNode id (Nat.zero_le _) (Nat.two_pow_pos 64) fun _ => rfl
      | write nodeId buffer offset =>
          cases steps
          exact inv.write nodeId buffer offset
      | read nodeId count offset =>
          cases steps
          exact inv

end SizeInv

/-! ## Opening and closing -/

/-- The nodes and their contents, the tasks with their descriptors, and which of the open files are used. -/
structure SameFs (s t : Fs) : Prop where
  tmpfs : t.tmpfs = s.tmpfs
  tasks : t.tasks = s.tasks
  used : ∀ f, (t.openFiles f).used = (s.openFiles f).used

theorem SameFs.trans {s t u : Fs} (first : SameFs s t) (second : SameFs t u) : SameFs s u :=
  ⟨second.tmpfs.trans first.tmpfs, second.tasks.trans first.tasks, fun f => (second.used f).trans (first.used f)⟩

theorem Fs.setFd_restore (s : Fs) {fd : Nat} (free : (taskCurrent s.tasks).fds fd = none) (f : Nat) :
    ((s.setFd fd (some f)).setFd fd none).tasks = s.tasks := by
  have before : update (taskCurrent s.tasks).fds fd none = (taskCurrent s.tasks).fds := by
    rw [← free, update_eq_self]
  simp only [Fs.setFd, TaskTable.setTask, taskCurrent, update_self, update_idem] at before ⊢
  rw [before]
  simp only [update_eq_self]

/-- The state after an open that succeeds: one entry of the table of open files, and one descriptor. -/
def openedState (s : Fs) (f fd i : Nat) : Fs :=
  (s.setFile f { used := true, refs := 1, nodeId := i, offset := 0, flags := 0 }).setFd fd (some f)

section
variable {s t : Fs} {f fd i : Nat}

theorem openedState_openFiles : (openedState s f fd i).openFiles =
    update s.openFiles f { used := true, refs := 1, nodeId := i, offset := 0, flags := 0 } := rfl

theorem openedState_lookup (slot : freeFd (taskCurrent s.tasks) = some fd) : lookupFile (openedState s f fd i) fd = some f := by
  have inside := (freeFd_spec slot).2.2
  have entry := Fs.setFd_fds (s.setFile f { used := true, refs := 1, nodeId := i }) fd (some f) s.tasks.currentIndex fd
  rw [if_pos ⟨rfl, rfl⟩] at entry
  rw [lookupFile, if_neg (by omega)]
  exact entry

/-- Whatever moved the offset in between, a close brings the tables back. -/
theorem closed_same (free : freeFile s = some f) (slot : freeFd (taskCurrent s.tasks) = some fd)
    (files : SameFiles (openedState s f fd i) t) (nodes : t.tmpfs = s.tmpfs) : SameFs s (fsCloseFd t fd).2 := by
  obtain ⟨empty, -, -⟩ := freeFd_spec slot
  have unused := (freeFile_spec free).2
  have entry : lookupFile t fd = some f := by
    have same : lookupFile t fd = lookupFile (openedState s f fd i) fd := by
      rw [lookupFile, lookupFile, files.tasks]
    rw [same]
    exact openedState_lookup slot
  have refs : (t.openFiles f).refs = 1 := by
    obtain ⟨offset, kept, -⟩ := files.files f
    rw [kept, openedState_openFiles, update_self]
  have after : (fsCloseFd t fd).2 = (t.setFile f {}).setFd fd none := by
    simp [fsCloseFd, entry, refs]
  rw [after]
  refine ⟨nodes, ?_, fun g => ?_⟩
  · have tasks : ((t.setFile f {}).setFd fd none).tasks = ((s.setFd fd (some f)).setFd fd none).tasks := by
      simp only [Fs.setFd, Fs.setFile_tasks, files.tasks]
      rfl
    rw [tasks]
    exact s.setFd_restore empty f
  · rw [Fs.setFd_openFiles, Fs.setFile_openFiles]
    by_cases here : g = f
    · rw [here, update_self, unused]
    · obtain ⟨offset, kept, -⟩ := files.files g
      rw [update_of_ne here, kept, openedState_openFiles, update_of_ne here]

end

/-! ## The probe -/

/-- The path denotes node `i`, and an open file and a descriptor are left for it. -/
structure Opens (s : Fs) (path : List UInt8) (i : Nat) : Prop where
  found : tmpfsLookupPath s.tmpfs (s.resolve path) = some (i : Int)
  file : freeFile s ≠ none
  fd : freeFd (taskCurrent s.tasks) ≠ none

/-- What an open without flags returns. -/
def openValue (s : Fs) (nodeId : Int) : Int :=
  if nodeId < 0 then nodeId
  else match freeFile s, freeFd (taskCurrent s.tasks) with
    | none, _ => -eNFILE
    | some _, none => -eMFILE
    | some _, some fd => fd

theorem fsOpenPath_probe {s : Fs} {path : List UInt8} {nodeId : Int}
    (found : tmpfsLookupPath s.tmpfs (s.resolve path) = some nodeId) :
    (∃ t, fsOpenPath s path 0 0 = some (openValue s nodeId, t) ∧ openValue s nodeId < 0 ∧ SameFs s t) ∨
    ∃ i f fd : Nat, nodeId = i ∧ freeFile s = some f ∧ freeFd (taskCurrent s.tasks) = some fd ∧
      fsOpenPath s path 0 0 = some ((fd : Int), openedState s f fd i) := by
  have lookup : tmpfsLookupPath s.tmpfs (normalizePath (taskCurrent s.tasks).cwd path) = some nodeId := found
  have opens : openNode s.tmpfs (normalizePath (taskCurrent s.tasks).cwd path) 0 0 = some (nodeId, s.tmpfs) := by
    rw [openNode, lookup, Option.bind_eq_bind, Option.bind_some, if_neg fun creates => creates.2 (by decide)]
    rfl
  rw [fsOpenPath, opens, openValue, Option.bind_eq_bind, Option.bind_some]
  dsimp only
  by_cases missing : nodeId < 0
  · rw [if_pos missing, if_pos missing]
    exact Or.inl ⟨s, rfl, missing, rfl, rfl, fun _ => rfl⟩
  rw [if_neg missing, if_neg missing]
  obtain ⟨i, rfl⟩ := Int.eq_ofNat_of_zero_le (Int.not_lt.mp missing)
  cases free : freeFile s with
  | none =>
      simp only [allocOpenFile, free]
      exact Or.inl ⟨s, if_pos (by decide), by decide, rfl, rfl, fun _ => rfl⟩
  | some f =>
      have unused := (freeFile_spec free).2
      have nonneg : ¬(f : Int) < 0 := Int.not_lt.mpr (Int.natCast_nonneg f)
      simp only [allocOpenFile, free, if_neg nonneg, Int.toNat_natCast, attachFd, Fs.setFile_tasks]
      cases slot : freeFd (taskCurrent s.tasks) with
      | none =>
          refine Or.inl ⟨_, rfl, show -eMFILE < 0 by decide, rfl, rfl, fun g => ?_⟩
          by_cases here : g = f
          · rw [here, Fs.setFile_openFiles, update_self, unused]
          · simp only [Fs.setFile_openFiles, update_of_ne here]
      | some fd =>
          refine Or.inr ⟨i, f, fd, rfl, rfl, rfl, ?_⟩
          simp only [openedState, Fs.setFile, update_idem, update_self]
          rfl

/-- What a probe returns, and what it leaves in the heap. -/
inductive Probed (k : Kernel) (path : List UInt8) : Int × Option ElfImage → Heap → Prop
  | refused {nodeId : Int} (found : tmpfsLookupPath k.fs.tmpfs (k.fs.resolve path) = some nodeId)
      (fails : openValue k.fs nodeId < 0) : Probed k path (openValue k.fs nodeId, none) k.heap
  | noMemory {i : Nat} (opens : Opens k.fs path i) (full : kalloc k.heap (k.fs.tmpfs.nodes i).size = some (none, k.heap)) :
      Probed k path (-eNOMEM, none) k.heap
  | parsed {i base : Nat} {heap after : Heap} {text : List UInt8} (opens : Opens k.fs path i)
      (granted : kalloc k.heap (k.fs.tmpfs.nodes i).size = some (some base, heap)) (offset : after.offset = heap.offset)
      (file : contents k.fs.tmpfs i = some text) : Probed k path (elfParseImage base text) after

/-- The size of the file makes the test of the heap wrap. -/
def ProbeWraps (k : Kernel) (path : List UInt8) : Prop :=
  ∃ i, Opens k.fs path i ∧ TestWraps k.heap.offset (k.fs.tmpfs.nodes i).size

/-- A read of the whole file from its start. -/
theorem OnFile.reads_all {s : Fs} {fd : Int} {f i : Nat} (onFile : OnFile s fd f i) (start : (s.openFiles f).offset = 0)
    (positive : 0 < (s.tmpfs.nodes i).size) :
    ∃ text, contents s.tmpfs i = some text ∧ text.length = (s.tmpfs.nodes i).size ∧
      (fsReadFd s fd (s.tmpfs.nodes i).size).1 = (toSigned (s.tmpfs.nodes i).size, text) := by
  have file : contents s.tmpfs i = some _ := if_pos onFile.regular
  refine ⟨_, file, contents_length file, ?_⟩
  have reads : tmpfsReadNode s.tmpfs i (s.tmpfs.nodes i).size 0 = (toSigned (s.tmpfs.nodes i).size,
      load wordSize s.tmpfs.arena ((s.tmpfs.nodes i).data.getD 0) (s.tmpfs.nodes i).size) := by
    rw [tmpfsReadNode, onFile.get_node]
    dsimp only
    rw [if_neg (not_not.mpr onFile.regular), if_neg (Nat.not_le.mpr positive), Nat.sub_zero, Nat.min_self, Nat.add_zero]
  rw [onFile.fsReadFd_eq, start, reads]
  dsimp only
  split_ifs <;> rfl

structure ProbeInv (k : Kernel) : Prop where
  tree : TreeInv k.fs.tmpfs
  sizes : SizeInv k.fs.tmpfs
  bounded : k.heap.offset ≤ kernelHeapSize
  aligned : k.heap.offset % 16 = 0

theorem toSize_toSigned {n : Nat} (word : n < wordSize) : toSize (toSigned n) = n := by
  unfold toSize toSigned
  unfold wordSize at word ⊢
  split_ifs <;> omega

namespace ProbeInv
variable {k : Kernel} {path : List UInt8}

theorem kalloc_none (inv : ProbeInv k) {n : Nat} (word : n < wordSize) {heap : Heap}
    (full : kalloc k.heap n = some (none, heap)) : heap = k.heap := by
  cases kalloc_cases inv.bounded inv.aligned word with
  | refused answer offset reason =>
      cases full.symm.trans answer
      rfl
  | endless answer wraps back => cases full.symm.trans answer
  | granted after answer offset positive fits aligned bounded room zeros => cases full.symm.trans answer

theorem kalloc_some (inv : ProbeInv k) {n : Nat} (word : n < wordSize) {base : Nat} {heap : Heap}
    (granted : kalloc k.heap n = some (some base, heap)) :
    0 < n ∧ n ≤ kernelHeapSize - k.heap.offset ∧ heap.offset ≤ kernelHeapSize ∧ heap.offset % 16 = 0 := by
  cases kalloc_cases inv.bounded inv.aligned word with
  | refused answer offset reason => cases granted.symm.trans answer
  | endless answer wraps back => cases granted.symm.trans answer
  | granted after answer offset positive fits aligned bounded room zeros =>
      cases granted.symm.trans answer
      exact ⟨positive, fits, bounded, aligned⟩

/-- A probe gives back what it has opened and answers in one of three ways, unless the heap does not come back. -/
theorem probe (inv : ProbeInv k) (path : List UInt8) :
    (elfProbePath k path = none ∧ ProbeWraps k path) ∨
      ∃ result after, elfProbePath k path = some (result, after) ∧ SameFs k.fs after.fs ∧ Probed k path result after.heap := by
  obtain ⟨nodeId, found, -⟩ := inv.tree.resolvePath_resolved (k.fs.resolve path)
  rcases fsOpenPath_probe found with ⟨s, opens, fails, same⟩ | ⟨i, f, fd, rfl, free, slot, opens⟩
  · refine Or.inr ⟨_, { k with fs := s }, ?_, same, .refused found fails⟩
    rw [elfProbePath, opens, Option.bind_eq_bind, Option.bind_some]
    dsimp only
    rw [if_pos fails]
    rfl
  have used := inv.tree.resolvePath_used found
  have word := inv.sizes.word i
  have entry : lookupFile (openedState k.fs f fd i) fd = some f := openedState_lookup slot
  have node : ((openedState k.fs f fd i).openFiles f).nodeId = i := by rw [openedState_openFiles, update_self]
  have get : tmpfsGetNode k.fs.tmpfs i = some (k.fs.tmpfs.nodes i) := tmpfsGetNode_natCast (inv.tree.bounded i used) used
  have nodes : (openedState k.fs f fd i).tmpfs = k.fs.tmpfs := rfl
  have stat : fsFstatFd (openedState k.fs f fd i) fd = (0, some (fillStatFromNode (k.fs.tmpfs.nodes i))) := by
    simp only [fsFstatFd, entry, node, nodes, get]
  have size : toSize (fillStatFromNode (k.fs.tmpfs.nodes i)).size = (k.fs.tmpfs.nodes i).size := toSize_toSigned word
  have here : Opens k.fs path i := ⟨found, by rw [free]; simp, by rw [slot]; simp⟩
  rw [elfProbePath, opens, Option.bind_eq_bind, Option.bind_some]
  dsimp only
  rw [if_neg (Int.not_lt.mpr (Int.natCast_nonneg fd)), stat]
  dsimp only
  rw [size]
  cases allocated : kalloc k.heap (k.fs.tmpfs.nodes i).size with
  | none =>
      cases kalloc_cases inv.bounded inv.aligned word with
      | refused answer offset reason => cases allocated.symm.trans answer
      | endless answer wraps back => exact Or.inl ⟨rfl, i, here, wraps⟩
      | granted heap answer => cases allocated.symm.trans answer
  | some result =>
      obtain ⟨base, heap⟩ := result
      right
      cases base with
      | none =>
          cases inv.kalloc_none word allocated
          exact ⟨_, _, rfl, closed_same free slot (.of_eq rfl rfl) rfl, .noMemory here allocated⟩
      | some base =>
          obtain ⟨positive, fits, -⟩ := inv.kalloc_some word allocated
          have isFile : (k.fs.tmpfs.nodes i).type = .file := by
            by_contra other
            exact absurd (inv.sizes.others i other) (Nat.ne_of_gt positive)
          have onFile : OnFile (openedState k.fs f fd i) fd f i := ⟨entry, node, inv.tree.bounded i used, isFile⟩
          have start : ((openedState k.fs f fd i).openFiles f).offset = 0 := by rw [openedState_openFiles, update_self]
          obtain ⟨text, file, length, reads⟩ := onFile.reads_all start positive
          have files := fsReadFd_files (openedState k.fs f fd i) fd (k.fs.tmpfs.nodes i).size
          have table := fsReadFd_tmpfs (openedState k.fs f fd i) fd (k.fs.tmpfs.nodes i).size
          have stored : load wordSize (store wordSize heap.bytes base text) base (k.fs.tmpfs.nodes i).size = text := by
            rw [nodes] at length
            rw [← length]
            exact load_store heap.bytes (by omega)
          rw [nodes] at reads
          cases returns : fsReadFd (openedState k.fs f fd i) fd (k.fs.tmpfs.nodes i).size with
          | mk value s =>
              rw [returns] at reads files table
              cases reads
              have same := closed_same free slot files table
              have small : (k.fs.tmpfs.nodes i).size < 2 ^ 63 := by
                have size : kernelHeapSize = 2 ^ 20 := rfl
                omega
              have counted : ¬toSigned (k.fs.tmpfs.nodes i).size < 0 := Int.not_lt.mpr ((toSigned_nonneg word).mpr small)
              simp only [Option.bind_eq_bind, Option.bind_some, if_neg counted, stored]
              exact ⟨_, _, rfl, same, .parsed here allocated rfl file⟩

theorem heap_kept (inv : ProbeInv k) {result : Int × Option ElfImage} {heap : Heap} (probed : Probed k path result heap) :
    heap.offset ≤ kernelHeapSize ∧ heap.offset % 16 = 0 := by
  cases probed with
  | refused => exact ⟨inv.bounded, inv.aligned⟩
  | noMemory => exact ⟨inv.bounded, inv.aligned⟩
  | parsed opens granted offset file =>
      rw [offset]
      exact (inv.kalloc_some (inv.sizes.word _) granted).2.2

theorem of_kernel {k : Kernel} (inv : KernelInv k.fs) (bounded : k.heap.offset ≤ kernelHeapSize)
    (aligned : k.heap.offset % 16 = 0) : ProbeInv k :=
  ⟨(ChildInv.of_reachable inv.nodes).tree, SizeInv.of_reachable inv.nodes, bounded, aligned⟩

/-- Only the probes take from the heap. -/
theorem heap_step {k k' : Kernel} {op : KernelOp} (inv : ProbeInv k) (steps : kernelStep k op = some k') :
    k'.heap.offset ≤ kernelHeapSize ∧ k'.heap.offset % 16 = 0 := by
  have same (unchanged : k'.heap = k.heap) : k'.heap.offset ≤ kernelHeapSize ∧ k'.heap.offset % 16 = 0 := by
    rw [unchanged]
    exact ⟨inv.bounded, inv.aligned⟩
  cases op with
  | call c =>
      obtain ⟨_, -, rfl⟩ := Option.map_eq_some_iff.mp steps
      exact same rfl
  | chdir path =>
      obtain ⟨_, -, rfl⟩ := Option.map_eq_some_iff.mp steps
      exact same rfl
  | elfProbe path =>
      obtain ⟨stuck, -⟩ | ⟨result, after, returns, -, probed⟩ := inv.probe path
      · rw [kernelStep, stuck] at steps
        cases steps
      · rw [kernelStep, returns, Option.map_some] at steps
        cases steps
        exact inv.heap_kept probed
  | task c =>
      cases steps
      exact same rfl
  | mount archive =>
      obtain ⟨_, -, rfl⟩ := Option.map_eq_some_iff.mp steps
      exact same rfl

theorem of_reachable (reachable : Reachable k) : ProbeInv k := by
  obtain ⟨console, s, ops, boots, reaches⟩ := reachable
  have start : KernelInv ({ fs := s } : Kernel).fs ∧ ProbeInv { fs := s } :=
    ⟨.boot boots, .of_kernel (.boot boots) (Nat.zero_le _) rfl⟩
  have keeps (k : Kernel) (op : KernelOp) (k' : Kernel) (inv : KernelInv k.fs ∧ ProbeInv k) (_ : True)
      (steps : kernelStep k op = some k') : KernelInv k'.fs ∧ ProbeInv k' := by
    obtain ⟨bounded, aligned⟩ := inv.2.heap_step steps
    have kernel := inv.1.step steps
    exact ⟨kernel, .of_kernel kernel bounded aligned⟩
  exact (run_invariant keeps (fun _ _ => trivial) start reaches).2

end ProbeInv

/-! ## Executables -/

/-- A 64-bit image for this machine. -/
structure Executable (text : List UInt8) : Prop where
  long : 64 ≤ text.length
  magic : text.take 4 = [0x7F, 0x45, 0x4C, 0x46]
  class64 : text[4]? = some 2
  machine : leBytes ((text.drop 18).take 2) = 62

theorem elfParseImage_executable {text : List UInt8} (image : Executable text) (base : Nat) :
    elfParseImage base text = (0, some { base, size := text.length, entry := leBytes ((text.drop 24).take 8) }) := by
  have long : ¬text.length < elfHeaderSize := Nat.not_lt.mpr image.long
  have machine : leBytes ((text.drop 18).take 2) = emX8664 := image.machine
  rw [elfParseImage, if_neg long, if_neg, if_neg (not_not.mpr machine)]
  rintro (other | other)
  · exact other image.magic
  · exact other image.class64

theorem elfParseImage_zero {text : List UInt8} {base : Nat} (accepted : (elfParseImage base text).1 = 0) : Executable text := by
  unfold elfParseImage at accepted
  split_ifs at accepted with short ident machine
  · exact absurd accepted (by decide)
  · exact absurd accepted (by decide)
  · exact absurd accepted (by decide)
  · obtain ⟨magic, class64⟩ := not_or.mp ident
    exact ⟨Nat.not_lt.mp short, not_not.mp magic, not_not.mp class64, not_not.mp machine⟩

/-- What a probe needs for success: an open file, a descriptor, room in the heap, and an executable file. -/
structure Probeable (k : Kernel) (path : List UInt8) (text : List UInt8) : Prop where
  openFile : freeFile k.fs ≠ none
  descriptor : freeFd (taskCurrent k.fs.tasks) ≠ none
  file : ∃ i : Nat, tmpfsLookupPath k.fs.tmpfs (k.fs.resolve path) = some (i : Int) ∧ contents k.fs.tmpfs i = some text
  room : k.heap.offset + text.length ≤ kernelHeapSize
  image : Executable text

theorem openValue_nonneg {s : Fs} (file : freeFile s ≠ none) (fd : freeFd (taskCurrent s.tasks) ≠ none) (i : Nat) :
    0 ≤ openValue s i := by
  obtain ⟨f, free⟩ := Option.ne_none_iff_exists'.mp file
  obtain ⟨fd, slot⟩ := Option.ne_none_iff_exists'.mp fd
  rw [openValue, if_neg (Int.not_lt.mpr (Int.natCast_nonneg i)), free, slot]
  exact Int.natCast_nonneg fd

section
variable {k : Kernel} {path text : List UInt8} {result : Int × Option ElfImage} {heap : Heap}

theorem Probeable.accepted (inv : ProbeInv k) (ready : Probeable k path text) (probed : Probed k path result heap) :
    ∃ base, result = elfParseImage base text := by
  obtain ⟨i, found, file⟩ := ready.file
  have length := contents_length file
  have room := ready.room
  have long := ready.image.long
  have denotes {j : Nat} (opens : Opens k.fs path j) : j = i := by
    have same := opens.found
    rw [found, Option.some.injEq, Int.natCast_inj] at same
    exact same.symm
  cases probed with
  | refused found' fails =>
      cases found.symm.trans found'
      exact absurd fails (Int.not_lt.mpr (openValue_nonneg ready.openFile ready.descriptor i))
  | noMemory opens full =>
      cases denotes opens
      cases kalloc_cases inv.bounded inv.aligned (inv.sizes.word i) with
      | refused answer offset reason =>
          have size : kernelHeapSize = 2 ^ 20 := rfl
          rw [size] at room reason
          unfold wordSize at reason
          omega
      | endless answer wraps back => cases full.symm.trans answer
      | granted heap answer => cases full.symm.trans answer
  | parsed opens granted offset file' =>
      cases denotes opens
      cases file.symm.trans file'
      exact ⟨_, rfl⟩

/-- The file of an open path makes the test wrap only when it is larger than its storage. -/
theorem ProbeInv.not_wraps (inv : ProbeInv k)
    (fits : ∀ i < maxNodes, (k.fs.tmpfs.nodes i).type = .file → (k.fs.tmpfs.nodes i).size ≤ (k.fs.tmpfs.nodes i).capacity) :
    ¬ProbeWraps k path := by
  rintro ⟨i, opens, wraps, -⟩
  have bounded := inv.bounded
  have capacity := inv.sizes.capacity i
  have size : (k.fs.tmpfs.nodes i).size ≤ arenaSize := by
    by_cases isFile : (k.fs.tmpfs.nodes i).type = .file
    · exact Nat.le_trans (fits i (inv.tree.bounded i (inv.tree.resolvePath_used opens.found)) isFile) capacity
    · rw [inv.sizes.others i isFile]
      exact Nat.zero_le _
  have heap : kernelHeapSize = 2 ^ 20 := rfl
  have arena : arenaSize = 2 ^ 20 := rfl
  unfold wordSize at wraps
  omega

theorem Probed.probeable (inv : ProbeInv k)
    (probed : Probed k path result heap) (zero : result.1 = 0) : ∃ text, Probeable k path text := by
  cases probed with
  | refused found fails => exact absurd zero (Int.ne_of_lt fails)
  | noMemory opens full => exact absurd zero (by decide)
  | @parsed i base heap after text opens granted offset file =>
      obtain ⟨-, room, -⟩ := inv.kalloc_some (inv.sizes.word i) granted
      have length := contents_length file
      have bounded := inv.bounded
      exact ⟨text, opens.file, opens.fd, ⟨i, opens.found, file⟩, by omega, elfParseImage_zero zero⟩

end

/-- A probe leaves no trace in the tables, and succeeds exactly for an executable. -/
theorem probe_leaves_tables (k : Kernel) (reachable : Reachable k)
    (fits : ∀ i < maxNodes, (k.fs.tmpfs.nodes i).type = .file → (k.fs.tmpfs.nodes i).size ≤ (k.fs.tmpfs.nodes i).capacity)
    (path : List UInt8) :
    ∃ result after, elfProbePath k path = some (result, after) ∧ after.fs.tmpfs = k.fs.tmpfs ∧
      (∀ f, (after.fs.openFiles f).used = (k.fs.openFiles f).used) ∧
      (∀ task fd, (after.fs.tasks.tasks task).fds fd = (k.fs.tasks.tasks task).fds fd) ∧
      (result.1 = 0 ↔ ∃ text, Probeable k path text) ∧
      ∀ text, Probeable k path text → ∃ image, result.2 = some image ∧ image.size = text.length ∧
        image.entry = leBytes ((text.drop 24).take 8) := by
  have inv := ProbeInv.of_reachable reachable
  obtain ⟨result, after, returns, same, probed⟩ := (inv.probe path).resolve_left fun stuck => inv.not_wraps fits stuck.2
  have succeeds {text : List UInt8} (ready : Probeable k path text) : ∃ base, result =
      (0, some { base, size := text.length, entry := leBytes ((text.drop 24).take 8) }) := by
    obtain ⟨base, parsed⟩ := ready.accepted inv probed
    exact ⟨base, parsed.trans (elfParseImage_executable ready.image base)⟩
  refine ⟨result, after, returns, same.tmpfs, same.used, fun task fd => by rw [same.tasks], ?_, fun text ready => ?_⟩
  · constructor
    · exact probed.probeable inv
    · rintro ⟨text, ready⟩
      obtain ⟨base, value⟩ := succeeds ready
      rw [value]
  · obtain ⟨base, value⟩ := succeeds ready
    rw [value]
    exact ⟨_, rfl, rfl, rfl⟩

-- An executable header with entry point 0x12345678.
def sampleImage : List UInt8 :=
  [0x7F, 0x45, 0x4C, 0x46, 2, 1, 1] ++ List.replicate 9 0 ++
    [2, 0, 62, 0, 1, 0, 0, 0, 0x78, 0x56, 0x34, 0x12, 0, 0, 0, 0] ++ List.replicate 32 0

theorem sampleImage_executable : Executable sampleImage := ⟨by decide, by decide, by decide, by decide⟩

def sampleWritten : List KernelOp :=
  [.call (.openPath (ascii "/a") oCREAT 0o644), .call (.write 3 sampleImage), .call (.close 3)]

theorem probe_leaves_tables_sample :
    ∃ k result after image, Reachable k ∧ elfProbePath k (ascii "/a") = some (result, after) ∧ result.1 = 0 ∧
      result.2 = some image ∧ image.size = 64 ∧ image.entry = 0x12345678 ∧ after.fs.tmpfs = k.fs.tmpfs := by
  obtain ⟨k, runs, fits, free, slot, found, file, offset⟩ := exists_of_check
    (P := fun k : Kernel =>
      (∀ i < maxNodes, (k.fs.tmpfs.nodes i).type = .file → (k.fs.tmpfs.nodes i).size ≤ (k.fs.tmpfs.nodes i).capacity) ∧
      freeFile k.fs ≠ none ∧ freeFd (taskCurrent k.fs.tasks) ≠ none ∧
      tmpfsLookupPath k.fs.tmpfs (k.fs.resolve (ascii "/a")) = some ((9 : Nat) : Int) ∧
      contents k.fs.tmpfs 9 = some sampleImage ∧ k.heap.offset = 0)
    (show (bootRun sampleWritten).map _ = some true by decide +kernel)
  have reachable := Reachable.of_bootRun runs
  obtain ⟨result, after, returns, nodes, -, -, zero, entry⟩ := probe_leaves_tables k reachable fits (ascii "/a")
  have ready : Probeable k (ascii "/a") sampleImage :=
    ⟨free, slot, ⟨9, found, file⟩, by rw [offset]; decide, sampleImage_executable⟩
  obtain ⟨image, present, size, start⟩ := entry sampleImage ready
  exact ⟨k, result, after, image, reachable, returns, zero.mpr ⟨_, ready⟩, present, size.trans (by decide),
    start.trans (by decide), nodes⟩

end Mgcore
