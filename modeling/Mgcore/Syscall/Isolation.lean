import Mgcore.Syscall.Runs

/-!
# What a call leaves alone

A call stores in the buffer it was given and nowhere else in the memory of the programs. What belongs to another task (its names, its working
directory, its address space, its descriptors and the files open through them, with their positions) does not change before
that task runs again.
-/

namespace Mgcore
open Function Lib

/-! ## Memory -/

/-- The memory differs in the first bytes of a buffer only. -/
def StoredIn (buffer : UInt64 × Nat) (m m' : Machine) : Prop :=
  ∀ address, (∀ i, i < buffer.2 → (buffer.1.toNat + i) % wordSize ≠ address) → m'.memory address = m.memory address

theorem storedIn_none (buffer : UInt64 × Nat) {m m' : Machine} (same : m'.memory = m.memory) : StoredIn buffer m m' :=
  fun _ _ => by rw [same]

theorem storedIn_put {m u m' : Machine} {address : UInt64} {bytes : List UInt8} {size : Nat} (same : u.memory = m.memory)
    (short : bytes.length ≤ size) (stored : u.put address bytes = some m') : StoredIn (address, size) m m' := by
  obtain ⟨-, rfl⟩ := Machine.put_eq stored
  intro target outside
  have kept : store wordSize u.memory address.toNat bytes target = u.memory target :=
    store_other fun i inside => outside i (Nat.lt_of_lt_of_le inside short)
  show store wordSize u.memory address.toNat bytes target = _
  rw [kept, same]

/-- Programs lie in the lower half of the addresses, so a count of bytes that have been stored is not negative. -/
theorem Machine.put_length {m m' : Machine} {address : UInt64} {bytes : List UInt8} (stored : m.put address bytes = some m') :
    bytes.length ≤ 2 ^ 30 ∧ (bytes ≠ [] → address.toNat < 2 ^ 30) := by
  have holds := (put_eq stored).1
  have mapped := m.programs.mapped
  unfold Holds at holds
  refine ⟨by omega, fun some => ?_⟩
  have positive := List.length_pos_iff.mpr some
  omega

structure CallStores (nr : Nat) (a : Args) (m : Machine) (r : Int) (m' : Machine) : Prop where
  inside : StoredIn (outputBuffer nr a) m m'
  refused : r < 0 → m'.memory = m.memory

def Confined (entry : Nat × SyscallHandler) : Prop := ∀ m a r m', entry.2 m a = some (r, m') → CallStores entry.1 a m r m'

theorem callStores_same {nr : Nat} {a : Args} {m m' : Machine} {r : Int} (same : m'.memory = m.memory) : CallStores nr a m r m' :=
  ⟨storedIn_none _ same, fun _ => same⟩

theorem CallStores.of_some {nr : Nat} {a : Args} {m m' : Machine} {r : Int} {result : Int × Machine}
    (stored : CallStores nr a m result.1 result.2) (returns : some result = some (r, m')) : CallStores nr a m r m' := by
  cases returns
  exact stored

/-- A call that stores in its buffer and answers with what is not negative, unless nothing is stored. -/
theorem CallStores.of_put {nr : Nat} {a : Args} {m u m' : Machine} {r value : Int} {bytes : List UInt8}
    (same : u.memory = m.memory) (short : bytes.length ≤ (outputBuffer nr a).2)
    (nonneg : ∀ m', u.put (outputBuffer nr a).1 bytes = some m' → bytes = [] ∨ 0 ≤ value)
    (returns : (u.put (outputBuffer nr a).1 bytes).map (fun m => (value, m)) = some (r, m')) : CallStores nr a m r m' := by
  obtain ⟨after, stored, answer⟩ := Option.map_eq_some_iff.mp returns
  cases answer
  refine ⟨storedIn_put same short stored, fun negative => ?_⟩
  have empty : bytes = [] := (nonneg _ stored).resolve_right (Int.not_le.mpr negative)
  obtain ⟨-, rfl⟩ := Machine.put_eq stored
  rw [empty]
  exact same

theorem onFs_stored {nr : Nat} (m : Machine) (a : Args) (result : Int × Fs) :
    CallStores nr a m (m.onFs result).1 (m.onFs result).2 := callStores_same rfl

theorem readInto_stored {m m' : Machine} {fd r : Int} {a : Args} (returns : readInto m fd a.a1 a.a2 = some (r, m')) :
    CallStores 0 a m r m' := by
  obtain ⟨short, counted⟩ := fsReadFd_bytes m.fs fd (readCount m.fs fd a.a1 a.a2)
  refine CallStores.of_put (u := m.setFs (fsReadFd m.fs fd (readCount m.fs fd a.a1 a.a2)).2) rfl
    (Nat.le_trans short (readCount_le m.fs fd a.a1 a.a2)) (fun after stored => ?_) returns
  refine counted.imp_right fun count => ?_
  have length := (Machine.put_length stored).1
  rw [count, toSigned_of_lt (by omega)]
  exact Int.natCast_nonneg _

theorem writeFrom_stored {nr : Nat} {m m' : Machine} {fd r : Int} {a : Args} {buffer : UInt64} {count : Nat}
    (returns : writeFrom m fd buffer count = some (r, m')) : CallStores nr a m r m' := by
  unfold writeFrom at returns
  split_ifs at returns
  exact (onFs_stored m a _).of_some returns

theorem fstatInto_stored {m m' : Machine} {fd r : Int} {a : Args} (returns : fstatInto m fd a.a1 = some (r, m')) :
    CallStores 5 a m r m' := by
  unfold fstatInto at returns
  cases found : fsFstatFd m.fs fd with
  | mk value stat =>
      rw [found] at returns
      cases stat with
      | none => exact (callStores_same rfl).of_some returns
      | some stat =>
          dsimp only at returns
          split_ifs at returns
          · exact (callStores_same rfl).of_some returns
          · refine CallStores.of_put rfl (Nat.le_of_eq stat.bytes_length) (fun _ _ => Or.inr ?_) returns
            unfold fsFstatFd at found
            split at found
            · cases found
            · split at found
              · cases found
              · cases found
                exact Int.le_refl 0

theorem sysStat_confined : Confined (4, sysStat) := by
  intro m a r m' returns
  simp only [sysStat, fsStatPath, Option.bind_eq_bind, Option.bind_eq_some_iff, Option.pure_def] at returns
  obtain ⟨path, -, ⟨value, stat⟩, ⟨nodeId, -, looked⟩, after, stored, returns⟩ := returns
  have result : (value, stat) = (-eINVAL, none) ∨ ∃ node, (value, stat) = (0, some (fillStatFromNode node)) := by
    split at looked
    · cases looked
      exact Or.inl rfl
    · split_ifs at looked
      · cases looked
        exact Or.inr ⟨_, rfl⟩
      · cases looked
        exact Or.inl rfl
  have answer : (m.put a.a1 (stat.elim [] Stat.bytes)).map (fun m => (value, m)) = some (r, m') := by
    rw [stored, Option.map_some]
    exact returns
  refine CallStores.of_put rfl ?_ (fun _ _ => ?_) answer
  · rcases result with failed | ⟨node, found⟩
    · cases failed
      exact Nat.zero_le _
    · cases found
      exact Nat.le_of_eq (Stat.bytes_length _)
  · rcases result with failed | ⟨node, found⟩
    · cases failed
      exact Or.inl rfl
    · cases found
      exact Or.inr (Int.le_refl 0)

theorem waitCandidate_pid {s : TaskTable} {pid : Nat} {child : Task} (found : waitCandidate s pid = some child) :
    child.pid = pid := by
  unfold waitCandidate at found
  split at found
  · cases found
  · rename_i i known
    split_ifs at found
    cases found
    have both := List.find?_some known
    simp only [decide_eq_true_eq] at both
    exact both.2

/-- The answer is a pid unless there is no child. -/
theorem sysWait4_nonneg (tasks : TaskTable) (hasStatus : Bool) :
    (sysWait4 tasks hasStatus).2 = none ∨ 0 ≤ (sysWait4 tasks hasStatus).1 := by
  unfold sysWait4
  cases found : (List.range' 1 (maxTasks - 1)).findSome? (waitCandidate tasks) with
  | none => exact Or.inl rfl
  | some child =>
      obtain ⟨pid, -, candidate⟩ := List.exists_of_findSome?_eq_some found
      right
      show 0 ≤ child.pid
      rw [waitCandidate_pid candidate]
      exact Int.natCast_nonneg pid

theorem sysWait4_confined : Confined (61, sysWait4Call) := by
  intro m a r m' returns
  refine CallStores.of_put rfl (sysWait4_status m.tasks (a.a1 ≠ 0)).1 (fun _ _ => ?_) returns
  refine (sysWait4_nonneg m.tasks (a.a1 ≠ 0)).imp_left fun none => ?_
  rw [none]
  rfl

/-- The memory of a call that has no buffer. -/
theorem confined_same {nr : Nat} {handler : SyscallHandler}
    (same : ∀ m a r m', handler m a = some (r, m') → m'.memory = m.memory) : Confined (nr, handler) :=
  fun m a r m' returns => callStores_same (same m a r m' returns)

theorem pathCall_memory (call : Fs → List UInt8 → Option (Int × Fs)) (m : Machine) (a : Args) (r : Int) (m' : Machine)
    (returns : pathCall call m a = some (r, m')) : m'.memory = m.memory := by
  simp only [pathCall, Option.bind_eq_bind, Option.bind_eq_some_iff, Option.pure_def] at returns
  obtain ⟨path, -, ⟨value, s⟩, -, returns⟩ := returns
  cases returns
  rfl

/-- A call that stores something unless its arguments are bad. -/
theorem confined_refusal {nr : Nat} {handler : SyscallHandler} {bad : Machine → Args → Prop} [∀ m a, Decidable (bad m a)]
    {error : Int} {value : Machine → Args → Int} {bytes : Machine → Args → List UInt8}
    (returns : ∀ m a, handler m a =
      if bad m a then some (error, m) else (m.put (outputBuffer nr a).1 (bytes m a)).map fun m' => (value m a, m'))
    (short : ∀ m a, ¬bad m a → (bytes m a).length ≤ (outputBuffer nr a).2)
    (nonneg : ∀ m a m', m.put (outputBuffer nr a).1 (bytes m a) = some m' → 0 ≤ value m a) : Confined (nr, handler) := by
  intro m a r m' called
  dsimp only at called
  rw [returns] at called
  split_ifs at called with refused
  · cases called
    exact callStores_same rfl
  · exact CallStores.of_put rfl (short m a refused) (fun after stored => Or.inr (nonneg m a after stored)) called

theorem sysOpen_confined {nr : Nat} : Confined (nr, sysOpen) := by
  refine confined_same fun m a r m' returns => ?_
  simp only [sysOpen, Option.bind_eq_bind, Option.bind_eq_some_iff, Option.pure_def] at returns
  obtain ⟨path, -, result, -, returns⟩ := returns
  cases returns
  rfl

theorem sysOpenat_confined {nr : Nat} : Confined (nr, sysOpenat) := by
  refine confined_same fun m a r m' returns => ?_
  simp only [sysOpenat] at returns
  split_ifs at returns
  · cases returns
    rfl
  · simp only [Option.bind_eq_bind, Option.bind_eq_some_iff, Option.pure_def] at returns
    obtain ⟨path, -, result, -, returns⟩ := returns
    cases returns
    rfl

theorem sysExecve_confined {nr : Nat} (stack : Nat → UInt8) : Confined (nr, sysExecveCall stack) := by
  refine confined_same fun m a r m' returns => ?_
  simp only [sysExecveCall, Option.bind_eq_bind, Option.bind_eq_some_iff, Option.pure_def] at returns
  obtain ⟨path, -, result, -, returns⟩ := returns
  cases returns
  rfl

theorem sysGetcwd_confined : Confined (79, sysGetcwd) := by
  refine confined_refusal (fun m a => rfl) (fun m a good => ?_) fun m a _ stored => ?_
  · rw [List.length_append, List.length_singleton]
    exact Nat.not_lt.mp fun small => good (Or.inr small)
  · have low : a.a0.toNat < 2 ^ 30 := (Machine.put_length stored).2 (by simp)
    rw [toSigned_of_lt (by omega)]
    exact Int.natCast_nonneg _

theorem syscallTable_confined (stack : Nat → UInt8) : ∀ entry ∈ syscallTable stack, Confined entry := by
  have tasks {nr : Nat} (call : TaskTable → Args → Int × TaskTable) : Confined (nr, taskHandler call) :=
    confined_same fun m a r m' returns => by
      cases returns
      rfl
  have fixed {nr : Nat} {handler : SyscallHandler} (value : Machine → Args → Int)
      (returns : ∀ m a, handler m a = some (value m a, m)) : Confined (nr, handler) :=
    confined_same fun m a r m' called => by
      rw [returns] at called
      cases called
      rfl
  simp only [syscallTable, List.forall_mem_cons, List.not_mem_nil, IsEmpty.forall_iff, implies_true, and_true]
  refine ⟨?read, ?write, sysOpen_confined, ?close, sysStat_confined, ?fstat, ?lseek, tasks _, fixed _ fun _ _ => rfl,
    fixed _ fun _ _ => rfl, tasks _, fixed _ fun _ _ => rfl, fixed _ fun _ _ => rfl, fixed _ fun _ _ => rfl, ?sleep,
    fixed _ fun _ _ => rfl, fixed _ fun _ _ => rfl, tasks _, sysExecve_confined stack, tasks _, sysWait4_confined,
    fixed _ fun _ _ => rfl, ?uname, sysGetcwd_confined, confined_same (pathCall_memory _),
    confined_same fun m a => pathCall_memory _ m a, confined_same (pathCall_memory _), confined_same (pathCall_memory _), ?time,
    ?reboot, sysOpenat_confined⟩
  case read =>
    intro m a r m' returns
    dsimp only at returns
    exact readInto_stored returns
  case fstat =>
    intro m a r m' returns
    dsimp only at returns
    exact fstatInto_stored returns
  case write =>
    intro m a r m' returns
    dsimp only at returns
    exact writeFrom_stored returns
  case close => exact fun m a _ _ => (onFs_stored m a _).of_some
  case lseek => exact fun m a _ _ => (onFs_stored m a _).of_some
  case sleep =>
    refine confined_same fun m a r m' returns => ?_
    simp only [sysNanosleepCall, Option.bind_eq_bind, Option.bind_eq_some_iff, Option.pure_def] at returns
    obtain ⟨request, -, returns⟩ := returns
    cases returns
    rfl
  case uname =>
    exact confined_refusal (fun m a => rfl) (fun m a _ => show utsname.length ≤ 325 by decide +kernel) fun _ _ _ _ => Int.le_refl 0
  case time =>
    refine confined_refusal (fun m a => rfl) (fun m a _ => ?_) fun _ _ _ _ => Int.le_refl 0
    simp [leStore, outputBuffer]
  case reboot =>
    intro m a r m' returns
    cases returns

/-- Memory outside the buffer of the call is left alone, and all of it when the call is refused. -/
theorem syscall_stores_in_buffer {stack : Nat → UInt8} {m m' : Machine} {nr : UInt64} {a : Args} {r : Int}
    (returns : syscallDispatch stack m nr a = some (r, m')) : CallStores nr.toNat a m r m' := by
  rcases syscallDispatch_cases returns with ⟨-, rfl⟩ | ⟨handler, entry, called⟩
  · exact callStores_same rfl
  · exact syscallTable_confined stack _ entry m a r m' called

theorem syscall_stores_in_buffer_uname :
    ∃ s m', fsBoot {} = some s ∧
      syscallDispatch (fun _ => 0) (machineBoot s samplePrograms pathMemory) 63 { a0 := 0x800100 } = some (0, m') ∧
      CallStores 63 { a0 := 0x800100 } (machineBoot s samplePrograms pathMemory) 0 m' ∧ m'.memory 0x800000 = 0x2F := by
  have boots : (fsBoot {}).isSome := by decide +kernel
  obtain ⟨s, boots⟩ := Option.isSome_iff_exists.mp boots
  obtain ⟨m', put⟩ : ∃ m', (machineBoot s samplePrograms pathMemory).put 0x800100 utsname = some m' :=
    Option.isSome_iff_exists.mp
      (Machine.put_isSome (Or.inr (show 0x800000 ≤ 0x800100 ∧ 0x800100 + 325 ≤ 0x804000 by decide))
        (show utsname.length ≤ 325 by decide +kernel))
  have returns : syscallDispatch (fun _ => 0) (machineBoot s samplePrograms pathMemory) 63 { a0 := 0x800100 } = some (0, m') := by
    show sysUname (machineBoot s samplePrograms pathMemory) { a0 := 0x800100 } = _
    rw [sysUname, if_neg (by decide), put, Option.map_some]
  have stored := syscall_stores_in_buffer returns
  refine ⟨s, m', boots, returns, stored, ?_⟩
  rw [stored.inside 0x800000 fun i inside => ?_]
  · rfl
  · have small : i < 325 := inside
    show (0x800100 + i) % wordSize ≠ 0x800000
    unfold wordSize
    omega

/-! ## Tasks -/

/-- What belongs to a task, beside what the scheduler writes. -/
structure TaskKept (i : Fin maxTasks) (s t : Fs) : Prop where
  entry : ∃ state ticks wakeup code, t.tasks.tasks i =
    { s.tasks.tasks i with state := state, runtimeTicks := ticks, wakeupTick := wakeup, exitCode := code }
  used : (t.tasks.tasks i).state ≠ .unused
  files : ∀ fd f, (s.tasks.tasks i).fds fd = some f → t.openFiles f = s.openFiles f

namespace TaskKept
variable {i : Fin maxTasks} {s t u : Fs}

theorem refl (used : (s.tasks.tasks i).state ≠ .unused) : TaskKept i s s := ⟨⟨_, _, _, _, rfl⟩, used, fun _ _ _ => rfl⟩

theorem trans (first : TaskKept i s t) (next : TaskKept i t u) : TaskKept i s u := by
  obtain ⟨state, ticks, wakeup, code, entry⟩ := first.entry
  obtain ⟨state', ticks', wakeup', code', entry'⟩ := next.entry
  rw [entry] at entry'
  refine ⟨⟨_, _, _, _, entry'⟩, next.used, fun fd f opened => ?_⟩
  rw [next.files fd f (by rw [entry]; exact opened), first.files fd f opened]

/-- The entry of the task is the same, and so are the files. -/
theorem of_same (used : (s.tasks.tasks i).state ≠ .unused) (entry : t.tasks.tasks i = s.tasks.tasks i)
    (files : t.openFiles = s.openFiles) : TaskKept i s t :=
  ⟨⟨_, _, _, _, entry⟩, by rw [entry]; exact used, fun _ _ _ => by rw [files]⟩

end TaskKept

theorem lookupFile_fds {s : Fs} {fd : Int} {f : Nat} (entry : lookupFile s fd = some f) :
    (taskCurrent s.tasks).fds fd.toNat = some f := by
  unfold lookupFile at entry
  split_ifs at entry
  exact entry

/-- A call changes the open files of its own task and those that are free. -/
theorem fsCall_own {s t : Fs} {c : FsCall} {r : Int} (returns : fsCall s c = some (r, t)) {g : Nat}
    (used : (s.openFiles g).used = true) (others : ∀ fd, (taskCurrent s.tasks).fds fd ≠ some g) :
    t.openFiles g = s.openFiles g := by
  have moved {fd : Int} {f : Nat} (entry : lookupFile s fd = some f) (file : VfsFile) :
      (s.setFile f file).openFiles g = s.openFiles g := by
    have apart : g ≠ f := fun same => others fd.toNat (same ▸ lookupFile_fds entry)
    rw [Fs.setFile_openFiles, update_of_ne apart]
  cases c with
  | read fd count =>
      cases returns
      unfold fsReadFd
      dsimp only
      split
      · split_ifs <;> rfl
      · rename_i f entry
        split
        · rfl
        · split_ifs
          · rfl
          · rfl
          · exact moved entry _
          · rfl
  | lseek fd offset whence =>
      have eq : t = (fsLseekFd s fd offset whence).2 := congrArg Prod.snd (Option.some.inj returns).symm
      rw [eq]
      unfold fsLseekFd
      split
      · rfl
      · rename_i f entry
        dsimp only
        split
        · rfl
        · split_ifs
          · exact moved entry _
          · exact moved entry _
          · exact moved entry _
          · rfl
  | write fd buffer =>
      have eq : t = (fsWriteFd s fd buffer).2 := congrArg Prod.snd (Option.some.inj returns).symm
      rw [eq]
      unfold fsWriteFd
      dsimp only
      split
      · split_ifs <;> rfl
      · split
        · rfl
        · split_ifs <;> rfl
  | openPath path flags mode =>
      have apart {f : Nat} (free : (s.openFiles f).used = false) : g ≠ f := by
        rintro rfl
        rw [free] at used
        cases used
      obtain ⟨nodeId, u, opened, ⟨failed, f, free, rfl⟩ | ⟨failed, rfl⟩ | ⟨f, fd, nonneg, free, slot, rfl, rfl⟩⟩ :=
        fsOpenPath_cases returns
      · rw [Fs.setFile_openFiles, update_of_ne (apart free)]
      · rfl
      · rw [Fs.setFd_openFiles, Fs.setFile_openFiles, update_of_ne (apart (freeFile_spec free).2)]
  | close fd =>
      have eq : fsCloseFd s fd = (r, t) := Option.some.inj returns
      cases entry : lookupFile s fd with
      | none =>
          simp only [fsCloseFd, entry] at eq
          cases eq
          rfl
      | some f =>
          simp only [fsCloseFd, entry] at eq
          cases eq
          exact moved entry _
  | mkdir path mode =>
      simp only [fsCall, fsMkdirPath, Option.bind_eq_bind, Option.bind_eq_some_iff, Option.pure_def] at returns
      obtain ⟨⟨r', u⟩, -, returns⟩ := returns
      cases returns
      rfl
  | rmdir path =>
      simp only [fsCall, fsRmdirPath, fsRemovePath, Option.bind_eq_bind, Option.bind_eq_some_iff, Option.pure_def] at returns
      obtain ⟨⟨r', u⟩, -, returns⟩ := returns
      cases returns
      rfl
  | unlink path =>
      simp only [fsCall, fsUnlinkPath, fsRemovePath, Option.bind_eq_bind, Option.bind_eq_some_iff, Option.pure_def] at returns
      obtain ⟨⟨r', u⟩, -, returns⟩ := returns
      cases returns
      rfl

namespace TaskKept
variable {i : Fin maxTasks} {k : Kernel}

theorem call {s t : Fs} (table : TableConsistent s) (other : i ≠ s.tasks.currentIndex)
    (used : (s.tasks.tasks i).state ≠ .unused) {c : FsCall} {r : Int} (returns : fsCall s c = some (r, t)) : TaskKept i s t := by
  have entry : t.tasks.tasks i = s.tasks.tasks i := by
    rcases fsCall_tasks returns with same | ⟨fd, file, same⟩
    · rw [same]
    · obtain ⟨fds, entry, kept⟩ := s.setFd_entry fd file i
      rw [same, entry, kept other]
  refine ⟨⟨_, _, _, _, entry⟩, by rw [entry]; exact used, fun fd f opened => ?_⟩
  refine fsCall_own returns (table.to_used i fd f opened).2.2 fun fd' mine => ?_
  exact other (table.injective i fd s.tasks.currentIndex fd' f opened mine).1

theorem ownCall {s : TaskTable} (other : i ≠ s.currentIndex) (used : (s.tasks i).state ≠ .unused) {c : TaskCall}
    (own : OwnCall c) : (taskCallStep s c).tasks i = s.tasks i := by
  have elsewhere (task : Task) : (s.setTask s.currentIndex task).tasks i = s.tasks i := by
    rw [TaskTable.setTask_tasks, update_of_ne other]
  cases own with
  | spawn name =>
      rcases taskSpawnUser_cases s name with ⟨same, -⟩ | ⟨j, -, new⟩
      · rw [taskCallStep, taskStep, same]
      · exact new.other used
  | exit status => exact elsewhere _
  | sleep tick => exact elsewhere _
  | brk address =>
      rw [taskCallStep]
      rcases sysBrk_cases s address with same | moved
      · rw [same]
      · rw [moved]
        exact elsewhere _
  | mmap length =>
      rw [taskCallStep]
      obtain ⟨cursor, -, moved⟩ := sysMmap_cases s length
      rw [moved]
      exact elsewhere _

theorem probe (inv : SystemInv k) (other : i ≠ k.fs.tasks.currentIndex) (used : (k.fs.tasks.tasks i).state ≠ .unused)
    {path : List UInt8} {result : Int × Option ElfImage} {after : Kernel}
    (probes : elfProbePath k path = some (result, after)) : TaskKept i k.fs after.fs := by
  -- the table stays consistent and the caller current between the calls of a probe
  have all := elfProbePath_invariant
    (P := fun s => TableConsistent s ∧ s.tasks.currentIndex = k.fs.tasks.currentIndex ∧ TaskKept i k.fs s)
    (fun s c r t before returns => ⟨before.1.call returns, (fsCall_same returns).current.trans before.2.1,
      before.2.2.trans (call before.1 (before.2.1 ▸ other) before.2.2.used returns)⟩)
    ⟨inv.files, rfl, .refl used⟩ probes
  exact all.2.2

theorem effect (inv : SystemInv k) (other : i ≠ k.fs.tasks.currentIndex) (used : (k.fs.tasks.tasks i).state ≠ .unused)
    {stack : Nat → UInt8} {r : Int} {k' : Kernel} (effect : KernelEffect stack k r k') : TaskKept i k.fs k'.fs := by
  cases effect with
  | same => exact .refl used
  | call _ returns => exact call inv.files other used returns
  | chdir returns =>
      rcases fsChdirPath_cases returns with ⟨rfl, -⟩ | ⟨-, j, -, -, rfl⟩
      · exact .refl used
      · exact .of_same used (by rw [Fs.setCwd_entry, if_neg other]) rfl
  | task own => exact .of_same used (ownCall other used own) rfl
  | execve returns =>
      simp only [sysExecve, Option.bind_eq_bind, Option.bind_eq_some_iff] at returns
      obtain ⟨⟨⟨status, image⟩, after⟩, probes, returns⟩ := returns
      have probed := probe inv other used probes
      dsimp only at returns
      split_ifs at returns
      · cases returns
        exact probed
      · simp only [Option.bind_eq_some_iff] at returns
        obtain ⟨console, -, returns⟩ := returns
        cases returns
        exact ⟨probed.entry, probed.used, probed.files⟩

theorem tick {s : Fs} (inv : TaskInv s.tasks) (used : (s.tasks.tasks i).state ≠ .unused) (now : UInt64) :
    TaskKept i s { s with tasks := taskSchedulerTick s.tasks now } := by
  obtain ⟨state, ticks, kept⟩ := tick_kept s.tasks now i
  refine ⟨⟨state, ticks, _, _, kept⟩, ?_, fun _ _ _ => rfl⟩
  show ((taskSchedulerTick s.tasks now).tasks i).state ≠ .unused
  rw [tick_state inv]
  split_ifs
  · decide
  · exact fun unused => used ((awakeState_eq_unused now _).mp unused)

end TaskKept

/-- The task makes no call of its own. -/
def Silent (i : Fin maxTasks) (m : Machine) : MachineOp → Prop
  | .syscall _ _ => i ≠ m.tasks.currentIndex
  | _ => True

instance (i : Fin maxTasks) (m : Machine) (op : MachineOp) : Decidable (Silent i m op) :=
  match op with
  | .syscall _ _ => inferInstanceAs (Decidable (_ ≠ _))
  | .program _ => isTrue trivial
  | .tick _ _ => isTrue trivial
  | .input _ => isTrue trivial

theorem TaskKept.step {stack : Nat → UInt8} {i : Fin maxTasks} {m m' : Machine} (inv : SystemInv m.kernel)
    (used : (m.tasks.tasks i).state ≠ .unused) {op : MachineOp} (silent : Silent i m op)
    (steps : machineStep stack m op = some m') : TaskKept i m.fs m'.fs := by
  cases op with
  | syscall nr a =>
      obtain ⟨⟨r, after⟩, returns, rfl⟩ := Option.map_eq_some_iff.mp steps
      exact TaskKept.effect inv silent used (syscallDispatch_effect returns).kernel
  | program memory =>
      cases steps
      exact .refl used
  | input c =>
      cases steps
      exact .of_same used rfl rfl
  | tick total free =>
      obtain ⟨s, ticks, rfl⟩ := Option.map_eq_some_iff.mp steps
      show TaskKept i m.fs { m.fs with tasks := s.tasks }
      rw [(schedulerTick_tasks ticks).1]
      exact .tick inv.kernel.tasks used (m.uptimeTicks + 1)

/-- Between two of its own calls nothing that belongs to a task changes, whatever the other tasks and the timer do, as long as
the calls keep to the memory of the programs. -/
theorem task_kept_by_others (stack : Nat → UInt8) {console : Console} {s : Fs} (boots : fsBoot console = some s)
    (programs : ProgramMemory) (memory : Nat → UInt8) {before ops : List MachineOp} {m m' : Machine}
    (reaches : run (machineStep stack) (machineBoot s programs memory) before = some m)
    (continues : run (machineStep stack) m ops = some m') {i : Fin maxTasks} (used : (m.tasks.tasks i).state ≠ .unused)
    (silent : Along (machineStep stack) (Silent i) m ops) : TaskKept i m.fs m'.fs := by
  have keeps (u : Machine) (op : MachineOp) (u' : Machine) (both : SystemInv u.kernel ∧ TaskKept i m.fs u.fs)
      (guard : Silent i u op) (steps : machineStep stack u op = some u') : SystemInv u'.kernel ∧ TaskKept i m.fs u'.fs :=
    ⟨both.1.step steps, both.2.trans (.step both.1 both.2.used guard steps)⟩
  exact (silent.invariant keeps ⟨SystemInv.of_run boots reaches, .refl used⟩ continues).2

theorem task_kept_by_others_fork :
    ∃ m m' : Machine, TaskKept 0 m.fs m'.fs ∧ m'.tasks.currentIndex = 1 ∧ (taskCurrent m'.tasks).cwd = ascii "/tmp/x" := by
  -- the child changes its working directory
  have runs : ((fsBoot {}).bind fun s => (run (machineStep fun _ => 0) (machineBoot s samplePrograms pathMemory) mkdirRun).bind fun m =>
      (run (machineStep fun _ => 0) m [.tick 512 256, .syscall 80 { a0 := 0x800000 }]).map fun m' => (s, m, m')).map
      (fun states => decide ((states.2.1.tasks.tasks 0).state ≠ .unused ∧
        Along (machineStep fun _ => 0) (Silent 0) states.2.1 [.tick 512 256, .syscall 80 { a0 := 0x800000 }] ∧
        states.2.2.tasks.currentIndex = 1 ∧ (taskCurrent states.2.2.tasks).cwd = ascii "/tmp/x")) = some true := by
    decide +kernel
  obtain ⟨⟨s, m, m'⟩, reaches, used, silent, current, moved⟩ := exists_of_check runs
  obtain ⟨s, boots, reaches⟩ := Option.bind_eq_some_iff.mp reaches
  obtain ⟨m, reaches, rest⟩ := Option.bind_eq_some_iff.mp reaches
  obtain ⟨m', continues, same⟩ := Option.map_eq_some_iff.mp rest
  cases same
  exact ⟨m, m', task_kept_by_others (fun _ => 0) boots samplePrograms pathMemory reaches continues used silent, current, moved⟩

end Mgcore
