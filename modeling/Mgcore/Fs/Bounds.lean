import Mgcore.Fs.Boot

/-!
# Writes and the storage of a file

`tmpfs_write_node` rounds the end of a write with 32-bit masks and adds offset and count modulo the word size.
A write stays inside the storage of its file exactly when its end, as a number, is at most `writeLimit`, or
when it is refused. The storage that `alloc_storage` hands out is recorded in a log beside the state.
-/

namespace Mgcore
open Function

/-- No room is left for the rounded end of a write that needs new storage. -/
def Refused (s : Tmpfs) (i endOffset : Nat) : Prop :=
  (s.nodes i).capacity < endOffset ∧ arenaSize < s.dataOffset + roundCapacity endOffset

def WriteFits (s : Fs) (fd : Int) (count : Nat) : Prop :=
  ∀ f i, OnFile s fd f i → (s.openFiles f).offset + count ≤ writeLimit ∨
    Refused s.tmpfs i (((s.openFiles f).offset + count) % wordSize)

def StepFits (s : Fs) (op : Fin maxTasks × FsCall) : Prop :=
  ∀ fd buffer, op.2 = .write fd buffer → WriteFits (s.as op.1) fd buffer.length

/-- A call of `alloc_storage` that moved `g_data_offset`, as the first address and the number of bytes. -/
def logReservation (before after : Tmpfs) (log : List (Nat × Nat)) : List (Nat × Nat) :=
  if after.dataOffset = before.dataOffset then log
  else (before.dataOffset, after.dataOffset - before.dataOffset) :: log

def loggedStep (g : Fs × List (Nat × Nat)) (op : Fin maxTasks × FsCall) : Option (Fs × List (Nat × Nat)) :=
  (fsStep g.1 op).map fun t => (t, logReservation g.1.tmpfs t.tmpfs g.2)

def Reserved (log : List (Nat × Nat)) (n : VfsNode) : Prop :=
  match n.data with
  | none => n.capacity = 0
  | some d => ∃ size, (d, size) ∈ log ∧ n.capacity ≤ size ∧ d + size ≤ arenaSize

def WriteInBounds (g : Fs × List (Nat × Nat)) (caller : Fin maxTasks) (fd : Int) (buffer : List UInt8) : Prop :=
  ∀ f i, OnFile (g.1.as caller) fd f i → ∀ r t,
    tmpfsWriteNode g.1.tmpfs i buffer (g.1.openFiles f).offset = (r, t) → 0 ≤ r →
      (g.1.openFiles f).offset + buffer.length ≤ (t.nodes i).capacity ∧ (t.nodes i).size ≤ (t.nodes i).capacity ∧
        Reserved (logReservation g.1.tmpfs t g.2) (t.nodes i)

/-! ## One write -/

theorem toSigned_nonneg {n : Nat} (fits : n < wordSize) : 0 ≤ toSigned n ↔ n < 2 ^ 63 := by
  unfold wordSize at fits
  unfold toSigned wordSize
  split_ifs <;> omega

namespace StorageInv
variable {s t : Tmpfs} {i : Nat} {buffer : List UInt8} {offset : Nat}

theorem write_refused (inv : StorageInv s) (bound : i < maxNodes) (isFile : (s.nodes i).type = .file)
    (refused : Refused s i ((offset + buffer.length) % wordSize)) :
    tmpfsWriteNode s i buffer offset = (-eNOSPC, s) := by
  rw [tmpfsWriteNode_file bound isFile, if_pos refused.1, inv.growNode_eq_none.mpr refused.2]

theorem write_value (inv : StorageInv s) (bound : i < maxNodes) (isFile : (s.nodes i).type = .file)
    (accepted : ¬Refused s i ((offset + buffer.length) % wordSize)) :
    (tmpfsWriteNode s i buffer offset).1 = toSigned buffer.length := by
  rw [tmpfsWriteNode_file bound isFile]
  split_ifs with grows
  · cases grown : Mgcore.growNode s i ((offset + buffer.length) % wordSize) with
    | none => exact absurd ⟨grows, inv.growNode_eq_none.mp grown⟩ accepted
    | some u => rfl
  · rfl

theorem write_within_iff (inv : StorageInv s) (bound : i < maxNodes) (isFile : (s.nodes i).type = .file) {r : Int}
    (returns : tmpfsWriteNode s i buffer offset = (r, t)) (accepted : 0 ≤ r) :
    offset + buffer.length ≤ (t.nodes i).capacity ↔ offset + buffer.length ≤ writeLimit := by
  -- Storage lies in the arena, so a write that stays inside it ends below the limit; and below the limit the
  -- rounding is exact.
  have region := inv.region_fits i
  have small : arenaSize ≤ writeLimit := by decide
  have noWrap : offset + buffer.length ≤ writeLimit →
      (offset + buffer.length) % wordSize = offset + buffer.length := by
    intro limit
    unfold writeLimit at limit
    exact Nat.mod_eq_of_lt (by unfold wordSize; omega)
  rw [tmpfsWriteNode_file bound isFile] at returns
  by_cases grows : (s.nodes i).capacity < (offset + buffer.length) % wordSize
  · rw [if_pos grows] at returns
    cases grown : Mgcore.growNode s i ((offset + buffer.length) % wordSize) with
    | none =>
        rw [grown] at returns
        cases returns
        exact absurd accepted (by decide)
    | some u =>
        rw [grown] at returns
        cases returns
        obtain ⟨room, -, nodes, -⟩ := inv.growNode_spec grown
        rw [putBytes_nodes, if_pos rfl, nodes, if_pos rfl]
        dsimp only
        constructor
        · intro within
          omega
        · intro limit
          rw [noWrap limit]
          exact le_roundCapacity limit
  · rw [if_neg grows] at returns
    cases returns
    rw [putBytes_nodes, if_pos rfl]
    dsimp only
    constructor
    · intro within
      omega
    · intro limit
      rw [noWrap limit] at grows
      exact Nat.not_lt.mp grows

end StorageInv

inductive FittingEffect (s : Tmpfs) : Tmpfs → Prop
  | same : FittingEffect s s
  | created {t : Tmpfs} {path : List UInt8} {type : NodeType} {mode : UInt32} {r : Int} (kind : type ≠ .none)
      (returns : tmpfsCreatePath s path type mode = some (r, t)) : FittingEffect s t
  | removed {t : Tmpfs} {path : List UInt8} {wantDir : Bool} {r : Int}
      (returns : tmpfsRemovePath s path wantDir = some (r, t)) : FittingEffect s t
  | written {buffer : List UInt8} {offset : Nat} (nodeId : Int) (limit : offset + buffer.length ≤ writeLimit) :
      FittingEffect s (tmpfsWriteNode s nodeId buffer offset).2

theorem StepFits.effect {s t : Fs} {op : Fin maxTasks × FsCall} (fits : StepFits s op) (inv : StorageInv s.tmpfs)
    (steps : fsStep s op = some t) : FittingEffect s.tmpfs t.tmpfs := by
  obtain ⟨⟨r, v⟩, returns, rfl⟩ := Option.map_eq_some_iff.mp steps
  obtain ⟨caller, call⟩ := op
  dsimp only at returns ⊢
  by_cases isWrite : ∃ fd buffer, call = .write fd buffer
  · obtain ⟨fd, buffer, rfl⟩ := isWrite
    have eq : v = (fsWriteFd (s.as caller) fd buffer).2 := congrArg Prod.snd (Option.some.inj returns).symm
    rw [eq]
    by_cases reaches : ∃ f i, OnFile (s.as caller) fd f i
    · obtain ⟨f, i, onFile⟩ := reaches
      rw [onFile.fsWriteFd_eq]
      rcases fits fd buffer rfl f i onFile with limit | refused
      · exact .written i limit
      · -- A refused write returns before it changes anything.
        have unchanged := inv.write_refused onFile.bound onFile.regular refused
        simp only [Fs.as_tmpfs, Fs.as_openFiles] at unchanged ⊢
        rw [unchanged]
        exact .same
    · rw [fsWriteFd_other fun f i here => reaches ⟨f, i, here⟩]
      exact .same
  · have effect := fsCall_tmpfs returns
    generalize v.tmpfs = table at effect
    cases effect with
    | same => exact .same
    | created kind _ created => exact .created kind created
    | removed removed => exact .removed removed
    | written write nodeId offset => exact absurd ⟨_, _, write⟩ isWrite

theorem TmpfsInv.fsStep {s t : Fs} {op : Fin maxTasks × FsCall} (inv : TmpfsInv s.tmpfs) (fits : StepFits s op)
    (steps : fsStep s op = some t) : TmpfsInv t.tmpfs := by
  have effect := fits.effect inv.storage steps
  generalize t.tmpfs = table at effect
  cases effect with
  | same => exact inv
  | created kind created => exact (inv.create_cases kind created).1
  | removed removed => exact (inv.remove_cases removed).1
  | written nodeId limit => exact (inv.write_cases nodeId limit).1

/-! ## The log -/

theorem subset_logReservation (before after : Tmpfs) (log : List (Nat × Nat)) :
    ∀ entry ∈ log, entry ∈ logReservation before after log := by
  intro entry member
  unfold logReservation
  split_ifs
  · exact member
  · exact List.mem_cons_of_mem _ member

theorem Reserved.mono {log more : List (Nat × Nat)} {n m : VfsNode} (reserved : Reserved log n)
    (subset : ∀ entry ∈ log, entry ∈ more) (data : m.data = n.data) (capacity : m.capacity = n.capacity) :
    Reserved more m := by
  unfold Reserved at *
  rw [data, capacity]
  cases here : n.data with
  | none =>
      rw [here] at reserved
      exact reserved
  | some d =>
      rw [here] at reserved
      obtain ⟨size, member, enough, inside⟩ := reserved
      exact ⟨size, subset _ member, enough, inside⟩

theorem Reserved.empty {log : List (Nat × Nat)} {n : VfsNode} (data : n.data = none) (capacity : n.capacity = 0) :
    Reserved log n := by
  unfold Reserved
  rw [data]
  exact capacity

structure LogInv (s : Tmpfs) (log : List (Nat × Nat)) : Prop where
  tables : TmpfsInv s
  reserved : ∀ i, Reserved log (s.nodes i)

namespace LogInv
variable {s t : Tmpfs} {log : List (Nat × Nat)}

theorem create (inv : LogInv s log) {path : List UInt8} {type : NodeType} {mode : UInt32} {r : Int}
    (kind : type ≠ .none) (returns : tmpfsCreatePath s path type mode = some (r, t)) :
    LogInv t (logReservation s t log) := by
  refine ⟨(inv.tables.create_cases kind returns).1, fun i => ?_⟩
  rcases tmpfsCreatePath_cases returns with ⟨rfl, -⟩ | ⟨_, _, leaf, p, id, -, -, -, -, isDir, free, -, rfl⟩
  · exact (inv.reserved i).mono (subset_logReservation _ _ _) rfl rfl
  · have other : p ≠ id := dir_ne_free isDir (freeSlot_spec free).1
    by_cases new : i = id
    · refine Reserved.empty ?_ ?_ <;> rw [insertChild_nodes other, if_pos new]
    · refine (inv.reserved i).mono (subset_logReservation _ _ _) ?_ ?_ <;>
      · rw [insertChild_nodes other, if_neg new]
        split_ifs with isParent
        · rw [isParent]
        · rfl

theorem remove (inv : LogInv s log) {path : List UInt8} {wantDir : Bool} {r : Int}
    (returns : tmpfsRemovePath s path wantDir = some (r, t)) : LogInv t (logReservation s t log) := by
  refine ⟨(inv.tables.remove_cases returns).1, fun i => ?_⟩
  rcases inv.tables.tree.remove_cases returns with ⟨rfl, -⟩ | ⟨id, p, u, -, -, -, -, -, unlinked, -, -, rfl⟩
  · exact (inv.reserved i).mono (subset_logReservation _ _ _) rfl rfl
  · obtain ⟨-, -, same⟩ := StorageInv.unlinkChild_keeps unlinked
    by_cases gone : i = id
    · refine Reserved.empty ?_ ?_ <;> simp [gone]
    · refine (inv.reserved i).mono (subset_logReservation _ _ _) ?_ ?_
      · rw [Tmpfs.setNode_nodes, update_of_ne gone, (same i).2.1]
      · rw [Tmpfs.setNode_nodes, update_of_ne gone, (same i).2.2.2]

theorem write (inv : LogInv s log) (nodeId : Int) {buffer : List UInt8} {offset : Nat}
    (limit : offset + buffer.length ≤ writeLimit) :
    LogInv (tmpfsWriteNode s nodeId buffer offset).2
      (logReservation s (tmpfsWriteNode s nodeId buffer offset).2 log) := by
  refine ⟨(inv.tables.write_cases nodeId limit).1, fun j => ?_⟩
  by_cases reaches : ∃ i : Nat, nodeId = i ∧ i < maxNodes ∧ (s.nodes i).type = .file
  · obtain ⟨i, rfl, bound, isFile⟩ := reaches
    have noWrap : (offset + buffer.length) % wordSize = offset + buffer.length := by
      unfold writeLimit at limit
      exact Nat.mod_eq_of_lt (by unfold wordSize; omega)
    rw [tmpfsWriteNode_file bound isFile, noWrap]
    split_ifs with grows
    · cases grown : growNode s i (offset + buffer.length) with
      | none => exact (inv.reserved j).mono (subset_logReservation _ _ _) rfl rfl
      | some u =>
          obtain ⟨room, moved, nodes, -⟩ := inv.tables.storage.growNode_spec grown
          have rounded := le_roundCapacity limit
          by_cases here : j = i
          · -- The new region is the last entry of the log.
            subst here
            have entry : (s.dataOffset, roundCapacity (offset + buffer.length)) ∈
                logReservation s (putBytes u j buffer offset (offset + buffer.length)) log := by
              have changed : ¬(putBytes u j buffer offset (offset + buffer.length)).dataOffset = s.dataOffset := by
                show ¬u.dataOffset = s.dataOffset
                omega
              have added : (putBytes u j buffer offset (offset + buffer.length)).dataOffset - s.dataOffset =
                  roundCapacity (offset + buffer.length) := by
                show u.dataOffset - s.dataOffset = _
                omega
              rw [logReservation, if_neg changed, added]
              exact List.mem_cons_self
            simp only [Reserved, StorageInv.putBytes_nodes, nodes, if_true]
            exact ⟨_, entry, Nat.le_refl _, room⟩
          · refine (inv.reserved j).mono (subset_logReservation _ _ _) ?_ ?_ <;>
              rw [StorageInv.putBytes_nodes, if_neg here, nodes, if_neg here]
    · refine (inv.reserved j).mono (subset_logReservation _ _ _) ?_ ?_ <;>
      · rw [StorageInv.putBytes_nodes]
        split_ifs with here
        · rw [here]
        · rfl
  · obtain ⟨r, -, eq⟩ := tmpfsWriteNode_other
      (fun i same bound isFile => reaches ⟨i, same, bound, isFile⟩) buffer offset
    rw [eq]
    exact (inv.reserved j).mono (subset_logReservation _ _ _) rfl rfl

theorem step {g h : Fs × List (Nat × Nat)} {op : Fin maxTasks × FsCall} (inv : LogInv g.1.tmpfs g.2)
    (fits : StepFits g.1 op) (steps : loggedStep g op = some h) : LogInv h.1.tmpfs h.2 := by
  obtain ⟨u, stepped, rfl⟩ := Option.map_eq_some_iff.mp steps
  have effect := fits.effect inv.tables.storage stepped
  dsimp only
  generalize u.tmpfs = table at effect
  cases effect with
  | same => exact ⟨inv.tables, fun j => (inv.reserved j).mono (subset_logReservation _ _ _) rfl rfl⟩
  | created kind created => exact inv.create kind created
  | removed removed => exact inv.remove removed
  | written nodeId limit => exact inv.write nodeId limit

theorem boot {console : Console} {s : Fs} (boots : fsBoot console = some s) : LogInv s.tmpfs [] := by
  have start : LogInv (tmpfsInit {}) [] := by
    refine ⟨TmpfsInv.init fun _ _ => rfl, fun i => Reserved.empty ?_ ?_⟩ <;>
    · by_cases root : i = 0
      · subst root; rfl
      · simp [tmpfsInit, root]
  refine fsInitNodes_invariant (P := fun s => LogInv s []) ?_ ?_ start (Booted.of_fsBoot boots).nodes
  · intro s t p type mode r kind inv created
    have after := inv.create kind created
    rwa [logReservation, if_pos (tmpfsCreatePath_dataOffset created)] at after
  · intro s i d inv
    refine ⟨inv.tables.setDevice i d, fun j => ?_⟩
    by_cases same : j = i
    · subst same
      exact (inv.reserved j).mono (fun _ member => member) (by simp) (by simp)
    · exact (inv.reserved j).mono (fun _ member => member) (by simp [same]) (by simp [same])

theorem run {console : Console} {s : Fs} {ops : List (Fin maxTasks × FsCall)} {g : Fs × List (Nat × Nat)}
    (boots : fsBoot console = some s) (fits : Lib.Along loggedStep (fun g op => StepFits g.1 op) (s, []) ops)
    (reaches : Lib.run loggedStep (s, []) ops = some g) : LogInv g.1.tmpfs g.2 :=
  fits.invariant (fun _ _ _ inv ok steps => LogInv.step inv ok steps) (boot boots) reaches

end LogInv

theorem fs_write_in_bounds_iff (console : Console) (s : Fs) (boots : fsBoot console = some s)
    (ops : List (Fin maxTasks × FsCall)) (fits : Lib.Along loggedStep (fun g op => StepFits g.1 op) (s, []) ops)
    (g : Fs × List (Nat × Nat)) (reaches : Lib.run loggedStep (s, []) ops = some g) (caller : Fin maxTasks) (fd : Int)
    (buffer : List UInt8) (sized : buffer.length < wordSize) :
    WriteInBounds g caller fd buffer ↔ WriteFits (g.1.as caller) fd buffer.length ∨ 2 ^ 63 ≤ buffer.length := by
  have inv := LogInv.run boots fits reaches
  constructor
  · intro inBounds
    rcases Nat.lt_or_ge buffer.length (2 ^ 63) with short | large
    · refine Or.inl fun f i onFile => ?_
      by_cases refused : Refused g.1.tmpfs i (((g.1.openFiles f).offset + buffer.length) % wordSize)
      · exact Or.inr refused
      · have accepted : 0 ≤ (tmpfsWriteNode g.1.tmpfs i buffer (g.1.openFiles f).offset).1 := by
          rw [inv.tables.storage.write_value onFile.bound onFile.regular refused]
          exact (toSigned_nonneg sized).mpr short
        have within := (inBounds f i onFile _ _ rfl accepted).1
        exact Or.inl ((inv.tables.storage.write_within_iff onFile.bound onFile.regular rfl accepted).mp within)
    · exact Or.inr large
  · intro condition f i onFile r t returns accepted
    have notRefused : ¬Refused g.1.tmpfs i (((g.1.openFiles f).offset + buffer.length) % wordSize) := by
      intro refused
      rw [inv.tables.storage.write_refused onFile.bound onFile.regular refused] at returns
      cases returns
      exact absurd accepted (by decide)
    have short : buffer.length < 2 ^ 63 := by
      have value := inv.tables.storage.write_value onFile.bound onFile.regular notRefused
      rw [returns] at value
      exact (toSigned_nonneg sized).mp (value ▸ accepted)
    have limit : (g.1.openFiles f).offset + buffer.length ≤ writeLimit :=
      (condition.resolve_right (Nat.not_le.mpr short) f i onFile).resolve_right notRefused
    have after := inv.write i limit
    rw [returns] at after
    exact ⟨(inv.tables.storage.write_within_iff onFile.bound onFile.regular returns accepted).mpr limit,
      after.tables.storage.size_le i, after.reserved i⟩

def openSample : List (Fin maxTasks × FsCall) := [(0, .openPath (ascii "/a") oCREAT 0o644)]

theorem fs_write_in_bounds_iff_sample :
    ∃ s g, fsBoot {} = some s ∧ Lib.run loggedStep (s, []) openSample = some g ∧ OnFile (g.1.as 0) 3 0 9 ∧
      WriteInBounds g 0 3 (ascii "hi") := by
  obtain ⟨g, reaches, onFile, offset⟩ := Lib.exists_of_check
    (P := fun g : Fs × List (Nat × Nat) => OnFile (g.1.as 0) 3 0 9 ∧ (g.1.openFiles 0).offset = 0)
    (show ((fsBoot {}).bind fun s => Lib.run loggedStep (s, []) openSample).map _ = some true by decide +kernel)
  obtain ⟨s, boots, reaches⟩ := Option.bind_eq_some_iff.mp reaches
  have fits : Lib.Along loggedStep (fun g op => StepFits g.1 op) (s, []) openSample :=
    ⟨fun _ _ isWrite => (nomatch isWrite), fun _ _ => trivial⟩
  refine ⟨s, g, boots, reaches, onFile, ?_⟩
  refine (fs_write_in_bounds_iff {} s boots openSample fits g reaches 0 3 (ascii "hi") (by decide)).mpr (Or.inl ?_)
  intro f i there
  cases Option.some.inj (onFile.entry.symm.trans there.entry)
  refine Or.inl ?_
  rw [Fs.as_openFiles, offset]
  decide

/-- The byte lands in front of the storage, and 1 is returned. -/
theorem fs_write_out_of_bounds :
    ∃ s g, fsBoot {} = some s ∧
      Lib.run loggedStep (s, []) (openSample ++ [(0, .lseek 3 (-17) seekSET)]) = some g ∧
      ¬WriteInBounds g 0 3 (ascii "x") := by
  obtain ⟨g, reaches, onFile, offset, value, capacity⟩ := Lib.exists_of_check
    (P := fun g : Fs × List (Nat × Nat) => OnFile (g.1.as 0) 3 0 9 ∧ (g.1.openFiles 0).offset = 2 ^ 64 - 17 ∧
      (tmpfsWriteNode g.1.tmpfs (9 : Nat) (ascii "x") (2 ^ 64 - 17)).1 = 1 ∧
      ((tmpfsWriteNode g.1.tmpfs (9 : Nat) (ascii "x") (2 ^ 64 - 17)).2.nodes 9).capacity = 0)
    (show ((fsBoot {}).bind fun s =>
      Lib.run loggedStep (s, []) (openSample ++ [(0, .lseek 3 (-17) seekSET)])).map _ = some true by decide +kernel)
  obtain ⟨s, boots, reaches⟩ := Option.bind_eq_some_iff.mp reaches
  refine ⟨s, g, boots, reaches, fun inBounds => ?_⟩
  have bounds := inBounds 0 9 onFile
  rw [offset] at bounds
  cases written : tmpfsWriteNode g.1.tmpfs (9 : Nat) (ascii "x") (2 ^ 64 - 17) with
  | mk r t =>
      rw [written] at value capacity
      dsimp only at value capacity
      have within := (bounds r t written (by rw [value]; decide)).1
      rw [capacity] at within
      exact absurd within (by decide)

end Mgcore
