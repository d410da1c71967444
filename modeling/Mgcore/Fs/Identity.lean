import Mgcore.Fs.Boot

/-!
# What a descriptor denotes

An open file holds the number of a slot of the node table, and slots are reused. The run is observed by
counting creation events: `births` is the event that made the node now in a slot, `opened` the event of the
node that a descriptor was opened on. A descriptor comes to denote another file exactly when a file is created
in a slot that an open descriptor still names.
-/

namespace Mgcore
open Function

structure Observed where
  fs : Fs
  births : Nat → Nat
  clock : Nat
  opened : Fin maxTasks → Nat → Option Nat

def descriptorNode (s : Fs) (task : Fin maxTasks) (fd : Nat) : Option Nat :=
  ((s.tasks.tasks task).fds fd).map fun f => (s.openFiles f).nodeId.toNat

def recordBirths (s t : Tmpfs) (births : Nat → Nat) (event : Nat) (i : Nat) : Nat :=
  if (s.nodes i).type = .none ∧ (t.nodes i).type ≠ .none then event else births i

def recordOpened (caller : Fin maxTasks) (call : FsCall) (r : Int) (event : Option Nat)
    (opened : Fin maxTasks → Nat → Option Nat) : Fin maxTasks → Nat → Option Nat :=
  match call with
  | .openPath _ _ _ => if 0 ≤ r then update opened caller (update (opened caller) r.toNat event) else opened
  | .close fd => if r = 0 then update opened caller (update (opened caller) fd.toNat none) else opened
  | _ => opened

def observedStep (g : Observed) (op : Fin maxTasks × FsCall) : Option Observed :=
  (fsCall (g.fs.as op.1) op.2).map fun (r, t) =>
    let births := recordBirths g.fs.tmpfs t.tmpfs g.births (g.clock + 1)
    { fs := t, births := births, clock := g.clock + 1,
      opened := recordOpened op.1 op.2 r ((descriptorNode t op.1 r.toNat).map births) g.opened }

/-- The nodes of `fs_init` were made by the first events, one for each slot. -/
def observedBoot (s : Fs) : Observed :=
  { fs := s, births := fun i => min i maxNodes, clock := maxNodes, opened := fun _ _ => none }

/-- Every read or write that succeeds on a descriptor reaches the node the descriptor was opened on. -/
def Faithful (g : Observed) : Prop :=
  ∀ task fd e i, g.opened task fd = some e → descriptorNode g.fs task fd = some i →
    ((∃ count, 0 ≤ (fsReadFd (g.fs.as task) fd count).1.1) ∨ ∃ buffer, 0 ≤ (fsWriteFd (g.fs.as task) fd buffer).1) →
      g.births i = e

structure WouldCreate (s : Tmpfs) (path : List UInt8) (i : Nat) : Prop where
  absolute : path.head? = some slash ∧ path.length ≠ 1
  absent : ∃ e, resolvePath s path = some e ∧ e < 0
  parent : ∃ parent leaf, ∃ p : Nat, splitParent path = some (parent, leaf) ∧ resolvePath s parent = some (p : Int) ∧
    (s.nodes p).type = .dir
  slot : freeSlot s = some i

/-- An open that creates a file finds no descriptor on the slot that the file will take. -/
def NoReuse (s : Fs) (op : Fin maxTasks × FsCall) : Prop :=
  ∀ path flags mode, op.2 = .openPath path flags mode → flags &&& oCREAT ≠ 0 → ∀ i,
    WouldCreate s.tmpfs (normalizePath (s.tasks.tasks op.1).cwd path) i →
      ∀ task fd, descriptorNode s task fd ≠ some i

/-! ## Node types -/

theorem WouldCreate.create {s : Tmpfs} {path : List UInt8} {i : Nat} (would : WouldCreate s path i) (type : NodeType)
    (mode : UInt32) : ∃ r t, tmpfsCreatePath s path type mode = some (r, t) ∧ (t.nodes i).type = type := by
  obtain ⟨⟨absolute, long⟩, ⟨e, absent, negative⟩, ⟨parent, leaf, p, split, resolved, isDir⟩, free⟩ := would
  have other : p ≠ i := dir_ne_free isDir (freeSlot_spec free).1
  have wellFormed : ¬(path.head? ≠ some slash ∨ path.length = 1) := by
    simpa using ⟨absolute, long⟩
  have nonneg : ¬(p : Int) < 0 := Int.not_lt.mpr (Int.natCast_nonneg p)
  have created : createChild s p leaf type mode = ((i : Int), insertChild s i p leaf type mode) := by
    rcases createChild_cases s p leaf type mode isDir with ⟨full, -⟩ | ⟨id, free', created⟩
    · rw [free] at full
      cases full
    · rw [free, Option.some.injEq] at free'
      rw [free']
      exact created
  refine ⟨i, insertChild s i p leaf type mode, ?_, by rw [insertChild_type other, if_pos rfl]⟩
  simp only [tmpfsCreatePath, if_neg wellFormed, absent, Option.bind_eq_bind, Option.bind_some, Option.pure_def,
    if_neg (Int.not_le.mpr negative), split, resolved, if_neg nonneg, Tmpfs.node_natCast, isDir, ne_eq,
    not_true_eq_false, if_false, created]

theorem tmpfsCreatePath_type {s t : Tmpfs} {path : List UInt8} {type : NodeType} {mode : UInt32} {r : Int}
    (returns : tmpfsCreatePath s path type mode = some (r, t)) (j : Nat) :
    (t.nodes j).type = (s.nodes j).type ∨
      (s.nodes j).type = .none ∧ (t.nodes j).type = type ∧ WouldCreate s path j := by
  by_cases malformed : path.head? ≠ some slash ∨ path.length = 1
  · rw [tmpfsCreatePath, if_pos malformed] at returns
    cases returns
    exact Or.inl rfl
  · rcases tmpfsCreatePath_cases returns with ⟨rfl, -⟩ |
      ⟨e, parent, leaf, p, id, absent, negative, split, resolved, isDir, free, -, rfl⟩
    · exact Or.inl rfl
    · have noType := (freeSlot_spec free).1
      have other : p ≠ id := dir_ne_free isDir noType
      rw [insertChild_type other]
      by_cases new : j = id
      · subst new
        have wellFormed : path.head? = some slash ∧ path.length ≠ 1 := by simpa using malformed
        exact Or.inr ⟨noType, if_pos rfl, wellFormed, ⟨e, absent, negative⟩,
          ⟨parent, leaf, p, split, resolved, isDir⟩, free⟩
      · exact Or.inl (if_neg new)

theorem tmpfsRemovePath_type {s t : Tmpfs} (inv : TreeInv s) {path : List UInt8} {wantDir : Bool} {r : Int}
    (returns : tmpfsRemovePath s path wantDir = some (r, t)) (j : Nat) :
    (t.nodes j).type = (s.nodes j).type ∨ (t.nodes j).type = .none := by
  rcases inv.remove_cases returns with ⟨rfl, -⟩ | ⟨id, p, u, -, -, -, -, -, -, unlinked, -, rfl⟩
  · exact Or.inl rfl
  · by_cases gone : j = id
    · exact Or.inr (by simp [gone])
    · exact Or.inl (VfsNode.of_entry (unlinked.removed_entry gone)).1

theorem fsCall_type {s t : Fs} (inv : TreeInv s.tmpfs) {c : FsCall} {r : Int} (returns : fsCall s c = some (r, t))
    (j : Nat) :
    (t.tmpfs.nodes j).type = (s.tmpfs.nodes j).type ∨ (t.tmpfs.nodes j).type = .none ∨
      (s.tmpfs.nodes j).type = .none ∧ ((t.tmpfs.nodes j).type = .dir ∨ (t.tmpfs.nodes j).type = .file ∧
        ∃ path, OpensToCreate s c path ∧ WouldCreate s.tmpfs path j) := by
  have effect := fsCall_tmpfs returns
  generalize t.tmpfs = table at effect
  cases effect with
  | same => exact Or.inl rfl
  | created _ origin created =>
      rcases tmpfsCreatePath_type created j with same | ⟨free, type, would⟩
      · exact Or.inl same
      · refine Or.inr (Or.inr ⟨free, ?_⟩)
        rw [type]
        exact origin.imp_right fun opens => ⟨opens.1, _, opens.2, would⟩
  | removed removed => exact (tmpfsRemovePath_type inv removed j).imp_right Or.inl
  | written _ nodeId offset => exact Or.inl (VfsNode.of_header (tmpfsWriteNode_header s.tmpfs nodeId _ offset j)).1

theorem fsReadFd_kind {s : Fs} {fd : Int} {f i count : Nat} (entry : lookupFile s fd = some f)
    (node : (s.openFiles f).nodeId = i) (success : 0 ≤ (fsReadFd s fd count).1.1) :
    (s.tmpfs.nodes i).type ≠ .none ∧ (s.tmpfs.nodes i).type ≠ .dir := by
  cases found : tmpfsGetNode s.tmpfs i with
  | none =>
      simp only [fsReadFd, entry, node, found] at success
      exact absurd success (by decide)
  | some n =>
      obtain ⟨j, same, bound, rfl, used⟩ := tmpfsGetNode_eq_some found
      cases Int.ofNat.inj same
      refine ⟨used, fun isDir => ?_⟩
      simp only [fsReadFd, entry, node, found, isDir, reduceCtorEq, false_and, if_false, tmpfsReadNode, ne_eq,
        not_false_eq_true, if_true] at success
      rw [if_neg (by decide : ¬(0 : Int) ≤ -eISDIR)] at success
      exact absurd success (by decide : ¬(0 : Int) ≤ -eISDIR)

theorem fsWriteFd_kind {s : Fs} {fd : Int} {f i : Nat} {buffer : List UInt8} (entry : lookupFile s fd = some f)
    (node : (s.openFiles f).nodeId = i) (success : 0 ≤ (fsWriteFd s fd buffer).1) :
    (s.tmpfs.nodes i).type ≠ .none ∧ (s.tmpfs.nodes i).type ≠ .dir := by
  cases found : tmpfsGetNode s.tmpfs i with
  | none =>
      simp only [fsWriteFd, entry, node, found] at success
      exact absurd success (by decide)
  | some n =>
      obtain ⟨j, same, bound, rfl, used⟩ := tmpfsGetNode_eq_some found
      cases Int.ofNat.inj same
      refine ⟨used, fun isDir => ?_⟩
      simp only [fsWriteFd, entry, node, found, isDir, reduceCtorEq, false_and, if_false, tmpfsWriteNode, ne_eq,
        not_false_eq_true, if_true] at success
      exact absurd success (by decide)

/-! ## The descriptor tables -/

structure FdInv (g : Observed) : Prop where
  tree : TreeInv g.fs.tmpfs
  open_used : ∀ task fd f, (g.fs.tasks.tasks task).fds fd = some f →
    fd < maxFds ∧ (g.fs.openFiles f).used = true ∧ (g.fs.openFiles f).refs = 1 ∧ ∃ i : Nat, (g.fs.openFiles f).nodeId = i
  injective : ∀ task fd task' fd' f, (g.fs.tasks.tasks task).fds fd = some f →
    (g.fs.tasks.tasks task').fds fd' = some f → task = task' ∧ fd = fd'
  recorded : ∀ task fd, (g.opened task fd).isSome = ((g.fs.tasks.tasks task).fds fd).isSome
  past : ∀ i, g.births i ≤ g.clock
  opened_past : ∀ task fd e, g.opened task fd = some e → e ≤ g.clock

inductive TablesStep (s : Fs) (opened : Fin maxTasks → Nat → Option Nat) (caller : Fin maxTasks) (call : FsCall)
    (births : Nat → Nat) (t : Fs) (opened' : Fin maxTasks → Nat → Option Nat) : Prop
  | kept (fds : ∀ task fd, (t.tasks.tasks task).fds fd = (s.tasks.tasks task).fds fd)
      (files : ∀ task fd f, (s.tasks.tasks task).fds fd = some f → (t.openFiles f).used = (s.openFiles f).used ∧
        (t.openFiles f).refs = (s.openFiles f).refs ∧ (t.openFiles f).nodeId = (s.openFiles f).nodeId)
      (same : opened' = opened)
  | attached (fd f nodeId : Nat) (bound : fd < maxFds) (free : (s.tasks.tasks caller).fds fd = none)
      (unused : (s.openFiles f).used = false)
      (fds : ∀ task k, (t.tasks.tasks task).fds k = if task = caller ∧ k = fd then some f else (s.tasks.tasks task).fds k)
      (file : (t.openFiles f).used = true ∧ (t.openFiles f).refs = 1 ∧ (t.openFiles f).nodeId = nodeId)
      (others : ∀ g, g ≠ f → t.openFiles g = s.openFiles g)
      (recorded : ∀ task k, opened' task k = if task = caller ∧ k = fd then some (births nodeId) else opened task k)
  | detached (fd f : Nat) (isClose : ∃ k, call = .close k) (entry : (s.tasks.tasks caller).fds fd = some f)
      (fds : ∀ task k, (t.tasks.tasks task).fds k = if task = caller ∧ k = fd then none else (s.tasks.tasks task).fds k)
      (others : ∀ g, g ≠ f → t.openFiles g = s.openFiles g)
      (recorded : ∀ task k, opened' task k = if task = caller ∧ k = fd then none else opened task k)

theorem update_update_apply (opened : Fin maxTasks → Nat → Option Nat) (caller : Fin maxTasks) (fd : Nat)
    (event : Option Nat) (task : Fin maxTasks) (k : Nat) :
    update opened caller (update (opened caller) fd event) task k =
      if task = caller ∧ k = fd then event else opened task k := by
  by_cases current : task = caller
  · subst current
    by_cases here : k = fd
    · simp [here]
    · simp [here]
  · simp [current]

theorem FdInv.recordOpened_missing {g : Observed} (inv : FdInv g) {caller : Fin maxTasks} {fd r : Int} {t : Fs}
    (missing : lookupFile (g.fs.as caller) fd = none) (returns : fsCall (g.fs.as caller) (.close fd) = some (r, t))
    (event : Option Nat) : recordOpened caller (.close fd) r event g.opened = g.opened := by
  have result : (if 0 ≤ fd ∧ fd ≤ 2 then 0 else -eBADF) = r := by
    have both := Option.some.inj returns
    simp only [fsCloseFd, missing] at both
    exact congrArg Prod.fst both
  unfold recordOpened
  dsimp only
  split_ifs with success
  · have standard : 0 ≤ fd ∧ fd ≤ 2 := by
      by_contra other
      rw [if_neg other, success] at result
      exact absurd result (by decide)
    obtain ⟨k, rfl⟩ := Int.eq_ofNat_of_zero_le standard.1
    have empty : (g.fs.tasks.tasks caller).fds k = none := by
      cases entry : (g.fs.tasks.tasks caller).fds k with
      | none => rfl
      | some f =>
          rw [lookupFile_as.mpr ⟨k, rfl, by unfold maxFds; omega, entry⟩] at missing
          cases missing
    have unrecorded : g.opened caller k = none := by
      have same := inv.recorded caller k
      rw [empty] at same
      simpa using same
    funext task j
    rw [update_update_apply, Int.toNat_natCast]
    split_ifs with here
    · rw [here.1, here.2, unrecorded]
    · rfl
  · rfl

theorem FdInv.ne_unused {g : Observed} (inv : FdInv g) {task : Fin maxTasks} {fd f f' : Nat}
    (entry : (g.fs.tasks.tasks task).fds fd = some f) (unused : (g.fs.openFiles f').used = false) : f ≠ f' := by
  rintro rfl
  rw [(inv.open_used task fd f entry).2.1] at unused
  cases unused

theorem FdInv.ne_other {g : Observed} (inv : FdInv g) {task task' : Fin maxTasks} {fd fd' f f' : Nat}
    (entry : (g.fs.tasks.tasks task).fds fd = some f) (entry' : (g.fs.tasks.tasks task').fds fd' = some f')
    (away : ¬(task = task' ∧ fd = fd')) : f ≠ f' := by
  rintro rfl
  exact away (inv.injective task fd task' fd' f entry entry')

theorem FdInv.tablesStep {g h : Observed} {op : Fin maxTasks × FsCall} (inv : FdInv g)
    (steps : observedStep g op = some h) :
    TablesStep g.fs g.opened op.1 op.2 h.births h.fs h.opened := by
  obtain ⟨⟨r, t⟩, returns, rfl⟩ := Option.map_eq_some_iff.mp steps
  obtain ⟨caller, call⟩ := op
  dsimp only at returns ⊢
  cases fsCall_files returns with
  | same same notOpened notClosed =>
      refine .kept (fun task fd => by rw [same.tasks]; rfl) (fun task fd f _ => ?_) ?_
      · obtain ⟨offset, eq, -⟩ := same.files f
        rw [eq]
        exact ⟨rfl, rfl, rfl⟩
      · cases call with
        | openPath path flags mode => exact if_neg (Int.not_le.mpr (notOpened path flags mode rfl))
        | close fd => exact inv.recordOpened_missing (notClosed fd rfl) returns _
        | _ => rfl
  | dropped f file isOpen failed free unused start tasks files =>
      refine .kept (fun task fd => by rw [tasks]; rfl) (fun task fd f' entry => ?_) ?_
      · rw [files, update_of_ne (inv.ne_unused entry free)]
        exact ⟨rfl, rfl, rfl⟩
      · obtain ⟨path, flags, mode, rfl⟩ := isOpen
        exact if_neg (Int.not_le.mpr failed)
  | opened f fd nodeId flags isOpen free slot result after =>
      obtain ⟨u, rfl⟩ := after
      obtain ⟨path, mode, rfl⟩ := isOpen
      obtain ⟨empty, -, bound⟩ := freeFd_spec slot
      subst result
      have unused : (g.fs.openFiles f).used = false := (freeFile_spec free).2
      refine .attached fd f nodeId bound empty unused (fun task k => ?_) ?_ (fun f' other => ?_) (fun task k => ?_)
      · rw [Fs.setFd_fds]
        rfl
      · simp
      · simp [other]
      · rw [recordOpened, if_pos (Int.natCast_nonneg fd), update_update_apply, Int.toNat_natCast]
        have event : descriptorNode (({ g.fs.as caller with tmpfs := u }.setFile f
            { used := true, refs := 1, nodeId := nodeId, offset := 0, flags := flags }).setFd fd (some f)) caller fd =
            some nodeId := by
          rw [descriptorNode, Fs.setFd_fds, if_pos ⟨rfl, rfl⟩]
          simp
        rw [event]
        rfl
  | closed f fd isClose entry result after =>
      subst isClose
      subst result
      obtain ⟨k, rfl, bound, entry'⟩ := lookupFile_as.mp entry
      refine .detached k f ⟨k, rfl⟩ entry' (fun task j => ?_) (fun f' other => ?_) (fun task j => ?_)
      · rw [after, Fs.setFd_fds]
        rfl
      · rw [after]
        simp [other]
      · rw [recordOpened, if_pos rfl, update_update_apply, Int.toNat_natCast]

def Identified (g : Observed) : Prop :=
  ∀ task fd e i, g.opened task fd = some e → descriptorNode g.fs task fd = some i →
    g.births i = e ∨ (g.fs.tmpfs.nodes i).type = .none ∨ (g.fs.tmpfs.nodes i).type = .dir

theorem recordBirths_le {s t : Tmpfs} {births : Nat → Nat} {clock : Nat} (past : ∀ i, births i ≤ clock) (i : Nat) :
    recordBirths s t births (clock + 1) i ≤ clock + 1 := by
  unfold recordBirths
  split_ifs
  · exact Nat.le_refl _
  · exact Nat.le_succ_of_le (past i)

theorem FdInv.step {g h : Observed} {op : Fin maxTasks × FsCall} (inv : FdInv g) (steps : observedStep g op = some h) :
    FdInv h := by
  have tables := inv.tablesStep steps
  obtain ⟨⟨r, t⟩, returns, rfl⟩ := Option.map_eq_some_iff.mp steps
  have tree : TreeInv t.tmpfs := fsCall_tree (s := g.fs.as op.1) inv.tree returns
  have past := recordBirths_le (s := g.fs.tmpfs) (t := t.tmpfs) inv.past
  cases tables with
  | kept fds files same =>
      refine ⟨tree, fun task fd f entry => ?_, fun task fd task' fd' f entry entry' => ?_, fun task fd => ?_, past,
        fun task fd e opened => ?_⟩
      · rw [fds] at entry
        obtain ⟨bound, used, refs, node⟩ := inv.open_used task fd f entry
        obtain ⟨sameUsed, sameRefs, sameNode⟩ := files task fd f entry
        rw [sameUsed, sameRefs, sameNode]
        exact ⟨bound, used, refs, node⟩
      · rw [fds] at entry entry'
        exact inv.injective task fd task' fd' f entry entry'
      · rw [fds, same]
        exact inv.recorded task fd
      · rw [same] at opened
        exact Nat.le_succ_of_le (inv.opened_past task fd e opened)
  | attached fd f nodeId bound free unused fds file others recorded =>
      refine ⟨tree, fun task k f' entry => ?_, fun task k task' k' f' entry entry' => ?_, fun task k => ?_, past,
        fun task k e opened => ?_⟩
      · rw [fds] at entry
        split_ifs at entry with here
        · cases entry
          rw [here.2]
          exact ⟨bound, file.1, file.2.1, nodeId, file.2.2⟩
        · rw [others f' (inv.ne_unused entry unused)]
          exact inv.open_used task k f' entry
      · rw [fds] at entry entry'
        split_ifs at entry entry' with here here' here'
        · exact ⟨here.1.trans here'.1.symm, here.2.trans here'.2.symm⟩
        · cases entry
          exact absurd rfl (inv.ne_unused entry' unused)
        · cases entry'
          exact absurd rfl (inv.ne_unused entry unused)
        · exact inv.injective task k task' k' f' entry entry'
      · rw [fds, recorded]
        split_ifs
        · rfl
        · exact inv.recorded task k
      · rw [recorded] at opened
        split_ifs at opened
        · cases opened
          exact past nodeId
        · exact Nat.le_succ_of_le (inv.opened_past task k e opened)
  | detached fd f _ gone fds others recorded =>
      refine ⟨tree, fun task k f' entry => ?_, fun task k task' k' f' entry entry' => ?_, fun task k => ?_, past,
        fun task k e opened => ?_⟩
      · rw [fds] at entry
        split_ifs at entry with here
        rw [others f' (inv.ne_other entry gone here)]
        exact inv.open_used task k f' entry
      · rw [fds] at entry entry'
        split_ifs at entry entry' with here here'
        exact inv.injective task k task' k' f' entry entry'
      · rw [fds, recorded]
        split_ifs
        · rfl
        · exact inv.recorded task k
      · rw [recorded] at opened
        split_ifs at opened
        exact Nat.le_succ_of_le (inv.opened_past task k e opened)

/-! ## Safe and unsafe steps -/

theorem FdInv.descriptor_origin {g h : Observed} {op : Fin maxTasks × FsCall} (inv : FdInv g)
    (steps : observedStep g op = some h) {task : Fin maxTasks} {fd e i : Nat} (opened : h.opened task fd = some e)
    (node : descriptorNode h.fs task fd = some i) :
    h.births i = e ∨ g.opened task fd = some e ∧ descriptorNode g.fs task fd = some i := by
  obtain ⟨f, entry, nodeEq⟩ := Option.map_eq_some_iff.mp node
  cases inv.tablesStep steps with
  | kept fds files same =>
      rw [fds] at entry
      refine Or.inr ⟨by rw [← same]; exact opened, ?_⟩
      rw [descriptorNode, entry, Option.map_some, ← (files task fd f entry).2.2, nodeEq]
  | attached fd' f' nodeId bound free unused fds file others recorded =>
      rw [fds] at entry
      rw [recorded] at opened
      split_ifs at entry opened with here
      · cases entry
        cases opened
        rw [file.2.2, Int.toNat_natCast] at nodeEq
        exact Or.inl (by rw [nodeEq])
      · refine Or.inr ⟨opened, ?_⟩
        rw [descriptorNode, entry, Option.map_some, ← others f (inv.ne_unused entry unused), nodeEq]
  | detached fd' f' _ gone fds others recorded =>
      rw [fds] at entry
      rw [recorded] at opened
      split_ifs at entry opened with here
      refine Or.inr ⟨opened, ?_⟩
      rw [descriptorNode, entry, Option.map_some, ← others f (inv.ne_other entry gone here), nodeEq]

theorem Identified.step {g h : Observed} {op : Fin maxTasks × FsCall} (identified : Identified g) (inv : FdInv g)
    (safe : NoReuse g.fs op) (steps : observedStep g op = some h) : Identified h := by
  intro task fd e i opened node
  rcases inv.descriptor_origin steps opened node with new | ⟨openedBefore, nodeBefore⟩
  · exact Or.inl new
  · obtain ⟨⟨r, t⟩, returns, rfl⟩ := Option.map_eq_some_iff.mp steps
    have before := identified task fd e i openedBefore nodeBefore
    rcases fsCall_type (s := g.fs.as op.1) inv.tree returns i with same | free | ⟨-, isDir | ⟨-, path, opens, would⟩⟩
    · -- The slot kept its node, or stayed free.
      have births : recordBirths g.fs.tmpfs t.tmpfs g.births (g.clock + 1) i = g.births i := by
        refine if_neg fun new => new.2 ?_
        rw [same]
        exact new.1
      dsimp only
      rw [births, same]
      exact before
    · exact Or.inr (Or.inl free)
    · exact Or.inr (Or.inr isDir)
    · obtain ⟨p, flags, mode, isOpen, creates, rfl⟩ := opens
      exact absurd nodeBefore (safe p flags mode isOpen creates i would task fd)

theorem FdInv.faithful {g : Observed} (inv : FdInv g) (identified : Identified g) : Faithful g := by
  intro task fd e i opened node success
  obtain ⟨f, entry, nodeEq⟩ := Option.map_eq_some_iff.mp node
  obtain ⟨bound, -, -, j, nodeId⟩ := inv.open_used task fd f entry
  rw [nodeId, Int.toNat_natCast] at nodeEq
  subst nodeEq
  have found : lookupFile (g.fs.as task) fd = some f := lookupFile_as.mpr ⟨fd, rfl, bound, entry⟩
  have kind : (g.fs.tmpfs.nodes j).type ≠ .none ∧ (g.fs.tmpfs.nodes j).type ≠ .dir := by
    rcases success with ⟨count, reads⟩ | ⟨buffer, writes⟩
    · exact fsReadFd_kind (s := g.fs.as task) found nodeId reads
    · exact fsWriteFd_kind (s := g.fs.as task) found nodeId writes
  rcases identified task fd e j opened node with same | free | isDir
  · exact same
  · exact absurd free kind.1
  · exact absurd isDir kind.2

theorem OnFile.read_nothing {s : Fs} {fd : Int} {f i : Nat} (onFile : OnFile s fd f i) :
    0 ≤ (fsReadFd s fd 0).1.1 := by
  have value : (tmpfsReadNode s.tmpfs i 0 (s.openFiles f).offset).1 = 0 := by
    rw [onFile.read_value, Nat.zero_min]
    rfl
  rw [onFile.fsReadFd_eq]
  dsimp only
  rw [value, if_pos (Int.le_refl 0)]

theorem fsOpenPath_returns {s : Fs} {path : List UInt8} {flags mode : UInt32} {nodeId : Int} {u : Tmpfs}
    (opens : openNode s.tmpfs (normalizePath (taskCurrent s.tasks).cwd path) flags mode = some (nodeId, u)) :
    ∃ r t, fsOpenPath s path flags mode = some (r, t) ∧ t.tmpfs = u := by
  obtain ⟨⟨r, t⟩, returns⟩ : ∃ result, fsOpenPath s path flags mode = some result := by
    simp only [fsOpenPath, opens, Option.bind_eq_bind, Option.bind_some, Option.pure_def]
    split_ifs <;> exact ⟨_, rfl⟩
  obtain ⟨nodeId', u', opens', change⟩ := fsOpenPath_cases returns
  rw [opens, Option.some.injEq] at opens'
  cases opens'
  refine ⟨r, t, returns, ?_⟩
  rcases change with ⟨-, f, -, rfl⟩ | ⟨-, rfl⟩ | ⟨f, fd, -, -, -, -, rfl⟩
  · rfl
  · rfl
  · rfl

theorem FdInv.survives_open {g h : Observed} {caller : Fin maxTasks} {path : List UInt8} {flags mode : UInt32}
    (inv : FdInv g) (steps : observedStep g (caller, .openPath path flags mode) = some h) {task : Fin maxTasks}
    {fd f event : Nat} (entry : (g.fs.tasks.tasks task).fds fd = some f) (opened : g.opened task fd = some event) :
    (h.fs.tasks.tasks task).fds fd = some f ∧ (h.fs.openFiles f).nodeId = (g.fs.openFiles f).nodeId ∧
      h.opened task fd = some event := by
  cases inv.tablesStep steps with
  | kept fds files same =>
      rw [fds, same]
      exact ⟨entry, (files task fd f entry).2.2, opened⟩
  | attached fd' f' nodeId bound free unused fds file others recorded =>
      have elsewhere : ¬(task = caller ∧ fd = fd') := by
        rintro ⟨rfl, rfl⟩
        rw [entry] at free
        cases free
      rw [fds, if_neg elsewhere, recorded, if_neg elsewhere, others f (inv.ne_unused entry unused)]
      exact ⟨entry, rfl, opened⟩
  | detached fd' f' isClose =>
      obtain ⟨_, isClose⟩ := isClose
      cases isClose

theorem FdInv.reuse_unfaithful {g : Observed} {op : Fin maxTasks × FsCall} (inv : FdInv g)
    (reuse : ¬NoReuse g.fs op) : ∃ h, observedStep g op = some h ∧ ¬Faithful h := by
  obtain ⟨caller, call⟩ := op
  simp only [NoReuse, not_forall, not_not] at reuse
  obtain ⟨path, flags, mode, rfl, creates, i, would, task, fd, node⟩ := reuse
  obtain ⟨e, absent, negative⟩ := would.absent
  obtain ⟨nodeId, u, created, isFile⟩ := would.create .file mode
  have opens : openNode (g.fs.as caller).tmpfs (normalizePath (taskCurrent (g.fs.as caller).tasks).cwd path) flags mode =
      some (nodeId, u) := by
    rw [openNode]
    show (resolvePath g.fs.tmpfs (normalizePath (g.fs.tasks.tasks caller).cwd path)).bind _ = _
    rw [absent, Option.bind_some, if_pos ⟨negative, creates⟩]
    exact created
  obtain ⟨r, t, returns, table⟩ := fsOpenPath_returns opens
  obtain ⟨h, steps, rfl, births⟩ : ∃ h, observedStep g (caller, .openPath path flags mode) = some h ∧ h.fs = t ∧
      h.births = recordBirths g.fs.tmpfs t.tmpfs g.births (g.clock + 1) := by
    simp only [observedStep, fsCall, returns, Option.map_some, Option.some.injEq, exists_eq_left', and_self]
  refine ⟨h, steps, fun faithful => ?_⟩
  obtain ⟨f, entry, nodeEq⟩ := Option.map_eq_some_iff.mp node
  obtain ⟨bound, -, -, j, nodeId⟩ := inv.open_used task fd f entry
  rw [nodeId, Int.toNat_natCast] at nodeEq
  subst nodeEq
  obtain ⟨event, openedBefore⟩ : ∃ event, g.opened task fd = some event := by
    rw [← Option.isSome_iff_exists, inv.recorded, entry]
    rfl
  obtain ⟨entryAfter, nodeAfter, openedAfter⟩ := inv.survives_open steps entry openedBefore
  rw [nodeId] at nodeAfter
  have onFile : OnFile (h.fs.as task) fd f j := by
    refine ⟨lookupFile_as.mpr ⟨fd, rfl, bound, entryAfter⟩, nodeAfter, (freeSlot_spec would.slot).2, ?_⟩
    rw [Fs.as_tmpfs, table]
    exact isFile
  have nodeH : descriptorNode h.fs task fd = some j := by
    rw [descriptorNode, entryAfter, Option.map_some, nodeAfter, Int.toNat_natCast]
  have denotes := faithful task fd event j openedAfter nodeH (Or.inl ⟨0, onFile.read_nothing⟩)
  have fresh : h.births j = g.clock + 1 := by
    rw [births]
    refine if_pos ⟨(freeSlot_spec would.slot).1, ?_⟩
    rw [table, isFile]
    simp
  have past := inv.opened_past task fd event openedBefore
  omega

/-! ## Runs -/

theorem FdInv.boot {console : Console} {s : Fs} (boots : fsBoot console = some s) : FdInv (observedBoot s) := by
  have booted := Booted.of_fsBoot boots
  have empty := booted.fds
  refine ⟨booted.tables.tree, fun task fd f entry => ?_,
    fun task fd task' fd' f entry _ => ?_, fun task fd => ?_, fun i => Nat.min_le_right i maxNodes,
    fun task fd e opened => by cases opened⟩
  · rw [observedBoot, empty] at entry
    cases entry
  · rw [observedBoot, empty] at entry
    cases entry
  · rw [observedBoot, empty]

theorem descriptor_identity_iff (console : Console) (s : Fs) (boots : fsBoot console = some s)
    (ops : List (Fin maxTasks × FsCall)) :
    (∀ before h, before <+: ops → Lib.run observedStep (observedBoot s) before = some h → Faithful h) ↔
      Lib.Along observedStep (fun g op => NoReuse g.fs op) (observedBoot s) ops := by
  have nothing : Identified (observedBoot s) := fun _ _ _ _ opened => by cases opened
  have holds : ∀ g, FdInv g ∧ Identified g → Faithful g := fun g kept => kept.1.faithful kept.2
  refine Lib.prefixes_iff_along holds ?_ ?_ (Lib.along_true _ ops) ⟨FdInv.boot boots, nothing⟩
  · intro g op h kept _ safe steps
    exact ⟨kept.1.step steps, kept.2.step kept.1 safe steps⟩
  · intro g op kept _ reuse
    exact kept.1.reuse_unfaithful reuse

theorem descriptor_identity_iff_sample :
    ∃ s, fsBoot {} = some s ∧ ∀ before h, before <+: [(0, FsCall.openPath (ascii "/a") oCREAT 0o644)] →
      Lib.run observedStep (observedBoot s) before = some h → Faithful h := by
  obtain ⟨s, t, boots, -, -, -, tasks⟩ := fsBoot_spec {}
  refine ⟨s, boots, (descriptor_identity_iff {} s boots _).mpr ⟨?_, fun _ _ => trivial⟩⟩
  intro path flags mode _ _ i _ task fd node
  rw [descriptorNode, observedBoot, tasks, bootTasks_fds] at node
  cases node

def reuseSample : List (Fin maxTasks × FsCall) :=
  [(0, .openPath (ascii "/a") oCREAT 0o644), (0, .unlink (ascii "/a")), (0, .openPath (ascii "/b") oCREAT 0o644)]

theorem descriptor_denotes_later_file :
    ∃ s g, fsBoot {} = some s ∧ Lib.run observedStep (observedBoot s) reuseSample = some g ∧ ¬Faithful g := by
  obtain ⟨g, reaches, opened, node, births, success⟩ := Lib.exists_of_check
    (P := fun g : Observed => g.opened 0 3 = some 257 ∧ descriptorNode g.fs 0 3 = some 9 ∧ g.births 9 = 259 ∧
      0 ≤ (fsReadFd (g.fs.as 0) 3 1).1.1)
    (show ((fsBoot {}).bind fun s => Lib.run observedStep (observedBoot s) reuseSample).map _ = some true by
      decide +kernel)
  obtain ⟨s, boots, reaches⟩ := Option.bind_eq_some_iff.mp reaches
  refine ⟨s, g, boots, reaches, fun faithful => ?_⟩
  have same := faithful 0 3 257 9 opened node (Or.inl ⟨1, success⟩)
  rw [births] at same
  exact absurd same (by decide)

end Mgcore
