import Mgcore.Fs.Boot
import Mgcore.Fs.Elf
import Mgcore.Initramfs.Model
import Mgcore.Lib.Run

/-!
# The open-file table

The descriptors of all tasks and the used entries of `g_open_files` are in one-to-one correspondence. `attach_fd`
gives its entry back when the task has no free slot, so an open that fails leaves no used entry without a descriptor.
-/

namespace Mgcore
open Function

structure TableConsistent (s : Fs) : Prop where
  standard_null : ∀ task fd, fd < 3 → (s.tasks.tasks task).fds fd = none
  to_used : ∀ task fd f, (s.tasks.tasks task).fds fd = some f →
    fd < maxFds ∧ f < maxOpenFiles ∧ (s.openFiles f).used = true
  injective : ∀ task fd task' fd' f, (s.tasks.tasks task).fds fd = some f →
    (s.tasks.tasks task').fds fd' = some f → task = task' ∧ fd = fd'
  onto_used : ∀ f < maxOpenFiles, (s.openFiles f).used = true → ∃ task fd, (s.tasks.tasks task).fds fd = some f
  one_ref : ∀ f < maxOpenFiles, (s.openFiles f).used = true → (s.openFiles f).refs = 1

/-! ## Single calls -/

section
variable {s t : Fs} (table : TableConsistent s)
include table

theorem TableConsistent.congr (fds : ∀ task, (t.tasks.tasks task).fds = (s.tasks.tasks task).fds)
    (used : ∀ f, (t.openFiles f).used = (s.openFiles f).used)
    (refs : ∀ f, (s.openFiles f).used = true → (t.openFiles f).refs = (s.openFiles f).refs) : TableConsistent t where
  standard_null task fd low := by
    rw [fds]
    exact table.standard_null task fd low
  to_used task fd f entry := by
    rw [fds] at entry
    rw [used]
    exact table.to_used task fd f entry
  injective task fd task' fd' f entry entry' := by
    rw [fds] at entry entry'
    exact table.injective task fd task' fd' f entry entry'
  onto_used f bound taken := by
    rw [used] at taken
    obtain ⟨task, fd, entry⟩ := table.onto_used f bound taken
    exact ⟨task, fd, by rw [fds]; exact entry⟩
  one_ref f bound taken := by
    rw [used] at taken
    rw [refs f taken]
    exact table.one_ref f bound taken

theorem TableConsistent.opened {f fd : Nat} {file : VfsFile} (free : freeFile s = some f)
    (slot : freeFd (taskCurrent s.tasks) = some fd) (used : file.used = true) (refs : file.refs = 1)
    (fds : ∀ task k, (t.tasks.tasks task).fds k =
      if task = s.tasks.currentIndex ∧ k = fd then some f else (s.tasks.tasks task).fds k)
    (files : t.openFiles = update s.openFiles f file) : TableConsistent t := by
  obtain ⟨bound, unused⟩ := freeFile_spec free
  obtain ⟨-, above, below⟩ := freeFd_spec slot
  have fresh : ∀ task k, (s.tasks.tasks task).fds k ≠ some f := by
    intro task k entry
    have taken := (table.to_used task k f entry).2.2
    rw [unused] at taken
    cases taken
  have other : ∀ g, g ≠ f → t.openFiles g = s.openFiles g := fun g different => by rw [files, update_of_ne different]
  have here : t.openFiles f = file := by rw [files, update_self]
  refine ⟨fun task k low => ?_, fun task k g entry => ?_, fun task k task' k' g entry entry' => ?_,
    fun g inside taken => ?_, fun g inside taken => ?_⟩
  · rw [fds, if_neg (by omega)]
    exact table.standard_null task k low
  · rw [fds] at entry
    split_ifs at entry with new
    · cases entry
      exact ⟨new.2 ▸ below, bound, by rw [here, used]⟩
    · have different : g ≠ f := fun same => fresh task k (same ▸ entry)
      rw [other g different]
      exact table.to_used task k g entry
  · rw [fds] at entry entry'
    split_ifs at entry with new <;> split_ifs at entry' with new'
    · exact ⟨new.1.trans new'.1.symm, new.2.trans new'.2.symm⟩
    · cases entry
      exact absurd entry' (fresh task' k')
    · cases entry'
      exact absurd entry (fresh task k)
    · exact table.injective task k task' k' g entry entry'
  · by_cases same : g = f
    · exact ⟨s.tasks.currentIndex, fd, by rw [fds, if_pos ⟨rfl, rfl⟩, same]⟩
    · rw [other g same] at taken
      obtain ⟨task, k, entry⟩ := table.onto_used g inside taken
      have elsewhere : ¬(task = s.tasks.currentIndex ∧ k = fd) := by
        rintro ⟨rfl, rfl⟩
        have empty := (freeFd_spec slot).1
        rw [taskCurrent, entry] at empty
        cases empty
      exact ⟨task, k, by rw [fds, if_neg elsewhere]; exact entry⟩
  · by_cases same : g = f
    · rw [same, here, refs]
    · rw [other g same] at taken ⊢
      exact table.one_ref g inside taken

theorem TableConsistent.closed {f fd : Nat} (entry : (s.tasks.tasks s.tasks.currentIndex).fds fd = some f)
    (fds : ∀ task k, (t.tasks.tasks task).fds k =
      if task = s.tasks.currentIndex ∧ k = fd then none else (s.tasks.tasks task).fds k)
    (files : t.openFiles = update s.openFiles f {}) : TableConsistent t := by
  have kept : ∀ task k g, (t.tasks.tasks task).fds k = some g → (s.tasks.tasks task).fds k = some g ∧ g ≠ f := by
    intro task k g after
    rw [fds] at after
    split_ifs at after with gone
    refine ⟨after, fun same => gone ?_⟩
    obtain ⟨sameTask, sameFd⟩ := table.injective task k _ fd f (same ▸ after) entry
    exact ⟨sameTask, sameFd⟩
  have other : ∀ g, g ≠ f → t.openFiles g = s.openFiles g := fun g different => by rw [files, update_of_ne different]
  have notFreed : ∀ g, (t.openFiles g).used = true → g ≠ f := by
    rintro g taken rfl
    rw [files, update_self] at taken
    cases taken
  refine ⟨fun task k low => ?_, fun task k g after => ?_, fun task k task' k' g after after' => ?_,
    fun g inside taken => ?_, fun g inside taken => ?_⟩
  · rw [fds]
    split_ifs
    · rfl
    · exact table.standard_null task k low
  · obtain ⟨before, different⟩ := kept task k g after
    rw [other g different]
    exact table.to_used task k g before
  · exact table.injective task k task' k' g (kept task k g after).1 (kept task' k' g after').1
  · have different := notFreed g taken
    rw [other g different] at taken
    obtain ⟨task, k, before⟩ := table.onto_used g inside taken
    have elsewhere : ¬(task = s.tasks.currentIndex ∧ k = fd) := by
      rintro ⟨rfl, rfl⟩
      rw [entry, Option.some.injEq] at before
      exact different before.symm
    exact ⟨task, k, by rw [fds, if_neg elsewhere]; exact before⟩
  · have different := notFreed g taken
    rw [other g different] at taken ⊢
    exact table.one_ref g inside taken

theorem TableConsistent.call {c : FsCall} {r : Int} (returns : fsCall s c = some (r, t)) : TableConsistent t := by
  cases fsCall_files returns with
  | same same _ _ =>
      refine table.congr (fun task => by rw [same.tasks]) (fun f => ?_) (fun f _ => ?_)
      · obtain ⟨offset, eq, -⟩ := same.files f
        rw [eq]
      · obtain ⟨offset, eq, -⟩ := same.files f
        rw [eq]
  | dropped f file _ _ free unused _ tasks files =>
      refine table.congr (fun task => by rw [tasks]) (fun g => ?_) (fun g taken => ?_)
      · rw [files]
        by_cases here : g = f
        · rw [here, update_self, unused, free]
        · rw [update_of_ne here]
      · have other : g ≠ f := by
          rintro rfl
          rw [free] at taken
          cases taken
        rw [files, update_of_ne other]
  | opened f fd nodeId flags _ free slot _ after =>
      obtain ⟨u, rfl⟩ := after
      exact table.opened free slot rfl rfl (fun task k => Fs.setFd_fds _ _ _ _ _) rfl
  | closed f fd _ entry _ after =>
      obtain ⟨k, rfl, bound, entry⟩ := lookupFile_as.mp (show lookupFile (s.as s.tasks.currentIndex) fd = some f from entry)
      obtain ⟨-, inside, used⟩ := table.to_used _ k f entry
      rw [table.one_ref f inside used, if_pos (by decide)] at after
      rw [after]
      exact table.closed entry (fun task k' => Fs.setFd_fds _ _ _ _ _) rfl

theorem TableConsistent.close {fd : Int} {f : Nat} (entry : lookupFile s fd = some f) :
    ((fsCloseFd s fd).2.openFiles = update s.openFiles f {}) ∧
    ∀ task k, ((fsCloseFd s fd).2.tasks.tasks task).fds k =
      if task = s.tasks.currentIndex ∧ (k : Int) = fd then none else (s.tasks.tasks task).fds k := by
  obtain ⟨k, rfl, bound, slot⟩ := lookupFile_as.mp (show lookupFile (s.as s.tasks.currentIndex) fd = some f from entry)
  obtain ⟨-, inside, used⟩ := table.to_used _ k f slot
  have refs := table.one_ref f inside used
  have after : (fsCloseFd s k).2 = (s.setFile f {}).setFd k none := by
    simp [fsCloseFd, entry, refs]
  rw [after]
  refine ⟨rfl, fun task k' => ?_⟩
  rw [Fs.setFd_fds]
  exact if_congr (and_congr_right fun _ => by omega) rfl rfl

end

/-! ## Errors of an open -/

theorem fsOpenPath_full {s t : Fs} {path : List UInt8} {flags mode : UInt32}
    (full : fsOpenPath s path flags mode = some (-eNFILE, t)) : freeFile s = none := by
  simp only [fsOpenPath, Option.bind_eq_bind, Option.bind_eq_some_iff, Option.pure_def] at full
  obtain ⟨⟨nodeId, u⟩, opened, returns⟩ := full
  dsimp only at returns
  by_cases missing : nodeId < 0
  · rw [if_pos missing] at returns
    have result : nodeId = -eNFILE := congrArg Prod.fst (Option.some.inj returns)
    exact absurd result (openNode_error opened missing)
  · rw [if_neg missing] at returns
    have same : freeFile { s with tmpfs := u } = freeFile s := rfl
    cases free : freeFile s with
    | none => rfl
    | some f =>
        have nonneg : ¬(f : Int) < 0 := by omega
        simp only [allocOpenFile, same, free, nonneg, if_false, Option.some.injEq, Int.toNat_natCast, attachFd] at returns
        split at returns
        · cases congrArg Prod.fst returns
        · rename_i fd slot
          have result : (fd : Int) = -eNFILE := congrArg Prod.fst returns
          have negative : -eNFILE < 0 := by decide
          omega

theorem TableConsistent.full {s : Fs} (table : TableConsistent s) (full : freeFile s = none) {f : Nat}
    (inside : f < maxOpenFiles) : ∃ task fd, (s.tasks.tasks task).fds fd = some f := by
  have used := List.find?_eq_none.mp full f (List.mem_range.mpr inside)
  exact table.onto_used f inside (by simpa using used)

/-! ## Runs -/

inductive TableOp
  | call (c : FsCall)
  | elfProbe (path : List UInt8)
  | task (op : TaskOp)
  | mount (archive : List UInt8)

def tableStep (k : Kernel) : TableOp → Option Kernel
  | .call c => (fsCall k.fs c).map fun (_, s) => { k with fs := s }
  | .elfProbe path => (elfProbePath k path).map Prod.snd
  | .task op => some { k with fs := { k.fs with tasks := taskStep k.fs.tasks op } }
  | .mount archive => (fsMountInitramfs k.fs archive).map fun (_, s) => { k with fs := s }

/-- A probe is an open, perhaps a read, and a close. -/
theorem elfProbePath_invariant {P : Fs → Prop}
    (calls : ∀ s c r t, P s → fsCall s c = some (r, t) → P t) {k k' : Kernel} {path : List UInt8}
    {result : Int × Option ElfImage} (start : P k.fs) (returns : elfProbePath k path = some (result, k')) :
    P k'.fs := by
  simp only [elfProbePath, Option.bind_eq_bind, Option.bind_eq_some_iff, Option.pure_def] at returns
  obtain ⟨⟨fd, s⟩, opened, returns⟩ := returns
  have afterOpen : P s := calls k.fs (.openPath path 0 0) fd s start opened
  have afterClose : ∀ t, P t → P (fsCloseFd t fd).2 :=
    fun t before => calls t (.close fd) (fsCloseFd t fd).1 _ before rfl
  have afterRead : ∀ count, P (fsReadFd s fd count).2 :=
    fun count => calls s (.read fd count) (fsReadFd s fd count).1.1 _ afterOpen rfl
  dsimp only at returns
  split at returns
  · cases returns
    exact afterOpen
  · split at returns
    · cases returns
      exact afterClose s afterOpen
    · rw [Option.bind_eq_some_iff] at returns
      obtain ⟨answer, -, returns⟩ := returns
      split at returns
      · cases returns
        exact afterClose s afterOpen
      · split at returns
        · cases returns
          exact afterClose _ (afterRead _)
        · cases returns
          exact afterClose _ (afterRead _)

theorem TableConsistent.step {k k' : Kernel} (table : TableConsistent k.fs) {op : TableOp}
    (steps : tableStep k op = some k') : TableConsistent k'.fs := by
  cases op with
  | call c =>
      obtain ⟨⟨r, t⟩, returns, rfl⟩ := Option.map_eq_some_iff.mp steps
      exact table.call returns
  | elfProbe path =>
      obtain ⟨⟨result, k'⟩, returns, rfl⟩ := Option.map_eq_some_iff.mp steps
      exact elfProbePath_invariant (fun _ _ _ _ before returns => TableConsistent.call before returns) table returns
  | task op =>
      cases steps
      exact table.congr (fun task => taskStep_fds _ _ task) (fun _ => rfl) (fun _ _ => rfl)
  | mount archive =>
      obtain ⟨⟨r, t⟩, returns, rfl⟩ := Option.map_eq_some_iff.mp steps
      simp only [fsMountInitramfs, Option.bind_eq_bind, Option.bind_eq_some_iff] at returns
      obtain ⟨⟨code, u⟩, -, returns⟩ := returns
      cases returns
      exact table.congr (fun _ => rfl) (fun _ => rfl) (fun _ _ => rfl)

theorem TableConsistent.boot {console : Console} {s : Fs} (boots : fsBoot console = some s) : TableConsistent s := by
  have booted := Booted.of_fsBoot boots
  have empty := booted.fds
  have unused : ∀ f, (s.openFiles f).used ≠ true := by
    intro f used
    rw [booted.files] at used
    cases used
  exact ⟨fun task fd _ => empty task fd, fun task fd f entry => by simp [empty] at entry,
    fun task fd _ _ f entry => by simp [empty] at entry, fun f _ used => absurd used (unused f),
    fun f _ used => absurd used (unused f)⟩

theorem open_file_table (console : Console) (s : Fs) (boots : fsBoot console = some s) (ops : List TableOp) (k : Kernel)
    (reaches : Lib.run tableStep { fs := s } ops = some k) :
    TableConsistent k.fs ∧
    (∀ fd f, lookupFile k.fs fd = some f →
      (fsCloseFd k.fs fd).2.openFiles = update k.fs.openFiles f {} ∧
      ∀ task k', ((fsCloseFd k.fs fd).2.tasks.tasks task).fds k' =
        if task = k.fs.tasks.currentIndex ∧ (k' : Int) = fd then none else (k.fs.tasks.tasks task).fds k') ∧
    (∀ fd, lookupFile k.fs fd = none → (fsCloseFd k.fs fd).2 = k.fs) ∧
    ∀ path flags mode t, fsOpenPath k.fs path flags mode = some (-eNFILE, t) →
      ∀ f < maxOpenFiles, ∃ task fd, (k.fs.tasks.tasks task).fds fd = some f := by
  have table : TableConsistent k.fs := Lib.run_invariant (fun _ _ _ table _ steps => TableConsistent.step table steps)
    (fun _ _ => trivial) (TableConsistent.boot boots) reaches
  refine ⟨table, fun fd f entry => table.close entry, fun fd missing => ?_, fun path flags mode t full f inside => ?_⟩
  · rw [fsCloseFd, missing]
  · exact table.full (fsOpenPath_full full) inside

def tableRun : List TableOp :=
  [.call (.openPath (ascii "/a") oCREAT 0o644), .task (.spawnUser (ascii "child")), .task (.tick 1),
    .call (.openPath (ascii "/a") 0 0), .elfProbe (ascii "/a"), .task (.exit 0), .call (.close 3)]

theorem open_file_table_sample :
    ∃ s k, fsBoot {} = some s ∧ Lib.run tableStep { fs := s } tableRun = some k ∧ TableConsistent k.fs := by
  have runs : ((fsBoot {}).bind fun s => Lib.run tableStep { fs := s } tableRun).isSome := by decide +kernel
  obtain ⟨k, reaches⟩ := Option.isSome_iff_exists.mp runs
  obtain ⟨s, boots, reaches⟩ := Option.bind_eq_some_iff.mp reaches
  exact ⟨s, k, boots, reaches, (open_file_table {} s boots tableRun k reaches).1⟩

end Mgcore
