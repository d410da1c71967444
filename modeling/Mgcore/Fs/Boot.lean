import Mgcore.Fs.Calls

/-!
# The state after `fs_init`

The static variables are zero and the task table holds the bootstrap task when `fs_init` runs.
-/

namespace Mgcore
open Function

def fsBoot (console : Console) : Option Fs := fsInit { tasks := bootTasks, console := console }

theorem TmpfsInv.setDevice {s : Tmpfs} (inv : TmpfsInv s) (i : Nat) (deviceId : Int) :
    TmpfsInv (s.setNode i { s.nodes i with deviceId := deviceId }) := by
  constructor
  · refine inv.tree.congr fun j => ?_
    by_cases same : j = i
    · subst same; simp
    · simp [same]
  · refine inv.storage.congr rfl rfl fun j => ?_
    by_cases same : j = i
    · subst same; simp
    · simp [same]

theorem NameInv.setDevice {s : Tmpfs} (inv : NameInv s) (tables : TmpfsInv s) (i : Nat) (deviceId : Int) :
    NameInv (s.setNode i { s.nodes i with deviceId := deviceId }) := by
  apply inv.congr (tables.setDevice i deviceId).tree
  intro j
  by_cases here : j = i
  · subst here; simp
  · simp [here]

def bootPath (names : List String) (ok : names ≠ [] ∧ (∀ n ∈ names.map ascii, ValidName n) ∧
    (render (names.map ascii)).length < pathMax) : CanonicalPath :=
  ⟨names.map ascii, by simpa using ok.1, ok.2.1, ok.2.2⟩

section
variable {P : Tmpfs → Prop}
  (create : ∀ s t (p : CanonicalPath) type mode r, type ≠ .none → P s →
    tmpfsCreatePath s p.text type mode = some (r, t) → P t)
  (device : ∀ s i deviceId, P s → P (s.setNode i { s.nodes i with deviceId := deviceId }))
include create device

theorem initDeviceNode_invariant {s t : Tmpfs} (start : P s) (p : CanonicalPath) {deviceId : Int}
    (returns : initDeviceNode s p.text deviceId = some t) : P t := by
  simp only [initDeviceNode, Option.bind_eq_bind, Option.bind_eq_some_iff] at returns
  obtain ⟨⟨r, u⟩, created, nodeId, -, returns⟩ := returns
  have made := create s u p .chardev _ r (by simp) start created
  cases found : tmpfsGetNode u nodeId with
  | none =>
      rw [found] at returns
      cases returns
      exact made
  | some node =>
      obtain ⟨i, rfl, -, rfl, -⟩ := tmpfsGetNode_eq_some found
      rw [found] at returns
      cases returns
      exact device u i deviceId made

theorem fsInitNodes_invariant {before t : Tmpfs} (start : P (tmpfsInit before))
    (returns : fsInitNodes before = some t) : P t := by
  simp only [fsInitNodes, Option.bind_eq_bind, Option.bind_eq_some_iff] at returns
  obtain ⟨⟨_, dev⟩, madeDev, ⟨_, bin⟩, madeBin, ⟨_, tmp⟩, madeTmp, ⟨_, etc⟩, madeEtc, console, madeConsole, tty,
    madeTty, null, madeNull, madeZero⟩ := returns
  have afterDev := create _ dev (bootPath ["dev"] (by decide)) .dir _ _ (by simp) start madeDev
  have afterBin := create dev bin (bootPath ["bin"] (by decide)) .dir _ _ (by simp) afterDev madeBin
  have afterTmp := create bin tmp (bootPath ["tmp"] (by decide)) .dir _ _ (by simp) afterBin madeTmp
  have afterEtc := create tmp etc (bootPath ["etc"] (by decide)) .dir _ _ (by simp) afterTmp madeEtc
  have deviceNode := fun {s t : Tmpfs} => initDeviceNode_invariant (s := s) (t := t) create device
  have afterConsole := deviceNode afterEtc (bootPath ["dev", "console"] (by decide)) madeConsole
  have afterTty := deviceNode afterConsole (bootPath ["dev", "tty"] (by decide)) madeTty
  have afterNull := deviceNode afterTty (bootPath ["dev", "null"] (by decide)) madeNull
  exact deviceNode afterNull (bootPath ["dev", "zero"] (by decide)) madeZero

end

theorem fsInitNodes_inv {before t : Tmpfs} (zeroed : ∀ a, a < arenaSize → before.arena a = 0)
    (returns : fsInitNodes before = some t) : TmpfsInv t ∧ NameInv t := by
  have start : TmpfsInv (tmpfsInit before) ∧ NameInv (tmpfsInit before) := ⟨TmpfsInv.init zeroed, NameInv.init before⟩
  refine fsInitNodes_invariant (P := fun s => TmpfsInv s ∧ NameInv s) ?_ ?_ start returns
  · rintro s t p type mode r kind ⟨tables, names⟩ created
    exact ⟨(tables.create_cases kind created).1, names.create p kind created⟩
  · rintro s i deviceId ⟨tables, names⟩
    exact ⟨tables.setDevice i deviceId, names.setDevice tables i deviceId⟩

theorem fsInitNodes_returns : ∃ t, fsInitNodes {} = some t := by
  rw [← Option.isSome_iff_exists]
  decide +kernel

theorem bootTasks_fds (task : Fin maxTasks) (fd : Nat) : (bootTasks.tasks task).fds fd = none := by
  rw [bootTasks_tasks]
  by_cases first : task = 0
  · subst first
    rw [Function.update_self]
    rfl
  · rw [Function.update_of_ne first]

theorem fsBoot_spec (console : Console) :
    ∃ s t, fsBoot console = some s ∧ fsInitNodes {} = some t ∧ s.tmpfs = t ∧ s.openFiles = (fun _ => {}) ∧
      s.tasks = bootTasks := by
  obtain ⟨t, returns⟩ := fsInitNodes_returns
  exact ⟨_, t, by simp [fsBoot, fsInit, returns]; rfl, returns, rfl, rfl, rfl⟩

structure Booted (s : Fs) : Prop where
  nodes : fsInitNodes {} = some s.tmpfs
  files : s.openFiles = fun _ => {}
  tasks : s.tasks = bootTasks

namespace Booted
variable {s : Fs}

theorem of_fsBoot {console : Console} (boots : fsBoot console = some s) : Booted s := by
  obtain ⟨s', t, boots', returns, rfl, files, tasks⟩ := fsBoot_spec console
  cases boots.symm.trans boots'
  exact ⟨returns, files, tasks⟩

theorem tables (booted : Booted s) : TmpfsInv s.tmpfs := (fsInitNodes_inv (fun _ _ => rfl) booted.nodes).1

theorem fds (booted : Booted s) (task : Fin maxTasks) (fd : Nat) : (s.tasks.tasks task).fds fd = none := by
  rw [booted.tasks]
  exact bootTasks_fds task fd

end Booted

end Mgcore
