import Mgcore.Fs.Kernel

/-!
# Devices and the console input

Only `fs_init` makes device nodes, so in every state of a run a device node is one of the four it made, under its path
in `/dev`. A read from `/dev/null` takes the branch of `fs_read_fd` that reads the console; no read from another node
takes a byte from the ring or from the serial port, `/dev/console` and `/dev/tty` apart.
-/

namespace Mgcore
open Function Lib

/-- The device nodes that `fs_init` makes in `/dev`. -/
def devices : List (List UInt8 × Int) :=
  [(ascii "console", devCONSOLE), (ascii "tty", devTTY), (ascii "null", devNULL), (ascii "zero", devZERO)]

/-- The open file is on the device node that the path leads to. -/
structure OnDevice (s : Fs) (f : Nat) (path : List UInt8) : Prop where
  device : (s.tmpfs.node (s.openFiles f).nodeId).type = .chardev
  named : tmpfsLookupPath s.tmpfs path = some (s.openFiles f).nodeId

/-- A byte is in the serial port or in the ring. -/
def InputWaiting (c : Console) : Prop := c.serial ≠ [] ∨ c.inputReadIndex ≠ c.inputWriteIndex

/-! ## Device nodes along a run -/

/-- What a node holds apart from its links and its storage. -/
def VfsNode.label (n : VfsNode) : VfsNode := n.entry.header

theorem VfsNode.of_label {n m : VfsNode} (same : n.label = m.label) :
    n.type = m.type ∧ n.parentId = m.parentId ∧ n.name = m.name ∧ n.deviceId = m.deviceId := by
  simp only [VfsNode.label, VfsNode.entry, VfsNode.header, VfsNode.mk.injEq] at same
  obtain ⟨-, parent, -, -, type, name, -, -, -, -, device⟩ := same
  exact ⟨type, parent, name, device⟩

/-- Every device node of `t` was one of `s`, in the same directory. -/
structure NoNewDevice (s t : Tmpfs) : Prop where
  device : ∀ i, (t.nodes i).type = .chardev → (t.nodes i).label = (s.nodes i).label
  parent : ∀ i, (t.nodes i).type = .chardev → ∀ p : Nat, (s.nodes i).parentId = p →
    (t.nodes p).label = (s.nodes p).label

structure DeviceInv (s : Tmpfs) : Prop where
  listed : ∀ i, (s.nodes i).type = .chardev → ((s.nodes i).name, (s.nodes i).deviceId) ∈ devices
  inDev : ∀ i, (s.nodes i).type = .chardev → ∀ p : Nat, (s.nodes i).parentId = p →
    (s.nodes p).name = ascii "dev" ∧ (s.nodes p).parentId = (0 : Nat)

namespace NoNewDevice
variable {s t : Tmpfs}

theorem of_same (same : ∀ i, (t.nodes i).label = (s.nodes i).label) : NoNewDevice s t :=
  ⟨fun i _ => same i, fun _ _ p _ => same p⟩

theorem create (tree : TreeInv s) {path : List UInt8} {type : NodeType} {mode : UInt32} {r : Int}
    (plain : type ≠ .chardev) (returns : tmpfsCreatePath s path type mode = some (r, t)) : NoNewDevice s t := by
  rcases tmpfsCreatePath_cases returns with ⟨rfl, -⟩ | ⟨_, _, leaf, p, id, -, -, -, -, isDir, free, -, rfl⟩
  · exact .of_same fun _ => rfl
  · have noType := (freeSlot_spec free).1
    have other : p ≠ id := dir_ne_free isDir noType
    have old {i : Nat} (device : ((insertChild s id p leaf type mode).nodes i).type = .chardev) : i ≠ id := by
      rintro rfl
      rw [insertChild_type other, if_pos rfl] at device
      exact plain device
    refine ⟨fun i device => ?_, fun i device q parent => ?_⟩
    · exact congrArg VfsNode.header (insertChild_entry other (old device) leaf type mode)
    · have here := insertChild_type (s := s) other leaf type mode i
      rw [if_neg (old device), device] at here
      have used : InUse s i := by simp [InUse, ← here]
      have kept : q ≠ id := dir_ne_free (tree.parent_dir used parent) noType
      exact congrArg VfsNode.header (insertChild_entry other kept leaf type mode)

theorem remove (tree : TreeInv s) {path : List UInt8} {wantDir : Bool} {r : Int}
    (returns : tmpfsRemovePath s path wantDir = some (r, t)) : NoNewDevice s t := by
  rcases tree.remove_cases returns with ⟨rfl, -⟩ | ⟨id, p, u, -, -, -, -, childless, -, unlinked, -, rfl⟩
  · exact .of_same fun _ => rfl
  · have old {i : Nat} (device : ((u.setNode id {}).nodes i).type = .chardev) : i ≠ id := by
      rintro rfl
      rw [Tmpfs.setNode_nodes, update_self] at device
      cases device
    refine ⟨fun i device => ?_, fun i device q parent => ?_⟩
    · exact congrArg VfsNode.header (unlinked.removed_entry (old device))
    · -- A directory with a device in it is not empty.
      have used : InUse s i := by
        rw [(VfsNode.of_entry (unlinked.removed_entry (old device))).1] at device
        simp [InUse, device]
      have kept : q ≠ id := by
        rintro rfl
        exact childless i used parent
      exact congrArg VfsNode.header (unlinked.removed_entry kept)

theorem write (s : Tmpfs) (nodeId : Int) (buffer : List UInt8) (offset : Nat) :
    NoNewDevice s (tmpfsWriteNode s nodeId buffer offset).2 :=
  .of_same fun i => congrArg VfsNode.entry (tmpfsWriteNode_header s nodeId buffer offset i)

end NoNewDevice

namespace DeviceInv
variable {s t : Tmpfs}

theorem step (inv : DeviceInv s) (change : NoNewDevice s t) : DeviceInv t := by
  constructor
  · intro i device
    obtain ⟨type, -, name, number⟩ := VfsNode.of_label (change.device i device)
    rw [name, number]
    exact inv.listed i (type ▸ device)
  · intro i device p parent
    obtain ⟨type, above, -, -⟩ := VfsNode.of_label (change.device i device)
    have before : (s.nodes i).parentId = p := above ▸ parent
    obtain ⟨-, root, name, -⟩ := VfsNode.of_label (change.parent i device p before)
    rw [name, root]
    exact inv.inDev i (type ▸ device) p before

theorem mountNode (inv : DeviceInv s) (reached : TmpfsReachable s) {path : List UInt8} {mode : UInt32}
    {data : List UInt8} (returns : mountNode s path mode data = some t) : DeviceInv t := by
  have tree := (ChildInv.of_reachable reached).tree
  obtain ⟨type, r, u, kind, created, written⟩ := mountNode_cases returns
  have plain : type ≠ .chardev := by
    rcases kind with rfl | rfl
    · simp
    · simp
  have made : DeviceInv u := inv.step (.create tree plain created)
  rcases written with rfl | rfl
  · exact made
  · exact made.step (.write u r data 0)

theorem call {s t : Fs} (inv : DeviceInv s.tmpfs) (reached : TmpfsReachable s.tmpfs) {c : FsCall} {r : Int}
    (returns : fsCall s c = some (r, t)) : DeviceInv t.tmpfs := by
  have tree := (ChildInv.of_reachable reached).tree
  have effect := fsCall_tmpfs returns
  generalize t.tmpfs = table at effect
  cases effect with
  | same => exact inv
  | @created _ _ type _ _ _ origin created =>
      have plain : type ≠ .chardev := by
        rcases origin with rfl | ⟨rfl, -⟩
        · simp
        · simp
      exact inv.step (.create tree plain created)
  | removed removed => exact inv.step (.remove tree removed)
  | written _ nodeId offset => exact inv.step (.write s.tmpfs nodeId _ offset)

theorem boot {console : Console} {s : Fs} (boots : fsBoot console = some s) : DeviceInv s.tmpfs := by
  have booted := Booted.of_fsBoot boots
  obtain ⟨boot, returns, made⟩ : ∃ boot, fsInitNodes {} = some boot ∧ ∀ i < maxNodes, (boot.nodes i).type = .chardev →
      ((boot.nodes i).name, (boot.nodes i).deviceId) ∈ devices ∧
        (boot.node (boot.nodes i).parentId).name = ascii "dev" ∧
        (boot.node (boot.nodes i).parentId).parentId = (0 : Nat) :=
    exists_of_check (by decide +kernel)
  cases returns.symm.trans booted.nodes
  have inside (i : Nat) (device : (s.tmpfs.nodes i).type = .chardev) : i < maxNodes :=
    booted.tables.tree.bounded i (by simp [InUse, device])
  refine ⟨fun i device => (made i (inside i device) device).1, fun i device p parent => ?_⟩
  have above := (made i (inside i device) device).2
  rw [parent, Tmpfs.node_natCast] at above
  exact above

theorem of_reachable {k : Kernel} (reachable : Reachable k) : DeviceInv k.fs.tmpfs := by
  obtain ⟨console, s, ops, boots, reaches⟩ := reachable
  have calls (s : Fs) (c : FsCall) (r : Int) (t : Fs) (inv : KernelInv s ∧ DeviceInv s.tmpfs)
      (returns : fsCall s c = some (r, t)) : KernelInv t ∧ DeviceInv t.tmpfs :=
    ⟨inv.1.call returns, inv.2.call inv.1.nodes returns⟩
  have keeps (k : Kernel) (op : KernelOp) (k' : Kernel) (inv : KernelInv k.fs ∧ DeviceInv k.fs.tmpfs) (_ : True)
      (steps : kernelStep k op = some k') : KernelInv k'.fs ∧ DeviceInv k'.fs.tmpfs := by
    refine ⟨inv.1.step steps, ?_⟩
    cases op with
    | call c =>
        obtain ⟨⟨r, t⟩, returns, rfl⟩ := Option.map_eq_some_iff.mp steps
        exact inv.2.call inv.1.nodes returns
    | chdir path =>
        obtain ⟨⟨r, t⟩, returns, rfl⟩ := Option.map_eq_some_iff.mp steps
        rcases fsChdirPath_cases returns with ⟨rfl, -⟩ | ⟨-, i, -, -, rfl⟩
        · exact inv.2
        · exact inv.2
    | elfProbe path =>
        obtain ⟨⟨result, k'⟩, returns, rfl⟩ := Option.map_eq_some_iff.mp steps
        exact (elfProbePath_invariant (P := fun s => KernelInv s ∧ DeviceInv s.tmpfs) calls inv returns).2
    | task c =>
        cases steps
        exact inv.2
    | mount archive =>
        obtain ⟨⟨r, t⟩, returns, rfl⟩ := Option.map_eq_some_iff.mp steps
        obtain ⟨u, unpacked, rfl⟩ := fsMountInitramfs_cases returns
        refine (mountLoop_invariant (P := fun u => TmpfsReachable u ∧ DeviceInv u) ?_ ⟨inv.1.nodes, inv.2⟩ unpacked).2
        exact fun _ _ _ _ _ before made => ⟨before.1.mountNode made, before.2.mountNode before.1 made⟩
  exact (run_invariant keeps (fun _ _ => trivial) ⟨.boot boots, .boot boots⟩ reaches).2

end DeviceInv

/-! ## Paths of the devices -/

theorem device_path_tokens {name : List UInt8} {number : Int} (member : (name, number) ∈ devices) :
    (ascii "/dev/" ++ name).head? = some slash ∧ tokens (ascii "/dev/" ++ name) = [ascii "dev"] ++ [name] ∧
      name ≠ ascii "." ∧ name ≠ ascii ".." ∧ slash ∉ name := by
  have checked : ∀ d ∈ devices, (ascii "/dev/" ++ d.1).head? = some slash ∧
      tokens (ascii "/dev/" ++ d.1) = [ascii "dev"] ++ [d.1] ∧ d.1 ≠ ascii "." ∧ d.1 ≠ ascii ".." ∧ slash ∉ d.1 := by
    decide +kernel
  exact checked _ member

theorem devices_numbered {name name' : List UInt8} {number number' : Int} (member : (name, number) ∈ devices)
    (member' : (name', number') ∈ devices) : name = name' ↔ number = number' := by
  have checked : ∀ d ∈ devices, ∀ e ∈ devices, d.1 = e.1 ↔ d.2 = e.2 := by decide +kernel
  exact checked _ member _ member'

theorem walkStep_plain {s : Tmpfs} {name : List UInt8} (dot : name ≠ ascii ".") (dots : name ≠ ascii "..")
    (current : Nat) : walkStep s current name = childNamed s current name :=
  (if_neg dot).trans (if_neg dots)

theorem DeviceInv.lookup_iff {s : Tmpfs} (inv : DeviceInv s) (children : ChildInv s) {name : List UInt8} {number : Int}
    (member : (name, number) ∈ devices) {i : Nat} (device : (s.nodes i).type = .chardev) :
    tmpfsLookupPath s (ascii "/dev/" ++ name) = some (i : Int) ↔ (s.nodes i).deviceId = number := by
  obtain ⟨rooted, split, dot, dots, plain⟩ := device_path_tokens member
  have resolved : tmpfsLookupPath s (ascii "/dev/" ++ name) = _ := children.resolvePath_walk rooted
  rw [resolved, Option.some.injEq, nodeOrError_eq, split, walkPath_append,
    ← devices_numbered (inv.listed i device) member]
  have used : InUse s i := by simp [InUse, device]
  constructor
  · intro walks
    obtain ⟨p, -, last⟩ := Option.bind_eq_some_iff.mp walks
    rw [walkStep_plain dot dots] at last
    exact (childNamed_eq_some last).2.2
  · rintro rfl
    have notRoot : i ≠ 0 := by
      rintro rfl
      rw [children.tree.root_type] at device
      cases device
    obtain ⟨p, parent, isDir⟩ := children.tree.has_parent i used notRoot
    obtain ⟨dev, top⟩ := inv.inDev i device p parent
    have first : walkPath s [ascii "dev"] = some p := by
      have found := children.childNamed_eq (by simp [InUse, isDir]) top (by rw [dev]; decide)
      rw [dev, ← walkStep_plain (by decide) (by decide)] at found
      rw [walkPath, run_cons, found]
      rfl
    rw [first, Option.bind_some, walkStep_plain dot dots]
    exact children.childNamed_eq used parent plain

/-! ## Reads -/

theorem consoleReadLoop_idle {c : Console} (idle : ¬InputWaiting c) (count : Nat) :
    (consoleReadLoop count c).2 = c := by
  obtain ⟨port, ring⟩ := not_or.mp idle
  have nothing : consoleTryReadChar c = (none, c) := by
    rw [consoleTryReadChar, not_not.mp port, inputBufferPop, if_pos (not_not.mp ring)]
  cases count with
  | zero => rfl
  | succ count => rw [consoleReadLoop, nothing]

theorem consoleEnqueueInput_serial (c : Console) (b : UInt8) : (consoleEnqueueInput c b).serial = c.serial := by
  unfold consoleEnqueueInput
  split_ifs
  · rfl
  · rfl

theorem inputBufferPop_serial (c : Console) : (inputBufferPop c).2.serial = c.serial := by
  unfold inputBufferPop
  split_ifs
  · rfl
  · rfl

/-- The first byte leaves the serial port, or the ring moves on. -/
theorem consoleReadLoop_waiting {c : Console} (waiting : InputWaiting c) : (consoleReadLoop 1 c).2 ≠ c := by
  have once : (consoleReadLoop 1 c).2 = (consoleTryReadChar c).2 := by
    rw [consoleReadLoop]
    rcases consoleTryReadChar c with ⟨_ | b, d⟩
    · rfl
    · rfl
  rw [once]
  intro same
  cases port : c.serial with
  | cons b rest =>
      have shorter := congrArg Console.serial same
      rw [consoleTryReadChar, port] at shorter
      dsimp only at shorter
      rw [inputBufferPop_serial, consoleEnqueueInput_serial] at shorter
      exact absurd shorter (List.ne_cons_self)
  | nil =>
      have ring := waiting.resolve_left (not_not.mpr port)
      have moved := congrArg Console.inputReadIndex same
      rw [consoleTryReadChar, port] at moved
      dsimp only at moved
      rw [inputBufferPop, if_neg ring] at moved
      change (c.inputReadIndex + 1) % 128 = c.inputReadIndex at moved
      omega

theorem consoleReadLoop_kept_iff (c : Console) : (∀ count, (consoleReadLoop count c).2 = c) ↔ ¬InputWaiting c :=
  ⟨fun kept waiting => consoleReadLoop_waiting waiting (kept 1), consoleReadLoop_idle⟩

theorem fsReadFd_console {s : Fs} {fd : Int} {f i : Nat} (entry : lookupFile s fd = some f)
    (node : (s.openFiles f).nodeId = i) (bound : i < maxNodes) (used : InUse s.tmpfs i) (count : Nat) :
    (fsReadFd s fd count).2.console =
      if (s.tmpfs.nodes i).type = .chardev ∧ ((s.tmpfs.nodes i).deviceId = devNULL ∨
        (s.tmpfs.nodes i).deviceId = devCONSOLE ∨ (s.tmpfs.nodes i).deviceId = devTTY)
      then (consoleReadLoop count s.console).2 else s.console := by
  have found : tmpfsGetNode s.tmpfs (s.openFiles f).nodeId = some (s.tmpfs.nodes i) := by
    rw [node]
    exact tmpfsGetNode_natCast bound used
  simp only [fsReadFd, entry, found]
  by_cases zero : (s.tmpfs.nodes i).type = .chardev ∧ (s.tmpfs.nodes i).deviceId = devZERO
  · have other : ¬((s.tmpfs.nodes i).deviceId = devNULL ∨ (s.tmpfs.nodes i).deviceId = devCONSOLE ∨
        (s.tmpfs.nodes i).deviceId = devTTY) := by
      rw [zero.2]
      decide
    rw [if_pos zero, if_neg fun console => other console.2]
  · rw [if_neg zero]
    split_ifs
    · rfl
    · rfl
    · rfl

/-- Where the descriptor leads to no node. -/
theorem fsReadFd_stale {s : Fs} {fd : Int} {f : Nat} (entry : lookupFile s fd = some f)
    (stale : tmpfsGetNode s.tmpfs (s.openFiles f).nodeId = none) (count : Nat) : (fsReadFd s fd count).2 = s := by
  simp only [fsReadFd, entry, stale]

theorem OnDevice.node {s : Fs} {f : Nat} {path : List UInt8} (tree : TreeInv s.tmpfs) (onDevice : OnDevice s f path) :
    ∃ i : Nat, (s.openFiles f).nodeId = i ∧ i < maxNodes ∧ (s.tmpfs.nodes i).type = .chardev := by
  have device := onDevice.device
  rcases Int.lt_or_le (s.openFiles f).nodeId 0 with negative | nonneg
  · -- The root stands for the negative numbers here, and is a directory.
    rw [Tmpfs.node, Int.toNat_of_nonpos (Int.le_of_lt negative), tree.root_type] at device
    cases device
  · obtain ⟨i, same⟩ := Int.eq_ofNat_of_zero_le nonneg
    rw [same, Tmpfs.node_natCast] at device
    exact ⟨i, same, tree.bounded i (by simp [InUse, device]), device⟩

theorem onDevice_iff {s : Fs} (inv : DeviceInv s.tmpfs) (children : ChildInv s.tmpfs) {name : List UInt8} {number : Int}
    (member : (name, number) ∈ devices) {f i : Nat} (node : (s.openFiles f).nodeId = i) :
    OnDevice s f (ascii "/dev/" ++ name) ↔
      (s.tmpfs.nodes i).type = .chardev ∧ (s.tmpfs.nodes i).deviceId = number := by
  constructor
  · rintro ⟨device, named⟩
    rw [node] at named
    rw [node, Tmpfs.node_natCast] at device
    exact ⟨device, (inv.lookup_iff children member device).mp named⟩
  · rintro ⟨device, number⟩
    refine ⟨by rw [node, Tmpfs.node_natCast, device], ?_⟩
    rw [node]
    exact (inv.lookup_iff children member device).mpr number

/-- `console` is the input as the keyboard and the serial port have left it when the call is made. -/
theorem read_leaves_input_iff (k : Kernel) (reachable : Reachable k) (console : Console) (fd : Int) (f : Nat)
    (entry : lookupFile k.fs fd = some f) (notConsole : ¬OnDevice k.fs f (ascii "/dev/console"))
    (notTty : ¬OnDevice k.fs f (ascii "/dev/tty")) :
    (∀ count, (fsReadFd { k.fs with console := console } fd count).2.console = console) ↔
      ¬OnDevice k.fs f (ascii "/dev/null") ∨ ¬InputWaiting console := by
  have inv := DeviceInv.of_reachable reachable
  have children := ChildInv.of_reachable (KernelInv.of_reachable reachable).nodes
  cases found : tmpfsGetNode k.fs.tmpfs (k.fs.openFiles f).nodeId with
  | none =>
      have stale (count : Nat) := fsReadFd_stale (s := { k.fs with console := console }) entry found count
      refine iff_of_true (fun count => by rw [stale]) (Or.inl fun onDevice => ?_)
      obtain ⟨i, node, bound, device⟩ := onDevice.node children.tree
      rw [node, tmpfsGetNode_natCast bound (by simp [device])] at found
      cases found
  | some n =>
      obtain ⟨i, node, bound, -, used⟩ := tmpfsGetNode_eq_some found
      have reads (count : Nat) :=
        fsReadFd_console (s := { k.fs with console := console }) entry node bound used count
      have other {name : List UInt8} {number : Int} (member : (name, number) ∈ devices) :=
        onDevice_iff inv children member node
      have asConsole := (other (show (ascii "console", devCONSOLE) ∈ devices by decide)).not.mp notConsole
      have asTty := (other (show (ascii "tty", devTTY) ∈ devices by decide)).not.mp notTty
      have asNull := other (show (ascii "null", devNULL) ∈ devices by decide)
      by_cases null : (k.fs.tmpfs.nodes i).type = .chardev ∧ (k.fs.tmpfs.nodes i).deviceId = devNULL
      · have shared (count : Nat) := (reads count).trans (if_pos ⟨null.1, Or.inl null.2⟩)
        simp only [shared]
        rw [consoleReadLoop_kept_iff]
        exact ⟨Or.inr, fun either => either.resolve_left (not_not.mpr (asNull.mpr null))⟩
      · have alone (count : Nat) := (reads count).trans (if_neg (by
          rintro ⟨device, isNull | isConsole | isTty⟩
          · exact null ⟨device, isNull⟩
          · exact asConsole ⟨device, isConsole⟩
          · exact asTty ⟨device, isTty⟩))
        exact iff_of_true alone (Or.inl (asNull.not.mpr null))

/-- None of the paths leads to the node of the open file. -/
def Elsewhere (s : Fs) (f : Nat) (paths : List (List UInt8)) : Prop :=
  ∀ path ∈ paths, tmpfsLookupPath s.tmpfs path ≠ some (s.openFiles f).nodeId

instance (s : Fs) (f : Nat) (paths : List (List UInt8)) : Decidable (Elsewhere s f paths) :=
  inferInstanceAs (Decidable (∀ path ∈ paths, _))

theorem Elsewhere.not_onDevice {s : Fs} {f : Nat} {paths : List (List UInt8)} (elsewhere : Elsewhere s f paths)
    {path : List UInt8} (member : path ∈ paths) : ¬OnDevice s f path :=
  fun onDevice => elsewhere path member onDevice.named

theorem read_leaves_input_iff_sample :
    ∃ k, Reachable k ∧ lookupFile k.fs 3 = some 0 ∧ ¬OnDevice k.fs 0 (ascii "/dev/console") ∧
      ¬OnDevice k.fs 0 (ascii "/dev/tty") ∧ InputWaiting { serial := [97] } ∧
      ∀ count, (fsReadFd { k.fs with console := { serial := [97] } } 3 count).2.console = { serial := [97] } := by
  obtain ⟨k, runs, entry, elsewhere⟩ : ∃ k, bootRun [.call (.openPath (ascii "/dev/zero") 0 0)] = some k ∧
      lookupFile k.fs 3 = some 0 ∧ Elsewhere k.fs 0 [ascii "/dev/console", ascii "/dev/tty", ascii "/dev/null"] :=
    exists_of_check (by decide +kernel)
  have reachable := Reachable.of_bootRun runs
  have notConsole := elsewhere.not_onDevice (show ascii "/dev/console" ∈ _ by simp)
  have notTty := elsewhere.not_onDevice (show ascii "/dev/tty" ∈ _ by simp)
  refine ⟨k, reachable, entry, notConsole, notTty, Or.inl (by simp), ?_⟩
  refine (read_leaves_input_iff k reachable _ 3 0 entry notConsole notTty).mpr (Or.inl ?_)
  exact elsewhere.not_onDevice (by simp)

/-- After a key is pressed, a read from `/dev/null` returns the character and takes it out of the ring. -/
theorem null_read_takes_key :
    ∃ k, Reachable k ∧ lookupFile k.fs 3 = some 0 ∧ ¬OnDevice k.fs 0 (ascii "/dev/console") ∧
      ¬OnDevice k.fs 0 (ascii "/dev/tty") ∧
      (fsReadFd { k.fs with console := consoleEnqueueInput k.fs.console 97 } 3 1).1 = (1, [97]) ∧
      (fsReadFd { k.fs with console := consoleEnqueueInput k.fs.console 97 } 3 1).2.console ≠
        consoleEnqueueInput k.fs.console 97 := by
  obtain ⟨k, runs, entry, elsewhere, taken, moved⟩ :
      ∃ k, bootRun [.call (.openPath (ascii "/dev/null") 0 0)] = some k ∧ lookupFile k.fs 3 = some 0 ∧
        Elsewhere k.fs 0 [ascii "/dev/console", ascii "/dev/tty"] ∧
        (fsReadFd { k.fs with console := consoleEnqueueInput k.fs.console 97 } 3 1).1 = (1, [97]) ∧
        (fsReadFd { k.fs with console := consoleEnqueueInput k.fs.console 97 } 3 1).2.console.inputReadIndex ≠
          (consoleEnqueueInput k.fs.console 97).inputReadIndex :=
    exists_of_check (by decide +kernel)
  refine ⟨k, .of_bootRun runs, entry, elsewhere.not_onDevice (by simp), elsewhere.not_onDevice (by simp), taken, ?_⟩
  intro same
  exact moved (congrArg Console.inputReadIndex same)

end Mgcore
