import Mgcore.Fs.Directories
import Mgcore.Initramfs.Entries
import Mgcore.Initramfs.Format
import Mgcore.Tmpfs.Growth

/-!
# What a mounted archive leaves behind

`fs_mount_initramfs` does not look at what `parse_cpio_hex`, `tmpfs_create_path` and `tmpfs_write_node` return, so a
return of 0 says that the archive was walked, not that it was unpacked. `cpioEntries` is the walk; the mount is a run
over its entries. As long as each entry fits the state it is unpacked into (`EntryFits`), the entries before it stay
where they were put, and at the end all of them are there.
-/

namespace Mgcore

open Function Lib

/-! ## The entries -/

/-- A field of the header is `none` where `parse_cpio_hex` fails. -/
structure CpioEntry where
  name : List UInt8
  path : List UInt8
  mode : Option UInt32
  fileSize : Option UInt32
  nameSize : Option UInt32
  data : List UInt8
  deriving DecidableEq

section
variable (cwd archive : List UInt8)

def nameAt (cursor : Nat) : List UInt8 := (archive.drop (cursor + 110)).takeWhile (· ≠ 0)

def entryAt (cursor : Nat) : CpioEntry where
  name := nameAt archive cursor
  path := normalizePath cwd (nameAt archive cursor)
  mode := modeField archive cursor
  fileSize := sizeField archive cursor
  nameSize := nameField archive cursor
  data := entryData archive cursor

def entriesLoop : Nat → Nat → Option (List CpioEntry × Int)
  | 0, _ => none
  | fuel + 1, cursor =>
      (entryStep cwd archive cursor).bind fun step =>
        match step with
        | .returns code => some ([], code)
        | .skip next => entriesLoop fuel next
        | .mount _ _ _ next => (entriesLoop fuel next).map fun rest => (entryAt cwd archive cursor :: rest.1, rest.2)

/-- The entries before the trailer without those of the root, and the value that is returned behind them. -/
def cpioEntries : Option (List CpioEntry × Int) := entriesLoop cwd archive (archive.length + 1) 0

end

def mountEntry (s : Tmpfs) (e : CpioEntry) : Option Tmpfs := mountNode s e.path (e.mode.getD 0) e.data

theorem entryName_eq {cwd archive name : List UInt8} {cursor : Nat}
    (named : entryName cwd archive (cursor + 110) = some name) : nameAt archive cursor = name := by
  unfold entryName at named
  dsimp only at named
  split_ifs at named with terminated filled
  · exact Option.some.inj named
  · rw [← Option.some.inj named, nameAt, List.takeWhile_eq_self_iff]
    intro b member
    have nonzero : b ≠ 0 := fun zero => terminated (zero ▸ member)
    simpa using nonzero

theorem mountEntry_entryAt {cwd archive path data : List UInt8} {mode : UInt32} {cursor next : Nat}
    (round : entryStep cwd archive cursor = some (.mount path mode data next)) (s : Tmpfs) :
    mountEntry s (entryAt cwd archive cursor) = mountNode s path mode data := by
  rcases entryStep_cases round with same | same | ⟨name, -, named, same | same⟩
  · cases same
  · cases same
  · cases same
  · cases same
    rw [mountEntry, entryAt, entryName_eq named]

theorem entryStep_code {cwd archive : List UInt8} {cursor : Nat} {code : Int}
    (round : entryStep cwd archive cursor = some (.returns code)) : code = 0 ∨ code < 0 := by
  rcases entryStep_cases round with same | same | ⟨name, -, -, same | same⟩
  · cases same
    exact Or.inl rfl
  · cases same
    exact Or.inr (by decide)
  · cases same
  · cases same

section
variable {cwd archive : List UInt8} {fuel cursor : Nat} {entries : List CpioEntry} {code : Int}

theorem entriesLoop_code (walk : entriesLoop cwd archive fuel cursor = some (entries, code)) : code = 0 ∨ code < 0 := by
  induction fuel generalizing cursor entries with
  | zero => cases walk
  | succ fuel ih =>
      rw [entriesLoop, Option.bind_eq_some_iff] at walk
      obtain ⟨step, round, walk⟩ := walk
      cases step with
      | returns other =>
          cases walk
          exact entryStep_code round
      | skip next => exact ih walk
      | mount path mode data next =>
          obtain ⟨⟨rest, other⟩, later, same⟩ := Option.map_eq_some_iff.mp walk
          cases same
          exact ih later

/-- The loop unpacks the entries one after the other and returns what the walk returns. -/
theorem mountLoop_entries (walk : entriesLoop cwd archive fuel cursor = some (entries, code)) (s : Tmpfs) :
    mountLoop cwd archive fuel cursor s = (run mountEntry s entries).map fun t => (code, t) := by
  induction fuel generalizing cursor entries s with
  | zero => cases walk
  | succ fuel ih =>
      rw [entriesLoop, Option.bind_eq_some_iff] at walk
      obtain ⟨step, round, walk⟩ := walk
      rw [mountLoop_succ, round, Option.bind_some]
      cases step with
      | returns other =>
          cases walk
          rfl
      | skip next => exact ih walk s
      | mount path mode data next =>
          obtain ⟨⟨rest, other⟩, later, same⟩ := Option.map_eq_some_iff.mp walk
          cases same
          rw [run_cons, mountEntry_entryAt round s]
          dsimp only
          cases mountNode s path mode data with
          | none => rfl
          | some t => exact ih later t

end

/-! ## The property and its condition -/

def modeKind (mode : UInt32) : Option NodeType :=
  if mode &&& 0o170000 = 0o040000 then some .dir
  else if mode &&& 0o170000 = 0o100000 then some .file
  else if mode &&& 0o170000 = 0o020000 then some .chardev
  else none

namespace CpioEntry

def kind (e : CpioEntry) : Option NodeType := modeKind (e.mode.getD 0)

def ValidFields (e : CpioEntry) : Prop := e.mode.isSome ∧ e.fileSize.isSome ∧ e.nameSize.isSome

instance (e : CpioEntry) : Decidable e.ValidFields := inferInstanceAs (Decidable (_ ∧ _))

end CpioEntry

def OccursOnce (all : List CpioEntry) (e : CpioEntry) : Prop := (all.map CpioEntry.name).count e.name = 1

instance (all : List CpioEntry) (e : CpioEntry) : Decidable (OccursOnce all e) := inferInstanceAs (Decidable (_ = _))

/-- `e` is in `t`: under its path, of the kind its mode says, and with its data if it is a file named once. -/
structure EntryUnpacked (t : Tmpfs) (all : List CpioEntry) (e : CpioEntry) : Prop where
  fields : e.ValidFields
  node : ∃ i, nodeAt t e.path = some i ∧ e.kind = some (t.nodes i).type ∧
    (e.kind = some .file → OccursOnce all e → contents t i = some e.data)

def MountReported (s : Fs) (archive : List UInt8) : Prop :=
  ∃ code t entries, fsMountInitramfs s archive = some (code, t) ∧
    cpioEntries (taskCurrent s.tasks).cwd archive = some (entries, code) ∧
    (code < 0 ∨ code = 0 ∧ ∀ e ∈ entries, EntryUnpacked t.tmpfs entries e)

/-- A file fits if there is room for its data and, where a file is already at its path, this one is not longer; where it
is the file of an earlier entry under another name, the data must begin like the one of that entry. -/
structure FileFits (all earlier : List CpioEntry) (s : Tmpfs) (e : CpioEntry) : Prop where
  room : e.data ≠ [] → (∃ i ∈ nodeAt s e.path, e.data.length ≤ (s.nodes i).capacity) ∨
    s.dataOffset + (e.data.length + 255) / 256 * 256 ≤ arenaSize
  shorter : OccursOnce all e → ∀ i ∈ nodeAt s e.path, (s.nodes i).size ≤ e.data.length
  agrees : ∀ i ∈ nodeAt s e.path, ∀ d ∈ earlier, d.kind = some .file → OccursOnce all d →
    nodeAt s d.path = some i → e.data <+: d.data

/-- What none of the calls checks, or reports in vain: valid fields, a path that leads to a node of the right kind or can
be created, and a file that fits. -/
structure EntryFits (all earlier : List CpioEntry) (s : Tmpfs) (e : CpioEntry) : Prop where
  fields : e.ValidFields
  existing : ∀ i ∈ nodeAt s e.path, e.kind = some (s.nodes i).type
  missing : nodeAt s e.path = none → Creatable s e.path ∧ (e.kind = some .dir ∨ e.kind = some .file)
  file : e.kind = some .file → FileFits all earlier s e

def mountStep (s : Tmpfs × List CpioEntry) (e : CpioEntry) : Option (Tmpfs × List CpioEntry) :=
  (mountEntry s.1 e).map fun t => (t, s.2 ++ [e])

def MountFits (s : Fs) (archive : List UInt8) : Prop :=
  ∃ entries code, cpioEntries (taskCurrent s.tasks).cwd archive = some (entries, code) ∧
    Along mountStep (fun at_ e => EntryFits entries at_.2 at_.1 e) (s.tmpfs, []) entries

/-! ## One entry -/

theorem kind_eq_dir {e : CpioEntry} : e.kind = some .dir ↔ ModeIsDir (e.mode.getD 0) := by
  unfold CpioEntry.kind modeKind
  split_ifs with isDir isFile isDevice
  · exact iff_of_true rfl isDir
  · exact iff_of_false (by simp) isDir
  · exact iff_of_false (by simp) isDir
  · exact iff_of_false (by simp) isDir

/-- The type `tmpfs_create_path` is asked for. -/
def CpioEntry.mountType (e : CpioEntry) : NodeType := if ModeIsDir (e.mode.getD 0) then .dir else .file

theorem mountType_of_kind {e : CpioEntry} (kind : e.kind = some .dir ∨ e.kind = some .file) :
    e.kind = some e.mountType := by
  unfold CpioEntry.mountType
  split_ifs with isDir
  · exact kind_eq_dir.mpr isDir
  · exact kind.resolve_left fun directory => isDir (kind_eq_dir.mp directory)

theorem mountEntry_eq (s : Tmpfs) (e : CpioEntry) :
    mountEntry s e = (tmpfsCreatePath s e.path e.mountType (e.mode.getD 0)).map fun made =>
      if e.kind ≠ some .dir ∧ 0 ≤ made.1 ∧ e.data ≠ [] then (tmpfsWriteNode made.2 made.1 e.data 0).2 else made.2 := by
  unfold mountEntry mountNode CpioEntry.mountType
  by_cases isDir : ModeIsDir (e.mode.getD 0)
  · rw [if_pos isDir, if_pos isDir]
    simp only [kind_eq_dir.mpr isDir, ne_eq, not_true_eq_false, false_and, if_false]
  · have notDir : e.kind ≠ some .dir := fun directory => isDir (kind_eq_dir.mp directory)
    rw [if_neg isDir, if_neg isDir]
    simp only [notDir, ne_eq, not_false_eq_true, true_and, Option.bind_eq_bind]
    cases tmpfsCreatePath s e.path .file (e.mode.getD 0) with
    | none => rfl
    | some made =>
        rw [Option.bind_some, Option.map_some]
        split_ifs <;> rfl

theorem EntryUnpacked.kept {s t : Tmpfs} {all : List CpioEntry} {d : CpioEntry} (unpacked : EntryUnpacked s all d)
    (names : ChildInv s) (grows : Extends s t)
    (same : ∀ i, nodeAt s d.path = some i → d.kind = some .file → OccursOnce all d → contents t i = contents s i) :
    EntryUnpacked t all d := by
  obtain ⟨fields, i, found, kind, text⟩ := unpacked
  refine ⟨fields, i, grows.paths _ i found, ?_, ?_⟩
  · rw [grows.types i (names.nodeAt_used found)]
    exact kind
  · intro isFile once
    rw [same i found isFile once]
    exact text isFile once

/-- The state in which `tmpfs_create_path` leaves the tree, with the entry at node `i`. -/
structure Placed (s u : Tmpfs) (e : CpioEntry) (i : Nat) : Prop where
  tables : TmpfsInv u
  names : ChildInv u
  grows : Extends s u
  found : nodeAt u e.path = some i
  kind : e.kind = some (u.nodes i).type
  offset : u.dataOffset = s.dataOffset
  others : ∀ j, InUse s j → contents u j = contents s j
  origin : (u = s ∧ nodeAt s e.path = some i) ∨ (nodeAt s e.path = none ∧ ¬InUse s i ∧
    (e.kind = some .file → contents u i = some []))

section
variable {s : Tmpfs} {all earlier : List CpioEntry} {e : CpioEntry}

theorem EntryFits.placed (fits : EntryFits all earlier s e) (tables : TmpfsInv s) (names : ChildInv s) :
    ∃ r u i, tmpfsCreatePath s e.path e.mountType (e.mode.getD 0) = some (r, u) ∧ Placed s u e i ∧
      (e.kind ≠ some .dir → r = i) := by
  cases found : nodeAt s e.path with
  | some i =>
      have kind := fits.existing i found
      have rooted := nodeAt_rooted found
      have placed : Placed s s e i :=
        ⟨tables, names, .refl s, found, kind, rfl, fun _ _ => rfl, Or.inl ⟨rfl, found⟩⟩
      by_cases bare : e.path.length = 1
      · -- only the root has such a path, and its creation is refused
        refine ⟨-eINVAL, s, i, if_pos (Or.inr bare), placed, fun notDir => absurd ?_ notDir⟩
        have root : tmpfsLookupPath s e.path = some 0 := by
          rw [tmpfsLookupPath, resolvePath, if_neg (not_not.mpr rooted), if_pos bare]
        rw [nodeAt_eq_some.mp found] at root
        have zero : i = 0 := Int.ofNat_inj.mp (Option.some.inj root)
        rw [kind, zero, tables.tree.root_type]
      · exact ⟨i, s, i, tmpfsCreatePath_existing rooted bare (nodeAt_eq_some.mp found) (Int.natCast_nonneg i) _ _, placed,
          fun _ => rfl⟩
  | none =>
      obtain ⟨creatable, kinds⟩ := fits.missing found
      have kind := mountType_of_kind kinds
      have real : e.mountType ≠ .none := by
        unfold CpioEntry.mountType
        split_ifs <;> simp
      obtain ⟨id, u, returns, after, grows, fresh, lookup, type⟩ :=
        names.create_creatable creatable found real (e.mode.getD 0)
      obtain ⟨tablesU, effect⟩ := tables.create_cases real returns
      rcases effect with ⟨same, -⟩ | ⟨id', same, -, -, changed⟩
      · rw [same, found] at lookup
        cases lookup
      cases Int.ofNat_inj.mp same
      refine ⟨id, u, id, returns, ⟨tablesU, after, grows, lookup, ?_, tmpfsCreatePath_dataOffset returns, ?_, ?_⟩,
        fun _ => rfl⟩
      · rw [type, kind]
      · intro j used
        have other : j ≠ id := by
          rintro rfl
          exact fresh used
        rw [changed, update_of_ne other]
      · refine Or.inr ⟨found, fresh, fun isFile => ?_⟩
        rw [kind, Option.some.injEq] at isFile
        rw [changed, update_self, if_pos isFile]

end

structure MountInv (all : List CpioEntry) (s : Tmpfs × List CpioEntry) : Prop where
  tables : TmpfsInv s.1
  names : ChildInv s.1
  unpacked : ∀ d ∈ s.2, EntryUnpacked s.1 all d

namespace Placed
variable {s u : Tmpfs} {all earlier : List CpioEntry} {e : CpioEntry} {i : Nat} (placed : Placed s u e i)
include placed

theorem text (fits : FileFits all earlier s e) (isFile : e.kind = some .file) :
    ∃ text, contents u i = some text ∧ (OccursOnce all e → text.length ≤ e.data.length) := by
  rcases placed.origin with ⟨rfl, found⟩ | ⟨-, -, empty⟩
  · have type : (u.nodes i).type = .file := Option.some.inj (placed.kind.symm.trans isFile)
    have file : contents u i = some _ := if_pos type
    refine ⟨_, file, fun once => ?_⟩
    rw [contents_length file]
    exact fits.shorter once i found
  · exact ⟨[], empty isFile, fun _ => Nat.zero_le _⟩

theorem room (fits : FileFits all earlier s e) (filled : e.data ≠ []) :
    e.data.length ≤ writeLimit ∧ (e.data.length ≤ (u.nodes i).capacity ∨
      u.dataOffset + roundCapacity e.data.length ≤ arenaSize) := by
  rcases fits.room filled with ⟨j, found, enough⟩ | enough
  · rcases placed.origin with ⟨rfl, here⟩ | ⟨none, -, -⟩
    · cases Option.some.inj (here.symm.trans found)
      have region := placed.tables.storage.region_fits i
      refine ⟨?_, Or.inl enough⟩
      unfold arenaSize at region
      unfold writeLimit
      omega
    · rw [none] at found
      cases found
  · have rounded : roundCapacity e.data.length = (e.data.length + 255) / 256 * 256 := by
      unfold arenaSize at enough
      rw [roundCapacity_eq]
      unfold wordSize
      omega
    rw [placed.offset, rounded]
    refine ⟨?_, Or.inr enough⟩
    unfold arenaSize at enough
    unfold writeLimit
    omega

theorem bound : i < maxNodes := placed.names.tree.bounded i (placed.names.nodeAt_used placed.found)

theorem write (fits : FileFits all earlier s e) (isFile : e.kind = some .file) (filled : e.data ≠ []) :
    ∃ text, contents u i = some text ∧ (OccursOnce all e → text.length ≤ e.data.length) ∧ TmpfsInv (tmpfsWriteNode u i e.data 0).2 ∧
      contents (tmpfsWriteNode u i e.data 0).2 = update (contents u) i (some (overwrite 0 text 0 e.data)) := by
  obtain ⟨text, file, shorter⟩ := placed.text fits isFile
  obtain ⟨limit, room⟩ := placed.room fits filled
  refine ⟨text, file, shorter, ?_⟩
  have tree := placed.tables.tree.write i e.data 0
  rcases placed.tables.storage.write_cases placed.bound file (show 0 + e.data.length ≤ writeLimit by omega) with
    ⟨-, small, full⟩ | ⟨-, storage, changed⟩
  · rw [Nat.zero_add] at small full
    exact absurd room (not_or.mpr ⟨Nat.not_le.mpr small, Nat.not_le.mpr full⟩)
  · exact ⟨⟨tree, storage⟩, changed⟩

section
variable (inv : MountInv all (s, earlier))
include inv

theorem unwritten (fits : EntryFits all earlier s e) (idle : e.kind = some .file → e.data = []) :
    MountInv all (u, earlier ++ [e]) := by
  refine ⟨placed.tables, placed.names, ?_⟩
  simp only [List.forall_mem_append, List.forall_mem_singleton]
  constructor
  · intro d member
    refine (inv.unpacked d member).kept inv.names placed.grows fun j found _ _ => ?_
    exact placed.others j (inv.names.nodeAt_used found)
  · refine ⟨fits.fields, i, placed.found, placed.kind, fun isFile once => ?_⟩
    obtain ⟨text, file, shorter⟩ := placed.text (fits.file isFile) isFile
    have empty := shorter once
    rw [idle isFile, List.length_nil, Nat.le_zero, List.length_eq_zero_iff] at empty
    rw [file, empty, idle isFile]

theorem written (fits : EntryFits all earlier s e) (isFile : e.kind = some .file) (filled : e.data ≠ []) :
    MountInv all ((tmpfsWriteNode u i e.data 0).2, earlier ++ [e]) := by
  obtain ⟨text, file, shorter, tables, changed⟩ := placed.write (fits.file isFile) isFile filled
  obtain ⟨names, grows⟩ := placed.names.write_extends i e.data 0
  refine ⟨tables, names, ?_⟩
  simp only [List.forall_mem_append, List.forall_mem_singleton]
  constructor
  · intro d member
    have unpacked := inv.unpacked d member
    refine unpacked.kept inv.names (placed.grows.trans grows) fun j found plain once => ?_
    have used := inv.names.nodeAt_used found
    rw [changed, ← placed.others j used]
    by_cases other : j = i
    · -- the file of an earlier entry is overwritten with what is there
      subst other
      rcases placed.origin with ⟨rfl, here⟩ | ⟨-, fresh, -⟩
      · obtain ⟨j', found', -, whole⟩ := unpacked.node
        cases Option.some.inj (found.symm.trans found')
        cases Option.some.inj (file.symm.trans (whole plain once))
        rw [update_self, overwrite_prefix 0 ((fits.file isFile).agrees j here d member plain once found), file]
      · exact absurd used fresh
    · rw [update_of_ne other]
  · refine ⟨fits.fields, i, grows.paths _ i placed.found, ?_, fun _ once => ?_⟩
    · rw [grows.types i (placed.names.nodeAt_used placed.found)]
      exact placed.kind
    · rw [changed, update_self, overwrite_covers 0 (shorter once)]

end

end Placed

theorem MountInv.step {all : List CpioEntry} {s : Tmpfs × List CpioEntry} {e : CpioEntry} (inv : MountInv all s)
    (fits : EntryFits all s.2 s.1 e) : ∃ t, mountStep s e = some t ∧ MountInv all t := by
  obtain ⟨s, earlier⟩ := s
  obtain ⟨r, u, i, returns, placed, same⟩ := fits.placed inv.tables inv.names
  have steps : mountStep (s, earlier) e = some
      (if e.kind ≠ some .dir ∧ 0 ≤ r ∧ e.data ≠ [] then (tmpfsWriteNode u r e.data 0).2 else u, earlier ++ [e]) := by
    rw [mountStep, mountEntry_eq, returns]
    rfl
  refine ⟨_, steps, ?_⟩
  split_ifs with writes
  · obtain ⟨notDir, -, filled⟩ := writes
    rw [same notDir]
    by_cases isFile : e.kind = some .file
    · exact placed.written inv fits isFile filled
    · -- a device refuses the write
      obtain ⟨code, -, refused⟩ := @tmpfsWriteNode_other u i
        (fun j here _ type => isFile (by rw [placed.kind, Int.ofNat_inj.mp here, type])) e.data 0
      rw [refused]
      exact placed.unwritten inv fits fun file => absurd file isFile
  · refine placed.unwritten inv fits fun isFile => ?_
    by_contra filled
    have notDir : e.kind ≠ some .dir := by
      rw [isFile]
      simp
    exact writes ⟨notDir, by rw [same notDir]; exact Int.natCast_nonneg i, filled⟩

/-! ## The run -/

theorem run_mountStep (s : Tmpfs) (earlier entries : List CpioEntry) :
    run mountStep (s, earlier) entries = (run mountEntry s entries).map fun t => (t, earlier ++ entries) := by
  induction entries generalizing s earlier with
  | nil => simp
  | cons e entries ih =>
      rw [run_cons, run_cons, mountStep]
      cases mountEntry s e with
      | none => rfl
      | some t =>
          rw [Option.map_some, Option.bind_some, Option.bind_some, ih, List.append_assoc]
          rfl

/-- After the boot, a mount all of whose entries fit either fails with an error or has unpacked every one of them. -/
theorem mount_reported_of_fits {console : Console} {s : Fs} (boots : fsBoot console = some s) {archive : List UInt8}
    (fits : MountFits s archive) : MountReported s archive := by
  obtain ⟨entries, code, walk, along⟩ := fits
  have names := ChildInv.of_reachable (fsBoot_reachable boots)
  have start : MountInv entries (s.tmpfs, []) := ⟨(Booted.of_fsBoot boots).tables, names, List.forall_mem_nil _⟩
  obtain ⟨⟨t, done⟩, mounted, inv⟩ := along.run_isSome (fun _ _ inv fits => inv.step fits) start
  rw [run_mountStep, List.nil_append, Option.map_eq_some_iff] at mounted
  obtain ⟨t, mounted, same⟩ := mounted
  cases same
  refine ⟨code, { s with tmpfs := t }, entries, ?_, walk, ?_⟩
  · rw [fsMountInitramfs, mountLoop_entries walk, mounted]
    rfl
  · exact (entriesLoop_code walk).symm.imp_right fun zero => ⟨zero, inv.unpacked⟩

instance (all earlier : List CpioEntry) (s : Tmpfs) (e : CpioEntry) : Decidable (FileFits all earlier s e) :=
  decidable_of_iff (_ ∧ _ ∧ _) ⟨fun h => ⟨h.1, h.2.1, h.2.2⟩, fun h => ⟨h.room, h.shorter, h.agrees⟩⟩

instance (all earlier : List CpioEntry) (s : Tmpfs) (e : CpioEntry) : Decidable (EntryFits all earlier s e) :=
  decidable_of_iff (_ ∧ _ ∧ _ ∧ _) ⟨fun h => ⟨h.1, h.2.1, h.2.2.1, h.2.2.2⟩,
    fun h => ⟨h.fields, h.existing, h.missing, h.file⟩⟩

def trailer : List UInt8 := writeEntry "TRAILER!!!".toList 0 []

def notesArchive : List UInt8 :=
  writeEntry "home".toList dirMode [] ++ writeEntry "home/notes".toList regMode (ascii "hello") ++ trailer

theorem mount_reported_of_fits_sample : ∃ s, fsBoot {} = some s ∧ MountReported s notesArchive := by
  obtain ⟨s, t, boots, -, -, -, tasks⟩ := fsBoot_spec {}
  have walk : (cpioEntries (ascii "/") notesArchive).map Prod.snd = some 0 := by decide +kernel
  obtain ⟨⟨entries, code⟩, walk, rfl⟩ := Option.map_eq_some_iff.mp walk
  have along : ((fsBoot {}).bind fun s => (cpioEntries (ascii "/") notesArchive).map fun found =>
      decide (Along mountStep (fun at_ e => EntryFits found.1 at_.2 at_.1 e) (s.tmpfs, []) found.1)) = some true := by
    decide +kernel
  rw [boots, Option.bind_some, walk, Option.map_some, Option.some.injEq, decide_eq_true_eq] at along
  refine ⟨s, boots, mount_reported_of_fits boots ⟨entries, 0, ?_, along⟩⟩
  rw [tasks]
  exact walk

/-- A file whose directory is not in the archive: its creation fails, and 0 is returned. -/
def orphanArchive : List UInt8 := writeEntry "a/b".toList regMode (ascii "x") ++ trailer

theorem orphan_lost_in_silence : ∃ s, fsBoot {} = some s ∧ ¬MountReported s orphanArchive := by
  obtain ⟨s, t, boots, -, -, -, tasks⟩ := fsBoot_spec {}
  refine ⟨s, boots, ?_⟩
  rintro ⟨code, after, entries, mounts, walk, result⟩
  have lost : ((fsBoot {}).bind fun s => (fsMountInitramfs s orphanArchive).map fun r =>
      (r.1, nodeAt r.2.tmpfs (ascii "/a/b"))) = some (0, none) := by decide +kernel
  have only : ((cpioEntries (ascii "/") orphanArchive).map fun found => found.1.map CpioEntry.path) =
      some [ascii "/a/b"] := by decide +kernel
  rw [boots, Option.bind_some, mounts, Option.map_some, Option.some.injEq, Prod.mk.injEq] at lost
  obtain ⟨rfl, lost⟩ := lost
  rw [tasks] at walk
  change cpioEntries (ascii "/") orphanArchive = some (entries, 0) at walk
  rw [walk, Option.map_some, Option.some.injEq] at only
  obtain ⟨e, rfl, path⟩ := List.map_eq_singleton_iff.mp only
  obtain ⟨i, found, -, -⟩ := ((result.resolve_left (by decide)).2 e (List.mem_singleton_self e)).node
  rw [path, lost] at found
  cases found

end Mgcore
