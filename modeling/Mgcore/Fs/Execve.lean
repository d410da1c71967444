import Mgcore.Console.Printf
import Mgcore.Fs.Probe

/-!
# Repeated calls of execve

`sys_execve` of `src/syscall/syscall_impl.c` is a probe and, for an executable, a line on the console. Two runs are
compared: one that makes the call at once, and one that makes any others before it. The tables are the same in both;
the heap is not, since `elf_probe_path` never gives its buffer back.
-/

namespace Mgcore
open Function Lib

/-! ## The call -/

def sysExecve (stack : Nat → UInt8) (k : Kernel) (path : List UInt8) : Option (Int × Kernel) := do
  let ((status, image), k) ← elfProbePath k path
  if status < 0 then return (status, k)
  let entry := UInt64.ofNat (image.elim 0 ElfImage.entry)
  let console ← consolePrintf stack k.fs.console (ascii "execve: %s entry=%p\n") [.text (some path), .word entry]
  return (0, { k with fs := { k.fs with console } })

/-- The answer of the probe, which is never positive. -/
theorem sysExecve_returns (stack : Nat → UInt8) {k after : Kernel} {path : List UInt8} {result : Int × Option ElfImage}
    (probes : elfProbePath k path = some (result, after)) (status : result.1 ≤ 0) :
    ∃ console, sysExecve stack k path = some (result.1, { after with fs := { after.fs with console } }) := by
  obtain ⟨⟨value, image⟩, returned⟩ : ∃ pair, pair = result := ⟨result, rfl⟩
  cases returned
  rw [sysExecve, probes, Option.bind_eq_bind, Option.bind_some]
  dsimp only at status ⊢
  by_cases negative : value < 0
  · rw [if_pos negative]
    exact ⟨after.fs.console, rfl⟩
  · have zero : value = 0 := Int.le_antisymm status (Int.not_lt.mp negative)
    obtain ⟨text, renders⟩ : ∃ text, rendering (ascii "execve: %s entry=%p\n")
        [.text (some path), .word (UInt64.ofNat (image.elim 0 ElfImage.entry))] = some text := ⟨_, rfl⟩
    obtain ⟨console, prints⟩ := consolePrintf_returns stack after.fs.console renders
    rw [if_neg negative, prints, zero]
    exact ⟨console, rfl⟩

/-! ## The answer -/

theorem elfParseImage_base (base : Nat) (text : List UInt8) : (elfParseImage base text).1 = (elfParseImage 0 text).1 := by
  unfold elfParseImage
  split_ifs <;> rfl

theorem elfParseImage_values (base : Nat) (text : List UInt8) :
    (elfParseImage base text).1 ∈ [-eINVAL, -eNOEXEC, 0] := by
  unfold elfParseImage
  split_ifs <;> simp

/-- What a request does to the heap. -/
inductive HeapAnswer
  | granted
  | refused
  | endless
  deriving DecidableEq

/-- The heap as `kalloc` sees it when it decides. -/
def heapAnswer (offset n : Nat) : HeapAnswer :=
  match kalloc { offset } n with
  | none => .endless
  | some (none, _) => .refused
  | some (some _, _) => .granted

def heapAfter (offset n : Nat) : Nat := (kalloc { offset } n).elim offset fun result => result.2.offset

theorem kalloc_offset (h : Heap) (n : Nat) :
    heapAnswer h.offset n = (match kalloc h n with
      | none => .endless
      | some (none, _) => .refused
      | some (some _, _) => .granted) ∧
    heapAfter h.offset n = (kalloc h n).elim h.offset fun result => result.2.offset := by
  have decided : kallocOffset { offset := h.offset } n = kallocOffset h n := rfl
  unfold heapAnswer heapAfter kalloc
  rw [decided]
  cases kallocOffset h n with
  | none => exact ⟨rfl, rfl⟩
  | some offset =>
      dsimp only
      split_ifs <;> exact ⟨rfl, rfl⟩

/-- The answer for a path that denotes `nodeId`; `none` is a call that does not come back. -/
def execveValue (s : Fs) (offset : Nat) (nodeId : Int) : Option Int :=
  if openValue s nodeId < 0 then some (openValue s nodeId)
  else
    match heapAnswer offset (s.tmpfs.node nodeId).size with
    | .granted => some (elfParseImage 0 ((contents s.tmpfs nodeId.toNat).getD [])).1
    | .refused => some (-eNOMEM)
    | .endless => none

/-- What the call asks the heap for, if the path can be opened. -/
def asked (s : Fs) (path : List UInt8) : Option Nat :=
  (tmpfsLookupPath s.tmpfs (s.resolve path)).bind fun nodeId =>
    if openValue s nodeId < 0 then none else some (s.tmpfs.node nodeId).size

section
variable {k : Kernel} {path : List UInt8} {result : Int × Option ElfImage} {heap : Heap} {nodeId : Int}

theorem Opens.value {s : Fs} {i : Nat} (opens : Opens s path i) : ¬openValue s i < 0 :=
  Int.not_lt.mpr (openValue_nonneg opens.file opens.fd i)

theorem Probed.value (found : tmpfsLookupPath k.fs.tmpfs (k.fs.resolve path) = some nodeId)
    (probed : Probed k path result heap) : execveValue k.fs k.heap.offset nodeId = some result.1 := by
  cases probed with
  | refused found' fails =>
      cases found.symm.trans found'
      rw [execveValue, if_pos fails]
  | @noMemory i opens full =>
      cases found.symm.trans opens.found
      rw [execveValue, if_neg opens.value, (kalloc_offset k.heap _).1, Tmpfs.node_natCast, full]
  | @parsed i base heap after text opens granted offset file =>
      cases found.symm.trans opens.found
      rw [execveValue, if_neg opens.value, (kalloc_offset k.heap _).1, Tmpfs.node_natCast, granted, Int.toNat_natCast, file]
      exact congrArg some (elfParseImage_base base text).symm

theorem Opens.asked {s : Fs} {i : Nat} (opens : Opens s path i) : asked s path = some (s.tmpfs.nodes i).size := by
  rw [Mgcore.asked, opens.found, Option.bind_some, if_neg opens.value, Tmpfs.node_natCast]

theorem Probed.offset (probed : Probed k path result heap) :
    heap.offset = (asked k.fs path).elim k.heap.offset (heapAfter k.heap.offset) := by
  cases probed with
  | refused found fails =>
      rw [asked, found, Option.bind_some, if_pos fails]
      rfl
  | noMemory opens full => rw [opens.asked, Option.elim_some, (kalloc_offset k.heap _).2, full, Option.elim_some]
  | parsed opens granted offset file =>
      rw [opens.asked, Option.elim_some, (kalloc_offset k.heap _).2, granted, Option.elim_some, offset]

theorem ProbeInv.endless_iff (inv : ProbeInv k) {n : Nat} (word : n < wordSize) :
    heapAnswer k.heap.offset n = .endless ↔ TestWraps k.heap.offset n := by
  rw [(kalloc_offset k.heap n).1]
  cases kalloc_cases inv.bounded inv.aligned word with
  | refused answer offset reason =>
      rw [answer]
      refine iff_of_false nofun fun wraps => ?_
      unfold TestWraps at wraps
      omega
  | endless answer wraps back =>
      rw [answer]
      exact iff_of_true rfl wraps
  | granted heap answer offset positive fits =>
      rw [answer]
      refine iff_of_false nofun fun wraps => ?_
      have bounded := inv.bounded
      have size : kernelHeapSize = 2 ^ 20 := rfl
      unfold TestWraps wordSize at wraps
      omega

theorem elfParseImage_nonpos (base : Nat) (text : List UInt8) : (elfParseImage base text).1 ≤ 0 := by
  have values : ∀ value ∈ [-eINVAL, -eNOEXEC, 0], value ≤ 0 := by decide
  exact values _ (elfParseImage_values base text)

theorem Probed.nonpos (probed : Probed k path result heap) : result.1 ≤ 0 := by
  cases probed with
  | refused found fails => exact Int.le_of_lt fails
  | noMemory opens full => decide
  | parsed opens granted offset file => exact elfParseImage_nonpos _ _

/-- Only a refusal of the heap is answered with `ENOMEM`, and only a file that the heap does not come back from is not
answered. -/
theorem execveValue_eq_iff {s : Fs} {first second : Nat} :
    execveValue s second nodeId = execveValue s first nodeId ↔
      (0 ≤ openValue s nodeId → heapAnswer second (s.tmpfs.node nodeId).size = heapAnswer first (s.tmpfs.node nodeId).size) := by
  by_cases fails : openValue s nodeId < 0
  · refine iff_of_true ?_ fun nonneg => absurd fails (Int.not_lt.mpr nonneg)
    rw [execveValue, execveValue, if_pos fails, if_pos fails]
  have parsed (text : List UInt8) : (elfParseImage 0 text).1 ≠ -eNOMEM := by
    have values : ∀ value ∈ [-eINVAL, -eNOEXEC, 0], value ≠ -eNOMEM := by decide
    exact values _ (elfParseImage_values 0 text)
  rw [execveValue, execveValue, if_neg fails, if_neg fails]
  constructor
  · intro same _
    cases later : heapAnswer second (s.tmpfs.node nodeId).size <;> cases before : heapAnswer first (s.tmpfs.node nodeId).size
    all_goals rw [later, before] at same
    case granted.refused => exact absurd (Option.some.inj same) (parsed _)
    case refused.granted => exact absurd (Option.some.inj same).symm (parsed _)
    all_goals cases same
  · intro alike
    rw [alike (Int.not_lt.mp fails)]

end

/-! ## The same tables -/

namespace SameFs
variable {s t : Fs}

theorem openValue (same : SameFs s t) (nodeId : Int) : openValue t nodeId = openValue s nodeId := by
  have free : freeFile t = freeFile s := by simp only [freeFile, same.used]
  rw [Mgcore.openValue, Mgcore.openValue, free, same.tasks]

theorem resolve (same : SameFs s t) (path : List UInt8) : t.resolve path = s.resolve path := by
  rw [Fs.resolve, Fs.resolve, same.tasks]

theorem execveValue (same : SameFs s t) (offset : Nat) (nodeId : Int) :
    execveValue t offset nodeId = execveValue s offset nodeId := by
  simp only [Mgcore.execveValue, same.openValue, same.tmpfs]

theorem asked (same : SameFs s t) (path : List UInt8) : asked t path = asked s path := by
  simp only [Mgcore.asked, same.openValue, same.tmpfs, same.resolve]

end SameFs

/-! ## Runs -/

/-- Where the calls leave the heap. -/
def heapAfterAll (s : Fs) (offset : Nat) (paths : List (List UInt8)) : Nat :=
  paths.foldl (fun offset path => (asked s path).elim offset (heapAfter offset)) offset

/-- The call does not come back exactly if the file makes the test of the heap wrap. -/
theorem ProbeInv.execve (stack : Nat → UInt8) {k : Kernel} (inv : ProbeInv k) (path : List UInt8) :
    (∃ nodeId, tmpfsLookupPath k.fs.tmpfs (k.fs.resolve path) = some nodeId ∧
      (sysExecve stack k path).map Prod.fst = execveValue k.fs k.heap.offset nodeId) ∧
    (sysExecve stack k path = none ↔ ∃ n, asked k.fs path = some n ∧ TestWraps k.heap.offset n) ∧
    ∀ r after, sysExecve stack k path = some (r, after) → SameFs k.fs after.fs ∧ ProbeInv after ∧
      after.heap.offset = (asked k.fs path).elim k.heap.offset (heapAfter k.heap.offset) := by
  obtain ⟨nodeId, found, -⟩ := inv.tree.resolvePath_resolved (k.fs.resolve path)
  rcases inv.probe path with ⟨stuck, i, opens, wraps⟩ | ⟨result, after, probes, same, probed⟩
  · have none : sysExecve stack k path = none := by rw [sysExecve, stuck, Option.bind_eq_bind, Option.bind_none]
    cases found.symm.trans opens.found
    refine ⟨⟨i, found, ?_⟩, iff_of_true none ⟨_, opens.asked, wraps⟩, fun r after returns => ?_⟩
    · have endless := (inv.endless_iff (inv.sizes.word i)).mpr wraps
      rw [none, execveValue, if_neg opens.value, Tmpfs.node_natCast, endless]
      rfl
    · cases none.symm.trans returns
  · obtain ⟨console, returns⟩ := sysExecve_returns stack probes probed.nonpos
    obtain ⟨bounded, aligned⟩ := inv.heap_kept probed
    refine ⟨⟨nodeId, found, ?_⟩, iff_of_false (by rw [returns]; exact nofun) ?_, fun r last answer => ?_⟩
    · rw [returns, Option.map_some, probed.value found]
    · rintro ⟨n, size, wraps⟩
      have value := probed.value found
      rw [asked, tmpfsLookupPath, found, Option.bind_some] at size
      split_ifs at size with fails
      cases size
      have endless : heapAnswer k.heap.offset (k.fs.tmpfs.node nodeId).size = .endless :=
        (inv.endless_iff (inv.sizes.word nodeId.toNat)).mpr wraps
      rw [execveValue, if_neg fails, endless] at value
      cases value
    · cases returns.symm.trans answer
      exact ⟨⟨same.tmpfs, same.tasks, same.used⟩, ⟨same.tmpfs ▸ inv.tree, same.tmpfs ▸ inv.sizes, bounded, aligned⟩, probed.offset⟩

def execveStep (stack : Nat → UInt8) (k : Kernel) (path : List UInt8) : Option Kernel :=
  (sysExecve stack k path).map Prod.snd

/-- None of the calls asks the heap for a size that makes its test wrap. -/
def NoneWraps (k : Kernel) (paths : List (List UInt8)) : Prop :=
  ∀ before path n, before ++ [path] <+: paths → asked k.fs path = some n → ¬TestWraps (heapAfterAll k.fs k.heap.offset before) n

section
variable {k : Kernel}

theorem ProbeInv.execves (stack : Nat → UInt8) (inv : ProbeInv k) {paths : List (List UInt8)} {after : Kernel}
    (runs : run (execveStep stack) k paths = some after) :
    SameFs k.fs after.fs ∧ ProbeInv after ∧ after.heap.offset = heapAfterAll k.fs k.heap.offset paths := by
  induction paths generalizing k with
  | nil =>
      cases runs
      exact ⟨⟨rfl, rfl, fun _ => rfl⟩, inv, rfl⟩
  | cons path paths ih =>
      rw [run_cons, Option.bind_eq_some_iff] at runs
      obtain ⟨next, steps, runs⟩ := runs
      obtain ⟨⟨r, _⟩, returns, rfl⟩ := Option.map_eq_some_iff.mp steps
      obtain ⟨same, invNext, offset⟩ := (inv.execve stack path).2.2 r _ returns
      obtain ⟨sameAfter, invAfter, offsetAfter⟩ := ih invNext runs
      refine ⟨same.trans sameAfter, invAfter, ?_⟩
      rw [offsetAfter, offset, heapAfterAll, heapAfterAll, List.foldl_cons]
      simp only [same.asked]

theorem noneWraps_cons {path : List UInt8} {paths : List (List UInt8)} {next : Kernel} (same : SameFs k.fs next.fs)
    (offset : next.heap.offset = (asked k.fs path).elim k.heap.offset (heapAfter k.heap.offset)) :
    NoneWraps k (path :: paths) ↔
      (∀ n, asked k.fs path = some n → ¬TestWraps k.heap.offset n) ∧ NoneWraps next paths := by
  have later (before : List (List UInt8)) :
      heapAfterAll k.fs k.heap.offset (path :: before) = heapAfterAll next.fs next.heap.offset before := by
    rw [heapAfterAll, heapAfterAll, List.foldl_cons, offset]
    simp only [same.asked]
  constructor
  · intro none
    refine ⟨fun n size => none [] path n ⟨paths, rfl⟩ size, fun before other n shorter size => ?_⟩
    rw [← later]
    exact none (path :: before) other n (List.cons_prefix_cons.mpr ⟨rfl, shorter⟩) (by rw [← same.asked]; exact size)
  · rintro ⟨first, rest⟩ before other n shorter size
    cases before with
    | nil =>
        cases (List.cons_prefix_cons.mp shorter).1
        exact first n size
    | cons p before =>
        obtain ⟨rfl, tail⟩ := List.cons_prefix_cons.mp shorter
        rw [later]
        exact rest before other n tail (by rw [same.asked]; exact size)

theorem ProbeInv.execves_return (stack : Nat → UInt8) (inv : ProbeInv k) (paths : List (List UInt8)) :
    (run (execveStep stack) k paths).isSome ↔ NoneWraps k paths := by
  induction paths generalizing k with
  | nil =>
      refine iff_of_true rfl fun before path n shorter => ?_
      exact absurd (List.prefix_nil.mp shorter) (List.append_ne_nil_of_right_ne_nil before (List.cons_ne_nil path []))
  | cons path paths ih =>
      obtain ⟨-, stuck, keeps⟩ := inv.execve stack path
      rw [run_cons, execveStep]
      cases returns : sysExecve stack k path with
      | none =>
          obtain ⟨n, size, wraps⟩ := stuck.mp returns
          exact iff_of_false nofun fun none => none [] path n ⟨paths, rfl⟩ size wraps
      | some result =>
          obtain ⟨same, invNext, offset⟩ := keeps result.1 result.2 returns
          rw [noneWraps_cons same offset, ← ih invNext]
          refine ⟨fun rest => ⟨fun n size wraps => ?_, rest⟩, fun both => both.2⟩
          cases (stuck.mpr ⟨n, size, wraps⟩).symm.trans returns

/-- The heap does with the size of the file what it would have done before the calls. -/
def HeapAnswersAlike (k : Kernel) (path : List UInt8) (earlier : List (List UInt8)) : Prop :=
  ∀ n, asked k.fs path = some n → heapAnswer (heapAfterAll k.fs k.heap.offset earlier) n = heapAnswer k.heap.offset n

theorem ProbeInv.repeats (stack : Nat → UInt8) (inv : ProbeInv k) (path : List UInt8) {earlier : List (List UInt8)}
    {after : Kernel} (runs : run (execveStep stack) k earlier = some after) :
    (sysExecve stack after path).map Prod.fst = (sysExecve stack k path).map Prod.fst ↔ HeapAnswersAlike k path earlier := by
  obtain ⟨same, invAfter, offset⟩ := inv.execves stack runs
  obtain ⟨nodeId, found, atOnce⟩ := (inv.execve stack path).1
  obtain ⟨nodeId', found', later⟩ := (invAfter.execve stack path).1
  rw [same.tmpfs, same.resolve] at found'
  cases found.symm.trans found'
  rw [atOnce, later, same.execveValue, offset, execveValue_eq_iff, HeapAnswersAlike, asked, found, Option.bind_some]
  by_cases fails : Mgcore.openValue k.fs nodeId < 0
  · rw [if_pos fails]
    exact iff_of_true (fun nonneg => absurd fails (Int.not_lt.mpr nonneg)) nofun
  · rw [if_neg fails]
    constructor
    · rintro alike _ ⟨⟩
      exact alike (Int.not_lt.mp fails)
    · exact fun alike _ => alike _ rfl

end

/-- Calls of `execve` come back as long as none makes the test of the heap wrap, and a call behind them does what it would
have done without them exactly when the heap does. -/
theorem execve_repeatable_iff (stack : Nat → UInt8) (k : Kernel) (reachable : Reachable k) (path : List UInt8)
    (earlier : List (List UInt8)) :
    ((run (execveStep stack) k earlier).isSome ↔ NoneWraps k earlier) ∧
      ∀ after, run (execveStep stack) k earlier = some after →
        ((sysExecve stack after path).map Prod.fst = (sysExecve stack k path).map Prod.fst ↔ HeapAnswersAlike k path earlier) := by
  have inv := ProbeInv.of_reachable reachable
  exact ⟨inv.execves_return stack earlier, fun after runs => inv.repeats stack path runs⟩

theorem heapAnswersAlike_iff {k : Kernel} {path : List UInt8} {n : Nat} (size : asked k.fs path = some n)
    (empty : k.heap.offset = 0) :
    HeapAnswersAlike k path [path] ↔ heapAnswer (heapAfter 0 n) n = heapAnswer 0 n := by
  have after : heapAfterAll k.fs k.heap.offset [path] = heapAfter 0 n := by
    rw [heapAfterAll, List.foldl_cons, List.foldl_nil, size, empty, Option.elim_some]
  rw [HeapAnswersAlike, after, empty]
  constructor
  · exact fun alike => alike n size
  · intro alike m same
    cases size.symm.trans same
    exact alike

theorem noneWraps_single {k : Kernel} {path : List UInt8} {n : Nat} (size : asked k.fs path = some n) (empty : k.heap.offset = 0)
    (small : n ≤ wordSize - 16) : NoneWraps k [path] := by
  intro before other m shorter same
  cases before with
  | nil =>
      cases (List.cons_prefix_cons.mp shorter).1
      cases size.symm.trans same
      rw [heapAfterAll, List.foldl_nil, empty]
      unfold TestWraps
      omega
  | cons p before => exact absurd (List.prefix_nil.mp (List.cons_prefix_cons.mp shorter).2) (by simp)

theorem small_file_execve_twice :
    ∃ k after, Reachable k ∧ run (execveStep fun _ => 0xCC) k [ascii "/a"] = some after ∧
      (sysExecve (fun _ => 0xCC) k (ascii "/a")).map Prod.fst = some 0 ∧
      (sysExecve (fun _ => 0xCC) after (ascii "/a")).map Prod.fst = some 0 := by
  obtain ⟨k, runs, size, empty, value⟩ := exists_of_check
    (P := fun k : Kernel => asked k.fs (ascii "/a") = some 64 ∧ k.heap.offset = 0 ∧
      (sysExecve (fun _ => 0xCC) k (ascii "/a")).map Prod.fst = some 0)
    (show (bootRun sampleWritten).map _ = some true by decide +kernel)
  have reachable := Reachable.of_bootRun runs
  obtain ⟨returns, alike⟩ := execve_repeatable_iff (fun _ => 0xCC) k reachable (ascii "/a") [ascii "/a"]
  obtain ⟨after, earlier⟩ := Option.isSome_iff_exists.mp (returns.mpr (noneWraps_single size empty (by decide)))
  have same := (alike after earlier).mpr ((heapAnswersAlike_iff size empty).mpr (by decide +kernel))
  exact ⟨k, after, reachable, earlier, value, same.trans value⟩

-- A file of 600001 bytes, more than half of the heap.
def largeFile : List KernelOp :=
  [.call (.openPath (ascii "/a") oCREAT 0o644), .call (.lseek 3 600000 seekSET), .call (.write 3 [0]), .call (.close 3)]

/-- The second call finds no room for the file. -/
theorem large_file_execve_twice :
    ∃ k after, Reachable k ∧ run (execveStep fun _ => 0xCC) k [ascii "/a"] = some after ∧
      (sysExecve (fun _ => 0xCC) after (ascii "/a")).map Prod.fst ≠ (sysExecve (fun _ => 0xCC) k (ascii "/a")).map Prod.fst := by
  obtain ⟨k, runs, size, empty⟩ := exists_of_check
    (P := fun k : Kernel => asked k.fs (ascii "/a") = some 600001 ∧ k.heap.offset = 0)
    (show (bootRun largeFile).map _ = some true by decide +kernel)
  have inv := ProbeInv.of_reachable (Reachable.of_bootRun runs)
  obtain ⟨after, earlier⟩ := Option.isSome_iff_exists.mp
    ((inv.execves_return (fun _ => 0xCC) _).mpr (noneWraps_single size empty (by decide)))
  refine ⟨k, after, Reachable.of_bootRun runs, earlier, fun same => ?_⟩
  have both := (heapAnswersAlike_iff size empty).mp ((inv.repeats _ _ earlier).mp same)
  exact absurd both (by decide +kernel)

end Mgcore
