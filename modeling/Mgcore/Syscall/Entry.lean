import Mgcore.Fs.Seeking
import Mgcore.Interrupt.Stubs

/-!
# From the C library to the dispatcher

`lib/libc/syscall.c` places the arguments of a system call in registers, the instruction `syscall` goes where
`src/kernel/syscall_arch.c` has told the processor to go and takes `rcx` and `r11` for itself, and
`src/kernel/syscall_entry.asm` moves everything to where a C function of seven arguments expects it. The last instruction
there is `sysret` without an operand size of 64 bits.
-/

namespace Mgcore

/-! ## The processor -/

/-- The registers that `wrmsr` writes. -/
structure Msrs where
  star : Word
  lstar : Word
  fmask : Word
  efer : Word

def Msrs.sce (m : Msrs) : Bool := m.efer.getLsbD 0
def Msrs.lme (m : Msrs) : Bool := m.efer.getLsbD 8
def Msrs.lma (m : Msrs) : Bool := m.efer.getLsbD 10

def SignExtended (address : Word) : Prop := address.toNat < 2 ^ 47 ∨ 2 ^ 64 - 2 ^ 47 ≤ address.toNat

instance (address : Word) : Decidable (SignExtended address) := inferInstanceAs (Decidable (_ ∨ _))

/-- `none` is a general protection fault. `strict` processors refuse a change of LME under paging, as the manuals say, and
LMA cannot be written. -/
def wrmsr (strict : Bool) (m : Msrs) (msr : Nat) (value : Word) : Option Msrs :=
  if msr = 0xC0000080 then
    if strict && value.getLsbD 8 != m.lme then none
    else some { m with efer := (value &&& ~~~(0x400 : Word)) ||| (m.efer &&& 0x400) }
  else if msr = 0xC0000081 then some { m with star := value }
  else if msr = 0xC0000082 then if SignExtended value then some { m with lstar := value } else none
  else if msr = 0xC0000084 then some { m with fmask := value }
  else none

/-- `code64` is a code segment of 64 bits, the low bits of `cs` are the privilege. -/
structure Processor where
  cpu : Cpu
  msrs : Msrs
  code64 : Bool

/-- The instruction, with `next` behind it; `none` is an invalid opcode. -/
def syscallInstr (p : Processor) (next : Word) : Option Processor :=
  if p.code64 && p.msrs.lma && p.msrs.sce then
    some { p with cpu :=
      { (p.cpu.setReg .rcx next).setReg .r11 p.cpu.rflags with
        rip := p.msrs.lstar
        cs := (p.msrs.star >>> 32) &&& 0xFFFC
        ss := ((p.msrs.star >>> 32) &&& 0xFFFF) + 8
        rflags := p.cpu.rflags &&& ~~~p.msrs.fmask } }
  else none

/-- `sysret` with an operand size of 32 bits. -/
def sysret (p : Processor) : Option Processor :=
  if p.code64 && p.msrs.lma && p.msrs.sce && (p.cpu.cs &&& 3 == 0) then
    some { p with
      code64 := false
      cpu :=
        { p.cpu with
          rip := p.cpu.regs .rcx &&& 0xFFFFFFFF
          cs := (p.msrs.star >>> 48) ||| 3
          ss := ((p.msrs.star >>> 48) + 8) ||| 3
          rflags := (p.cpu.regs .r11 &&& 0x3C7FD7) ||| 2 } }
  else none

/-! ## The kernel side -/

def syscallArchInit (strict : Bool) (entry : Word) (m : Msrs) : Option Msrs := do
  let star : Word := (0x18 <<< 48) ||| (0x08 <<< 32)
  let m ← wrmsr strict m 0xC0000081 star
  let m ← wrmsr strict m 0xC0000082 entry
  let m ← wrmsr strict m 0xC0000084 0x200
  wrmsr strict m 0xC0000080 0x1

/-- What the calls rely on when `syscall_arch_init` has come back. -/
structure Programmed (entry : Word) (m : Msrs) : Prop where
  star : m.star = (0x18 <<< 48) ||| (0x08 <<< 32)
  lstar : m.lstar = entry
  fmask : m.fmask = interruptFlag
  sce : m.sce = true
  lma : m.lma = true

theorem syscallArchInit_eq (strict : Bool) {entry : Word} (low : SignExtended entry) (m : Msrs) :
    syscallArchInit strict entry m =
      wrmsr strict { m with star := (0x18 <<< 48) ||| (0x08 <<< 32), lstar := entry, fmask := interruptFlag } 0xC0000080 0x1 := by
  simp only [syscallArchInit, wrmsr, Option.bind_eq_bind, if_pos low]
  rfl

/-- The last register write clears LME, which the boot code has set. -/
theorem syscallArchInit_eq_none_iff (strict : Bool) {entry : Word} (low : SignExtended entry) (m : Msrs) :
    syscallArchInit strict entry m = none ↔ strict = true ∧ m.lme = true := by
  rw [syscallArchInit_eq strict low, wrmsr, if_pos rfl]
  show (if (strict && (false != m.lme)) = true then none else _) = none ↔ _
  cases strict <;> cases m.lme <;> simp

theorem syscallArchInit_programmed {strict : Bool} {entry : Word} (low : SignExtended entry) {m after : Msrs}
    (lma : m.lma = true) (done : syscallArchInit strict entry m = some after) : Programmed entry after := by
  rw [syscallArchInit_eq strict low, wrmsr, if_pos rfl, Option.ite_none_left_eq_some, Option.some.injEq] at done
  obtain ⟨-, rfl⟩ := done
  refine ⟨rfl, rfl, rfl, ?_, ?_⟩
  · simp [Msrs.sce]
  · have bit : m.efer.getLsbD 10 = true := lma
    simp [Msrs.lma, bit]

def syscallEntryEnter : List Instr :=
  [.push .rcx, .push .r11, .subRsp 8, .storeTop .r9, .mov .r9 .r8, .mov .r8 .r10, .mov .rcx .rdx, .mov .rdx .rsi,
    .mov .rsi .rdi, .mov .rdi .rax]

/-- Between the call and `sysret`. -/
def syscallEntryLeave : List Instr := [.addRsp 8, .pop .r11, .pop .rcx]

/-- The arguments of a C function: six registers, and the seventh on the stack. -/
def cArguments (s : Cpu) : List Word :=
  [s.regs .rdi, s.regs .rsi, s.regs .rdx, s.regs .rcx, s.regs .r8, s.regs .r9, s.mem s.rsp]

def atSyscallDispatch (s : Cpu) : Cpu := execAll id s syscallEntryEnter

def syscallEntry (dispatch : Cpu → Cpu) (s : Cpu) : Cpu := execAll id (dispatch (atSyscallDispatch s)) syscallEntryLeave

theorem atSyscallDispatch_arguments (s : Cpu) :
    cArguments (atSyscallDispatch s) =
      [s.regs .rax, s.regs .rdi, s.regs .rsi, s.regs .rdx, s.regs .r10, s.regs .r8, s.regs .r9] := by
  simp [cArguments, atSyscallDispatch, syscallEntryEnter, execAll, exec, Cpu.pushWord, Cpu.setReg]

theorem atSyscallDispatch_rsp (s : Cpu) : (atSyscallDispatch s).rsp = s.rsp - 24 := by
  show s.rsp - 8 - 8 - 8 = s.rsp - 24
  bv_omega

theorem atSyscallDispatch_holds (s : Cpu) :
    Lib.Stacked (atSyscallDispatch s).mem (atSyscallDispatch s).rsp [s.regs .r9, s.regs .r11, s.regs .rcx] := by
  have empty : Lib.Stacked s.mem s.rsp [] := Lib.Stacked.nil
  exact ((empty.push (by simp) (s.regs .rcx)).push (by simp) (s.regs .r11)).push (by simp) (s.regs .r9)

theorem atSyscallDispatch_regs (s : Cpu) {r : Reg} (saved : r ∈ calleeSaved) : (atSyscallDispatch s).regs r = s.regs r := by
  cases r <;> first | rfl | simp [calleeSaved] at saved

/-- What the caller of a system call may rely on. -/
structure Resumed (s t : Cpu) (result : Word) : Prop where
  result : t.regs .rax = result
  rsp : t.rsp = s.rsp
  rcx : t.regs .rcx = s.regs .rcx
  r11 : t.regs .r11 = s.regs .r11
  saved : ∀ r ∈ calleeSaved, t.regs r = s.regs r

/-- The word for the seventh argument belongs to the called function, the two above it do not. -/
theorem syscallEntry_resumes {dispatch : Cpu → Cpu} {s : Cpu}
    (returned : Returned (atSyscallDispatch s) (dispatch (atSyscallDispatch s)) 1 3) :
    Resumed s (syscallEntry dispatch s) ((dispatch (atSyscallDispatch s)).regs .rax) := by
  have stack := atSyscallDispatch_holds s
  have down := atSyscallDispatch_rsp s
  have kept : ∀ r ∈ calleeSaved, (dispatch (atSyscallDispatch s)).regs r = s.regs r := fun r saved =>
    (returned.saved r saved).trans (atSyscallDispatch_regs s saved)
  rw [syscallEntry]
  generalize atSyscallDispatch s = t at returned stack down kept ⊢
  generalize dispatch t = u at returned kept ⊢
  have upper : Lib.Stacked u.mem (u.rsp + 8) ([.r11, .rcx].map s.regs ++ []) := by
    rw [returned.rsp]
    refine stack.pop.congr fun i h => ?_
    rw [Lib.slot_add]
    have bound : i < 2 := by simpa using h
    exact returned.stack (i + 1) (by omega) (by omega)
  obtain ⟨-, loaded⟩ := execAll_pop (s := { u with rsp := u.rsp + 8 }) id [.r11, .rcx] s.regs upper
  have split : execAll id u syscallEntryLeave = execAll id { u with rsp := u.rsp + 8 } ([Reg.r11, .rcx].map .pop) := rfl
  rw [split]
  refine ⟨(loaded .rax).trans (by simp), ?_, (loaded .rcx).trans (by simp), (loaded .r11).trans (by simp), fun r saved => ?_⟩
  · show u.rsp + 8 + 8 + 8 = s.rsp
    rw [returned.rsp, down]
    bv_omega
  · rw [loaded r, if_neg, kept r saved]
    cases r <;> simp_all [calleeSaved]

/-! ## The library side -/

def argumentRegs : List Reg := [.rdi, .rsi, .rdx, .r10, .r8, .r9]

/-- The operands of the `asm` statement. -/
def loadArguments (s : Cpu) (nr : Word) (arguments : List Word) : Cpu :=
  (argumentRegs.zip arguments).foldl (fun s (r, value) => s.setReg r value) (s.setReg .rax nr)

/-- `__syscall0` to `__syscall3` and `__syscall6`, which differ in how many registers they load, up to the instruction behind
`syscall`. -/
def libcSyscall (dispatch : Cpu → Cpu) (p : Processor) (next nr : Word) (arguments : List Word) : Option Processor := do
  let p ← syscallInstr { p with cpu := loadArguments p.cpu nr arguments } next
  sysret { p with cpu := syscallEntry dispatch p.cpu }

def syscall0 (dispatch : Cpu → Cpu) (p : Processor) (next nr : Word) : Option Processor :=
  libcSyscall dispatch p next nr []
def syscall1 (dispatch : Cpu → Cpu) (p : Processor) (next nr a0 : Word) : Option Processor :=
  libcSyscall dispatch p next nr [a0]
def syscall2 (dispatch : Cpu → Cpu) (p : Processor) (next nr a0 a1 : Word) : Option Processor :=
  libcSyscall dispatch p next nr [a0, a1]
def syscall3 (dispatch : Cpu → Cpu) (p : Processor) (next nr a0 a1 a2 : Word) : Option Processor :=
  libcSyscall dispatch p next nr [a0, a1, a2]
def syscall6 (dispatch : Cpu → Cpu) (p : Processor) (next nr a0 a1 a2 a3 a4 a5 : Word) : Option Processor :=
  libcSyscall dispatch p next nr [a0, a1, a2, a3, a4, a5]

/-! ## The whole way -/

theorem setRegs_kept (s : Cpu) (pairs : List (Reg × Word)) :
    (pairs.foldl (fun s (r, value) => s.setReg r value) s).rsp = s.rsp ∧
      (pairs.foldl (fun s (r, value) => s.setReg r value) s).rflags = s.rflags ∧
      ∀ r, r ∉ pairs.map Prod.fst → (pairs.foldl (fun s (r, value) => s.setReg r value) s).regs r = s.regs r := by
  induction pairs generalizing s with
  | nil => simp
  | cons pair pairs ih =>
      obtain ⟨rsp, rflags, others⟩ := ih (s.setReg pair.1 pair.2)
      refine ⟨rsp, rflags, fun r outside => ?_⟩
      simp only [List.map_cons, List.mem_cons, not_or] at outside
      exact (others r outside.2).trans (Function.update_of_ne outside.1 _ _)

theorem loadArguments_arguments (s : Cpu) (nr : Word) :
    ∀ {arguments : List Word}, arguments.length ≤ 6 →
      let t := loadArguments s nr arguments
      [t.regs .rax, t.regs .rdi, t.regs .rsi, t.regs .rdx, t.regs .r10, t.regs .r8, t.regs .r9].take (arguments.length + 1) =
        nr :: arguments
  | [], _ | [_], _ | [_, _], _ | [_, _, _], _ | [_, _, _, _], _ | [_, _, _, _, _], _ | [_, _, _, _, _, _], _ => by
      simp [loadArguments, argumentRegs, Cpu.setReg]
  | _ :: _ :: _ :: _ :: _ :: _ :: _ :: _, few => by
      simp only [List.length_cons] at few
      omega

theorem loadArguments_kept (s : Cpu) (nr : Word) (arguments : List Word) :
    (loadArguments s nr arguments).rsp = s.rsp ∧ (loadArguments s nr arguments).rflags = s.rflags ∧
      ∀ r ∈ calleeSaved, (loadArguments s nr arguments).regs r = s.regs r := by
  obtain ⟨rsp, rflags, others⟩ := setRegs_kept (s.setReg .rax nr) (argumentRegs.zip arguments)
  refine ⟨rsp, rflags, fun r saved => ?_⟩
  have outside : r ∉ argumentRegs ∧ r ≠ .rax := by
    cases r <;> simp_all [calleeSaved, argumentRegs]
  refine (others r fun member => outside.1 ?_).trans (Function.update_of_ne outside.2 _ _)
  obtain ⟨pair, pairs, rfl⟩ := List.mem_map.mp member
  exact (List.of_mem_zip pairs).1

/-- The processor as `syscall_dispatch` finds it. -/
structure AtDispatcher (entry : Word) (s : Cpu) (nr : Word) (arguments : List Word) (entered : Cpu) : Prop where
  rip : entered.rip = entry
  cs : entered.cs = 0x08
  ss : entered.ss = 0x10
  rflags : entered.rflags = s.rflags &&& ~~~interruptFlag
  arguments : (cArguments entered).take (arguments.length + 1) = nr :: arguments

/-- The processor behind `syscall`: at the low half of the address, in code of 32 bits. -/
structure CameBack (s : Cpu) (next result : Word) (t : Processor) : Prop where
  result : t.cpu.regs .rax = result
  rsp : t.cpu.rsp = s.rsp
  saved : ∀ r ∈ calleeSaved, t.cpu.regs r = s.regs r
  rflags : t.cpu.rflags = (s.rflags &&& 0x3C7FD7) ||| 2
  rip : t.cpu.rip = next &&& 0xFFFFFFFF
  mode : t.code64 = false
  cs : t.cpu.cs = 0x1B
  ss : t.cpu.ss = 0x23

/-- What `syscall` makes of the registers behind `syscall_arch_init`. -/
def Cpu.trapped (s : Cpu) (entry next : Word) : Cpu :=
  { (s.setReg .rcx next).setReg .r11 s.rflags with
    rip := entry, cs := 0x08, ss := 0x10, rflags := s.rflags &&& ~~~interruptFlag }

/-- What `sysret` makes of them. -/
def Cpu.released (s : Cpu) : Cpu :=
  { s with rip := s.regs .rcx &&& 0xFFFFFFFF, cs := 0x1B, ss := 0x23, rflags := (s.regs .r11 &&& 0x3C7FD7) ||| 2 }

theorem syscallInstr_programmed {entry : Word} {m : Msrs} (programmed : Programmed entry m) (s : Cpu) (next : Word) :
    syscallInstr { cpu := s, msrs := m, code64 := true } next =
      some { cpu := s.trapped entry next, msrs := m, code64 := true } := by
  simp [syscallInstr, Cpu.trapped, programmed.sce, programmed.lma, programmed.star, programmed.lstar, programmed.fmask]

theorem sysret_programmed {entry : Word} {m : Msrs} (programmed : Programmed entry m) {s : Cpu} (kernel : s.cs = 0x08) :
    sysret { cpu := s, msrs := m, code64 := true } = some { cpu := s.released, msrs := m, code64 := false } := by
  simp [sysret, Cpu.released, programmed.sce, programmed.lma, programmed.star, kernel]

/-- `syscall_arch_init` faults exactly where LME is set and may not be cleared. Where it comes back, a system call through the
library reaches the dispatcher at the entry point, without interrupts and with its number and arguments, and leaves it with
the dispatcher's result and the caller's stack and registers; but `sysret` goes on in compatibility mode. -/
theorem libc_syscall (strict : Bool) {entry : Word} (low : SignExtended entry) {m : Msrs} (lma : m.lma = true) (dispatch : Cpu → Cpu)
    (s : Cpu) (next nr : Word) {arguments : List Word} (few : arguments.length ≤ 6) :
    (syscallArchInit strict entry m = none ↔ strict = true ∧ m.lme = true) ∧
    ∀ msrs, syscallArchInit strict entry m = some msrs →
      ∃ entered, syscallInstr { cpu := loadArguments s nr arguments, msrs, code64 := true } next =
          some { cpu := entered, msrs, code64 := true } ∧
        AtDispatcher entry s nr arguments (atSyscallDispatch entered) ∧
        (Returned (atSyscallDispatch entered) (dispatch (atSyscallDispatch entered)) 1 3 →
          (dispatch (atSyscallDispatch entered)).cs = (atSyscallDispatch entered).cs →
          ∃ t, libcSyscall dispatch { cpu := s, msrs, code64 := true } next nr arguments = some t ∧
            CameBack s next ((dispatch (atSyscallDispatch entered)).regs .rax) t) := by
  refine ⟨syscallArchInit_eq_none_iff strict low m, fun msrs done => ?_⟩
  have programmed := syscallArchInit_programmed low lma done
  have enters := syscallInstr_programmed programmed (loadArguments s nr arguments) next
  obtain ⟨rsp, rflags, kept⟩ := loadArguments_kept s nr arguments
  generalize entered : (loadArguments s nr arguments).trapped entry next = u at enters
  refine ⟨u, enters, ?_, fun returned segment => ?_⟩
  · subst entered
    refine ⟨rfl, rfl, rfl, congrArg (· &&& ~~~interruptFlag) rflags, ?_⟩
    rw [atSyscallDispatch_arguments]
    exact loadArguments_arguments s nr few
  · have resumed := syscallEntry_resumes returned
    have kernel : (syscallEntry dispatch u).cs = 0x08 := by
      refine segment.trans ?_
      rw [← entered]
      rfl
    have reaches : libcSyscall dispatch { cpu := s, msrs, code64 := true } next nr arguments =
        some { cpu := (syscallEntry dispatch u).released, msrs, code64 := false } := by
      rw [libcSyscall, enters, Option.bind_eq_bind, Option.bind_some]
      exact sysret_programmed programmed kernel
    have flags : (syscallEntry dispatch u).regs .r11 = s.rflags := by
      rw [resumed.r11, ← rflags, ← entered]
      rfl
    have address : (syscallEntry dispatch u).regs .rcx = next := by
      rw [resumed.rcx, ← entered]
      rfl
    refine ⟨_, reaches, resumed.result, resumed.rsp.trans ?_, fun r saved => ?_, ?_, ?_, rfl, rfl, rfl⟩
    · rw [← rsp, ← entered]
      rfl
    · rw [← kept r saved]
      refine (resumed.saved r saved).trans ?_
      rw [← entered]
      cases r <;> first | rfl | simp [calleeSaved] at saved
    · exact congrArg (fun w : Word => (w &&& 0x3C7FD7) ||| 2) flags
    · exact congrArg (fun w : Word => w &&& 0xFFFFFFFF) address

-- The caller of `write` with a dispatcher that always answers -9.
def badDescriptor (t : Cpu) : Cpu := t.setReg .rax (-9)

theorem badDescriptor_returned (t : Cpu) : Returned t (badDescriptor t) 1 3 where
  rsp := rfl
  saved r saved := by cases r <;> first | rfl | simp [calleeSaved] at saved
  stack _ _ _ := rfl

/-- As the boot code leaves it: LME and LMA. -/
def bootMsrs : Msrs := { star := 0, lstar := 0, fmask := 0, efer := 0x500 }

theorem libc_syscall_badDescriptor :
    syscallArchInit true 0x201000 bootMsrs = none ∧
    ∃ msrs, syscallArchInit false 0x201000 bootMsrs = some msrs ∧
      ∃ t, syscall3 badDescriptor { cpu := sevens, msrs, code64 := true } 0x400010 1 99 0x500000 12 = some t ∧
        t.cpu.regs .rax = -9 ∧ t.cpu.rip = 0x400010 ∧ t.code64 = false := by
  have low : SignExtended 0x201000 := by decide
  have few : [(99 : Word), 0x500000, 12].length ≤ 6 := by decide
  have lma : bootMsrs.lma = true := rfl
  have calls (strict : Bool) := libc_syscall strict low lma badDescriptor sevens 0x400010 1 few
  refine ⟨(calls true).1.mpr ⟨rfl, rfl⟩, _, rfl, ?_⟩
  obtain ⟨entered, -, -, returns⟩ := (calls false).2 _ rfl
  obtain ⟨t, reaches, back⟩ := returns (badDescriptor_returned _) rfl
  exact ⟨t, reaches, back.result, back.rip, back.mode⟩

end Mgcore
