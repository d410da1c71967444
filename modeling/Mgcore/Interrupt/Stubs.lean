import Mgcore.Lib.Bits
import Mgcore.Lib.Stack

/-!
# The entry stubs

`src/kernel/interrupt_stubs.asm` and the gates that `src/kernel/interrupt.c` points at it. A stub is a list of
instructions for a small machine with the fifteen registers that the code saves, a stack pointer, and a memory of
quadwords. The C function that the code calls is a parameter, and what is asked of it is the calling convention.
-/

namespace Mgcore

abbrev Word := BitVec 64

inductive Reg
  | rax | rbx | rcx | rdx | rbp | rdi | rsi | r8 | r9 | r10 | r11 | r12 | r13 | r14 | r15
  deriving DecidableEq

structure Cpu where
  regs : Reg → Word
  rsp : Word
  rip : Word
  cs : Word
  rflags : Word
  ss : Word
  mem : Word → Word

inductive Instr
  | push (r : Reg)
  | pushImm (value : Word)
  | pop (r : Reg)
  | mov (dst src : Reg)
  | movRsp (dst : Reg)
  /-- `mov [rsp], r` -/
  | storeTop (r : Reg)
  | addRsp (n : Word)
  | subRsp (n : Word)
  | cld
  | call

def Cpu.pushWord (s : Cpu) (value : Word) : Cpu :=
  { s with rsp := s.rsp - 8, mem := Function.update s.mem (s.rsp - 8) value }

def Cpu.setReg (s : Cpu) (r : Reg) (value : Word) : Cpu := { s with regs := Function.update s.regs r value }

def directionFlag : Word := 1 <<< 10
def interruptFlag : Word := 1 <<< 9

/-- `callee` is the effect of a call, from the instruction to the return. -/
def exec (callee : Cpu → Cpu) (s : Cpu) : Instr → Cpu
  | .push r => s.pushWord (s.regs r)
  | .pushImm value => s.pushWord value
  | .pop r => { s.setReg r (s.mem s.rsp) with rsp := s.rsp + 8 }
  | .mov dst src => s.setReg dst (s.regs src)
  | .movRsp dst => s.setReg dst s.rsp
  | .storeTop r => { s with mem := Function.update s.mem s.rsp (s.regs r) }
  | .addRsp n => { s with rsp := s.rsp + n }
  | .subRsp n => { s with rsp := s.rsp - n }
  | .cld => { s with rflags := s.rflags &&& ~~~directionFlag }
  | .call => callee s

def execAll (callee : Cpu → Cpu) (s : Cpu) (code : List Instr) : Cpu := code.foldl (exec callee) s

/-! ## The stubs -/

inductive IsrMacro
  | noErr  -- `ISR_NOERR`
  | err  -- `ISR_ERR`
  deriving DecidableEq

def isrMacros : List IsrMacro :=
  [.noErr, .noErr, .noErr, .noErr, .noErr, .noErr, .noErr, .noErr, .err, .noErr, .err, .err, .err, .err, .err, .noErr,
    .noErr, .err, .noErr, .noErr, .noErr, .err, .noErr, .noErr, .noErr, .noErr, .noErr, .noErr, .noErr, .err, .err, .noErr,
    .noErr, .noErr, .noErr, .noErr, .noErr, .noErr, .noErr, .noErr, .noErr, .noErr, .noErr, .noErr, .noErr]

/-- What stands before `jmp isr_common`. -/
def isrStub (kind : IsrMacro) (vector : Word) : List Instr :=
  match kind with
  | .noErr => [.pushImm 0, .pushImm vector]
  | .err => [.pushImm vector]

def isrStubTable : List (List Instr) := isrMacros.zipIdx.map fun (kind, i) => isrStub kind (BitVec.ofNat 64 i)

def savedRegs : List Reg := [.rax, .rbx, .rcx, .rdx, .rbp, .rdi, .rsi, .r8, .r9, .r10, .r11, .r12, .r13, .r14, .r15]
def restoredRegs : List Reg := [.r15, .r14, .r13, .r12, .r11, .r10, .r9, .r8, .rsi, .rdi, .rbp, .rdx, .rcx, .rbx, .rax]

/-- `isr_common` up to the call. -/
def isrEnter : List Instr := savedRegs.map .push ++ [.movRsp .rdi, .cld]

/-- `isr_common` from the call to `iretq`. -/
def isrLeave : List Instr := restoredRegs.map .pop ++ [.addRsp 16]

/-! ## The processor -/

/-- The exceptions for which the processor pushes an error code. -/
def HasErrorCode (vector : Nat) : Prop :=
  vector = 8 ∨ (10 ≤ vector ∧ vector ≤ 14) ∨ vector = 17 ∨ vector = 21 ∨ vector = 29 ∨ vector = 30

instance (vector : Nat) : Decidable (HasErrorCode vector) := inferInstanceAs (Decidable (_ ∨ _))

/-- An interrupt from the kernel through an interrupt gate: the stack is aligned, five words and perhaps the error code are
pushed, and further interrupts are held back. -/
def deliver (s : Cpu) (selector offset : Word) (errorCode : Option Word) : Cpu :=
  let frame := { s with rsp := s.rsp &&& ~~~15 }
  let frame := ((((frame.pushWord s.ss).pushWord s.rsp).pushWord s.rflags).pushWord s.cs).pushWord s.rip
  let frame :=
    match errorCode with
    | some code => frame.pushWord code
    | none => frame
  { frame with cs := selector, rip := offset, rflags := s.rflags &&& ~~~interruptFlag }

def iretq (s : Cpu) : Cpu :=
  { s with
    rip := s.mem (Lib.slot s.rsp 0)
    cs := s.mem (Lib.slot s.rsp 1)
    rflags := s.mem (Lib.slot s.rsp 2)
    rsp := s.mem (Lib.slot s.rsp 3)
    ss := s.mem (Lib.slot s.rsp 4) }

/-! ## The gates -/

structure IdtEntry where
  offsetLow : BitVec 16 := 0
  selector : BitVec 16 := 0
  ist : BitVec 8 := 0
  typeAttr : BitVec 8 := 0
  offsetMid : BitVec 16 := 0
  offsetHigh : BitVec 32 := 0
  zero : BitVec 32 := 0
  deriving DecidableEq

def idtSetGate (idt : Nat → IdtEntry) (vector : Nat) (address : Word) (typeAttr : BitVec 8) : Nat → IdtEntry :=
  Function.update idt vector
    { offsetLow := (address &&& 0xFFFF).truncate 16
      selector := 0x08
      ist := 0
      typeAttr := typeAttr
      offsetMid := ((address >>> 16) &&& 0xFFFF).truncate 16
      offsetHigh := ((address >>> 32) &&& 0xFFFFFFFF).truncate 32
      zero := 0 }

/-- The loop of `interrupt_init`, on the cleared `g_idt`. -/
def interruptInit (stubs : Nat → Word) : Nat → IdtEntry :=
  (List.range 45).foldl (fun idt i => idtSetGate idt i (stubs i) 0x8E) fun _ => {}

/-- What the processor makes of a gate: the present bit, the four bits of the type, and the address in three parts. -/
def IdtEntry.present (e : IdtEntry) : Bool := e.typeAttr.getLsbD 7
def IdtEntry.gateType (e : IdtEntry) : BitVec 4 := e.typeAttr.truncate 4
def IdtEntry.privilege (e : IdtEntry) : BitVec 2 := (e.typeAttr >>> 5).truncate 2
def IdtEntry.offset (e : IdtEntry) : Word := e.offsetHigh ++ e.offsetMid ++ e.offsetLow

/-! ## The frame -/

/-- `struct interrupt_frame` -/
structure InterruptFrame where
  r15 : Word
  r14 : Word
  r13 : Word
  r12 : Word
  r11 : Word
  r10 : Word
  r9 : Word
  r8 : Word
  rsi : Word
  rdi : Word
  rbp : Word
  rdx : Word
  rcx : Word
  rbx : Word
  rax : Word
  vector : Word
  errorCode : Word
  rip : Word
  cs : Word
  rflags : Word
  deriving DecidableEq

def interruptFrame (mem : Word → Word) (p : Word) : InterruptFrame :=
  { r15 := mem (Lib.slot p 0), r14 := mem (Lib.slot p 1), r13 := mem (Lib.slot p 2), r12 := mem (Lib.slot p 3)
    r11 := mem (Lib.slot p 4), r10 := mem (Lib.slot p 5), r9 := mem (Lib.slot p 6), r8 := mem (Lib.slot p 7)
    rsi := mem (Lib.slot p 8), rdi := mem (Lib.slot p 9), rbp := mem (Lib.slot p 10), rdx := mem (Lib.slot p 11)
    rcx := mem (Lib.slot p 12), rbx := mem (Lib.slot p 13), rax := mem (Lib.slot p 14), vector := mem (Lib.slot p 15)
    errorCode := mem (Lib.slot p 16), rip := mem (Lib.slot p 17), cs := mem (Lib.slot p 18), rflags := mem (Lib.slot p 19) }

/-- The frame that `interrupt_dispatch` should be given. -/
def frameOf (s : Cpu) (vector errorCode : Word) : InterruptFrame :=
  { r15 := s.regs .r15, r14 := s.regs .r14, r13 := s.regs .r13, r12 := s.regs .r12, r11 := s.regs .r11
    r10 := s.regs .r10, r9 := s.regs .r9, r8 := s.regs .r8, rsi := s.regs .rsi, rdi := s.regs .rdi, rbp := s.regs .rbp
    rdx := s.regs .rdx, rcx := s.regs .rcx, rbx := s.regs .rbx, rax := s.regs .rax, vector := vector
    errorCode := errorCode, rip := s.rip, cs := s.cs, rflags := s.rflags }

def calleeSaved : List Reg := [.rbx, .rbp, .r12, .r13, .r14, .r15]

/-- A call that keeps to the convention, and leaves alone the words from `first` up to `last` above the stack pointer. -/
structure Returned (s t : Cpu) (first last : Nat) : Prop where
  rsp : t.rsp = s.rsp
  saved : ∀ r ∈ calleeSaved, t.regs r = s.regs r
  stack : ∀ i, first ≤ i → i < last → t.mem (Lib.slot s.rsp i) = s.mem (Lib.slot s.rsp i)

theorem Returned.refl (s : Cpu) (first last : Nat) : Returned s s first last := ⟨rfl, fun _ _ => rfl, fun _ _ _ => rfl⟩

/-! ## The stack as a list -/

section
variable {callee : Cpu → Cpu} {s : Cpu} {words : List Word}

theorem execAll_append (first last : List Instr) :
    execAll callee s (first ++ last) = execAll callee (execAll callee s first) last := List.foldl_append

/-- A row of pushes stores registers only. -/
theorem execAll_push (callee : Cpu → Cpu) (regs : List Reg) (stack : Lib.Stacked s.mem s.rsp words)
    (short : words.length + regs.length ≤ 2 ^ 61) :
    let t := execAll callee s (regs.map .push)
    Lib.Stacked t.mem t.rsp ((regs.map s.regs).reverse ++ words) ∧ t.rsp = s.rsp - BitVec.ofNat 64 (8 * regs.length) ∧
      t.regs = s.regs ∧ t.rflags = s.rflags := by
  induction regs generalizing s words with
  | nil => simpa [execAll] using stack
  | cons r regs ih =>
      simp only [List.length_cons] at short
      obtain ⟨holds, down, kept⟩ := ih (s := s.pushWord (s.regs r)) (stack.push (by omega) (s.regs r)) (by simp; omega)
      refine ⟨by simpa [execAll, exec, Cpu.pushWord] using holds, ?_, kept⟩
      refine down.trans ?_
      simp only [Cpu.pushWord, List.length_cons]
      rw [Nat.mul_add, BitVec.ofNat_add]
      bv_omega

/-- A row of pops loads the registers that the words are for. -/
theorem execAll_pop (callee : Cpu → Cpu) (regs : List Reg) (value : Reg → Word) (stack : Lib.Stacked s.mem s.rsp (regs.map value ++ words)) :
    let t := execAll callee s (regs.map .pop)
    Lib.Stacked t.mem t.rsp words ∧ ∀ r, t.regs r = if r ∈ regs then value r else s.regs r := by
  induction regs generalizing s with
  | nil => simpa [execAll] using stack
  | cons r regs ih =>
      have top := stack.top
      obtain ⟨holds, loaded⟩ := ih (s := exec callee s (.pop r)) stack.pop
      refine ⟨holds, fun q => ?_⟩
      refine (loaded q).trans ?_
      by_cases later : q ∈ regs
      · simp [later]
      · by_cases here : q = r
        · subst here
          simp [later, exec, Cpu.setReg, top]
        · simp [later, here, exec, Cpu.setReg]

end

/-! ## From the interrupt to the call and back -/

/-- The processor at the instruction `call interrupt_dispatch`. -/
def atDispatch (stubs : Nat → Word) (s : Cpu) (vector : Nat) (errorCode : Word) : Cpu :=
  let gate := interruptInit stubs vector
  let entered := deliver s (gate.selector.zeroExtend 64) gate.offset (if HasErrorCode vector then some errorCode else none)
  execAll id entered (isrStubTable.getD vector [] ++ isrEnter)

def serve (stubs : Nat → Word) (dispatch : Cpu → Cpu) (s : Cpu) (vector : Nat) (errorCode : Word) : Cpu :=
  iretq (execAll id (dispatch (atDispatch stubs s vector errorCode)) isrLeave)

theorem isrStubTable_getD {vector : Nat} (known : vector < 45) :
    isrStubTable.getD vector [] =
      isrStub (if HasErrorCode vector then .err else .noErr) (BitVec.ofNat 64 vector) := by
  have all : ∀ v : Fin 45, isrMacros.getD v .noErr = if HasErrorCode v then .err else .noErr := by decide
  have length : isrMacros.length = 45 := rfl
  rw [← all ⟨vector, known⟩, isrStubTable, List.getD_eq_getElem _ _ (by simp [length, known]), List.getElem_map,
    List.getElem_zipIdx, List.getD_eq_getElem _ _ (by rw [length]; exact known), Nat.zero_add]

theorem interruptInit_apply (stubs : Nat → Word) (vector : Nat) :
    interruptInit stubs vector =
      if vector < 45 then idtSetGate (fun _ => {}) vector (stubs vector) 0x8E vector else {} := by
  unfold interruptInit
  generalize 45 = n
  induction n with
  | zero => rfl
  | succ n ih =>
      rw [List.range_succ, List.foldl_append, List.foldl_cons, List.foldl_nil, idtSetGate]
      by_cases here : vector = n
      · subst here
        simp [idtSetGate]
      · rw [Function.update_of_ne here, ih]
        congr 1
        exact propext (by omega)

theorem gate_offset (idt : Nat → IdtEntry) (vector : Nat) (address : Word) (typeAttr : BitVec 8) :
    (idtSetGate idt vector address typeAttr vector).offset = address := by
  simp only [idtSetGate, Function.update_self, IdtEntry.offset]
  apply BitVec.eq_of_getLsbD_eq
  intro i bound
  have mask16 (j : Nat) : BitVec.getLsbD (0xFFFF : Word) j = decide (j < 16) := by
    have same : (0xFFFF : Word) = BitVec.ofNat 64 (2 ^ 16 - 1) := rfl
    rw [same, BitVec.getLsbD_ofNat, Nat.testBit_two_pow_sub_one]
    by_cases low : j < 16
    · simp [low, show j < 64 by omega]
    · simp [low]
  have mask32 (j : Nat) : BitVec.getLsbD (0xFFFFFFFF : Word) j = decide (j < 32) := by
    have same : (0xFFFFFFFF : Word) = BitVec.ofNat 64 (2 ^ 32 - 1) := rfl
    rw [same, BitVec.getLsbD_ofNat, Nat.testBit_two_pow_sub_one]
    by_cases low : j < 32
    · simp [low, show j < 64 by omega]
    · simp [low]
  simp only [BitVec.getLsbD_append, BitVec.getLsbD_setWidth, BitVec.truncate_eq_setWidth, BitVec.getLsbD_and, mask16, mask32,
    BitVec.getLsbD_ushiftRight]
  by_cases low : i < 16
  · simp [low]
  · by_cases middle : i - 16 < 16
    · simp [low, middle, show 16 + (i - 16) = i by omega]
    · simp [low, middle, show i - 16 - 16 < 32 by omega, show 32 + (i - 16 - 16) = i by omega]

/-- The words that lie on the stack when `interrupt_dispatch` is called. -/
def stackedWords (s : Cpu) (vector errorCode : Word) : List Word :=
  restoredRegs.map s.regs ++ [vector, errorCode, s.rip, s.cs, s.rflags, s.rsp, s.ss]

theorem aligned_toNat (x : Word) : (x &&& ~~~15).toNat % 16 = 0 := by
  have mask : (~~~15 : Word).toNat = (2 ^ 60 - 1) <<< 4 := by decide
  rw [BitVec.toNat_and, mask, Lib.and_shiftLeft_mask]
  omega

theorem flags_cleared (x m n : Word) : x &&& ~~~m &&& ~~~n &&& m = 0 ∧ x &&& ~~~m &&& ~~~n &&& n = 0 := by
  constructor
  · rw [BitVec.and_assoc x, BitVec.and_comm (~~~m), ← BitVec.and_assoc x, BitVec.and_assoc (x &&& ~~~n), BitVec.not_and_self]
    exact BitVec.and_zero
  · rw [BitVec.and_assoc (x &&& ~~~m), BitVec.not_and_self]
    exact BitVec.and_zero

theorem deliver_stub (s : Cpu) (selector offset errorCode : Word) {vector : Nat} (known : vector < 45) :
    let t := execAll id (deliver s selector offset (if HasErrorCode vector then some errorCode else none))
      (isrStubTable.getD vector [])
    Lib.Stacked t.mem t.rsp
        [BitVec.ofNat 64 vector, if HasErrorCode vector then errorCode else 0, s.rip, s.cs, s.rflags, s.rsp, s.ss] ∧
      t.rsp = (s.rsp &&& ~~~15) - 56 ∧ t.regs = s.regs ∧ t.rflags = s.rflags &&& ~~~interruptFlag := by
  have first : Lib.Stacked s.mem (s.rsp &&& ~~~15) [] := Lib.Stacked.nil
  have five := ((((first.push (by simp) s.ss).push (by simp) s.rsp).push (by simp) s.rflags).push (by simp) s.cs).push
    (by simp) s.rip
  rw [isrStubTable_getD known]
  by_cases code : HasErrorCode vector
  · simp only [if_pos code]
    refine ⟨(five.push (by simp) errorCode).push (by simp) _, ?_, rfl, rfl⟩
    show (s.rsp &&& ~~~15) - 8 - 8 - 8 - 8 - 8 - 8 - 8 = _
    bv_omega
  · simp only [if_neg code]
    refine ⟨(five.push (by simp) 0).push (by simp) _, ?_, rfl, rfl⟩
    show (s.rsp &&& ~~~15) - 8 - 8 - 8 - 8 - 8 - 8 - 8 = _
    bv_omega

/-- The state at the call, as far as the called function can see it. -/
structure Entered (s t : Cpu) (vector errorCode : Word) : Prop where
  stack : Lib.Stacked t.mem t.rsp (stackedWords s vector errorCode)
  rsp : t.rsp = (s.rsp &&& ~~~15) - 176
  argument : t.regs .rdi = t.rsp
  rflags : t.rflags = s.rflags &&& ~~~interruptFlag &&& ~~~directionFlag

theorem atDispatch_entered (stubs : Nat → Word) (s : Cpu) (errorCode : Word) {vector : Nat} (known : vector < 45) :
    Entered s (atDispatch stubs s vector errorCode) (BitVec.ofNat 64 vector)
      (if HasErrorCode vector then errorCode else 0) := by
  rw [atDispatch]
  generalize interruptInit stubs vector = gate
  obtain ⟨holds, down, regs, flags⟩ := deliver_stub s (gate.selector.zeroExtend 64) gate.offset errorCode known
  rw [execAll_append, isrEnter, execAll_append]
  generalize execAll id (deliver s (gate.selector.zeroExtend 64) gate.offset
    (if HasErrorCode vector then some errorCode else none)) (isrStubTable.getD vector []) = t at holds down regs flags ⊢
  obtain ⟨saved, lower, -, rflags⟩ := execAll_push id savedRegs holds (by simp [savedRegs])
  rw [regs] at saved
  generalize execAll id t (savedRegs.map .push) = u at saved lower rflags ⊢
  have rsp : u.rsp = (s.rsp &&& ~~~15) - 176 := by
    rw [lower, down]
    show _ - 56 - 120 = _
    bv_omega
  exact
    { stack := saved
      rsp := rsp
      argument := by simp [execAll, exec, Cpu.setReg]
      rflags := by simp [execAll, exec, Cpu.setReg, rflags, flags] }

theorem Entered.frame {s t : Cpu} {vector errorCode : Word} (entered : Entered s t vector errorCode) :
    interruptFrame t.mem (t.regs .rdi) = frameOf s vector errorCode := by
  have read (i : Nat) (h : i < 22) : t.mem (Lib.slot t.rsp i) = (stackedWords s vector errorCode).get ⟨i, h⟩ :=
    entered.stack i h
  rw [entered.argument, interruptFrame, read 0 (by decide), read 1 (by decide), read 2 (by decide), read 3 (by decide),
    read 4 (by decide), read 5 (by decide), read 6 (by decide), read 7 (by decide), read 8 (by decide), read 9 (by decide),
    read 10 (by decide), read 11 (by decide), read 12 (by decide), read 13 (by decide), read 14 (by decide),
    read 15 (by decide), read 16 (by decide), read 17 (by decide), read 18 (by decide), read 19 (by decide)]
  rfl

theorem mem_restoredRegs (r : Reg) : r ∈ restoredRegs := by cases r <;> decide

theorem Entered.leave {s t u : Cpu} {vector errorCode : Word} (entered : Entered s t vector errorCode)
    (returned : Returned t u 0 22) :
    let v := iretq (execAll id u isrLeave)
    v.regs = s.regs ∧ v.rsp = s.rsp ∧ v.rip = s.rip ∧ v.cs = s.cs ∧ v.rflags = s.rflags ∧ v.ss = s.ss := by
  have stack : Lib.Stacked u.mem u.rsp (stackedWords s vector errorCode) := by
    rw [returned.rsp]
    exact entered.stack.congr fun i h => returned.stack i (Nat.zero_le i) h
  obtain ⟨rest, loaded⟩ := execAll_pop id restoredRegs s.regs stack
  rw [isrLeave, execAll_append]
  generalize execAll id u (restoredRegs.map .pop) = v at rest loaded
  have upper : Lib.Stacked v.mem (v.rsp + 16) [s.rip, s.cs, s.rflags, s.rsp, s.ss] := by
    have skipped := rest.pop.pop
    rwa [show v.rsp + 8 + 8 = v.rsp + 16 by bv_omega] at skipped
  refine ⟨funext fun r => ?_, upper 3 (by simp), upper 0 (by simp), upper 1 (by simp), upper 2 (by simp), upper 4 (by simp)⟩
  show v.regs r = s.regs r
  rw [loaded r, if_pos (mem_restoredRegs r)]

/-- An interrupt reaches `interrupt_dispatch` with the interrupted state as its argument, on an aligned stack, and when the
function returns nothing has changed but memory. -/
theorem interrupt_transparent (stubs : Nat → Word) (dispatch : Cpu → Cpu) (s : Cpu) (vector : Nat) (errorCode : Word)
    (known : vector < 45)
    (returned : Returned (atDispatch stubs s vector errorCode) (dispatch (atDispatch stubs s vector errorCode)) 0 22) :
    let gate := interruptInit stubs vector
    let entered := atDispatch stubs s vector errorCode
    let left := serve stubs dispatch s vector errorCode
    (gate.present = true ∧ gate.gateType = 0xE ∧ gate.privilege = 0 ∧ gate.selector = 0x08 ∧ gate.offset = stubs vector) ∧
    (interruptFrame entered.mem (entered.regs .rdi) =
        frameOf s (BitVec.ofNat 64 vector) (if HasErrorCode vector then errorCode else 0) ∧
      entered.rsp.toNat % 16 = 0 ∧ entered.rflags &&& interruptFlag = 0 ∧ entered.rflags &&& directionFlag = 0) ∧
    left.regs = s.regs ∧ left.rsp = s.rsp ∧ left.rip = s.rip ∧ left.cs = s.cs ∧ left.rflags = s.rflags ∧ left.ss = s.ss := by
  intro gate entered left
  have reached := atDispatch_entered stubs s errorCode known
  refine ⟨?_, ⟨reached.frame, ?_, ?_, ?_⟩, reached.leave returned⟩
  · have written : gate = idtSetGate (fun _ => {}) vector (stubs vector) 0x8E vector := by
      rw [show gate = interruptInit stubs vector from rfl, interruptInit_apply, if_pos known]
    rw [written]
    refine ⟨?_, ?_, ?_, ?_, gate_offset _ vector (stubs vector) 0x8E⟩ <;>
      simp [idtSetGate, IdtEntry.present, IdtEntry.gateType, IdtEntry.privilege]
  · have down : entered.rsp = (s.rsp &&& ~~~15) - 176 := reached.rsp
    have aligned := aligned_toNat s.rsp
    rw [down]
    generalize s.rsp &&& ~~~15 = top at aligned
    bv_omega
  · have flags : entered.rflags = s.rflags &&& ~~~interruptFlag &&& ~~~directionFlag := reached.rflags
    rw [flags, (flags_cleared _ _ _).1]
  · have flags : entered.rflags = s.rflags &&& ~~~interruptFlag &&& ~~~directionFlag := reached.rflags
    rw [flags, (flags_cleared _ _ _).2]

-- A general protection fault at a point where every register holds 7; the called function does nothing.
def sevens : Cpu := { regs := fun _ => 7, rsp := 0x9008, rip := 0x200123, cs := 8, rflags := 0x246, ss := 16, mem := fun _ => 0 }

theorem interrupt_transparent_sevens :
    interruptFrame (atDispatch (fun _ => 0x200000) sevens 13 48).mem
        ((atDispatch (fun _ => 0x200000) sevens 13 48).regs .rdi) = frameOf sevens 13 48 ∧
      (serve (fun _ => 0x200000) (fun t => t) sevens 13 48).rip = 0x200123 := by
  obtain ⟨-, ⟨frame, -⟩, -, -, rip, -⟩ := interrupt_transparent (fun _ => 0x200000) (fun t => t) sevens 13 48 (by decide)
    (Returned.refl _ 0 22)
  exact ⟨frame, rip⟩

end Mgcore
