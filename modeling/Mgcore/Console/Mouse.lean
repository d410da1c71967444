import Mathlib.Data.List.GetD
import Mgcore.Console.View

/-!
# The mouse

`drivers/mouse.c`. The driver counts bytes into packets of three or four and never looks for the start of one, so it stays
in step only as long as no byte is lost. Of a packet it uses the wheel: the fourth byte, if there is one and the first byte
has the bit that every first byte has.
-/

namespace Mgcore

open Lib

/-! ## The controller -/

/-- `answers` holds what the data port will deliver to each wait for it; `none` is a wait that times out. -/
structure Ps2 where
  answers : List (Option UInt8)
  writes : List (Nat × UInt8) := []

def ps2DataPort : Nat := 0x60
def ps2CmdPort : Nat := 0x64

def ps2WriteCmd (p : Ps2) (value : UInt8) : Ps2 := { p with writes := p.writes ++ [(ps2CmdPort, value)] }
def ps2WriteData (p : Ps2) (value : UInt8) : Ps2 := { p with writes := p.writes ++ [(ps2DataPort, value)] }

def ps2ReadData (p : Ps2) : UInt8 × Ps2 :=
  match p.answers with
  | some value :: later => (value, { p with answers := later })
  | none :: later => (0, { p with answers := later })
  | [] => (0, p)

def mouseWrite (p : Ps2) (value : UInt8) : Ps2 := ps2WriteData (ps2WriteCmd p 0xD4) value

def mouseReadAck (p : Ps2) : Ps2 := (ps2ReadData p).2

def mouseSetSampleRate (p : Ps2) (rate : UInt8) : Ps2 :=
  let p := mouseReadAck (mouseWrite p 0xF3)
  mouseReadAck (mouseWrite p rate)

/-! ## The driver -/

structure Mouse where
  packet : Nat → UInt8 := fun _ => 0
  packetIndex : Nat := 0
  packetSize : Nat := 4
  ready : Bool := false

def mouseInit (m : Mouse) (p : Ps2) : Mouse × Ps2 :=
  let m := { m with ready := false, packetIndex := 0 }
  let p := ps2WriteCmd (ps2WriteCmd p 0xA8) 0x20
  let (status, p) := ps2ReadData p
  let status := (status ||| 0x02) &&& ~~~0x20
  let p := ps2WriteData (ps2WriteCmd p 0x60) status
  let p := mouseReadAck (mouseWrite p 0xF6)
  let p := mouseSetSampleRate (mouseSetSampleRate (mouseSetSampleRate p 200) 100) 80
  let p := mouseReadAck (mouseWrite p 0xF2)
  let (mouseId, p) := ps2ReadData p
  let m := { m with packetSize := if mouseId = 3 then 4 else 3 }
  let p := mouseReadAck (mouseWrite p 0xF4)
  ({ m with ready := true }, p)

/-- `int8_t` -/
def signed8 (b : UInt8) : Int := if b.toNat < 128 then b.toNat else b.toNat - 256

/-- What is done with a packet that is complete. -/
def mousePacket (m : Mouse) (s : Screen) : Option Screen :=
  if m.packet 0 &&& 0x08 = 0 then some s
  else if m.packetSize = 4 then
    let wheel := signed8 (m.packet 3)
    if wheel > 0 then consoleScrollView s (wheel * 3)
    else if wheel < 0 then consoleScrollView s (wheel * 3)
    else some s
  else some s

/-- The argument is the byte in the controller, `none` if the status port says that there is none. A store past the end of
`g_packet` is `none`. -/
def mouseHandleIrq (m : Mouse) (s : Screen) : Option UInt8 → Option (Mouse × Screen)
  | none => some (m, s)
  | some byte =>
      if m.ready = false then some (m, s)
      else if m.packetIndex < 4 then
        let m := { m with packet := Function.update m.packet m.packetIndex byte, packetIndex := m.packetIndex + 1 }
        if m.packetIndex < m.packetSize then some (m, s)
        else (mousePacket m s).map fun t => ({ m with packetIndex := 0 }, t)
      else none

def mouseRun (m : Mouse) (s : Screen) (irqs : List (Option UInt8)) : Option (Mouse × Screen) :=
  irqs.foldlM (fun state irq => mouseHandleIrq state.1 state.2 irq) (m, s)

/-! ## Packets -/

/-- The scrolling that a packet of `n` bytes asks for. -/
def wheelMove (n : Nat) (packet : List UInt8) : Option Int :=
  if packet.getD 0 0 &&& 0x08 ≠ 0 ∧ n = 4 ∧ signed8 (packet.getD 3 0) ≠ 0 then some (signed8 (packet.getD 3 0) * 3) else none

def wheelCalls (n : Nat) (packets : List (List UInt8)) : List ScreenCall :=
  packets.filterMap fun packet => (wheelMove n packet).map .scrollView

/-- The bytes of the packet that is not complete yet. -/
structure Holding (m : Mouse) (rest : List UInt8) : Prop where
  ready : m.ready = true
  size : m.packetSize = 3 ∨ m.packetSize = 4
  index : m.packetIndex = rest.length
  short : rest.length < m.packetSize
  bytes : ∀ i (h : i < rest.length), m.packet i = rest[i]

theorem mouseInit_holding (m : Mouse) (p : Ps2) : Holding (mouseInit m p).1 [] := by
  refine ⟨rfl, ?_, rfl, ?_, fun _ h => absurd h (Nat.not_lt_zero _)⟩
  · simp only [mouseInit]
    split_ifs
    · exact Or.inr rfl
    · exact Or.inl rfl
  · simp only [mouseInit]
    split_ifs <;> decide

theorem consoleScrollView_isSome (s : Screen) (deltaLines : Int) : ∃ t, consoleScrollView s deltaLines = some t := by
  by_cases zero : deltaLines = 0
  · exact ⟨s, if_pos zero⟩
  · exact ⟨_, consoleScrollView_eq zero⟩

theorem wheelCalls_cons (n : Nat) (packet : List UInt8) (packets : List (List UInt8)) :
    wheelCalls n (packet :: packets) = ((wheelMove n packet).map .scrollView).toList ++ wheelCalls n packets := by
  cases move : wheelMove n packet with
  | none => simp [wheelCalls, move]
  | some deltaLines => simp [wheelCalls, move]

theorem mousePacket_eq {m : Mouse} (packet : List UInt8) (length : packet.length = m.packetSize)
    (size : m.packetSize = 3 ∨ m.packetSize = 4) (bytes : ∀ i (h : i < packet.length), m.packet i = packet[i]) (s : Screen) :
    mousePacket m s = run screenStep s ((wheelMove m.packetSize packet).map .scrollView).toList := by
  have first : m.packet 0 = packet.getD 0 0 := by
    rw [bytes 0 (by omega), List.getD_eq_getElem _ _ (by omega)]
  have last (four : m.packetSize = 4) : m.packet 3 = packet.getD 3 0 := by
    rw [bytes 3 (by omega), List.getD_eq_getElem _ _ (by omega)]
  unfold mousePacket wheelMove
  rw [first]
  generalize packet.getD 0 0 = head
  by_cases sync : head &&& 0x08 = 0
  · simp [sync]
  · by_cases four : m.packetSize = 4
    · rw [last four]
      generalize signed8 (packet.getD 3 0) = wheel
      rcases Int.lt_trichotomy wheel 0 with down | still | up
      · simp [sync, four, down, Int.not_lt.mpr (Int.le_of_lt down), Int.ne_of_lt down, screenStep]
      · simp [sync, four, still]
      · simp [sync, four, up, Int.ne_of_gt up, screenStep]
    · simp [sync, four]

theorem wheelMove_inMouseRange {n : Nat} {packet : List UInt8} {deltaLines : Int}
    (move : wheelMove n packet = some deltaLines) : ScreenCall.InMouseRange (.scrollView deltaLines) := by
  unfold wheelMove at move
  split_ifs at move
  cases move
  have bound := (packet.getD 3 0).toNat_lt
  unfold signed8 ScreenCall.InMouseRange
  split_ifs <;> omega

/-! ## Streams -/

/-- A screen call that a wheel makes always returns. -/
theorem run_wheel_isSome (n : Nat) (packet : List UInt8) (s : Screen) :
    ∃ t, run screenStep s ((wheelMove n packet).map .scrollView).toList = some t := by
  cases wheelMove n packet with
  | none => exact ⟨s, rfl⟩
  | some deltaLines =>
      obtain ⟨t, steps⟩ := consoleScrollView_isSome s deltaLines
      exact ⟨t, by simp [screenStep, steps]⟩

/-- One byte completes the packet or is added to it. -/
theorem Holding.byte {m : Mouse} {rest : List UInt8} (holding : Holding m rest) (s : Screen) (byte : UInt8) :
    (rest.length + 1 < m.packetSize ∧
      ∃ m', mouseHandleIrq m s (some byte) = some (m', s) ∧ m'.packetSize = m.packetSize ∧ Holding m' (rest ++ [byte])) ∨
    (rest.length + 1 = m.packetSize ∧
      ∃ m' t, mouseHandleIrq m s (some byte) = some (m', t) ∧ m'.packetSize = m.packetSize ∧ Holding m' [] ∧
        run screenStep s ((wheelMove m.packetSize (rest ++ [byte])).map .scrollView).toList = some t) := by
  have short := holding.short
  have size := holding.size
  have stored : ∀ i (h : i < (rest ++ [byte]).length),
      Function.update m.packet m.packetIndex byte i = (rest ++ [byte])[i] := by
    intro i h
    rw [List.length_append, List.length_singleton] at h
    by_cases last : i = rest.length
    · subst last
      simp [holding.index]
    · have inside : i < rest.length := by omega
      rw [Function.update_of_ne (by rw [holding.index]; exact last), List.getElem_append_left inside, holding.bytes i inside]
  have index : m.packetIndex < 4 := by
    rw [holding.index]
    omega
  have plain : ¬m.ready = false := by simp [holding.ready]
  rcases Nat.lt_or_ge (rest.length + 1) m.packetSize with more | full
  · refine Or.inl ⟨more,
      { m with packet := Function.update m.packet m.packetIndex byte, packetIndex := m.packetIndex + 1 }, ?_, rfl,
      ⟨holding.ready, size, ?_, ?_, stored⟩⟩
    · simp only [mouseHandleIrq]
      rw [if_neg plain, if_pos index, if_pos (by rw [holding.index]; exact more)]
    · simp [holding.index]
    · simpa using more
  · have exact_ : rest.length + 1 = m.packetSize := by omega
    obtain ⟨t, reaches⟩ := run_wheel_isSome m.packetSize (rest ++ [byte]) s
    refine Or.inr ⟨exact_, { m with packet := Function.update m.packet m.packetIndex byte, packetIndex := 0 }, t, ?_, rfl,
      ⟨holding.ready, size, rfl, ?_, fun _ h => absurd h (Nat.not_lt_zero _)⟩, reaches⟩
    · simp only [mouseHandleIrq]
      rw [if_neg plain, if_pos index, if_neg (by rw [holding.index]; omega)]
      have packet := mousePacket_eq
        (m := { m with packet := Function.update m.packet m.packetIndex byte, packetIndex := m.packetIndex + 1 })
        (rest ++ [byte]) (by simpa using exact_) size stored s
      rw [packet, reaches, Option.map_some]
    · show 0 < m.packetSize
      omega

/-- The bytes of the stream are cut into packets one after another, and the screen is scrolled by their wheels. -/
structure Decoded (m m' : Mouse) (s t : Screen) (data : List UInt8) (packets : List (List UInt8)) (rest : List UInt8) : Prop where
  split : data = packets.flatten ++ rest
  whole : ∀ packet ∈ packets, packet.length = m.packetSize
  holding : Holding m' rest
  size : m'.packetSize = m.packetSize
  scrolls : run screenStep s (wheelCalls m.packetSize packets) = some t

theorem Holding.stream {m : Mouse} {rest : List UInt8} (holding : Holding m rest) (s : Screen) (irqs : List (Option UInt8)) :
    ∃ m' t packets rest', mouseRun m s irqs = some (m', t) ∧
      Decoded m m' s t (rest ++ irqs.filterMap id) packets rest' := by
  induction irqs generalizing m rest s with
  | nil => exact ⟨m, s, [], rest, rfl, ⟨by simp, by simp, holding, rfl, rfl⟩⟩
  | cons irq irqs ih =>
      cases irq with
      | none => exact ih holding s
      | some byte =>
          rcases holding.byte s byte with ⟨-, m₁, steps, size, next⟩ | ⟨full, m₁, u, steps, size, next, scrolled⟩
          · obtain ⟨m', t, packets, rest', runs, done⟩ := ih next s
            refine ⟨m', t, packets, rest', by rw [mouseRun, List.foldlM_cons, steps]; exact runs, ?_⟩
            have split := done.split
            rw [List.append_assoc] at split
            exact ⟨split, size ▸ done.whole, done.holding, done.size.trans size, size ▸ done.scrolls⟩
          · obtain ⟨m', t, packets, rest', runs, done⟩ := ih next u
            refine ⟨m', t, (rest ++ [byte]) :: packets, rest', by rw [mouseRun, List.foldlM_cons, steps]; exact runs, ?_⟩
            refine ⟨?_, List.forall_mem_cons.mpr ⟨by simpa using full, size ▸ done.whole⟩, done.holding,
              done.size.trans size, ?_⟩
            · have split := done.split
              rw [List.nil_append] at split
              show rest ++ byte :: irqs.filterMap id = _
              rw [split]
              simp
            · rw [wheelCalls_cons, run_append, scrolled]
              exact size ▸ done.scrolls

/-- Whatever the controller answers when the driver starts, the bytes of all later interrupts are cut into packets of one
size, and the screen is scrolled by the wheels of the whole ones, in order and by no more than three times 128 lines. -/
theorem mouse_scrolls_by_wheel (m : Mouse) (p : Ps2) (s : Screen) (irqs : List (Option UInt8)) :
    let started := (mouseInit m p).1
    (started.packetSize = 3 ∨ started.packetSize = 4) ∧
    ∃ m' t packets rest, mouseRun started s irqs = some (m', t) ∧
      irqs.filterMap id = packets.flatten ++ rest ∧ (∀ packet ∈ packets, packet.length = started.packetSize) ∧
      rest.length < started.packetSize ∧ m'.packetIndex = rest.length ∧
      run screenStep s (wheelCalls started.packetSize packets) = some t ∧
      ∀ call ∈ wheelCalls started.packetSize packets, call.InMouseRange := by
  intro started
  have holding := mouseInit_holding m p
  refine ⟨holding.size, ?_⟩
  obtain ⟨m', t, packets, rest, runs, done⟩ := holding.stream s irqs
  refine ⟨m', t, packets, rest, runs, done.split, done.whole, done.size ▸ done.holding.short, done.holding.index,
    done.scrolls, ?_⟩
  intro call member
  obtain ⟨packet, -, move⟩ := List.mem_filterMap.mp member
  obtain ⟨deltaLines, found, rfl⟩ := Option.map_eq_some_iff.mp move
  exact wheelMove_inMouseRange found

end Mgcore
