import Mgcore.Cli.Meminfo
import Mgcore.Console.Printf
import Mgcore.Net.Address
import Mgcore.Net.Checksum
import Mgcore.Net.Ping
import Mgcore.Net.Resolve

/-!
# A ping session

`net_ping` as a machine with a program point: it resolves the next hop, then sends one request after the other and waits for
the reply to each, while frames arrive and the timer ticks between any two of its steps. The wait record is filled in one step.
-/

namespace Mgcore

open Lib

/-! ## The machine -/

/-- The local variables of the loop of `net_ping`. -/
structure PingLoop where
  dstMac : Mac
  identifier : UInt16
  seq : Nat
  received : Nat
  deriving DecidableEq

/-- Where `net_ping` stands. -/
inductive PingPoint
  | resolve (nextHop : UInt32) (point : ResolvePoint)
  | resolved (nextHop : UInt32) (mac : Option Mac)
  | loop (w : PingLoop)
  | send (w : PingLoop) (startMs startTicks : UInt64)
  | head (w : PingLoop) (startMs startTicks : UInt64)
  | poll (w : PingLoop) (startMs startTicks : UInt64)
  | returned (status : Int)
  deriving DecidableEq

structure Ping where
  dstIp : UInt32
  count : Nat
  point : PingPoint
  net : Net
  console : Console

def routeNextHop (net : Net) (dstIp : UInt32) : UInt32 :=
  if dstIp &&& net.ipMask = net.ipAddr &&& net.ipMask then dstIp else net.ipGw

/-- The string in `ip_text` after `format_ip`. -/
def ipText (stack : Nat → UInt8) (ip : UInt32) : Option (List UInt8) := do
  let out ← formatIp ip stack 20
  stringFrom 20 out 21 0

def countArg (n : Nat) : Arg := .word (UInt32.ofNat n).toUInt64

def PingLoop.next (w : PingLoop) : PingLoop := { w with seq := w.seq + 1 }

/-- The next step of `net_ping`. `rtl_poll_rx` is the frames that arrive before the test of the wait record. -/
def netPing (stack : Nat → UInt8) (s : Ping) : Option Ping :=
  match s.point with
  | .resolve nextHop point => do
      let r ← netResolveArp nextHop (hz * 2) { point, net := s.net }
      match r.point with
      | .returned mac => return { s with point := .resolved nextHop mac, net := r.net }
      | point => return { s with point := .resolve nextHop point, net := r.net }
  | .resolved nextHop none => do
      let text ← ipText stack nextHop
      let console ← consolePrintf stack s.console (ascii "ping: ARP resolve failed for next-hop %s\n") [.text (some text)]
      return { s with point := .returned (-1), console }
  | .resolved _ (some mac) => do
      let text ← ipText stack s.dstIp
      let console ← consolePrintf stack s.console (ascii "PING %s from net0:\n") [.text (some text)]
      let identifier := ((s.net.uptimeTicks &&& 0xFFFF) ^^^ 0x4D47).toUInt16
      return { s with point := .loop { dstMac := mac, identifier, seq := 0, received := 0 }, console }
  | .loop w =>
      if w.seq < s.count then
        let pingWait :=
          { active := true, identifier := w.identifier, sequence := UInt16.ofNat (w.seq + 1), targetIp := s.dstIp }
        some { s with point := .send w (schedulerUptimeMs s.net) s.net.uptimeTicks, net := { s.net with pingWait } }
      else do
        let text ← ipText stack s.dstIp
        let console ← consolePrintf stack s.console (ascii "--- %s ping statistics ---\n") [.text (some text)]
        let loss := (s.count - w.received) * 100 % wordSize / s.count
        let console ← consolePrintf stack console (ascii "%u packets transmitted, %u received, %u%% packet loss\n")
          [countArg s.count, countArg w.received, countArg loss]
        return { s with point := .returned (if 0 < w.received then 0 else -1), console }
  | .send w startMs startTicks => do
      let (status, net) ← ipSendIcmpEcho s.net s.dstIp w.dstMac w.identifier (UInt16.ofNat (w.seq + 1))
      if status ≠ 0 then do
        let console ← consolePrintf stack s.console (ascii "icmp_seq=%u send failed\n") [countArg (w.seq + 1)]
        return { s with point := .loop w.next, net := { net with pingWait := { net.pingWait with active := false } }, console }
      else return { s with point := .head w startMs startTicks, net }
  | .head w startMs startTicks =>
      if s.net.uptimeTicks - startTicks < hz then some { s with point := .poll w startMs startTicks }
      else do
        let console ← consolePrintf stack s.console (ascii "icmp_seq=%u timeout\n") [countArg (w.seq + 1)]
        return { s with
          point := .loop w.next, net := { s.net with pingWait := { s.net.pingWait with active := false } }, console }
  | .poll w startMs startTicks =>
      if s.net.pingWait.received then do
        let text ← ipText stack s.dstIp
        let rtt := schedulerUptimeMs s.net - startMs
        let console ← consolePrintf stack s.console (ascii "64 bytes from %s: icmp_seq=%u ttl=%u time=%u ms\n")
          [.text (some text), countArg (w.seq + 1), countArg s.net.pingWait.replyTtl.toNat, countArg rtt.toNat]
        -- `received` is an `int`
        if w.received + 1 < 2 ^ 31 then
          return { s with
            point := .loop { w.next with received := w.received + 1 },
            net := { s.net with pingWait := { s.net.pingWait with active := false } }, console }
        else none
      else some { s with point := .head w startMs startTicks }
  | .returned _ => none

def pingEvent (stack : Nat → UInt8) (s : Ping) (event : AcquireEvent) : Option Ping :=
  match s.point, event with
  | .returned _, _ => none
  | _, .step => netPing stack s
  | _, .tick => some { s with net := { s.net with uptimeTicks := s.net.uptimeTicks + 1 } }
  | _, .frame bytes => (receiveFrame s.net bytes).map fun net => { s with net := net }

/-! ## The lines -/

def addressText (ip : UInt32) : List UInt8 :=
  quadText ((ip >>> 24) &&& 0xFF).toUInt8 ((ip >>> 16) &&& 0xFF).toUInt8 ((ip >>> 8) &&& 0xFF).toUInt8 (ip &&& 0xFF).toUInt8

/-- `%u` of a number that was converted to `unsigned`. -/
def countText (n : Nat) : List UInt8 := decimalText (n % 2 ^ 32)

/-- How one request ended. -/
inductive EchoOutcome
  | reply (ttl : UInt8) (ms : UInt64)
  | timeout

def EchoOutcome.isReply : EchoOutcome → Bool
  | .reply _ _ => true
  | .timeout => false

/-- One turn of the loop; `begun` is the time before the request goes out. -/
structure Round where
  begun : UInt64
  ended : UInt64
  outcome : EchoOutcome

def EchoOutcome.line (dstIp : UInt32) (i : Nat) : EchoOutcome → List UInt8
  | .reply ttl ms => ascii "64 bytes from " ++ (addressText dstIp ++ (ascii ": icmp_seq=" ++ (countText (i + 1) ++
      (ascii " ttl=" ++ (countText ttl.toNat ++ (ascii " time=" ++ (countText ms.toNat ++ ascii " ms\n")))))))
  | .timeout => ascii "icmp_seq=" ++ (countText (i + 1) ++ ascii " timeout\n")

def sessionText (dstIp : UInt32) (rounds : List Round) : List UInt8 :=
  ascii "PING " ++ (addressText dstIp ++ ascii " from net0:\n") ++ (rounds.mapIdx fun i r => r.outcome.line dstIp i).flatten

def statisticsText (dstIp : UInt32) (count received loss : Nat) : List UInt8 :=
  (ascii "--- " ++ (addressText dstIp ++ ascii " ping statistics ---\n")) ++
    (countText count ++ (ascii " packets transmitted, " ++ (countText received ++ (ascii " received, " ++
      (countText loss ++ (char '%' :: ascii " packet loss\n"))))))

theorem addressText_spec (ip : UInt32) : 0 ∉ addressText ip ∧ (addressText ip).length ≤ 15 :=
  ⟨(quadText_groups _ _ _ _).plain, quadText_length _ _ _ _⟩

theorem ipText_eq (stack : Nat → UInt8) (ip : UInt32) : ipText stack ip = some (addressText ip) := by
  obtain ⟨plain, short⟩ := addressText_spec ip
  rw [ipText, formatIp, kvsnprintf_eq stack (by decide) (rendering_quad _ _ _ _)]
  exact stringFrom_eq (stringAt_zero.mpr (storeText_holds stack plain (by omega))) (show 0 + _ < 20 by omega)
    (Nat.lt_of_le_of_lt short (by decide))

theorem countText_spec (n : Nat) : 0 ∉ countText n ∧ (countText n).length ≤ 10 := by
  refine ⟨fun member => absurd ((decimalText_decimal _).2 0 member) (by decide), ?_⟩
  exact (decimalText_length _ (by decide)).mpr (Nat.lt_trans (Nat.mod_lt n (by decide)) (by decide))

/-- `text` is what the format says, and `console_printf` can print it. -/
structure Prints (fmt : List UInt8) (args : List Arg) (text : List UInt8) : Prop where
  renders : rendering fmt args = some text
  plain : 0 ∉ text
  short : text.length < printfBufferSize

theorem Prints.printed {fmt : List UInt8} {args : List Arg} {text : List UInt8} (prints : Prints fmt args text)
    (stack : Nat → UInt8) (c : Console) : consolePrintf stack c fmt args = some (consoleWriteN c text) :=
  consolePrintf_eq stack c prints.renders prints.plain prints.short

theorem word_count (n : Nat) : unsignedText (UInt32.ofNat n).toUInt64 10 false = countText n := by
  rw [unsignedText, UInt32.toNat_toUInt64, UInt32.toNat_ofNat']
  rfl

theorem digit_marks (n : Nat) : 0 ∉ countText n := (countText_spec n).1

theorem prints_heading (ip : UInt32) : Prints (ascii "PING %s from net0:\n") [.text (some (addressText ip))]
    (ascii "PING " ++ (addressText ip ++ ascii " from net0:\n")) := by
  obtain ⟨plain, short⟩ := addressText_spec ip
  refine ⟨rfl, ?_, ?_⟩
  · have texts : 0 ∉ ascii "PING " ∧ 0 ∉ ascii " from net0:\n" := by decide
    simp [plain, texts]
  · have sizes : (ascii "PING ").length = 5 ∧ (ascii " from net0:\n").length = 12 := by decide
    simp only [List.length_append, sizes, printfBufferSize]
    omega

theorem prints_reply (ip : UInt32) (i : Nat) (ttl : UInt8) (ms : UInt64) :
    Prints (ascii "64 bytes from %s: icmp_seq=%u ttl=%u time=%u ms\n")
      [.text (some (addressText ip)), countArg (i + 1), countArg ttl.toNat, countArg ms.toNat]
      ((EchoOutcome.reply ttl ms).line ip i) := by
  obtain ⟨plain, short⟩ := addressText_spec ip
  refine ⟨?_, ?_, ?_⟩
  · simp only [EchoOutcome.line, ← word_count]
    rfl
  · have texts : 0 ∉ ascii "64 bytes from " ∧ 0 ∉ ascii ": icmp_seq=" ∧ 0 ∉ ascii " ttl=" ∧ 0 ∉ ascii " time=" ∧
        0 ∉ ascii " ms\n" := by decide
    simp [EchoOutcome.line, plain, texts, digit_marks]
  · have sizes : (ascii "64 bytes from ").length = 14 ∧ (ascii ": icmp_seq=").length = 11 ∧ (ascii " ttl=").length = 5 ∧
        (ascii " time=").length = 6 ∧ (ascii " ms\n").length = 4 := by decide
    have seq := (countText_spec (i + 1)).2
    have hops := (countText_spec ttl.toNat).2
    have time := (countText_spec ms.toNat).2
    simp only [EchoOutcome.line, List.length_append, sizes, printfBufferSize]
    omega

theorem prints_timeout (ip : UInt32) (i : Nat) :
    Prints (ascii "icmp_seq=%u timeout\n") [countArg (i + 1)] (EchoOutcome.timeout.line ip i) := by
  refine ⟨?_, ?_, ?_⟩
  · simp only [EchoOutcome.line, ← word_count]
    rfl
  · have texts : 0 ∉ ascii "icmp_seq=" ∧ 0 ∉ ascii " timeout\n" := by decide
    simp [EchoOutcome.line, texts, digit_marks]
  · have sizes : (ascii "icmp_seq=").length = 9 ∧ (ascii " timeout\n").length = 9 := by decide
    have seq := (countText_spec (i + 1)).2
    simp only [EchoOutcome.line, List.length_append, sizes, printfBufferSize]
    omega

theorem prints_statistics (ip : UInt32) (count received loss : Nat) :
    ∃ first last, statisticsText ip count received loss = first ++ last ∧
      Prints (ascii "--- %s ping statistics ---\n") [.text (some (addressText ip))] first ∧
      Prints (ascii "%u packets transmitted, %u received, %u%% packet loss\n")
        [countArg count, countArg received, countArg loss] last := by
  obtain ⟨plain, short⟩ := addressText_spec ip
  refine ⟨_, _, rfl, ⟨rfl, ?_, ?_⟩, ⟨?_, ?_, ?_⟩⟩
  · have texts : 0 ∉ ascii "--- " ∧ 0 ∉ ascii " ping statistics ---\n" := by decide
    simp [plain, texts]
  · have sizes : (ascii "--- ").length = 4 ∧ (ascii " ping statistics ---\n").length = 21 := by decide
    simp only [List.length_append, sizes, printfBufferSize]
    omega
  · simp only [← word_count]
    rfl
  · have texts : 0 ∉ ascii " packets transmitted, " ∧ 0 ∉ ascii " received, " ∧ 0 ∉ ascii " packet loss\n" ∧ 0 ≠ char '%' := by
      decide
    simp [texts, digit_marks]
  · have sizes : (ascii " packets transmitted, ").length = 22 ∧ (ascii " received, ").length = 11 ∧
        (ascii " packet loss\n").length = 13 := by decide
    have sent := (countText_spec count).2
    have heard := (countText_spec received).2
    have lost := (countText_spec loss).2
    simp only [List.length_append, List.length_cons, sizes, printfBufferSize]
    omega

def unresolvedText (ip : UInt32) : List UInt8 :=
  ascii "ping: ARP resolve failed for next-hop " ++ (addressText ip ++ ascii "\n")

theorem prints_unresolved (ip : UInt32) :
    Prints (ascii "ping: ARP resolve failed for next-hop %s\n") [.text (some (addressText ip))] (unresolvedText ip) := by
  obtain ⟨plain, short⟩ := addressText_spec ip
  refine ⟨rfl, ?_, ?_⟩
  · have texts : 0 ∉ ascii "ping: ARP resolve failed for next-hop " ∧ 0 ∉ ascii "\n" := by decide
    simp [unresolvedText, plain, texts]
  · have sizes : (ascii "ping: ARP resolve failed for next-hop ").length = 38 ∧ (ascii "\n").length = 1 := by decide
    simp only [unresolvedText, List.length_append, sizes, printfBufferSize]
    omega

/-! ## One exchange -/

/-- Nothing leaves but ARP packets. -/
def OnlyArp (log : Capture) : Prop := ∀ tick frame, (tick, .sent frame) ∈ log → (arpMessage frame).isSome

/-- The frame is a reply to the request number `i + 1` of the session. -/
def Answers (ip : UInt32) (identifier : UInt16) (i : Nat) (frame : List UInt8) : Prop :=
  ∃ r, echoReply frame = some r ∧ r.dstIp = ip ∧ r.identifier = identifier ∧ r.sequence = UInt16.ofNat (i + 1)

/-- The last reply to the request came in with this time to live. -/
def Replied (ip : UInt32) (identifier : UInt16) (i : Nat) (ttl : UInt8) (log : Capture) : Prop :=
  ∃ before tick frame after, log = before ++ (tick, .received frame) :: after ∧ Answers ip identifier i frame ∧
    frame[14 + 8]? = some ttl ∧ ∀ tick other, (tick, .received other) ∈ after → ¬Answers ip identifier i other

/-- What leaves is the request number `i + 1`, once, and ARP packets. -/
def Asked (first : Net) (dstIp : UInt32) (mac : Mac) (identifier : UInt16) (i : Nat) (log : Capture) : Prop :=
  ∃ request before tick after, icmpEchoFrame first dstIp mac identifier (UInt16.ofNat (i + 1)) = some request ∧
    log = before ++ (tick, .sent request) :: after ∧ OnlyArp before ∧ OnlyArp after

/-- The line about a request is true: its numbers are those of the reply and of the clock, and there is no timeout before a
full second. -/
def Round.Truthful (ip : UInt32) (identifier : UInt16) (i : Nat) (log : Capture) (round : Round) : Prop :=
  match round.outcome with
  | .reply ttl ms => Replied ip identifier i ttl log ∧ ms.toNat = 10 * (round.ended.toNat - round.begun.toNat)
  | .timeout => round.begun.toNat + 100 ≤ round.ended.toNat

/-- What the cable carries while the requests go out one after the other. -/
inductive Exchanges (first : Net) (dstIp : UInt32) (mac : Mac) (identifier : UInt16) : List Round → Capture → Prop
  | none : Exchanges first dstIp mac identifier [] []
  | more {rounds : List Round} {round : Round} {log gap current : Capture}
      (before : Exchanges first dstIp mac identifier rounds log) (silent : OnlyArp gap)
      (asked : Asked first dstIp mac identifier rounds.length current)
      (during : ∀ entry ∈ current, round.begun ≤ entry.1 ∧ entry.1 ≤ round.ended)
      (truthful : round.Truthful first.ipAddr identifier rounds.length current) :
      Exchanges first dstIp mac identifier (rounds ++ [round]) (log ++ (gap ++ current))

/-- The rounds come one after the other between two times. -/
structure InTurn (start now : UInt64) (rounds : List Round) : Prop where
  each : ∀ round ∈ rounds, start ≤ round.begun ∧ round.begun ≤ round.ended ∧ round.ended ≤ now
  order : rounds.Pairwise fun early late => early.ended ≤ late.begun

theorem OnlyArp.append {log next : Capture} (early : OnlyArp log) (late : OnlyArp next) : OnlyArp (log ++ next) := by
  intro tick frame member
  rcases List.mem_append.mp member with member | member
  · exact early tick frame member
  · exact late tick frame member

theorem OnlyArp.nil : OnlyArp [] := fun _ _ member => absurd member List.not_mem_nil

theorem Asked.append {first : Net} {dstIp : UInt32} {mac : Mac} {identifier : UInt16} {i : Nat} {log next : Capture}
    (asked : Asked first dstIp mac identifier i log) (silent : OnlyArp next) : Asked first dstIp mac identifier i (log ++ next) := by
  obtain ⟨request, before, tick, after, built, rfl, early, late⟩ := asked
  refine ⟨request, before, tick, after ++ next, built, ?_, early, late.append silent⟩
  rw [List.append_assoc, List.cons_append]

theorem Replied.append {ip : UInt32} {identifier : UInt16} {i : Nat} {ttl : UInt8} {log next : Capture}
    (replied : Replied ip identifier i ttl log)
    (other : ∀ tick frame, (tick, .received frame) ∈ next → ¬Answers ip identifier i frame) :
    Replied ip identifier i ttl (log ++ next) := by
  obtain ⟨before, tick, frame, after, rfl, answers, hops, last⟩ := replied
  refine ⟨before, tick, frame, after ++ next, by rw [List.append_assoc, List.cons_append], answers, hops, fun tick frame member => ?_⟩
  rcases List.mem_append.mp member with member | member
  · exact last tick frame member
  · exact other tick frame member

theorem InTurn.later {start now after : UInt64} {rounds : List Round} (inTurn : InTurn start now rounds) (on : now ≤ after) :
    InTurn start after rounds := by
  refine ⟨fun round member => ?_, inTurn.order⟩
  obtain ⟨began, ended, past⟩ := inTurn.each round member
  exact ⟨began, ended, UInt64.le_trans past on⟩

theorem InTurn.snoc {start now after : UInt64} {rounds : List Round} (inTurn : InTurn start now rounds) (since : start ≤ now)
    (on : now ≤ after) (outcome : EchoOutcome) : InTurn start after (rounds ++ [⟨now, after, outcome⟩]) := by
  refine ⟨fun round member => ?_, List.pairwise_append.mpr ⟨inTurn.order, List.pairwise_singleton _ _, fun early old late new => ?_⟩⟩
  · rcases List.mem_append.mp member with old | new
    · exact (inTurn.later on).each round old
    · rw [List.mem_singleton.mp new]
      exact ⟨since, on, UInt64.le_refl _⟩
  · rw [List.mem_singleton.mp new]
    exact (inTurn.each early old).2.2

/-- What frames and the steps of `net_ping` leave alone. -/
structure Kept (net after : Net) : Prop where
  ready : after.rtlReady = net.rtlReady
  ipAddr : after.ipAddr = net.ipAddr
  mac : after.mac = net.mac

/-- A frame comes in, and what leaves is an ARP packet. -/
theorem receiveFrame_capture {net after : Net} {bytes : List UInt8} (ready : net.rtlReady)
    (result : receiveFrame net bytes = some after) :
    Kept net after ∧ ∃ answers : List (List UInt8), after.wire = net.wire ++ .received bytes :: answers.map .sent ∧
      ∀ frame ∈ answers, (arpMessage frame).isSome := by
  have same := (receiveFrame_kept result).2
  rw [receiveFrame, if_neg (not_not.mpr ready)] at result
  have footprint := netProcessFrame_footprint result
  refine ⟨⟨same, footprint.ipAddr, footprint.mac⟩, ?_⟩
  rcases footprint.wire with quiet | ⟨p, reply, -, -, -, sent, decoded⟩
  · exact ⟨[], quiet, List.forall_mem_nil _⟩
  · refine ⟨[reply], by rw [sent, List.append_assoc]; rfl, fun frame member => ?_⟩
    rw [List.mem_singleton.mp member, decoded]
    rfl

/-- What the frame makes of the capture. -/
structure Heard (net after : Net) (bytes : List UInt8) : Prop where
  kept : Kept net after
  wire : ∃ next, after.wire = net.wire ++ next
  silent : OnlyArp (stamped net after)
  only : ∀ tick frame, (tick, .received frame) ∈ stamped net after → frame = bytes
  first : ∃ rest, stamped net after = (net.uptimeTicks, .received bytes) :: rest ∧
    ∀ tick frame, (tick, .received frame) ∉ rest

theorem receiveFrame_heard {net after : Net} {bytes : List UInt8} (ready : net.rtlReady)
    (result : receiveFrame net bytes = some after) : Heard net after bytes := by
  obtain ⟨kept, answers, wire, silent⟩ := receiveFrame_capture ready result
  have whole := stamped_eq wire
  have sent (tick : UInt64) (frame : List UInt8) :
      (tick, .received frame) ∉ (answers.map Wire.sent).map (Prod.mk net.uptimeTicks) := by
    simp
  refine ⟨kept, ⟨_, wire⟩, fun tick frame member => ?_, fun tick frame member => ?_, _, whole, sent⟩
  · rw [whole, List.map_cons, List.mem_cons] at member
    rcases member with same | member
    · cases same
    · have inside : frame ∈ answers ∧ net.uptimeTicks = tick := by simpa using member
      exact silent frame inside.1
  · rw [whole, List.map_cons, List.mem_cons] at member
    rcases member with same | member
    · cases same
      rfl
    · exact absurd member (sent tick frame)

/-- A frame that comes in opens and closes no wait. -/
theorem receiveFrame_active {net after : Net} {bytes : List UInt8} (result : receiveFrame net bytes = some after) :
    after.pingWait.active = net.pingWait.active := by
  rcases rejected_or result with rfl | ⟨_, result⟩
  · rfl
  rcases (netProcessFrame_footprint result).pingWait with same | ⟨-, received, ttl, ms, same⟩
  · rw [same]
  · rw [same]

/-- A frame is a reply to the request, and its time to live is kept, or it leaves the wait alone. -/
theorem receiveFrame_reply {net after : Net} {bytes : List UInt8} (ready : net.rtlReady) (active : net.pingWait.active)
    (result : receiveFrame net bytes = some after) :
    SameRequest net after ∧
      ((∃ r, echoReply bytes = some r ∧ r.Outstanding net) ∧ bytes[14 + 8]? = some after.pingWait.replyTtl ∨
        (∀ r, echoReply bytes = some r → ¬r.Outstanding net) ∧ after.pingWait = net.pingWait) := by
  rw [receiveFrame, if_neg (not_not.mpr ready)] at result
  let heard : Net := { net with wire := net.wire ++ [.received bytes] }
  obtain ⟨⟨ipAddr, kept, identifier, sequence⟩, -⟩ := @pingStep_spec heard after (.frame bytes) active result
  refine ⟨⟨ipAddr, kept, identifier, sequence⟩, ?_⟩
  cases answered : (PingEvent.frame bytes).answer heard with
  | some r =>
      obtain ⟨ttl, hops, received⟩ := @netProcessFrame_answered heard bytes r active answered
      cases result.symm.trans received
      exact Or.inl ⟨⟨r, answer_frame.mp answered⟩, hops⟩
  | none =>
      have same := @netProcessFrame_unanswered heard after bytes answered result
      refine Or.inr ⟨fun r decoded outstanding => ?_, same⟩
      have answer : (PingEvent.frame bytes).answer heard = some r := answer_frame.mpr ⟨decoded, outstanding⟩
      rw [answered] at answer
      cases answer

/-! ## The invariant -/

/-- The hardware address belongs to the next hop. -/
def Known (first : Ping) (mac : Mac) (resolving : Capture) : Prop :=
  (∃ j, arpMap first.net j = some (routeNextHop first.net first.dstIp, mac)) ∨
    Told resolving (routeNextHop first.net first.dstIp) mac

/-- The capture since the session began: the resolving of the next hop, the finished exchanges, what came after them, and
the exchange under way. -/
def Carried (first : Ping) (mac : Mac) (identifier : UInt16) (rounds : List Round) (gap current log : Capture) : Prop :=
  ∃ resolving exchanges, log = resolving ++ (exchanges ++ (gap ++ current)) ∧ OnlyArp resolving ∧
    Known first mac resolving ∧ Exchanges first.net first.dstIp mac identifier rounds exchanges ∧ OnlyArp gap

def replies (rounds : List Round) : Nat := rounds.countP (·.outcome.isReply)

def lost (rounds : List Round) : Nat := rounds.countP (!·.outcome.isReply)

/-- The wire holds what the capture says. -/
def Captures (first s : Ping) (log : Capture) : Prop := s.net.wire = first.net.wire ++ log.map Prod.snd

/-- `net_ping` is in its loop, `now` is when the round began. -/
structure Underway (first s : Ping) (log : Capture) (w : PingLoop) (rounds : List Round) (gap current : Capture) (now : UInt64) :
    Prop where
  dstIp : s.dstIp = first.dstIp
  count : s.count = first.count
  kept : Kept first.net s.net
  wire : Captures first s log
  carried : Carried first w.dstMac w.identifier rounds gap current log
  seq : w.seq = rounds.length
  within : rounds.length ≤ first.count
  received : w.received = replies rounds
  shown : s.console = consoleWriteN first.console (sessionText first.dstIp rounds)
  inTurn : InTurn first.net.uptimeTicks now rounds
  since : first.net.uptimeTicks ≤ now
  begun : now ≤ s.net.uptimeTicks
  during : ∀ entry ∈ current, now ≤ entry.1 ∧ entry.1 ≤ s.net.uptimeTicks

structure Awaiting (first : Net) (net : Net) (w : PingLoop) (current : Capture) : Prop where
  active : net.pingWait.active
  identifier : net.pingWait.identifier = w.identifier
  sequence : net.pingWait.sequence = UInt16.ofNat (w.seq + 1)
  heard : net.pingWait.received → Replied first.ipAddr w.identifier w.seq net.pingWait.replyTtl current

/-- How the session ends. -/
inductive SessionEnd (first s : Ping) (log : Capture) : Int → Prop
  | done {status : Int} {mac : Mac} {identifier : UInt16} {rounds : List Round} {gap : Capture} (wire : Captures first s log)
      (carried : Carried first mac identifier rounds gap [] log) (all : rounds.length = first.count)
      (inTurn : InTurn first.net.uptimeTicks s.net.uptimeTicks rounds)
      (status_eq : status = if rounds.any (·.outcome.isReply) then 0 else -1)
      (shown : s.console = consoleWriteN first.console (sessionText first.dstIp rounds ++
        statisticsText first.dstIp first.count (replies rounds) (lost rounds * 100 / first.count)))
      (closed : s.net.pingWait.active = false) : SessionEnd first s log status
  | unresolved (wire : Captures first s log) (silent : OnlyArp log)
      (expired : first.net.uptimeTicks.toNat + 200 ≤ s.net.uptimeTicks.toNat)
      (shown : s.console = consoleWriteN first.console (unresolvedText (routeNextHop first.net first.dstIp))) :
      SessionEnd first s log (-1)

/-- Before the loop nothing is printed. -/
structure Starting (first s : Ping) (nextHop : UInt32) : Prop where
  dstIp : s.dstIp = first.dstIp
  count : s.count = first.count
  console : s.console = first.console
  kept : Kept first.net s.net
  hop : nextHop = routeNextHop first.net first.dstIp

def SessionInv (first s : Ping) (log : Capture) : Prop :=
  match s.point with
  | .resolve nextHop point => Starting first s nextHop ∧ (∀ mac, point ≠ .returned mac) ∧
      ResolveInv nextHop (hz * 2) first.net { point, net := s.net } log ∧ OnlyArp log
  | .resolved nextHop mac => Starting first s nextHop ∧ first.net.uptimeTicks ≤ s.net.uptimeTicks ∧
      Captures first s log ∧ OnlyArp log ∧ (∀ m, mac = some m → Known first m log) ∧
      (mac = none → first.net.uptimeTicks.toNat + 200 ≤ s.net.uptimeTicks.toNat)
  | .loop w => ∃ rounds gap, Underway first s log w rounds gap [] s.net.uptimeTicks ∧
      (rounds ≠ [] → s.net.pingWait.active = false)
  | .send w ms start => ∃ rounds gap current, Underway first s log w rounds gap current start ∧ rounds.length < first.count ∧
      Awaiting first.net s.net w current ∧ ms = start * 1000 / hz ∧ OnlyArp current
  | .head w ms start | .poll w ms start => ∃ rounds gap current, Underway first s log w rounds gap current start ∧
      rounds.length < first.count ∧ Awaiting first.net s.net w current ∧ ms = start * 1000 / hz ∧
      Asked first.net first.dstIp w.dstMac w.identifier w.seq current
  | .returned status => SessionEnd first s log status

section
variable {first s : Ping} {log : Capture} {w : PingLoop} {rounds : List Round} {gap current next : Capture} {now : UInt64}

theorem Kept.trans {net after later : Net} (one : Kept net after) (two : Kept after later) : Kept net later :=
  ⟨two.ready.trans one.ready, two.ipAddr.trans one.ipAddr, two.mac.trans one.mac⟩

theorem Carried.onGap {mac : Mac} {identifier : UInt16} (carried : Carried first mac identifier rounds gap [] log)
    (silent : OnlyArp next) : Carried first mac identifier rounds (gap ++ next) [] (log ++ next) := by
  obtain ⟨resolving, exchanges, rfl, quiet, known, done, still⟩ := carried
  exact ⟨resolving, exchanges, by simp, quiet, known, done, still.append silent⟩

theorem Carried.onCurrent {mac : Mac} {identifier : UInt16} (carried : Carried first mac identifier rounds gap current log) :
    Carried first mac identifier rounds gap (current ++ next) (log ++ next) := by
  obtain ⟨resolving, exchanges, rfl, quiet, known, done, still⟩ := carried
  exact ⟨resolving, exchanges, by simp, quiet, known, done, still⟩

/-- The exchange under way ends. -/
theorem Carried.close {mac : Mac} {identifier : UInt16} {round : Round}
    (carried : Carried first mac identifier rounds gap current log)
    (asked : Asked first.net first.dstIp mac identifier rounds.length current)
    (during : ∀ entry ∈ current, round.begun ≤ entry.1 ∧ entry.1 ≤ round.ended)
    (truthful : round.Truthful first.net.ipAddr identifier rounds.length current) :
    Carried first mac identifier (rounds ++ [round]) [] [] log := by
  obtain ⟨resolving, exchanges, rfl, quiet, known, done, still⟩ := carried
  exact ⟨resolving, exchanges ++ (gap ++ current), by simp, quiet, known, .more done still asked during truthful, .nil⟩

theorem Captures.append {t : Ping} {more : List Wire} (captures : Captures first s log) (wire : t.net.wire = s.net.wire ++ more) :
    Captures first t (log ++ stamped s.net t.net) := by
  rw [Captures, wire, captures, List.map_append, stamped_wire wire, List.append_assoc]

theorem sessionText_snoc (dstIp : UInt32) (rounds : List Round) (round : Round) :
    sessionText dstIp (rounds ++ [round]) = sessionText dstIp rounds ++ round.outcome.line dstIp rounds.length := by
  simp [sessionText, List.mapIdx_append]

theorem replies_add_lost (rounds : List Round) : replies rounds + lost rounds = rounds.length := by
  rw [replies, lost, List.length_eq_countP_add_countP (·.outcome.isReply)]
  simp

theorem icmpEchoFrame_length {net : Net} {dstIp : UInt32} {mac : Mac} {identifier sequence : UInt16} {frame : List UInt8}
    (built : icmpEchoFrame net dstIp mac identifier sequence = some frame) : frame.length = 66 := by
  obtain ⟨checksum, -, built⟩ := Option.bind_eq_some_iff.mp built
  obtain ⟨echoChecksum, -, built⟩ := Option.bind_eq_some_iff.mp built
  cases built
  simp only [List.length_append, ipHeader_length, be16Store_length, List.Vector.toList_length, icmpEcho, List.length_map,
    List.length_range', List.length_cons, List.length_nil]

/-- The adapter is up, so a request goes out, and as it is: it needs no padding. -/
theorem ipSendIcmpEcho_sends {net after : Net} (kept : Kept net after) (ready : net.rtlReady) (dstIp : UInt32) (mac : Mac)
    (identifier sequence : UInt16) :
    ∃ request, icmpEchoFrame net dstIp mac identifier sequence = some request ∧
      ipSendIcmpEcho after dstIp mac identifier sequence = some (0, { after with
        txIndex := (after.txIndex + 1) % txDescCount
        txFrames := after.txFrames + 1
        wire := after.wire ++ [.sent request] }) := by
  obtain ⟨request, built, -⟩ := icmpEchoFrame_verifies net dstIp mac identifier sequence
  have size := icmpEchoFrame_length built
  have same : icmpEchoFrame after dstIp mac identifier sequence = some request := by
    rw [← built, icmpEchoFrame, icmpEchoFrame, kept.ipAddr, kept.mac]
  have up : after.rtlReady := kept.ready.trans ready
  refine ⟨request, built, ?_⟩
  rw [ipSendIcmpEcho, same, Option.bind_eq_bind, Option.bind_some, rtlSendRawFrame, size, if_neg (by simp [up, txBufferSize])]
  simp

/-! ## Steps -/

theorem consoleWriteN_append (c : Console) (early late : List UInt8) :
    consoleWriteN (consoleWriteN c early) late = consoleWriteN c (early ++ late) := by
  simp [consoleWriteN]

/-- A step that leaves the cable alone. -/
theorem SessionInv.quiet {t : Ping} (wire : t.net.wire = s.net.wire) (inv : SessionInv first t log) :
    SessionInv first t (log ++ stamped s.net t.net) := by
  rw [stamped_same wire, List.append_nil]
  exact inv

/-- A round ends with an outcome. -/
theorem Underway.finish {outcome : EchoOutcome} {after : PingLoop} (u : Underway first s log w rounds gap current now)
    (more : rounds.length < first.count) (asked : Asked first.net first.dstIp w.dstMac w.identifier w.seq current)
    (truthful : (Round.mk now s.net.uptimeTicks outcome).Truthful first.net.ipAddr w.identifier w.seq current)
    (next : after = { w with seq := w.seq + 1, received := w.received + if outcome.isReply then 1 else 0 }) :
    SessionInv first { s with
      point := .loop after
      net := { s.net with pingWait := { s.net.pingWait with active := false } }
      console := consoleWriteN s.console (outcome.line first.dstIp w.seq) } log := by
  rw [u.seq] at asked truthful
  refine ⟨rounds ++ [⟨now, s.net.uptimeTicks, outcome⟩], [], ⟨u.dstIp, u.count, ⟨u.kept.ready, u.kept.ipAddr, u.kept.mac⟩, u.wire,
    ?_, ?_, ?_, ?_, ?_, u.inTurn.snoc u.since u.begun outcome, UInt64.le_trans u.since u.begun, UInt64.le_refl _,
    List.forall_mem_nil _⟩, fun _ => rfl⟩
  · rw [next]
    exact u.carried.close asked u.during truthful
  · rw [next, List.length_append, ← u.seq]
    rfl
  · rw [List.length_append, List.length_singleton]
    exact more
  · rw [next, replies, List.countP_append, u.received]
    simp [replies, List.countP_cons]
  · rw [sessionText_snoc, ← consoleWriteN_append, ← u.shown, ← u.seq]

/-- The clock in milliseconds does not wrap before the next ARP request is due. -/
def PingClock (s : Ping) (_ : AcquireEvent) : Prop := s.net.uptimeTicks.toNat + 51 < 2 ^ 64 / 1000

instance (s : Ping) (event : AcquireEvent) : Decidable (PingClock s event) := inferInstanceAs (Decidable (_ < _))

theorem PingClock.room {event : AcquireEvent} (fits : PingClock s event) :
    s.net.uptimeTicks.toNat + 51 < 2 ^ 64 ∧ s.net.uptimeTicks.toNat * 1000 < 2 ^ 64 := by
  unfold PingClock at fits
  omega

/-- The milliseconds between two ticks. -/
theorem uptimeMs_sub {start now : UInt64} (begun : start ≤ now) (fits : now.toNat * 1000 < 2 ^ 64) :
    (now * 1000 / hz - start * 1000 / hz).toNat = 10 * (now.toNat - start.toNat) := by
  have order := UInt64.le_iff_toNat_le.mp begun
  have ms (tick : UInt64) (small : tick.toNat * 1000 < 2 ^ 64) : (tick * 1000 / hz).toNat = 10 * tick.toNat := by
    rw [UInt64.toNat_div, UInt64.toNat_mul, show (1000 : UInt64).toNat = 1000 from rfl, show hz.toNat = 100 from rfl,
      Nat.mod_eq_of_lt small]
    omega
  have last := ms now fits
  have first := ms start (Nat.lt_of_le_of_lt (Nat.mul_le_mul_right 1000 order) fits)
  rw [UInt64.toNat_sub_of_le _ _ (UInt64.le_iff_toNat_le.mpr (by omega)), last, first]
  omega

theorem poll_step (stack : Nat → UInt8) {startMs : UInt64} (here : s.point = .poll w startMs now) (inv : SessionInv first s log)
    (small : first.count < 2 ^ 31) (fits : PingClock s .step) :
    ∃ t, netPing stack s = some t ∧ SessionInv first t (log ++ stamped s.net t.net) := by
  have open' := inv
  unfold SessionInv at open'
  rw [here] at open'
  obtain ⟨rounds, gap, current, u, more, wait, ms, asked⟩ := open'
  unfold netPing
  rw [here]
  dsimp only
  by_cases received : s.net.pingWait.received
  · have bound : w.received + 1 < 2 ^ 31 := by
      have := replies_add_lost rounds
      have := u.received
      omega
    rw [if_pos received, ipText_eq, Option.bind_eq_bind, Option.bind_some,
      (prints_reply s.dstIp w.seq s.net.pingWait.replyTtl (schedulerUptimeMs s.net - startMs)).printed stack,
      Option.bind_eq_bind, Option.bind_some, if_pos bound]
    refine ⟨_, rfl, .quiet rfl ?_⟩
    have truthful : (Round.mk now s.net.uptimeTicks (.reply s.net.pingWait.replyTtl (schedulerUptimeMs s.net - startMs))).Truthful
        first.net.ipAddr w.identifier w.seq current := by
      refine ⟨wait.heard received, ?_⟩
      rw [ms]
      exact uptimeMs_sub u.begun fits.room.2
    have finished := u.finish more asked truthful rfl
    rw [← u.dstIp] at finished
    exact finished
  · rw [if_neg received]
    exact ⟨_, rfl, .quiet rfl ⟨rounds, gap, current, ⟨u.dstIp, u.count, u.kept, u.wire, u.carried, u.seq, u.within, u.received,
      u.shown, u.inTurn, u.since, u.begun, u.during⟩, more, wait, ms, asked⟩⟩

theorem head_step (stack : Nat → UInt8) {startMs : UInt64} (here : s.point = .head w startMs now) (inv : SessionInv first s log) :
    ∃ t, netPing stack s = some t ∧ SessionInv first t (log ++ stamped s.net t.net) := by
  have open' := inv
  unfold SessionInv at open'
  rw [here] at open'
  obtain ⟨rounds, gap, current, u, more, wait, ms, asked⟩ := open'
  unfold netPing
  rw [here]
  dsimp only
  by_cases early : s.net.uptimeTicks - now < hz
  · rw [if_pos early]
    exact ⟨_, rfl, .quiet rfl ⟨rounds, gap, current, ⟨u.dstIp, u.count, u.kept, u.wire, u.carried, u.seq, u.within, u.received,
      u.shown, u.inTurn, u.since, u.begun, u.during⟩, more, wait, ms, asked⟩⟩
  · rw [if_neg early, (prints_timeout first.dstIp w.seq).printed stack, Option.bind_eq_bind, Option.bind_some]
    refine ⟨_, rfl, .quiet rfl ?_⟩
    have late : now.toNat + 100 ≤ s.net.uptimeTicks.toNat := by
      have passed := UInt64.le_iff_toNat_le.mp (UInt64.not_lt.mp early)
      rw [UInt64.toNat_sub_of_le _ _ u.begun] at passed
      have begun := UInt64.le_iff_toNat_le.mp u.begun
      have second : hz.toNat = 100 := rfl
      omega
    have truthful : Round.Truthful first.net.ipAddr w.identifier w.seq current ⟨now, s.net.uptimeTicks, .timeout⟩ := late
    exact u.finish more asked truthful rfl

theorem send_step (stack : Nat → UInt8) {startMs : UInt64} (here : s.point = .send w startMs now) (inv : SessionInv first s log)
    (ready : first.net.rtlReady) : ∃ t, netPing stack s = some t ∧ SessionInv first t (log ++ stamped s.net t.net) := by
  have open' := inv
  unfold SessionInv at open'
  rw [here] at open'
  obtain ⟨rounds, gap, current, u, more, wait, ms, silent⟩ := open'
  obtain ⟨request, built, sends⟩ := ipSendIcmpEcho_sends u.kept ready first.dstIp w.dstMac w.identifier (UInt16.ofNat (w.seq + 1))
  unfold netPing
  rw [here]
  dsimp only
  rw [u.dstIp, sends, Option.bind_eq_bind, Option.bind_some]
  refine ⟨_, rfl, ?_⟩
  dsimp only
  rw [stamped_eq rfl]
  refine ⟨rounds, gap, current ++ [(s.net.uptimeTicks, .sent request)], ⟨rfl, u.count, ⟨u.kept.ready, u.kept.ipAddr, u.kept.mac⟩, ?_,
    u.carried.onCurrent, u.seq, u.within, u.received, u.shown, u.inTurn, u.since, u.begun, fun entry member => ?_⟩, more,
    ⟨wait.active, wait.identifier, wait.sequence, fun heard => (wait.heard heard).append fun _ _ member => ?_⟩, ms, ?_⟩
  · rw [Captures, u.wire, List.map_append, List.append_assoc]
    rfl
  · rcases List.mem_append.mp member with old | new
    · exact u.during entry old
    · rw [List.mem_singleton.mp new]
      exact ⟨u.begun, UInt64.le_refl _⟩
  · simp at member
  · exact ⟨request, current, _, [], built, rfl, silent, .nil⟩

theorem loop_step (stack : Nat → UInt8) (here : s.point = .loop w) (inv : SessionInv first s log) (positive : 0 < first.count)
    (small : first.count < 2 ^ 31) : ∃ t, netPing stack s = some t ∧ SessionInv first t (log ++ stamped s.net t.net) := by
  have open' := inv
  unfold SessionInv at open'
  rw [here] at open'
  obtain ⟨rounds, gap, u, closed⟩ := open'
  unfold netPing
  rw [here]
  dsimp only
  by_cases more : w.seq < s.count
  · rw [if_pos more]
    rw [u.seq, u.count] at more
    refine ⟨_, rfl, .quiet rfl ⟨rounds, gap, [], ⟨u.dstIp, u.count, ⟨u.kept.ready, u.kept.ipAddr, u.kept.mac⟩, u.wire, u.carried,
      u.seq, u.within, u.received, u.shown, u.inTurn, u.since, UInt64.le_refl _, List.forall_mem_nil _⟩, more,
      ⟨rfl, rfl, rfl, fun heard => ?_⟩, rfl, .nil⟩⟩
    cases heard
  · rw [if_neg more, ipText_eq, Option.bind_eq_bind, Option.bind_some]
    obtain ⟨early, late, whole, one, two⟩ :=
      prints_statistics s.dstIp s.count w.received ((s.count - w.received) * 100 % wordSize / s.count)
    rw [one.printed stack, Option.bind_eq_bind, Option.bind_some, two.printed stack, Option.bind_some]
    have all : rounds.length = first.count := by
      rw [u.seq, u.count] at more
      exact Nat.le_antisymm u.within (Nat.not_lt.mp more)
    have total := replies_add_lost rounds
    have missing : (s.count - w.received) * 100 % wordSize = lost rounds * 100 := by
      rw [u.count, u.received, show first.count - replies rounds = lost rounds by omega]
      exact Nat.mod_eq_of_lt (show lost rounds * 100 < 2 ^ 64 by omega)
    refine ⟨_, rfl, .quiet rfl (.done u.wire u.carried all u.inTurn ?_ ?_ (closed ?_))⟩
    · rw [u.received]
      simp [replies, List.countP_pos_iff]
    · rw [consoleWriteN_append, ← whole, missing, u.shown, consoleWriteN_append, u.dstIp, u.count, u.received]
    · rintro rfl
      rw [← all] at positive
      cases positive

theorem netResolveArp_wire {targetIp : UInt32} {timeoutTicks : UInt64} {r r' : Resolve}
    (steps : netResolveArp targetIp timeoutTicks r = some r') : Kept r.net r'.net ∧ OnlyArp (stamped r.net r'.net) := by
  have same {net : Net} (kept : net = r.net) : Kept r.net net ∧ OnlyArp (stamped r.net net) := by
    rw [kept, stamped_same rfl]
    exact ⟨⟨rfl, rfl, rfl⟩, .nil⟩
  unfold netResolveArp at steps
  cases here : r.point with
  | entry start | test start nextProbe =>
      rw [here] at steps
      dsimp only at steps
      split at steps
      · cases steps
        exact same rfl
      · cases steps
        exact same rfl
  | head start nextProbe =>
      rw [here] at steps
      dsimp only at steps
      split_ifs at steps
      · cases steps
        exact same rfl
      · cases steps
        exact same rfl
  | probe start nextProbe =>
      rw [here] at steps
      dsimp only at steps
      split_ifs at steps
      · cases steps
        dsimp only
        rw [arpSendRequest]
        rcases rtlSendRawFrame_cases r.net (arpFrame broadcastMac r.net.mac zeroMac arpOperRequest r.net.ipAddr targetIp)
          with failed | sent
        · rw [failed]
          exact same rfl
        · rw [sent]
          refine ⟨⟨rfl, rfl, rfl⟩, fun tick frame member => ?_⟩
          rw [stamped_eq rfl, List.map_singleton, List.mem_singleton, Prod.mk.injEq, Wire.sent.injEq] at member
          rw [member.2, arpFrame_length, arpMessage_arpFrame]
          rfl
      · cases steps
        exact same rfl
  | returned mac =>
      rw [here] at steps
      cases steps

theorem netResolveArp_isSome {targetIp : UInt32} {timeoutTicks : UInt64} {r : Resolve} (running : ∀ mac, r.point ≠ .returned mac) :
    ∃ r', netResolveArp targetIp timeoutTicks r = some r' := by
  obtain ⟨p, net⟩ := r
  unfold netResolveArp
  cases p with
  | returned mac => exact absurd rfl (running mac)
  | entry start | test start nextProbe =>
      dsimp only
      split
      · exact ⟨_, rfl⟩
      · exact ⟨_, rfl⟩
  | head start nextProbe | probe start nextProbe =>
      dsimp only
      split_ifs
      · exact ⟨_, rfl⟩
      · exact ⟨_, rfl⟩

theorem resolve_step (stack : Nat → UInt8) {nextHop : UInt32} {p : ResolvePoint} (here : s.point = .resolve nextHop p)
    (inv : SessionInv first s log) (fits : s.net.uptimeTicks.toNat + 51 < 2 ^ 64) :
    ∃ t, netPing stack s = some t ∧ SessionInv first t (log ++ stamped s.net t.net) := by
  obtain ⟨dstIp, count, point, net, console⟩ := s
  cases here
  obtain ⟨starting, running, resolving, silent⟩ := inv
  obtain ⟨⟨point, after⟩, steps⟩ := @netResolveArp_isSome nextHop (hz * 2) { point := p, net := net } running
  obtain ⟨same, quiet⟩ := netResolveArp_wire steps
  have onward := resolveInv_step resolving fits steps
  have still : Starting first { dstIp, count, point := .resolve nextHop p, net := after, console } nextHop :=
    ⟨starting.dstIp, starting.count, starting.console, starting.kept.trans same, starting.hop⟩
  by_cases returned : ∃ mac, point = .returned mac
  · obtain ⟨mac, rfl⟩ := returned
    refine ⟨{ dstIp, count, point := .resolved nextHop mac, net := after, console }, ?_, ⟨still.dstIp, still.count, still.console,
      still.kept, still.hop⟩, onward.elapsed, onward.later.wire, silent.append quiet, ?_, ?_⟩
    · simp [netPing, steps]
    · rintro m rfl
      have known := onward.known rfl
      rw [starting.hop] at known
      exact known
    · rintro rfl
      have passed := UInt64.le_iff_toNat_le.mp (onward.expired rfl)
      rw [UInt64.toNat_sub_of_le _ _ onward.elapsed] at passed
      have elapsed := UInt64.le_iff_toNat_le.mp onward.elapsed
      have timeout : (hz * 2).toNat = 200 := rfl
      dsimp only at passed elapsed ⊢
      omega
  · have waiting : ∀ mac, point ≠ .returned mac := fun mac same => returned ⟨mac, same⟩
    refine ⟨{ dstIp, count, point := .resolve nextHop point, net := after, console }, ?_, ⟨still.dstIp, still.count,
      still.console, still.kept, still.hop⟩, waiting, onward, silent.append quiet⟩
    cases point with
    | returned mac => exact absurd rfl (waiting mac)
    | entry start | head start nextProbe | probe start nextProbe | test start nextProbe => simp [netPing, steps]

theorem resolved_step (stack : Nat → UInt8) {nextHop : UInt32} {mac : Option Mac} (here : s.point = .resolved nextHop mac)
    (inv : SessionInv first s log) : ∃ t, netPing stack s = some t ∧ SessionInv first t (log ++ stamped s.net t.net) := by
  obtain ⟨dstIp, count, point, net, console⟩ := s
  cases here
  obtain ⟨starting, elapsed, wire, silent, known, expired⟩ := inv
  obtain ⟨sameIp, sameCount, sameConsole, kept, rfl⟩ := starting
  unfold netPing
  cases mac with
  | none =>
      dsimp only
      rw [ipText_eq, Option.bind_eq_bind, Option.bind_some, (prints_unresolved _).printed stack, Option.bind_eq_bind,
        Option.bind_some]
      refine ⟨_, rfl, .quiet rfl (.unresolved wire silent (expired rfl) ?_)⟩
      rw [← sameConsole]
  | some mac =>
      dsimp only
      rw [ipText_eq, Option.bind_eq_bind, Option.bind_some, (prints_heading dstIp).printed stack, Option.bind_eq_bind,
        Option.bind_some]
      refine ⟨_, rfl, .quiet rfl ⟨[], [], ⟨sameIp, sameCount, kept, wire, ?_, rfl, Nat.zero_le _, rfl, ?_,
        ⟨List.forall_mem_nil _, .nil⟩, elapsed, UInt64.le_refl _, List.forall_mem_nil _⟩, fun some => absurd rfl some⟩⟩
      · exact ⟨log, [], by simp, silent, known mac rfl, .none, .nil⟩
      · rw [← sameConsole, ← sameIp]
        simp [sessionText]

theorem resolveStep_tick (targetIp : UInt32) (timeoutTicks : UInt64) {p : ResolvePoint} (waiting : ∀ mac, p ≠ .returned mac) (net : Net) :
    resolveStep targetIp timeoutTicks { point := p, net } .tick =
      some { point := p, net := { net with uptimeTicks := net.uptimeTicks + 1 } } := by
  cases p with
  | returned mac => exact absurd rfl (waiting mac)
  | entry start | head start nextProbe | probe start nextProbe | test start nextProbe => rfl

theorem resolveStep_frame (targetIp : UInt32) (timeoutTicks : UInt64) {p : ResolvePoint} (waiting : ∀ mac, p ≠ .returned mac)
    {net after : Net} {bytes : List UInt8} (result : receiveFrame net bytes = some after) :
    resolveStep targetIp timeoutTicks { point := p, net } (.frame bytes) = some { point := p, net := after } := by
  cases p with
  | returned mac => exact absurd rfl (waiting mac)
  | entry start | head start nextProbe | probe start nextProbe | test start nextProbe =>
      simp only [resolveStep, result, Option.map_some]

/-- The clock and what comes in between two steps. -/
structure Meanwhile (net after : Net) : Prop where
  kept : Kept net after
  wire : ∃ next, after.wire = net.wire ++ next
  silent : OnlyArp (stamped net after)
  on : net.uptimeTicks ≤ after.uptimeTicks
  closed : net.pingWait.active = false → after.pingWait.active = false

theorem Meanwhile.captures {net : Net} (meanwhile : Meanwhile s.net net) (wire : Captures first s log) :
    Captures first { s with net := net } (log ++ stamped s.net net) := by
  obtain ⟨next, grows⟩ := meanwhile.wire
  exact @Captures.append first s log { s with net := net } next wire grows

theorem Meanwhile.underway {net : Net} (meanwhile : Meanwhile s.net net) (u : Underway first s log w rounds gap current now) :
    Underway first { s with net := net } (log ++ stamped s.net net) w rounds gap (current ++ stamped s.net net) now := by
  refine ⟨u.dstIp, u.count, u.kept.trans meanwhile.kept, meanwhile.captures u.wire, u.carried.onCurrent, u.seq, u.within, u.received,
    u.shown, u.inTurn, u.since, UInt64.le_trans u.begun meanwhile.on, fun entry member => ?_⟩
  rcases List.mem_append.mp member with old | new
  · exact ⟨(u.during entry old).1, UInt64.le_trans (u.during entry old).2 meanwhile.on⟩
  · rw [stamped_tick new]
    exact ⟨u.begun, meanwhile.on⟩

theorem Meanwhile.loop {net : Net} (meanwhile : Meanwhile s.net net) (u : Underway first s log w rounds gap [] s.net.uptimeTicks) :
    Underway first { s with net := net } (log ++ stamped s.net net) w rounds (gap ++ stamped s.net net) [] net.uptimeTicks :=
  ⟨u.dstIp, u.count, u.kept.trans meanwhile.kept, meanwhile.captures u.wire, u.carried.onGap meanwhile.silent, u.seq, u.within,
    u.received, u.shown, u.inTurn.later meanwhile.on, UInt64.le_trans u.since meanwhile.on, UInt64.le_refl _, List.forall_mem_nil _⟩

/-- What happens between two steps keeps the invariant, when the resolver and the wait get along with it. -/
theorem Meanwhile.session {net : Net} (meanwhile : Meanwhile s.net net) (inv : SessionInv first s log)
    (running : ∀ status, s.point ≠ .returned status)
    (resolves : ∀ nextHop p, (∀ mac, p ≠ .returned mac) → ResolveInv nextHop (hz * 2) first.net { point := p, net := s.net } log →
      ResolveInv nextHop (hz * 2) first.net { point := p, net := net } (log ++ stamped s.net net))
    (waits : ∀ w current, Kept first.net s.net → Awaiting first.net s.net w current →
      Awaiting first.net net w (current ++ stamped s.net net)) :
    SessionInv first { s with net := net } (log ++ stamped s.net net) := by
  obtain ⟨dstIp, count, here, old, console⟩ := s
  cases here with
  | returned status => exact absurd rfl (running status)
  | resolve nextHop p =>
      obtain ⟨⟨sameIp, sameCount, sameConsole, kept, hop⟩, waiting, resolving, silent⟩ := inv
      exact ⟨⟨sameIp, sameCount, sameConsole, kept.trans meanwhile.kept, hop⟩, waiting, resolves nextHop p waiting resolving,
        silent.append meanwhile.silent⟩
  | resolved nextHop mac =>
      obtain ⟨⟨sameIp, sameCount, sameConsole, kept, hop⟩, elapsed, wire, silent, known, expired⟩ := inv
      exact ⟨⟨sameIp, sameCount, sameConsole, kept.trans meanwhile.kept, hop⟩, UInt64.le_trans elapsed meanwhile.on,
        meanwhile.captures wire, silent.append meanwhile.silent, fun m same => (known m same).imp id (Told.append · _),
        fun same => Nat.le_trans (expired same) (UInt64.le_iff_toNat_le.mp meanwhile.on)⟩
  | loop w =>
      obtain ⟨rounds, gap, u, closed⟩ := inv
      exact ⟨rounds, gap ++ stamped old net, meanwhile.loop u, fun some => meanwhile.closed (closed some)⟩
  | send w ms start =>
      obtain ⟨rounds, gap, current, u, more, wait, same, silent⟩ := inv
      exact ⟨rounds, gap, current ++ stamped old net, meanwhile.underway u, more, waits w current u.kept wait, same,
        silent.append meanwhile.silent⟩
  | head w ms start | poll w ms start =>
      obtain ⟨rounds, gap, current, u, more, wait, same, asked⟩ := inv
      exact ⟨rounds, gap, current ++ stamped old net, meanwhile.underway u, more, waits w current u.kept wait, same,
        asked.append meanwhile.silent⟩

theorem pingEvent_cases {stack : Nat → UInt8} {event : AcquireEvent} {t : Ping} (steps : pingEvent stack s event = some t) :
    (∀ status, s.point ≠ .returned status) ∧
      (event = .step ∧ netPing stack s = some t ∨
        event = .tick ∧ t = { s with net := { s.net with uptimeTicks := s.net.uptimeTicks + 1 } } ∨
        ∃ bytes net, event = .frame bytes ∧ receiveFrame s.net bytes = some net ∧ t = { s with net := net }) := by
  unfold pingEvent at steps
  split at steps
  · cases steps
  · rename_i running
    exact ⟨running, Or.inl ⟨rfl, steps⟩⟩
  · rename_i running
    cases steps
    exact ⟨running, Or.inr (Or.inl ⟨rfl, rfl⟩)⟩
  · rename_i bytes running
    obtain ⟨net, result, rfl⟩ := Option.map_eq_some_iff.mp steps
    exact ⟨running, Or.inr (Or.inr ⟨bytes, net, rfl, result, rfl⟩)⟩

theorem tick_meanwhile {net : Net} (fits : net.uptimeTicks.toNat + 51 < 2 ^ 64) :
    Meanwhile net { net with uptimeTicks := net.uptimeTicks + 1 } := by
  refine ⟨⟨rfl, rfl, rfl⟩, ⟨[], (List.append_nil _).symm⟩, by simp [OnlyArp.nil], ?_, id⟩
  rw [UInt64.le_iff_toNat_le]
  show net.uptimeTicks.toNat ≤ (net.uptimeTicks + 1).toNat
  rw [UInt64.toNat_add, Nat.mod_eq_of_lt (show net.uptimeTicks.toNat + (1 : UInt64).toNat < 2 ^ 64 from by
    have one : (1 : UInt64).toNat = 1 := rfl
    omega)]
  exact Nat.le_add_right _ _

theorem Awaiting.answers_iff {net : Net} (wait : Awaiting first.net net w current) (kept : Kept first.net net) (bytes : List UInt8) :
    Answers first.net.ipAddr w.identifier w.seq bytes ↔ ∃ r, echoReply bytes = some r ∧ r.Outstanding net := by
  rw [Answers]
  refine exists_congr fun r => and_congr_right fun _ => ?_
  rw [EchoReply.Outstanding, kept.ipAddr, wait.identifier, wait.sequence]

theorem Awaiting.frame {net after : Net} {bytes : List UInt8} (wait : Awaiting first.net net w current)
    (kept : Kept first.net net) (ready : net.rtlReady) (result : receiveFrame net bytes = some after) :
    Awaiting first.net after w (current ++ stamped net after) := by
  obtain ⟨same, hears⟩ := receiveFrame_reply ready wait.active result
  obtain ⟨-, -, -, only, rest, whole, behind⟩ := receiveFrame_heard ready result
  refine ⟨same.active.trans wait.active, same.identifier.trans wait.identifier, same.sequence.trans wait.sequence,
    fun has => ?_⟩
  rcases hears with ⟨answers, hops⟩ | ⟨other, still⟩
  · refine ⟨current, net.uptimeTicks, bytes, rest, by rw [whole], (wait.answers_iff kept bytes).mpr answers, hops, fun tick frame member => ?_⟩
    exact absurd member (behind tick frame)
  · rw [still] at has ⊢
    refine (wait.heard has).append fun tick frame member answers => ?_
    rw [only tick frame member] at answers
    obtain ⟨r, decoded, outstanding⟩ := (wait.answers_iff kept bytes).mp answers
    exact other r decoded outstanding

theorem SessionInv.ready (inv : SessionInv first s log) (running : ∀ status, s.point ≠ .returned status) : Kept first.net s.net := by
  obtain ⟨dstIp, count, here, net, console⟩ := s
  cases here with
  | returned status => exact absurd rfl (running status)
  | resolve nextHop p | resolved nextHop mac => exact inv.1.kept
  | loop w =>
      obtain ⟨_, _, u, _⟩ := inv
      exact u.kept
  | send w ms start | head w ms start | poll w ms start =>
      obtain ⟨_, _, _, u, _⟩ := inv
      exact u.kept

/-- Every step of a running session returns, and keeps the invariant. -/
theorem SessionInv.goes (stack : Nat → UInt8) (inv : SessionInv first s log) (running : ∀ status, s.point ≠ .returned status)
    (ready : first.net.rtlReady) (positive : 0 < first.count) (small : first.count < 2 ^ 31) (fits : PingClock s .step) :
    ∃ t, netPing stack s = some t ∧ SessionInv first t (log ++ stamped s.net t.net) := by
  cases here : s.point with
  | returned status => exact absurd here (running status)
  | resolve nextHop p => exact resolve_step stack here inv fits.room.1
  | resolved nextHop mac => exact resolved_step stack here inv
  | loop w => exact loop_step stack here inv positive small
  | send w ms start => exact send_step stack here inv ready
  | head w ms start => exact head_step stack here inv
  | poll w ms start => exact poll_step stack here inv small fits

theorem SessionInv.event {stack : Nat → UInt8} {event : AcquireEvent} {t : Ping} (inv : SessionInv first s log)
    (ready : first.net.rtlReady) (positive : 0 < first.count) (small : first.count < 2 ^ 31) (fits : PingClock s event)
    (steps : pingEvent stack s event = some t) : SessionInv first t (log ++ stamped s.net t.net) := by
  have room := fits.room.1
  obtain ⟨running, ⟨rfl, moves⟩ | ⟨rfl, rfl⟩ | ⟨bytes, net, rfl, result, rfl⟩⟩ := pingEvent_cases steps
  · obtain ⟨u, same, after⟩ := inv.goes stack running ready positive small fits
    cases moves.symm.trans same
    exact after
  · refine (tick_meanwhile room).session inv running (fun nextHop p waiting resolving => ?_) fun w current kept wait => ?_
    · exact resolveInv_event resolving room (resolveStep_tick nextHop (hz * 2) waiting s.net)
    · rw [stamped_clock, List.append_nil]
      exact ⟨wait.active, wait.identifier, wait.sequence, wait.heard⟩
  · have kept := inv.ready running
    have heard := receiveFrame_heard (kept.ready.trans ready) result
    have meanwhile : Meanwhile s.net net :=
      ⟨heard.kept, heard.wire, heard.silent, by rw [(receiveFrame_kept result).1]; exact UInt64.le_refl _, fun closed =>
        (receiveFrame_active result).trans closed⟩
    refine meanwhile.session inv running (fun nextHop p waiting resolving => ?_) fun w current kept wait =>
      wait.frame kept (kept.ready.trans ready) result
    exact resolveInv_event resolving room (resolveStep_frame nextHop (hz * 2) waiting result)

/-! ## The end -/

def resolveRank (now : UInt64) : ResolvePoint → Nat
  | .entry _ => 204
  | .probe start _ => 200 - (now - start).toNat + 3
  | .test start _ => 200 - (now - start).toNat + 2
  | .head start _ => 200 - (now - start).toNat + 1
  | .returned _ => 0

/-- How many steps and ticks the session may still take. -/
def Ping.rank (s : Ping) : Nat :=
  match s.point with
  | .resolve _ p => 104 * (s.count + 1) + resolveRank s.net.uptimeTicks p
  | .resolved _ _ => 104 * (s.count + 1)
  | .loop w => 104 * (s.count - w.seq) + 103
  | .send w _ _ => 104 * (s.count - w.seq) + 102
  | .poll w _ start => 104 * (s.count - w.seq) + (100 - (s.net.uptimeTicks - start).toNat) + 1
  | .head w _ start => 104 * (s.count - w.seq) + (100 - (s.net.uptimeTicks - start).toNat)
  | .returned _ => 0

/-- Only the clock ends the wait. -/
def Waiting (s : Ping) : Prop :=
  match s.point with
  | .resolve _ (.head start _) => s.net.uptimeTicks - start < hz * 2
  | .head _ _ start => s.net.uptimeTicks - start < hz
  | _ => False

theorem tick_left {now start limit : UInt64} (waits : now - start < limit) :
    limit.toNat - (now + 1 - start).toNat < limit.toNat - (now - start).toNat := by
  have below := UInt64.lt_iff_toNat_lt.mp waits
  have bound := limit.toNat_lt
  have next : now + 1 - start = now - start + 1 := by
    rw [UInt64.sub_eq_add_neg, UInt64.sub_eq_add_neg, UInt64.add_assoc, UInt64.add_comm 1, ← UInt64.add_assoc]
  rw [next, UInt64.toNat_add, show (1 : UInt64).toNat = 1 from rfl, Nat.mod_eq_of_lt (by omega)]
  omega

theorem Waiting.tick (waits : Waiting s) :
    ({ s with net := { s.net with uptimeTicks := s.net.uptimeTicks + 1 } } : Ping).rank < s.rank := by
  obtain ⟨dstIp, count, point, net, console⟩ := s
  have short : (hz * 2).toNat = 200 ∧ hz.toNat = 100 := ⟨rfl, rfl⟩
  cases point with
  | resolve nextHop p =>
      cases p with
      | head start nextProbe =>
          have left := tick_left (show net.uptimeTicks - start < hz * 2 from waits)
          simp only [Ping.rank, resolveRank]
          omega
      | returned mac | entry start | probe start nextProbe | test start nextProbe => exact waits.elim
  | head w ms start =>
      have left := tick_left (show net.uptimeTicks - start < hz from waits)
      simp only [Ping.rank]
      omega
  | resolved nextHop mac | returned status | loop w | send w ms start | poll w ms start => exact waits.elim

/-- The session has ended, or it has come closer to its end without a tick. -/
def Ping.Advances (s t : Ping) : Prop :=
  (∃ status, t.point = .returned status) ∧ 0 < s.rank ∨ t.rank < s.rank ∧ t.net.uptimeTicks = s.net.uptimeTicks

theorem SessionInv.count (inv : SessionInv first s log) (running : ∀ status, s.point ≠ .returned status) : s.count = first.count := by
  obtain ⟨dstIp, count, here, net, console⟩ := s
  cases here with
  | returned status => exact absurd rfl (running status)
  | resolve nextHop p | resolved nextHop mac => exact inv.1.count
  | loop w =>
      obtain ⟨_, _, u, _⟩ := inv
      exact u.count
  | send w ms start | head w ms start | poll w ms start =>
      obtain ⟨_, _, _, u, _⟩ := inv
      exact u.count

end

end Mgcore
