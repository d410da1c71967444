import Mgcore.Lib.Run
import Mgcore.Net.Dhcp
import Mgcore.Net.Effects

/-!
# Waiting for an echo reply

`echoReply` reads a frame as an ICMP echo reply in an IPv4 packet without looking at the driver. While `net_ping`
waits, a frame answers the request if it is such a reply to us with the identifier and the sequence of the request;
the source of the reply is not among what `net_process_icmp` compares.
-/

namespace Mgcore

open Lib

/-! ## The request -/

/-- The body of the loop of `net_ping` up to the wait. -/
def pingRequest (net : Net) (dstIp : UInt32) (dstMac : Mac) (identifier : UInt16) (seq : Nat) : Option (Int × Net) := do
  let sequence := UInt16.ofNat (seq + 1)
  let armed := { net with pingWait := { active := true, identifier, sequence, targetIp := dstIp } }
  let (status, sent) ← ipSendIcmpEcho armed dstIp dstMac identifier sequence
  if status ≠ 0 then some (status, { sent with pingWait := { sent.pingWait with active := false } })
  else some (status, sent)

inductive PingEvent
  | tick
  | frame (bytes : List UInt8)
  deriving DecidableEq

def pingStep (net : Net) : PingEvent → Option Net
  | .tick => some { net with uptimeTicks := net.uptimeTicks + 1 }
  | .frame bytes => netProcessFrame net bytes bytes.length

/-! ## Replies -/

structure EchoReply where
  srcIp : UInt32
  dstIp : UInt32
  identifier : UInt16
  sequence : UInt16
  deriving DecidableEq

def icmpReply (frame : List UInt8) (ip ipLength : Nat) : Option (UInt16 × UInt16) := do
  let first ← frame[ip + 0]?
  let ihl := headerLength first
  if ipLength < 20 ∨ ihl < 20 ∨ ipLength < ihl + 8 then none
  else do
    let checksum ← checksum16 frame (ip + ihl) (ipLength - ihl)
    if checksum ≠ 0 then none
    else do
      let type ← frame[ip + ihl + 0]?
      let ident ← be16Load frame (ip + ihl + 4)
      let seq ← be16Load frame (ip + ihl + 6)
      if type ≠ 0 then none else some (ident, seq)

def echoReply (frame : List UInt8) : Option EchoReply :=
  if frame.length < 14 then none
  else do
    let ethType ← be16Load frame 12
    if ethType ≠ ethTypeIpv4 then none
    else do
      let (totalLength, protocol, dstIp) ← ipv4Packet frame 14 (frame.length - 14)
      if protocol ≠ ipProtoIcmp then none
      else do
        let srcIp ← be32Load frame (14 + 12)
        let (identifier, sequence) ← icmpReply frame 14 totalLength
        some { srcIp, dstIp, identifier, sequence }

def EchoReply.Outstanding (net : Net) (r : EchoReply) : Prop :=
  r.dstIp = net.ipAddr ∧ r.identifier = net.pingWait.identifier ∧ r.sequence = net.pingWait.sequence

instance (net : Net) (r : EchoReply) : Decidable (r.Outstanding net) := inferInstanceAs (Decidable (_ ∧ _ ∧ _))

/-- The reply that an event brings for the request of `net`, from whatever source. -/
def PingEvent.answer (net : Net) : PingEvent → Option EchoReply
  | .tick => none
  | .frame bytes => (echoReply bytes).filter fun r => r.Outstanding net

theorem answer_frame {net : Net} {bytes : List UInt8} {r : EchoReply} :
    (PingEvent.frame bytes).answer net = some r ↔ echoReply bytes = some r ∧ r.Outstanding net := by
  rw [PingEvent.answer, Option.filter_eq_some_iff, decide_eq_true_iff]

theorem netProcessIcmp_reply {net after : Net} {frame : List UInt8} {ip ipLength : Nat}
    (result : netProcessIcmp net frame ip ipLength = some after) :
    after = net ∨ ∃ ident seq, icmpReply frame ip ipLength = some (ident, seq) ∧
      ident = net.pingWait.identifier ∧ seq = net.pingWait.sequence := by
  obtain ⟨first, readFirst, result⟩ := Option.bind_eq_some_iff.mp result
  rcases rejected_or result with rfl | ⟨long, result⟩
  · exact .inl rfl
  obtain ⟨checksum, readChecksum, result⟩ := Option.bind_eq_some_iff.mp result
  rcases rejected_or result with rfl | ⟨good, result⟩
  · exact .inl rfl
  obtain ⟨type, readType, result⟩ := Option.bind_eq_some_iff.mp result
  obtain ⟨ident, readIdent, result⟩ := Option.bind_eq_some_iff.mp result
  obtain ⟨seq, readSeq, result⟩ := Option.bind_eq_some_iff.mp result
  split_ifs at result with awaited
  · obtain ⟨reply, _, sameIdent, sameSeq⟩ := awaited
    refine .inr ⟨ident, seq, ?_, sameIdent.symm, sameSeq.symm⟩
    simp only [icmpReply, readFirst, if_neg long, readChecksum, if_neg good, readType, readIdent, readSeq,
      if_neg (not_not.mpr reply), Option.bind_eq_bind, Option.bind_some]
  · exact .inl (Option.some.inj result).symm

theorem hearArp_pingWait (net : Net) (p : ArpPacket) : (net.hearArp p).pingWait = net.pingWait := by
  obtain ⟨cache, updated, _⟩ := arpCacheUpdate_eq net p.sip p.sha
  unfold Net.hearArp arpSendReply
  rw [updated]
  split_ifs with asked
  · rcases rtlSendRawFrame_cases { net with arpCache := cache }
      (arpFrame p.sha net.mac p.sha arpOperReply net.ipAddr p.sip) with failed | sent
    · rw [failed]
    · rw [sent]
  · rfl

theorem netProcessIpv4_packet {frame : List UInt8} {base length totalLength : Nat} {protocol : UInt8} {dstIp : UInt32}
    (decoded : ipv4Packet frame base length = some (totalLength, protocol, dstIp)) (net : Net) :
    netProcessIpv4 net frame base length =
      if ¬ipv4Accepts net protocol dstIp then some net
      else if protocol = ipProtoIcmp then netProcessIcmp net frame base totalLength
      else if protocol = ipProtoUdp then netProcessUdp net frame base totalLength
      else some net := by
  obtain ⟨long, decoded⟩ := passed decoded
  obtain ⟨first, readFirst, decoded⟩ := Option.bind_eq_some_iff.mp decoded
  obtain ⟨version, decoded⟩ := passed decoded
  obtain ⟨total, readTotal, decoded⟩ := Option.bind_eq_some_iff.mp decoded
  obtain ⟨fits, decoded⟩ := passed decoded
  obtain ⟨checksum, readChecksum, decoded⟩ := Option.bind_eq_some_iff.mp decoded
  obtain ⟨good, decoded⟩ := passed decoded
  obtain ⟨flags, readFlags, decoded⟩ := Option.bind_eq_some_iff.mp decoded
  obtain ⟨whole, decoded⟩ := passed decoded
  obtain ⟨dst, readDst, decoded⟩ := Option.bind_eq_some_iff.mp decoded
  obtain ⟨proto, readProtocol, decoded⟩ := Option.bind_eq_some_iff.mp decoded
  cases decoded
  simp only [netProcessIpv4, if_neg long, readFirst, if_neg version, readTotal, if_neg fits, readChecksum, if_neg good,
    readFlags, if_neg whole, readDst, readProtocol, Option.bind_eq_bind, Option.bind_some]

/-- A frame that is no reply to the request leaves the wait record alone. -/
theorem netProcessFrame_unanswered {net after : Net} {frame : List UInt8}
    (unanswered : (PingEvent.frame frame).answer net = none)
    (result : netProcessFrame net frame frame.length = some after) : after.pingWait = net.pingWait := by
  cases decoded : arpMessage frame with
  | some p =>
      have heard := netProcessFrame_arp net decoded
      rw [Option.some.inj (result.symm.trans heard), hearArp_pingWait]
  | none =>
      rcases netProcessFrame_other decoded result with rfl | ⟨long, readType, result⟩
      · rfl
      rcases netProcessIpv4_cases result with rfl | ⟨totalLength, protocol, dstIp, decoded, fits, accepts, inner⟩
      · rfl
      rcases inner with ⟨rfl, result⟩ | ⟨rfl, result⟩
      · rcases netProcessIcmp_reply result with rfl | ⟨ident, seq, reply, rfl, rfl⟩
        · rfl
        exfalso
        have header := (ipv4Packet_intact decoded).long
        obtain ⟨srcIp, readSrc⟩ := Option.isSome_iff_exists.mp (be32Load_isSome (show 14 + 12 + 4 ≤ frame.length by omega))
        have read : echoReply frame = some ⟨srcIp, dstIp, net.pingWait.identifier, net.pingWait.sequence⟩ := by
          simp only [echoReply, if_neg (Nat.not_lt.mpr long), readType, ne_eq, not_true_eq_false, if_false, decoded, readSrc,
            reply, Option.bind_eq_bind, Option.bind_some]
        rw [answer_frame.mpr ⟨read, accepts, rfl, rfl⟩] at unanswered
        cases unanswered
      · rcases netProcessUdp_cases (by omega) dstIp result with
          rfl | ⟨base, length, m, payload, message, rfl, active, xid, chaddr, rfl⟩
        · rfl
        · rfl

theorem netProcessFrame_answered {net : Net} {frame : List UInt8} {r : EchoReply} (active : net.pingWait.active)
    (answered : (PingEvent.frame frame).answer net = some r) :
    ∃ ttl, frame[14 + 8]? = some ttl ∧ netProcessFrame net frame frame.length = some { net with pingWait :=
      { net.pingWait with received := true, replyTtl := ttl, replyMs := (schedulerUptimeMs net).toUInt32 } } := by
  obtain ⟨decoded, sameDst, sameIdent, sameSeq⟩ := answer_frame.mp answered
  obtain ⟨long, decoded⟩ := passed decoded
  obtain ⟨ethType, readType, decoded⟩ := Option.bind_eq_some_iff.mp decoded
  obtain ⟨ipv4, decoded⟩ := passed decoded
  obtain ⟨⟨totalLength, protocol, dstIp⟩, packet, decoded⟩ := Option.bind_eq_some_iff.mp decoded
  obtain ⟨icmp, decoded⟩ := passed decoded
  obtain ⟨srcIp, readSrc, decoded⟩ := Option.bind_eq_some_iff.mp decoded
  obtain ⟨⟨ident, seq⟩, reply, decoded⟩ := Option.bind_eq_some_iff.mp decoded
  cases decoded
  simp only at sameDst sameIdent sameSeq
  have notArp : ethType ≠ ethTypeArp := by
    rw [not_not.mp ipv4]
    decide
  obtain ⟨ttl, readTtl⟩ := Option.isSome_iff_exists.mp
    (byte_isSome (show 14 + 8 < frame.length by have := (ipv4Packet_intact packet).long; omega))
  refine ⟨ttl, readTtl, ?_⟩
  rw [netProcessFrame, if_neg long, readType, Option.bind_eq_bind, Option.bind_some, if_neg notArp,
    if_pos (not_not.mp ipv4), netProcessIpv4_packet packet, not_not.mp icmp,
    if_neg (not_not.mpr (show ipv4Accepts net ipProtoIcmp dstIp from sameDst)), if_pos rfl]
  -- the ICMP layer reads again what the reply was read from
  obtain ⟨first, readFirst, reply⟩ := Option.bind_eq_some_iff.mp reply
  obtain ⟨fits, reply⟩ := passed reply
  obtain ⟨checksum, readChecksum, reply⟩ := Option.bind_eq_some_iff.mp reply
  obtain ⟨good, reply⟩ := passed reply
  obtain ⟨type, readReply, reply⟩ := Option.bind_eq_some_iff.mp reply
  obtain ⟨_, readIdent, reply⟩ := Option.bind_eq_some_iff.mp reply
  obtain ⟨_, readSeq, reply⟩ := Option.bind_eq_some_iff.mp reply
  obtain ⟨isReply, reply⟩ := passed reply
  cases reply
  simp only [netProcessIcmp, readFirst, if_neg fits, readChecksum, if_neg good, readReply, readIdent, readSeq,
    if_pos (show type = 0 ∧ net.pingWait.active ∧ net.pingWait.identifier = ident ∧ net.pingWait.sequence = seq from
      ⟨not_not.mp isReply, active, sameIdent.symm, sameSeq.symm⟩), readTtl, Option.bind_eq_bind, Option.bind_some]

/-! ## The wait -/

structure SameRequest (net after : Net) : Prop where
  ipAddr : after.ipAddr = net.ipAddr
  active : after.pingWait.active = net.pingWait.active
  identifier : after.pingWait.identifier = net.pingWait.identifier
  sequence : after.pingWait.sequence = net.pingWait.sequence

theorem SameRequest.answer {net after : Net} (same : SameRequest net after) (event : PingEvent) :
    event.answer after = event.answer net := by
  cases event with
  | tick => rfl
  | frame bytes =>
      unfold PingEvent.answer
      apply congrArg (fun p => (echoReply bytes).filter p)
      funext r
      apply decide_eq_decide.mpr
      unfold EchoReply.Outstanding
      rw [same.ipAddr, same.identifier, same.sequence]

theorem pingStep_isSome (net : Net) (event : PingEvent) : (pingStep net event).isSome := by
  cases event with
  | tick => rfl
  | frame bytes => exact netProcessFrame_isSome net bytes

theorem pingStep_spec {net after : Net} {event : PingEvent} (active : net.pingWait.active)
    (steps : pingStep net event = some after) :
    SameRequest net after ∧ (after.pingWait.received ↔ net.pingWait.received ∨ (event.answer net).isSome) := by
  cases event with
  | tick =>
      cases steps
      exact ⟨⟨rfl, rfl, rfl, rfl⟩, by simp [PingEvent.answer]⟩
  | frame bytes =>
      cases answered : (PingEvent.frame bytes).answer net with
      | none =>
          have same := netProcessFrame_unanswered answered steps
          have kept := (netProcessFrame_footprint steps).ipAddr
          rw [same]
          exact ⟨⟨kept, by rw [same], by rw [same], by rw [same]⟩, by simp⟩
      | some r =>
          obtain ⟨ttl, -, received⟩ := netProcessFrame_answered active answered
          cases steps.symm.trans received
          exact ⟨⟨rfl, rfl, rfl, rfl⟩, by simp⟩

theorem pingRun_spec {net after : Net} {events : List PingEvent} (active : net.pingWait.active)
    (reaches : run pingStep net events = some after) :
    after.pingWait.received ↔ net.pingWait.received ∨ ∃ event ∈ events, (event.answer net).isSome := by
  induction events generalizing net with
  | nil =>
      cases reaches
      simp
  | cons event events ih =>
      rw [run_cons, Option.bind_eq_some_iff] at reaches
      obtain ⟨middle, steps, reaches⟩ := reaches
      obtain ⟨same, received⟩ := pingStep_spec active steps
      have rest := ih (same.active.trans active) reaches
      simp only [same.answer] at rest
      rw [rest, received, List.exists_mem_cons_iff, or_assoc]

theorem pingRun_isSome (net : Net) (events : List PingEvent) : ∃ after, run pingStep net events = some after := by
  induction events generalizing net with
  | nil => exact ⟨net, rfl⟩
  | cons event events ih =>
      obtain ⟨middle, steps⟩ := Option.isSome_iff_exists.mp (pingStep_isSome net event)
      obtain ⟨after, reaches⟩ := ih middle
      exact ⟨after, by rw [run_cons, steps, Option.bind_some, reaches]⟩

def AnsweredByTarget (net : Net) (before : List PingEvent) : Prop :=
  ∃ bytes r, PingEvent.frame bytes ∈ before ∧ echoReply bytes = some r ∧ r.Outstanding net ∧
    r.srcIp = net.pingWait.targetIp

def OnlyTargetAnswers (net : Net) (events : List PingEvent) : Prop :=
  ∀ before after, before <+: events → run pingStep net before = some after → after.pingWait.received →
    AnsweredByTarget net before

def firstAnswer (net : Net) (events : List PingEvent) : Option EchoReply := events.findSome? (·.answer net)

theorem answeredByTarget_of_firstAnswer {net : Net} {before : List PingEvent} {r : EchoReply}
    (first : firstAnswer net before = some r) (source : r.srcIp = net.pingWait.targetIp) :
    AnsweredByTarget net before := by
  obtain ⟨event, member, answered⟩ := List.exists_of_findSome?_eq_some first
  cases event with
  | tick => cases answered
  | frame bytes =>
      obtain ⟨read, outstanding⟩ := answer_frame.mp answered
      exact ⟨bytes, r, member, read, outstanding, source⟩

theorem pingRequest_waits {net waiting : Net} {dstIp : UInt32} {dstMac : Mac} {identifier : UInt16} {seq : Nat}
    (sent : pingRequest net dstIp dstMac identifier seq = some (0, waiting)) :
    waiting.pingWait = { active := true, identifier, sequence := UInt16.ofNat (seq + 1), targetIp := dstIp } := by
  obtain ⟨⟨status, after⟩, sending, sent⟩ := Option.bind_eq_some_iff.mp sent
  obtain ⟨frame, _, sending⟩ := Option.bind_eq_some_iff.mp sending
  simp only at sent
  split_ifs at sent with failed
  · cases sent
    exact absurd rfl failed
  · cases sent
    rcases rtlSendRawFrame_cases _ frame with same | queued
    · rw [same] at sending
      cases sending
    · rw [queued] at sending
      cases sending
      rfl

/-- A wait is ended by its target alone exactly when the first reply to the request that is received comes from
there. -/
theorem ping_answered_by_target_iff (net : Net) (dstIp : UInt32) (dstMac : Mac) (identifier : UInt16) (seq : Nat)
    {waiting : Net} (sent : pingRequest net dstIp dstMac identifier seq = some (0, waiting)) (events : List PingEvent) :
    OnlyTargetAnswers waiting events ↔ ∀ r, firstAnswer waiting events = some r → r.srcIp = dstIp := by
  have wait := pingRequest_waits sent
  have active : waiting.pingWait.active := by rw [wait]
  have target : waiting.pingWait.targetIp = dstIp := by rw [wait]
  have waits : ¬waiting.pingWait.received := by simp [wait]
  constructor
  · intro only r first
    obtain ⟨before, event, later, rfl, answered, unanswered⟩ := List.findSome?_eq_some_iff.mp first
    obtain ⟨after, reaches⟩ := pingRun_isSome waiting (before ++ [event])
    have received := (pingRun_spec active reaches).mpr (.inr ⟨event, by simp, by rw [answered]; rfl⟩)
    have shorter : before ++ [event] <+: before ++ event :: later := ⟨later, by simp⟩
    obtain ⟨bytes, r', member, read, outstanding, source⟩ := only _ after shorter reaches received
    have here := answer_frame.mpr ⟨read, outstanding⟩
    -- nothing before the first answer is one, so the target's reply is the first
    rcases List.mem_append.mp member with early | last
    · rw [unanswered _ early] at here
      cases here
    · rw [List.mem_singleton.mp last, answered] at here
      cases here
      rw [source, target]
  · intro first before after shorter reaches received
    obtain ⟨event, member, answered⟩ := ((pingRun_spec active reaches).mp received).resolve_left waits
    cases found : firstAnswer waiting before with
    | none =>
        rw [List.findSome?_eq_none_iff.mp found event member] at answered
        cases answered
    | some r =>
        obtain ⟨rest, rfl⟩ := shorter
        have same : firstAnswer waiting (before ++ rest) = some r := by
          rw [firstAnswer, List.findSome?_append]
          exact congrArg (Option.or · _) found
        exact answeredByTarget_of_firstAnswer found (by rw [first r same, target])

-- The echo request of a node at 10.0.2.15 to 8.8.8.8, and a reply to it from `srcIp`.
def pingingNode : Net := { readyNet with ipAddr := 0x0A00020F }

def pingWaiting : Net := ((pingRequest pingingNode 0x08080808 broadcastMac 0x4D47 0).map Prod.snd).getD {}

def replyTo (srcIp : UInt32) : List UInt8 :=
  let header := ipHeader (20 + 8) 0 ipProtoIcmp
  let icmp (checksum : UInt16) : List UInt8 := [0, 0] ++ be16Store checksum ++ be16Store 0x4D47 ++ be16Store 1
  pingingNode.mac.toList ++ zeroMac.toList ++ be16Store ethTypeIpv4 ++
    header ((checksum16 (header 0 srcIp 0x0A00020F) 0 20).getD 0) srcIp 0x0A00020F ++
    icmp ((checksum16 (icmp 0) 0 8).getD 0)

theorem pingWaiting_sent : pingRequest pingingNode 0x08080808 broadcastMac 0x4D47 0 = some (0, pingWaiting) := by
  rfl

theorem ping_answered_by_target_iff_sample :
    pingRequest pingingNode 0x08080808 broadcastMac 0x4D47 0 = some (0, pingWaiting) ∧
      firstAnswer pingWaiting [.tick, .frame (replyTo 0x08080808)] = some ⟨0x08080808, 0x0A00020F, 0x4D47, 1⟩ ∧
      OnlyTargetAnswers pingWaiting [.tick, .frame (replyTo 0x08080808)] := by
  have first : firstAnswer pingWaiting [.tick, .frame (replyTo 0x08080808)] =
      some ⟨0x08080808, 0x0A00020F, 0x4D47, 1⟩ := by decide +kernel
  refine ⟨pingWaiting_sent, first, ?_⟩
  apply (ping_answered_by_target_iff pingingNode 0x08080808 broadcastMac 0x4D47 0 pingWaiting_sent _).mpr
  intro r found
  cases first.symm.trans found
  rfl

/-- A reply from 10.0.2.99 ends the wait for 8.8.8.8. -/
theorem ping_answered_by_another :
    pingRequest pingingNode 0x08080808 broadcastMac 0x4D47 0 = some (0, pingWaiting) ∧
      ¬OnlyTargetAnswers pingWaiting [.frame (replyTo 0x0A000263)] := by
  refine ⟨pingWaiting_sent, ?_⟩
  intro only
  have read : echoReply (replyTo 0x0A000263) = some ⟨0x0A000263, 0x0A00020F, 0x4D47, 1⟩ := by decide +kernel
  obtain ⟨after, reaches⟩ := pingRun_isSome pingWaiting [.frame (replyTo 0x0A000263)]
  have received : after.pingWait.received :=
    (pingRun_spec rfl reaches).mpr (.inr ⟨_, List.mem_singleton.mpr rfl, by decide +kernel⟩)
  obtain ⟨bytes, r, member, decoded, _, source⟩ := only _ after (List.prefix_refl _) reaches received
  cases List.mem_singleton.mp member
  cases read.symm.trans decoded
  exact absurd source (by decide)

end Mgcore
