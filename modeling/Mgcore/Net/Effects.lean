import Mgcore.Net.Arp

/-!
# What a received frame may change

`FrameFootprint` lists the variables of the driver and, for each, the frames that may change it. Every handler
keeps to it, so `net_process_frame` does. An IPv4 packet that is cut short, damaged, a fragment or not for us
changes nothing at all.
-/

namespace Mgcore

open Lib

structure FrameFootprint (net : Net) (frame : List UInt8) (after : Net) : Prop where
  ipAddr : after.ipAddr = net.ipAddr
  ipMask : after.ipMask = net.ipMask
  ipGw : after.ipGw = net.ipGw
  mac : after.mac = net.mac
  connected : after.connected = net.connected
  dhcp : after.dhcp = net.dhcp ∨
    net.dhcp.active ∧ ∃ m, dhcpMessage frame = some m ∧ m.xid = net.dhcp.xid ∧ m.chaddr = net.mac
  pingWait : after.pingWait = net.pingWait ∨
    net.pingWait.active ∧ ∃ received ttl ms,
      after.pingWait = { net.pingWait with received := received, replyTtl := ttl, replyMs := ms }
  arpCache : after.arpCache = net.arpCache ∨
    (∃ p, arpMessage frame = some p) ∧ ∃ i, ∀ j, j ≠ i → after.arpCache j = net.arpCache j
  wire : after.wire = net.wire ∨
    ∃ p reply, arpMessage frame = some p ∧ p.oper = arpOperRequest ∧ p.tip = net.ipAddr ∧
      after.wire = net.wire ++ [.sent reply] ∧ arpMessage reply = some ⟨arpOperReply, net.mac, net.ipAddr, p.sip⟩

theorem FrameFootprint.ignored (net : Net) (frame : List UInt8) : FrameFootprint net frame net :=
  ⟨rfl, rfl, rfl, rfl, rfl, .inl rfl, .inl rfl, .inl rfl, .inl rfl⟩

theorem hearArp_footprint (net : Net) {frame : List UInt8} {p : ArpPacket} (decoded : arpMessage frame = some p) :
    FrameFootprint net frame (net.hearArp p) := by
  obtain ⟨cache, updated, one⟩ := arpCacheUpdate_eq net p.sip p.sha
  unfold Net.hearArp
  rw [updated]
  split_ifs with asked
  · rcases rtlSendRawFrame_cases { net with arpCache := cache }
      (arpFrame p.sha net.mac p.sha arpOperReply net.ipAddr p.sip) with failed | sent
    · rw [arpSendReply, failed]
      exact ⟨rfl, rfl, rfl, rfl, rfl, .inl rfl, .inl rfl, .inr ⟨⟨p, decoded⟩, one⟩, .inl rfl⟩
    · rw [arpSendReply, sent]
      refine ⟨rfl, rfl, rfl, rfl, rfl, .inl rfl, .inl rfl, .inr ⟨⟨p, decoded⟩, one⟩, .inr ⟨p, _, decoded, asked.1,
        asked.2, rfl, arpMessage_arpFrame ..⟩⟩
  · exact ⟨rfl, rfl, rfl, rfl, rfl, .inl rfl, .inl rfl, .inr ⟨⟨p, decoded⟩, one⟩, .inl rfl⟩

theorem netProcessFrame_other {net after : Net} {frame : List UInt8} (other : arpMessage frame = none)
    (result : netProcessFrame net frame frame.length = some after) :
    after = net ∨ 14 ≤ frame.length ∧ be16Load frame 12 = some ethTypeIpv4 ∧
      netProcessIpv4 net frame 14 (frame.length - 14) = some after := by
  rcases rejected_or result with rfl | ⟨long, result⟩
  · exact .inl rfl
  obtain ⟨ethType, readType, result⟩ := Option.bind_eq_some_iff.mp result
  split_ifs at result with arp ipv4
  · have payload : arpPacket frame 14 (frame.length - 14) = none := by
      rw [arpMessage, if_neg long, readType, Option.bind_eq_bind, Option.bind_some, if_neg (not_not.mpr arp)] at other
      exact other
    rw [netProcessArp_result result, payload]
    exact .inl rfl
  · exact .inr ⟨by omega, by rw [readType, ipv4], result⟩
  · exact .inl (Option.some.inj result).symm

theorem netProcessIpv4_footprint {net after : Net} {frame : List UInt8} (long : 14 ≤ frame.length)
    (readType : be16Load frame 12 = some ethTypeIpv4)
    (result : netProcessIpv4 net frame 14 (frame.length - 14) = some after) : FrameFootprint net frame after := by
  rcases netProcessIpv4_cases result with rfl | ⟨totalLength, protocol, dstIp, decoded, fits, accepts, inner⟩
  · exact .ignored after frame
  rcases inner with ⟨_, result⟩ | ⟨rfl, result⟩
  · rcases netProcessIcmp_cases result with rfl | ⟨active, ttl, rfl⟩
    · exact .ignored after frame
    · exact ⟨rfl, rfl, rfl, rfl, rfl, .inl rfl, .inr ⟨active, _, _, _, rfl⟩, .inl rfl, .inl rfl⟩
  · rcases netProcessUdp_cases (by omega) dstIp result with
      rfl | ⟨base, length, m, payload, message, rfl, active, xid, chaddr, rfl⟩
    · exact .ignored after frame
    have heard := dhcpMessage_of_layers long readType decoded payload message
    exact ⟨rfl, rfl, rfl, rfl, rfl, .inr ⟨active, m, heard, xid, chaddr⟩, .inl rfl, .inl rfl, .inl rfl⟩

theorem netProcessFrame_footprint {net after : Net} {frame : List UInt8}
    (result : netProcessFrame net frame frame.length = some after) : FrameFootprint net frame after := by
  cases decoded : arpMessage frame with
  | some p =>
      have heard := netProcessFrame_arp net decoded
      rw [Option.some.inj (result.symm.trans heard)]
      exact hearArp_footprint net decoded
  | none =>
      rcases netProcessFrame_other decoded result with rfl | ⟨long, readType, result⟩
      · exact .ignored after frame
      · exact netProcessIpv4_footprint long readType result

/-! ## Packets that are dropped -/

/-- The tests of `net_process_ipv4` that a packet can fail, each with the field it reads. -/
inductive Ipv4Dropped (net : Net) (frame : List UInt8) : Prop
  | short (cut : frame.length < 34)
  | header (first : UInt8) (read : frame[14]? = some first) (cut : frame.length < 14 + headerLength first)
  | truncated (total : UInt16) (read : be16Load frame 16 = some total) (cut : frame.length < 14 + total.toNat)
  | undersized (first : UInt8) (total : UInt16) (readFirst : frame[14]? = some first)
      (readTotal : be16Load frame 16 = some total) (cut : total.toNat < headerLength first)
  | checksum (first : UInt8) (sum : UInt16) (read : frame[14]? = some first)
      (summed : checksum16 frame 14 (headerLength first) = some sum) (bad : sum ≠ 0)
  | fragment (flags : UInt16) (read : be16Load frame 20 = some flags) (part : flags &&& 0x3FFF ≠ 0)
  | foreign (protocol : UInt8) (dstIp : UInt32) (readProtocol : frame[23]? = some protocol)
      (readDst : be32Load frame 30 = some dstIp) (other : protocol ≠ ipProtoUdp) (away : dstIp ≠ net.ipAddr)

structure Ipv4Intact (frame : List UInt8) (base length totalLength : Nat) (protocol : UInt8) (dstIp : UInt32) : Prop where
  long : 20 ≤ length
  header : ∃ first, frame[base]? = some first ∧ headerLength first ≤ totalLength ∧
    checksum16 frame base (headerLength first) = some 0
  total : ∃ total, be16Load frame (base + 2) = some total ∧ total.toNat = totalLength
  fits : totalLength ≤ length
  whole : ∃ flags, be16Load frame (base + 6) = some flags ∧ flags &&& 0x3FFF = 0
  protocol : frame[base + 9]? = some protocol
  dstIp : be32Load frame (base + 16) = some dstIp

theorem ipv4Packet_intact {frame : List UInt8} {base length totalLength : Nat} {protocol : UInt8} {dstIp : UInt32}
    (decoded : ipv4Packet frame base length = some (totalLength, protocol, dstIp)) :
    Ipv4Intact frame base length totalLength protocol dstIp := by
  obtain ⟨long, decoded⟩ := passed decoded
  obtain ⟨first, readFirst, decoded⟩ := Option.bind_eq_some_iff.mp decoded
  obtain ⟨version, decoded⟩ := passed decoded
  obtain ⟨total, readTotal, decoded⟩ := Option.bind_eq_some_iff.mp decoded
  obtain ⟨fits, decoded⟩ := passed decoded
  obtain ⟨checksum, readChecksum, decoded⟩ := Option.bind_eq_some_iff.mp decoded
  obtain ⟨good, decoded⟩ := passed decoded
  obtain ⟨flags, readFlags, decoded⟩ := Option.bind_eq_some_iff.mp decoded
  obtain ⟨whole, decoded⟩ := passed decoded
  obtain ⟨dst, readDst, decoded⟩ := Option.bind_eq_some_iff.mp decoded
  obtain ⟨proto, readProtocol, decoded⟩ := Option.bind_eq_some_iff.mp decoded
  cases decoded
  rw [not_not.mp good] at readChecksum
  exact
    { long := by omega
      header := ⟨first, readFirst, by omega, readChecksum⟩
      total := ⟨total, readTotal, rfl⟩
      fits := by omega
      whole := ⟨flags, readFlags, not_not.mp whole⟩
      protocol := readProtocol
      dstIp := readDst }

theorem Ipv4Intact.not_dropped {net : Net} {frame : List UInt8} {totalLength : Nat} {protocol : UInt8} {dstIp : UInt32}
    (intact : Ipv4Intact frame 14 (frame.length - 14) totalLength protocol dstIp)
    (accepts : ipv4Accepts net protocol dstIp) : ¬Ipv4Dropped net frame := by
  obtain ⟨first, readFirst, inside, sum⟩ := intact.header
  obtain ⟨total, readTotal, size⟩ := intact.total
  obtain ⟨flags, readFlags, whole⟩ := intact.whole
  have long := intact.long
  have fits := intact.fits
  intro dropped
  cases dropped with
  | short cut => omega
  | header first' read cut =>
      cases readFirst.symm.trans read
      omega
  | truncated total' read cut =>
      cases readTotal.symm.trans read
      omega
  | undersized first' total' readFirst' readTotal' cut =>
      cases readFirst.symm.trans readFirst'
      cases readTotal.symm.trans readTotal'
      omega
  | checksum first' sum' read summed bad =>
      cases readFirst.symm.trans read
      cases sum.symm.trans summed
      exact bad rfl
  | fragment flags' read part =>
      cases readFlags.symm.trans read
      exact part whole
  | foreign protocol' dstIp' readProtocol readDst notUdp away =>
      cases intact.protocol.symm.trans readProtocol
      cases intact.dstIp.symm.trans readDst
      rw [ipv4Accepts, if_neg notUdp] at accepts
      exact away accepts

theorem netProcessFrame_dropped {net after : Net} {frame : List UInt8}
    (readType : be16Load frame 12 = some ethTypeIpv4) (dropped : Ipv4Dropped net frame)
    (result : netProcessFrame net frame frame.length = some after) : after = net := by
  have other : arpMessage frame = none := by
    unfold arpMessage
    split_ifs with short
    · rfl
    · rw [readType]
      rfl
  rcases netProcessFrame_other other result with same | ⟨long, _, result⟩
  · exact same
  rcases netProcessIpv4_cases result with same | ⟨totalLength, protocol, dstIp, decoded, _, accepts, _⟩
  · exact same
  exact absurd dropped ((ipv4Packet_intact decoded).not_dropped accepts)

/-- Whatever a frame holds, it is handled, and changes no more than its kind may. -/
theorem frame_effects (net : Net) (frame : List UInt8) :
    ∃ after, netProcessFrame net frame frame.length = some after ∧ FrameFootprint net frame after ∧
      (be16Load frame 12 = some ethTypeIpv4 → Ipv4Dropped net frame → after = net) := by
  obtain ⟨after, result⟩ := Option.isSome_iff_exists.mp (netProcessFrame_isSome net frame)
  refine ⟨after, result, netProcessFrame_footprint result, ?_⟩
  intro readType dropped
  exact netProcessFrame_dropped readType dropped result

end Mgcore
