import Mgcore.Net.Arp
import Mgcore.Net.Checksum

/-!
# Datagrams from one node to another

The receiving functions with `dhcp_process_packet` as a parameter: a fact about every handler says how often it is called
and with what. A frame of `ip_send_udp` from the server's port to the client's, padded or not, makes its receiver call the
handler once, on the payload that was sent.
-/

namespace Mgcore

open Lib

/-! ## Receiving with another handler -/

section
variable (handler : Net → List UInt8 → Nat → Nat → Option Net)

def netProcessUdpWith (net : Net) (frame : List UInt8) (ip ipLength : Nat) : Option Net := do
  let first ← frame[ip + 0]?
  let ihl := headerLength first
  if ipLength < 20 ∨ ihl < 20 ∨ ipLength < ihl + 8 then some net
  else do
    let udp := ip + ihl
    let udpLen ← be16Load frame (udp + 4)
    if udpLen < 8 ∨ ipLength < ihl + udpLen.toNat then some net
    else do
      let srcPort ← be16Load frame (udp + 0)
      let dstPort ← be16Load frame (udp + 2)
      if srcPort = udpPortDhcpServer ∧ dstPort = udpPortDhcpClient then
        handler net frame (udp + 8) (udpLen.toNat - 8)
      else some net

def netProcessIpv4With (net : Net) (frame : List UInt8) (base length : Nat) : Option Net :=
  if length < 20 then some net
  else do
    let first ← frame[base + 0]?
    let version := (first >>> 4) &&& 0x0F
    let ihl := headerLength first
    if version ≠ 4 ∨ ihl < 20 ∨ length < ihl then some net
    else do
      let totalLength ← be16Load frame (base + 2)
      if totalLength.toNat < ihl ∨ length < totalLength.toNat then some net
      else do
        let checksum ← checksum16 frame base ihl
        if checksum ≠ 0 then some net
        else do
          let flagsFragment ← be16Load frame (base + 6)
          if flagsFragment &&& 0x3FFF ≠ 0 then some net
          else do
            let dstIp ← be32Load frame (base + 16)
            let protocol ← frame[base + 9]?
            if ¬ipv4Accepts net protocol dstIp then some net
            else if protocol = ipProtoIcmp then netProcessIcmp net frame base totalLength.toNat
            else if protocol = ipProtoUdp then netProcessUdpWith handler net frame base totalLength.toNat
            else some net

def netProcessFrameWith (net : Net) (frame : List UInt8) (length : Nat) : Option Net :=
  if length < 14 then some net
  else do
    let ethType ← be16Load frame 12
    if ethType = ethTypeArp then netProcessArp net frame 14 (length - 14)
    else if ethType = ethTypeIpv4 then netProcessIpv4With handler net frame 14 (length - 14)
    else some net

end

theorem netProcessFrameWith_dhcp : netProcessFrameWith dhcpProcessPacket = netProcessFrame := rfl

/-! ## Reading our own headers -/

section
variable {link rest : List UInt8} {totalLength ident checksum : UInt16} {src dst : UInt32}
variable {net : Net} {handler : Net → List UInt8 → Nat → Nat → Option Net}

theorem headerLength_fixed : headerLength 0x45 = 20 := rfl

theorem netProcessIpv4With_header (fourteen : link.length = 14) {length : Nat}
    (computed : checksum16 (ipHeader totalLength ident ipProtoUdp 0 src dst) 0 20 = some checksum)
    (whole : 20 ≤ totalLength.toNat) (inside : totalLength.toNat ≤ length) (accepts : ipv4Accepts net ipProtoUdp dst) :
    netProcessIpv4With handler net (link ++ (ipHeader totalLength ident ipProtoUdp checksum src dst ++ rest)) 14 length =
      netProcessUdpWith handler net (link ++ (ipHeader totalLength ident ipProtoUdp checksum src dst ++ rest)) 14
        totalLength.toNat := by
  have verifies := @checksum16_ipHeader link rest _ _ _ _ _ _ fourteen computed
  have first : (link ++ (ipHeader totalLength ident ipProtoUdp checksum src dst ++ rest))[14 + 0]? = some 0x45 :=
    ipHeader_first fourteen
  generalize shape : ipHeader totalLength ident ipProtoUdp checksum src dst ++ rest = datagram at verifies first ⊢
  have total : be16Load (link ++ datagram) (14 + 2) = some totalLength := by
    rw [be16Load_past (by omega), fourteen, ← shape]
    exact congrArg some (bytes_joined totalLength)
  have fragment : be16Load (link ++ datagram) (14 + 6) = some 0 := by
    rw [be16Load_past (by omega), fourteen, ← shape]
    rfl
  have target : be32Load (link ++ datagram) (14 + 16) = some dst := by
    rw [be32Load_past (by omega), fourteen, ← shape]
    exact be32Load_be32Store dst rest
  have protocol : (link ++ datagram)[14 + 9]? = some ipProtoUdp := by
    rw [getElem?_past (Nat.le_of_eq fourteen), fourteen, ← shape]
    rfl
  have version : ¬((0x45 : UInt8) >>> 4 &&& 0x0F ≠ 4 ∨ 20 < 20 ∨ length < 20) := by
    rintro (other | short | short)
    · exact other (by decide)
    · omega
    · omega
  have fits : ¬(totalLength.toNat < 20 ∨ length < totalLength.toNat) := by omega
  have notIcmp : ¬ipProtoUdp = ipProtoIcmp := by decide
  have whole' : ¬length < 20 := by omega
  simp only [netProcessIpv4With, if_neg whole', first, headerLength_fixed, if_neg version, total, if_neg fits, verifies,
    fragment, target, protocol, accepts, notIcmp, Option.bind_eq_bind, Option.bind_some]
  rfl

theorem netProcessUdpWith_ports (fourteen : link.length = 14) {udpLength : UInt16} {ipLength : Nat}
    (whole : 8 ≤ udpLength.toNat) (inside : 20 + udpLength.toNat ≤ ipLength) :
    netProcessUdpWith handler net (link ++ (ipHeader totalLength ident ipProtoUdp checksum src dst ++
        (be16Store udpPortDhcpServer ++ (be16Store udpPortDhcpClient ++ (be16Store udpLength ++ rest))))) 14 ipLength =
      handler net (link ++ (ipHeader totalLength ident ipProtoUdp checksum src dst ++
        (be16Store udpPortDhcpServer ++ (be16Store udpPortDhcpClient ++ (be16Store udpLength ++ rest))))) 42
        (udpLength.toNat - 8) := by
  have skipped : (link ++ ipHeader totalLength ident ipProtoUdp checksum src dst).length = 34 := by
    rw [List.length_append, fourteen, ipHeader_length]
  generalize shape : be16Store udpPortDhcpServer ++ (be16Store udpPortDhcpClient ++ (be16Store udpLength ++ rest)) =
    segment
  have first : (link ++ (ipHeader totalLength ident ipProtoUdp checksum src dst ++ segment))[14 + 0]? = some 0x45 :=
    ipHeader_first fourteen
  rw [← List.append_assoc] at first ⊢
  generalize link ++ ipHeader totalLength ident ipProtoUdp checksum src dst = before at skipped first ⊢
  have length : be16Load (before ++ segment) (14 + 20 + 4) = some udpLength := by
    rw [be16Load_past (by omega), skipped, ← shape]
    exact congrArg some (bytes_joined udpLength)
  have source : be16Load (before ++ segment) (14 + 20 + 0) = some udpPortDhcpServer := by
    rw [be16Load_past (by omega), skipped, ← shape]
    rfl
  have target : be16Load (before ++ segment) (14 + 20 + 2) = some udpPortDhcpClient := by
    rw [be16Load_past (by omega), skipped, ← shape]
    rfl
  have room : ¬(ipLength < 20 ∨ 20 < 20 ∨ ipLength < 20 + 8) := by omega
  have fits : ¬(udpLength < 8 ∨ ipLength < 20 + udpLength.toNat) := by
    rw [UInt16.lt_iff_toNat_lt]
    exact not_or.mpr ⟨Nat.not_lt.mpr whole, Nat.not_lt.mpr inside⟩
  simp only [netProcessUdpWith, first, headerLength_fixed, if_neg room, length, if_neg fits, source, target,
    Option.bind_eq_bind, Option.bind_some]
  rfl

end

/-! ## There and back -/

/-- A frame as `rtl_send_raw_frame` leaves it in the buffer of the card. -/
def padded (frame : List UInt8) : List UInt8 := frame ++ List.replicate (60 - frame.length) 0

theorem toUInt16_toNat {n : Nat} (small : n < 2 ^ 16) : n.toUInt16.toNat = n := Nat.mod_eq_of_lt small

section
variable {sender : Net} {srcIp dstIp : UInt32} {payload frame : List UInt8} {dstMac : Mac}
variable (built : udpFrame sender srcIp dstIp udpPortDhcpServer udpPortDhcpClient payload dstMac = some frame)
include built

theorem udpFrame_length : frame.length = 42 + payload.length := by
  obtain ⟨checksum, -, shape⟩ := udpFrame_eq sender srcIp dstIp udpPortDhcpServer udpPortDhcpClient payload dstMac
  rw [built] at shape
  rw [Option.some.inj shape]
  simp only [List.length_append, List.Vector.toList_length, be16Store_length, ipHeader_length]
  omega

theorem udpFrame_payload (padding : List UInt8) : slice (frame ++ padding) 42 payload.length = payload := by
  obtain ⟨checksum, -, shape⟩ := udpFrame_eq sender srcIp dstIp udpPortDhcpServer udpPortDhcpClient payload dstMac
  rw [built] at shape
  rw [Option.some.inj shape]
  simp only [← List.append_assoc]
  rw [List.append_assoc]
  apply slice_middle ?_ rfl
  simp only [List.length_append, List.Vector.toList_length, be16Store_length, ipHeader_length]

theorem netProcessFrameWith_udp {node : Net} (handler : Net → List UInt8 → Nat → Nat → Option Net)
    (padding : List UInt8) (fits : payload.length ≤ 548) (accepts : ipv4Accepts node ipProtoUdp dstIp) :
    netProcessFrameWith handler node (frame ++ padding) (frame ++ padding).length =
      handler node (frame ++ padding) 42 payload.length := by
  have size := udpFrame_length built
  obtain ⟨checksum, computed, shape⟩ :=
    udpFrame_eq sender srcIp dstIp udpPortDhcpServer udpPortDhcpClient payload dstMac
  rw [built] at shape
  have long : ¬(frame ++ padding).length < 14 := by
    rw [List.length_append]
    omega
  have total : (20 + (8 + payload.length)).toUInt16.toNat = 28 + payload.length := by
    rw [toUInt16_toNat (by omega)]
    omega
  have udpLength : (8 + payload.length).toUInt16.toNat = 8 + payload.length := toUInt16_toNat (by omega)
  have room : 28 + payload.length ≤ (frame ++ padding).length - 14 := by
    rw [List.length_append]
    omega
  have fourteen := link_length dstMac sender.mac ethTypeIpv4
  have ethType : be16Load (frame ++ padding) 12 = some ethTypeIpv4 := by
    rw [Option.some.inj shape]
    simp only [List.append_assoc, be16Load_past, be16Load_be16Store, List.Vector.toList_length, Nat.reduceLeDiff,
      Nat.reduceSub, Nat.le_refl, Nat.sub_self]
  simp only [netProcessFrameWith, if_neg long, ethType, Option.bind_eq_bind, Option.bind_some]
  rw [if_neg (by decide), if_pos trivial]
  generalize (frame ++ padding).length - 14 = length at room
  rw [Option.some.inj shape, List.append_assoc (_ ++ _), List.append_assoc (ipHeader ..)]
  rw [netProcessIpv4With_header fourteen computed (by omega) (by omega) accepts]
  simp only [List.append_assoc (be16Store _)]
  rw [netProcessUdpWith_ports fourteen (by omega) (by omega), udpLength, Nat.add_sub_cancel_left]

end

/-- For every handler: a frame of `ip_send_udp` from port 67 to port 68 makes a node that accepts it call the handler once,
on the payload; the real one too. A longer payload is refused and nothing is sent. -/
theorem udp_receive_inverts_send (sender : Net) (srcIp dstIp : UInt32) (payload : List UInt8) (dstMac : Mac) :
    (payload.length ≤ 548 → ∃ frame,
      udpFrame sender srcIp dstIp udpPortDhcpServer udpPortDhcpClient payload dstMac = some frame ∧
      ipSendUdp sender srcIp dstIp udpPortDhcpServer udpPortDhcpClient payload dstMac =
        some (rtlSendRawFrame sender frame) ∧
      (sender.rtlReady → (rtlSendRawFrame sender frame).2.wire = sender.wire ++ [.sent (padded frame)]) ∧
      slice (padded frame) 42 payload.length = payload ∧
      ∀ node : Net, dstIp = node.ipAddr ∨ dstIp = netIpv4Broadcast ∨ node.ipAddr = netIpv4Any →
        (∀ handler, netProcessFrameWith handler node (padded frame) (padded frame).length =
          handler node (padded frame) 42 payload.length) ∧
        netProcessFrame node (padded frame) (padded frame).length =
          dhcpProcessPacket node (padded frame) 42 payload.length) ∧
    (548 < payload.length →
      ipSendUdp sender srcIp dstIp udpPortDhcpServer udpPortDhcpClient payload dstMac = some (-1, sender)) := by
  constructor
  · intro fits
    obtain ⟨checksum, computed, built⟩ :=
      udpFrame_eq sender srcIp dstIp udpPortDhcpServer udpPortDhcpClient payload dstMac
    have size := udpFrame_length built
    refine ⟨_, built, ?_, ?_, udpFrame_payload built _, ?_⟩
    · rw [ipSendUdp_eq sender srcIp dstIp _ _ dstMac fits, built, Option.map_some]
    · intro ready
      have inside : 42 + payload.length ≤ txBufferSize := by
        rw [txBufferSize]
        omega
      exact rtlSendRawFrame_ready ready (by omega) (size ▸ inside)
    · intro node accepted
      have accepts : ipv4Accepts node ipProtoUdp dstIp := accepted
      refine ⟨fun handler => netProcessFrameWith_udp built handler _ fits accepts, ?_⟩
      rw [← netProcessFrameWith_dhcp]
      exact netProcessFrameWith_udp built dhcpProcessPacket _ fits accepts
  · intro long
    rw [ipSendUdp, if_pos long]

-- an empty payload, padded by 18 bytes
theorem udp_receive_inverts_send_empty :
    ∃ frame, udpFrame {} netDefaultGw netIpv4Broadcast udpPortDhcpServer udpPortDhcpClient [] broadcastMac = some frame ∧
      (padded frame).length = 60 ∧ netProcessFrame {} (padded frame) 60 = dhcpProcessPacket {} (padded frame) 42 0 := by
  obtain ⟨frame, built, -, -, -, received⟩ :=
    (udp_receive_inverts_send {} netDefaultGw netIpv4Broadcast [] broadcastMac).1 (by decide)
  have size : (padded frame).length = 60 := by
    rw [padded, List.length_append, List.length_replicate, udpFrame_length built]
    rfl
  have result := (received {} (Or.inr (Or.inl rfl))).2
  rw [size] at result
  exact ⟨frame, built, size, result⟩

end Mgcore
