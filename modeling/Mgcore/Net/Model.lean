import Mathlib.Data.List.FinRange
import Mathlib.Data.Vector.Basic
import Mgcore.Base
import Mgcore.Lib.Bytes

/-!
# The network driver

`src/kernel/net.c`: the static variables of the RTL8139 driver, the frames it builds, and the handlers from
`net_process_frame` down to `dhcp_parse_options`. A pointer into a received frame is the frame and an index,
and every byte is read with `frame[i]?`: `none` is a read outside the frame. The card itself is left out; a frame
handed to it is recorded in `wire`, which stands for a capture of the cable and is not read by the code.
-/

namespace Mgcore

open Lib

abbrev maxArpCache : Nat := 4  -- `NET_MAX_ARP_CACHE`

def txBufferSize : Nat := 2048  -- `RTL_TX_BUFFER_SIZE`

def txDescCount : UInt8 := 4

def ethTypeArp : UInt16 := 0x0806
def ethTypeIpv4 : UInt16 := 0x0800
def arpHtypeEthernet : UInt16 := 1
def arpPtypeIpv4 : UInt16 := 0x0800
def arpOperRequest : UInt16 := 1
def arpOperReply : UInt16 := 2
def ipProtoIcmp : UInt8 := 1
def ipProtoUdp : UInt8 := 17
def udpPortDhcpServer : UInt16 := 67
def udpPortDhcpClient : UInt16 := 68
def dhcpOpRequest : UInt8 := 1
def dhcpOpReply : UInt8 := 2
def dhcpHtypeEthernet : UInt8 := 1
def dhcpMagicCookie : UInt32 := 0x63825363
def dhcpOptionMsgType : UInt8 := 53
def dhcpOptionReqIp : UInt8 := 50
def dhcpOptionServerId : UInt8 := 54
def dhcpOptionSubnetMask : UInt8 := 1
def dhcpOptionRouter : UInt8 := 3
def dhcpOptionParamReqList : UInt8 := 55
def dhcpOptionEnd : UInt8 := 255
def dhcpMsgDiscover : UInt8 := 1
def dhcpMsgOffer : UInt8 := 2
def dhcpMsgRequest : UInt8 := 3
def dhcpMsgAck : UInt8 := 5
def netIpv4Any : UInt32 := 0
def netIpv4Broadcast : UInt32 := 0xFFFFFFFF
def netDefaultGw : UInt32 := 0x0A000202
def netDefaultMask : UInt32 := 0xFFFFFF00

abbrev Mac := List.Vector UInt8 6

def broadcastMac : Mac := ⟨List.replicate 6 0xFF, rfl⟩
def zeroMac : Mac := ⟨List.replicate 6 0, rfl⟩

structure ArpEntry where
  ip : UInt32 := 0
  mac : Mac := zeroMac
  valid : Bool := false
  updatedTick : UInt64 := 0
  deriving DecidableEq

structure PingWait where
  active : Bool := false
  identifier : UInt16 := 0
  sequence : UInt16 := 0
  targetIp : UInt32 := 0
  received : Bool := false
  replyTtl : UInt8 := 0
  replyMs : UInt32 := 0
  deriving DecidableEq

structure DhcpLease where
  active : Bool := false
  xid : UInt32 := 0
  offeredIp : UInt32 := 0
  serverIp : UInt32 := 0
  subnetMask : UInt32 := 0
  router : UInt32 := 0
  gotOffer : Bool := false
  gotAck : Bool := false
  deriving DecidableEq

inductive Wire
  | sent (frame : List UInt8)
  | received (frame : List UInt8)
  deriving DecidableEq

/-- The static variables of `net.c` that the modelled functions use, and the tick counter of the
scheduler. -/
structure Net where
  rtlReady : Bool := false
  mac : Mac := zeroMac
  txIndex : UInt8 := 0
  ipAddr : UInt32 := 0
  ipGw : UInt32 := 0
  ipMask : UInt32 := 0
  connected : Bool := false
  txFrames : UInt64 := 0
  arpCache : Fin maxArpCache → ArpEntry := fun _ => {}
  pingWait : PingWait := {}
  dhcp : DhcpLease := {}
  uptimeTicks : UInt64 := 0
  wire : List Wire := []

def schedulerUptimeMs (net : Net) : UInt64 := net.uptimeTicks * 1000 / hz

/-! ## The Internet checksum -/

def sumWords (bytes : List UInt8) : Nat → UInt32 → Nat → Option UInt32
  | _, sum, 0 => some sum
  | i, sum, n + 1 => do
      let high ← bytes[i]?
      let low ← bytes[i + 1]?
      sumWords bytes (i + 2) (sum + ((high.toUInt32 <<< 8) ||| low.toUInt32)) n

/-- `while ((sum >> 16) != 0)`, at most `fuel` tests of the condition. -/
def foldCarry : Nat → UInt32 → Option UInt32
  | 0, _ => none
  | fuel + 1, sum =>
      if sum >>> 16 ≠ 0 then foldCarry fuel ((sum &&& (0xFFFF : UInt32)) + (sum >>> 16)) else some sum

/-- `base` is the index of `data[0]`. -/
def checksum16 (bytes : List UInt8) (base length : Nat) : Option UInt16 := do
  let words ← sumWords bytes base 0 (length / 2)
  let sum ← (if length % 2 = 1 then do
      let last ← bytes[base + length - 1]?
      some (words + (last.toUInt32 <<< 8))
    else some words)
  let folded ← foldCarry 3 sum
  some (~~~folded).toUInt16

/-! ## Sending -/

def rtlSendRawFrame (net : Net) (frame : List UInt8) : Int × Net :=
  if ¬net.rtlReady ∨ frame.length = 0 ∨ txBufferSize < frame.length then (-1, net)
  else
    (0, { net with
      txIndex := (net.txIndex + 1) % txDescCount
      txFrames := net.txFrames + 1
      wire := net.wire ++ [.sent (frame ++ List.replicate (60 - frame.length) 0)] })

def arpFrame (dst sender target : Mac) (oper : UInt16) (senderIp targetIp : UInt32) : List UInt8 :=
  dst.toList ++ sender.toList ++ be16Store ethTypeArp ++
  be16Store arpHtypeEthernet ++ be16Store arpPtypeIpv4 ++ [6, 4] ++ be16Store oper ++
  sender.toList ++ be32Store senderIp ++ target.toList ++ be32Store targetIp

def arpSendRequest (net : Net) (targetIp : UInt32) : Int × Net :=
  rtlSendRawFrame net (arpFrame broadcastMac net.mac zeroMac arpOperRequest net.ipAddr targetIp)

def arpSendReply (net : Net) (targetMac : Mac) (targetIp : UInt32) : Int × Net :=
  rtlSendRawFrame net (arpFrame targetMac net.mac targetMac arpOperReply net.ipAddr targetIp)

def ipHeader (totalLength ident : UInt16) (protocol : UInt8) (checksum : UInt16) (src dst : UInt32) : List UInt8 :=
  [0x45, 0] ++ be16Store totalLength ++ be16Store ident ++ be16Store 0 ++ [64, protocol] ++
  be16Store checksum ++ be32Store src ++ be32Store dst

def icmpEcho (identifier sequence checksum : UInt16) : List UInt8 :=
  [8, 0] ++ be16Store checksum ++ be16Store identifier ++ be16Store sequence ++ (List.range' 8 24).map Nat.toUInt8

def icmpEchoFrame (net : Net) (targetIp : UInt32) (dstMac : Mac) (identifier sequence : UInt16) :
    Option (List UInt8) := do
  let header := ipHeader (20 + 32) sequence ipProtoIcmp
  let checksum ← checksum16 (header 0 net.ipAddr targetIp) 0 20
  let icmpChecksum ← checksum16 (icmpEcho identifier sequence 0) 0 32
  some (dstMac.toList ++ net.mac.toList ++ be16Store ethTypeIpv4 ++ header checksum net.ipAddr targetIp ++
    icmpEcho identifier sequence icmpChecksum)

def ipSendIcmpEcho (net : Net) (targetIp : UInt32) (dstMac : Mac) (identifier sequence : UInt16) :
    Option (Int × Net) := do
  let frame ← icmpEchoFrame net targetIp dstMac identifier sequence
  some (rtlSendRawFrame net frame)

def ipSendUdp (net : Net) (srcIp dstIp : UInt32) (srcPort dstPort : UInt16) (payload : List UInt8)
    (dstMac : Mac) : Option (Int × Net) :=
  if 548 < payload.length then some (-1, net)
  else do
    let totalPayload := 8 + payload.length
    let header := ipHeader (20 + totalPayload).toUInt16 net.uptimeTicks.toUInt16 ipProtoUdp
    let checksum ← checksum16 (header 0 srcIp dstIp) 0 20
    some (rtlSendRawFrame net (
      dstMac.toList ++ net.mac.toList ++ be16Store ethTypeIpv4 ++ header checksum srcIp dstIp ++
      be16Store srcPort ++ be16Store dstPort ++ be16Store totalPayload.toUInt16 ++ be16Store 0 ++ payload))

def dhcpHeader (net : Net) : List UInt8 :=
  [dhcpOpRequest, dhcpHtypeEthernet, 6, 0] ++ be32Store net.dhcp.xid ++ [0, 0] ++ be16Store 0x8000 ++
  List.replicate 16 0 ++ net.mac.toList ++ List.replicate 202 0 ++ be32Store dhcpMagicCookie

def dhcpSend (net : Net) (options : List UInt8) : Option (Int × Net) :=
  ipSendUdp net netIpv4Any netIpv4Broadcast udpPortDhcpClient udpPortDhcpServer (dhcpHeader net ++ options)
    broadcastMac

def dhcpSendDiscover (net : Net) : Option (Int × Net) :=
  dhcpSend net [dhcpOptionMsgType, 1, dhcpMsgDiscover, dhcpOptionParamReqList, 3, dhcpOptionSubnetMask,
    dhcpOptionRouter, dhcpOptionServerId, dhcpOptionEnd]

def dhcpRequestOptions (ip server : UInt32) : List UInt8 :=
  [dhcpOptionMsgType, 1, dhcpMsgRequest] ++ [dhcpOptionReqIp, 4] ++ be32Store ip ++
  [dhcpOptionServerId, 4] ++ be32Store server ++ [dhcpOptionEnd]

def dhcpSendRequest (net : Net) : Option (Int × Net) :=
  if ¬net.dhcp.gotOffer ∨ net.dhcp.serverIp = 0 ∨ net.dhcp.offeredIp = 0 then some (-1, net)
  else dhcpSend net (dhcpRequestOptions net.dhcp.offeredIp net.dhcp.serverIp)

/-! ## ARP -/

def setArp (net : Net) (i : Fin maxArpCache) (entry : ArpEntry) : Net :=
  { net with arpCache := Function.update net.arpCache i entry }

def arpFind (net : Net) (ip : UInt32) : Option (Fin maxArpCache) :=
  (List.finRange maxArpCache).find? fun i => (net.arpCache i).valid ∧ (net.arpCache i).ip = ip

def arpCacheUpdate (net : Net) (ip : UInt32) (mac : Mac) : Net :=
  match arpFind net ip with
  | some i => setArp net i { net.arpCache i with mac := mac, updatedTick := net.uptimeTicks }
  | none =>
      let slot := ((List.finRange maxArpCache).find? fun i => ¬(net.arpCache i).valid).getD 0
      setArp net slot { ip := ip, mac := mac, valid := true, updatedTick := net.uptimeTicks }

def arpCacheLookup (net : Net) (ip : UInt32) : Option Mac :=
  (arpFind net ip).map fun i => (net.arpCache i).mac

def loadMac (bytes : List UInt8) (i : Nat) : Option Mac := do
  let b0 ← bytes[i]?
  let b1 ← bytes[i + 1]?
  let b2 ← bytes[i + 2]?
  let b3 ← bytes[i + 3]?
  let b4 ← bytes[i + 4]?
  let b5 ← bytes[i + 5]?
  some ⟨[b0, b1, b2, b3, b4, b5], rfl⟩

def netProcessArp (net : Net) (frame : List UInt8) (base length : Nat) : Option Net :=
  if length < 28 then some net
  else do
    let htype ← be16Load frame (base + 0)
    let ptype ← be16Load frame (base + 2)
    let oper ← be16Load frame (base + 6)
    let hlen ← frame[base + 4]?
    let plen ← frame[base + 5]?
    if htype ≠ arpHtypeEthernet ∨ ptype ≠ arpPtypeIpv4 ∨ hlen ≠ 6 ∨ plen ≠ 4 then some net
    else do
      let sha ← loadMac frame (base + 8)
      let sip ← be32Load frame (base + 14)
      let tip ← be32Load frame (base + 24)
      let updated := arpCacheUpdate net sip sha
      if oper = arpOperRequest ∧ tip = net.ipAddr then some (arpSendReply updated sha sip).2
      else some updated

/-! ## DHCP -/

/-- The branch of `dhcp_parse_options` for one option; `i` is the index of its first value byte. -/
def dhcpOption (frame : List UInt8) (i : Nat) (code optLen : UInt8) (lease : DhcpLease) (msgType : UInt8) :
    Option (DhcpLease × UInt8) :=
  if code = dhcpOptionMsgType ∧ optLen = 1 then do
    let value ← frame[i]?
    some (lease, value)
  else if code = dhcpOptionServerId ∧ optLen = 4 then do
    let value ← be32Load frame i
    some ({ lease with serverIp := value }, msgType)
  else if code = dhcpOptionSubnetMask ∧ optLen = 4 then do
    let value ← be32Load frame i
    some ({ lease with subnetMask := value }, msgType)
  else if code = dhcpOptionRouter ∧ 4 ≤ optLen then do
    let value ← be32Load frame i
    some ({ lease with router := value }, msgType)
  else some (lease, msgType)

def dhcpOptionLoop (frame : List UInt8) (base length : Nat) :
    Nat → Nat → DhcpLease → UInt8 → Option (DhcpLease × UInt8)
  | 0, _, _, _ => none
  | fuel + 1, i, lease, msgType =>
      if i < length then do
        let code ← frame[base + i]?
        if code = dhcpOptionEnd then some (lease, msgType)
        else if code = 0 then dhcpOptionLoop frame base length fuel (i + 1) lease msgType
        else if length ≤ i + 1 then some (lease, msgType)
        else do
          let optLen ← frame[base + (i + 1)]?
          if length < i + 2 + optLen.toNat then some (lease, msgType)
          else do
            let (lease', msgType') ← dhcpOption frame (base + (i + 2)) code optLen lease msgType
            dhcpOptionLoop frame base length fuel (i + 2 + optLen.toNat) lease' msgType'
      else some (lease, msgType)

def dhcpParseOptions (lease : DhcpLease) (frame : List UInt8) (base length : Nat) :
    Option (DhcpLease × UInt8) :=
  dhcpOptionLoop frame base length (length + 1) 0 lease 0

/-- The two branches of `dhcp_process_packet` for an OFFER and an ACK, up to the flag they set. -/
def DhcpLease.accept (lease : DhcpLease) (yiaddr : UInt32) : DhcpLease :=
  { lease with
    offeredIp := yiaddr
    subnetMask := if lease.subnetMask = 0 then netDefaultMask else lease.subnetMask
    router := if lease.router = 0 then netDefaultGw else lease.router }

def dhcpProcessPacket (net : Net) (frame : List UInt8) (base length : Nat) : Option Net :=
  if ¬net.dhcp.active ∨ length < 240 then some net
  else do
    let op ← frame[base + 0]?
    let htype ← frame[base + 1]?
    let hlen ← frame[base + 2]?
    if op ≠ dhcpOpReply ∨ htype ≠ dhcpHtypeEthernet ∨ hlen ≠ 6 then some net
    else do
      let xid ← be32Load frame (base + 4)
      if xid ≠ net.dhcp.xid then some net
      else do
        let chaddr ← loadMac frame (base + 28)
        if chaddr ≠ net.mac then some net
        else do
          let cookie ← be32Load frame (base + 236)
          if cookie ≠ dhcpMagicCookie then some net
          else do
            let yiaddr ← be32Load frame (base + 16)
            let (lease, msgType) ← dhcpParseOptions net.dhcp frame (base + 240) (length - 240)
            if msgType = dhcpMsgOffer then
              some { net with dhcp := { lease.accept yiaddr with gotOffer := true } }
            else if msgType = dhcpMsgAck then
              some { net with dhcp := { lease.accept yiaddr with gotAck := true } }
            else some { net with dhcp := lease }

/-! ## IPv4 -/

def headerLength (first : UInt8) : Nat := ((first &&& 0x0F) * 4).toNat

def netProcessIcmp (net : Net) (frame : List UInt8) (ip ipLength : Nat) : Option Net := do
  let first ← frame[ip + 0]?
  let ihl := headerLength first
  if ipLength < 20 ∨ ihl < 20 ∨ ipLength < ihl + 8 then some net
  else do
    let icmp := ip + ihl
    let checksum ← checksum16 frame icmp (ipLength - ihl)
    if checksum ≠ 0 then some net
    else do
      let type ← frame[icmp + 0]?
      let ident ← be16Load frame (icmp + 4)
      let seq ← be16Load frame (icmp + 6)
      if type = 0 ∧ net.pingWait.active ∧ net.pingWait.identifier = ident ∧ net.pingWait.sequence = seq then do
        let ttl ← frame[ip + 8]?
        some { net with pingWait :=
          { net.pingWait with received := true, replyTtl := ttl, replyMs := (schedulerUptimeMs net).toUInt32 } }
      else some net

def netProcessUdp (net : Net) (frame : List UInt8) (ip ipLength : Nat) : Option Net := do
  let first ← frame[ip + 0]?
  let ihl := headerLength first
  if ipLength < 20 ∨ ihl < 20 ∨ ipLength < ihl + 8 then some net
  else do
    let udp := ip + ihl
    let udpLen ← be16Load frame (udp + 4)
    if udpLen < 8 ∨ ipLength < ihl + udpLen.toNat then some net
    else do
      let srcPort ← be16Load frame (udp + 0)
      let dstPort ← be16Load frame (udp + 2)
      if srcPort = udpPortDhcpServer ∧ dstPort = udpPortDhcpClient then
        dhcpProcessPacket net frame (udp + 8) (udpLen.toNat - 8)
      else some net

def ipv4Accepts (net : Net) (protocol : UInt8) (dstIp : UInt32) : Prop :=
  if protocol = ipProtoUdp then dstIp = net.ipAddr ∨ dstIp = netIpv4Broadcast ∨ net.ipAddr = netIpv4Any
  else dstIp = net.ipAddr

instance (net : Net) (protocol : UInt8) (dstIp : UInt32) : Decidable (ipv4Accepts net protocol dstIp) :=
  inferInstanceAs (Decidable (if protocol = ipProtoUdp then
    dstIp = net.ipAddr ∨ dstIp = netIpv4Broadcast ∨ net.ipAddr = netIpv4Any else dstIp = net.ipAddr))

def netProcessIpv4 (net : Net) (frame : List UInt8) (base length : Nat) : Option Net :=
  if length < 20 then some net
  else do
    let first ← frame[base + 0]?
    let version := (first >>> 4) &&& 0x0F
    let ihl := headerLength first
    if version ≠ 4 ∨ ihl < 20 ∨ length < ihl then some net
    else do
      let totalLength ← be16Load frame (base + 2)
      if totalLength.toNat < ihl ∨ length < totalLength.toNat then some net
      else do
        let checksum ← checksum16 frame base ihl
        if checksum ≠ 0 then some net
        else do
          let flagsFragment ← be16Load frame (base + 6)
          if flagsFragment &&& 0x3FFF ≠ 0 then some net
          else do
            let dstIp ← be32Load frame (base + 16)
            let protocol ← frame[base + 9]?
            if ¬ipv4Accepts net protocol dstIp then some net
            else if protocol = ipProtoIcmp then netProcessIcmp net frame base totalLength.toNat
            else if protocol = ipProtoUdp then netProcessUdp net frame base totalLength.toNat
            else some net

def netProcessFrame (net : Net) (frame : List UInt8) (length : Nat) : Option Net :=
  if length < 14 then some net
  else do
    let ethType ← be16Load frame 12
    if ethType = ethTypeArp then netProcessArp net frame 14 (length - 14)
    else if ethType = ethTypeIpv4 then netProcessIpv4 net frame 14 (length - 14)
    else some net

end Mgcore
