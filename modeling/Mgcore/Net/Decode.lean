import Mgcore.Net.Model

/-!
# What a frame says

`dhcpMessage` reads a frame as a DHCP reply without looking at the driver. A handled frame then changes the
driver in one of four ways: not at all, as an ARP packet, as an echo reply, or as a DHCP reply for us, which the
lease hears as a message and not as bytes.
-/

namespace Mgcore

open Lib

/-! ## Options -/

abbrev DhcpOption := UInt8 × List UInt8

def dhcpOptions (bytes : List UInt8) : List DhcpOption := tagged 0 dhcpOptionEnd bytes

def msgTypeOption (o : DhcpOption) : Option UInt8 :=
  if o.1 = dhcpOptionMsgType ∧ o.2.length = 1 then o.2[0]? else none

def addressOption (code : UInt8) (o : DhcpOption) : Option UInt32 :=
  if o.1 = code ∧ o.2.length = 4 then be32Load o.2 0 else none

def routerOption (o : DhcpOption) : Option UInt32 :=
  if o.1 = dhcpOptionRouter ∧ 4 ≤ o.2.length then be32Load o.2 0 else none

def lastOption {α : Type} (read : DhcpOption → Option α) (options : List DhcpOption) : Option α :=
  (options.filterMap read).getLast?

@[simp] theorem lastOption_nil {α : Type} (read : DhcpOption → Option α) : lastOption read [] = none := rfl

theorem lastOption_cons {α : Type} (read : DhcpOption → Option α) (o : DhcpOption) (options : List DhcpOption)
    (old : α) : (lastOption read (o :: options)).getD old = (lastOption read options).getD ((read o).getD old) := by
  unfold lastOption
  cases found : read o with
  | none => rw [List.filterMap_cons_none found]; rfl
  | some value =>
      rw [List.filterMap_cons_some found, List.getLast?_cons]
      rfl

def DhcpLease.learn (lease : DhcpLease) (options : List DhcpOption) : DhcpLease :=
  { lease with
    serverIp := (lastOption (addressOption dhcpOptionServerId) options).getD lease.serverIp
    subnetMask := (lastOption (addressOption dhcpOptionSubnetMask) options).getD lease.subnetMask
    router := (lastOption routerOption options).getD lease.router }

theorem DhcpLease.learn_cons (lease : DhcpLease) (o : DhcpOption) (options : List DhcpOption) :
    lease.learn (o :: options) = (lease.learn [o]).learn options := by
  simp only [learn, lastOption_cons, lastOption_nil, Option.getD_none]

theorem dhcpOption_eq {frame : List UInt8} {i : Nat} {code optLen : UInt8} (lease : DhcpLease) (msgType : UInt8)
    (inside : i + optLen.toNat ≤ frame.length) :
    dhcpOption frame i code optLen lease msgType =
      some (lease.learn [(code, slice frame i optLen.toNat)],
        (lastOption msgTypeOption [(code, slice frame i optLen.toNat)]).getD msgType) := by
  have size := slice_length inside
  have one : optLen = 1 ↔ optLen.toNat = 1 := UInt8.toNat_inj.symm
  have four : optLen = 4 ↔ optLen.toNat = 4 := UInt8.toNat_inj.symm
  have atLeast : 4 ≤ optLen ↔ 4 ≤ optLen.toNat := UInt8.le_iff_toNat_le
  simp only [DhcpLease.learn, lastOption_cons, lastOption_nil, Option.getD_none, addressOption, routerOption,
    msgTypeOption, size]
  unfold dhcpOption
  simp only [one, four, atLeast]
  generalize optLen.toNat = n at inside
  -- the four tests exclude each other, so at most one field is read on either side
  by_cases type : code = dhcpOptionMsgType ∧ n = 1
  · obtain ⟨rfl, rfl⟩ := type
    obtain ⟨value, found⟩ := Option.isSome_iff_exists.mp (byte_isSome inside)
    have same : (slice frame i 1)[0]? = some value := by rw [slice_getElem? (by decide)]; exact found
    simp [found, same, dhcpOptionMsgType, dhcpOptionServerId, dhcpOptionSubnetMask, dhcpOptionRouter]
  have word (enough : 4 ≤ n) : ∃ value, be32Load frame i = some value ∧ be32Load (slice frame i n) 0 = some value := by
    obtain ⟨value, found⟩ : ∃ value, be32Load frame i = some value :=
      Option.isSome_iff_exists.mp (be32Load_isSome (by omega))
    exact ⟨value, found, by rw [be32Load_slice enough, found]⟩
  by_cases server : code = dhcpOptionServerId ∧ n = 4
  · obtain ⟨rfl, rfl⟩ := server
    obtain ⟨value, found, same⟩ := word (by decide)
    simp [found, same, dhcpOptionMsgType, dhcpOptionServerId, dhcpOptionSubnetMask, dhcpOptionRouter]
  by_cases mask : code = dhcpOptionSubnetMask ∧ n = 4
  · obtain ⟨rfl, rfl⟩ := mask
    obtain ⟨value, found, same⟩ := word (by decide)
    simp [found, same, dhcpOptionMsgType, dhcpOptionServerId, dhcpOptionSubnetMask, dhcpOptionRouter]
  by_cases router : code = dhcpOptionRouter ∧ 4 ≤ n
  · obtain ⟨rfl, enough⟩ := router
    obtain ⟨value, found, same⟩ := word enough
    simp [found, same, enough, dhcpOptionMsgType, dhcpOptionServerId, dhcpOptionSubnetMask, dhcpOptionRouter]
  simp only [type, server, mask, router, if_false, Option.getD_none]

theorem dhcpOptionLoop_eq {frame : List UInt8} {base length : Nat} (inside : base + length ≤ frame.length)
    {fuel i : Nat} (lease : DhcpLease) (msgType : UInt8) (within : i ≤ length) (enough : length < fuel + i) :
    dhcpOptionLoop frame base length fuel i lease msgType =
      some (lease.learn (taggedLoop 0 dhcpOptionEnd fuel (slice frame (base + i) (length - i))),
        (lastOption msgTypeOption (taggedLoop 0 dhcpOptionEnd fuel (slice frame (base + i) (length - i)))).getD
          msgType) := by
  induction fuel generalizing i lease msgType with
  | zero => omega
  | succ fuel ih =>
      rw [dhcpOptionLoop]
      rcases Nat.lt_or_ge i length with more | done
      · obtain ⟨code, found⟩ : ∃ code, frame[base + i]? = some code :=
          Option.isSome_iff_exists.mp (byte_isSome (by omega))
        rw [if_pos more, found, slice_cons found more]
        simp only [Option.bind_eq_bind, Option.bind_some, taggedLoop]
        by_cases last : code = dhcpOptionEnd
        · rw [if_pos last, if_pos last]
          rfl
        rw [if_neg last, if_neg last]
        by_cases padding : code = 0
        · rw [if_pos padding, if_pos padding]
          exact ih lease msgType (by omega) (by omega)
        rw [if_neg padding, if_neg padding]
        rcases Nat.lt_or_ge (i + 1) length with more' | cut
        · obtain ⟨optLen, read⟩ : ∃ optLen, frame[base + (i + 1)]? = some optLen :=
            Option.isSome_iff_exists.mp (byte_isSome (by omega))
          have size : (slice frame (base + (i + 2)) (length - (i + 2))).length = length - (i + 2) :=
            slice_length (by omega)
          rw [if_neg (by omega), read, slice_cons read more']
          simp only [Option.bind_some, size]
          by_cases short : length < i + 2 + optLen.toNat
          · rw [if_pos short, if_pos (by omega)]
            rfl
          rw [if_neg short, if_neg (by omega), dhcpOption_eq lease msgType (by omega), slice_take (by omega), slice_drop,
            Nat.sub_sub, Nat.add_assoc base]
          simp only [Option.bind_some]
          rw [ih _ _ (by omega) (by omega), ← DhcpLease.learn_cons, lastOption_cons, lastOption_cons, lastOption_nil,
            Option.getD_none]
        · rw [if_pos cut, show length - (i + 1) = 0 by omega, slice_zero]
          rfl
      · rw [if_neg (by omega), show length - i = 0 by omega, slice_zero]
        rfl

theorem dhcpParseOptions_eq (lease : DhcpLease) {frame : List UInt8} {base length : Nat}
    (inside : base + length ≤ frame.length) :
    dhcpParseOptions lease frame base length =
      some (lease.learn (dhcpOptions (slice frame base length)),
        (lastOption msgTypeOption (dhcpOptions (slice frame base length))).getD 0) := by
  rw [dhcpParseOptions, dhcpOptionLoop_eq inside lease 0 (Nat.zero_le length) (by omega), dhcpOptions, tagged,
    slice_length inside]
  rfl

/-! ## Messages -/

/-- A BOOTP reply with the DHCP cookie, and the address it was sent to. -/
structure DhcpMessage where
  dstIp : UInt32
  xid : UInt32
  chaddr : Mac
  yiaddr : UInt32
  options : List DhcpOption
  deriving DecidableEq

def DhcpMessage.msgType (m : DhcpMessage) : UInt8 := (lastOption msgTypeOption m.options).getD 0

def DhcpMessage.serverId (m : DhcpMessage) : Option UInt32 :=
  lastOption (addressOption dhcpOptionServerId) m.options

def DhcpLease.hear (lease : DhcpLease) (m : DhcpMessage) : DhcpLease :=
  if m.msgType = dhcpMsgOffer then { (lease.learn m.options).accept m.yiaddr with gotOffer := true }
  else if m.msgType = dhcpMsgAck then { (lease.learn m.options).accept m.yiaddr with gotAck := true }
  else lease.learn m.options

def bootpReply (frame : List UInt8) (dstIp : UInt32) (base length : Nat) : Option DhcpMessage :=
  if length < 240 then none
  else do
    let op ← frame[base + 0]?
    let htype ← frame[base + 1]?
    let hlen ← frame[base + 2]?
    if op ≠ dhcpOpReply ∨ htype ≠ dhcpHtypeEthernet ∨ hlen ≠ 6 then none
    else do
      let xid ← be32Load frame (base + 4)
      let chaddr ← loadMac frame (base + 28)
      let cookie ← be32Load frame (base + 236)
      if cookie ≠ dhcpMagicCookie then none
      else do
        let yiaddr ← be32Load frame (base + 16)
        some { dstIp, xid, chaddr, yiaddr, options := dhcpOptions (slice frame (base + 240) (length - 240)) }

def dhcpPayload (frame : List UInt8) (ip ipLength : Nat) : Option (Nat × Nat) := do
  let first ← frame[ip + 0]?
  let ihl := headerLength first
  if ipLength < 20 ∨ ihl < 20 ∨ ipLength < ihl + 8 then none
  else do
    let udp := ip + ihl
    let udpLen ← be16Load frame (udp + 4)
    if udpLen < 8 ∨ ipLength < ihl + udpLen.toNat then none
    else do
      let srcPort ← be16Load frame (udp + 0)
      let dstPort ← be16Load frame (udp + 2)
      if srcPort = udpPortDhcpServer ∧ dstPort = udpPortDhcpClient then some (udp + 8, udpLen.toNat - 8) else none

def ipv4Packet (frame : List UInt8) (base length : Nat) : Option (Nat × UInt8 × UInt32) :=
  if length < 20 then none
  else do
    let first ← frame[base + 0]?
    let version := (first >>> 4) &&& 0x0F
    let ihl := headerLength first
    if version ≠ 4 ∨ ihl < 20 ∨ length < ihl then none
    else do
      let totalLength ← be16Load frame (base + 2)
      if totalLength.toNat < ihl ∨ length < totalLength.toNat then none
      else do
        let checksum ← checksum16 frame base ihl
        if checksum ≠ 0 then none
        else do
          let flagsFragment ← be16Load frame (base + 6)
          if flagsFragment &&& 0x3FFF ≠ 0 then none
          else do
            let dstIp ← be32Load frame (base + 16)
            let protocol ← frame[base + 9]?
            some (totalLength.toNat, protocol, dstIp)

def dhcpMessage (frame : List UInt8) : Option DhcpMessage :=
  if frame.length < 14 then none
  else do
    let ethType ← be16Load frame 12
    if ethType ≠ ethTypeIpv4 then none
    else do
      let (totalLength, protocol, dstIp) ← ipv4Packet frame 14 (frame.length - 14)
      if protocol ≠ ipProtoUdp then none
      else do
        let (base, length) ← dhcpPayload frame 14 totalLength
        bootpReply frame dstIp base length

def Hears (net : Net) (m : DhcpMessage) : Prop :=
  net.dhcp.active ∧ m.xid = net.dhcp.xid ∧ m.chaddr = net.mac ∧ ipv4Accepts net ipProtoUdp m.dstIp

theorem arpCacheUpdate_eq (net : Net) (ip : UInt32) (mac : Mac) :
    ∃ cache, arpCacheUpdate net ip mac = { net with arpCache := cache } ∧
      ∃ i, ∀ j, j ≠ i → cache j = net.arpCache j := by
  unfold arpCacheUpdate
  cases arpFind net ip with
  | none => exact ⟨_, rfl, _, fun j other => Function.update_of_ne other ..⟩
  | some i => exact ⟨_, rfl, i, fun j other => Function.update_of_ne other ..⟩

theorem rtlSendRawFrame_cases (net : Net) (frame : List UInt8) :
    rtlSendRawFrame net frame = (-1, net) ∨
      rtlSendRawFrame net frame = (0, { net with
        txIndex := (net.txIndex + 1) % txDescCount
        txFrames := net.txFrames + 1
        wire := net.wire ++ [.sent (frame ++ List.replicate (60 - frame.length) 0)] }) := by
  unfold rtlSendRawFrame
  split_ifs
  · exact Or.inl rfl
  · exact Or.inr rfl

@[simp] theorem ipHeader_length (totalLength ident : UInt16) (protocol : UInt8) (checksum : UInt16) (src dst : UInt32) :
    (ipHeader totalLength ident protocol checksum src dst).length = 20 := rfl

@[simp] theorem dhcpHeader_length (net : Net) : (dhcpHeader net).length = 240 := by
  simp only [dhcpHeader, List.length_append, List.length_replicate, be32Store_length, be16Store_length,
    List.Vector.toList_length, List.length_cons, List.length_nil]

theorem arpFrame_length (dst sender target : Mac) (oper : UInt16) (senderIp targetIp : UInt32) :
    (arpFrame dst sender target oper senderIp targetIp).length = 42 := by
  simp [arpFrame]

inductive FrameEffect (net : Net) (frame : List UInt8) : Net → Prop
  | ignored : FrameEffect net frame net
  | arp (ip : UInt32) (mac : Mac) : FrameEffect net frame (arpCacheUpdate net ip mac)
  | arpReply (ip : UInt32) (mac : Mac) : FrameEffect net frame (arpSendReply (arpCacheUpdate net ip mac) mac ip).2
  | echo (ttl : UInt8) (active : net.pingWait.active) :
      FrameEffect net frame { net with pingWait :=
        { net.pingWait with received := true, replyTtl := ttl, replyMs := (schedulerUptimeMs net).toUInt32 } }
  | dhcp (m : DhcpMessage) (decoded : dhcpMessage frame = some m) (heard : Hears net m) :
      FrameEffect net frame { net with dhcp := net.dhcp.hear m }

theorem netProcessArp_effect {net after : Net} {frame : List UInt8} {base length : Nat}
    (result : netProcessArp net frame base length = some after) : FrameEffect net frame after := by
  rcases rejected_or result with rfl | ⟨_, result⟩
  · exact .ignored
  obtain ⟨htype, _, result⟩ := Option.bind_eq_some_iff.mp result
  obtain ⟨ptype, _, result⟩ := Option.bind_eq_some_iff.mp result
  obtain ⟨oper, _, result⟩ := Option.bind_eq_some_iff.mp result
  obtain ⟨hlen, _, result⟩ := Option.bind_eq_some_iff.mp result
  obtain ⟨plen, _, result⟩ := Option.bind_eq_some_iff.mp result
  rcases rejected_or result with rfl | ⟨_, result⟩
  · exact .ignored
  obtain ⟨sha, _, result⟩ := Option.bind_eq_some_iff.mp result
  obtain ⟨sip, _, result⟩ := Option.bind_eq_some_iff.mp result
  obtain ⟨tip, _, result⟩ := Option.bind_eq_some_iff.mp result
  rcases rejected_or result with rfl | ⟨_, result⟩
  · exact .arpReply sip sha
  · cases result
    exact .arp sip sha

theorem netProcessIcmp_cases {net after : Net} {frame : List UInt8} {ip ipLength : Nat}
    (result : netProcessIcmp net frame ip ipLength = some after) :
    after = net ∨ net.pingWait.active ∧ ∃ ttl, after = { net with pingWait :=
      { net.pingWait with received := true, replyTtl := ttl, replyMs := (schedulerUptimeMs net).toUInt32 } } := by
  obtain ⟨first, _, result⟩ := Option.bind_eq_some_iff.mp result
  rcases rejected_or result with rfl | ⟨_, result⟩
  · exact .inl rfl
  obtain ⟨checksum, _, result⟩ := Option.bind_eq_some_iff.mp result
  rcases rejected_or result with rfl | ⟨_, result⟩
  · exact .inl rfl
  obtain ⟨type, _, result⟩ := Option.bind_eq_some_iff.mp result
  obtain ⟨ident, _, result⟩ := Option.bind_eq_some_iff.mp result
  obtain ⟨seq, _, result⟩ := Option.bind_eq_some_iff.mp result
  split_ifs at result with awaited
  · obtain ⟨ttl, _, result⟩ := Option.bind_eq_some_iff.mp result
    exact .inr ⟨awaited.2.1, ttl, (Option.some.inj result).symm⟩
  · exact .inl (Option.some.inj result).symm

theorem netProcessIcmp_effect {net after : Net} {frame : List UInt8} {ip ipLength : Nat}
    (result : netProcessIcmp net frame ip ipLength = some after) : FrameEffect net frame after := by
  rcases netProcessIcmp_cases result with rfl | ⟨active, ttl, rfl⟩
  · exact .ignored
  · exact .echo ttl active

theorem hear_eq (net : Net) (m : DhcpMessage) :
    (if m.msgType = dhcpMsgOffer then
      some { net with dhcp := { (net.dhcp.learn m.options).accept m.yiaddr with gotOffer := true } }
    else if m.msgType = dhcpMsgAck then
      some { net with dhcp := { (net.dhcp.learn m.options).accept m.yiaddr with gotAck := true } }
    else some { net with dhcp := net.dhcp.learn m.options }) = some { net with dhcp := net.dhcp.hear m } := by
  rw [DhcpLease.hear]
  split_ifs <;> rfl

theorem dhcpProcessPacket_cases {net after : Net} {frame : List UInt8} {base length : Nat}
    (inside : base + length ≤ frame.length) (dstIp : UInt32)
    (result : dhcpProcessPacket net frame base length = some after) :
    after = net ∨ ∃ m, bootpReply frame dstIp base length = some m ∧ m.dstIp = dstIp ∧ net.dhcp.active ∧
      m.xid = net.dhcp.xid ∧ m.chaddr = net.mac ∧ after = { net with dhcp := net.dhcp.hear m } := by
  rcases rejected_or result with rfl | ⟨awaits, result⟩
  · exact .inl rfl
  have long : 240 ≤ length := by omega
  obtain ⟨op, readOp, result⟩ := Option.bind_eq_some_iff.mp result
  obtain ⟨htype, readHtype, result⟩ := Option.bind_eq_some_iff.mp result
  obtain ⟨hlen, readHlen, result⟩ := Option.bind_eq_some_iff.mp result
  rcases rejected_or result with rfl | ⟨reply, result⟩
  · exact .inl rfl
  obtain ⟨xid, readXid, result⟩ := Option.bind_eq_some_iff.mp result
  rcases rejected_or result with rfl | ⟨ours, result⟩
  · exact .inl rfl
  obtain ⟨chaddr, readChaddr, result⟩ := Option.bind_eq_some_iff.mp result
  rcases rejected_or result with rfl | ⟨us, result⟩
  · exact .inl rfl
  obtain ⟨cookie, readCookie, result⟩ := Option.bind_eq_some_iff.mp result
  rcases rejected_or result with rfl | ⟨magic, result⟩
  · exact .inl rfl
  obtain ⟨yiaddr, readYiaddr, result⟩ := Option.bind_eq_some_iff.mp result
  rw [dhcpParseOptions_eq net.dhcp (by omega)] at result
  obtain ⟨options, read⟩ : ∃ options, options = dhcpOptions (slice frame (base + 240) (length - 240)) := ⟨_, rfl⟩
  rw [← read] at result
  have heard := (hear_eq net ⟨dstIp, xid, chaddr, yiaddr, options⟩).symm.trans result
  refine .inr ⟨⟨dstIp, xid, chaddr, yiaddr, options⟩, ?_, rfl, by simpa using fun h => awaits (Or.inl h),
    not_not.mp ours, not_not.mp us, (Option.some.inj heard).symm⟩
  simp only [bootpReply, if_neg (Nat.not_lt.mpr long), readOp, readHtype, readHlen, if_neg reply, readXid, readChaddr,
    readCookie, if_neg magic, readYiaddr, Option.bind_eq_bind, Option.bind_some, read]

theorem netProcessUdp_cases {net after : Net} {frame : List UInt8} {ip ipLength : Nat}
    (inside : ip + ipLength ≤ frame.length) (dstIp : UInt32)
    (result : netProcessUdp net frame ip ipLength = some after) :
    after = net ∨ ∃ base length m, dhcpPayload frame ip ipLength = some (base, length) ∧
      bootpReply frame dstIp base length = some m ∧ m.dstIp = dstIp ∧ net.dhcp.active ∧
      m.xid = net.dhcp.xid ∧ m.chaddr = net.mac ∧ after = { net with dhcp := net.dhcp.hear m } := by
  obtain ⟨first, readFirst, result⟩ := Option.bind_eq_some_iff.mp result
  rcases rejected_or result with rfl | ⟨long, result⟩
  · exact .inl rfl
  obtain ⟨udpLen, readLen, result⟩ := Option.bind_eq_some_iff.mp result
  rcases rejected_or result with rfl | ⟨fits, result⟩
  · exact .inl rfl
  obtain ⟨srcPort, readSrc, result⟩ := Option.bind_eq_some_iff.mp result
  obtain ⟨dstPort, readDst, result⟩ := Option.bind_eq_some_iff.mp result
  split_ifs at result with ports
  · have eight : 8 ≤ udpLen.toNat := by
      have := fun short => fits (Or.inl (UInt16.lt_iff_toNat_lt.mpr short))
      exact Nat.le_of_not_lt this
    rcases dhcpProcessPacket_cases (by omega) dstIp result with same | ⟨m, message⟩
    · exact .inl same
    · refine .inr ⟨_, _, m, ?_, message⟩
      simp only [dhcpPayload, readFirst, if_neg long, readLen, if_neg fits, readSrc, readDst, if_pos ports,
        Option.bind_eq_bind, Option.bind_some]
  · exact .inl (Option.some.inj result).symm

theorem netProcessIpv4_cases {net after : Net} {frame : List UInt8} {base length : Nat}
    (result : netProcessIpv4 net frame base length = some after) :
    after = net ∨ ∃ totalLength protocol dstIp, ipv4Packet frame base length = some (totalLength, protocol, dstIp) ∧
      totalLength ≤ length ∧ ipv4Accepts net protocol dstIp ∧
      (protocol = ipProtoIcmp ∧ netProcessIcmp net frame base totalLength = some after ∨
        protocol = ipProtoUdp ∧ netProcessUdp net frame base totalLength = some after) := by
  rcases rejected_or result with rfl | ⟨long, result⟩
  · exact .inl rfl
  obtain ⟨first, readFirst, result⟩ := Option.bind_eq_some_iff.mp result
  rcases rejected_or result with rfl | ⟨version, result⟩
  · exact .inl rfl
  obtain ⟨totalLength, readTotal, result⟩ := Option.bind_eq_some_iff.mp result
  rcases rejected_or result with rfl | ⟨total, result⟩
  · exact .inl rfl
  obtain ⟨checksum, readChecksum, result⟩ := Option.bind_eq_some_iff.mp result
  rcases rejected_or result with rfl | ⟨good, result⟩
  · exact .inl rfl
  obtain ⟨flags, readFlags, result⟩ := Option.bind_eq_some_iff.mp result
  rcases rejected_or result with rfl | ⟨whole, result⟩
  · exact .inl rfl
  obtain ⟨dstIp, readDst, result⟩ := Option.bind_eq_some_iff.mp result
  obtain ⟨protocol, readProtocol, result⟩ := Option.bind_eq_some_iff.mp result
  rcases rejected_or result with rfl | ⟨accepts, result⟩
  · exact .inl rfl
  have decoded : ipv4Packet frame base length = some (totalLength.toNat, protocol, dstIp) := by
    simp only [ipv4Packet, if_neg long, readFirst, if_neg version, readTotal, if_neg total, readChecksum, if_neg good,
      readFlags, if_neg whole, readDst, readProtocol, Option.bind_eq_bind, Option.bind_some]
  split_ifs at result with icmp udp
  · exact .inr ⟨_, _, _, decoded, by omega, not_not.mp accepts, .inl ⟨icmp, result⟩⟩
  · exact .inr ⟨_, _, _, decoded, by omega, not_not.mp accepts, .inr ⟨udp, result⟩⟩
  · exact .inl (Option.some.inj result).symm

theorem dhcpMessage_of_layers {frame : List UInt8} {totalLength base length : Nat} {dstIp : UInt32} {m : DhcpMessage}
    (long : 14 ≤ frame.length) (readType : be16Load frame 12 = some ethTypeIpv4)
    (decoded : ipv4Packet frame 14 (frame.length - 14) = some (totalLength, ipProtoUdp, dstIp))
    (payload : dhcpPayload frame 14 totalLength = some (base, length))
    (message : bootpReply frame dstIp base length = some m) : dhcpMessage frame = some m := by
  simp only [dhcpMessage, if_neg (Nat.not_lt.mpr long), readType, ne_eq, not_true_eq_false, if_false, decoded, payload,
    message, Option.bind_eq_bind, Option.bind_some]

theorem netProcessFrame_effect {net after : Net} {frame : List UInt8}
    (result : netProcessFrame net frame frame.length = some after) : FrameEffect net frame after := by
  rcases rejected_or result with rfl | ⟨long, result⟩
  · exact .ignored
  obtain ⟨ethType, readType, result⟩ := Option.bind_eq_some_iff.mp result
  split_ifs at result with arp ipv4
  · exact netProcessArp_effect result
  · rcases netProcessIpv4_cases result with rfl | ⟨totalLength, protocol, dstIp, decoded, fits, accepts, inner⟩
    · exact .ignored
    rcases inner with ⟨_, result⟩ | ⟨rfl, result⟩
    · exact netProcessIcmp_effect result
    rcases netProcessUdp_cases (by omega) dstIp result with
      rfl | ⟨base, length, m, payload, message, rfl, active, xid, chaddr, rfl⟩
    · exact .ignored
    rw [ipv4] at readType
    have heard := dhcpMessage_of_layers (Nat.not_lt.mp long) readType decoded payload message
    exact .dhcp m heard ⟨active, xid, chaddr, accepts⟩
  · cases result
    exact .ignored

end Mgcore
