import Mgcore.Net.Session

/-!
# Joining the network

`net_startup_connect` around `net_dhcp_acquire`, while frames arrive and the timer ticks between any two of its steps. What
the client believes is what the replies on the cable say in their order; it asks for what it believes then, and configures
what it believes in the end, or falls back to the static configuration.
-/

namespace Mgcore

open Lib

/-! ## The machine -/

def netDefaultIp : UInt32 := 0x0A00020F

inductive StartupPoint
  | acquire (point : AcquirePoint)
  | returned
  deriving DecidableEq

structure Startup where
  point : StartupPoint
  net : Net
  console : Console

def netStartupConnect (stack : Nat → UInt8) (s : Startup) : Option Startup :=
  match s.point with
  | .acquire (.returned value) =>
      if value ≠ 0 then do
        let net := { s.net with connected := true }
        let ip ← ipText stack net.ipAddr
        let gw ← ipText stack net.ipGw
        let console ← consolePrintf stack s.console (ascii "net0: DHCP lease acquired ip=%s gw=%s\n")
          [.text (some ip), .text (some gw)]
        return { point := .returned, net, console }
      else do
        let net := { s.net with ipAddr := netDefaultIp, ipGw := netDefaultGw, ipMask := netDefaultMask, connected := true }
        let ip ← ipText stack net.ipAddr
        let gw ← ipText stack net.ipGw
        let console ← consolePrintf stack s.console (ascii "net0: DHCP timeout, fallback static ip=%s gw=%s\n")
          [.text (some ip), .text (some gw)]
        return { point := .returned, net, console }
  | .acquire point => do
      let t ← netDhcpAcquire (hz * 3) { point, net := s.net }
      return { s with point := .acquire t.point, net := t.net }
  | .returned => none

def startupEvent (stack : Nat → UInt8) (s : Startup) (event : AcquireEvent) : Option Startup :=
  match s.point, event with
  | .returned, _ => none
  | _, .step => netStartupConnect stack s
  | _, .tick => some { s with net := { s.net with uptimeTicks := s.net.uptimeTicks + 1 } }
  | _, .frame bytes => (receiveFrame s.net bytes).map fun net => { s with net := net }

/-! ## What the replies say -/

def startupXid (first : Net) : UInt32 := ((first.uptimeTicks <<< 16) ^^^ 0x4D474443).toUInt32

/-- The reply that the client of `first` finds in a frame. -/
def replyFor (first : Net) : UInt64 × Wire → Option DhcpMessage
  | (_, .sent _) => none
  | (_, .received frame) => (dhcpMessage frame).filter fun m =>
      m.xid = startupXid first ∧ m.chaddr = first.mac ∧ ipv4Accepts first ipProtoUdp m.dstIp

/-- What the client believes when the cable has carried `log`. -/
def believed (first : Net) (log : Capture) : DhcpLease :=
  (log.filterMap (replyFor first)).foldl .hear { active := true, xid := startupXid first }

def Lends (m : DhcpMessage) : Prop := m.msgType = dhcpMsgOffer ∨ m.msgType = dhcpMsgAck

/-- Every part of a lease is what some reply says, or the default. -/
structure Sourced (heard : List DhcpMessage) (lease : DhcpLease) : Prop where
  offer : lease.gotOffer = true ↔ ∃ m ∈ heard, m.msgType = dhcpMsgOffer
  ack : lease.gotAck = true ↔ ∃ m ∈ heard, m.msgType = dhcpMsgAck
  address : (∃ m ∈ heard, Lends m) → ∃ m ∈ heard, Lends m ∧ m.yiaddr = lease.offeredIp
  server : lease.serverIp = 0 ∨ ∃ m ∈ heard, m.serverId = some lease.serverIp
  mask : lease.subnetMask = 0 ∨ lease.subnetMask = netDefaultMask ∨
    ∃ m ∈ heard, lastOption (addressOption dhcpOptionSubnetMask) m.options = some lease.subnetMask
  router : lease.router = 0 ∨ lease.router = netDefaultGw ∨ ∃ m ∈ heard, lastOption routerOption m.options = some lease.router

theorem hear_flags (lease : DhcpLease) (m : DhcpMessage) :
    ((lease.hear m).gotOffer = true ↔ lease.gotOffer = true ∨ m.msgType = dhcpMsgOffer) ∧
      ((lease.hear m).gotAck = true ↔ lease.gotAck = true ∨ m.msgType = dhcpMsgAck) := by
  have distinct : dhcpMsgAck ≠ dhcpMsgOffer := by decide
  unfold DhcpLease.hear
  split_ifs with offer ack
  · simp [offer, distinct.symm, DhcpLease.accept, DhcpLease.learn]
  · simp [ack, distinct, DhcpLease.accept, DhcpLease.learn]
  · simp [offer, ack, DhcpLease.learn]

theorem hear_address (lease : DhcpLease) (m : DhcpMessage) :
    Lends m ∧ (lease.hear m).offeredIp = m.yiaddr ∨ ¬Lends m ∧ (lease.hear m).offeredIp = lease.offeredIp := by
  unfold DhcpLease.hear
  split_ifs with offer ack
  · exact Or.inl ⟨Or.inl offer, rfl⟩
  · exact Or.inl ⟨Or.inr ack, rfl⟩
  · exact Or.inr ⟨not_or.mpr ⟨offer, ack⟩, rfl⟩

theorem getD_from {α : Type} (o : Option α) (old : α) : o.getD old = old ∨ o = some (o.getD old) := by
  cases o with
  | none => exact Or.inl rfl
  | some value => exact Or.inr rfl

theorem hear_server (lease : DhcpLease) (m : DhcpMessage) :
    (lease.hear m).serverIp = lease.serverIp ∨ m.serverId = some (lease.hear m).serverIp := by
  unfold DhcpLease.hear
  split_ifs
  all_goals exact getD_from m.serverId lease.serverIp

/-- The default stands in for what has not been said. -/
theorem hear_mask (lease : DhcpLease) (m : DhcpMessage) :
    (lease.hear m).subnetMask = lease.subnetMask ∨ (lease.hear m).subnetMask = netDefaultMask ∨
      lastOption (addressOption dhcpOptionSubnetMask) m.options = some (lease.hear m).subnetMask := by
  have learned := getD_from (lastOption (addressOption dhcpOptionSubnetMask) m.options) lease.subnetMask
  unfold DhcpLease.hear DhcpLease.accept DhcpLease.learn
  generalize lastOption (addressOption dhcpOptionSubnetMask) m.options = option at learned ⊢
  split_ifs
  all_goals first | exact Or.inr (Or.inl rfl) | exact learned.imp id Or.inr

theorem hear_router (lease : DhcpLease) (m : DhcpMessage) :
    (lease.hear m).router = lease.router ∨ (lease.hear m).router = netDefaultGw ∨
      lastOption routerOption m.options = some (lease.hear m).router := by
  have learned := getD_from (lastOption routerOption m.options) lease.router
  unfold DhcpLease.hear DhcpLease.accept DhcpLease.learn
  generalize lastOption routerOption m.options = option at learned ⊢
  split_ifs
  all_goals first | exact Or.inr (Or.inl rfl) | exact learned.imp id Or.inr

theorem Sourced.hear {heard : List DhcpMessage} {lease : DhcpLease} (sourced : Sourced heard lease) (m : DhcpMessage) :
    Sourced (heard ++ [m]) (lease.hear m) := by
  have last : m ∈ heard ++ [m] := List.mem_append_right heard (List.mem_singleton_self m)
  have earlier {P : DhcpMessage → Prop} : (∃ x ∈ heard, P x) → ∃ x ∈ heard ++ [m], P x :=
    fun ⟨x, member, holds⟩ => ⟨x, List.mem_append_left [m] member, holds⟩
  have snoc {P : DhcpMessage → Prop} : (∃ x ∈ heard ++ [m], P x) ↔ (∃ x ∈ heard, P x) ∨ P m := by
    simp [or_and_right, exists_or]
  obtain ⟨offer, ack⟩ := hear_flags lease m
  refine ⟨?_, ?_, fun lent => ?_, ?_, ?_, ?_⟩
  · rw [offer, sourced.offer, snoc]
  · rw [ack, sourced.ack, snoc]
  · rcases hear_address lease m with ⟨lends, same⟩ | ⟨silent, same⟩
    · exact ⟨m, last, lends, same.symm⟩
    · rw [same]
      exact earlier (sourced.address ((snoc.mp lent).resolve_right silent))
  · rcases hear_server lease m with same | said
    · rw [same]
      exact sourced.server.imp id earlier
    · exact Or.inr ⟨m, last, said⟩
  · rcases hear_mask lease m with same | default | said
    · rw [same]
      exact sourced.mask.imp id (Or.imp id earlier)
    · exact Or.inr (Or.inl default)
    · exact Or.inr (Or.inr ⟨m, last, said⟩)
  · rcases hear_router lease m with same | default | said
    · rw [same]
      exact sourced.router.imp id (Or.imp id earlier)
    · exact Or.inr (Or.inl default)
    · exact Or.inr (Or.inr ⟨m, last, said⟩)

theorem sourced_fresh (xid : UInt32) : Sourced [] { active := true, xid } := by
  refine ⟨?_, ?_, ?_, Or.inl rfl, Or.inl rfl, Or.inl rfl⟩
  · simp
  · simp
  · simp

/-- By induction on what is heard. -/
theorem foldl_sourced (heard more : List DhcpMessage) {lease : DhcpLease} (sourced : Sourced heard lease) :
    Sourced (heard ++ more) (more.foldl .hear lease) := by
  induction more generalizing heard lease with
  | nil =>
      rw [List.append_nil]
      exact sourced
  | cons m more ih =>
      have next := ih (heard ++ [m]) (sourced.hear m)
      rw [List.append_assoc] at next
      exact next

theorem believed_sourced (first : Net) (log : Capture) :
    Sourced (log.filterMap (replyFor first)) (believed first log) := by
  have whole := foldl_sourced [] (log.filterMap (replyFor first)) (sourced_fresh (startupXid first))
  rw [List.nil_append] at whole
  exact whole

/-! ## Hearing them -/

theorem netProcessUdp_payload {frame : List UInt8} {ip ipLength base length : Nat}
    (payload : dhcpPayload frame ip ipLength = some (base, length)) (net : Net) :
    netProcessUdp net frame ip ipLength = dhcpProcessPacket net frame base length ∧ base + length ≤ ip + ipLength := by
  obtain ⟨first, readFirst, payload⟩ := Option.bind_eq_some_iff.mp payload
  obtain ⟨long, payload⟩ := passed payload
  obtain ⟨udpLen, readLen, payload⟩ := Option.bind_eq_some_iff.mp payload
  obtain ⟨fits, payload⟩ := passed payload
  obtain ⟨srcPort, readSrc, payload⟩ := Option.bind_eq_some_iff.mp payload
  obtain ⟨dstPort, readDst, payload⟩ := Option.bind_eq_some_iff.mp payload
  split_ifs at payload with ports
  cases payload
  refine ⟨?_, ?_⟩
  · simp only [netProcessUdp, readFirst, if_neg long, readLen, if_neg fits, readSrc, readDst, if_pos ports, Option.bind_eq_bind,
      Option.bind_some]
  · have eight : 8 ≤ udpLen.toNat := by
      have := fun short => fits (Or.inl (UInt16.lt_iff_toNat_lt.mpr short))
      exact Nat.le_of_not_lt this
    omega

theorem dhcpProcessPacket_reply {net : Net} {frame : List UInt8} {dstIp : UInt32} {base length : Nat} {m : DhcpMessage}
    (reply : bootpReply frame dstIp base length = some m) (inside : base + length ≤ frame.length) (hears : Hears net m) :
    m.dstIp = dstIp ∧ dhcpProcessPacket net frame base length = some { net with dhcp := net.dhcp.hear m } := by
  obtain ⟨active, sameXid, sameMac, -⟩ := hears
  obtain ⟨long, reply⟩ := passed reply
  obtain ⟨op, readOp, reply⟩ := Option.bind_eq_some_iff.mp reply
  obtain ⟨htype, readHtype, reply⟩ := Option.bind_eq_some_iff.mp reply
  obtain ⟨hlen, readHlen, reply⟩ := Option.bind_eq_some_iff.mp reply
  obtain ⟨kind, reply⟩ := passed reply
  obtain ⟨xid, readXid, reply⟩ := Option.bind_eq_some_iff.mp reply
  obtain ⟨chaddr, readChaddr, reply⟩ := Option.bind_eq_some_iff.mp reply
  obtain ⟨cookie, readCookie, reply⟩ := Option.bind_eq_some_iff.mp reply
  obtain ⟨magic, reply⟩ := passed reply
  obtain ⟨yiaddr, readYiaddr, reply⟩ := Option.bind_eq_some_iff.mp reply
  cases reply
  have awaits : ¬(¬net.dhcp.active ∨ length < 240) := not_or.mpr ⟨not_not.mpr active, long⟩
  refine ⟨rfl, ?_⟩
  have read := dhcpParseOptions_eq net.dhcp (show base + 240 + (length - 240) ≤ frame.length by omega)
  generalize dhcpOptions (slice frame (base + 240) (length - 240)) = options at read ⊢
  simp only [dhcpProcessPacket, if_neg awaits, readOp, readHtype, readHlen, if_neg kind, readXid, if_neg (not_not.mpr sameXid),
    readChaddr, if_neg (not_not.mpr sameMac), readCookie, if_neg magic, readYiaddr, read,
    Option.bind_eq_bind, Option.bind_some]
  exact hear_eq net ⟨dstIp, xid, chaddr, yiaddr, options⟩

/-- The handlers read a reply as `dhcpMessage` does. -/
theorem netProcessFrame_reply {net : Net} {frame : List UInt8} {m : DhcpMessage} (decoded : dhcpMessage frame = some m)
    (hears : Hears net m) : netProcessFrame net frame frame.length = some { net with dhcp := net.dhcp.hear m } := by
  obtain ⟨long, decoded⟩ := passed decoded
  obtain ⟨ethType, readType, decoded⟩ := Option.bind_eq_some_iff.mp decoded
  obtain ⟨ipv4, decoded⟩ := passed decoded
  obtain ⟨⟨totalLength, protocol, dstIp⟩, packet, decoded⟩ := Option.bind_eq_some_iff.mp decoded
  obtain ⟨udp, decoded⟩ := passed decoded
  obtain ⟨⟨base, length⟩, payload, reply⟩ := Option.bind_eq_some_iff.mp decoded
  have notArp : ethType ≠ ethTypeArp := by
    rw [not_not.mp ipv4]
    decide
  have fits := (ipv4Packet_intact packet).fits
  obtain ⟨same, inside⟩ := netProcessUdp_payload payload net
  obtain ⟨rfl, heard⟩ := dhcpProcessPacket_reply reply (by omega) hears
  rw [netProcessFrame, if_neg long, readType, Option.bind_eq_bind, Option.bind_some, if_neg notArp, if_pos (not_not.mp ipv4),
    netProcessIpv4_packet packet, not_not.mp udp, if_neg (not_not.mpr hears.2.2.2), if_neg (by decide), if_pos rfl, same, heard]

/-- What frames leave alone, and what the client knows of the replies. -/
structure Listening (first net : Net) (log : Capture) : Prop where
  kept : Kept first net
  wire : net.wire = log.map Prod.snd
  lease : net.dhcp = believed first log
  elapsed : first.uptimeTicks.toNat ≤ net.uptimeTicks.toNat

theorem believed_active (first : Net) (log : Capture) :
    (believed first log).active = true ∧ (believed first log).xid = startupXid first := by
  have hear (lease : DhcpLease) (m : DhcpMessage) : (lease.hear m).active = lease.active ∧ (lease.hear m).xid = lease.xid := by
    unfold DhcpLease.hear
    split_ifs
    all_goals exact ⟨rfl, rfl⟩
  have fold (heard : List DhcpMessage) (lease : DhcpLease) :
      (heard.foldl .hear lease).active = lease.active ∧ (heard.foldl .hear lease).xid = lease.xid := by
    induction heard generalizing lease with
    | nil => exact ⟨rfl, rfl⟩
    | cons m heard ih => exact ⟨(ih (lease.hear m)).1.trans (hear lease m).1, (ih (lease.hear m)).2.trans (hear lease m).2⟩
  exact fold _ _

theorem believed_append (first : Net) (log next : Capture) :
    believed first (log ++ next) = (next.filterMap (replyFor first)).foldl .hear (believed first log) := by
  rw [believed, List.filterMap_append, List.foldl_append]
  rfl

theorem Listening.hears_iff {first net : Net} {log : Capture} (listening : Listening first net log) (m : DhcpMessage) :
    Hears net m ↔ m.xid = startupXid first ∧ m.chaddr = first.mac ∧ ipv4Accepts first ipProtoUdp m.dstIp := by
  obtain ⟨active, xid⟩ := believed_active first log
  rw [Hears, listening.lease, active, xid, listening.kept.mac]
  simp [ipv4Accepts, listening.kept.ipAddr]

theorem Listening.receive {first net after : Net} {log : Capture} {bytes : List UInt8} (listening : Listening first net log)
    (ready : first.rtlReady) (result : receiveFrame net bytes = some after) :
    Listening first after (log ++ stamped net after) := by
  have up : net.rtlReady := listening.kept.ready.trans ready
  obtain ⟨same, answers, wire, -⟩ := receiveFrame_capture up result
  have silent : ((answers.map Wire.sent).map (Prod.mk net.uptimeTicks)).filterMap (replyFor first) = [] := by
    rw [List.map_map, List.filterMap_map]
    exact List.filterMap_eq_nil_iff.mpr fun _ _ => rfl
  refine ⟨listening.kept.trans same, ?_, ?_, by rw [(receiveFrame_kept result).1]; exact listening.elapsed⟩
  · rw [wire, listening.wire, List.map_append, stamped_wire wire]
  rw [stamped_eq wire, List.map_cons, believed_append, List.filterMap_cons, silent, ← listening.lease]
  cases found : replyFor first (net.uptimeTicks, .received bytes) with
  | some m =>
      obtain ⟨decoded, ours⟩ := Option.filter_eq_some_iff.mp found
      have hears : Hears { net with wire := net.wire ++ [.received bytes] } m := (listening.hears_iff m).mpr (of_decide_eq_true ours)
      rw [receiveFrame, if_neg (not_not.mpr up), netProcessFrame_reply decoded hears] at result
      cases result
      rfl
  | none =>
      rcases (receiveFrame_effect result).1 with quiet | ⟨m, decoded, heard, -⟩
      · exact quiet
      · have reply : replyFor first (net.uptimeTicks, .received bytes) = some m :=
          Option.filter_eq_some_iff.mpr ⟨decoded, decide_eq_true ((listening.hears_iff m).mp heard)⟩
        rw [found] at reply
        cases reply

/-! ## What goes out -/

/-- The message type of a DHCP packet that was sent. -/
def sentType (frame : List UInt8) : Option UInt8 := lastOption msgTypeOption (dhcpOptions (frame.drop (14 + 20 + 8 + 240)))

/-- One DISCOVER has gone out, at this time, and ARP packets. -/
def Discovered (tick : UInt64) (log : Capture) : Prop :=
  ∃ early discover late, log = early ++ (tick, .sent discover) :: late ∧ sentType discover = some dhcpMsgDiscover ∧ OnlyArp early ∧
    OnlyArp late

/-- Then one REQUEST, at this time, for what the client believed when it went out. -/
def Requested (first : Net) (tick : UInt64) (log : Capture) : Prop :=
  ∃ before request late, log = before ++ (tick, .sent request) :: late ∧ (∃ asked, Discovered asked before) ∧ OnlyArp late ∧
    (believed first before).gotOffer = true ∧ (believed first before).offeredIp ≠ 0 ∧ (believed first before).serverIp ≠ 0 ∧
    requestOf (.sent request) = some ((believed first before).offeredIp, (believed first before).serverIp)

theorem Discovered.append {tick : UInt64} {log next : Capture} (discovered : Discovered tick log) (silent : OnlyArp next) :
    Discovered tick (log ++ next) := by
  obtain ⟨early, discover, late, rfl, type, quiet, still⟩ := discovered
  exact ⟨early, discover, late ++ next, by simp, type, quiet, still.append silent⟩

theorem Requested.append {first : Net} {tick : UInt64} {log next : Capture} (requested : Requested first tick log)
    (silent : OnlyArp next) : Requested first tick (log ++ next) := by
  obtain ⟨before, request, late, rfl, discovered, still, asked⟩ := requested
  exact ⟨before, request, late ++ next, by simp, discovered, still.append silent, asked⟩

/-- `net` has sent a frame. -/
def Net.sends (net : Net) (frame : List UInt8) : Net :=
  { net with
    txIndex := (net.txIndex + 1) % txDescCount
    txFrames := net.txFrames + 1
    wire := net.wire ++ [.sent frame] }

theorem dhcpSend_ready {net : Net} (ready : net.rtlReady) {options : List UInt8} (short : options.length ≤ 300) :
    ∃ frame, frame.drop (14 + 20 + 8 + 240) = options ∧ dhcpSend net options = some (0, net.sends frame) := by
  have fits : (dhcpHeader net ++ options).length ≤ 548 := by
    rw [List.length_append, dhcpHeader_length]
    omega
  obtain ⟨checksum, -, built⟩ := udpFrame_eq net netIpv4Any netIpv4Broadcast udpPortDhcpClient udpPortDhcpServer
    (dhcpHeader net ++ options) broadcastMac
  generalize shape : (broadcastMac.toList ++ _) ++ _ = frame at built
  have size : frame.length = 282 + options.length := by
    rw [← shape]
    simp only [List.length_append, List.Vector.toList_length, be16Store_length, ipHeader_length, dhcpHeader_length]
    omega
  refine ⟨frame, ?_, ?_⟩
  · rw [← shape]
    simp only [← List.append_assoc]
    apply List.drop_left'
    simp
  · have sendable : ¬(¬net.rtlReady ∨ frame.length = 0 ∨ txBufferSize < frame.length) := by
      rw [size, txBufferSize]
      simp only [ready, not_true_eq_false, false_or]
      omega
    rw [dhcpSend, ipSendUdp_eq net _ _ _ _ _ fits, built, Option.map_some, rtlSendRawFrame, if_neg sendable,
      show 60 - frame.length = 0 by omega, List.replicate_zero, List.append_nil]
    rfl

theorem dhcpSendDiscover_ready {net : Net} (ready : net.rtlReady) :
    ∃ frame, sentType frame = some dhcpMsgDiscover ∧ dhcpSendDiscover net = some (0, net.sends frame) := by
  unfold dhcpSendDiscover
  generalize shape : [dhcpOptionMsgType, 1, dhcpMsgDiscover, dhcpOptionParamReqList, 3, dhcpOptionSubnetMask, dhcpOptionRouter,
    dhcpOptionServerId, dhcpOptionEnd] = options
  have short : options.length ≤ 300 := by
    rw [← shape]
    decide
  obtain ⟨frame, behind, sends⟩ := dhcpSend_ready ready short
  refine ⟨frame, ?_, sends⟩
  rw [sentType, behind, ← shape]
  rfl

theorem stamped_sends (net : Net) (frame : List UInt8) : stamped net (net.sends frame) = [(net.uptimeTicks, .sent frame)] := by
  have grows : (net.sends frame).wire = net.wire ++ [.sent frame] := rfl
  rw [stamped_eq grows, List.map_singleton]

theorem Listening.sends {first net : Net} {log : Capture} (listening : Listening first net log) (frame : List UInt8) :
    Listening first (net.sends frame) (log ++ stamped net (net.sends frame)) := by
  rw [stamped_sends]
  refine ⟨⟨listening.kept.ready, listening.kept.ipAddr, listening.kept.mac⟩, ?_, ?_, listening.elapsed⟩
  · rw [List.map_append, ← listening.wire]
    rfl
  · show net.dhcp = believed first (log ++ [(net.uptimeTicks, .sent frame)])
    rw [believed_append, listening.lease]
    rfl

/-! ## The invariant -/

/-- Why there is no lease, when the cable has carried `log` until `now`. -/
inductive GaveUp (first : Net) (now : UInt64) (log : Capture) : Prop
  | silence {tick : UInt64} (asked : Discovered tick log) (none : (believed first log).gotOffer = false)
      (waited : tick.toNat + 300 ≤ now.toNat)
  | unusable {tick : UInt64} (asked : Discovered tick log) (offer : (believed first log).gotOffer = true)
      (useless : (believed first log).offeredIp = 0 ∨ (believed first log).serverIp = 0)
  | refused {tick : UInt64} (asked : Requested first tick log) (waited : tick.toNat + 300 ≤ now.toNat)

/-- What `net_dhcp_acquire` returns when the cable has carried `log`. -/
inductive Acquired (first net : Net) (log : Capture) : Int → Prop
  | lease {tick : UInt64} (asked : Requested first tick log) (granted : (believed first log).gotAck = true)
      (ipAddr : net.ipAddr = (believed first log).offeredIp)
      (ipMask : net.ipMask = if (believed first log).subnetMask ≠ 0 then (believed first log).subnetMask else netDefaultMask)
      (ipGw : net.ipGw = if (believed first log).router ≠ 0 then (believed first log).router else netDefaultGw) :
      Acquired first net log 1
  | nothing (gaveUp : GaveUp first net.uptimeTicks log) : Acquired first net log 0

def Acquiring (first net : Net) (log : Capture) : AcquirePoint → Prop
  | .sendDiscover => Listening first net log ∧ OnlyArp log
  | .offerHead start | .offerTest start => Listening first net log ∧ Discovered start log ∧ start.toNat ≤ net.uptimeTicks.toNat
  | .offerDone => Listening first net log ∧ ∃ tick, Discovered tick log ∧
      (net.dhcp.gotOffer = true ∨ tick.toNat + 300 ≤ net.uptimeTicks.toNat)
  | .sendRequest => Listening first net log ∧ (∃ tick, Discovered tick log) ∧ net.dhcp.gotOffer = true
  | .ackHead start | .ackTest start => Listening first net log ∧ Requested first start log ∧ start.toNat ≤ net.uptimeTicks.toNat
  | .returned value => net.rtlReady = first.rtlReady ∧ net.wire = log.map Prod.snd ∧
      ∃ heard late, log = heard ++ late ∧ OnlyArp late ∧ Acquired first net heard value

/-- How many steps and ticks `net_startup_connect` may still take, `now` being the time. -/
def acquireRank (now : UInt64) : AcquirePoint → Nat
  | .sendDiscover => 608
  | .offerTest start => 300 - (now - start).toNat + 307
  | .offerHead start => 300 - (now - start).toNat + 306
  | .offerDone => 305
  | .sendRequest => 304
  | .ackTest start => 300 - (now - start).toNat + 3
  | .ackHead start => 300 - (now - start).toNat + 2
  | .returned _ => 1

/-- Only the clock ends the wait. -/
def AcquireWaits (now : UInt64) : AcquirePoint → Prop
  | .offerHead start | .ackHead start => now - start < hz * 3
  | _ => False

theorem waited_out {net : Net} {start : UInt64} (on : start.toNat ≤ net.uptimeTicks.toNat)
    (late : ¬net.uptimeTicks - start < hz * 3) : start.toNat + 300 ≤ net.uptimeTicks.toNat := by
  have passed := UInt64.le_iff_toNat_le.mp (UInt64.not_lt.mp late)
  rw [UInt64.toNat_sub_of_le _ _ (UInt64.le_iff_toNat_le.mpr on)] at passed
  have timeout : (hz * 3).toNat = 300 := rfl
  omega

/-- One step of `net_dhcp_acquire`. -/
structure AcquireMove (first net : Net) (log : Capture) (point : AcquirePoint) (t : Acquire) : Prop where
  moves : netDhcpAcquire (hz * 3) { point, net } = some t
  inv : Acquiring first t.net (log ++ stamped net t.net) t.point
  clock : t.net.uptimeTicks = net.uptimeTicks
  lowers : ¬AcquireWaits net.uptimeTicks point → acquireRank net.uptimeTicks t.point < acquireRank net.uptimeTicks point

section
variable {first net : Net} {log : Capture} {start : UInt64}

/-- A step that leaves the cable alone. -/
theorem Acquiring.quiet {after : Net} {point : AcquirePoint} (wire : after.wire = net.wire) (inv : Acquiring first after log point) :
    Acquiring first after (log ++ stamped net after) point := by
  rw [stamped_same wire, List.append_nil]
  exact inv

theorem sendDiscover_move (ready : first.rtlReady) (inv : Acquiring first net log .sendDiscover) :
    ∃ t, AcquireMove first net log .sendDiscover t := by
  obtain ⟨listening, silent⟩ := inv
  obtain ⟨frame, type, sends⟩ := dhcpSendDiscover_ready (listening.kept.ready.trans ready)
  have moves : netDhcpAcquire (hz * 3) { point := .sendDiscover, net } =
      some { point := .offerHead net.uptimeTicks, net := net.sends frame } := by
    simp only [netDhcpAcquire, sends, Option.bind_eq_bind, Option.bind_some]
    rfl
  refine ⟨_, moves, ⟨listening.sends frame, ⟨log, frame, [], by rw [stamped_sends], type, silent, .nil⟩, Nat.le_refl _⟩, rfl,
    fun _ => ?_⟩
  show 300 - _ + 306 < 608
  omega

theorem offerHead_move (inv : Acquiring first net log (.offerHead start)) : ∃ t, AcquireMove first net log (.offerHead start) t := by
  obtain ⟨listening, discovered, on⟩ := inv
  by_cases early : net.uptimeTicks - start < hz * 3
  · refine ⟨{ point := .offerTest start, net }, ?_, .quiet rfl ⟨listening, discovered, on⟩, rfl, fun late => absurd early late⟩
    simp [netDhcpAcquire, early]
  · refine ⟨{ point := .offerDone, net }, ?_, .quiet rfl ⟨listening, start, discovered, Or.inr (waited_out on early)⟩, rfl, fun _ => ?_⟩
    · simp [netDhcpAcquire, early]
    · show 305 < 300 - _ + 306
      omega

theorem offerTest_move (inv : Acquiring first net log (.offerTest start)) : ∃ t, AcquireMove first net log (.offerTest start) t := by
  obtain ⟨listening, discovered, on⟩ := inv
  by_cases offer : net.dhcp.gotOffer = true
  · refine ⟨{ point := .offerDone, net }, ?_, .quiet rfl ⟨listening, start, discovered, Or.inl offer⟩, rfl, fun _ => ?_⟩
    · simp [netDhcpAcquire, offer]
    · show 305 < 300 - _ + 307
      omega
  · refine ⟨{ point := .offerHead start, net }, ?_, .quiet rfl ⟨listening, discovered, on⟩, rfl, fun _ => Nat.lt_succ_self _⟩
    simp [netDhcpAcquire, offer]

theorem offerDone_move (inv : Acquiring first net log .offerDone) : ∃ t, AcquireMove first net log .offerDone t := by
  obtain ⟨listening, tick, discovered, ended⟩ := inv
  by_cases offer : net.dhcp.gotOffer = true
  · refine ⟨{ point := .sendRequest, net }, ?_, .quiet rfl ⟨listening, ⟨tick, discovered⟩, offer⟩, rfl,
      fun _ => Nat.lt_succ_self 304⟩
    simp [netDhcpAcquire, offer]
  · refine ⟨.abandon net, ?_, .quiet rfl ⟨listening.kept.ready, listening.wire, log, [], (List.append_nil _).symm, .nil,
      .nothing (.silence discovered ?_ (ended.resolve_left offer))⟩, rfl, fun _ => show 1 < 305 by decide⟩
    · simp [netDhcpAcquire, offer]
    · rw [← listening.lease]
      exact Bool.eq_false_iff.mpr offer

theorem sendRequest_move (ready : first.rtlReady) (inv : Acquiring first net log .sendRequest) :
    ∃ t, AcquireMove first net log .sendRequest t := by
  obtain ⟨listening, ⟨tick, discovered⟩, offer⟩ := inv
  have lease := listening.lease
  by_cases useless : net.dhcp.offeredIp = 0 ∨ net.dhcp.serverIp = 0
  · have refused : dhcpSendRequest net = some (-1, net) := by
      rw [dhcpSendRequest, if_pos (Or.inr useless.symm)]
    refine ⟨.abandon net, ?_, .quiet rfl ⟨listening.kept.ready, listening.wire, log, [], (List.append_nil _).symm, .nil,
      .nothing (.unusable discovered ?_ ?_)⟩, rfl, fun _ => show 1 < 304 by decide⟩
    · simp [netDhcpAcquire, refused]
    · rw [← lease]
      exact offer
    · rw [← lease]
      exact useless
  · obtain ⟨address, server⟩ := not_or.mp useless
    obtain ⟨frame, options, sends⟩ := dhcpSend_ready (listening.kept.ready.trans ready)
      (show (dhcpRequestOptions net.dhcp.offeredIp net.dhcp.serverIp).length ≤ 300 by simp [dhcpRequestOptions])
    have sent : dhcpSendRequest net = some (0, net.sends frame) := by
      rw [dhcpSendRequest, if_neg (by simp [offer, address, server]), sends]
    have moves : netDhcpAcquire (hz * 3) { point := .sendRequest, net } =
        some { point := .ackHead net.uptimeTicks, net := net.sends frame } := by
      simp only [netDhcpAcquire, sent, Option.bind_eq_bind, Option.bind_some]
      rfl
    refine ⟨_, moves, ⟨listening.sends frame, ⟨log, frame, [], by rw [stamped_sends], ⟨tick, discovered⟩, .nil, ?_⟩, Nat.le_refl _⟩,
      rfl, fun _ => ?_⟩
    · rw [← lease]
      exact ⟨offer, address, server, requestOf_request options⟩
    · show 300 - _ + 2 < 304
      omega

theorem ackHead_move (inv : Acquiring first net log (.ackHead start)) : ∃ t, AcquireMove first net log (.ackHead start) t := by
  obtain ⟨listening, asked, on⟩ := inv
  by_cases early : net.uptimeTicks - start < hz * 3
  · refine ⟨{ point := .ackTest start, net }, ?_, .quiet rfl ⟨listening, asked, on⟩, rfl, fun late => absurd early late⟩
    simp [netDhcpAcquire, early]
  · refine ⟨.abandon net, ?_, .quiet rfl ⟨listening.kept.ready, listening.wire, log, [], (List.append_nil _).symm, .nil,
      .nothing (.refused asked (waited_out on early))⟩, rfl, fun _ => ?_⟩
    · simp [netDhcpAcquire, early]
    · show 1 < 300 - _ + 2
      omega

theorem ackTest_move (inv : Acquiring first net log (.ackTest start)) : ∃ t, AcquireMove first net log (.ackTest start) t := by
  obtain ⟨listening, asked, on⟩ := inv
  by_cases ack : net.dhcp.gotAck = true
  · have moves : ∃ t, netDhcpAcquire (hz * 3) { point := .ackTest start, net } = some t := by
      simp [netDhcpAcquire, ack]
    obtain ⟨t, moves⟩ := moves
    have shape := moves
    simp only [netDhcpAcquire, ack, if_true] at shape
    cases shape
    refine ⟨_, moves, .quiet rfl ⟨listening.kept.ready, listening.wire, log, [], (List.append_nil _).symm, .nil,
      .lease asked ?_ ?_ ?_ ?_⟩, rfl, fun _ => ?_⟩
    · rw [← listening.lease]
      exact ack
    · rw [← listening.lease]
    · rw [← listening.lease]
    · rw [← listening.lease]
    · show 1 < 300 - _ + 3
      omega
  · refine ⟨{ point := .ackHead start, net }, ?_, .quiet rfl ⟨listening, asked, on⟩, rfl, fun _ => Nat.lt_succ_self _⟩
    simp [netDhcpAcquire, ack]

theorem Acquiring.move (ready : first.rtlReady) {point : AcquirePoint} (inv : Acquiring first net log point)
    (running : ∀ value, point ≠ .returned value) : ∃ t, AcquireMove first net log point t := by
  cases point with
  | sendDiscover => exact sendDiscover_move ready inv
  | offerHead start => exact offerHead_move inv
  | offerTest start => exact offerTest_move inv
  | offerDone => exact offerDone_move inv
  | sendRequest => exact sendRequest_move ready inv
  | ackHead start => exact ackHead_move inv
  | ackTest start => exact ackTest_move inv
  | returned value => exact absurd rfl (running value)

/-- What a tick or a frame makes of the driver between two steps. -/
structure Between (first net after : Net) (next : Capture) : Prop where
  listening : ∀ log, Listening first net log → Listening first after (log ++ next)
  ready : after.rtlReady = net.rtlReady
  wire : after.wire = net.wire ++ next.map Prod.snd
  silent : OnlyArp next
  on : net.uptimeTicks.toNat ≤ after.uptimeTicks.toNat
  offer : net.dhcp.gotOffer = true → after.dhcp.gotOffer = true
  config : after.ipAddr = net.ipAddr ∧ after.ipMask = net.ipMask ∧ after.ipGw = net.ipGw

theorem tick_between (fits : net.uptimeTicks.toNat + 1 < 2 ^ 64) :
    Between first net { net with uptimeTicks := net.uptimeTicks + 1 } (stamped net { net with uptimeTicks := net.uptimeTicks + 1 }) := by
  have next : (net.uptimeTicks + 1).toNat = net.uptimeTicks.toNat + 1 := by
    rw [UInt64.toNat_add]
    exact Nat.mod_eq_of_lt fits
  have on : net.uptimeTicks.toNat ≤ (net.uptimeTicks + 1).toNat := by
    rw [next]
    exact Nat.le_succ _
  rw [stamped_clock]
  refine ⟨fun log listening => ?_, rfl, (List.append_nil _).symm, .nil, on, id, rfl, rfl, rfl⟩
  rw [List.append_nil]
  exact ⟨⟨listening.kept.ready, listening.kept.ipAddr, listening.kept.mac⟩, listening.wire, listening.lease,
    Nat.le_trans listening.elapsed on⟩

theorem frame_between {after : Net} {bytes : List UInt8} (ready : first.rtlReady) (same : net.rtlReady = first.rtlReady)
    (result : receiveFrame net bytes = some after) : Between first net after (stamped net after) := by
  obtain ⟨kept, ⟨next, wire⟩, silent, -⟩ := receiveFrame_heard (same.trans ready) result
  have footprint := result
  rw [receiveFrame, if_neg (not_not.mpr (same.trans ready))] at footprint
  have footprint := netProcessFrame_footprint footprint
  refine ⟨fun log listening => listening.receive ready result, kept.ready, by rw [stamped_wire wire, wire], silent,
    by rw [(receiveFrame_kept result).1], fun offer => ?_, footprint.ipAddr, footprint.ipMask, footprint.ipGw⟩
  rcases (receiveFrame_effect result).1 with quiet | ⟨m, -, -, hears, -⟩
  · rw [quiet]
    exact offer
  · rw [hears]
    exact (hear_flags net.dhcp m).1.mpr (Or.inl offer)

theorem GaveUp.later {now after : UInt64} (gaveUp : GaveUp first now log) (on : now.toNat ≤ after.toNat) :
    GaveUp first after log := by
  cases gaveUp with
  | silence asked none waited => exact .silence asked none (Nat.le_trans waited on)
  | unusable asked offer useless => exact .unusable asked offer useless
  | refused asked waited => exact .refused asked (Nat.le_trans waited on)

theorem Between.acquiring {after : Net} {next : Capture} (between : Between first net after next) {point : AcquirePoint}
    (inv : Acquiring first net log point) : Acquiring first after (log ++ next) point := by
  cases point with
  | sendDiscover => exact ⟨between.listening log inv.1, inv.2.append between.silent⟩
  | offerHead start | offerTest start =>
      exact ⟨between.listening log inv.1, inv.2.1.append between.silent, Nat.le_trans inv.2.2 between.on⟩
  | offerDone =>
      obtain ⟨listening, tick, discovered, ended⟩ := inv
      exact ⟨between.listening log listening, tick, discovered.append between.silent,
        ended.imp between.offer fun waited => Nat.le_trans waited between.on⟩
  | sendRequest =>
      obtain ⟨listening, ⟨tick, discovered⟩, offer⟩ := inv
      exact ⟨between.listening log listening, ⟨tick, discovered.append between.silent⟩, between.offer offer⟩
  | ackHead start | ackTest start =>
      exact ⟨between.listening log inv.1, inv.2.1.append between.silent, Nat.le_trans inv.2.2 between.on⟩
  | returned value =>
      obtain ⟨ready, wire, heard, late, whole, silent, acquired⟩ := inv
      obtain ⟨ipAddr, ipMask, ipGw⟩ := between.config
      refine ⟨between.ready.trans ready, ?_, heard, late ++ next, ?_, silent.append between.silent, ?_⟩
      · rw [between.wire, wire, List.map_append]
      · rw [whole, List.append_assoc]
      · cases acquired with
        | lease asked granted sameAddr sameMask sameGw =>
            exact .lease asked granted (ipAddr.trans sameAddr) (ipMask.trans sameMask) (ipGw.trans sameGw)
        | nothing gaveUp => exact .nothing (gaveUp.later between.on)

end

/-! ## The lines -/

def joinedText (how : List UInt8) (ip gw : UInt32) : List UInt8 :=
  how ++ (addressText ip ++ (ascii " gw=" ++ (addressText gw ++ ascii "\n")))

theorem prints_joined {fmt how : List UInt8} (ip gw : UInt32) (plain : 0 ∉ how) (short : how.length ≤ 50)
    (renders : rendering fmt [.text (some (addressText ip)), .text (some (addressText gw))] = some (joinedText how ip gw)) :
    Prints fmt [.text (some (addressText ip)), .text (some (addressText gw))] (joinedText how ip gw) := by
  obtain ⟨plainIp, shortIp⟩ := addressText_spec ip
  obtain ⟨plainGw, shortGw⟩ := addressText_spec gw
  refine ⟨renders, ?_, ?_⟩
  · have texts : 0 ∉ ascii " gw=" ∧ 0 ∉ ascii "\n" := by decide
    simp [joinedText, plain, plainIp, plainGw, texts]
  · have sizes : (ascii " gw=").length = 4 ∧ (ascii "\n").length = 1 := by decide
    simp only [joinedText, List.length_append, sizes, printfBufferSize]
    omega

def beginText : List UInt8 := ascii "net0: startup DHCP begin" ++ [0x0A]

def leaseText : UInt32 → UInt32 → List UInt8 := joinedText (ascii "net0: DHCP lease acquired ip=")

def staticText : List UInt8 := joinedText (ascii "net0: DHCP timeout, fallback static ip=") netDefaultIp netDefaultGw

/-! ## Runs -/

/-- How the node is configured in the end, when the cable has carried `log`: as the replies say that it heard, or with the
static addresses. -/
inductive Joined (first : Net) (console : Console) (s : Startup) (log : Capture) : Prop
  | leased {heard late : Capture} {tick : UInt64} (whole : log = heard ++ late) (silent : OnlyArp late)
      (asked : Requested first tick heard) (granted : (believed first heard).gotAck = true)
      (ipAddr : s.net.ipAddr = (believed first heard).offeredIp)
      (lent : ∃ m ∈ heard.filterMap (replyFor first), Lends m ∧ m.yiaddr = s.net.ipAddr)
      (ipMask : s.net.ipMask = if (believed first heard).subnetMask ≠ 0 then (believed first heard).subnetMask else netDefaultMask)
      (ipGw : s.net.ipGw = if (believed first heard).router ≠ 0 then (believed first heard).router else netDefaultGw)
      (shown : s.console = consoleWriteN console (beginText ++ leaseText s.net.ipAddr s.net.ipGw)) : Joined first console s log
  | fallback {heard late : Capture} (whole : log = heard ++ late) (silent : OnlyArp late)
      (gaveUp : GaveUp first s.net.uptimeTicks heard)
      (config : s.net.ipAddr = netDefaultIp ∧ s.net.ipMask = netDefaultMask ∧ s.net.ipGw = netDefaultGw)
      (shown : s.console = consoleWriteN console (beginText ++ staticText)) : Joined first console s log

def StartupInv (first : Net) (console : Console) (s : Startup) (log : Capture) : Prop :=
  match s.point with
  | .acquire point => Acquiring first s.net log point ∧ s.console = consoleWriteN console beginText
  | .returned => s.net.connected = true ∧ s.net.wire = log.map Prod.snd ∧ Joined first console s log

def Startup.rank (s : Startup) : Nat :=
  match s.point with
  | .acquire point => acquireRank s.net.uptimeTicks point
  | .returned => 0

def StartupWaits (s : Startup) : Prop :=
  match s.point with
  | .acquire point => AcquireWaits s.net.uptimeTicks point
  | .returned => False

/-- The clock does not wrap. -/
def StartupClock (s : Startup) (_ : AcquireEvent) : Prop := s.net.uptimeTicks.toNat + 1 < 2 ^ 64

instance (s : Startup) (event : AcquireEvent) : Decidable (StartupClock s event) := inferInstanceAs (Decidable (_ < _))

section
variable {first : Net} {console : Console} {s t : Startup} {log : Capture}

theorem finish_move (stack : Nat → UInt8) {value : Int} (here : s.point = .acquire (.returned value))
    (inv : StartupInv first console s log) :
    ∃ t, netStartupConnect stack s = some t ∧ t.point = .returned ∧ StartupInv first console t log ∧
      t.net.wire = s.net.wire ∧ t.net.uptimeTicks = s.net.uptimeTicks := by
  obtain ⟨point, net, printed⟩ := s
  cases here
  obtain ⟨⟨-, wire, heard, late, whole, silent, acquired⟩, rfl⟩ := inv
  cases acquired with
  | lease asked granted ipAddr ipMask ipGw =>
      have prints : Prints (ascii "net0: DHCP lease acquired ip=%s gw=%s\n") _ (leaseText net.ipAddr net.ipGw) :=
        prints_joined net.ipAddr net.ipGw (by decide) (by decide) rfl
      let chosen : Net := { net with connected := true }
      refine ⟨⟨.returned, chosen, consoleWriteN (consoleWriteN console beginText) (leaseText net.ipAddr net.ipGw)⟩, ?_, rfl,
        ⟨rfl, wire, ?_⟩, rfl, rfl⟩
      · simp [netStartupConnect, ipText_eq, prints.printed stack, chosen]
      · refine .leased whole silent asked granted ipAddr ?_ ipMask ipGw (consoleWriteN_append _ _ _)
        have sourced := believed_sourced first heard
        obtain ⟨m, member, ack⟩ := sourced.ack.mp granted
        obtain ⟨m, member, lends, address⟩ := sourced.address ⟨m, member, Or.inr ack⟩
        exact ⟨m, member, lends, address.trans ipAddr.symm⟩
  | nothing gaveUp =>
      have prints : Prints (ascii "net0: DHCP timeout, fallback static ip=%s gw=%s\n") _ staticText :=
        prints_joined netDefaultIp netDefaultGw (by decide) (by decide) rfl
      let chosen : Net :=
        { net with ipAddr := netDefaultIp, ipGw := netDefaultGw, ipMask := netDefaultMask, connected := true }
      refine ⟨⟨.returned, chosen, consoleWriteN (consoleWriteN console beginText) staticText⟩, ?_, rfl, ⟨rfl, wire, ?_⟩, rfl, rfl⟩
      · simp [netStartupConnect, ipText_eq, prints.printed stack, chosen]
      · exact .fallback whole silent gaveUp ⟨rfl, rfl, rfl⟩ (consoleWriteN_append _ _ _)

/-- A step of a running start-up returns, keeps the invariant, and takes it on unless it waits for the clock. -/
theorem StartupInv.goes (stack : Nat → UInt8) (inv : StartupInv first console s log) (ready : first.rtlReady)
    (running : s.point ≠ .returned) :
    ∃ t, netStartupConnect stack s = some t ∧ StartupInv first console t (log ++ stamped s.net t.net) ∧
      t.net.uptimeTicks = s.net.uptimeTicks ∧ (¬StartupWaits s → t.rank < s.rank) := by
  cases here : s.point with
  | returned => exact absurd here running
  | acquire point =>
      by_cases returned : ∃ value, point = .returned value
      · obtain ⟨value, rfl⟩ := returned
        obtain ⟨t, moves, ended, after, wire, clock⟩ := finish_move stack here inv
        refine ⟨t, moves, ?_, clock, fun _ => ?_⟩
        · rw [stamped_same wire, List.append_nil]
          exact after
        · rw [Startup.rank, Startup.rank, ended, here]
          exact Nat.one_pos
      · obtain ⟨_, net, printed⟩ := s
        cases here
        obtain ⟨acquiring, shown⟩ := inv
        have waiting : ∀ value, point ≠ .returned value := fun value same => returned ⟨value, same⟩
        obtain ⟨t, moves, after, clock, lowers⟩ := acquiring.move ready waiting
        refine ⟨{ point := .acquire t.point, net := t.net, console := printed }, ?_, ⟨after, shown⟩, clock, fun late => ?_⟩
        · cases point with
          | returned value => exact absurd rfl (waiting value)
          | sendDiscover | offerHead start | offerTest start | offerDone | sendRequest | ackHead start | ackTest start =>
              simp only [netStartupConnect, moves, Option.bind_eq_bind, Option.bind_some]
              rfl
        · rw [Startup.rank, Startup.rank, clock]
          exact lowers late

theorem startupEvent_cases {stack : Nat → UInt8} {event : AcquireEvent} (steps : startupEvent stack s event = some t) :
    s.point ≠ .returned ∧
      (event = .step ∧ netStartupConnect stack s = some t ∨
        event = .tick ∧ t = { s with net := { s.net with uptimeTicks := s.net.uptimeTicks + 1 } } ∨
        ∃ bytes net, event = .frame bytes ∧ receiveFrame s.net bytes = some net ∧ t = { s with net := net }) := by
  unfold startupEvent at steps
  split at steps
  · cases steps
  · rename_i running
    exact ⟨running, Or.inl ⟨rfl, steps⟩⟩
  · rename_i running
    cases steps
    exact ⟨running, Or.inr (Or.inl ⟨rfl, rfl⟩)⟩
  · rename_i bytes running
    obtain ⟨net, result, rfl⟩ := Option.map_eq_some_iff.mp steps
    exact ⟨running, Or.inr (Or.inr ⟨bytes, net, rfl, result, rfl⟩)⟩

theorem Acquiring.ready {net : Net} {point : AcquirePoint} (inv : Acquiring first net log point) : net.rtlReady = first.rtlReady := by
  cases point with
  | sendDiscover | offerHead start | offerTest start | offerDone | sendRequest | ackHead start | ackTest start =>
      exact inv.1.kept.ready
  | returned value => exact inv.1

theorem StartupInv.event {stack : Nat → UInt8} {event : AcquireEvent} (inv : StartupInv first console s log)
    (ready : first.rtlReady) (fits : StartupClock s event) (steps : startupEvent stack s event = some t) :
    StartupInv first console t (log ++ stamped s.net t.net) := by
  obtain ⟨running, how⟩ := startupEvent_cases steps
  obtain ⟨here, net, printed⟩ := s
  cases here with
  | returned => exact absurd rfl running
  | acquire point =>
      rcases how with ⟨rfl, moves⟩ | ⟨rfl, rfl⟩ | ⟨bytes, after, rfl, result, rfl⟩
      · obtain ⟨u, same, after, -⟩ := inv.goes stack ready running
        cases moves.symm.trans same
        exact after
      · exact ⟨(tick_between fits).acquiring inv.1, inv.2⟩
      · exact ⟨(frame_between ready inv.1.ready result).acquiring inv.1, inv.2⟩

theorem StartupWaits.tick (waits : StartupWaits s) :
    ({ s with net := { s.net with uptimeTicks := s.net.uptimeTicks + 1 } } : Startup).rank < s.rank := by
  obtain ⟨here, net, printed⟩ := s
  cases here with
  | returned => exact waits.elim
  | acquire point =>
      have timeout : (hz * 3).toNat = 300 := rfl
      cases point with
      | offerHead start | ackHead start =>
          have left := tick_left (show net.uptimeTicks - start < hz * 3 from waits)
          simp only [Startup.rank, acquireRank]
          omega
      | sendDiscover | offerTest start | offerDone | sendRequest | ackTest start | returned value => exact waits.elim

end

end Mgcore
