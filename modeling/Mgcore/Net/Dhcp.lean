import Mgcore.Lib.Run
import Mgcore.Net.Decode

/-!
# Acquiring a lease

`net_dhcp_acquire` as a machine with a program point. Frames reach `net_process_frame` from the polls of its two
loops and from the interrupt handler, so a frame or a timer tick may come between any two of its steps. The client
keeps one address and one server for whatever it hears last and one flag for each kind of message; the address it
returns with is the one it asked for as long as every ACK it hears answers its REQUEST and no OFFER of another
address follows an ACK.
-/

namespace Mgcore

open Lib

/-! ## The machine -/

/-- Where `net_dhcp_acquire` stands; `start` is its local variable. -/
inductive AcquirePoint
  | sendDiscover
  | offerHead (start : UInt64)
  | offerTest (start : UInt64)
  | offerDone
  | sendRequest
  | ackHead (start : UInt64)
  | ackTest (start : UInt64)
  | returned (value : Int)
  deriving DecidableEq

structure Acquire where
  point : AcquirePoint
  net : Net

def Acquire.abandon (net : Net) : Acquire :=
  { point := .returned 0, net := { net with dhcp := { net.dhcp with active := false } } }

/-- Up to `dhcp_send_discover`. The capture of the cable starts here. -/
def acquireStart (net : Net) : Acquire :=
  if ¬net.rtlReady then { point := .returned 0, net := { net with wire := [] } }
  else
    { point := .sendDiscover
      net := { net with
        wire := []
        dhcp := { active := true, xid := ((net.uptimeTicks <<< 16) ^^^ 0x4D474443).toUInt32 } } }

/-- The next step of `net_dhcp_acquire`. `rtl_poll_rx` is the frames that arrive before the test of the flag,
`net_wait_event_tick` what arrives after it. -/
def netDhcpAcquire (timeoutTicks : UInt64) (s : Acquire) : Option Acquire :=
  match s.point with
  | .sendDiscover => do
      let (code, net) ← dhcpSendDiscover s.net
      if code ≠ 0 then some (.abandon net)
      else some { point := .offerHead net.uptimeTicks, net := net }
  | .offerHead start =>
      if s.net.uptimeTicks - start < timeoutTicks then some { s with point := .offerTest start }
      else some { s with point := .offerDone }
  | .offerTest start =>
      if s.net.dhcp.gotOffer then some { s with point := .offerDone }
      else some { s with point := .offerHead start }
  | .offerDone =>
      if ¬s.net.dhcp.gotOffer then some (.abandon s.net)
      else some { s with point := .sendRequest }
  | .sendRequest => do
      let (code, net) ← dhcpSendRequest s.net
      if code ≠ 0 then some (.abandon net)
      else some { point := .ackHead net.uptimeTicks, net := net }
  | .ackHead start =>
      if s.net.uptimeTicks - start < timeoutTicks then some { s with point := .ackTest start }
      else some (.abandon s.net)
  | .ackTest start =>
      if s.net.dhcp.gotAck then
        some
          { point := .returned 1
            net := { s.net with
              ipAddr := s.net.dhcp.offeredIp
              ipMask := if s.net.dhcp.subnetMask ≠ 0 then s.net.dhcp.subnetMask else netDefaultMask
              ipGw := if s.net.dhcp.router ≠ 0 then s.net.dhcp.router else netDefaultGw
              dhcp := { s.net.dhcp with active := false } } }
      else some { s with point := .ackHead start }
  | .returned _ => none

inductive AcquireEvent
  | step
  | tick
  | frame (bytes : List UInt8)

def receiveFrame (net : Net) (frame : List UInt8) : Option Net :=
  if ¬net.rtlReady then some net
  else netProcessFrame { net with wire := net.wire ++ [.received frame] } frame frame.length

def acquireStep (timeoutTicks : UInt64) (s : Acquire) (event : AcquireEvent) : Option Acquire :=
  match s.point, event with
  | .returned _, _ => none
  | _, .step => netDhcpAcquire timeoutTicks s
  | _, .tick => some { s with net := { s.net with uptimeTicks := s.net.uptimeTicks + 1 } }
  | _, .frame bytes => (receiveFrame s.net bytes).map fun net => { s with net := net }

/-! ## What the two sides said -/

/-- Options 50 and 54 of a transmitted REQUEST. The options follow 14 bytes of Ethernet, 20 of IPv4, 8 of UDP and
240 of BOOTP. -/
def requestOf : Wire → Option (UInt32 × UInt32)
  | .received _ => none
  | .sent frame =>
      let options := dhcpOptions (frame.drop (14 + 20 + 8 + 240))
      if lastOption msgTypeOption options = some dhcpMsgRequest then do
        let ip ← lastOption (addressOption dhcpOptionReqIp) options
        let server ← lastOption (addressOption dhcpOptionServerId) options
        some (ip, server)
      else none

def requested (wire : List Wire) : Option (UInt32 × UInt32) := wire.findSome? requestOf

/-- `frame` is an ACK with our transaction id for this address from this server. -/
def Acknowledges (xid ip server : UInt32) (frame : List UInt8) : Prop :=
  ∃ m, dhcpMessage frame = some m ∧ m.msgType = dhcpMsgAck ∧ m.xid = xid ∧ m.yiaddr = ip ∧ m.serverId = some server

/-- The address of the interface was requested, and granted after that by the server that was asked. -/
def Agreed (net : Net) : Prop :=
  net.ipAddr ≠ 0 ∧ ∃ before request after server, net.wire = before ++ request :: after ∧
    requestOf request = some (net.ipAddr, server) ∧
    ∃ frame, .received frame ∈ after ∧ Acknowledges net.dhcp.xid net.ipAddr server frame

/-- An ACK that is heard answers the REQUEST, which has been sent; an OFFER that is heard after an ACK has the
requested address. -/
def InOrder (s : Acquire) : AcquireEvent → Prop
  | .frame bytes => ∀ m ∈ dhcpMessage bytes, Hears s.net m →
      (m.msgType = dhcpMsgAck → ∃ server ∈ m.serverId, requested s.net.wire = some (m.yiaddr, server)) ∧
      (m.msgType = dhcpMsgOffer → s.net.dhcp.gotAck → (requested s.net.wire).map Prod.fst = some m.yiaddr)
  | _ => True

instance (net : Net) (m : DhcpMessage) : Decidable (Hears net m) :=
  inferInstanceAs (Decidable (_ ∧ _))

instance (s : Acquire) : ∀ event, Decidable (InOrder s event)
  | .frame bytes => inferInstanceAs (Decidable (∀ m ∈ dhcpMessage bytes, Hears s.net m →
      (m.msgType = dhcpMsgAck → ∃ server ∈ m.serverId, requested s.net.wire = some (m.yiaddr, server)) ∧
      (m.msgType = dhcpMsgOffer → s.net.dhcp.gotAck → (requested s.net.wire).map Prod.fst = some m.yiaddr)))
  | .step => isTrue trivial
  | .tick => isTrue trivial

/-! ## Frames -/

theorem requestOf_arp (dst sender target : Mac) (oper : UInt16) (senderIp targetIp : UInt32) :
    requestOf (.sent (arpFrame dst sender target oper senderIp targetIp ++ List.replicate (60 - 42) 0)) = none := by
  have empty : (arpFrame dst sender target oper senderIp targetIp ++ List.replicate (60 - 42) 0).drop
      (14 + 20 + 8 + 240) = [] := by
    apply List.drop_eq_nil_of_le
    simp [arpFrame_length]
  simp only [requestOf, empty]
  rfl

theorem receiveFrame_effect {net after : Net} {frame : List UInt8} (result : receiveFrame net frame = some after) :
    (after.dhcp = net.dhcp ∨ ∃ m, dhcpMessage frame = some m ∧ Hears net m ∧ after.dhcp = net.dhcp.hear m ∧
      after.wire = net.wire ++ [.received frame]) ∧
    ∃ more, after.wire = net.wire ++ more ∧ ∀ w ∈ more, requestOf w = none := by
  rcases rejected_or result with rfl | ⟨_, result⟩
  · exact ⟨.inl rfl, [], by simp, by simp⟩
  have first : ∀ w ∈ [Wire.received frame], requestOf w = none := by simp [requestOf]
  cases netProcessFrame_effect result with
  | ignored => exact ⟨.inl rfl, _, rfl, first⟩
  | arp ip mac =>
      obtain ⟨cache, updated, _⟩ := arpCacheUpdate_eq { net with wire := net.wire ++ [.received frame] } ip mac
      rw [updated]
      exact ⟨.inl rfl, _, rfl, first⟩
  | arpReply ip mac =>
      obtain ⟨cache, updated, _⟩ := arpCacheUpdate_eq { net with wire := net.wire ++ [.received frame] } ip mac
      rw [updated, arpSendReply]
      rcases rtlSendRawFrame_cases { net with wire := net.wire ++ [.received frame], arpCache := cache }
        (arpFrame mac net.mac mac arpOperReply net.ipAddr ip) with failed | sent
      · rw [failed]
        exact ⟨.inl rfl, _, rfl, first⟩
      · rw [sent, arpFrame_length]
        refine ⟨.inl rfl, _, List.append_assoc _ _ _, ?_⟩
        intro w member
        rcases List.mem_append.mp member with received | reply
        · exact first w received
        · rw [List.mem_singleton.mp reply, requestOf_arp]
  | echo ttl active => exact ⟨.inl rfl, _, rfl, first⟩
  | dhcp m decoded heard => exact ⟨.inr ⟨m, decoded, heard, rfl, rfl⟩, _, rfl, first⟩

/-! ## Transmitting -/

theorem dhcpSend_cases {net after : Net} {options : List UInt8} {code : Int}
    (result : dhcpSend net options = some (code, after)) :
    code = -1 ∧ after = net ∨ code = 0 ∧ after.dhcp = net.dhcp ∧
      ∃ frame, frame.drop (14 + 20 + 8 + 240) = options ∧ after.wire = net.wire ++ [.sent frame] := by
  rcases rejected_or result with refused | ⟨short, result⟩
  · cases refused
    exact Or.inl ⟨rfl, rfl⟩
  obtain ⟨checksum, _, result⟩ := Option.bind_eq_some_iff.mp result
  generalize whole : _ ++ (dhcpHeader net ++ options) = frame at result
  have long : 60 ≤ frame.length := by
    rw [← whole]
    simp only [List.length_append, dhcpHeader_length]
    omega
  have behind : frame.drop (14 + 20 + 8 + 240) = options := by
    rw [← whole, ← List.append_assoc]
    apply List.drop_left'
    simp
  rcases rtlSendRawFrame_cases net frame with failed | sent
  · rw [failed] at result
    cases result
    exact Or.inl ⟨rfl, rfl⟩
  · rw [sent, show 60 - frame.length = 0 by omega, List.replicate_zero, List.append_nil] at result
    cases result
    exact Or.inr ⟨rfl, rfl, frame, behind, rfl⟩

theorem dhcpOptions_request (ip server : UInt32) :
    dhcpOptions (dhcpRequestOptions ip server) =
      [(dhcpOptionMsgType, [dhcpMsgRequest]), (dhcpOptionReqIp, be32Store ip), (dhcpOptionServerId, be32Store server)] :=
  rfl

theorem requestOf_request {frame : List UInt8} {ip server : UInt32}
    (options : frame.drop (14 + 20 + 8 + 240) = dhcpRequestOptions ip server) :
    requestOf (.sent frame) = some (ip, server) := by
  have loadIp : be32Load (be32Store ip) 0 = some ip := by simpa using be32Load_be32Store ip []
  have loadServer : be32Load (be32Store server) 0 = some server := by simpa using be32Load_be32Store server []
  simp [requestOf, options, dhcpOptions_request, lastOption, msgTypeOption, addressOption, loadIp, loadServer,
    dhcpOptionMsgType, dhcpOptionReqIp, dhcpOptionServerId]

theorem requestOf_discover {frame : List UInt8}
    (options : frame.drop (14 + 20 + 8 + 240) = [dhcpOptionMsgType, 1, dhcpMsgDiscover, dhcpOptionParamReqList, 3,
      dhcpOptionSubnetMask, dhcpOptionRouter, dhcpOptionServerId, dhcpOptionEnd]) :
    requestOf (.sent frame) = none := by
  simp only [requestOf, options]
  rfl

theorem requested_append {wire more : List Wire} (silent : ∀ w ∈ more, requestOf w = none) :
    requested (wire ++ more) = requested wire := by
  rw [requested, List.findSome?_append, List.findSome?_eq_none_iff.mpr silent, Option.or_none, requested]

/-! ## The invariant -/

namespace DhcpLease

theorem hear_xid (lease : DhcpLease) (m : DhcpMessage) : (lease.hear m).xid = lease.xid := by
  unfold hear
  split_ifs <;> rfl

theorem hear_ack (lease : DhcpLease) {m : DhcpMessage} (ack : m.msgType = dhcpMsgAck) :
    (lease.hear m).offeredIp = m.yiaddr := by
  unfold hear
  split_ifs
  all_goals rfl

theorem hear_other (lease : DhcpLease) {m : DhcpMessage} (other : m.msgType ≠ dhcpMsgAck) :
    (lease.hear m).gotAck = lease.gotAck ∧
      ((lease.hear m).offeredIp = lease.offeredIp ∨
        m.msgType = dhcpMsgOffer ∧ (lease.hear m).offeredIp = m.yiaddr) := by
  unfold hear
  split_ifs with offer
  · exact ⟨rfl, Or.inr ⟨offer, rfl⟩⟩
  · exact ⟨rfl, Or.inl rfl⟩

end DhcpLease

structure Searching (net : Net) : Prop where
  unacknowledged : net.dhcp.gotAck = false
  unrequested : requested net.wire = none

structure Requesting (net : Net) (ip server : UInt32) : Prop where
  nonzero : ip ≠ 0
  first : requested net.wire = some (ip, server)
  sent : ∃ before request after, net.wire = before ++ request :: after ∧ requestOf request = some (ip, server) ∧
    (net.dhcp.gotAck → net.dhcp.offeredIp = ip ∧
      ∃ frame, .received frame ∈ after ∧ Acknowledges net.dhcp.xid ip server frame)

def AcquireInv (s : Acquire) : Prop :=
  match s.point with
  | .sendDiscover | .offerHead _ | .offerTest _ | .offerDone | .sendRequest => Searching s.net
  | .ackHead _ | .ackTest _ => ∃ ip server, Requesting s.net ip server
  | .returned value => value = 1 → Agreed s.net

theorem Searching.receive {s : Acquire} {after : Net} {frame : List UInt8} (inv : Searching s.net)
    (inOrder : InOrder s (.frame frame)) (result : receiveFrame s.net frame = some after) : Searching after := by
  obtain ⟨lease, more, wire, silent⟩ := receiveFrame_effect result
  have unrequested : requested after.wire = none := by
    rw [wire, requested_append silent, inv.unrequested]
  rcases lease with same | ⟨m, decoded, heard, hears, _⟩
  · exact ⟨by rw [same, inv.unacknowledged], unrequested⟩
  · obtain ⟨ack, _⟩ := inOrder m decoded heard
    have other : m.msgType ≠ dhcpMsgAck := by
      intro isAck
      obtain ⟨server, _, sent⟩ := ack isAck
      rw [inv.unrequested] at sent
      cases sent
    exact ⟨by rw [hears, (s.net.dhcp.hear_other other).1, inv.unacknowledged], unrequested⟩

theorem Requesting.receive {s : Acquire} {after : Net} {frame : List UInt8} {ip server : UInt32}
    (inv : Requesting s.net ip server) (inOrder : InOrder s (.frame frame))
    (result : receiveFrame s.net frame = some after) : Requesting after ip server := by
  obtain ⟨lease, more, wire, silent⟩ := receiveFrame_effect result
  obtain ⟨before, request, rest, split, isRequest, granted⟩ := inv.sent
  have first : requested after.wire = some (ip, server) := by
    rw [wire, requested_append silent, inv.first]
  have extended : after.wire = before ++ request :: (rest ++ more) := by
    rw [wire, split, List.append_assoc, List.cons_append]
  refine ⟨inv.nonzero, first, before, request, rest ++ more, extended, isRequest, ?_⟩
  intro acknowledged
  rcases lease with same | ⟨m, decoded, heard, hears, captured⟩
  · rw [same] at acknowledged ⊢
    obtain ⟨offered, ack, member, agrees⟩ := granted acknowledged
    exact ⟨offered, ack, List.mem_append_left _ member, agrees⟩
  · obtain ⟨answers, keeps⟩ := inOrder m decoded heard
    rw [hears, DhcpLease.hear_xid]
    rcases eq_or_ne m.msgType dhcpMsgAck with ack | other
    · -- the message itself is the ACK
      obtain ⟨sender, isSender, sent⟩ := answers ack
      rw [inv.first] at sent
      obtain ⟨rfl, rfl⟩ := Prod.mk.inj (Option.some.inj sent)
      have arrived : more = [.received frame] := List.append_cancel_left (wire.symm.trans captured)
      refine ⟨s.net.dhcp.hear_ack ack, frame, ?_, m, decoded, ack, heard.2.1, rfl, isSender⟩
      rw [arrived]
      simp
    · obtain ⟨flag, address⟩ := s.net.dhcp.hear_other other
      rw [hears, flag] at acknowledged
      obtain ⟨offered, ack, member, agrees⟩ := granted acknowledged
      refine ⟨?_, ack, List.mem_append_left _ member, agrees⟩
      rcases address with same | ⟨offer, replaced⟩
      · rw [same, offered]
      · have requestedIp := keeps offer acknowledged
        rw [inv.first] at requestedIp
        rw [replaced]
        exact (Option.some.inj requestedIp).symm

theorem Searching.discover {net after : Net} {code : Int} (inv : Searching net)
    (result : dhcpSendDiscover net = some (code, after)) (sent : code = 0) : Searching after := by
  rcases dhcpSend_cases result with ⟨failed, _⟩ | ⟨_, lease, frame, options, wire⟩
  · omega
  · refine ⟨by rw [lease, inv.unacknowledged], ?_⟩
    rw [wire, requested_append (by simp [requestOf_discover options]), inv.unrequested]

theorem Searching.request {net after : Net} {code : Int} (inv : Searching net)
    (result : dhcpSendRequest net = some (code, after)) (sent : code = 0) :
    Requesting after net.dhcp.offeredIp net.dhcp.serverIp := by
  rcases rejected_or result with refused | ⟨offered, result⟩
  · cases refused
    cases sent
  rcases dhcpSend_cases result with ⟨failed, _⟩ | ⟨_, lease, frame, options, wire⟩
  · omega
  have isRequest := requestOf_request options
  refine ⟨fun zero => offered (Or.inr (Or.inr zero)), ?_, net.wire, .sent frame, [], wire, isRequest, ?_⟩
  · have none_before := inv.unrequested
    rw [requested] at none_before
    rw [wire, requested, List.findSome?_append, none_before, Option.none_or]
    simp [isRequest]
  · intro acknowledged
    rw [lease, inv.unacknowledged] at acknowledged
    cases acknowledged

theorem acquireInv_step {timeoutTicks : UInt64} {s t : Acquire} (inv : AcquireInv s)
    (result : netDhcpAcquire timeoutTicks s = some t) : AcquireInv t := by
  obtain ⟨point, net⟩ := s
  have abandoned (net : Net) : AcquireInv (.abandon net) := fun one => absurd one (by decide)
  cases point with
  | sendDiscover =>
      obtain ⟨⟨code, after⟩, sent, result⟩ := Option.bind_eq_some_iff.mp result
      rcases rejected_or result with rfl | ⟨success, result⟩
      · exact abandoned after
      · cases result
        exact Searching.discover inv sent (not_not.mp success)
  | offerHead start =>
      rcases rejected_or result with rfl | ⟨_, result⟩
      · exact inv
      · cases result
        exact inv
  | offerTest start =>
      rcases rejected_or result with rfl | ⟨_, result⟩
      · exact inv
      · cases result
        exact inv
  | offerDone =>
      rcases rejected_or result with rfl | ⟨_, result⟩
      · exact abandoned net
      · cases result
        exact inv
  | sendRequest =>
      obtain ⟨⟨code, after⟩, sent, result⟩ := Option.bind_eq_some_iff.mp result
      rcases rejected_or result with rfl | ⟨success, result⟩
      · exact abandoned after
      · cases result
        exact ⟨_, _, Searching.request inv sent (not_not.mp success)⟩
  | ackHead start =>
      rcases rejected_or result with rfl | ⟨_, result⟩
      · exact inv
      · cases result
        exact abandoned net
  | ackTest start =>
      cases acknowledged : net.dhcp.gotAck with
      | false =>
          simp only [netDhcpAcquire, acknowledged, Bool.false_eq_true, if_false] at result
          cases result
          exact inv
      | true =>
          simp only [netDhcpAcquire, acknowledged, if_true] at result
          cases result
          intro _
          obtain ⟨ip, server, requesting⟩ := inv
          obtain ⟨before, request, rest, split, isRequest, granted⟩ := requesting.sent
          obtain ⟨rfl, ack⟩ := granted acknowledged
          exact ⟨requesting.nonzero, before, request, rest, server, split, isRequest, ack⟩
  | returned value => cases result

theorem acquireInv_event {timeoutTicks : UInt64} (s : Acquire) (event : AcquireEvent) (t : Acquire) (inv : AcquireInv s)
    (inOrder : InOrder s event) (result : acquireStep timeoutTicks s event = some t) : AcquireInv t := by
  obtain ⟨point, net⟩ := s
  cases event with
  | step =>
      apply acquireInv_step inv
      rw [← result]
      cases point <;> rfl
  | tick =>
      cases point with
      | returned value => cases result
      | ackHead start | ackTest start =>
          cases result
          obtain ⟨ip, server, requesting⟩ := inv
          exact ⟨ip, server, requesting.nonzero, requesting.first, requesting.sent⟩
      | _ =>
          cases result
          obtain ⟨unacknowledged, unrequested⟩ : Searching net := inv
          exact ⟨unacknowledged, unrequested⟩
  | frame bytes =>
      cases point with
      | returned value => cases result
      | ackHead start | ackTest start =>
          obtain ⟨after, received, rfl⟩ := Option.map_eq_some_iff.mp result
          obtain ⟨ip, server, requesting⟩ := inv
          exact ⟨ip, server, requesting.receive inOrder received⟩
      | _ =>
          obtain ⟨after, received, rfl⟩ := Option.map_eq_some_iff.mp result
          exact Searching.receive inv inOrder received

theorem acquireInv_start (net : Net) : AcquireInv (acquireStart net) := by
  unfold acquireStart
  split_ifs
  · exact ⟨rfl, rfl⟩
  · intro one
    cases one

/-- If every frame that is heard comes in order, the address that `net_dhcp_acquire` returns with was granted by the
server it was requested from. -/
theorem dhcp_agreement_in_order (timeoutTicks : UInt64) (net : Net) (events : List AcquireEvent) (t : Acquire)
    (inOrder : Along (acquireStep timeoutTicks) InOrder (acquireStart net) events)
    (reaches : run (acquireStep timeoutTicks) (acquireStart net) events = some t)
    (success : t.point = .returned 1) : Agreed t.net := by
  have inv : AcquireInv t := inOrder.invariant acquireInv_event (acquireInv_start net) reaches
  rw [AcquireInv, success] at inv
  exact inv rfl

/-! ## Two runs -/

def serverReply (mac : Mac) (xid : UInt32) (msgType : UInt8) (yiaddr server : UInt32) : Option (List UInt8) := do
  let payload := [dhcpOpReply, dhcpHtypeEthernet, 6, 0] ++ be32Store xid ++ List.replicate 8 0 ++ be32Store yiaddr ++
    List.replicate 8 0 ++ mac.toList ++ List.replicate 202 0 ++ be32Store dhcpMagicCookie ++
    [dhcpOptionMsgType, 1, msgType, dhcpOptionServerId, 4] ++ be32Store server ++ [dhcpOptionEnd]
  let (_, sender) ← ipSendUdp { rtlReady := true } server netIpv4Broadcast udpPortDhcpServer udpPortDhcpClient payload
    broadcastMac
  match sender.wire with
  | [.sent frame] => some frame
  | _ => none

def readyNet : Net := { rtlReady := true, mac := ⟨[0x52, 0x54, 0, 0x12, 0x34, 0x56], rfl⟩ }

/-- An OFFER of 10.0.2.16 by 10.0.2.2 ends the first wait; the second one hears `replies`. -/
def acquireRun (replies : List (UInt8 × UInt32 × UInt32)) : List AcquireEvent :=
  let reply (r : UInt8 × UInt32 × UInt32) : AcquireEvent :=
    .frame ((serverReply readyNet.mac 0x4D474443 r.1 r.2.1 r.2.2).getD [])
  [.step, .step, reply (dhcpMsgOffer, 0x0A000210, 0x0A000202), .step, .step, .step, .step] ++
    replies.map reply ++ [.step]

theorem dhcp_agreement_in_order_sample :
    ∃ t, run (acquireStep 300) (acquireStart readyNet) (acquireRun [(dhcpMsgAck, 0x0A000210, 0x0A000202)]) = some t ∧
      t.point = .returned 1 ∧ Agreed t.net := by
  obtain ⟨t, reaches, success⟩ := exists_of_check (P := fun t : Acquire => t.point = .returned 1)
    (show (run (acquireStep 300) (acquireStart readyNet)
      (acquireRun [(dhcpMsgAck, 0x0A000210, 0x0A000202)])).map _ = some true by decide +kernel)
  exact ⟨t, reaches, success, dhcp_agreement_in_order 300 readyNet _ t (by decide +kernel) reaches success⟩

/-- The OFFER of a second server comes between the ACK and the test of the flag: the interface takes an address
that it never requested and nobody granted. -/
theorem dhcp_late_offer_wins :
    ∃ t, run (acquireStep 300) (acquireStart readyNet)
      (acquireRun [(dhcpMsgAck, 0x0A000210, 0x0A000202), (dhcpMsgOffer, 0x0A000299, 0x0A000203)]) = some t ∧
      t.point = .returned 1 ∧ ¬Agreed t.net := by
  obtain ⟨t, reaches, success, unasked⟩ := exists_of_check
    (P := fun t : Acquire => t.point = .returned 1 ∧
      ∀ w ∈ t.net.wire, (requestOf w).map Prod.fst ≠ some t.net.ipAddr)
    (show (run (acquireStep 300) (acquireStart readyNet)
      (acquireRun [(dhcpMsgAck, 0x0A000210, 0x0A000202), (dhcpMsgOffer, 0x0A000299, 0x0A000203)])).map _ = some true by
      decide +kernel)
  refine ⟨t, reaches, success, ?_⟩
  rintro ⟨_, before, request, after, server, wire, isRequest, _⟩
  apply unasked request (by simp [wire])
  rw [isRequest]
  rfl

end Mgcore
