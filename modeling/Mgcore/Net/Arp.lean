import Mgcore.Net.Bounds
import Mgcore.Net.Decode

/-!
# The ARP exchange

`arpMessage` reads a frame as an Ethernet/IPv4 ARP packet without looking at the driver, and `Net.hearArp` is
what the driver does with one. The frames of `arpFrame` read back as what was put into them, whatever the
padding, so a request makes its target answer and leaves each of the two with the hardware address of the other.
-/

namespace Mgcore

open Lib

/-! ## The cache -/

theorem arpFind_spec {net : Net} {ip : UInt32} {i : Fin maxArpCache} (found : arpFind net ip = some i) :
    (net.arpCache i).valid ∧ (net.arpCache i).ip = ip := by
  have holds := List.find?_some found
  exact of_decide_eq_true holds

theorem arpFind_none {net : Net} {ip : UInt32} (missing : arpFind net ip = none) (i : Fin maxArpCache) :
    ¬((net.arpCache i).valid ∧ (net.arpCache i).ip = ip) := by
  have fails := List.find?_eq_none.mp missing i (List.mem_finRange i)
  exact fun holds => fails (decide_eq_true holds)

theorem arpFind_unique {net : Net} {ip : UInt32} {i : Fin maxArpCache}
    (here : (net.arpCache i).valid ∧ (net.arpCache i).ip = ip)
    (only : ∀ j, (net.arpCache j).valid ∧ (net.arpCache j).ip = ip → j = i) : arpFind net ip = some i := by
  cases found : arpFind net ip with
  | none => exact absurd here (arpFind_none found i)
  | some j => rw [only j (arpFind_spec found)]

theorem arpCacheLookup_update (net : Net) (ip : UInt32) (mac : Mac) :
    arpCacheLookup (arpCacheUpdate net ip mac) ip = some mac := by
  unfold arpCacheUpdate
  cases found : arpFind net ip with
  | some i =>
      -- the entry keeps its address, so the search stops where it did
      let entry : ArpEntry := { net.arpCache i with mac := mac, updatedTick := net.uptimeTicks }
      have same : arpFind (setArp net i entry) ip = arpFind net ip := by
        unfold arpFind
        apply congrArg (fun p => List.find? p _)
        funext j
        by_cases here : j = i
        · subst here
          simp only [setArp, Function.update_self, entry]
        · simp only [setArp, Function.update_of_ne here]
      change (arpFind (setArp net i entry) ip).map (fun j => ((setArp net i entry).arpCache j).mac) = some mac
      rw [same, found, Option.map_some]
      simp only [setArp, Function.update_self, entry]
  | none =>
      generalize ((List.finRange maxArpCache).find? fun i => ¬(net.arpCache i).valid).getD 0 = slot
      let entry : ArpEntry := { ip := ip, mac := mac, valid := true, updatedTick := net.uptimeTicks }
      have self : (setArp net slot entry).arpCache slot = entry := Function.update_self ..
      have only : ∀ j, ((setArp net slot entry).arpCache j).valid ∧ ((setArp net slot entry).arpCache j).ip = ip →
          j = slot := by
        intro j holds
        by_contra other
        rw [show (setArp net slot entry).arpCache j = net.arpCache j from Function.update_of_ne other ..] at holds
        exact arpFind_none found j holds
      change (arpFind (setArp net slot entry) ip).map (fun j => ((setArp net slot entry).arpCache j).mac) = some mac
      rw [arpFind_unique (by rw [self]; exact ⟨rfl, rfl⟩) only, Option.map_some, self]

/-! ## Packets -/

/-- An ARP packet for Ethernet and IPv4, without the target hardware address, which nobody reads. -/
structure ArpPacket where
  oper : UInt16
  sha : Mac
  sip : UInt32
  tip : UInt32
  deriving DecidableEq

def arpPacket (frame : List UInt8) (base length : Nat) : Option ArpPacket :=
  if length < 28 then none
  else do
    let htype ← be16Load frame (base + 0)
    let ptype ← be16Load frame (base + 2)
    let oper ← be16Load frame (base + 6)
    let hlen ← frame[base + 4]?
    let plen ← frame[base + 5]?
    if htype ≠ arpHtypeEthernet ∨ ptype ≠ arpPtypeIpv4 ∨ hlen ≠ 6 ∨ plen ≠ 4 then none
    else do
      let sha ← loadMac frame (base + 8)
      let sip ← be32Load frame (base + 14)
      let tip ← be32Load frame (base + 24)
      some { oper, sha, sip, tip }

def arpMessage (frame : List UInt8) : Option ArpPacket :=
  if frame.length < 14 then none
  else do
    let ethType ← be16Load frame 12
    if ethType ≠ ethTypeArp then none else arpPacket frame 14 (frame.length - 14)

def Net.Asked (net : Net) (p : ArpPacket) : Prop := p.oper = arpOperRequest ∧ p.tip = net.ipAddr

instance (net : Net) (p : ArpPacket) : Decidable (net.Asked p) :=
  inferInstanceAs (Decidable (_ ∧ _))

def Net.hearArp (net : Net) (p : ArpPacket) : Net :=
  if net.Asked p then (arpSendReply (arpCacheUpdate net p.sip p.sha) p.sha p.sip).2
  else arpCacheUpdate net p.sip p.sha

theorem netProcessArp_result {net after : Net} {frame : List UInt8} {base length : Nat}
    (result : netProcessArp net frame base length = some after) :
    after = (arpPacket frame base length).elim net net.hearArp := by
  unfold netProcessArp at result
  unfold arpPacket
  by_cases short : length < 28
  · rw [if_pos short] at result ⊢
    exact (Option.some.inj result).symm
  rw [if_neg short] at result ⊢
  obtain ⟨htype, readHtype, result⟩ := Option.bind_eq_some_iff.mp result
  obtain ⟨ptype, readPtype, result⟩ := Option.bind_eq_some_iff.mp result
  obtain ⟨oper, readOper, result⟩ := Option.bind_eq_some_iff.mp result
  obtain ⟨hlen, readHlen, result⟩ := Option.bind_eq_some_iff.mp result
  obtain ⟨plen, readPlen, result⟩ := Option.bind_eq_some_iff.mp result
  simp only [readHtype, readPtype, readOper, readHlen, readPlen, Option.bind_eq_bind, Option.bind_some]
  by_cases other : htype ≠ arpHtypeEthernet ∨ ptype ≠ arpPtypeIpv4 ∨ hlen ≠ 6 ∨ plen ≠ 4
  · rw [if_pos other] at result ⊢
    exact (Option.some.inj result).symm
  rw [if_neg other] at result ⊢
  obtain ⟨sha, readSha, result⟩ := Option.bind_eq_some_iff.mp result
  obtain ⟨sip, readSip, result⟩ := Option.bind_eq_some_iff.mp result
  obtain ⟨tip, readTip, result⟩ := Option.bind_eq_some_iff.mp result
  simp only [readSha, readSip, readTip, Option.bind_some, Option.elim_some, Net.hearArp]
  by_cases asked : oper = arpOperRequest ∧ tip = net.ipAddr
  · rw [if_pos asked] at result
    rw [if_pos (show net.Asked ⟨oper, sha, sip, tip⟩ from asked)]
    exact (Option.some.inj result).symm
  · rw [if_neg asked] at result
    rw [if_neg (show ¬net.Asked ⟨oper, sha, sip, tip⟩ from asked)]
    exact (Option.some.inj result).symm

theorem netProcessFrame_arp (net : Net) {frame : List UInt8} {p : ArpPacket} (decoded : arpMessage frame = some p) :
    netProcessFrame net frame frame.length = some (net.hearArp p) := by
  obtain ⟨after, result⟩ := Option.isSome_iff_exists.mp (netProcessFrame_isSome net frame)
  obtain ⟨long, payload⟩ := passed decoded
  obtain ⟨ethType, readType, payload⟩ := Option.bind_eq_some_iff.mp payload
  obtain ⟨arp, payload⟩ := passed payload
  rw [result]
  rw [netProcessFrame, if_neg long, readType, Option.bind_eq_bind, Option.bind_some, if_pos (not_not.mp arp)] at result
  rw [netProcessArp_result result, payload, Option.elim_some]

/-! ## Frames of our own -/

theorem loadMac_past {before : List UInt8} {i : Nat} (within : before.length ≤ i) (rest : List UInt8) :
    loadMac (before ++ rest) i = loadMac rest (i - before.length) := by
  unfold loadMac
  rw [getElem?_past within, getElem?_past within, getElem?_past within, getElem?_past within, getElem?_past within,
    List.getElem?_append_right within]

theorem loadMac_toList (mac : Mac) (rest : List UInt8) : loadMac (mac.toList ++ rest) 0 = some mac := by
  obtain ⟨bytes, six⟩ := mac
  match bytes, six with
  | [b0, b1, b2, b3, b4, b5], _ => rfl

def onCable (frame : List UInt8) : List UInt8 := frame ++ List.replicate 18 0

section
variable (dst sender target : Mac) (oper : UInt16) (senderIp targetIp : UInt32)

theorem arpMessage_arpFrame (padding : List UInt8) :
    arpMessage (arpFrame dst sender target oper senderIp targetIp ++ padding) =
      some ⟨oper, sender, senderIp, targetIp⟩ := by
  have size : (arpFrame dst sender target oper senderIp targetIp ++ padding).length = 42 + padding.length := by
    rw [List.length_append, arpFrame_length]
  unfold arpMessage arpPacket
  rw [size, if_neg (by omega), if_neg (by omega)]
  simp only [arpFrame, List.append_assoc]
  -- each field is read past the ones before it
  simp only [List.getElem?_append_right, be16Load_past, be32Load_past, loadMac_past, be16Load_be16Store,
    be32Load_be32Store, loadMac_toList, List.Vector.toList_length, be16Store_length, be32Store_length, List.length_cons,
    List.length_nil, Nat.reduceAdd, Nat.reduceSub, Nat.reduceLeDiff, Nat.le_refl, Nat.sub_self, Option.bind_eq_bind,
    Option.bind_some]
  rfl

theorem onCable_length : (onCable (arpFrame dst sender target oper senderIp targetIp)).length = 60 := by
  rw [onCable, List.length_append, arpFrame_length, List.length_replicate]

theorem netProcessFrame_onCable (net : Net) :
    netProcessFrame net (onCable (arpFrame dst sender target oper senderIp targetIp)) 60 =
      some (net.hearArp ⟨oper, sender, senderIp, targetIp⟩) := by
  rw [← onCable_length dst sender target oper senderIp targetIp]
  exact netProcessFrame_arp net (arpMessage_arpFrame ..)

end

/-! ## The exchange -/

theorem rtlSendRawFrame_ready {net : Net} {frame : List UInt8} (ready : net.rtlReady) (filled : frame.length ≠ 0)
    (fits : frame.length ≤ txBufferSize) :
    (rtlSendRawFrame net frame).2.wire = net.wire ++ [.sent (frame ++ List.replicate (60 - frame.length) 0)] := by
  have accepted : ¬(¬net.rtlReady ∨ frame.length = 0 ∨ txBufferSize < frame.length) := by
    rintro (down | empty | long)
    · exact down ready
    · exact filled empty
    · exact Nat.not_lt.mpr fits long
  rw [rtlSendRawFrame, if_neg accepted]

theorem arpFrame_sent {net : Net} (ready : net.rtlReady) (dst sender target : Mac) (oper : UInt16)
    (senderIp targetIp : UInt32) :
    (rtlSendRawFrame net (arpFrame dst sender target oper senderIp targetIp)).2.wire =
      net.wire ++ [.sent (onCable (arpFrame dst sender target oper senderIp targetIp))] := by
  have size := arpFrame_length dst sender target oper senderIp targetIp
  rw [rtlSendRawFrame_ready ready (by omega) (by rw [size]; decide), size]
  rfl

theorem rtlSendRawFrame_lookup (net : Net) (frame : List UInt8) (ip : UInt32) :
    arpCacheLookup (rtlSendRawFrame net frame).2 ip = arpCacheLookup net ip := by
  rcases rtlSendRawFrame_cases net frame with failed | sent
  · rw [failed]
  · rw [sent]
    rfl

theorem hearArp_lookup (net : Net) (p : ArpPacket) : arpCacheLookup (net.hearArp p) p.sip = some p.sha := by
  unfold Net.hearArp
  split_ifs with asked
  · rw [arpSendReply, rtlSendRawFrame_lookup, arpCacheLookup_update]
  · exact arpCacheLookup_update net p.sip p.sha

theorem hearArp_silent {net : Net} {p : ArpPacket} (other : ¬net.Asked p) : (net.hearArp p).wire = net.wire := by
  obtain ⟨cache, updated, _⟩ := arpCacheUpdate_eq net p.sip p.sha
  rw [Net.hearArp, if_neg other, updated]

theorem hearArp_answers {net : Net} {p : ArpPacket} (ready : net.rtlReady) (asked : net.Asked p) :
    (net.hearArp p).wire =
      net.wire ++ [.sent (onCable (arpFrame p.sha net.mac p.sha arpOperReply net.ipAddr p.sip))] := by
  obtain ⟨cache, updated, _⟩ := arpCacheUpdate_eq net p.sip p.sha
  rw [Net.hearArp, if_pos asked, updated]
  exact @arpFrame_sent { net with arpCache := cache } ready ..

/-- `a` asks for the address of `b`, which answers it. Each of the two then knows the other, and no node with
another address than the one asked for sends anything. -/
structure ArpExchange (a b : Net) (request answer : List UInt8) : Prop where
  asks : (arpSendRequest a b.ipAddr).2.wire = a.wire ++ [.sent request]
  padded : request.length = 60 ∧ answer.length = 60
  answers : ∃ b', netProcessFrame b request 60 = some b' ∧ b'.wire = b.wire ++ [.sent answer] ∧
    arpCacheLookup b' a.ipAddr = some a.mac
  learns : ∃ a', netProcessFrame (arpSendRequest a b.ipAddr).2 answer 60 = some a' ∧
    arpCacheLookup a' b.ipAddr = some b.mac
  silent : ∀ c : Net, c.ipAddr ≠ b.ipAddr → ∃ c', netProcessFrame c request 60 = some c' ∧ c'.wire = c.wire

theorem arp_exchange (a b : Net) (readyA : a.rtlReady) (readyB : b.rtlReady) :
    ∃ request answer, ArpExchange a b request answer := by
  have asked : b.Asked ⟨arpOperRequest, a.mac, a.ipAddr, b.ipAddr⟩ := ⟨rfl, rfl⟩
  refine ⟨_, _, ⟨arpFrame_sent readyA .., ⟨onCable_length .., onCable_length ..⟩, ⟨_, netProcessFrame_onCable ..,
    hearArp_answers readyB asked, hearArp_lookup ..⟩, ⟨_, netProcessFrame_onCable .., hearArp_lookup ..⟩, ?_⟩⟩
  intro c other
  refine ⟨_, netProcessFrame_onCable .., hearArp_silent ?_⟩
  rintro ⟨_, target⟩
  exact other target.symm

-- A node whose cache is full of other addresses.
def busyNode (host : UInt8) : Net :=
  { rtlReady := true
    mac := ⟨[0x52, 0x54, 0, 0x12, 0x34, host], rfl⟩
    ipAddr := 0x0A000200 + host.toUInt32
    arpCache := fun i => { ip := 0x0A0002F0 + UInt32.ofNat i, valid := true } }

theorem arp_exchange_sample :
    ((busyNode 15).rtlReady ∧ (busyNode 16).rtlReady ∧ (busyNode 15).ipAddr ≠ (busyNode 16).ipAddr) ∧
      ∃ request answer, ArpExchange (busyNode 15) (busyNode 16) request answer :=
  ⟨⟨rfl, rfl, by decide⟩, arp_exchange (busyNode 15) (busyNode 16) rfl rfl⟩

end Mgcore
