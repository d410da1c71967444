import Mgcore.Net.Bounds
import Mgcore.Net.Decode

/-!
# DHCP options and the lease

`Decodes` reads a string of options without a counter. `dhcp_parse_options` writes what it finds into the lease while it
still looks for the message type, so a reply for us that is neither an OFFER nor an ACK changes the lease too, unless its
options repeat what is there.
-/

namespace Mgcore

open Lib

/-! ## Decoding -/

inductive Decodes : List UInt8 → List DhcpOption → Prop
  | finished : Decodes [] []
  | stop (rest : List UInt8) : Decodes (dhcpOptionEnd :: rest) []
  | pad {rest : List UInt8} {options : List DhcpOption} : Decodes rest options → Decodes (0 :: rest) options
  | noLength {code : UInt8} : code ≠ dhcpOptionEnd → code ≠ 0 → Decodes [code] []
  | cut {code length : UInt8} {rest : List UInt8} : code ≠ dhcpOptionEnd → code ≠ 0 → rest.length < length.toNat →
      Decodes (code :: length :: rest) []
  | option {code length : UInt8} {rest : List UInt8} {options : List DhcpOption} : code ≠ dhcpOptionEnd → code ≠ 0 →
      length.toNat ≤ rest.length → Decodes (rest.drop length.toNat) options →
      Decodes (code :: length :: rest) ((code, rest.take length.toNat) :: options)

theorem decodes_taggedLoop {fuel : Nat} {bytes : List UInt8} (enough : bytes.length < fuel) :
    Decodes bytes (taggedLoop 0 dhcpOptionEnd fuel bytes) := by
  induction fuel generalizing bytes with
  | zero => omega
  | succ fuel ih =>
      cases bytes with
      | nil => exact .finished
      | cons code rest =>
          rw [List.length_cons] at enough
          simp only [taggedLoop]
          by_cases last : code = dhcpOptionEnd
          · rw [if_pos last, last]
            exact .stop rest
          rw [if_neg last]
          by_cases padding : code = 0
          · rw [if_pos padding, padding]
            exact .pad (ih (by omega))
          rw [if_neg padding]
          cases rest with
          | nil => exact .noLength last padding
          | cons length rest =>
              rw [List.length_cons] at enough
              by_cases short : rest.length < length.toNat
              · simp only [if_pos short]
                exact .cut last padding short
              · simp only [if_neg short]
                refine .option last padding (Nat.not_lt.mp short) (ih ?_)
                rw [List.length_drop]
                omega

theorem decodes_dhcpOptions (bytes : List UInt8) : Decodes bytes (dhcpOptions bytes) :=
  decodes_taggedLoop (Nat.lt_succ_self _)

theorem Decodes.unique {bytes : List UInt8} {options others : List DhcpOption} (first : Decodes bytes options)
    (second : Decodes bytes others) : options = others := by
  induction first generalizing others with
  | finished => cases second; rfl
  | stop rest => cases second <;> first | rfl | contradiction
  | pad _ ih =>
      cases second with
      | pad rest => exact ih rest
      | noLength _ notPad => exact absurd rfl notPad
      | cut _ notPad => exact absurd rfl notPad
      | option _ notPad => exact absurd rfl notPad
  | noLength notStop notPad => cases second <;> first | rfl | contradiction
  | cut notStop notPad short =>
      cases second with
      | stop => rfl
      | pad => contradiction
      | cut => rfl
      | option _ _ long => omega
  | option notStop notPad long _ ih =>
      cases second with
      | stop => contradiction
      | pad => contradiction
      | cut _ _ short => omega
      | option _ _ _ rest => rw [ih rest]

/-- For any string of options, wherever it lies: the parser ends, and what it finds is what the only decoding of the string
has last. -/
theorem dhcp_parse_options_is_decoder (lease : DhcpLease) (before options after : List UInt8) :
    ∃ decoded, Decodes options decoded ∧ (∀ other, Decodes options other → other = decoded) ∧
      dhcpParseOptions lease (before ++ (options ++ after)) before.length options.length =
        some
          ({ lease with
              serverIp := (lastOption (addressOption dhcpOptionServerId) decoded).getD lease.serverIp
              subnetMask := (lastOption (addressOption dhcpOptionSubnetMask) decoded).getD lease.subnetMask
              router := (lastOption routerOption decoded).getD lease.router },
            (lastOption msgTypeOption decoded).getD 0) := by
  have decodes := decodes_dhcpOptions options
  refine ⟨dhcpOptions options, decodes, fun other second => second.unique decodes, ?_⟩
  have inside : before.length + options.length ≤ (before ++ (options ++ after)).length := by
    simp only [List.length_append]
    omega
  rw [dhcpParseOptions_eq lease inside, slice_middle rfl rfl]
  rfl

/-! ## Replies that are neither an OFFER nor an ACK -/

theorem dhcpProcessPacket_heard {net : Net} {frame : List UInt8} {base length : Nat} {dstIp : UInt32} {m : DhcpMessage}
    (inside : base + length ≤ frame.length) (found : bootpReply frame dstIp base length = some m)
    (active : net.dhcp.active) (ours : m.xid = net.dhcp.xid) (us : m.chaddr = net.mac) :
    dhcpProcessPacket net frame base length = some { net with dhcp := net.dhcp.hear m } ∧
      m.options = dhcpOptions (slice frame (base + 240) (length - 240)) := by
  obtain ⟨long, found⟩ := passed found
  obtain ⟨op, readOp, found⟩ := Option.bind_eq_some_iff.mp found
  obtain ⟨htype, readHtype, found⟩ := Option.bind_eq_some_iff.mp found
  obtain ⟨hlen, readHlen, found⟩ := Option.bind_eq_some_iff.mp found
  obtain ⟨reply, found⟩ := passed found
  obtain ⟨xid, readXid, found⟩ := Option.bind_eq_some_iff.mp found
  obtain ⟨chaddr, readChaddr, found⟩ := Option.bind_eq_some_iff.mp found
  obtain ⟨cookie, readCookie, found⟩ := Option.bind_eq_some_iff.mp found
  obtain ⟨magic, found⟩ := passed found
  obtain ⟨yiaddr, readYiaddr, found⟩ := Option.bind_eq_some_iff.mp found
  have message := Option.some.inj found
  have options : m.options = dhcpOptions (slice frame (base + 240) (length - 240)) := by rw [← message]
  refine ⟨?_, options⟩
  subst message
  have awaits : ¬(¬net.dhcp.active ∨ length < 240) := not_or.mpr ⟨not_not.mpr active, long⟩
  have rest : base + 240 + (length - 240) ≤ frame.length := by omega
  simp only [dhcpProcessPacket, if_neg awaits, readOp, readHtype, readHlen, if_neg reply, readXid,
    if_neg (not_not.mpr ours), readChaddr, if_neg (not_not.mpr us), readCookie, if_neg magic, readYiaddr,
    Option.bind_eq_bind, Option.bind_some]
  rw [dhcpParseOptions_eq net.dhcp rest]
  generalize dhcpOptions (slice frame (base + 240) (length - 240)) = decoded
  exact hear_eq net ⟨dstIp, xid, chaddr, yiaddr, decoded⟩

/-- The addresses among the options are absent or those of the lease. -/
structure Repeats (lease : DhcpLease) (options : List DhcpOption) : Prop where
  server : lastOption (addressOption dhcpOptionServerId) options ∈ [none, some lease.serverIp]
  mask : lastOption (addressOption dhcpOptionSubnetMask) options ∈ [none, some lease.subnetMask]
  router : lastOption routerOption options ∈ [none, some lease.router]

theorem getD_eq_self_iff {α : Type} {x : Option α} {a : α} : x.getD a = a ↔ x ∈ [none, some a] := by
  cases x with
  | none => simp
  | some b => simp [eq_comm]

theorem learn_eq_self_iff (lease : DhcpLease) (options : List DhcpOption) :
    lease.learn options = lease ↔ Repeats lease options := by
  constructor
  · intro same
    have server := congrArg DhcpLease.serverIp same
    have mask := congrArg DhcpLease.subnetMask same
    have router := congrArg DhcpLease.router same
    exact ⟨getD_eq_self_iff.mp server, getD_eq_self_iff.mp mask, getD_eq_self_iff.mp router⟩
  · intro repeats
    rw [DhcpLease.learn, getD_eq_self_iff.mpr repeats.server, getD_eq_self_iff.mpr repeats.mask,
      getD_eq_self_iff.mpr repeats.router]

/-- A payload that is neither an OFFER nor an ACK leaves the lease alone exactly if it is not a reply for us, or its
addresses are those that the lease has. -/
theorem other_reply_keeps_lease_iff (net : Net) (frame : List UInt8) (base length : Nat)
    (inside : base + length ≤ frame.length) (active : net.dhcp.active)
    (other : (lastOption msgTypeOption (dhcpOptions (slice frame (base + 240) (length - 240)))).getD 0 ∉
      [dhcpMsgOffer, dhcpMsgAck]) :
    (∃ after, dhcpProcessPacket net frame base length = some after ∧ after.dhcp = net.dhcp) ↔
      ∀ m, bootpReply frame 0 base length = some m → m.xid = net.dhcp.xid → m.chaddr = net.mac →
        Repeats net.dhcp m.options := by
  have heard {m : DhcpMessage} (options : m.options = dhcpOptions (slice frame (base + 240) (length - 240))) :
      net.dhcp.hear m = net.dhcp.learn m.options := by
    rw [← options] at other
    simp only [List.mem_cons, List.not_mem_nil, or_false, not_or] at other
    rw [DhcpLease.hear, DhcpMessage.msgType, if_neg other.1, if_neg other.2]
  constructor
  · rintro ⟨after, result, same⟩ m found ours us
    obtain ⟨heardIt, options⟩ := dhcpProcessPacket_heard inside found active ours us
    rw [heardIt] at result
    cases result
    rw [← learn_eq_self_iff, ← heard options]
    exact same
  · intro repeats
    obtain ⟨after, result⟩ := Option.isSome_iff_exists.mp (dhcpProcessPacket_isSome net inside)
    refine ⟨after, result, ?_⟩
    rcases dhcpProcessPacket_cases inside 0 result with rfl | ⟨m, found, -, -, ours, us, rfl⟩
    · rfl
    · obtain ⟨-, options⟩ := dhcpProcessPacket_heard inside found active ours us
      exact (heard options).trans ((learn_eq_self_iff _ _).mpr (repeats m found ours us))

/-- A reply to transaction 0 for a card with the address zero. -/
def bootpWith (options : List UInt8) : List UInt8 :=
  [dhcpOpReply, dhcpHtypeEthernet, 6] ++ List.replicate 233 0 ++ be32Store dhcpMagicCookie ++ options

def acquiring : Net := { dhcp := { active := true } }

theorem other_reply_keeps_lease_iff_bare_nak :
    ∃ after, dhcpProcessPacket acquiring (bootpWith [53, 1, 6, 255]) 0 244 = some after ∧
      after.dhcp = acquiring.dhcp := by
  have decoded : (bootpReply (bootpWith [53, 1, 6, 255]) 0 0 244).map (·.options) = some [(53, [6])] := by
    decide +kernel
  refine (other_reply_keeps_lease_iff acquiring _ 0 244 (by decide +kernel) rfl (by decide +kernel)).mpr ?_
  intro m found _ _
  rw [found] at decoded
  have options : m.options = [(53, [6])] := Option.some.inj decoded
  rw [options]
  exact ⟨by decide, by decide, by decide⟩

-- a NAK of the server 10.0.2.2
theorem nak_overwrites_server :
    ¬∀ (net : Net) (frame : List UInt8) (base length : Nat), base + length ≤ frame.length → net.dhcp.active →
      (lastOption msgTypeOption (dhcpOptions (slice frame (base + 240) (length - 240)))).getD 0 ∉
        [dhcpMsgOffer, dhcpMsgAck] →
      ∃ after, dhcpProcessPacket net frame base length = some after ∧ after.dhcp = net.dhcp := by
  intro keeps
  obtain ⟨after, result, same⟩ := keeps acquiring (bootpWith [53, 1, 6, 54, 4, 10, 0, 2, 2, 255]) 0 250
    (by decide +kernel) rfl (by decide +kernel)
  have changed : (dhcpProcessPacket acquiring (bootpWith [53, 1, 6, 54, 4, 10, 0, 2, 2, 255]) 0 250).map
      (·.dhcp.serverIp) = some 0x0A000202 := by
    decide +kernel
  rw [result] at changed
  have overwritten : after.dhcp.serverIp = 0x0A000202 := Option.some.inj changed
  rw [same] at overwritten
  exact absurd overwritten (by decide)

end Mgcore
