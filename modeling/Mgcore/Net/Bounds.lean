import Mgcore.Net.Model

/-!
# Frames are read inside their bounds

Each handler gets a slice `base + length ≤ frame.length` and hands a shorter one down. Given that, its reads
succeed and its loops end before their fuel does.
-/

namespace Mgcore

open Lib

theorem loadMac_isSome {bytes : List UInt8} {i : Nat} (h : i + 6 ≤ bytes.length) : (loadMac bytes i).isSome := by
  apply bind_isSome (byte_isSome (by omega))
  intro b0 _
  apply bind_isSome (byte_isSome (by omega))
  intro b1 _
  apply bind_isSome (byte_isSome (by omega))
  intro b2 _
  apply bind_isSome (byte_isSome (by omega))
  intro b3 _
  apply bind_isSome (byte_isSome (by omega))
  intro b4 _
  apply bind_isSome (byte_isSome (by omega))
  intro b5 _
  rfl

/-! ## The checksum -/

theorem sumWords_isSome {bytes : List UInt8} {i n : Nat} (sum : UInt32) (h : i + 2 * n ≤ bytes.length) :
    (sumWords bytes i sum n).isSome := by
  induction n generalizing i sum with
  | zero => rfl
  | succ n ih =>
      apply bind_isSome (byte_isSome (by omega))
      intro high _
      apply bind_isSome (byte_isSome (by omega))
      intro low _
      exact ih _ (by omega)

theorem foldedOnce_toNat (sum : UInt32) :
    ((sum &&& (0xFFFF : UInt32)) + (sum >>> 16)).toNat = sum.toNat % 2 ^ 16 + sum.toNat / 2 ^ 16 := by
  have bound := sum.toNat_lt
  have low : (sum &&& (0xFFFF : UInt32)).toNat = sum.toNat % 2 ^ 16 := by
    rw [UInt32.toNat_and]
    exact Nat.and_two_pow_sub_one_eq_mod _ 16
  have high : (sum >>> 16).toNat = sum.toNat / 2 ^ 16 := by
    rw [UInt32.toNat_shiftRight]
    exact Nat.shiftRight_eq_div_pow _ 16
  rw [UInt32.toNat_add, low, high]
  omega

theorem shiftRight_eq_zero_iff (sum : UInt32) : sum >>> 16 = 0 ↔ sum.toNat < 2 ^ 16 := by
  rw [← UInt32.toNat_inj, UInt32.toNat_shiftRight]
  change sum.toNat >>> 16 = 0 ↔ _
  rw [Nat.shiftRight_eq_div_pow]
  omega

theorem foldCarry_done {fuel : Nat} {sum : UInt32} (small : sum.toNat < 2 ^ 16) :
    foldCarry (fuel + 1) sum = some sum := by
  rw [foldCarry, if_neg (not_not.mpr ((shiftRight_eq_zero_iff sum).mpr small))]

theorem foldCarry_more {fuel : Nat} {sum : UInt32} (big : 2 ^ 16 ≤ sum.toNat) :
    foldCarry (fuel + 1) sum = foldCarry fuel ((sum &&& (0xFFFF : UInt32)) + (sum >>> 16)) := by
  have carry : sum >>> 16 ≠ 0 := fun none => by
    have := (shiftRight_eq_zero_iff sum).mp none
    omega
  rw [foldCarry, if_pos carry]

theorem foldCarry_isSome (sum : UInt32) : (foldCarry 3 sum).isSome := by
  -- The first pass leaves at most `0x1FFFE`, the second at most `0xFFFF`.
  have bound := sum.toNat_lt
  rcases Nat.lt_or_ge sum.toNat (2 ^ 16) with small | big
  · rw [foldCarry_done small]
    rfl
  · rw [foldCarry_more big]
    have once := foldedOnce_toNat sum
    generalize (sum &&& (0xFFFF : UInt32)) + (sum >>> 16) = rest at once
    rcases Nat.lt_or_ge rest.toNat (2 ^ 16) with small' | big'
    · rw [foldCarry_done small']
      rfl
    · rw [foldCarry_more big', foldCarry_done (by rw [foldedOnce_toNat]; omega)]
      rfl

theorem checksum16_isSome {bytes : List UInt8} {base length : Nat} (inside : base + length ≤ bytes.length) :
    (checksum16 bytes base length).isSome := by
  apply bind_isSome (sumWords_isSome 0 (by omega))
  intro words _
  apply bind_isSome
  · apply ite_isSome
    · intro odd
      apply bind_isSome (byte_isSome (by omega))
      intro last _
      rfl
    · intro _
      rfl
  intro sum _
  apply bind_isSome (foldCarry_isSome sum)
  intro folded _
  rfl

/-! ## ARP -/

theorem netProcessArp_isSome (net : Net) {frame : List UInt8} {base length : Nat}
    (inside : base + length ≤ frame.length) : (netProcessArp net frame base length).isSome := by
  apply ite_isSome (fun _ => rfl)
  intro long
  apply bind_isSome (be16Load_isSome (by omega))
  intro htype _
  apply bind_isSome (be16Load_isSome (by omega))
  intro ptype _
  apply bind_isSome (be16Load_isSome (by omega))
  intro oper _
  apply bind_isSome (byte_isSome (by omega))
  intro hlen _
  apply bind_isSome (byte_isSome (by omega))
  intro plen _
  apply ite_isSome (fun _ => rfl)
  intro _
  apply bind_isSome (loadMac_isSome (by omega))
  intro sha _
  apply bind_isSome (be32Load_isSome (by omega))
  intro sip _
  apply bind_isSome (be32Load_isSome (by omega))
  intro tip _
  exact ite_isSome (fun _ => rfl) (fun _ => rfl)

/-! ## DHCP -/

theorem dhcpOption_isSome {frame : List UInt8} {i : Nat} {code optLen : UInt8} (lease : DhcpLease) (msgType : UInt8)
    (inside : i + optLen.toNat ≤ frame.length) : (dhcpOption frame i code optLen lease msgType).isSome := by
  apply ite_isSome
  · rintro ⟨_, rfl⟩
    apply bind_isSome (byte_isSome inside)
    intro value _
    rfl
  intro _
  apply ite_isSome
  · rintro ⟨_, rfl⟩
    apply bind_isSome (be32Load_isSome inside)
    intro value _
    rfl
  intro _
  apply ite_isSome
  · rintro ⟨_, rfl⟩
    apply bind_isSome (be32Load_isSome inside)
    intro value _
    rfl
  intro _
  apply ite_isSome
  · rintro ⟨_, enough⟩
    have four : 4 ≤ optLen.toNat := UInt8.le_iff_toNat_le.mp enough
    apply bind_isSome (be32Load_isSome (by omega))
    intro value _
    rfl
  · intro _
    rfl

theorem dhcpOptionLoop_isSome {frame : List UInt8} {base length : Nat} (inside : base + length ≤ frame.length)
    {fuel i : Nat} (lease : DhcpLease) (msgType : UInt8) (within : i ≤ length)
    (enough : length < fuel + i) :
    (dhcpOptionLoop frame base length fuel i lease msgType).isSome := by
  -- The index grows with each round, so the fuel lasts as long as it exceeds the bytes that are left.
  induction fuel generalizing i lease msgType with
  | zero => omega
  | succ fuel ih =>
      apply ite_isSome
      · intro more
        apply bind_isSome (byte_isSome (by omega))
        intro code _
        apply ite_isSome (fun _ => rfl)
        intro _
        apply ite_isSome
        · intro _
          exact ih lease msgType (by omega) (by omega)
        intro _
        apply ite_isSome (fun _ => rfl)
        intro _
        apply bind_isSome (byte_isSome (by omega))
        intro optLen _
        apply ite_isSome (fun _ => rfl)
        intro fits
        apply bind_isSome (dhcpOption_isSome lease msgType (by omega))
        intro found _
        exact ih found.1 found.2 (by omega) (by omega)
      · intro _
        rfl

theorem dhcpParseOptions_isSome (lease : DhcpLease) {frame : List UInt8} {base length : Nat}
    (inside : base + length ≤ frame.length) : (dhcpParseOptions lease frame base length).isSome :=
  dhcpOptionLoop_isSome inside lease 0 (Nat.zero_le length) (by omega)

theorem dhcpProcessPacket_isSome (net : Net) {frame : List UInt8} {base length : Nat}
    (inside : base + length ≤ frame.length) : (dhcpProcessPacket net frame base length).isSome := by
  apply ite_isSome (fun _ => rfl)
  intro open_
  have long : 240 ≤ length := by omega
  apply bind_isSome (byte_isSome (by omega))
  intro op _
  apply bind_isSome (byte_isSome (by omega))
  intro htype _
  apply bind_isSome (byte_isSome (by omega))
  intro hlen _
  apply ite_isSome (fun _ => rfl)
  intro _
  apply bind_isSome (be32Load_isSome (by omega))
  intro xid _
  apply ite_isSome (fun _ => rfl)
  intro _
  apply bind_isSome (loadMac_isSome (by omega))
  intro chaddr _
  apply ite_isSome (fun _ => rfl)
  intro _
  apply bind_isSome (be32Load_isSome (by omega))
  intro cookie _
  apply ite_isSome (fun _ => rfl)
  intro _
  apply bind_isSome (be32Load_isSome (by omega))
  intro yiaddr _
  apply bind_isSome (dhcpParseOptions_isSome net.dhcp (by omega))
  intro parsed _
  exact ite_isSome (fun _ => rfl) (fun _ => ite_isSome (fun _ => rfl) (fun _ => rfl))

/-! ## IPv4 -/

theorem netProcessIcmp_isSome (net : Net) {frame : List UInt8} {ip ipLength : Nat}
    (header : 20 ≤ ipLength) (inside : ip + ipLength ≤ frame.length) :
    (netProcessIcmp net frame ip ipLength).isSome := by
  apply bind_isSome (byte_isSome (by omega))
  intro first _
  apply ite_isSome (fun _ => rfl)
  intro long
  apply bind_isSome (checksum16_isSome (by omega))
  intro checksum _
  apply ite_isSome (fun _ => rfl)
  intro _
  apply bind_isSome (byte_isSome (by omega))
  intro type _
  apply bind_isSome (be16Load_isSome (by omega))
  intro ident _
  apply bind_isSome (be16Load_isSome (by omega))
  intro seq _
  apply ite_isSome
  · intro _
    apply bind_isSome (byte_isSome (by omega))
    intro ttl _
    rfl
  · intro _
    rfl

theorem netProcessUdp_isSome (net : Net) {frame : List UInt8} {ip ipLength : Nat}
    (header : 20 ≤ ipLength) (inside : ip + ipLength ≤ frame.length) :
    (netProcessUdp net frame ip ipLength).isSome := by
  apply bind_isSome (byte_isSome (by omega))
  intro first _
  apply ite_isSome (fun _ => rfl)
  intro long
  apply bind_isSome (be16Load_isSome (by omega))
  intro udpLen _
  apply ite_isSome (fun _ => rfl)
  intro fits
  have eight : 8 ≤ udpLen.toNat := by
    have := fun short => fits (Or.inl (UInt16.lt_iff_toNat_lt.mpr short))
    exact Nat.le_of_not_lt this
  apply bind_isSome (be16Load_isSome (by omega))
  intro srcPort _
  apply bind_isSome (be16Load_isSome (by omega))
  intro dstPort _
  apply ite_isSome
  · intro _
    exact dhcpProcessPacket_isSome net (by omega)
  · intro _
    rfl

theorem netProcessIpv4_isSome (net : Net) {frame : List UInt8} {base length : Nat}
    (inside : base + length ≤ frame.length) : (netProcessIpv4 net frame base length).isSome := by
  apply ite_isSome (fun _ => rfl)
  intro long
  apply bind_isSome (byte_isSome (by omega))
  intro first _
  apply ite_isSome (fun _ => rfl)
  intro header
  apply bind_isSome (be16Load_isSome (by omega))
  intro totalLength _
  apply ite_isSome (fun _ => rfl)
  intro total
  apply bind_isSome (checksum16_isSome (by omega))
  intro checksum _
  apply ite_isSome (fun _ => rfl)
  intro _
  apply bind_isSome (be16Load_isSome (by omega))
  intro flagsFragment _
  apply ite_isSome (fun _ => rfl)
  intro _
  apply bind_isSome (be32Load_isSome (by omega))
  intro dstIp _
  apply bind_isSome (byte_isSome (by omega))
  intro protocol _
  apply ite_isSome (fun _ => rfl)
  intro _
  apply ite_isSome
  · intro _
    exact netProcessIcmp_isSome net (by omega) (by omega)
  intro _
  apply ite_isSome
  · intro _
    exact netProcessUdp_isSome net (by omega) (by omega)
  · intro _
    rfl

theorem netProcessFrame_isSome (net : Net) (frame : List UInt8) :
    (netProcessFrame net frame frame.length).isSome := by
  apply ite_isSome (fun _ => rfl)
  intro long
  apply bind_isSome (be16Load_isSome (by omega))
  intro ethType _
  apply ite_isSome
  · intro _
    exact netProcessArp_isSome net (by omega)
  intro _
  apply ite_isSome
  · intro _
    exact netProcessIpv4_isSome net (by omega)
  · intro _
    rfl

/-- Whatever a frame holds, its handling reads no byte outside it and ends. -/
theorem frame_reads_in_bounds (net : Net) (frame : List UInt8) :
    ∃ after, netProcessFrame net frame frame.length = some after :=
  Option.isSome_iff_exists.mp (netProcessFrame_isSome net frame)

end Mgcore
