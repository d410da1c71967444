import Mgcore.Lib.EndAround
import Mgcore.Net.Bounds
import Mgcore.Net.Decode

/-!
# The checksum

`checksum16` is the complement of the sum of the words modulo 65535, so a string sums to zero once its own checksum
stands in it, and no longer does when one word changes to one that is not congruent. The headers of `ip_send_udp` and
`ip_send_icmp_echo` and the message of the latter are such strings.
-/

namespace Mgcore

open Lib

/-! ## The sum -/

theorem word_toNat (high low : UInt8) :
    ((high.toUInt32 <<< 8) ||| low.toUInt32).toNat = high.toNat * 2 ^ 8 + low.toNat := by
  have bound := high.toNat_lt
  have fits : high.toNat <<< 8 < 2 ^ 32 := by
    simp only [Nat.shiftLeft_eq]
    omega
  rw [UInt32.toNat_or, UInt32.toNat_shiftLeft, UInt8.toNat_toUInt32, UInt8.toNat_toUInt32]
  change high.toNat <<< 8 % 2 ^ 32 ||| low.toNat = _
  rw [Nat.mod_eq_of_lt fits, ← Nat.shiftLeft_add_eq_or_of_lt low.toNat_lt, Nat.shiftLeft_eq]

theorem sumWords_eq {bytes : List UInt8} {i n : Nat} {sum : UInt32} (inside : i + 2 * n ≤ bytes.length)
    (room : sum.toNat + 65535 * n < 2 ^ 32) :
    ∃ total, sumWords bytes i sum n = some total ∧ total.toNat = sum.toNat + wordSum (slice bytes i (2 * n)) ∧
      total.toNat ≤ sum.toNat + 65535 * n := by
  -- the accumulator does not wrap while there is room for all words that are left
  induction n generalizing i sum with
  | zero => exact ⟨sum, rfl, rfl, Nat.le_refl _⟩
  | succ n ih =>
      obtain ⟨high, readHigh⟩ : ∃ high, bytes[i]? = some high := Option.isSome_iff_exists.mp (byte_isSome (by omega))
      obtain ⟨low, readLow⟩ : ∃ low, bytes[i + 1]? = some low := Option.isSome_iff_exists.mp (byte_isSome (by omega))
      have words : slice bytes i (2 * (n + 1)) = high :: low :: slice bytes (i + 2) (2 * n) := by
        have first := @slice_cons bytes i (2 * n + 2) 0 high readHigh (by omega)
        have second := @slice_cons bytes i (2 * n + 2) 1 low readLow (by omega)
        exact first.trans (congrArg _ second)
      have highBound := high.toNat_lt
      have lowBound := low.toNat_lt
      have word := word_toNat high low
      have added : (sum + ((high.toUInt32 <<< 8) ||| low.toUInt32)).toNat =
          sum.toNat + (high.toNat * 2 ^ 8 + low.toNat) := by
        rw [UInt32.toNat_add, word, Nat.mod_eq_of_lt (by omega)]
      have rest : i + 2 + 2 * n ≤ bytes.length := by omega
      obtain ⟨total, result, exact, bound⟩ := @ih (i + 2) (sum + ((high.toUInt32 <<< 8) ||| low.toUInt32)) rest
        (by omega)
      refine ⟨total, ?_, ?_, by omega⟩
      · rw [sumWords, readHigh, readLow]
        exact result
      · rw [exact, added, words, wordSum]
        omega

theorem foldCarry_sameSum {fuel : Nat} {sum folded : UInt32} (result : foldCarry fuel sum = some folded) :
    folded.toNat ≤ 65535 ∧ SameSum 65535 folded.toNat sum.toNat := by
  induction fuel generalizing sum with
  | zero => cases result
  | succ fuel ih =>
      rcases Nat.lt_or_ge sum.toNat (2 ^ 16) with small | big
      · rw [foldCarry_done small] at result
        cases result
        exact ⟨Nat.le_of_lt_succ small, .refl ..⟩
      · rw [foldCarry_more big] at result
        obtain ⟨low, same⟩ := ih result
        rw [foldedOnce_toNat] at same
        exact ⟨low, same.trans (carried_sameSum 65535 sum.toNat)⟩

theorem complement_toNat {folded : UInt32} (low : folded.toNat ≤ 65535) :
    folded.toNat + (~~~folded).toUInt16.toNat = 65535 := by
  rw [UInt32.toNat_toUInt16, UInt32.toNat_not]
  change folded.toNat + (4294967296 - 1 - folded.toNat) % 65536 = 65535
  omega

theorem checksum16_eq {bytes : List UInt8} {base length : Nat} (inside : base + length ≤ bytes.length)
    (even : Even length) (short : length ≤ 65534) :
    ∃ checksum folded, checksum16 bytes base length = some checksum ∧ folded + checksum.toNat = 65535 ∧
      SameSum 65535 folded (wordSum (slice bytes base length)) := by
  obtain ⟨n, rfl⟩ := even.two_dvd
  have room : (0 : UInt32).toNat + 65535 * n < 2 ^ 32 := by
    rw [UInt32.toNat_zero]
    omega
  obtain ⟨total, sum, exact, -⟩ := sumWords_eq inside room
  obtain ⟨folded, done⟩ := Option.isSome_iff_exists.mp (foldCarry_isSome total)
  obtain ⟨low, same⟩ := foldCarry_sameSum done
  refine ⟨(~~~folded).toUInt16, folded.toNat, ?_, complement_toNat low, ?_⟩
  · have paired : ¬2 * n % 2 = 1 := by omega
    rw [checksum16, Nat.mul_div_cancel_left n (by decide), sum]
    simp only [if_neg paired, Option.bind_eq_bind, Option.bind_some, done]
  · rw [exact, UInt32.toNat_zero, Nat.zero_add] at same
    exact same

theorem checksum16_eq_zero_iff {bytes : List UInt8} {base length : Nat} (inside : base + length ≤ bytes.length)
    (even : Even length) (short : length ≤ 65534) :
    checksum16 bytes base length = some 0 ↔
      wordSum (slice bytes base length) ≠ 0 ∧ 65535 ∣ wordSum (slice bytes base length) := by
  obtain ⟨checksum, folded, result, sum, same⟩ := checksum16_eq inside even short
  rw [result, ← same.full_iff (by omega) (by decide), Option.some_inj, ← UInt16.toNat_inj, UInt16.toNat_zero]
  omega

/-! ## A word in its place -/

def withWord (before after : List UInt8) (word : UInt16) : List UInt8 := before ++ (be16Store word ++ after)

section
variable {before after : List UInt8} (aligned : Even before.length) (even : Even after.length)

@[simp] theorem withWord_length (before after : List UInt8) (word : UInt16) :
    (withWord before after word).length = before.length + (2 + after.length) := by
  rw [withWord, List.length_append, List.length_append, be16Store_length]

theorem withWord_whole (before after : List UInt8) (word : UInt16) :
    slice (withWord before after word) 0 (before.length + (2 + after.length)) = withWord before after word := by
  rw [slice, List.drop_zero, ← withWord_length before after word, List.take_length]

include aligned in
theorem wordSum_withWord (word : UInt16) :
    wordSum (withWord before after word) = wordSum before + wordSum after + word.toNat := by
  rw [withWord, wordSum_append aligned, wordSum_be16Store]
  omega

include aligned even

theorem checksum16_stored {checksum : UInt16} {bytes : List UInt8} {base length : Nat}
    (size : before.length + (2 + after.length) = length) (short : length ≤ 65534)
    (computed : checksum16 (withWord before after 0) 0 length = some checksum)
    (inside : base + length ≤ bytes.length) (stored : slice bytes base length = withWord before after checksum) :
    checksum16 bytes base length = some 0 := by
  have evenLength : Even length := by
    rw [← size]
    exact aligned.add (even_two.add even)
  have whole : 0 + length ≤ (withWord before after 0).length := by
    rw [withWord_length]
    omega
  obtain ⟨found, folded, result, sum, same⟩ := checksum16_eq whole evenLength short
  rw [result] at computed
  obtain rfl := Option.some.inj computed
  have zeroed : wordSum (slice (withWord before after 0) 0 length) = wordSum before + wordSum after := by
    rw [← size, withWord_whole, wordSum_withWord aligned]
    rfl
  rw [zeroed] at same
  rw [checksum16_eq_zero_iff inside evenLength short, stored, wordSum_withWord aligned]
  exact same.complement sum (by decide)

end

def checksumOf (bytes : List UInt8) : Option UInt16 := checksum16 bytes 0 bytes.length

theorem stored_verifies {before after : List UInt8} (aligned : Even before.length) (even : Even after.length)
    (short : (withWord before after 0).length ≤ 65534) :
    ∃ checksum, checksumOf (withWord before after 0) = some checksum ∧
      checksumOf (withWord before after checksum) = some 0 := by
  rw [withWord_length] at short
  simp only [checksumOf, withWord_length]
  have inside (word : UInt16) : 0 + (before.length + (2 + after.length)) ≤ (withWord before after word).length := by
    rw [withWord_length, Nat.zero_add]
  obtain ⟨checksum, computed⟩ := Option.isSome_iff_exists.mp (checksum16_isSome (inside 0))
  exact ⟨checksum, computed, checksum16_stored aligned even rfl short computed (inside checksum) (withWord_whole ..)⟩

theorem replaced_fails {before after : List UInt8} {old new : UInt16} (aligned : Even before.length)
    (even : Even after.length) (short : (withWord before after old).length ≤ 65534)
    (verifies : checksumOf (withWord before after old) = some 0) (other : ¬new.toNat ≡ old.toNat [MOD 65535]) :
    ∃ checksum, checksumOf (withWord before after new) = some checksum ∧ checksum ≠ 0 := by
  rw [withWord_length] at short
  simp only [checksumOf, withWord_length] at verifies ⊢
  have inside (word : UInt16) : 0 + (before.length + (2 + after.length)) ≤ (withWord before after word).length := by
    rw [withWord_length, Nat.zero_add]
  have evenLength : Even (before.length + (2 + after.length)) := aligned.add (even_two.add even)
  obtain ⟨checksum, computed⟩ := Option.isSome_iff_exists.mp (checksum16_isSome (inside new))
  refine ⟨checksum, computed, ?_⟩
  rintro rfl
  rw [checksum16_eq_zero_iff (inside _) evenLength short, withWord_whole, wordSum_withWord aligned] at verifies computed
  have sums : wordSum before + wordSum after + new.toNat ≡ wordSum before + wordSum after + old.toNat [MOD 65535] :=
    (Nat.modEq_zero_iff_dvd.mpr computed.2).trans (Nat.modEq_zero_iff_dvd.mpr verifies.2).symm
  exact other (Nat.ModEq.add_left_cancel' _ sums)

/-! ## Frames -/

/-- What `net_process_ipv4` compares with zero. -/
def headerChecksum (frame : List UInt8) : Option UInt16 := do
  let first ← frame[14]?
  checksum16 frame 14 (headerLength first)

/-- What `net_process_icmp` compares with zero. -/
def icmpChecksum (frame : List UInt8) : Option UInt16 := do
  let first ← frame[14]?
  let totalLength ← be16Load frame 16
  checksum16 frame (14 + headerLength first) (totalLength.toNat - headerLength first)

/-- What `ip_send_udp` hands to the card. -/
def udpFrame (net : Net) (srcIp dstIp : UInt32) (srcPort dstPort : UInt16) (payload : List UInt8) (dstMac : Mac) :
    Option (List UInt8) := do
  let header := ipHeader (20 + (8 + payload.length)).toUInt16 net.uptimeTicks.toUInt16 ipProtoUdp
  let checksum ← checksum16 (header 0 srcIp dstIp) 0 20
  some (dstMac.toList ++ net.mac.toList ++ be16Store ethTypeIpv4 ++ header checksum srcIp dstIp ++
    be16Store srcPort ++ be16Store dstPort ++ be16Store (8 + payload.length).toUInt16 ++ be16Store 0 ++ payload)

theorem ipSendUdp_eq (net : Net) (srcIp dstIp : UInt32) (srcPort dstPort : UInt16) {payload : List UInt8}
    (dstMac : Mac) (fits : payload.length ≤ 548) :
    ipSendUdp net srcIp dstIp srcPort dstPort payload dstMac =
      (udpFrame net srcIp dstIp srcPort dstPort payload dstMac).map (rtlSendRawFrame net) := by
  simp only [ipSendUdp, if_neg (Nat.not_lt.mpr fits), udpFrame, Option.bind_eq_bind, Option.map_bind]
  rfl

section
variable {link rest : List UInt8} {totalLength ident checksum : UInt16} {protocol : UInt8} {src dst : UInt32}

theorem checksum16_ipHeader (fourteen : link.length = 14)
    (computed : checksum16 (ipHeader totalLength ident protocol 0 src dst) 0 20 = some checksum) :
    checksum16 (link ++ (ipHeader totalLength ident protocol checksum src dst ++ rest)) 14 20 = some 0 := by
  let before := [0x45, 0] ++ be16Store totalLength ++ be16Store ident ++ be16Store 0 ++ [64, protocol]
  let after := be32Store src ++ be32Store dst
  have aligned : Even before.length := ⟨5, rfl⟩
  have even : Even after.length := ⟨4, rfl⟩
  have size : before.length + (2 + after.length) = 20 := rfl
  have inside : 14 + 20 ≤ (link ++ (ipHeader totalLength ident protocol checksum src dst ++ rest)).length := by
    simp only [List.length_append, fourteen, ipHeader_length]
    omega
  exact checksum16_stored aligned even size (by decide) computed inside (slice_middle fourteen (ipHeader_length ..))

theorem ipHeader_first (fourteen : link.length = 14) :
    (link ++ (ipHeader totalLength ident protocol checksum src dst ++ rest))[14]? = some 0x45 := by
  rw [List.getElem?_append_right (Nat.le_of_eq fourteen), fourteen]
  rfl

theorem headerChecksum_ipHeader (fourteen : link.length = 14)
    (computed : checksum16 (ipHeader totalLength ident protocol 0 src dst) 0 20 = some checksum) :
    headerChecksum (link ++ (ipHeader totalLength ident protocol checksum src dst ++ rest)) = some 0 := by
  rw [headerChecksum, ipHeader_first fourteen]
  exact checksum16_ipHeader fourteen computed

theorem icmpChecksum_icmpEcho {identifier sequence echoChecksum : UInt16} (fourteen : link.length = 14)
    (computed : checksum16 (icmpEcho identifier sequence 0) 0 32 = some echoChecksum) :
    icmpChecksum (link ++ (ipHeader (20 + 32) ident protocol checksum src dst ++
      icmpEcho identifier sequence echoChecksum)) = some 0 := by
  let header := ipHeader (20 + 32) ident protocol checksum src dst
  let before : List UInt8 := [8, 0]
  let after := be16Store identifier ++ be16Store sequence ++ (List.range' 8 24).map Nat.toUInt8
  have aligned : Even before.length := ⟨1, rfl⟩
  have even : Even after.length := ⟨14, rfl⟩
  have total : be16Load (link ++ (header ++ icmpEcho identifier sequence echoChecksum)) 16 = some (20 + 32) := by
    rw [be16Load_past (by omega), fourteen]
    rfl
  have size : before.length + (2 + after.length) = 32 := rfl
  have skipped : (link ++ header).length = 34 := by
    rw [List.length_append, fourteen, ipHeader_length]
  have inside : 34 + 32 ≤ (link ++ (header ++ icmpEcho identifier sequence echoChecksum)).length := by
    rw [← List.append_assoc, List.length_append, skipped]
    exact Nat.le_refl 66
  have stored : slice (link ++ (header ++ icmpEcho identifier sequence echoChecksum)) 34 32 =
      withWord before after echoChecksum := by
    rw [← List.append_assoc, ← List.append_nil (icmpEcho ..)]
    exact slice_middle skipped rfl
  rw [icmpChecksum, ipHeader_first fourteen, total]
  exact checksum16_stored aligned even size (by decide) computed inside stored

end

theorem link_length (dst src : Mac) (ethType : UInt16) :
    (dst.toList ++ (src.toList ++ be16Store ethType)).length = 14 := by
  simp only [List.length_append, List.Vector.toList_length, be16Store_length]

theorem icmpEchoFrame_verifies (net : Net) (targetIp : UInt32) (dstMac : Mac) (identifier sequence : UInt16) :
    ∃ frame, icmpEchoFrame net targetIp dstMac identifier sequence = some frame ∧ headerChecksum frame = some 0 ∧
      icmpChecksum frame = some 0 := by
  have headerInside : 0 + 20 ≤ (ipHeader (20 + 32) sequence ipProtoIcmp 0 net.ipAddr targetIp).length := Nat.le_refl 20
  have echoInside : 0 + 32 ≤ (icmpEcho identifier sequence 0).length := Nat.le_refl 32
  obtain ⟨checksum, computed⟩ := Option.isSome_iff_exists.mp (checksum16_isSome headerInside)
  obtain ⟨echoChecksum, computedEcho⟩ := Option.isSome_iff_exists.mp (checksum16_isSome echoInside)
  have fourteen := link_length dstMac net.mac ethTypeIpv4
  refine ⟨(dstMac.toList ++ (net.mac.toList ++ be16Store ethTypeIpv4)) ++
    (ipHeader (20 + 32) sequence ipProtoIcmp checksum net.ipAddr targetIp ++
      icmpEcho identifier sequence echoChecksum), ?_, headerChecksum_ipHeader fourteen computed,
    icmpChecksum_icmpEcho fourteen computedEcho⟩
  simp only [icmpEchoFrame, computed, computedEcho, Option.bind_eq_bind, Option.bind_some, List.append_assoc]

theorem udpFrame_eq (net : Net) (srcIp dstIp : UInt32) (srcPort dstPort : UInt16) (payload : List UInt8)
    (dstMac : Mac) :
    ∃ checksum, checksum16 (ipHeader (20 + (8 + payload.length)).toUInt16 net.uptimeTicks.toUInt16 ipProtoUdp 0 srcIp dstIp)
        0 20 = some checksum ∧
      udpFrame net srcIp dstIp srcPort dstPort payload dstMac =
        some ((dstMac.toList ++ (net.mac.toList ++ be16Store ethTypeIpv4)) ++
          (ipHeader (20 + (8 + payload.length)).toUInt16 net.uptimeTicks.toUInt16 ipProtoUdp checksum srcIp dstIp ++
            (be16Store srcPort ++ (be16Store dstPort ++ (be16Store (8 + payload.length).toUInt16 ++
              (be16Store 0 ++ payload)))))) := by
  have inside : 0 + 20 ≤ (ipHeader (20 + (8 + payload.length)).toUInt16 net.uptimeTicks.toUInt16 ipProtoUdp 0 srcIp
      dstIp).length := Nat.le_refl 20
  obtain ⟨checksum, computed⟩ := Option.isSome_iff_exists.mp (checksum16_isSome inside)
  refine ⟨checksum, computed, ?_⟩
  simp only [udpFrame, computed, Option.bind_eq_bind, Option.bind_some, List.append_assoc]

/-- A stored checksum verifies, sums do not overflow and folding ends, a word that is not congruent to the one it replaces
is noticed; and so the receivers' tests hold on every frame of `ip_send_icmp_echo` and `ip_send_udp`. -/
theorem checksums_agree :
    (∀ before after : List UInt8, Even before.length → Even after.length → (withWord before after 0).length ≤ 65534 →
      ∃ checksum, checksumOf (withWord before after 0) = some checksum ∧
        checksumOf (withWord before after checksum) = some 0) ∧
    (∀ (bytes : List UInt8) (n : Nat), bytes.length ≤ 65534 → 2 * n ≤ bytes.length →
      ∃ sum, sumWords bytes 0 0 n = some sum ∧ sum.toNat = wordSum (bytes.take (2 * n))) ∧
    (∀ sum : UInt32, ∃ folded, foldCarry 3 sum = some folded ∧ folded >>> 16 = 0) ∧
    (∀ (before after : List UInt8) (old new : UInt16), Even before.length → Even after.length →
      (withWord before after old).length ≤ 65534 → checksumOf (withWord before after old) = some 0 →
      ¬new.toNat ≡ old.toNat [MOD 65535] →
      ∃ checksum, checksumOf (withWord before after new) = some checksum ∧ checksum ≠ 0) ∧
    (∀ (net : Net) (targetIp : UInt32) (dstMac : Mac) (identifier sequence : UInt16),
      ∃ frame, icmpEchoFrame net targetIp dstMac identifier sequence = some frame ∧
        ipSendIcmpEcho net targetIp dstMac identifier sequence = some (rtlSendRawFrame net frame) ∧
        headerChecksum frame = some 0 ∧ icmpChecksum frame = some 0) ∧
    (∀ (net : Net) (srcIp dstIp : UInt32) (srcPort dstPort : UInt16) (payload : List UInt8) (dstMac : Mac),
      payload.length ≤ 548 → ∃ frame, udpFrame net srcIp dstIp srcPort dstPort payload dstMac = some frame ∧
        ipSendUdp net srcIp dstIp srcPort dstPort payload dstMac = some (rtlSendRawFrame net frame) ∧
        headerChecksum frame = some 0) := by
  refine ⟨fun _ _ => stored_verifies, ?_, ?_, fun _ _ _ _ => replaced_fails, ?_, ?_⟩
  · intro bytes n short inside
    have room : (0 : UInt32).toNat + 65535 * n < 2 ^ 32 := by
      rw [UInt32.toNat_zero]
      omega
    rw [← Nat.zero_add (2 * n)] at inside
    obtain ⟨sum, result, exact, -⟩ := sumWords_eq inside room
    rw [UInt32.toNat_zero, Nat.zero_add] at exact
    exact ⟨sum, result, exact⟩
  · intro sum
    obtain ⟨folded, result⟩ := Option.isSome_iff_exists.mp (foldCarry_isSome sum)
    have low := (foldCarry_sameSum result).1
    exact ⟨folded, result, (shiftRight_eq_zero_iff folded).mpr (Nat.lt_succ_of_le low)⟩
  · intro net targetIp dstMac identifier sequence
    obtain ⟨frame, built, verifies⟩ := icmpEchoFrame_verifies net targetIp dstMac identifier sequence
    refine ⟨frame, built, ?_, verifies⟩
    rw [ipSendIcmpEcho, built]
    rfl
  · intro net srcIp dstIp srcPort dstPort payload dstMac fits
    obtain ⟨checksum, computed, built⟩ := udpFrame_eq net srcIp dstIp srcPort dstPort payload dstMac
    refine ⟨_, built, ?_, headerChecksum_ipHeader (link_length ..) computed⟩
    rw [ipSendUdp_eq net srcIp dstIp srcPort dstPort dstMac fits, built, Option.map_some]

-- zero words only: the sum is zero, its checksum is not
theorem checksums_agree_zero_word :
    checksumOf (withWord [] [] 0) = some 0xFFFF ∧ checksumOf (withWord [] [] 0xFFFF) = some 0 := by
  obtain ⟨checksum, computed, verifies⟩ := checksums_agree.1 [] [] (by decide) (by decide) (by decide)
  have full : checksumOf (withWord [] [] 0) = some 0xFFFF := by decide +kernel
  rw [full] at computed
  obtain rfl := Option.some.inj computed
  exact ⟨full, verifies⟩

end Mgcore
