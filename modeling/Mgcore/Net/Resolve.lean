import Mgcore.Net.ArpCache
import Mgcore.Net.Effects
import Mgcore.Net.Dhcp

/-!
# Resolving an address

`net_resolve_arp` as a machine with a program point, as `net_dhcp_acquire` is one: a frame or a timer tick may come between
any two of its steps. Whatever it returns was in the cache before or came in an ARP packet from the address; its requests
are half a second apart; and it does not outlive its timeout.
-/

namespace Mgcore

open Lib

/-! ## The machine -/

/-- Where `net_resolve_arp` stands, with its local variables. -/
inductive ResolvePoint
  | entry (start : UInt64)
  | head (start nextProbe : UInt64)
  | probe (start nextProbe : UInt64)
  | test (start nextProbe : UInt64)
  | returned (mac : Option Mac)
  deriving DecidableEq

structure Resolve where
  point : ResolvePoint
  net : Net

/-- The next step of `net_resolve_arp`. `rtl_poll_rx` is the frames that arrive before the second test of the cache. -/
def netResolveArp (targetIp : UInt32) (timeoutTicks : UInt64) (s : Resolve) : Option Resolve :=
  match s.point with
  | .entry start =>
      match arpCacheLookup s.net targetIp with
      | some mac => some { s with point := .returned (some mac) }
      | none => some { s with point := .head start start }
  | .head start nextProbe =>
      if s.net.uptimeTicks - start < timeoutTicks then some { s with point := .probe start nextProbe }
      else some { s with point := .returned none }
  | .probe start nextProbe =>
      let now := s.net.uptimeTicks
      if nextProbe ≤ now then some { point := .test start (now + hz / 2), net := (arpSendRequest s.net targetIp).2 }
      else some { s with point := .test start nextProbe }
  | .test start nextProbe =>
      match arpCacheLookup s.net targetIp with
      | some mac => some { s with point := .returned (some mac) }
      | none => some { s with point := .head start nextProbe }
  | .returned _ => none

def resolveStep (targetIp : UInt32) (timeoutTicks : UInt64) (s : Resolve) (event : AcquireEvent) : Option Resolve :=
  match s.point, event with
  | .returned _, _ => none
  | _, .step => netResolveArp targetIp timeoutTicks s
  | _, .tick => some { s with net := { s.net with uptimeTicks := s.net.uptimeTicks + 1 } }
  | _, .frame bytes => (receiveFrame s.net bytes).map fun net => { s with net := net }

/-! ## What is heard and asked -/

/-- Frames of the cable, each with the tick at which it was there. -/
abbrev Capture := List (UInt64 × Wire)

/-- What a step puts on the cable. -/
def stamped (net after : Net) : Capture := (after.wire.drop net.wire.length).map (Prod.mk net.uptimeTicks)

/-- An ARP packet on the cable says where `ip` is. -/
def Told (log : Capture) (ip : UInt32) (mac : Mac) : Prop :=
  ∃ tick frame p, (tick, .received frame) ∈ log ∧ arpMessage frame = some p ∧ p.sip = ip ∧ p.sha = mac

/-- The frame that `arp_send_request` sends. -/
def arpRequest (net : Net) (targetIp : UInt32) : Wire :=
  .sent (arpFrame broadcastMac net.mac zeroMac arpOperRequest net.ipAddr targetIp ++ List.replicate (60 - 42) 0)

/-- When the cable carried `frame`. -/
def ticksOf (frame : Wire) (log : Capture) : List UInt64 := (log.filter (·.2 = frame)).map Prod.fst

/-- `net` has come out of `first` while the cable carried `log`. -/
structure Later (first net : Net) (log : Capture) : Prop where
  ipAddr : net.ipAddr = first.ipAddr
  mac : net.mac = first.mac
  wire : net.wire = first.wire ++ log.map Prod.snd
  learned : ∀ i ip mac, arpMap net i = some (ip, mac) → (∃ j, arpMap first j = some (ip, mac)) ∨ Told log ip mac

theorem stamped_eq {net after : Net} {next : List Wire} (wire : after.wire = net.wire ++ next) :
    stamped net after = next.map (Prod.mk net.uptimeTicks) := by
  rw [stamped, wire, List.drop_left]

theorem stamped_same {net after : Net} (wire : after.wire = net.wire) : stamped net after = [] := by
  rw [stamped, wire, List.drop_length]
  rfl

@[simp] theorem stamped_clock (net : Net) (ticks : UInt64) : stamped net { net with uptimeTicks := ticks } = [] :=
  stamped_same rfl

theorem stamped_wire {net after : Net} {next : List Wire} (wire : after.wire = net.wire ++ next) :
    (stamped net after).map Prod.snd = next := by
  rw [stamped_eq wire, List.map_map]
  exact List.map_id next

theorem stamped_tick {net after : Net} {tick : UInt64} {frame : Wire} (member : (tick, frame) ∈ stamped net after) :
    tick = net.uptimeTicks := by
  obtain ⟨_, -, same⟩ := List.mem_map.mp member
  exact (Prod.mk.inj same).1.symm

theorem ticksOf_append (frame : Wire) (log next : Capture) : ticksOf frame (log ++ next) = ticksOf frame log ++ ticksOf frame next := by
  rw [ticksOf, List.filter_append, List.map_append]
  rfl

theorem ticksOf_absent {frame : Wire} {next : List Wire} (absent : frame ∉ next) (tick : UInt64) :
    ticksOf frame (next.map (Prod.mk tick)) = [] := by
  rw [ticksOf, List.map_eq_nil_iff, List.filter_eq_nil_iff]
  intro entry member same
  obtain ⟨other, inside, rfl⟩ := List.mem_map.mp member
  exact absent (of_decide_eq_true same ▸ inside)

theorem ticksOf_length (frame : Wire) (log : Capture) : (ticksOf frame log).length ≤ log.length := by
  rw [ticksOf, List.length_map]
  exact List.length_filter_le _ _

theorem Told.append {log : Capture} {ip : UInt32} {mac : Mac} (told : Told log ip mac) (next : Capture) :
    Told (log ++ next) ip mac := by
  obtain ⟨tick, frame, p, member, decoded, same⟩ := told
  exact ⟨tick, frame, p, List.mem_append_left next member, decoded, same⟩

theorem Later.refl (net : Net) : Later net net [] :=
  ⟨rfl, rfl, (List.append_nil _).symm, fun i _ _ entry => Or.inl ⟨i, entry⟩⟩

/-- An entry after an update is the new one or an old one. -/
theorem arpMap_updated {net : Net} {ip ip' : UInt32} {mac mac' : Mac} {i : Fin maxArpCache}
    (entry : arpMap (arpCacheUpdate net ip mac) i = some (ip', mac')) :
    (ip' = ip ∧ mac' = mac) ∨ arpMap net i = some (ip', mac') := by
  rw [arpMap_arpCacheUpdate, SlotMap.put] at entry
  by_cases here : i = ((arpMap net).slotOf ip).getD ((arpMap net).freeSlot.getD 0)
  · rw [here, Function.update_self, Option.some.injEq, Prod.mk.injEq] at entry
    exact Or.inl ⟨entry.1.symm, entry.2.symm⟩
  · rw [Function.update_of_ne here] at entry
    exact Or.inr entry

theorem arpMap_congr {net after : Net} (same : after.arpCache = net.arpCache) : arpMap after = arpMap net := by
  funext i
  rw [arpMap, arpMap, same]

/-- A step that learns nothing. -/
theorem Later.extend {first net after : Net} {log : Capture} {next : List Wire} (later : Later first net log)
    (ipAddr : after.ipAddr = net.ipAddr) (mac : after.mac = net.mac) (wire : after.wire = net.wire ++ next)
    (cache : after.arpCache = net.arpCache) : Later first after (log ++ stamped net after) := by
  refine ⟨ipAddr.trans later.ipAddr, mac.trans later.mac, ?_, fun i ip mac entry => ?_⟩
  · rw [wire, later.wire, List.map_append, stamped_wire wire, List.append_assoc]
  · rw [arpMap_congr cache] at entry
    exact (later.learned i ip mac entry).imp id (Told.append · _)

theorem hearArp_arpMap (net : Net) (p : ArpPacket) : arpMap (net.hearArp p) = arpMap (arpCacheUpdate net p.sip p.sha) := by
  unfold Net.hearArp
  split_ifs
  · rcases rtlSendRawFrame_cases (arpCacheUpdate net p.sip p.sha)
      (arpFrame p.sha (arpCacheUpdate net p.sip p.sha).mac p.sha arpOperReply (arpCacheUpdate net p.sip p.sha).ipAddr p.sip)
      with failed | sent
    · rw [arpSendReply, failed]
    · rw [arpSendReply, sent]
      exact arpMap_congr rfl
  · rfl

theorem Later.receive {first net after : Net} {log : Capture} {bytes : List UInt8} (later : Later first net log)
    (result : receiveFrame net bytes = some after) :
    Later first after (log ++ stamped net after) ∧ ∀ targetIp, ticksOf (arpRequest first targetIp) (stamped net after) = [] := by
  rcases rejected_or result with rfl | ⟨_, result⟩
  · refine ⟨later.extend rfl rfl (List.append_nil _).symm rfl, fun targetIp => ?_⟩
    rw [stamped_same rfl]
    rfl
  have footprint := netProcessFrame_footprint result
  obtain ⟨answer, wire, silent⟩ : ∃ answer, after.wire = net.wire ++ .received bytes :: answer ∧
      ∀ targetIp, arpRequest first targetIp ∉ answer := by
    rcases footprint.wire with same | ⟨p, reply, -, -, -, sent, decoded⟩
    · exact ⟨[], same, fun _ => List.not_mem_nil⟩
    · refine ⟨[.sent reply], by rw [sent, List.append_assoc]; rfl, fun targetIp member => ?_⟩
      have same : reply = _ := (Wire.sent.inj (List.mem_singleton.mp member)).symm
      rw [same, arpMessage_arpFrame] at decoded
      have opers : arpOperRequest = arpOperReply := congrArg ArpPacket.oper (Option.some.inj decoded)
      exact absurd opers (by decide)
  refine ⟨⟨footprint.ipAddr.trans later.ipAddr, footprint.mac.trans later.mac, ?_, ?_⟩, fun targetIp => ?_⟩
  · rw [wire, later.wire, List.map_append, stamped_wire wire, List.append_assoc]
  · intro i ip mac entry
    have old (before : arpMap net i = some (ip, mac)) :
        (∃ j, arpMap first j = some (ip, mac)) ∨ Told (log ++ stamped net after) ip mac :=
      (later.learned i ip mac before).imp id (Told.append · _)
    cases decoded : arpMessage bytes with
    | none =>
        rcases footprint.arpCache with same | ⟨⟨p, packet⟩, -⟩
        · rw [arpMap_congr same] at entry
          exact old entry
        · rw [decoded] at packet
          cases packet
    | some p =>
        rw [netProcessFrame_arp _ decoded] at result
        cases result
        rw [hearArp_arpMap] at entry
        rcases arpMap_updated entry with ⟨rfl, rfl⟩ | before
        · refine Or.inr ⟨net.uptimeTicks, bytes, p, ?_, decoded, rfl, rfl⟩
          rw [stamped_eq wire]
          simp
        · exact old before
  · rw [stamped_eq wire]
    refine ticksOf_absent (fun member => ?_) _
    rcases List.mem_cons.mp member with received | sent
    · cases received
    · exact silent targetIp sent

theorem receiveFrame_kept {net after : Net} {bytes : List UInt8} (result : receiveFrame net bytes = some after) :
    after.uptimeTicks = net.uptimeTicks ∧ after.rtlReady = net.rtlReady := by
  rcases rejected_or result with rfl | ⟨_, result⟩
  · exact ⟨rfl, rfl⟩
  cases netProcessFrame_effect result with
  | ignored => exact ⟨rfl, rfl⟩
  | arp ip mac =>
      obtain ⟨cache, updated, _⟩ := arpCacheUpdate_eq { net with wire := net.wire ++ [.received bytes] } ip mac
      rw [updated]
      exact ⟨rfl, rfl⟩
  | arpReply ip mac =>
      obtain ⟨cache, updated, _⟩ := arpCacheUpdate_eq { net with wire := net.wire ++ [.received bytes] } ip mac
      rw [updated, arpSendReply]
      rcases rtlSendRawFrame_cases { net with wire := net.wire ++ [.received bytes], arpCache := cache }
        (arpFrame mac net.mac mac arpOperReply net.ipAddr ip) with failed | sent
      · rw [failed]
        exact ⟨rfl, rfl⟩
      · rw [sent]
        exact ⟨rfl, rfl⟩
  | echo ttl active => exact ⟨rfl, rfl⟩
  | dhcp m decoded heard => exact ⟨rfl, rfl⟩

theorem Later.request {first net : Net} {log : Capture} (later : Later first net log) (targetIp : UInt32) :
    Later first (arpSendRequest net targetIp).2 (log ++ stamped net (arpSendRequest net targetIp).2) ∧
      (∃ next, (arpSendRequest net targetIp).2.wire = net.wire ++ next ∧ next.length ≤ 1) ∧
      (arpSendRequest net targetIp).2.uptimeTicks = net.uptimeTicks := by
  rw [arpSendRequest]
  rcases rtlSendRawFrame_cases net (arpFrame broadcastMac net.mac zeroMac arpOperRequest net.ipAddr targetIp) with failed | sent
  · rw [failed]
    exact ⟨later.extend rfl rfl (List.append_nil _).symm rfl, ⟨[], (List.append_nil _).symm, Nat.zero_le 1⟩, rfl⟩
  · rw [sent]
    exact ⟨later.extend rfl rfl rfl rfl, ⟨_, rfl, Nat.le_refl 1⟩, rfl⟩

/-! ## The invariant -/

/-- The clock does not wrap before the next probe is due. -/
def ClockFits (s : Resolve) (_ : AcquireEvent) : Prop := s.net.uptimeTicks.toNat + 51 < 2 ^ 64

instance (s : Resolve) (event : AcquireEvent) : Decidable (ClockFits s event) := inferInstanceAs (Decidable (_ < _))

/-- The requests so far are half a second apart, and the next one is not due before half a second. -/
structure Paced (first : Net) (nextProbe : UInt64) (asked : List UInt64) : Prop where
  apart : asked.Pairwise fun early late => early.toNat + 50 ≤ late.toNat
  begun : ∀ tick ∈ asked, first.uptimeTicks ≤ tick
  due : ∀ tick ∈ asked, tick.toNat + 50 ≤ nextProbe.toNat

def PointOk (targetIp : UInt32) (timeoutTicks : UInt64) (first net : Net) (asked : List UInt64) : ResolvePoint → Prop
  | .entry start => start = first.uptimeTicks ∧ asked = []
  | .head start nextProbe | .probe start nextProbe | .test start nextProbe =>
      start = first.uptimeTicks ∧ Paced first nextProbe asked
  | .returned none => timeoutTicks ≤ net.uptimeTicks - first.uptimeTicks ∧ ∃ nextProbe, Paced first nextProbe asked
  | .returned (some mac) => arpCacheLookup net targetIp = some mac ∧ ∃ nextProbe, Paced first nextProbe asked

structure ResolveInv (targetIp : UInt32) (timeoutTicks : UInt64) (first : Net) (s : Resolve) (log : Capture) : Prop where
  later : Later first s.net log
  elapsed : first.uptimeTicks ≤ s.net.uptimeTicks
  point : PointOk targetIp timeoutTicks first s.net (ticksOf (arpRequest first targetIp) log) s.point

section
variable {targetIp : UInt32} {timeoutTicks : UInt64} {first : Net} {s t : Resolve} {log : Capture}

theorem Paced.none (first : Net) (nextProbe : UInt64) : Paced first nextProbe [] :=
  ⟨.nil, List.forall_mem_nil _, List.forall_mem_nil _⟩

/-- A request goes out when it is due. -/
theorem Paced.ask {net : Net} {nextProbe : UInt64} {asked next : List UInt64} (paced : Paced first nextProbe asked)
    (elapsed : first.uptimeTicks ≤ net.uptimeTicks) (due : nextProbe ≤ net.uptimeTicks)
    (fits : net.uptimeTicks.toNat + 51 < 2 ^ 64) (short : next.length ≤ 1) (now : ∀ tick ∈ next, tick = net.uptimeTicks) :
    Paced first (net.uptimeTicks + hz / 2) (asked ++ next) := by
  have half : (net.uptimeTicks + hz / 2).toNat = net.uptimeTicks.toNat + 50 := by
    rw [UInt64.toNat_add]
    exact Nat.mod_eq_of_lt (show net.uptimeTicks.toNat + 50 < 2 ^ 64 by omega)
  have before := UInt64.le_iff_toNat_le.mp due
  have early (tick : UInt64) (member : tick ∈ asked) : tick.toNat + 50 ≤ net.uptimeTicks.toNat :=
    Nat.le_trans (paced.due tick member) before
  refine ⟨List.pairwise_append.mpr ⟨paced.apart, ?_, fun one first two last => ?_⟩, fun tick member => ?_, fun tick member => ?_⟩
  · cases next with
    | nil => exact .nil
    | cons tick rest =>
        cases rest with
        | nil => exact List.pairwise_singleton _ _
        | cons other rest =>
            simp only [List.length_cons] at short
            omega
  · rw [now two last]
    exact early one first
  · rcases List.mem_append.mp member with old | new
    · exact paced.begun tick old
    · rw [now tick new]
      exact elapsed
  · rw [half]
    rcases List.mem_append.mp member with old | new
    · have := early tick old
      omega
    · rw [now tick new]

/-- A step that leaves the driver alone. -/
theorem ResolveInv.still {net : Net} {p here : ResolvePoint} (inv : ResolveInv targetIp timeoutTicks first { point := p, net } log)
    (ok : PointOk targetIp timeoutTicks first net (ticksOf (arpRequest first targetIp) log) here) :
    ResolveInv targetIp timeoutTicks first { point := here, net } (log ++ stamped net net) := by
  rw [stamped_same rfl, List.append_nil]
  exact ⟨inv.later, inv.elapsed, ok⟩

theorem resolveInv_step (inv : ResolveInv targetIp timeoutTicks first s log) (fits : ClockFits s .step)
    (steps : netResolveArp targetIp timeoutTicks s = some t) :
    ResolveInv targetIp timeoutTicks first t (log ++ stamped s.net t.net) := by
  have open' := inv
  obtain ⟨later, elapsed, point⟩ := open'
  obtain ⟨here, net⟩ := s
  unfold ClockFits at fits
  dsimp only at later elapsed point fits
  cases here with
  | entry start =>
      obtain ⟨rfl, none⟩ := point
      have paced := none ▸ Paced.none first first.uptimeTicks
      simp only [netResolveArp] at steps
      cases found : arpCacheLookup net targetIp with
      | some mac =>
          rw [found] at steps
          cases steps
          exact inv.still ⟨found, _, paced⟩
      | none =>
          rw [found] at steps
          cases steps
          exact inv.still ⟨rfl, paced⟩
  | head start nextProbe =>
      obtain ⟨rfl, paced⟩ := point
      simp only [netResolveArp] at steps
      split_ifs at steps with early
      · cases steps
        exact inv.still ⟨rfl, paced⟩
      · cases steps
        exact inv.still ⟨UInt64.not_lt.mp early, _, paced⟩
  | probe start nextProbe =>
      obtain ⟨rfl, paced⟩ := point
      simp only [netResolveArp] at steps
      split_ifs at steps with due
      · cases steps
        obtain ⟨after, ⟨next, wire, short⟩, ticks⟩ := later.request targetIp
        refine ⟨after, by rw [ticks]; exact elapsed, rfl, ?_⟩
        rw [ticksOf_append]
        refine paced.ask elapsed due fits ?_ fun tick member => ?_
        · refine Nat.le_trans (ticksOf_length _ _) ?_
          rw [stamped_eq wire, List.length_map]
          exact short
        · obtain ⟨entry, inside, rfl⟩ := List.mem_map.mp member
          exact stamped_tick (List.mem_of_mem_filter inside)
      · cases steps
        exact inv.still ⟨rfl, paced⟩
  | test start nextProbe =>
      obtain ⟨rfl, paced⟩ := point
      simp only [netResolveArp] at steps
      cases found : arpCacheLookup net targetIp with
      | some mac =>
          rw [found] at steps
          cases steps
          exact inv.still ⟨found, _, paced⟩
      | none =>
          rw [found] at steps
          cases steps
          exact inv.still ⟨rfl, paced⟩
  | returned mac => cases steps

theorem resolveStep_cases {event : AcquireEvent} (steps : resolveStep targetIp timeoutTicks s event = some t) :
    (∀ mac, s.point ≠ .returned mac) ∧
      (event = .step ∧ netResolveArp targetIp timeoutTicks s = some t ∨
        event = .tick ∧ t = { s with net := { s.net with uptimeTicks := s.net.uptimeTicks + 1 } } ∨
        ∃ bytes net, event = .frame bytes ∧ receiveFrame s.net bytes = some net ∧ t = { s with net := net }) := by
  unfold resolveStep at steps
  split at steps
  · cases steps
  · rename_i running
    exact ⟨running, Or.inl ⟨rfl, steps⟩⟩
  · rename_i running
    cases steps
    exact ⟨running, Or.inr (Or.inl ⟨rfl, rfl⟩)⟩
  · rename_i bytes running
    obtain ⟨net, result, rfl⟩ := Option.map_eq_some_iff.mp steps
    exact ⟨running, Or.inr (Or.inr ⟨bytes, net, rfl, result, rfl⟩)⟩

/-- While the machine runs, what it knows of its requests does not depend on the driver. -/
theorem PointOk.later {net after : Net} {asked : List UInt64} {p : ResolvePoint} (running : ∀ mac, p ≠ .returned mac)
    (ok : PointOk targetIp timeoutTicks first net asked p) : PointOk targetIp timeoutTicks first after asked p := by
  cases p with
  | returned mac => exact absurd rfl (running mac)
  | entry start | head start nextProbe | probe start nextProbe | test start nextProbe => exact ok

theorem resolveInv_event (inv : ResolveInv targetIp timeoutTicks first s log) {event : AcquireEvent}
    (fits : ClockFits s event) (steps : resolveStep targetIp timeoutTicks s event = some t) :
    ResolveInv targetIp timeoutTicks first t (log ++ stamped s.net t.net) := by
  obtain ⟨running, ⟨rfl, moves⟩ | ⟨rfl, rfl⟩ | ⟨bytes, net, rfl, result, rfl⟩⟩ := resolveStep_cases steps
  · exact resolveInv_step inv fits moves
  · obtain ⟨later, elapsed, point⟩ := inv
    have next : (s.net.uptimeTicks + 1).toNat = s.net.uptimeTicks.toNat + 1 := by
      rw [UInt64.toNat_add]
      unfold ClockFits at fits
      exact Nat.mod_eq_of_lt (show s.net.uptimeTicks.toNat + 1 < 2 ^ 64 by omega)
    have quiet : log ++ stamped s.net { s.net with uptimeTicks := s.net.uptimeTicks + 1 } = log := by simp
    refine ⟨later.extend rfl rfl (List.append_nil _).symm rfl, ?_, ?_⟩
    · rw [UInt64.le_iff_toNat_le, next]
      exact Nat.le_succ_of_le (UInt64.le_iff_toNat_le.mp elapsed)
    · dsimp only
      rw [quiet]
      exact point.later running
  · obtain ⟨later, elapsed, point⟩ := inv
    obtain ⟨after, silent⟩ := later.receive result
    refine ⟨after, by rw [(receiveFrame_kept result).1]; exact elapsed, ?_⟩
    rw [ticksOf_append, silent targetIp, List.append_nil]
    exact point.later running

theorem ResolveInv.paced (inv : ResolveInv targetIp timeoutTicks first s log) :
    ∃ nextProbe, Paced first nextProbe (ticksOf (arpRequest first targetIp) log) := by
  have point := inv.point
  cases here : s.point with
  | entry start =>
      rw [here] at point
      rw [point.2]
      exact ⟨_, .none first start⟩
  | head start nextProbe | probe start nextProbe | test start nextProbe =>
      rw [here] at point
      exact ⟨nextProbe, point.2⟩
  | returned mac =>
      rw [here] at point
      cases mac with
      | none => exact point.2
      | some mac => exact point.2

/-- What is returned was known before or has been told. -/
theorem ResolveInv.known {mac : Mac} (inv : ResolveInv targetIp timeoutTicks first s log) (returned : s.point = .returned (some mac)) :
    (∃ j, arpMap first j = some (targetIp, mac)) ∨ Told log targetIp mac := by
  have point := inv.point
  rw [returned] at point
  have found := point.1
  rw [arpCacheLookup_eq] at found
  obtain ⟨i, slot, value⟩ := Option.bind_eq_some_iff.mp found
  obtain ⟨w, entry⟩ := SlotMap.slotOf_eq_some slot
  rw [entry, Option.map_some, Option.some.injEq] at value
  exact inv.later.learned i targetIp mac (by rw [entry, ← value])

theorem ResolveInv.expired (inv : ResolveInv targetIp timeoutTicks first s log) (returned : s.point = .returned none) :
    timeoutTicks ≤ s.net.uptimeTicks - first.uptimeTicks := by
  have point := inv.point
  rw [returned] at point
  exact point.1

end

end Mgcore
