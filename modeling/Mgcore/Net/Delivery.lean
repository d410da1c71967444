import Mgcore.Net.Receive

/-!
# Every packet once

The packets that the card has placed split into those that were read and those that wait in the ring. An arrival
keeps this, and so does a step of `rtl_poll_rx`: `AtPoint` says what an activation knows of the first waiting packet
at each of its points. An interrupt between two packets is one more activation that starts and ends where a packet
does. One that comes between a header and the new offset reads the same packet again.
-/

namespace Mgcore

open Lib

/-! ## Packets in the ring -/

theorem Packet.length_toNat (p : Packet) : p.length.toNat = p.frame.length + 4 := by
  have short := p.short
  rw [Packet.length, UInt16.toNat_ofNat']
  apply Nat.mod_eq_of_lt
  exact Nat.lt_of_le_of_lt short (by decide)

theorem Packet.bytes_length (p : Packet) : p.bytes.length = p.frame.length + 8 := by
  simp [Packet.bytes, le16Store]

theorem Packet.bytes_fit (p : Packet) : p.bytes.length ≤ p.space := by
  rw [Packet.bytes_length, Packet.space]
  omega

theorem Packet.bytes_addressed (p : Packet) : rxRingSize + p.bytes.length ≤ cardAddresses := by
  have short := p.short
  have bound : maxRxLength.toNat = 1792 := rfl
  rw [Packet.bytes_length, rxRingSize, cardAddresses]
  omega

def span (packets : List Packet) : Nat := extent Packet.space packets

@[simp] theorem span_nil : span [] = 0 := rfl

@[simp] theorem span_cons (p : Packet) (packets : List Packet) : span (p :: packets) = p.space + span packets :=
  extent_cons ..

@[simp] theorem span_append (first last : List Packet) : span (first ++ last) = span first + span last :=
  extent_append ..

abbrev InRing (memory : Nat → UInt8) (start : Nat) (packets : List Packet) : Prop :=
  Laid cardAddresses rxRingSize Packet.space Packet.bytes memory start packets

theorem span_aligned (packets : List Packet) : 4 ∣ span packets := by
  induction packets with
  | nil => exact ⟨0, rfl⟩
  | cons p packets ih =>
      rw [span_cons]
      exact Nat.dvd_add (Dvd.intro_left _ rfl) ih

theorem Packet.accepted (p : Packet) : ¬(p.length < 4 ∨ maxRxLength < p.length) := by
  have short := p.short
  rw [UInt16.lt_iff_toNat_lt, UInt16.lt_iff_toNat_lt, p.length_toNat]
  rintro (tiny | long)
  · exact absurd tiny (by simp)
  · omega

/-! ## The driver's arithmetic -/

theorem advanceOffset_toNat {offset length : UInt16} (inRing : offset.toNat < rxRingSize)
    (short : length.toNat ≤ maxRxLength.toNat) :
    (advanceOffset offset length).toNat = (offset.toNat + length.toNat + 4 + 3) / 4 * 4 % rxRingSize := by
  have bound : maxRxLength.toNat = 1792 := rfl
  unfold rxRingSize at inRing ⊢
  have sum : (offset.toUInt32 + length.toUInt32 + 4 + 3).toNat = offset.toNat + length.toNat + 4 + 3 := by
    simp only [UInt32.toNat_add, UInt16.toNat_toUInt32, UInt32.reduceToNat]
    omega
  have mask : (~~~(3 : UInt32)).toNat = (2 ^ 30 - 1) <<< 2 := rfl
  rw [advanceOffset, UInt16.toNat_mod, UInt32.toNat_toUInt16, UInt32.toNat_and, sum, mask, and_shiftLeft_mask]
  simp only [UInt16.reduceToNat]
  omega

theorem capr_toNat {offset : UInt16} (inRing : offset.toNat < rxRingSize) :
    ((((offset.toUInt32 - 16) &&& 0x1FFF).toUInt16).toNat + 16) % rxRingSize = offset.toNat := by
  unfold rxRingSize at inRing ⊢
  have mask : (0x1FFF : UInt32).toNat = 2 ^ 13 - 1 := rfl
  rw [UInt32.toNat_toUInt16, UInt32.toNat_and, mask, Nat.and_two_pow_sub_one_eq_mod, UInt32.toNat_sub,
    UInt16.toNat_toUInt32]
  simp only [UInt32.reduceToNat]
  omega

theorem advance_aligned {start : Nat} (aligned : 4 ∣ start) (p : Packet) :
    (start % rxRingSize + p.length.toNat + 4 + 3) / 4 * 4 % rxRingSize = (start + p.space) % rxRingSize := by
  rw [Packet.length_toNat, Packet.space, rxRingSize]
  omega

/-! ## Reading a packet -/

section
variable {memory : Nat → UInt8} {start : Nat} {p : Packet} {rest : List Packet}

theorem byte_in_ring (inRing : InRing memory start (p :: rest)) {i : Nat} {b : UInt8} (found : p.bytes[i]? = some b) :
    memory (start % rxRingSize + i) = b := by
  obtain ⟨h, rfl⟩ := List.getElem?_eq_some_iff.mp found
  have fits := p.bytes_addressed
  have below : start % rxRingSize < rxRingSize := Nat.mod_lt start (by decide)
  have inside : i < (load cardAddresses memory (start % rxRingSize) p.bytes.length).length := by
    rw [load_length]
    exact h
  rw [← load_getElem (by omega) inside]
  exact List.getElem_of_eq inRing.1 inside

theorem le16Load_in_ring (inRing : InRing memory start (p :: rest)) {i : Nat} {value : UInt16}
    (low : p.bytes[i]? = some value.toUInt8) (high : p.bytes[i + 1]? = some (value >>> 8).toUInt8) :
    le16Load memory (start % rxRingSize + i) = value := by
  rw [le16Load, byte_in_ring inRing low, Nat.add_assoc, byte_in_ring inRing high, UInt16.or_comm]
  exact bytes_joined value

theorem status_in_ring (inRing : InRing memory start (p :: rest)) :
    le16Load memory (start % rxRingSize) = p.status :=
  le16Load_in_ring (i := 0) inRing rfl rfl

theorem length_in_ring (inRing : InRing memory start (p :: rest)) :
    le16Load memory (start % rxRingSize + 2) = p.length :=
  le16Load_in_ring inRing rfl rfl

theorem frame_in_ring (inRing : InRing memory start (p :: rest)) :
    load cardAddresses memory (start % rxRingSize + 4) (p.length.toNat - 4) = p.frame := by
  have size := p.bytes_length
  have read : load cardAddresses memory (start % rxRingSize) p.bytes.length = p.bytes := inRing.1
  rw [p.length_toNat, Nat.add_sub_cancel, load_part memory (show 4 + p.frame.length ≤ p.bytes.length by omega), read,
    Packet.bytes, List.append_assoc _ p.frame]
  exact slice_middle rfl rfl

end

/-! ## One activation -/

/-- The packets of `done` have been read and those of `waiting` are in the ring. -/
structure RingState (s : Receive) (done waiting : List Packet) : Prop where
  placed : s.placed = done ++ waiting
  offset : s.readOffset.toNat = span done % rxRingSize
  pointer : s.card.readPointer = span done % rxRingSize
  cbr : s.card.cbr = (span done + span waiting) % rxRingSize
  room : span waiting < rxRingSize
  inRing : InRing s.card.memory (span done) waiting

theorem RingState.bufferEmpty_iff {s : Receive} {done waiting : List Packet} (state : RingState s done waiting) :
    s.card.bufferEmpty ↔ waiting = [] := by
  rw [Card.bufferEmpty, decide_eq_true_iff, state.pointer, state.cbr]
  constructor
  · intro same
    have nothing : span waiting = 0 := extent_eq_zero_of_wrapped state.room same.symm
    cases waiting with
    | nil => rfl
    | cons p rest =>
        rw [span_cons, Packet.space] at nothing
        omega
  · intro empty
    rw [empty, span_nil, Nat.add_zero]

def AtPoint (s : Receive) (done waiting : List Packet) : PollPoint → Prop
  | .idle => s.handed = done.map Packet.frame
  | .test _ => s.handed = done.map Packet.frame
  | .process _ packet status length =>
      s.handed = done.map Packet.frame ∧
        ∃ p rest, waiting = p :: rest ∧ packet = span done % rxRingSize ∧ status = p.status ∧ length = p.length
  | .advance _ length =>
      ∃ p rest, waiting = p :: rest ∧ length = p.length ∧ s.handed = (done ++ [p]).map Packet.frame

def PollInv (s : Receive) (point : PollPoint) : Prop :=
  ∃ done waiting, RingState s done waiting ∧ AtPoint s done waiting point

theorem RingState.advance {s : Receive} {done rest : List Packet} {p : Packet} (state : RingState s done (p :: rest)) :
    RingState { s with
      readOffset := advanceOffset s.readOffset p.length
      card := { s.card with capr := (((advanceOffset s.readOffset p.length).toUInt32 - 16) &&& 0x1FFF).toUInt16 } }
      (done ++ [p]) rest := by
  have below (k : Nat) : k % rxRingSize < rxRingSize := Nat.mod_lt k (by decide)
  have short : p.length.toNat ≤ maxRxLength.toNat := by
    rw [p.length_toNat]
    exact p.short
  have moved : (advanceOffset s.readOffset p.length).toNat = span (done ++ [p]) % rxRingSize := by
    rw [advanceOffset_toNat (by rw [state.offset]; exact below _) short, state.offset,
      advance_aligned (span_aligned done), span_append, span_cons, span_nil, Nat.add_zero]
  have total : span (done ++ [p]) + span rest = span done + span (p :: rest) := by
    simp only [span_append, span_cons, span_nil]
    omega
  have less := state.room
  rw [span_cons] at less
  exact
    { placed := by rw [state.placed, List.append_assoc]; rfl
      offset := moved
      pointer := by
        rw [← moved]
        exact capr_toNat (by rw [moved]; exact below _)
      cbr := by rw [state.cbr, total]
      room := by omega
      inRing := by
        rw [span_append, span_cons, span_nil, Nat.add_zero]
        exact state.inRing.2 }

theorem pollStep_inv {s t : Receive} {point next : PollPoint} (inv : PollInv s point)
    (steps : pollStep s point = some (t, next)) : PollInv t next := by
  obtain ⟨done, waiting, state, here⟩ := inv
  cases point with
  | idle =>
      rw [pollStep] at steps
      split_ifs at steps
      · cases steps
        exact ⟨done, waiting, state, here⟩
      · cases steps
        exact ⟨done, waiting, state, here⟩
  | test processed =>
      rcases rejected_or steps with stopped | ⟨more, steps⟩
      · cases stopped
        exact ⟨done, waiting, state, here⟩
      -- the ring is not empty, so the header is that of the first waiting packet
      cases waiting with
      | nil => exact absurd (state.bufferEmpty_iff.mpr rfl) more
      | cons p rest =>
          simp only [state.offset, status_in_ring state.inRing, length_in_ring state.inRing, if_neg p.accepted] at steps
          cases steps
          exact ⟨done, p :: rest, state, here, p, rest, rfl, rfl, rfl, rfl⟩
  | process processed packet status length =>
      obtain ⟨handed, p, rest, rfl, rfl, rfl, rfl⟩ := here
      -- arrivals since then have not touched the frame that the header announced
      rw [pollStep, if_pos p.ok, frame_in_ring state.inRing] at steps
      obtain ⟨net, handled, steps⟩ := Option.bind_eq_some_iff.mp steps
      cases steps
      refine ⟨done, p :: rest, ⟨state.placed, state.offset, state.pointer, state.cbr, state.room, state.inRing⟩,
        p, rest, rfl, rfl, ?_⟩
      rw [List.map_append, ← handed]
      rfl
  | advance processed length =>
      obtain ⟨p, rest, rfl, rfl, handed⟩ := here
      cases steps
      refine ⟨done ++ [p], rest, state.advance, ?_⟩
      split_ifs
      · exact handed
      · exact handed

-- How many steps an activation can still make.
def PollPoint.rank : PollPoint → Nat
  | .idle => 1 + 3 * 65
  | .test processed => 3 * (65 - processed)
  | .process processed _ _ _ => 3 * (64 - processed) + 2
  | .advance processed _ => 3 * (64 - processed) + 1

theorem pollStep_progress (s : Receive) (point : PollPoint) :
    ∃ t next, pollStep s point = some (t, next) ∧
      (next = .idle ∨ (0 < point.rank → 0 < next.rank ∧ next.rank < point.rank)) := by
  cases point with
  | idle =>
      by_cases down : ¬s.net.rtlReady
      · exact ⟨s, .idle, by rw [pollStep, if_pos down], .inl rfl⟩
      · exact ⟨s, .test 0, by rw [pollStep, if_neg down], .inr (by decide)⟩
  | test processed =>
      simp only [pollStep]
      split_ifs
      · exact ⟨s, _, rfl, .inl rfl⟩
      · exact ⟨_, _, rfl, .inl rfl⟩
      · exact ⟨s, _, rfl, .inr (by simp only [PollPoint.rank]; omega)⟩
  | process processed packet status length =>
      simp only [pollStep]
      split_ifs
      · obtain ⟨net, handled⟩ := Option.isSome_iff_exists.mp
          (netProcessFrame_isSome s.net (load cardAddresses s.card.memory (packet + 4) (length.toNat - 4)))
        rw [handled]
        exact ⟨_, _, rfl, .inr (by simp only [PollPoint.rank]; omega)⟩
      · exact ⟨_, _, rfl, .inr (by simp only [PollPoint.rank]; omega)⟩
  | advance processed length =>
      refine ⟨_, _, rfl, ?_⟩
      split_ifs with last
      · exact .inl rfl
      · exact .inr (by simp only [PollPoint.rank]; omega)

theorem pollRun_inv {fuel : Nat} {s : Receive} {point : PollPoint} (inv : PollInv s point) (live : 0 < point.rank)
    (enough : point.rank ≤ fuel) : ∃ t, pollRun fuel s point = some t ∧ PollInv t .idle := by
  induction fuel generalizing s point with
  | zero => omega
  | succ fuel ih =>
      obtain ⟨t, next, steps, outcome⟩ := pollStep_progress s point
      have after := pollStep_inv inv steps
      rw [pollRun, steps, Option.bind_eq_bind, Option.bind_some]
      by_cases ended : next = .idle
      · rw [ended] at after
        exact ⟨t, if_pos ended, after⟩
      · obtain ⟨live', less⟩ := outcome.resolve_left ended live
        simp only [if_neg ended]
        exact ih after live' (by omega)

theorem netHandleIrq_inv {s : Receive} (isr : UInt16) (inv : PollInv s .idle) :
    ∃ t, netHandleIrq s isr = some t ∧ PollInv t .idle := by
  unfold netHandleIrq
  split_ifs with ready silent receives
  · exact ⟨s, rfl, inv⟩
  · exact pollRun_inv inv (by decide) (Nat.le_refl _)
  · exact ⟨s, rfl, inv⟩
  · exact ⟨s, rfl, inv⟩

/-! ## Arrivals -/

theorem RingState.used {s : Receive} {done waiting : List Packet} (state : RingState s done waiting) :
    s.card.used = span waiting := by
  have room := state.room
  rw [Card.used, state.pointer, state.cbr]
  unfold rxRingSize at room ⊢
  omega

theorem RingState.arrive {s : Receive} {done waiting : List Packet} (state : RingState s done waiting) {p : Packet}
    (fits : s.card.used + p.space < rxRingSize) :
    RingState { s with card := s.card.place p, placed := s.placed ++ [p] } done (waiting ++ [p]) := by
  rw [state.used] at fits
  have more : span (waiting ++ [p]) = span waiting + p.space := by
    rw [span_append, span_cons, span_nil, Nat.add_zero]
  exact
    { placed := by rw [state.placed, List.append_assoc]
      offset := state.offset
      pointer := state.pointer
      cbr := by
        change (s.card.cbr + p.space) % rxRingSize = _
        rw [state.cbr, more, ← Nat.add_assoc, Nat.mod_add_mod]
      room := by omega
      inRing := by
        change InRing (store cardAddresses s.card.memory s.card.cbr p.bytes) (span done) (waiting ++ [p])
        rw [state.cbr]
        exact state.inRing.store Packet.bytes_fit Packet.bytes_addressed (by decide) p (Nat.le_of_lt fits) }

theorem AtPoint.arrive {s : Receive} {done waiting : List Packet} {point : PollPoint}
    (here : AtPoint s done waiting point) (p : Packet) : AtPoint s done (waiting ++ [p]) point := by
  cases point with
  | idle => exact here
  | test processed => exact here
  | process processed packet status length =>
      obtain ⟨handed, q, rest, rfl, header⟩ := here
      exact ⟨handed, q, rest ++ [p], rfl, header⟩
  | advance processed length =>
      obtain ⟨q, rest, rfl, header⟩ := here
      exact ⟨q, rest ++ [p], rfl, header⟩

theorem receivePacket_inv {s : Receive} {point : PollPoint} (inv : PollInv s point) (p : Packet) :
    PollInv (receivePacket s p) point := by
  obtain ⟨done, waiting, state, here⟩ := inv
  unfold receivePacket
  split_ifs with fits
  · refine ⟨done, waiting ++ [p], state.arrive fits, ?_⟩
    have moved := here.arrive p
    cases point <;> exact moved
  · exact ⟨done, waiting, state, here⟩

/-! ## Runs -/

/-- Outside the routine, or where it looks for the next packet. -/
def PollPoint.AtRest : PollPoint → Prop
  | .idle => True
  | .test _ => True
  | .process _ _ _ _ => False
  | .advance _ _ => False

instance (point : PollPoint) : Decidable point.AtRest :=
  match point with
  | .idle => isTrue trivial
  | .test _ => isTrue trivial
  | .process _ _ _ _ => isFalse id
  | .advance _ _ => isFalse id

/-- No receive interrupt between the header of a packet and the step past it. -/
def Undisturbed (s : System) : RxEvent → Prop
  | .irq isr => ReceiveIrq isr → s.fore.AtRest
  | _ => True

instance (s : System) (event : RxEvent) : Decidable (Undisturbed s event) :=
  match event with
  | .irq isr => inferInstanceAs (Decidable (ReceiveIrq isr → s.fore.AtRest))
  | .arrive _ => isTrue trivial
  | .foreground => isTrue trivial

theorem pollInv_atRest {s : Receive} {point : PollPoint} (rest : point.AtRest) : PollInv s point ↔ PollInv s .idle := by
  cases point with
  | idle => exact Iff.rfl
  | test processed => exact Iff.rfl
  | process processed packet status length => exact rest.elim
  | advance processed length => exact rest.elim

theorem netHandleIrq_other (s : Receive) {isr : UInt16} (other : ¬ReceiveIrq isr) : netHandleIrq s isr = some s := by
  unfold netHandleIrq
  split_ifs <;> rfl

theorem systemStep_inv (s : System) (event : RxEvent) (inv : PollInv s.rx s.fore) (quiet : Undisturbed s event) :
    ∃ t, systemStep s event = some t ∧ PollInv t.rx t.fore := by
  cases event with
  | arrive p => exact ⟨_, rfl, receivePacket_inv inv p⟩
  | foreground =>
      obtain ⟨rx, fore, steps, _⟩ := pollStep_progress s.rx s.fore
      exact ⟨⟨rx, fore⟩, by rw [systemStep, steps]; rfl, pollStep_inv inv steps⟩
  | irq isr =>
      by_cases receives : ReceiveIrq isr
      · obtain ⟨rx, handled, after⟩ := netHandleIrq_inv isr ((pollInv_atRest (quiet receives)).mp inv)
        exact ⟨{ s with rx }, by rw [systemStep, handled]; rfl, (pollInv_atRest (quiet receives)).mpr after⟩
      · exact ⟨s, by rw [systemStep, netHandleIrq_other s.rx receives]; rfl, inv⟩

/-- Each packet is handed on in the order of arrival, none is left when the ring is empty, and the read offset is
where a packet ends. -/
structure ExactlyOnce (s : System) : Prop where
  inOrder : s.rx.handed <+: s.rx.placed.map Packet.frame
  drained : s.fore.AtRest → s.rx.card.bufferEmpty → s.rx.handed = s.rx.placed.map Packet.frame
  boundary : ∃ done, done <+: s.rx.placed ∧ s.rx.readOffset.toNat = span done % rxRingSize

theorem AtPoint.handed_prefix {s : Receive} {done waiting : List Packet} {point : PollPoint}
    (here : AtPoint s done waiting point) : s.handed <+: (done ++ waiting).map Packet.frame := by
  have whole : done.map Packet.frame <+: (done ++ waiting).map Packet.frame :=
    (List.prefix_append done waiting).map Packet.frame
  cases point with
  | idle => exact here ▸ whole
  | test processed => exact here ▸ whole
  | process processed packet status length => exact here.1 ▸ whole
  | advance processed length =>
      obtain ⟨p, rest, rfl, _, handed⟩ := here
      have shorter := List.prefix_append (done ++ [p]) rest
      rw [List.append_assoc, List.singleton_append] at shorter
      rw [handed]
      exact shorter.map Packet.frame

theorem AtPoint.handed_atRest {s : Receive} {done waiting : List Packet} {point : PollPoint}
    (here : AtPoint s done waiting point) (rest : point.AtRest) : s.handed = done.map Packet.frame := by
  cases point with
  | idle => exact here
  | test processed => exact here
  | process processed packet status length => exact rest.elim
  | advance processed length => exact rest.elim

theorem exactlyOnce_of_inv {s : System} (inv : PollInv s.rx s.fore) : ExactlyOnce s := by
  obtain ⟨done, waiting, state, here⟩ := inv
  refine ⟨state.placed ▸ here.handed_prefix, ?_, done, ⟨waiting, state.placed.symm⟩, state.offset⟩
  intro rest empty
  rw [here.handed_atRest rest, state.placed, state.bufferEmpty_iff.mp empty, List.append_nil]

theorem pollInv_afterInit (net : Net) (memory : Nat → UInt8) :
    PollInv (afterInit net memory).rx (afterInit net memory).fore := by
  have pointer : (afterInit net memory).rx.card.readPointer = 0 := by
    change ((0xFFF0 : UInt16).toNat + 16) % rxRingSize = 0
    decide
  exact ⟨[], [], ⟨rfl, rfl, pointer, rfl, by decide, trivial⟩, rfl⟩

/-- A run in which no interrupt disturbs the foreground ends, and every packet has been handed on once. -/
theorem receive_exactly_once (net : Net) (memory : Nat → UInt8) (events : List RxEvent)
    (quiet : Along systemStep Undisturbed (afterInit net memory) events) :
    ∃ t, run systemStep (afterInit net memory) events = some t ∧ ExactlyOnce t := by
  obtain ⟨t, reaches, inv⟩ := quiet.run_isSome systemStep_inv (pollInv_afterInit net memory)
  exact ⟨t, reaches, exactlyOnce_of_inv inv⟩

-- The smallest frame of an Ethernet, of no type that the driver knows.
def quietPacket : Packet :=
  { status := rxStatusOk
    frame := List.replicate 60 0
    crc := ⟨List.replicate 4 0, rfl⟩
    ok := by decide
    short := by decide }

def readySystem : System := afterInit { rtlReady := true } fun _ => 0

def calmEvents : List RxEvent :=
  [.arrive quietPacket, .foreground, .irq isrRok, .arrive quietPacket, .foreground, .foreground, .foreground]

theorem receive_exactly_once_sample :
    Along systemStep Undisturbed readySystem calmEvents ∧
      ∃ t, run systemStep readySystem calmEvents = some t ∧ ExactlyOnce t := by
  have quiet : Along systemStep Undisturbed readySystem calmEvents := by decide +kernel
  exact ⟨quiet, receive_exactly_once _ _ calmEvents quiet⟩

-- The interrupt comes after the foreground has read the header of the only packet.
def nestedEvents : List RxEvent :=
  [.arrive quietPacket, .foreground, .foreground, .irq isrRok, .foreground, .foreground]

theorem span_eq_sum (packets : List Packet) : span packets = (packets.map Packet.space).sum := rfl

/-- Both activations hand the frame on, and both move the offset past it. -/
theorem packet_handed_twice :
    ∃ t, run systemStep readySystem nestedEvents = some t ∧ ¬t.rx.handed <+: t.rx.placed.map Packet.frame ∧
      ¬∃ done, done <+: t.rx.placed ∧ t.rx.readOffset.toNat = span done % rxRingSize := by
  obtain ⟨t, reaches, handed, spaces, offset⟩ : ∃ t, run systemStep readySystem nestedEvents = some t ∧
      t.rx.handed.length = 2 ∧ t.rx.placed.map Packet.space = [68] ∧ t.rx.readOffset.toNat = 136 := by
    apply exists_of_check
    decide +kernel
  have one : t.rx.placed.length = 1 := by rw [← List.length_map, spaces]; rfl
  refine ⟨t, reaches, ?_, ?_⟩
  · intro inOrder
    have fewer := inOrder.length_le
    rw [handed, List.length_map, one] at fewer
    exact absurd fewer (by decide)
  · rintro ⟨done, shorter, rests⟩
    have parts : done.map Packet.space <+: [68] := spaces ▸ shorter.map Packet.space
    rw [offset, span_eq_sum] at rests
    rcases List.prefix_cons_iff.mp parts with none | ⟨tail, whole, empty⟩
    · rw [none] at rests
      exact absurd rests (by decide)
    · rw [whole, List.prefix_nil.mp empty] at rests
      exact absurd rests (by decide)

end Mgcore
