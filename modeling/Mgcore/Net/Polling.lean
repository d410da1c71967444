import Mgcore.Net.Delivery

/-!
# Polling a ring of arbitrary contents

Nothing is assumed of the bytes in the ring here: the card may put anything there, and change it between any two steps of
`rtl_poll_rx`. The read offset stays a multiple of four inside the ring. A frame near its end may run past
`g_rx_buffer`, which has room for 1520 bytes after the last offset while a length of up to 1792 is accepted. A length
that is not accepted ends the call with the offset where it was, and so does every later call.
-/

namespace Mgcore

open Lib

def rxBufferSize : Nat := 8192 + 16 + 1500  -- `RTL_RX_BUFFER_SIZE`

def Receive.headerStatus (s : Receive) : UInt16 := le16Load s.card.memory s.readOffset.toNat

def Receive.headerLength (s : Receive) : UInt16 := le16Load s.card.memory (s.readOffset.toNat + 2)

/-- The length of the descriptor at the read offset passes the test of `rtl_poll_rx`. -/
def HeaderAccepted (s : Receive) : Prop := ¬(s.headerLength < 4 ∨ maxRxLength < s.headerLength)

instance (s : Receive) : Decidable (HeaderAccepted s) := inferInstanceAs (Decidable (¬_))

theorem headerAccepted_iff (s : Receive) :
    HeaderAccepted s ↔ 4 ≤ s.headerLength.toNat ∧ s.headerLength.toNat ≤ maxRxLength.toNat := by
  have four : (4 : UInt16).toNat = 4 := rfl
  rw [HeaderAccepted, UInt16.lt_iff_toNat_lt, UInt16.lt_iff_toNat_lt, four]
  omega

theorem pollStep_test_accepted {s : Receive} (waiting : ¬s.card.bufferEmpty) (accepted : HeaderAccepted s)
    (processed : Nat) :
    pollStep s (.test processed) =
      some (s, .process processed s.readOffset.toNat s.headerStatus s.headerLength) := by
  simp only [pollStep]
  rw [if_neg waiting]
  exact if_neg accepted

theorem pollStep_test_rejected {s : Receive} (waiting : ¬s.card.bufferEmpty) (rejected : ¬HeaderAccepted s)
    (processed : Nat) :
    pollStep s (.test processed) = some ({ s with rxDropped := s.rxDropped + 1 }, .idle) := by
  simp only [pollStep]
  rw [if_neg waiting]
  exact if_pos (not_not.mp rejected)

theorem pollStep_process (s : Receive) (processed packet : Nat) (status length : UInt16) :
    ∃ t, pollStep s (.process processed packet status length) = some (t, .advance processed length) ∧
      t.readOffset = s.readOffset := by
  by_cases ok : status &&& rxStatusOk ≠ 0
  · let frame := load cardAddresses s.card.memory (packet + 4) (length.toNat - 4)
    obtain ⟨net, handled⟩ := frame_reads_in_bounds s.net frame
    refine ⟨{ s with net, rxFrames := s.rxFrames + 1, handed := s.handed ++ [frame] }, ?_, rfl⟩
    simp only [pollStep]
    rw [if_pos ok, handled]
    rfl
  · exact ⟨_, if_neg ok, rfl⟩

/-! ## The places that are read -/

/-- The places of `g_rx_buffer` that the next step reads or gives to `net_process_frame`. -/
def Reads (s : Receive) : PollPoint → Nat → Prop
  | .idle, _ => False
  | .test _, i => ¬s.card.bufferEmpty ∧ s.readOffset.toNat ≤ i ∧ i < s.readOffset.toNat + 4
  | .process _ packet status length, i =>
      status &&& rxStatusOk ≠ 0 ∧ packet + 4 ≤ i ∧ i < packet + 4 + (length.toNat - 4)
  | .advance _ _, _ => False

structure ReadsInside (s : System) : Prop where
  aligned : 4 ∣ s.rx.readOffset.toNat
  below : s.rx.readOffset.toNat < rxRingSize
  reads : ∀ i, Reads s.rx s.fore i → i < rxBufferSize

inductive RingEvent
  | hwInit (mac : Mac)
  | device (memory : Nat → UInt8) (cbr : Nat)
  | poll

/-- What a successful `rtl_hw_init` does to the state of the driver. -/
def rtlHwInit (s : Receive) (mac : Mac) : Receive :=
  { s with
    net := { s.net with mac, txIndex := 0, rtlReady := true }
    card := { s.card with capr := 0xFFF0 }
    readOffset := 0 }

def ringStep (s : System) : RingEvent → Option System
  | .hwInit mac => some { rx := rtlHwInit s.rx mac, fore := .idle }
  | .device memory cbr => some { s with rx := { s.rx with card := { s.rx.card with memory, cbr } } }
  | .poll => do
      let (rx, fore) ← pollStep s.rx s.fore
      some { rx, fore }

/-- A descriptor that is read and will be handed on is short, or it starts early enough. -/
def DescriptorFits (s : System) : RingEvent → Prop
  | .poll =>
      match s.fore with
      | .test _ =>
          ¬s.rx.card.bufferEmpty → HeaderAccepted s.rx → s.rx.headerStatus &&& rxStatusOk ≠ 0 →
            s.rx.headerLength.toNat ≤ 1520 ∨ s.rx.readOffset.toNat + s.rx.headerLength.toNat ≤ rxBufferSize
      | _ => True
  | _ => True

/-- What an activation knows at each of its points. -/
def FitsAt : PollPoint → Prop
  | .process _ packet status length =>
      4 ≤ length.toNat ∧ length.toNat ≤ maxRxLength.toNat ∧
        (status &&& rxStatusOk ≠ 0 → packet + length.toNat ≤ rxBufferSize)
  | .advance _ length => length.toNat ≤ maxRxLength.toNat
  | _ => True

structure RingInv (s : System) : Prop where
  aligned : 4 ∣ s.rx.readOffset.toNat
  below : s.rx.readOffset.toNat < rxRingSize
  fits : FitsAt s.fore

theorem RingInv.inside {s : System} (inv : RingInv s) : ReadsInside s := by
  refine ⟨inv.aligned, inv.below, fun i reads => ?_⟩
  have below := inv.below
  have fits := inv.fits
  unfold rxRingSize at below
  cases point : s.fore with
  | test processed =>
      rw [point] at reads
      obtain ⟨-, -, less⟩ := reads
      unfold rxBufferSize
      omega
  | process processed packet status length =>
      rw [point] at reads fits
      obtain ⟨ok, -, less⟩ := reads
      obtain ⟨long, -, room⟩ := fits
      have := room ok
      omega
  | idle => rw [point] at reads; exact reads.elim
  | advance processed length => rw [point] at reads; exact reads.elim

theorem advanceOffset_inv {offset length : UInt16} (below : offset.toNat < rxRingSize)
    (short : length.toNat ≤ maxRxLength.toNat) :
    4 ∣ (advanceOffset offset length).toNat ∧ (advanceOffset offset length).toNat < rxRingSize := by
  rw [advanceOffset_toNat below short]
  unfold rxRingSize
  omega

theorem ringStep_poll {rx rx' : Receive} {fore fore' : PollPoint} (steps : pollStep rx fore = some (rx', fore')) :
    ringStep ⟨rx, fore⟩ .poll = some ⟨rx', fore'⟩ := by
  rw [ringStep, steps]
  rfl

theorem ringStep_inv {s : System} {event : RingEvent} (inv : RingInv s) (fits : DescriptorFits s event) :
    ∃ t, ringStep s event = some t ∧ RingInv t := by
  cases event with
  | hwInit mac => exact ⟨_, rfl, ⟨0, rfl⟩, Nat.zero_lt_succ 8191, trivial⟩
  | device memory cbr => exact ⟨_, rfl, inv.aligned, inv.below, inv.fits⟩
  | poll =>
      obtain ⟨rx, fore⟩ := s
      have aligned : 4 ∣ rx.readOffset.toNat := inv.aligned
      have below : rx.readOffset.toNat < rxRingSize := inv.below
      cases fore with
      | idle =>
          by_cases down : ¬rx.net.rtlReady
          · exact ⟨⟨rx, .idle⟩, ringStep_poll (if_pos down), aligned, below, trivial⟩
          · exact ⟨⟨rx, .test 0⟩, ringStep_poll (if_neg down), aligned, below, trivial⟩
      | test processed =>
          by_cases empty : rx.card.bufferEmpty
          · exact ⟨⟨rx, .idle⟩, ringStep_poll (if_pos empty), aligned, below, trivial⟩
          by_cases accepted : HeaderAccepted rx
          · obtain ⟨long, short⟩ := (headerAccepted_iff rx).mp accepted
            have room : rx.headerStatus &&& rxStatusOk ≠ 0 →
                rx.readOffset.toNat + rx.headerLength.toNat ≤ rxBufferSize := by
              intro ok
              rcases fits empty accepted ok with small | room
              · have small' : rx.headerLength.toNat ≤ 1520 := small
                unfold rxRingSize at below
                unfold rxBufferSize
                omega
              · exact room
            exact ⟨⟨rx, .process processed rx.readOffset.toNat rx.headerStatus rx.headerLength⟩,
              ringStep_poll (pollStep_test_accepted empty accepted processed), aligned, below, long, short, room⟩
          · exact ⟨⟨{ rx with rxDropped := rx.rxDropped + 1 }, .idle⟩,
              ringStep_poll (pollStep_test_rejected empty accepted processed), aligned, below, trivial⟩
      | process processed packet status length =>
          obtain ⟨-, short, -⟩ := inv.fits
          obtain ⟨t, steps, same⟩ := pollStep_process rx processed packet status length
          exact ⟨⟨t, .advance processed length⟩, ringStep_poll steps, same ▸ aligned, same ▸ below, short⟩
      | advance processed length =>
          have short : length.toNat ≤ maxRxLength.toNat := inv.fits
          obtain ⟨aligned', below'⟩ := advanceOffset_inv below short
          refine ⟨_, rfl, aligned', below', ?_⟩
          change FitsAt (if 64 < processed + 1 then .idle else .test (processed + 1))
          split_ifs <;> trivial

theorem ringStep_breaks {s : System} {event : RingEvent} (misfit : ¬DescriptorFits s event) :
    ∃ t, ringStep s event = some t ∧ ¬ReadsInside t := by
  obtain ⟨rx, fore⟩ := s
  cases event with
  | poll =>
      cases fore with
      | test processed =>
          simp only [DescriptorFits, not_forall, not_or, Nat.not_le] at misfit
          obtain ⟨waiting, accepted, ok, long, past⟩ := misfit
          refine ⟨_, by rw [ringStep, pollStep_test_accepted waiting accepted]; rfl, fun inside => ?_⟩
          have last := inside.reads (rx.readOffset.toNat + rx.headerLength.toNat - 1) ⟨ok, by omega, by omega⟩
          omega
      | idle => exact absurd trivial misfit
      | process processed packet status length => exact absurd trivial misfit
      | advance processed length => exact absurd trivial misfit
  | hwInit mac => exact absurd trivial misfit
  | device memory cbr => exact absurd trivial misfit

/-- From `rtl_hw_init` on, whatever the card writes: the offset stays aligned and every place read is in the buffer exactly if
every frame that is handed on is short or starts early enough. -/
theorem ring_reads_inside_iff (net : Net) (memory : Nat → UInt8) (events : List RingEvent) :
    (∀ before, before <+: events → ∃ t, run ringStep (afterInit net memory) before = some t ∧ ReadsInside t) ↔
      Along ringStep DescriptorFits (afterInit net memory) events := by
  have start : RingInv (afterInit net memory) := ⟨⟨0, rfl⟩, Nat.zero_lt_succ 8191, trivial⟩
  have holds : ∀ s, RingInv s → ReadsInside s := fun _ inv => inv.inside
  refine prefixes_reach_iff_along holds ?_ ?_ (along_true _ _) start
  · intro s event inv _ fits
    exact ringStep_inv inv fits
  · intro s event _ _ misfit
    exact ringStep_breaks misfit

-- The same descriptor at every multiple of four.
def everywhere (status length : UInt16) (i : Nat) : UInt8 := (le16Store status ++ le16Store length).getD (i % 4) 0

/-- Five dropped descriptors lead to offset 8188, where one of 1792 bytes is handed on. -/
def lateLongPacket : List RingEvent :=
  [.device (everywhere 0 1792) 1, .poll] ++ List.replicate 12 .poll ++ [.device (everywhere 0 1000) 1] ++
    List.replicate 3 .poll ++ [.device (everywhere rxStatusOk 1792) 1, .poll]

instance (s : Receive) (point : PollPoint) (i : Nat) : Decidable (Reads s point i) :=
  match point with
  | .idle => isFalse id
  | .test _ => inferInstanceAs (Decidable (_ ∧ _))
  | .process _ _ _ _ => inferInstanceAs (Decidable (_ ∧ _))
  | .advance _ _ => isFalse id

theorem late_long_packet_past_buffer :
    ∃ t, run ringStep readySystem lateLongPacket = some t ∧ t.rx.readOffset = 8188 ∧
      Reads t.rx t.fore 9979 ∧ rxBufferSize = 9708 := by
  apply exists_of_check
  decide +kernel

/-! ## Progress -/

def PollPoint.passes : PollPoint → Nat
  | .advance _ _ => 1
  | _ => 0

/-- How many descriptors an activation moves the read offset past. -/
def descriptorsPassed : Nat → Receive → PollPoint → Nat
  | 0, _, _ => 0
  | fuel + 1, s, point =>
      match pollStep s point with
      | none => 0
      | some (s', point') =>
          if point' = .idle then point.passes else point.passes + descriptorsPassed fuel s' point'

theorem rtlPollRx_isSome (s : Receive) : ∃ t, rtlPollRx s = some t := by
  have returns (fuel : Nat) (s : Receive) (point : PollPoint) (live : 0 < point.rank) (enough : point.rank ≤ fuel) :
      ∃ t, pollRun fuel s point = some t := by
    induction fuel generalizing s point with
    | zero => omega
    | succ fuel ih =>
        obtain ⟨t, next, steps, outcome⟩ := pollStep_progress s point
        rw [pollRun, steps, Option.bind_eq_bind, Option.bind_some]
        by_cases ended : next = .idle
        · exact ⟨t, if_pos ended⟩
        · obtain ⟨live', less⟩ := outcome.resolve_left ended live
          simp only [if_neg ended]
          exact ih t next live' (by omega)
  exact returns _ s .idle (by decide) (Nat.le_refl _)

section
variable {s : Receive} (ready : s.net.rtlReady) (waiting : ¬s.card.bufferEmpty)
include ready

theorem pollStep_idle_ready : pollStep s .idle = some (s, .test 0) := if_neg (not_not.mpr ready)

include waiting

theorem pollRun_rejected (rejected : ¬HeaderAccepted s) (fuel : Nat) :
    pollRun (fuel + 2) s .idle = some { s with rxDropped := s.rxDropped + 1 } := by
  rw [pollRun, pollStep_idle_ready ready]
  simp only [Option.bind_eq_bind, Option.bind_some, reduceCtorEq, if_false]
  rw [pollRun, pollStep_test_rejected waiting rejected]
  rfl

theorem rtlPollRx_rejected (rejected : ¬HeaderAccepted s) :
    rtlPollRx s = some { s with rxDropped := s.rxDropped + 1 } :=
  pollRun_rejected ready waiting rejected 194

theorem descriptorsPassed_rejected (rejected : ¬HeaderAccepted s) (fuel : Nat) :
    descriptorsPassed (fuel + 2) s .idle = 0 := by
  rw [descriptorsPassed, pollStep_idle_ready ready]
  simp only [reduceCtorEq, if_false, PollPoint.passes, Nat.zero_add]
  rw [descriptorsPassed, pollStep_test_rejected waiting rejected]
  rfl

theorem descriptorsPassed_accepted (accepted : HeaderAccepted s) (fuel : Nat) :
    0 < descriptorsPassed (fuel + 4) s .idle := by
  rw [descriptorsPassed, pollStep_idle_ready ready]
  simp only [reduceCtorEq, if_false, PollPoint.passes, Nat.zero_add]
  rw [descriptorsPassed, pollStep_test_accepted waiting accepted]
  simp only [reduceCtorEq, if_false, PollPoint.passes, Nat.zero_add]
  obtain ⟨t, handled, -⟩ := pollStep_process s 0 s.readOffset.toNat s.headerStatus s.headerLength
  rw [descriptorsPassed, handled]
  simp only [reduceCtorEq, if_false, PollPoint.passes, Nat.zero_add]
  rw [descriptorsPassed]
  simp only [pollStep, PollPoint.passes]
  split_ifs <;> omega

end

/-- What happens after a call of `rtl_poll_rx`: more calls, or the card writes more packets. -/
inductive LaterEvent
  | foreground
  | irq (isr : UInt16)
  | device (memory : Nat → UInt8) (cbr : Nat)

def laterStep (s : Receive) : LaterEvent → Option Receive
  | .foreground => rtlPollRx s
  | .irq isr => netHandleIrq s isr
  | .device memory cbr => some { s with card := { s.card with memory, cbr } }

/-- The card does not write over the length of a descriptor that has not been read, nor take packets back. -/
def LeavesUnread (s : Receive) : LaterEvent → Prop
  | .device memory cbr =>
      le16Load memory (s.readOffset.toNat + 2) = s.headerLength ∧ ¬{ s.card with memory, cbr }.bufferEmpty
  | _ => True

/-- `t` is where `s` was: nothing has been read or handed on. -/
structure Wedged (s t : Receive) : Prop where
  ready : t.net.rtlReady
  waiting : ¬t.card.bufferEmpty
  header : t.headerLength = s.headerLength
  offset : t.readOffset = s.readOffset
  capr : t.card.capr = s.card.capr
  handed : t.handed = s.handed

theorem laterStep_wedged {s t : Receive} (rejected : ¬HeaderAccepted s) {event : LaterEvent} (wedged : Wedged s t)
    (unread : LeavesUnread t event) : ∃ u, laterStep t event = some u ∧ Wedged s u := by
  have rejected' : ¬HeaderAccepted t := by
    rw [HeaderAccepted, wedged.header]
    exact rejected
  have dropped := rtlPollRx_rejected wedged.ready wedged.waiting rejected'
  have after : Wedged s { t with rxDropped := t.rxDropped + 1 } :=
    ⟨wedged.ready, wedged.waiting, wedged.header, wedged.offset, wedged.capr, wedged.handed⟩
  cases event with
  | foreground => exact ⟨_, dropped, after⟩
  | irq isr =>
      simp only [laterStep, netHandleIrq]
      split_ifs
      · exact ⟨t, rfl, wedged⟩
      · exact ⟨_, dropped, after⟩
      · exact ⟨t, rfl, wedged⟩
      · exact ⟨t, rfl, wedged⟩
  | device memory cbr =>
      refine ⟨_, rfl, wedged.ready, unread.2, ?_, wedged.offset, wedged.capr, wedged.handed⟩
      exact unread.1.trans wedged.header

/-- A call that finds the ring not empty passes a descriptor exactly if the length at the read offset is accepted. If it is
not, then nothing is handed on by any later call either, whatever packets come after. -/
theorem poll_advances_iff_length_accepted (s : Receive) (ready : s.net.rtlReady) (waiting : ¬s.card.bufferEmpty) :
    ((∃ t, rtlPollRx s = some t) ∧ 0 < descriptorsPassed (1 + 3 * 65) s .idle ↔
      4 ≤ s.headerLength.toNat ∧ s.headerLength.toNat ≤ 1792) ∧
    (¬(4 ≤ s.headerLength.toNat ∧ s.headerLength.toNat ≤ 1792) → ∀ events, Along laterStep LeavesUnread s events →
      ∃ t, run laterStep s events = some t ∧ t.readOffset = s.readOffset ∧ t.card.capr = s.card.capr ∧
        t.handed = s.handed) := by
  have accepted_iff : HeaderAccepted s ↔ 4 ≤ s.headerLength.toNat ∧ s.headerLength.toNat ≤ 1792 := headerAccepted_iff s
  rw [← accepted_iff]
  refine ⟨⟨?_, ?_⟩, ?_⟩
  · rintro ⟨-, passed⟩
    by_contra rejected
    exact absurd (descriptorsPassed_rejected ready waiting rejected 194) (Nat.ne_of_gt passed)
  · intro accepted
    exact ⟨rtlPollRx_isSome s, descriptorsPassed_accepted ready waiting accepted 192⟩
  · intro rejected events unread
    have start : Wedged s s := ⟨ready, waiting, rfl, rfl, rfl, rfl⟩
    obtain ⟨t, reaches, wedged⟩ := unread.run_isSome
      (fun _ _ wedged quiet => laterStep_wedged rejected wedged quiet) start
    exact ⟨t, reaches, wedged.offset, wedged.capr, wedged.handed⟩

-- A ring of zeros that the card reports as not empty.
def zeroRing : Receive := { net := { rtlReady := true }, card := { memory := fun _ => 0, cbr := 64 } }

theorem poll_advances_iff_length_accepted_sample :
    (∃ t, rtlPollRx { zeroRing with card.memory := everywhere 0 64 } = some t) ∧
      0 < descriptorsPassed (1 + 3 * 65) { zeroRing with card.memory := everywhere 0 64 } .idle :=
  (poll_advances_iff_length_accepted { zeroRing with card.memory := everywhere 0 64 } rfl (by decide)).1.mpr
    (by decide)

/-- However often it is polled again, and with a valid packet behind the zeros: the offset does not move and nothing is
handed on. -/
theorem zero_length_wedges_reception :
    ¬zeroRing.card.bufferEmpty ∧ descriptorsPassed (1 + 3 * 65) zeroRing .idle = 0 ∧
      ∀ n, ∃ t, run laterStep zeroRing
          (.device (store cardAddresses (fun _ => 0) 64 quietPacket.bytes) 132 ::
            (List.replicate n .foreground ++ List.replicate n (.irq isrRok))) = some t ∧
        t.readOffset = 0 ∧ t.handed = [] := by
  have rejected : ¬HeaderAccepted zeroRing := by decide
  refine ⟨by decide, by decide, fun n => ?_⟩
  have unread : Along laterStep LeavesUnread zeroRing
      (.device (store cardAddresses (fun _ => 0) 64 quietPacket.bytes) 132 ::
        (List.replicate n .foreground ++ List.replicate n (.irq isrRok))) := by
    refine ⟨⟨by decide +kernel, by decide⟩, fun t _ => along_of_forall ?_ t⟩
    intro call member u
    rcases List.mem_append.mp member with fore | irq
    · cases List.eq_of_mem_replicate fore
      trivial
    · cases List.eq_of_mem_replicate irq
      trivial
  have start : Wedged zeroRing zeroRing := ⟨rfl, by decide, rfl, rfl, rfl, rfl⟩
  obtain ⟨t, reaches, wedged⟩ := unread.run_isSome
    (fun _ _ wedged quiet => laterStep_wedged rejected wedged quiet) start
  exact ⟨t, reaches, wedged.offset, wedged.handed⟩

end Mgcore
