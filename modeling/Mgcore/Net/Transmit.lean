import Mgcore.Lib.Memory
import Mgcore.Lib.Run
import Mgcore.Net.Udp

/-!
# The transmit buffers

`rtl_send_raw_frame` with its four buffers, and the card that reads them. The code fills the buffer of one descriptor,
starts it, and goes on after a wait that may end early; the card takes the descriptors that were started in order and reads
each buffer only when its turn comes. As long as at most three earlier frames are still in the card, what goes over the
cable is what the other modules record in `wire`.
-/

namespace Mgcore

open Lib

/-- `tsad` and `tsd` are the registers of the descriptors, an address being the number of a buffer; `started` holds the
descriptors that the card has not sent yet. -/
structure Transmitter where
  rtlReady : Bool
  txIndex : UInt8 := 0
  txFrames : UInt64 := 0
  buffers : Nat → Nat → UInt8
  tsad : Nat → Nat
  tsd : Nat → Nat
  started : List Nat := []
  cable : List (List UInt8) := []

/-- The body of `rtl_send_raw_frame`. The loop that waits for the card changes nothing here and gives up after 100000 reads
of the status, so nothing is known of `started` after it. -/
def rtlSendRawFrameBuffered (t : Transmitter) (frame : List UInt8) : Int × Transmitter :=
  if ¬t.rtlReady ∨ frame.length = 0 ∨ txBufferSize < frame.length then (-1, t)
  else
    let sendLength := if frame.length < 60 then 60 else frame.length
    let index := t.txIndex.toNat
    let cleared := store wordSize (t.buffers index) 0 (List.replicate sendLength 0)
    let filled := store wordSize cleared 0 frame
    (0, { t with
      buffers := Function.update t.buffers index filled
      tsad := Function.update t.tsad index index
      tsd := Function.update t.tsd index sendLength
      started := t.started ++ [index]
      txIndex := (t.txIndex + 1) % txDescCount
      txFrames := t.txFrames + 1 })

/-- The card sends the oldest frame that was started. -/
def cardSends (t : Transmitter) : Transmitter :=
  match t.started with
  | [] => t
  | d :: later => { t with started := later, cable := t.cable ++ [(List.range (t.tsd d)).map (t.buffers (t.tsad d))] }

/-! ## The frames in the card -/

def descriptors (first n : Nat) : List Nat := (List.range n).map fun k => (first + k) % 4

theorem descriptors_succ (first n : Nat) : descriptors first (n + 1) = first % 4 :: descriptors ((first + 1) % 4) n := by
  rw [descriptors, List.range_succ_eq_map, List.map_cons, List.map_map, Nat.add_zero, descriptors]
  congr 1
  apply List.map_congr_left
  intro k _
  simp only [Function.comp_apply]
  omega

theorem descriptors_snoc (first n : Nat) : descriptors first (n + 1) = descriptors first n ++ [(first + n) % 4] := by
  simp [descriptors, List.range_succ]

/-- Descriptor `d` would send `frame` now. -/
structure Loaded (t : Transmitter) (d : Nat) (frame : List UInt8) : Prop where
  address : t.tsad d = d
  length : t.tsd d = frame.length
  bytes : ∀ i (h : i < frame.length), t.buffers d i = frame[i]

structure InCard (t : Transmitter) (first : Nat) (queue : List (List UInt8)) : Prop where
  inside : first < 4
  few : queue.length ≤ 4
  started : t.started = descriptors first queue.length
  index : t.txIndex.toNat = (first + queue.length) % 4
  loaded : ∀ k (h : k < queue.length), Loaded t ((first + k) % 4) queue[k]

theorem Loaded.sends {t : Transmitter} {d : Nat} {frame : List UInt8} (loaded : Loaded t d frame) :
    (List.range (t.tsd d)).map (t.buffers (t.tsad d)) = frame := by
  rw [loaded.address, loaded.length]
  apply List.ext_getElem (by simp)
  intro i h h'
  simpa using loaded.bytes i h'

theorem InCard.sends {t : Transmitter} {first : Nat} {frame : List UInt8} {queue : List (List UInt8)}
    (card : InCard t first (frame :: queue)) :
    InCard (cardSends t) ((first + 1) % 4) queue ∧ (cardSends t).cable = t.cable ++ [frame] ∧
      (cardSends t).rtlReady = t.rtlReady ∧ (cardSends t).txFrames = t.txFrames ∧ (cardSends t).txIndex = t.txIndex := by
  have inside := card.inside
  have few := card.few
  have started : t.started = first :: descriptors ((first + 1) % 4) queue.length := by
    rw [card.started, List.length_cons, descriptors_succ, Nat.mod_eq_of_lt inside]
  have head : Loaded t first frame := by
    have loaded := card.loaded 0 (Nat.succ_pos _)
    rwa [Nat.add_zero, Nat.mod_eq_of_lt inside] at loaded
  rw [List.length_cons] at few
  have sends : cardSends t = { t with started := descriptors ((first + 1) % 4) queue.length, cable := t.cable ++ [frame] } := by
    rw [cardSends, started]
    dsimp only
    rw [head.sends]
  rw [sends]
  refine ⟨⟨Nat.mod_lt _ (by decide), by omega, rfl, ?_, fun k h => ?_⟩, rfl, rfl, rfl, rfl⟩
  · show t.txIndex.toNat = _
    rw [card.index, List.length_cons]
    omega
  · have loaded := card.loaded (k + 1) (Nat.succ_lt_succ h)
    rw [show (first + (k + 1)) % 4 = ((first + 1) % 4 + k) % 4 by omega] at loaded
    exact ⟨loaded.address, loaded.length, loaded.bytes⟩

theorem padded_length (frame : List UInt8) :
    (padded frame).length = if frame.length < 60 then 60 else frame.length := by
  rw [padded, List.length_append, List.length_replicate]
  split_ifs <;> omega

/-- Clearing first and copying then leaves the padding zero, whatever the buffer held. -/
theorem stored_padded (buffer : Nat → UInt8) {frame : List UInt8} (fits : frame.length ≤ txBufferSize) :
    ∀ i (h : i < (padded frame).length),
      store wordSize (store wordSize buffer 0 (List.replicate (padded frame).length 0)) 0 frame i = (padded frame)[i] := by
  intro i h
  have size : (padded frame).length = if frame.length < 60 then 60 else frame.length := padded_length frame
  have small : (padded frame).length ≤ 2048 := by
    unfold txBufferSize at fits
    rw [size]
    split_ifs <;> omega
  unfold txBufferSize at fits
  have wide : 2048 ≤ wordSize := by decide
  by_cases copied : i < frame.length
  · have inside : store wordSize (store wordSize buffer 0 (List.replicate (padded frame).length 0)) 0 frame (0 + i) =
        frame[i] := store_inside (by omega) copied
    rw [Nat.zero_add] at inside
    rw [inside]
    exact (List.getElem_append_left copied).symm
  · rw [store_of_ge (by omega) (by omega)]
    have inside : i < (List.replicate (padded frame).length (0 : UInt8)).length := by simpa using h
    have cleared : store wordSize buffer 0 (List.replicate (padded frame).length 0) (0 + i) = _ :=
      store_inside (by simp only [List.length_replicate]; omega) inside
    rw [Nat.zero_add] at cleared
    rw [cleared, List.getElem_replicate]
    simp only [padded]
    rw [List.getElem_append_right (by omega), List.getElem_replicate]

theorem InCard.send {t : Transmitter} {first : Nat} {queue : List (List UInt8)} (card : InCard t first queue)
    (room : queue.length < 4) {frame : List UInt8} (ready : t.rtlReady) (filled : frame.length ≠ 0)
    (fits : frame.length ≤ txBufferSize) :
    InCard (rtlSendRawFrameBuffered t frame).2 first (queue ++ [padded frame]) ∧ (rtlSendRawFrameBuffered t frame).1 = 0 ∧
      (rtlSendRawFrameBuffered t frame).2.cable = t.cable ∧ (rtlSendRawFrameBuffered t frame).2.rtlReady = t.rtlReady ∧
      (rtlSendRawFrameBuffered t frame).2.txIndex = (t.txIndex + 1) % txDescCount ∧
      (rtlSendRawFrameBuffered t frame).2.txFrames = t.txFrames + 1 := by
  have inside := card.inside
  have accepted : ¬(¬t.rtlReady ∨ frame.length = 0 ∨ txBufferSize < frame.length) := by
    simp only [ready, not_true_eq_false, false_or, not_or, Nat.not_lt]
    exact ⟨filled, fits⟩
  rw [rtlSendRawFrameBuffered, if_neg accepted, ← padded_length]
  dsimp only
  rw [card.index]
  refine ⟨⟨inside, by simp; omega, ?_, ?_, fun k h => ?_⟩, rfl, rfl, rfl, rfl, rfl⟩
  · show t.started ++ [(first + queue.length) % 4] = _
    rw [card.started, List.length_append, List.length_singleton, descriptors_snoc]
  · show ((t.txIndex + 1) % txDescCount).toNat = _
    have below : t.txIndex.toNat < 4 := by rw [card.index]; exact Nat.mod_lt _ (by decide)
    rw [UInt8.toNat_mod, UInt8.toNat_add, List.length_append, List.length_singleton]
    show (t.txIndex.toNat + 1) % 2 ^ 8 % 4 = _
    rw [card.index]
    omega
  · rw [List.length_append, List.length_singleton] at h
    by_cases last : k = queue.length
    · subst last
      rw [List.getElem_append_right (Nat.le_refl _)]
      simp only [Nat.sub_self, List.getElem_cons_zero]
      exact ⟨Function.update_self .., Function.update_self .., by
        simpa only [Function.update_self] using stored_padded _ fits⟩
    · have earlier : k < queue.length := by omega
      have apart : (first + k) % 4 ≠ (first + queue.length) % 4 := by omega
      have loaded := card.loaded k earlier
      rw [List.getElem_append_left earlier]
      exact ⟨(Function.update_of_ne apart ..).trans loaded.address, (Function.update_of_ne apart ..).trans loaded.length,
        fun i h => by
          show Function.update t.buffers _ _ ((first + k) % 4) i = _
          rw [Function.update_of_ne apart]
          exact loaded.bytes i h⟩

/-! ## Runs of the code and the card -/

inductive CableOp
  | send (frame : List UInt8)
  | complete

def cableStep (t : Transmitter) : CableOp → Option Int × Transmitter
  | .send frame => (some (rtlSendRawFrameBuffered t frame).1, (rtlSendRawFrameBuffered t frame).2)
  | .complete => (none, cardSends t)

/-- The same calls where a frame counts as sent when the call returns. -/
def wireStep (net : Net) : CableOp → Option Int × Net
  | .send frame => (some (rtlSendRawFrame net frame).1, (rtlSendRawFrame net frame).2)
  | .complete => (none, net)

def Unhurried (t : Transmitter) : CableOp → Prop
  | .send _ => t.started.length < 4
  | .complete => True

def UnhurriedRun (t : Transmitter) (ops : List CableOp) : Prop :=
  Guarded cableStep (fun (_ : Unit) _ => ()) (fun _ t op => Unhurried t op) () t ops

/-- `before` was on the record when the card was last idle. -/
structure Carries (before : List Wire) (t : Transmitter) (net : Net) : Prop where
  ready : t.rtlReady = net.rtlReady
  index : t.txIndex = net.txIndex
  counted : t.txFrames = net.txFrames
  waiting : ∃ first queue, InCard t first queue ∧ net.wire = before ++ (t.cable ++ queue).map .sent

theorem Carries.complete {before : List Wire} {t : Transmitter} {net : Net} (carries : Carries before t net) :
    Carries before (cardSends t) net := by
  obtain ⟨first, queue, card, record⟩ := carries.waiting
  cases queue with
  | nil =>
      have idle : cardSends t = t := by
        rw [cardSends, card.started]
        rfl
      rw [idle]
      exact carries
  | cons frame queue =>
      obtain ⟨later, cable, ready, counted, index⟩ := card.sends
      exact ⟨ready.trans carries.ready, index.trans carries.index, counted.trans carries.counted, _, queue, later, by
        rw [record, cable, List.append_assoc, List.singleton_append]⟩

theorem Carries.send {before : List Wire} {t : Transmitter} {net : Net} (carries : Carries before t net)
    (room : t.started.length < 4) (frame : List UInt8) :
    (rtlSendRawFrameBuffered t frame).1 = (rtlSendRawFrame net frame).1 ∧
      Carries before (rtlSendRawFrameBuffered t frame).2 (rtlSendRawFrame net frame).2 := by
  by_cases refused : ¬t.rtlReady ∨ frame.length = 0 ∨ txBufferSize < frame.length
  · rw [rtlSendRawFrameBuffered, if_pos refused, rtlSendRawFrame, if_pos (carries.ready ▸ refused)]
    exact ⟨rfl, carries⟩
  · have accepted := refused
    rw [not_or, not_or, not_not, Nat.not_lt] at accepted
    obtain ⟨ready, filled, fits⟩ := accepted
    obtain ⟨first, queue, card, record⟩ := carries.waiting
    have few : queue.length < 4 := by
      rw [card.started] at room
      simpa [descriptors] using room
    obtain ⟨queued, answer, cable, kept, index, counted⟩ := card.send few ready filled fits
    rw [rtlSendRawFrame, if_neg (carries.ready ▸ refused)]
    refine ⟨answer, kept.trans carries.ready, ?_, ?_, first, _, queued, ?_⟩
    · rw [index, carries.index]
    · rw [counted, carries.counted]
    · show net.wire ++ [.sent (padded frame)] = _
      rw [record, cable]
      simp only [List.map_append, List.append_assoc, List.map_cons, List.map_nil]

theorem Carries.step {before : List Wire} {t : Transmitter} {net : Net} (op : CableOp) (carries : Carries before t net)
    (unhurried : Unhurried t op) :
    (cableStep t op).1 = (wireStep net op).1 ∧ Carries before (cableStep t op).2 (wireStep net op).2 := by
  cases op with
  | send frame =>
      obtain ⟨answer, later⟩ := carries.send unhurried frame
      exact ⟨congrArg some answer, later⟩
  | complete => exact ⟨rfl, carries.complete⟩

theorem carries_idle {t : Transmitter} {net : Net} (idle : t.started = []) (quiet : t.cable = []) (inside : t.txIndex < 4)
    (ready : t.rtlReady = net.rtlReady) (index : t.txIndex = net.txIndex) (counted : t.txFrames = net.txFrames) :
    Carries net.wire t net := by
  refine ⟨ready, index, counted, t.txIndex.toNat, [], ⟨inside, Nat.zero_le _, idle, ?_, ?_⟩, ?_⟩
  · exact (Nat.mod_eq_of_lt inside).symm
  · intro k h
    exact absurd h (Nat.not_lt_zero k)
  · rw [quiet]
    exact (List.append_nil _).symm

/-- Whatever the buffers hold, and in whatever order calls and transmissions come as long as a call finds one of the four
buffers out of the card: every call answers as the record says, and the record is what went over the cable followed by what
the card still has to send. -/
theorem cable_carries_wire {t : Transmitter} {net : Net} (idle : t.started = []) (quiet : t.cable = [])
    (inside : t.txIndex < 4) (ready : t.rtlReady = net.rtlReady) (index : t.txIndex = net.txIndex)
    (counted : t.txFrames = net.txFrames) {ops : List CableOp} (unhurried : UnhurriedRun t ops) :
    (trace cableStep t ops).1 = (trace wireStep net ops).1 ∧
      (trace cableStep t ops).2.txIndex = (trace wireStep net ops).2.txIndex ∧
      (trace cableStep t ops).2.txFrames = (trace wireStep net ops).2.txFrames ∧
      ∃ queue, queue.length = (trace cableStep t ops).2.started.length ∧
        (trace wireStep net ops).2.wire = net.wire ++ ((trace cableStep t ops).2.cable ++ queue).map .sent := by
  have keeps : ∀ (_ : Unit) (t' : Transmitter) (net' : Net) (op : CableOp), Carries net.wire t' net' → Unhurried t' op →
      (cableStep t' op).1 = (wireStep net' op).1 ∧ Carries net.wire (cableStep t' op).2 (wireStep net' op).2 :=
    fun _ _ _ op related ok => related.step op ok
  obtain ⟨answers, -, carries⟩ :=
    trace_simulates keeps (carries_idle idle quiet inside ready index counted) unhurried
  obtain ⟨first, queue, card, record⟩ := carries.waiting
  refine ⟨answers, carries.index, carries.counted, queue, ?_, record⟩
  rw [card.started]
  simp [descriptors]

/-- Buffers that still hold sevens. -/
def staleTransmitter : Transmitter :=
  { rtlReady := true, txIndex := 3, buffers := fun _ _ => 7, tsad := fun _ => 0, tsd := fun _ => 0 }

theorem cable_carries_wire_stale :
    ∃ queue, queue.length = 1 ∧
      (trace wireStep { rtlReady := true, txIndex := 3 } [.send [1], .send [], .complete, .send [2, 3]]).2.wire =
        ([padded [1]] ++ queue).map .sent := by
  have unhurried : UnhurriedRun staleTransmitter [.send [1], .send [], .complete, .send [2, 3]] :=
    ⟨(by decide : 0 < 4), (by decide : 1 < 4), trivial, (by decide : 0 < 4), trivial⟩
  obtain ⟨-, -, -, queue, few, record⟩ :=
    @cable_carries_wire staleTransmitter { rtlReady := true, txIndex := 3 } rfl rfl (by decide) rfl rfl rfl _ unhurried
  have sent : (trace cableStep staleTransmitter [.send [1], .send [], .complete, .send [2, 3]]).2.cable = [padded [1]] := by
    decide
  rw [sent] at record
  exact ⟨queue, few, record⟩

end Mgcore
