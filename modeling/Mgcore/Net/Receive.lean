import Mgcore.Lib.Ring
import Mgcore.Lib.Run
import Mgcore.Net.Bounds

/-!
# Receiving

`rtl_poll_rx` and `net_handle_irq` of `src/kernel/net.c`. The routine is cut into the steps between which an
interrupt may come: it finds a packet and reads its header, handles the frame, and moves on. Its local variables
are in the `PollPoint`, so that the foreground and the interrupt each have their own.

The card is outside the driver. `Card` has the two registers that the routine uses and the memory that the
card writes, counted from `g_rx_buffer`. With the `WRAP` bit that `rtl_hw_init` sets, a packet near the end of the
ring is written on past it in one piece. `placed` and `handed` are the packets that the card has put into
the ring and the frames that `net_process_frame` was given; the code does not read them.
-/

namespace Mgcore

open Lib

def rxRingSize : Nat := 8192

def cardAddresses : Nat := 2 ^ 32

def maxRxLength : UInt16 := 1792

def rxStatusOk : UInt16 := 0x0001

def isrRok : UInt16 := 0x0001
def isrRer : UInt16 := 0x0002
def isrRxovw : UInt16 := 0x0010
def isrFifoovw : UInt16 := 0x0040
def isrLenchg : UInt16 := 0x2000

/-! ## The card -/

def le16Store (value : UInt16) : List UInt8 := [value.toUInt8, (value >>> 8).toUInt8]

/-- A packet that was received without an error, as the card describes it: the length counts the checksum. -/
structure Packet where
  status : UInt16
  frame : List UInt8
  crc : List.Vector UInt8 4
  ok : status &&& rxStatusOk ≠ 0
  short : frame.length + 4 ≤ maxRxLength.toNat

def Packet.length (p : Packet) : UInt16 := UInt16.ofNat (p.frame.length + 4)

def Packet.bytes (p : Packet) : List UInt8 :=
  le16Store p.status ++ le16Store p.length ++ p.frame ++ p.crc.toList

/-- The room a packet takes: its header, its bytes and the gap up to the next multiple of four. -/
def Packet.space (p : Packet) : Nat := (4 + (p.frame.length + 4) + 3) / 4 * 4

structure Card where
  memory : Nat → UInt8
  capr : UInt16 := 0xFFF0
  cbr : Nat := 0

-- The driver keeps `CAPR` 16 bytes behind what it has read.
def Card.readPointer (card : Card) : Nat := (card.capr.toNat + 16) % rxRingSize

def Card.bufferEmpty (card : Card) : Bool := card.readPointer = card.cbr  -- `RTL_CR_BUFE`

def Card.used (card : Card) : Nat := (card.cbr + rxRingSize - card.readPointer) % rxRingSize

def Card.place (card : Card) (p : Packet) : Card :=
  { card with
    memory := store cardAddresses card.memory card.cbr p.bytes
    cbr := (card.cbr + p.space) % rxRingSize }

/-! ## The driver -/

structure Receive where
  net : Net
  card : Card
  readOffset : UInt16 := 0
  rxFrames : UInt64 := 0
  rxDropped : UInt64 := 0
  placed : List Packet := []
  handed : List (List UInt8) := []

/-- Where an activation of `rtl_poll_rx` is; `idle` is outside the routine. -/
inductive PollPoint
  | idle
  | test (processed : Nat)
  | process (processed : Nat) (packet : Nat) (status length : UInt16)
  | advance (processed : Nat) (length : UInt16)
  deriving DecidableEq

def le16Load (memory : Nat → UInt8) (i : Nat) : UInt16 :=
  (memory i).toUInt16 ||| ((memory (i + 1)).toUInt16 <<< 8)

def advanceOffset (offset length : UInt16) : UInt16 :=
  ((offset.toUInt32 + length.toUInt32 + 4 + 3) &&& ~~~3).toUInt16 % 8192

def pollStep (s : Receive) : PollPoint → Option (Receive × PollPoint)
  | .idle => if ¬s.net.rtlReady then some (s, .idle) else some (s, .test 0)
  | .test processed =>
      if s.card.bufferEmpty then some (s, .idle)
      else
        let packet := s.readOffset.toNat
        let status := le16Load s.card.memory packet
        let length := le16Load s.card.memory (packet + 2)
        if length < 4 ∨ maxRxLength < length then some ({ s with rxDropped := s.rxDropped + 1 }, .idle)
        else some (s, .process processed packet status length)
  | .process processed packet status length =>
      if status &&& rxStatusOk ≠ 0 then do
        let frame := load cardAddresses s.card.memory (packet + 4) (length.toNat - 4)
        let net ← netProcessFrame s.net frame frame.length
        some ({ s with net := net, rxFrames := s.rxFrames + 1, handed := s.handed ++ [frame] },
          .advance processed length)
      else some ({ s with rxDropped := s.rxDropped + 1 }, .advance processed length)
  | .advance processed length =>
      let offset := advanceOffset s.readOffset length
      let capr := ((offset.toUInt32 - 16) &&& 0x1FFF).toUInt16
      some ({ s with readOffset := offset, card := { s.card with capr := capr } },
        if 64 < processed + 1 then .idle else .test (processed + 1))

def pollRun : Nat → Receive → PollPoint → Option Receive
  | 0, _, _ => none
  | fuel + 1, s, point => do
      let (s', point') ← pollStep s point
      if point' = .idle then some s' else pollRun fuel s' point'

/-- At most 65 packets, of three steps each. -/
def rtlPollRx (s : Receive) : Option Receive := pollRun (1 + 3 * 65) s .idle

def ReceiveIrq (isr : UInt16) : Prop :=
  isr &&& (isrRok ||| isrRer ||| isrRxovw ||| isrFifoovw ||| isrLenchg) ≠ 0

instance (isr : UInt16) : Decidable (ReceiveIrq isr) := inferInstanceAs (Decidable (_ ≠ _))

/-- `isr` is what the card answers when its `ISR` is read. -/
def netHandleIrq (s : Receive) (isr : UInt16) : Option Receive :=
  if ¬s.net.rtlReady then some s
  else if isr = 0 then some s
  else if ReceiveIrq isr then rtlPollRx s
  else some s

/-! ## The system -/

structure System where
  rx : Receive
  fore : PollPoint := .idle

inductive RxEvent
  | arrive (p : Packet)
  | foreground
  | irq (isr : UInt16)

def receivePacket (s : Receive) (p : Packet) : Receive :=
  -- the card loses a packet that does not fit
  if s.card.used + p.space < rxRingSize then { s with card := s.card.place p, placed := s.placed ++ [p] } else s

def systemStep (s : System) : RxEvent → Option System
  | .arrive p => some { s with rx := receivePacket s.rx p }
  | .foreground => do
      let (rx, fore) ← pollStep s.rx s.fore
      some { rx, fore }
  | .irq isr => do
      let rx ← netHandleIrq s.rx isr
      some { s with rx }

/-- What `rtl_hw_init` leaves. -/
def afterInit (net : Net) (memory : Nat → UInt8) : System := { rx := { net, card := { memory } } }

end Mgcore
