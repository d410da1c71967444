import Mgcore.Net.Model
import Mathlib.Algebra.Group.Nat.Even

/-!
# Finding the network card

`net_init` reads the configuration space of the bus for network cards and brings up the first RTL8139 that comes out of its
reset. The configuration space is a function of the address that is written to the address port; what the card registers
read as is given by `EthernetCard`.
-/

namespace Mgcore

/-! ## The scan -/

def maxAdapters : Nat := 8  -- `NET_MAX_ADAPTERS`
def rtl8139VendorId : UInt16 := 0x10EC
def rtl8139DeviceId : UInt16 := 0x8139
def rtlRegConfig1 : UInt16 := 0x52
def rtlRegCr : UInt16 := 0x37
def rtlRegRbstart : UInt16 := 0x30
def rtlRegImr : UInt16 := 0x3C
def rtlRegIsr : UInt16 := 0x3E
def rtlRegRcr : UInt16 := 0x44
def rtlRegTcr : UInt16 := 0x40
def rtlRegCapr : UInt16 := 0x38
def rtlRegIdr0 : UInt16 := 0x00

def pciAddress (bus slot func offset : UInt8) : UInt32 :=
  ((1 : UInt32) <<< 31) ||| (bus.toUInt32 <<< 16) ||| (slot.toUInt32 <<< 11) ||| (func.toUInt32 <<< 8) |||
    (offset &&& 0xFC).toUInt32

structure NetAdapter where
  bus : UInt8
  slot : UInt8
  func : UInt8
  vendorId : UInt16
  deviceId : UInt16
  bar0 : UInt32
  irqLine : UInt8
  bound : Bool := false
  deriving DecidableEq

/-- What the registers of the cards read as: the command register at each reading after a reset, and the station address. -/
structure EthernetCard where
  cr : UInt16 → Nat → UInt8
  idr : UInt16 → UInt8

/-- The variables of the driver that the scan sets; `outs` lists what is written to registers of cards. -/
structure Scan where
  config : UInt32 → UInt32
  adapters : List NetAdapter := []
  ioBase : UInt16 := 0
  irqLine : UInt8 := 0
  mac : Mac := zeroMac
  readOffset : UInt16 := 0
  txIndex : UInt8 := 0
  ready : Bool := false
  outs : List (UInt16 × UInt32) := []

def pciConfigRead32 (config : UInt32 → UInt32) (bus slot func offset : UInt8) : UInt32 :=
  config (pciAddress bus slot func offset)

def pciConfigWrite32 (config : UInt32 → UInt32) (bus slot func offset : UInt8) (value : UInt32) : UInt32 → UInt32 :=
  Function.update config (pciAddress bus slot func offset) value

def resetLoop (cr : Nat → UInt8) : Nat → Nat → Bool
  | 0, _ => false
  | spins + 1, spin => if cr spin &&& 0x10 = 0 then true else resetLoop cr spins (spin + 1)

def rtlWaitForResetClear (card : EthernetCard) (ioBase : UInt16) : Bool := resetLoop (card.cr (ioBase + rtlRegCr)) 1000000 0

def NetAdapter.ioBase (a : NetAdapter) : UInt16 := (a.bar0 &&& ~~~3).toUInt16

def cardMac (card : EthernetCard) (ioBase : UInt16) : Mac :=
  ⟨(List.range 6).map fun i => card.idr (ioBase + rtlRegIdr0 + UInt16.ofNat i), by simp⟩

/-- The writes of `rtl_hw_init` behind the reset. -/
def rtlSetup (rxBuffer : UInt32) (ioBase : UInt16) : List (UInt16 × UInt32) :=
  [(ioBase + rtlRegRbstart, rxBuffer),
   (ioBase + rtlRegImr, 0x0001 ||| 0x0002 ||| 0x0004 ||| 0x0008 ||| 0x0010 ||| 0x0040 ||| 0x2000 ||| 0x8000),
   (ioBase + rtlRegIsr, 0xFFFF),
   (ioBase + rtlRegRcr, 0x80 ||| 0x08 ||| 0x04 ||| 0x02 ||| 0x01 ||| 0xE000),
   (ioBase + rtlRegTcr, 0x03000700),
   (ioBase + rtlRegCapr, 0xFFF0),
   (ioBase + rtlRegCr, 0x08 ||| 0x04)]

def rtlReset (ioBase : UInt16) : List (UInt16 × UInt32) := [(ioBase + rtlRegConfig1, 0x00), (ioBase + rtlRegCr, 0x10)]

/-- `rtl_hw_init` on a card that the scan has found. -/
def rtlHwInitCard (card : EthernetCard) (rxBuffer : UInt32) (s : Scan) (a : NetAdapter) : Bool × Scan :=
  let s := { s with ioBase := a.ioBase, irqLine := a.irqLine }
  if a.bar0 &&& 1 = 0 then (false, s)
  else
    let command := pciConfigRead32 s.config a.bus a.slot a.func 0x04 ||| 0x00000005
    let s := { s with
      config := pciConfigWrite32 s.config a.bus a.slot a.func 0x04 command
      outs := s.outs ++ rtlReset a.ioBase }
    if ¬rtlWaitForResetClear card a.ioBase then (false, s)
    else
      (true, { s with
        readOffset := 0
        mac := cardMac card a.ioBase
        txIndex := 0
        ready := true
        outs := s.outs ++ rtlSetup rxBuffer a.ioBase })

def netInitFunction (card : EthernetCard) (rxBuffer : UInt32) (bus slot : UInt8) (s : Scan) (func : UInt8) : Scan :=
  let id := pciConfigRead32 s.config bus slot func 0x00
  let vendor := (id &&& 0xFFFF).toUInt16
  let device := ((id >>> 16) &&& 0xFFFF).toUInt16
  if vendor = 0xFFFF then s
  else
    let classReg := pciConfigRead32 s.config bus slot func 0x08
    let classCode := ((classReg >>> 24) &&& 0xFF).toUInt8
    let subclass := ((classReg >>> 16) &&& 0xFF).toUInt8
    if classCode ≠ 0x02 ∨ subclass ≠ 0x00 then s
    else if s.adapters.length < maxAdapters then
      let bar0 := pciConfigRead32 s.config bus slot func 0x10
      let irqReg := pciConfigRead32 s.config bus slot func 0x3C
      let adapter : NetAdapter :=
        { bus, slot, func, vendorId := vendor, deviceId := device, bar0, irqLine := (irqReg &&& 0xFF).toUInt8 }
      if ¬s.ready ∧ vendor = rtl8139VendorId ∧ device = rtl8139DeviceId then
        let (bound, s) := rtlHwInitCard card rxBuffer s adapter
        { s with adapters := s.adapters ++ [{ adapter with bound }] }
      else { s with adapters := s.adapters ++ [adapter] }
    else s

def netInitSlot (card : EthernetCard) (rxBuffer : UInt32) (bus : UInt8) (s : Scan) (slot : UInt8) : Scan :=
  let vendor0 := (pciConfigRead32 s.config bus slot 0 0x00 &&& 0xFFFF).toUInt16
  if vendor0 = 0xFFFF then s
  else
    let header := ((pciConfigRead32 s.config bus slot 0 0x0C >>> 16) &&& 0xFF).toUInt8
    let maxFunc := if header &&& 0x80 ≠ 0 then 8 else 1
    ((List.range maxFunc).map UInt8.ofNat).foldl (netInitFunction card rxBuffer bus slot) s

/-- The scan of `net_init`. -/
def netInitScan (card : EthernetCard) (rxBuffer : UInt32) (config : UInt32 → UInt32) : Scan :=
  ((List.range 256).map UInt8.ofNat).foldl
    (fun s bus => ((List.range 32).map UInt8.ofNat).foldl (netInitSlot card rxBuffer bus) s) { config }

/-! ## What there is on the bus -/

/-- A function of a device: bus, slot and function number. -/
abbrev Place := UInt8 × UInt8 × UInt8

/-- The functions of a slot that the scan asks for. -/
def functionsAt (config : UInt32 → UInt32) (bus slot : UInt8) : List UInt8 :=
  if (pciConfigRead32 config bus slot 0 0x00 &&& 0xFFFF).toUInt16 = 0xFFFF then []
  else
    let header := ((pciConfigRead32 config bus slot 0 0x0C >>> 16) &&& 0xFF).toUInt8
    (List.range (if header &&& 0x80 ≠ 0 then 8 else 1)).map UInt8.ofNat

def IsEthernet (config : UInt32 → UInt32) (p : Place) : Prop :=
  (pciConfigRead32 config p.1 p.2.1 p.2.2 0x00 &&& 0xFFFF).toUInt16 ≠ 0xFFFF ∧
    ((pciConfigRead32 config p.1 p.2.1 p.2.2 0x08 >>> 24) &&& 0xFF).toUInt8 = 0x02 ∧
    ((pciConfigRead32 config p.1 p.2.1 p.2.2 0x08 >>> 16) &&& 0xFF).toUInt8 = 0x00

instance (config : UInt32 → UInt32) (p : Place) : Decidable (IsEthernet config p) := inferInstanceAs (Decidable (_ ∧ _ ∧ _))

/-- All places in the order of the scan. -/
def placesAt (config : UInt32 → UInt32) (bus slot : UInt8) : List Place := (functionsAt config bus slot).map fun func => (bus, slot, func)

def places (config : UInt32 → UInt32) : List Place :=
  ((List.range 256).map UInt8.ofNat).flatMap fun bus => ((List.range 32).map UInt8.ofNat).flatMap (placesAt config bus)

def ethernetPlaces (config : UInt32 → UInt32) : List Place := (places config).filter (IsEthernet config ·)

def adapterAt (config : UInt32 → UInt32) (p : Place) : NetAdapter where
  bus := p.1
  slot := p.2.1
  func := p.2.2
  vendorId := (pciConfigRead32 config p.1 p.2.1 p.2.2 0x00 &&& 0xFFFF).toUInt16
  deviceId := ((pciConfigRead32 config p.1 p.2.1 p.2.2 0x00 >>> 16) &&& 0xFFFF).toUInt16
  bar0 := pciConfigRead32 config p.1 p.2.1 p.2.2 0x10
  irqLine := (pciConfigRead32 config p.1 p.2.1 p.2.2 0x3C &&& 0xFF).toUInt8

def NetAdapter.unbound (a : NetAdapter) : NetAdapter := { a with bound := false }

/-- The card has ports and comes out of its reset. -/
def Starts (card : EthernetCard) (a : NetAdapter) : Prop :=
  a.vendorId = rtl8139VendorId ∧ a.deviceId = rtl8139DeviceId ∧ a.bar0 &&& 1 ≠ 0 ∧ rtlWaitForResetClear card a.ioBase = true

instance (card : EthernetCard) (a : NetAdapter) : Decidable (Starts card a) := inferInstanceAs (Decidable (_ ∧ _ ∧ _ ∧ _))

/-- The driver of `a` is the driver of the machine. -/
structure Drives (card : EthernetCard) (s : Scan) (a : NetAdapter) : Prop where
  bound : a.bound = true
  ioBase : s.ioBase = a.ioBase
  irqLine : s.irqLine = a.irqLine
  mac : s.mac = cardMac card a.ioBase

/-- What the scan has done when it has seen the network cards in `seen`. -/
structure Scanned (config : UInt32 → UInt32) (card : EthernetCard) (seen : List Place) (s : Scan) : Prop where
  adapters : s.adapters.map NetAdapter.unbound = (seen.take maxAdapters).map (adapterAt config)
  bound : ∀ (i : Nat) a, s.adapters[i]? = some a →
    (a.bound = true ↔ Starts card a ∧ ∀ (j : Nat) b, j < i → s.adapters[j]? = some b → ¬Starts card b)
  ready : s.ready = true ↔ ∃ a ∈ s.adapters, Starts card a
  driven : s.ready = true → ∃ a ∈ s.adapters, Drives card s a
  written : ∀ address, s.config address = config address ∨
    ∃ a ∈ s.adapters, a.vendorId = rtl8139VendorId ∧ a.deviceId = rtl8139DeviceId ∧ address = pciAddress a.bus a.slot a.func 0x04

/-! ## Addresses -/

theorem shifted_low (x k : UInt32) (high : 8 ≤ k.toNat % 32) : (x <<< k).toNat % 2 ^ 8 = 0 := by
  rw [UInt32.toNat_shiftLeft, Nat.shiftLeft_eq, Nat.mod_mod_of_dvd _ (by decide : 2 ^ 8 ∣ 2 ^ 32)]
  exact Nat.mod_eq_zero_of_dvd (Nat.dvd_mul_left_of_dvd (Nat.pow_dvd_pow 2 high) _)

theorem pciAddress_low (bus slot func offset : UInt8) : pciAddress bus slot func offset &&& 0xFF = (offset &&& 0xFC).toUInt32 := by
  apply UInt32.toNat_inj.mp
  rw [pciAddress, UInt32.toNat_and, show (0xFF : UInt32).toNat = 2 ^ 8 - 1 from rfl, Nat.and_two_pow_sub_one_eq_mod]
  simp only [UInt32.toNat_or, Nat.or_mod_two_pow]
  rw [shifted_low _ _ (by decide), shifted_low _ _ (by decide), shifted_low _ _ (by decide), shifted_low _ _ (by decide)]
  simp only [Nat.zero_or, UInt8.toNat_toUInt32]
  exact Nat.mod_eq_of_lt (UInt8.toNat_lt _)

theorem pciAddress_ne {offset : UInt8} (other : offset &&& 0xFC ≠ 0x04) (bus slot func bus' slot' func' : UInt8) :
    pciAddress bus slot func offset ≠ pciAddress bus' slot' func' 0x04 := by
  intro same
  have low := congrArg (· &&& 0xFF) same
  simp only [pciAddress_low] at low
  apply other
  have eq := congrArg UInt32.toUInt8 low
  rwa [UInt8.toUInt8_toUInt32, UInt8.toUInt8_toUInt32] at eq

section
variable {config : UInt32 → UInt32} {card : EthernetCard} {seen : List Place} {s : Scan}

/-- The registers that the scan reads keep their values. -/
theorem Scanned.read (scanned : Scanned config card seen s) (offset : UInt8) (other : offset &&& 0xFC ≠ 0x04)
    (bus slot func : UInt8) : pciConfigRead32 s.config bus slot func offset = pciConfigRead32 config bus slot func offset := by
  rcases scanned.written (pciAddress bus slot func offset) with same | ⟨a, -, -, -, same⟩
  · exact same
  · exact absurd same (pciAddress_ne other _ _ _ _ _ _)

theorem scanned_start (config : UInt32 → UInt32) (card : EthernetCard) : Scanned config card [] { config } where
  adapters := rfl
  bound i a here := by cases here
  ready := by simp
  driven h := by cases h
  written _ := Or.inl rfl

/-- A card more: `t` is the scan behind it, and only a card that starts is driven. -/
theorem Scanned.add (scanned : Scanned config card seen s) (room : s.adapters.length < maxAdapters) {p : Place} {a : NetAdapter}
    {t : Scan} (found : a.unbound = adapterAt config p) (adapters : t.adapters = s.adapters ++ [a])
    (bound : a.bound = true ↔ Starts card a ∧ s.ready = false) (ready : t.ready = (s.ready || a.bound))
    (drives : a.bound = true → Drives card t a) (kept : s.ready = true → t.ioBase = s.ioBase ∧ t.irqLine = s.irqLine ∧ t.mac = s.mac)
    (written : ∀ address, t.config address = s.config address ∨
      a.vendorId = rtl8139VendorId ∧ a.deviceId = rtl8139DeviceId ∧ address = pciAddress a.bus a.slot a.func 0x04) :
    Scanned config card (seen ++ [p]) t := by
  have count : s.adapters.length = (seen.take maxAdapters).length := by
    have lengths := congrArg List.length scanned.adapters
    simpa using lengths
  have short : seen.length < maxAdapters := by
    rw [count, List.length_take] at room
    omega
  have idle : s.ready = false ↔ ∀ b ∈ s.adapters, ¬Starts card b := by
    rw [← Bool.not_eq_true, scanned.ready]
    push Not
    rfl
  refine ⟨?_, ?_, ?_, ?_, ?_⟩
  · rw [adapters, List.map_append, scanned.adapters, List.take_of_length_le (Nat.le_of_lt short),
      List.take_of_length_le (by rw [List.length_append, List.length_singleton]; exact short), List.map_append, List.map_singleton, List.map_singleton, found]
  · intro i b here
    rw [adapters] at here ⊢
    rcases Nat.lt_or_ge i s.adapters.length with early | late
    · rw [List.getElem?_append_left early] at here
      rw [scanned.bound i b here]
      refine and_congr_right fun _ => forall_congr' fun j => forall_congr' fun c => imp_congr_right fun less => ?_
      rw [List.getElem?_append_left (Nat.lt_trans less early)]
    · rw [List.getElem?_append_right late] at here
      have last : i = s.adapters.length := by
        by_contra other
        rw [List.getElem?_eq_none (by simp only [List.length_singleton]; omega)] at here
        cases here
      subst last
      rw [Nat.sub_self] at here
      cases here
      rw [bound, idle]
      refine and_congr_right fun _ => ⟨fun none j b less other => ?_, fun none b member => ?_⟩
      · rw [List.getElem?_append_left less] at other
        exact none b (List.mem_of_getElem? other)
      · obtain ⟨j, other⟩ := List.getElem?_of_mem member
        have less : j < s.adapters.length := (List.getElem?_eq_some_iff.mp other).1
        exact none j b less (by rw [List.getElem?_append_left less]; exact other)
  · rw [ready, adapters, Bool.or_eq_true, scanned.ready]
    constructor
    · rintro (⟨b, member, starts⟩ | driven)
      · exact ⟨b, List.mem_append_left _ member, starts⟩
      · exact ⟨a, List.mem_append_right _ (List.mem_singleton_self a), (bound.mp driven).1⟩
    · rintro ⟨b, member, starts⟩
      rcases List.mem_append.mp member with old | new
      · exact Or.inl ⟨b, old, starts⟩
      · cases List.mem_singleton.mp new
        cases up : s.ready with
        | true => exact Or.inl (scanned.ready.mp up)
        | false => exact Or.inr (bound.mpr ⟨starts, up⟩)
  · intro up
    rw [adapters]
    cases before : s.ready with
    | true =>
        obtain ⟨b, member, driven⟩ := scanned.driven before
        obtain ⟨ioBase, irqLine, mac⟩ := kept before
        exact ⟨b, List.mem_append_left _ member, driven.bound, ioBase.trans driven.ioBase, irqLine.trans driven.irqLine,
          mac.trans driven.mac⟩
    | false =>
        rw [ready, before, Bool.false_or] at up
        exact ⟨a, List.mem_append_right _ (List.mem_singleton_self a), drives up⟩
  · intro address
    rw [adapters]
    rcases written address with same | ⟨vendor, device, here⟩
    · rcases scanned.written address with old | ⟨b, member, rest⟩
      · exact Or.inl (same.trans old)
      · exact Or.inr ⟨b, List.mem_append_left _ member, rest⟩
    · exact Or.inr ⟨a, List.mem_append_right _ (List.mem_singleton_self a), vendor, device, here⟩

/-- A card for which the table has no room changes nothing. -/
theorem Scanned.full (scanned : Scanned config card seen s) (full : ¬s.adapters.length < maxAdapters) (p : Place) :
    Scanned config card (seen ++ [p]) s := by
  have count := congrArg List.length scanned.adapters
  rw [List.length_map, List.length_map, List.length_take] at count
  have long : maxAdapters ≤ seen.length := by omega
  exact ⟨by rw [List.take_append_of_le_length long]; exact scanned.adapters, scanned.bound, scanned.ready, scanned.driven,
    scanned.written⟩

/-! ## The steps of the scan -/

theorem rtlHwInitCard_adapters (card : EthernetCard) (rxBuffer : UInt32) (s : Scan) (a : NetAdapter) :
    (rtlHwInitCard card rxBuffer s a).2.adapters = s.adapters := by
  simp only [rtlHwInitCard]
  split
  · rfl
  · split <;> rfl

theorem rtlHwInitCard_bound (card : EthernetCard) (rxBuffer : UInt32) (s : Scan) (a : NetAdapter) :
    (rtlHwInitCard card rxBuffer s a).1 = true ↔ a.bar0 &&& 1 ≠ 0 ∧ rtlWaitForResetClear card a.ioBase = true := by
  simp only [rtlHwInitCard]
  split
  · simp_all
  · split <;> simp_all

theorem rtlHwInitCard_ready (card : EthernetCard) (rxBuffer : UInt32) (s : Scan) (a : NetAdapter) :
    (rtlHwInitCard card rxBuffer s a).2.ready = (s.ready || (rtlHwInitCard card rxBuffer s a).1) := by
  simp only [rtlHwInitCard]
  split
  · simp
  · split <;> simp

theorem rtlHwInitCard_config (card : EthernetCard) (rxBuffer : UInt32) (s : Scan) (a : NetAdapter) (address : UInt32) :
    (rtlHwInitCard card rxBuffer s a).2.config address = s.config address ∨ address = pciAddress a.bus a.slot a.func 0x04 := by
  by_cases here : address = pciAddress a.bus a.slot a.func 0x04
  · exact Or.inr here
  · refine Or.inl ?_
    simp only [rtlHwInitCard]
    split
    · rfl
    · split <;> exact Function.update_of_ne here _ _

theorem rtlHwInitCard_drives {rxBuffer : UInt32} {a b : NetAdapter} (bound : (rtlHwInitCard card rxBuffer s a).1 = true)
    (same : b = { a with bound := true }) : Drives card (rtlHwInitCard card rxBuffer s a).2 b := by
  obtain ⟨ports, clear⟩ := (rtlHwInitCard_bound card rxBuffer s a).mp bound
  subst same
  simp only [rtlHwInitCard, if_neg ports, if_neg (not_not_intro clear)]
  exact ⟨rfl, rfl, rfl, rfl⟩

/-- A card that the scan tries to start. -/
theorem Scanned.attempt (scanned : Scanned config card seen s) (room : s.adapters.length < maxAdapters) (p : Place)
    (rxBuffer : UInt32) (idle : s.ready = false) (vendor : (adapterAt config p).vendorId = rtl8139VendorId)
    (device : (adapterAt config p).deviceId = rtl8139DeviceId) :
    Scanned config card (seen ++ [p])
      { (rtlHwInitCard card rxBuffer s (adapterAt config p)).2 with
        adapters := (rtlHwInitCard card rxBuffer s (adapterAt config p)).2.adapters ++
          [{ adapterAt config p with bound := (rtlHwInitCard card rxBuffer s (adapterAt config p)).1 }] } := by
  have starts := rtlHwInitCard_bound card rxBuffer s (adapterAt config p)
  have ready := rtlHwInitCard_ready card rxBuffer s (adapterAt config p)
  have drives := fun bound => @rtlHwInitCard_drives card s rxBuffer (adapterAt config p) _ bound rfl
  refine scanned.add (a := { adapterAt config p with bound := (rtlHwInitCard card rxBuffer s (adapterAt config p)).1 })
    room rfl (congrArg (· ++ _) (rtlHwInitCard_adapters ..)) ?_ ready ?_ (fun up => ?_) fun address => ?_
  · simp only [idle, and_true]
    exact starts.trans ⟨fun ok => ⟨vendor, device, ok⟩, fun ok => ok.2.2⟩
  · intro bound
    obtain ⟨_, ioBase, irqLine, mac⟩ := drives bound
    exact ⟨bound, ioBase, irqLine, mac⟩
  · rw [idle] at up
    cases up
  · exact (rtlHwInitCard_config card rxBuffer s (adapterAt config p) address).imp id fun here => ⟨vendor, device, here⟩

/-- A card that is only listed. -/
theorem Scanned.list (scanned : Scanned config card seen s) (room : s.adapters.length < maxAdapters) (p : Place)
    (passed : s.ready = false → ¬Starts card (adapterAt config p)) :
    Scanned config card (seen ++ [p]) { s with adapters := s.adapters ++ [adapterAt config p] } := by
  refine scanned.add room rfl rfl ?_ (Bool.or_false _).symm (fun bound => ?_) (fun _ => ⟨rfl, rfl, rfl⟩) fun _ => Or.inl rfl
  · exact ⟨(fun bound => by cases bound), fun ⟨starts, idle⟩ => absurd starts (passed idle)⟩
  · cases bound

/-- One function of a device. -/
theorem Scanned.function (scanned : Scanned config card seen s) (rxBuffer : UInt32) (bus slot func : UInt8) :
    Scanned config card (seen ++ [(bus, slot, func)].filter (IsEthernet config ·)) (netInitFunction card rxBuffer bus slot s func) := by
  have id := scanned.read 0x00 (by decide) bus slot func
  have classReg := scanned.read 0x08 (by decide) bus slot func
  have bar0 := scanned.read 0x10 (by decide) bus slot func
  have irqReg := scanned.read 0x3C (by decide) bus slot func
  simp only [netInitFunction, id, classReg, bar0, irqReg]
  by_cases ethernet : IsEthernet config (bus, slot, func)
  · rw [List.filter_cons_of_pos (by simpa using ethernet), List.filter_nil]
    obtain ⟨present, classCode, subclass⟩ := ethernet
    dsimp only at present classCode subclass
    rw [if_neg present, if_neg (by rw [classCode, subclass]; decide)]
    split
    next room =>
      split
      next try_ => exact scanned.attempt room _ rxBuffer (by simpa using try_.1) try_.2.1 try_.2.2
      next other =>
        exact scanned.list room (bus, slot, func) fun idle starts => other ⟨by rw [idle]; decide, starts.1, starts.2.1⟩
    next full => exact scanned.full full _
  · rw [List.filter_cons_of_neg (by simpa using ethernet), List.filter_nil, List.append_nil]
    split
    · exact scanned
    next present =>
      rw [if_pos]
      · exact scanned
      · by_contra both
        push Not at both
        exact ethernet ⟨present, both⟩

/-- A loop of the scan, each turn of which finds the cards in `found`. -/
theorem Scanned.loop {α : Type} {turn : Scan → α → Scan} {found : α → List Place}
    (step : ∀ seen s x, Scanned config card seen s → Scanned config card (seen ++ found x) (turn s x)) (xs : List α) :
    ∀ seen s, Scanned config card seen s → Scanned config card (seen ++ xs.flatMap found) (xs.foldl turn s) := by
  induction xs with
  | nil =>
      intro seen s scanned
      rwa [List.flatMap_nil, List.append_nil]
  | cons x xs ih =>
      intro seen s scanned
      rw [List.flatMap_cons, ← List.append_assoc]
      exact ih _ _ (step seen s x scanned)

theorem Scanned.slot (scanned : Scanned config card seen s) (rxBuffer : UInt32) (bus slot : UInt8) :
    Scanned config card (seen ++ (placesAt config bus slot).filter (IsEthernet config ·)) (netInitSlot card rxBuffer bus s slot) := by
  have functions := Scanned.loop (fun _ _ func scanned => Scanned.function scanned rxBuffer bus slot func)
    (functionsAt config bus slot) seen s scanned
  have found : (functionsAt config bus slot).flatMap (fun func => [(bus, slot, func)].filter (IsEthernet config ·)) =
      (placesAt config bus slot).filter (IsEthernet config ·) := by
    rw [← List.filter_flatMap, ← List.map_eq_flatMap]
    rfl
  rw [found] at functions
  have vendor0 := scanned.read 0x00 (by decide) bus slot 0
  have header := scanned.read 0x0C (by decide) bus slot 0
  simp only [netInitSlot, vendor0, header]
  simp only [functionsAt] at functions
  split
  next absent =>
    rw [if_pos absent] at functions
    exact functions
  next present =>
    rw [if_neg present] at functions
    exact functions

/-- Behind the scan the table holds the first network cards on the bus as the configuration space describes them. The one
card that is bound is the first RTL8139 of the table that has ports and comes out of its reset, the driver uses its ports,
its interrupt line and its address, and only the command registers of such cards have changed. -/
theorem net_init_adapters (config : UInt32 → UInt32) (card : EthernetCard) (rxBuffer : UInt32) :
    Scanned config card (ethernetPlaces config) (netInitScan card rxBuffer config) := by
  have buses := Scanned.loop
    (fun seen s bus (scanned : Scanned config card seen s) =>
      Scanned.loop (fun _ _ slot scanned => Scanned.slot scanned rxBuffer bus slot) ((List.range 32).map UInt8.ofNat) seen s scanned)
    ((List.range 256).map UInt8.ofNat) [] _ (scanned_start config card)
  rw [List.nil_append] at buses
  have found : ethernetPlaces config = ((List.range 256).map UInt8.ofNat).flatMap fun bus =>
      ((List.range 32).map UInt8.ofNat).flatMap fun slot => (placesAt config bus slot).filter (IsEthernet config ·) := by
    rw [ethernetPlaces, places, List.filter_flatMap]
    simp only [List.filter_flatMap]
  rw [found]
  exact buses

end

end Mgcore
