import Mgcore.Lib.SlotMap
import Mgcore.Net.Arp

/-!
# The ARP cache as a map

`arpMap` forgets the ticks of the cache and keeps a valid entry as a key and its value. The two functions of the
cache are then `put` and `lookup` of a map in four slots, so a sequence of updates has the properties of one.
-/

namespace Mgcore

open Lib

def arpMap (net : Net) : SlotMap maxArpCache UInt32 Mac := fun i =>
  if (net.arpCache i).valid then some ((net.arpCache i).ip, (net.arpCache i).mac) else none

theorem arpMap_eq_some {net : Net} {i : Fin maxArpCache} {ip : UInt32} {mac : Mac} :
    arpMap net i = some (ip, mac) ↔
      (net.arpCache i).valid ∧ (net.arpCache i).ip = ip ∧ (net.arpCache i).mac = mac := by
  unfold arpMap
  split_ifs with valid
  · rw [Option.some.injEq, Prod.mk.injEq]
    exact ⟨fun held => ⟨valid, held⟩, And.right⟩
  · exact ⟨fun held => (nomatch held), fun held => absurd held.1 valid⟩

theorem arpMap_key (net : Net) (i : Fin maxArpCache) (ip : UInt32) :
    (arpMap net i).map Prod.fst = some ip ↔ (net.arpCache i).valid ∧ (net.arpCache i).ip = ip := by
  constructor
  · intro held
    obtain ⟨⟨key, mac⟩, entry, rfl⟩ := Option.map_eq_some_iff.mp held
    obtain ⟨valid, same, _⟩ := arpMap_eq_some.mp entry
    exact ⟨valid, same⟩
  · rintro ⟨valid, same⟩
    rw [arpMap_eq_some.mpr ⟨valid, same, rfl⟩, Option.map_some]

theorem arpMap_isNone (net : Net) (i : Fin maxArpCache) : (arpMap net i).isNone ↔ ¬(net.arpCache i).valid := by
  unfold arpMap
  split_ifs with valid <;> simp [valid]

theorem arpFind_eq (net : Net) (ip : UInt32) : arpFind net ip = (arpMap net).slotOf ip := by
  unfold arpFind SlotMap.slotOf
  apply congrArg (fun p => List.find? p _)
  funext i
  exact decide_eq_decide.mpr (arpMap_key net i ip).symm

theorem arpFree_eq (net : Net) :
    ((List.finRange maxArpCache).find? fun i => ¬(net.arpCache i).valid) = (arpMap net).freeSlot := by
  unfold SlotMap.freeSlot
  apply congrArg (fun p => List.find? p _)
  funext i
  rw [Bool.eq_iff_iff, decide_eq_true_iff]
  exact (arpMap_isNone net i).symm

theorem arpCacheLookup_eq (net : Net) (ip : UInt32) : arpCacheLookup net ip = (arpMap net).lookup ip := by
  unfold arpCacheLookup SlotMap.lookup
  rw [← arpFind_eq]
  cases found : arpFind net ip with
  | none => rfl
  | some i =>
      obtain ⟨valid, same⟩ := arpFind_spec found
      rw [Option.map_some, Option.bind_some, arpMap_eq_some.mpr ⟨valid, same, rfl⟩, Option.map_some]

theorem arpMap_setArp (net : Net) (i : Fin maxArpCache) {entry : ArpEntry} (valid : entry.valid) :
    arpMap (setArp net i entry) = Function.update (arpMap net) i (some (entry.ip, entry.mac)) := by
  funext j
  by_cases here : j = i
  · subst here
    have self : (setArp net j entry).arpCache j = entry := Function.update_self ..
    rw [Function.update_self, arpMap_eq_some, self]
    exact ⟨valid, rfl, rfl⟩
  · have old : (setArp net i entry).arpCache j = net.arpCache j := Function.update_of_ne here ..
    rw [Function.update_of_ne here, arpMap, old]
    rfl

theorem arpMap_arpCacheUpdate (net : Net) (ip : UInt32) (mac : Mac) :
    arpMap (arpCacheUpdate net ip mac) = (arpMap net).put ip mac := by
  unfold arpCacheUpdate SlotMap.put
  rw [← arpFind_eq, ← arpFree_eq]
  cases found : arpFind net ip with
  | some i =>
      obtain ⟨valid, same⟩ := arpFind_spec found
      rw [Option.getD_some, ← same]
      exact @arpMap_setArp net i { net.arpCache i with mac := mac, updatedTick := net.uptimeTicks } valid
  | none =>
      rw [Option.getD_none]
      exact @arpMap_setArp net _ { ip := ip, mac := mac, valid := true, updatedTick := net.uptimeTicks } rfl

/-! ## Sequences of updates -/

/-- A call of `arp_cache_update`, and the tick it is made at. -/
structure ArpUpdate where
  ticks : UInt64
  ip : UInt32
  mac : Mac

def arpStep (net : Net) (call : ArpUpdate) : Net :=
  arpCacheUpdate { net with uptimeTicks := call.ticks } call.ip call.mac

def arpUpdates (net : Net) (calls : List ArpUpdate) : Net := calls.foldl arpStep net

def lastMac (calls : List ArpUpdate) (ip : UInt32) : Option Mac :=
  ((calls.filter fun call => call.ip = ip).getLast?).map ArpUpdate.mac

def writesOf (calls : List ArpUpdate) : List (UInt32 × Mac) := calls.map fun call => (call.ip, call.mac)

theorem arpMap_arpStep (net : Net) (call : ArpUpdate) :
    arpMap (arpStep net call) = (arpMap net).put call.ip call.mac := by
  rw [arpStep, arpMap_arpCacheUpdate]
  rfl

theorem arpMap_arpUpdates (net : Net) (calls : List ArpUpdate) :
    arpMap (arpUpdates net calls) = (arpMap net).puts (writesOf calls) := by
  induction calls generalizing net with
  | nil => rfl
  | cons call calls ih =>
      change arpMap (arpUpdates (arpStep net call) calls) = _
      rw [ih, arpMap_arpStep]
      rfl

theorem lastWrite_writesOf (calls : List ArpUpdate) (ip : UInt32) :
    SlotMap.lastWrite (writesOf calls) ip = lastMac calls ip := by
  unfold SlotMap.lastWrite lastMac writesOf
  rw [List.filter_map, List.getLast?_map, Option.map_map]
  rfl

structure ArpLastWriteWins (net : Net) (calls : List ArpUpdate) : Prop where
  unique : ∀ i j, (net.arpCache i).valid → (net.arpCache j).valid → (net.arpCache i).ip = (net.arpCache j).ip → i = j
  fresh : ∀ ip mac, arpCacheLookup net ip = some mac → lastMac calls ip = some mac
  written : ∀ call, arpCacheLookup (arpStep net call) call.ip = some call.mac
  evicts : ∀ call ip, ip ≠ call.ip → arpCacheLookup (arpStep net call) ip ≠ arpCacheLookup net ip →
    (∀ i, (net.arpCache i).valid ∧ (net.arpCache i).ip ≠ call.ip) ∧
      ∀ other, other ≠ call.ip → arpCacheLookup (arpStep net call) other ≠ arpCacheLookup net other → other = ip

/-- The cache after any updates of an empty one: what it answers, and what the next update does to that. -/
theorem arp_last_write_wins (net : Net) (empty : ∀ i, ¬(net.arpCache i).valid) (calls : List ArpUpdate) :
    ArpLastWriteWins (arpUpdates net calls) calls := by
  have free : ∀ i, arpMap net i = none := fun i => Option.isNone_iff_eq_none.mp ((arpMap_isNone net i).mpr (empty i))
  obtain ⟨distinct, last⟩ := SlotMap.puts_spec free (writesOf calls)
  rw [← arpMap_arpUpdates] at distinct last
  generalize arpUpdates net calls = now at distinct last
  refine ⟨?_, ?_, ?_, ?_⟩
  · intro i j validI validJ same
    exact distinct i j _ _ _ (arpMap_eq_some.mpr ⟨validI, rfl, rfl⟩) (arpMap_eq_some.mpr ⟨validJ, same.symm, rfl⟩)
  · intro ip mac found
    rw [← lastWrite_writesOf]
    exact last ip mac (by rw [← arpCacheLookup_eq, found])
  · intro call
    rw [arpCacheLookup_eq, arpMap_arpStep, distinct.lookup_put_self]
  · intro call ip other changed
    simp only [arpCacheLookup_eq, arpMap_arpStep] at changed ⊢
    obtain ⟨lost, loses⟩ := distinct.put_loses call.ip call.mac
    obtain ⟨isLost, full⟩ := loses ip other changed
    constructor
    · intro i
      obtain ⟨key, mac, entry, different⟩ := full i
      obtain ⟨valid, rfl, _⟩ := arpMap_eq_some.mp entry
      exact ⟨valid, different⟩
    · intro ip' other' changed'
      exact Option.some.inj ((loses ip' other' changed').1.trans isLost.symm)

-- Five addresses, then the first of them again.
def sixUpdates : List ArpUpdate :=
  [1, 2, 3, 4, 5, 1].map fun host => ⟨0, UInt32.ofNat host, ⟨[0x52, 0x54, 0, 0, 0, UInt8.ofNat host], rfl⟩⟩

theorem arp_last_write_wins_sample :
    (∀ i, ¬(({} : Net).arpCache i).valid) ∧ arpCacheLookup (arpUpdates {} sixUpdates) 5 = none ∧
      ArpLastWriteWins (arpUpdates {} sixUpdates) sixUpdates :=
  ⟨by decide, by decide, arp_last_write_wins {} (by decide) sixUpdates⟩

end Mgcore
