import Mgcore.Pmm.Runs
import Mgcore.Lib.Visits

/-!
# The walk over the boot information

Three loops follow sizes that they read from the block: the tag loops of `pmm_init` and of `find_initramfs_module` in
`src/kernel/main.c`, and the loop over the entries of a memory map. None of them looks at `total_size`: like every walk
over such a block they rely on the loader, whose magic number `kernel_main` has checked. `TagsInside` is what they rely
on, and no less will do.
-/

namespace Mgcore
open Lib

def totalSize (mem : Nat → UInt8) : Nat := le32 mem 0

def tagModule : Nat := 3  -- `MULTIBOOT2_TAG_MODULE`

def findLoop (mem : Nat → UInt8) (fuel tag : Nat) : Option (Option Nat) :=
  if tagType mem tag = tagEnd then some none
  else if tagType mem tag = tagModule then some (some tag)
  else
    match fuel with
    | 0 => none
    | fuel + 1 => findLoop mem fuel (multiboot2NextTag mem tag)

def findInitramfsModule (fuel : Nat) (info : Nat → UInt8) : Option (Option Nat) := findLoop info fuel multiboot2FirstTag

/-! ## The addresses that are visited -/

/-- The tags that a loop looks at, up to the first whose type satisfies `stop`. -/
def tagTrace (mem : Nat → UInt8) (stop : Nat → Bool) (fuel tag : Nat) : Option (List Nat) :=
  visits (fun tag => !stop (tagType mem tag)) (multiboot2NextTag mem) (fun tag => [tag]) fuel tag

def stopsAtEnd (type : Nat) : Bool := type == tagEnd

def stopsAtModule (type : Nat) : Bool := type == tagEnd || type == tagModule

def entryTrace (entrySize limit fuel cursor : Nat) : Option (List Nat) :=
  visits (fun cursor => decide (cursor < limit)) (· + entrySize) (fun _ => []) fuel cursor

/-- With enough fuel the loop ends, and the addresses it has visited increase and lie inside the block. -/
def VisitsInside (mem : Nat → UInt8) (trace : Nat → Option (List Nat)) (each : Nat → Prop) : Prop :=
  ∃ visited, (∃ enough, ∀ fuel, enough ≤ fuel → trace fuel = some visited) ∧ visited.Pairwise (· < ·) ∧
    ∀ a ∈ visited, a < totalSize mem ∧ each a

def entriesOf (mem : Nat → UInt8) (tag fuel : Nat) : Option (List Nat) :=
  entryTrace (mmapEntrySize mem tag) (tag + tagSize mem tag) fuel (tag + 16)

structure WalkInside (mem : Nat → UInt8) : Prop where
  returns : ∃ enough, ∀ fuel, enough ≤ fuel →
    (∀ kernelStart kernelEnd, (pmmInit fuel mem kernelStart kernelEnd).isSome) ∧ (findInitramfsModule fuel mem).isSome
  memory : VisitsInside mem (fun fuel => tagTrace mem stopsAtEnd fuel multiboot2FirstTag) fun tag =>
    tagType mem tag = tagMmap → VisitsInside mem (entriesOf mem tag) fun _ => True
  module : VisitsInside mem (fun fuel => tagTrace mem stopsAtModule fuel multiboot2FirstTag) fun _ => True

/-! ## What the loader has to provide -/

/-- The map has no entries, or the last of them starts inside the block. -/
def MapInside (mem : Nat → UInt8) (tag : Nat) : Prop :=
  tagSize mem tag ≤ 16 ∨ 0 < mmapEntrySize mem tag ∧
    tag + 16 + (tagSize mem tag - 17) / mmapEntrySize mem tag * mmapEntrySize mem tag < totalSize mem

inductive TagsInside (mem : Nat → UInt8) : Nat → Prop
  | last {tag : Nat} (isEnd : tagType mem tag = tagEnd) (inside : tag < totalSize mem) : TagsInside mem tag
  | next {tag : Nat} (notEnd : tagType mem tag ≠ tagEnd) (advances : 0 < tagSize mem tag ∧ tagSize mem tag ≤ 2 ^ 32 - 8)
      (map : tagType mem tag = tagMmap → MapInside mem tag) (rest : TagsInside mem (multiboot2NextTag mem tag)) :
      TagsInside mem tag

variable {mem : Nat → UInt8}

/-! ## The loops and the addresses -/

theorem entryLoop_eq (mem : Nat → UInt8) (entrySize limit fuel cursor : Nat) (p : Pmm) :
    entryLoop mem entrySize limit fuel cursor p =
      (entryTrace entrySize limit fuel cursor).map (List.foldl (fun p a => addEntry p (memoryMapEntry mem a)) p) := by
  unfold entryTrace
  induction fuel generalizing cursor p with
  | zero =>
      rw [entryLoop.eq_def]
      split_ifs with inside
      · rw [visits_zero (by simpa using inside)]
        rfl
      · rw [visits_stop (by simpa using inside)]
        rfl
  | succ fuel ih =>
      rw [entryLoop]
      split_ifs with inside
      · rw [visits_succ (by simpa using inside), ih, Option.map_map]
        rfl
      · rw [visits_stop (by simpa using inside)]
        rfl

theorem findLoop_eq (mem : Nat → UInt8) (fuel tag : Nat) :
    findLoop mem fuel tag =
      (tagTrace mem stopsAtModule fuel tag).map (List.find? fun tag => tagType mem tag = tagModule) := by
  unfold tagTrace
  induction fuel, tag using findLoop.induct mem with
  | case1 fuel tag isEnd =>
      have other : ¬tagType mem tag = tagModule := by rw [isEnd]; decide
      rw [findLoop.eq_def, if_pos isEnd, visits_stop (by simp [stopsAtModule, isEnd]), Option.map_some,
        List.find?_cons_of_neg (by simpa using other)]
      rfl
  | case2 fuel tag notEnd isModule =>
      rw [findLoop.eq_def, if_neg notEnd, if_pos isModule, visits_stop (by simp [stopsAtModule, isModule]),
        Option.map_some, List.find?_cons_of_pos (by simpa using isModule)]
  | case3 tag notEnd notModule =>
      rw [findLoop.eq_def, if_neg notEnd, if_neg notModule, visits_zero (by simp [stopsAtModule, notEnd, notModule])]
      rfl
  | case4 tag notEnd notModule fuel ih =>
      rw [findLoop, if_neg notEnd, if_neg notModule, visits_succ (by simp [stopsAtModule, notEnd, notModule]), ih,
        Option.map_map]
      congr 1
      funext visited
      exact (List.find?_cons_of_neg (by simpa using notModule)).symm

/-! ## Entries -/

/-- A loop that ends with some fuel ends with any more, having visited the same places. -/
theorem VisitsInside.of_visits {goesOn : Nat → Bool} {next : Nat → Nat} {atEnd : Nat → List Nat} {fuel start : Nat}
    {visited : List Nat} {each : Nat → Prop} (returns : visits goesOn next atEnd fuel start = some visited)
    (increasing : visited.Pairwise (· < ·)) (inside : ∀ a ∈ visited, a < totalSize mem ∧ each a) :
    VisitsInside mem (fun fuel => visits goesOn next atEnd fuel start) each :=
  ⟨visited, ⟨fuel, fun _ more => visits_more returns more⟩, increasing, inside⟩

theorem entryTrace_spec {entrySize : Nat} (positive : 0 < entrySize) {limit fuel cursor : Nat}
    (enough : limit ≤ cursor + fuel) :
    ∃ visited, entryTrace entrySize limit fuel cursor = some visited ∧ visited.Pairwise (· < ·) ∧
      ∀ a, a ∈ visited ↔ ∃ i, a = cursor + i * entrySize ∧ a < limit := by
  unfold entryTrace
  induction fuel generalizing cursor with
  | zero =>
      refine ⟨[], visits_stop (by simpa using enough) 0, List.Pairwise.nil, fun a => ?_⟩
      rw [List.mem_nil_iff, false_iff]
      rintro ⟨i, rfl, less⟩
      exact absurd less (by omega)
  | succ fuel ih =>
      by_cases inside : cursor < limit
      · obtain ⟨rest, returns, increasing, members⟩ := ih (show limit ≤ cursor + entrySize + fuel by omega)
        refine ⟨cursor :: rest, ?_, ?_, fun a => ?_⟩
        · rw [visits_succ (by simpa using inside), returns]
          rfl
        · rw [List.pairwise_cons]
          refine ⟨fun a member => ?_, increasing⟩
          obtain ⟨i, rfl, -⟩ := (members a).mp member
          omega
        · rw [List.mem_cons, members]
          constructor
          · rintro (rfl | ⟨i, rfl, less⟩)
            · exact ⟨0, by omega, inside⟩
            · exact ⟨i + 1, by rw [Nat.add_mul]; omega, less⟩
          · rintro ⟨i, rfl, less⟩
            cases i with
            | zero => exact Or.inl (by omega)
            | succ i => exact Or.inr ⟨i, by rw [Nat.add_mul]; omega, less⟩
      · refine ⟨[], visits_stop (by simpa using inside) _, List.Pairwise.nil, fun a => ?_⟩
        rw [List.mem_nil_iff, false_iff]
        rintro ⟨i, rfl, less⟩
        exact absurd less (by omega)

theorem entryTrace_stuck {limit cursor : Nat} (inside : cursor < limit) (fuel : Nat) :
    entryTrace 0 limit fuel cursor = none := by
  unfold entryTrace
  induction fuel with
  | zero => exact visits_zero (by simpa using inside)
  | succ fuel ih =>
      rw [visits_succ (by simpa using inside), Nat.add_zero, ih]
      rfl

/-- The last entry starts at the last multiple of the entry size below the size of the tag. -/
theorem last_entry_iff {entrySize : Nat} (positive : 0 < entrySize) {start size bound : Nat} (filled : 16 < size) :
    (∀ i, start + 16 + i * entrySize < start + size → start + 16 + i * entrySize < bound) ↔
      start + 16 + (size - 17) / entrySize * entrySize < bound := by
  have below : (size - 17) / entrySize * entrySize ≤ size - 17 := Nat.div_mul_le_self _ _
  constructor
  · intro all
    exact all _ (by omega)
  · intro last i less
    have most : i ≤ (size - 17) / entrySize := (Nat.le_div_iff_mul_le positive).mpr (by omega)
    have scaled := Nat.mul_le_mul_right entrySize most
    omega

theorem mapInside_iff (tag : Nat) : VisitsInside mem (entriesOf mem tag) (fun _ => True) ↔ MapInside mem tag := by
  unfold MapInside
  by_cases empty : tagSize mem tag ≤ 16
  · refine iff_of_true ?_ (Or.inl empty)
    exact VisitsInside.of_visits (visits_stop (by simpa using empty) 0) List.Pairwise.nil (by simp)
  rw [or_iff_right empty]
  rcases Nat.eq_zero_or_pos (mmapEntrySize mem tag) with zero | positive
  · refine iff_of_false ?_ (fun both => absurd zero (Nat.ne_of_gt both.1))
    rintro ⟨visited, ⟨enough, returns⟩, -⟩
    have stuck := entryTrace_stuck (show tag + 16 < tag + tagSize mem tag by omega) enough
    rw [← zero] at stuck
    cases stuck.symm.trans (returns enough (Nat.le_refl _))
  obtain ⟨visited, returns, increasing, members⟩ :=
    entryTrace_spec positive (Nat.le_add_left (tag + tagSize mem tag) (tag + 16))
  rw [and_iff_right positive, ← last_entry_iff positive (Nat.not_le.mp empty)]
  constructor
  · rintro ⟨visited', ⟨enough, returns'⟩, -, inside⟩ i less
    have same : visited' = visited := by
      have first := visits_more returns (Nat.le_max_left (tag + tagSize mem tag) enough)
      cases (returns' _ (Nat.le_max_right (tag + tagSize mem tag) enough)).symm.trans first
      rfl
    rw [same] at inside
    exact (inside _ ((members _).mpr ⟨i, rfl, less⟩)).1
  · intro all
    refine VisitsInside.of_visits returns increasing fun a member => ⟨?_, trivial⟩
    obtain ⟨i, rfl, less⟩ := (members a).mp member
    exact all i less

/-! ## Tags -/

theorem le32_lt (mem : Nat → UInt8) (a : Nat) : le32 mem a < 2 ^ 32 := by
  have b0 := (mem a).toNat_lt
  have b1 := (mem (a + 1)).toNat_lt
  have b2 := (mem (a + 2)).toNat_lt
  have b3 := (mem (a + 3)).toNat_lt
  unfold le32
  omega

theorem lt_nextTag_iff (tag : Nat) :
    tag < multiboot2NextTag mem tag ↔ 0 < tagSize mem tag ∧ tagSize mem tag ≤ 2 ^ 32 - 8 := by
  have bound := le32_lt mem (tag + 4)
  unfold multiboot2NextTag tagSize
  omega

theorem TagsInside.lt {tag : Nat} (tags : TagsInside mem tag) : tag < totalSize mem := by
  induction tags with
  | last isEnd inside => exact inside
  | next notEnd advances map rest ih => exact Nat.lt_trans ((lt_nextTag_iff _).mpr advances) ih

theorem TagsInside.map {tag : Nat} (tags : TagsInside mem tag) (isMmap : tagType mem tag = tagMmap) : MapInside mem tag := by
  cases tags with
  | last isEnd inside => cases isEnd.symm.trans isMmap
  | next notEnd advances map rest => exact map isMmap

theorem TagsInside.visits {stop : Nat → Bool} (stops : stop tagEnd) {tag : Nat} (tags : TagsInside mem tag) :
    ∃ fuel visited, tagTrace mem stop fuel tag = some visited ∧ visited.Pairwise (· < ·) ∧
      ∀ a ∈ visited, tag ≤ a ∧ TagsInside mem a := by
  have stopped {tag : Nat} (tags : TagsInside mem tag) (stops : stop (tagType mem tag)) :
      ∃ fuel visited, tagTrace mem stop fuel tag = some visited ∧ visited.Pairwise (· < ·) ∧
        ∀ a ∈ visited, tag ≤ a ∧ TagsInside mem a := by
    refine ⟨0, [tag], visits_stop (by simp [stops]) 0, List.pairwise_singleton _ _, fun a member => ?_⟩
    rw [List.mem_singleton.mp member]
    exact ⟨Nat.le_refl tag, tags⟩
  induction tags with
  | last isEnd inside => exact stopped (.last isEnd inside) (isEnd ▸ stops)
  | @next tag notEnd advances map rest ih =>
      by_cases early : stop (tagType mem tag)
      · exact stopped (.next notEnd advances map rest) early
      · obtain ⟨fuel, visited, returns, increasing, members⟩ := ih
        have further := (lt_nextTag_iff tag).mpr advances
        refine ⟨fuel + 1, tag :: visited, ?_, ?_, fun a member => ?_⟩
        · rw [tagTrace, visits_succ (by simp [early]), ← tagTrace, returns]
          rfl
        · exact List.pairwise_cons.mpr ⟨fun a member => Nat.lt_of_lt_of_le further (members a member).1, increasing⟩
        · rcases List.mem_cons.mp member with rfl | later
          · exact ⟨Nat.le_refl a, .next notEnd advances map rest⟩
          · exact ⟨Nat.le_trans (Nat.le_of_lt further) (members a later).1, (members a later).2⟩

theorem mem_tagTrace {stop : Nat → Bool} {fuel tag : Nat} {visited : List Nat}
    (returns : tagTrace mem stop fuel tag = some visited) : tag ∈ visited := by
  rcases visits_cases returns with ⟨-, rfl⟩ | ⟨-, -, rest, -, -, rfl⟩
  · exact List.mem_singleton_self tag
  · exact List.mem_cons_self

theorem TagsInside.of_trace {fuel tag : Nat} {visited : List Nat}
    (returns : tagTrace mem stopsAtEnd fuel tag = some visited) (increasing : visited.Pairwise (· < ·))
    (inside : ∀ a ∈ visited, a < totalSize mem ∧ (tagType mem a = tagMmap → MapInside mem a)) : TagsInside mem tag := by
  induction fuel generalizing tag visited with
  | zero =>
      rcases visits_cases returns with ⟨stops, rfl⟩ | ⟨-, less, -, spent, -⟩
      · have isEnd : tagType mem tag = tagEnd := by simpa [stopsAtEnd] using stops
        exact .last isEnd (inside tag (List.mem_singleton_self tag)).1
      · cases spent
  | succ fuel ih =>
      rcases visits_cases returns with ⟨stops, rfl⟩ | ⟨goesOn, less, rest, spent, later, rfl⟩
      · have isEnd : tagType mem tag = tagEnd := by simpa [stopsAtEnd] using stops
        exact .last isEnd (inside tag (List.mem_singleton_self tag)).1
      · cases spent
        obtain ⟨first, increasing⟩ := List.pairwise_cons.mp increasing
        have notEnd : tagType mem tag ≠ tagEnd := by simpa [stopsAtEnd] using goesOn
        have advances := (lt_nextTag_iff tag).mp (first _ (mem_tagTrace later))
        exact .next notEnd advances (inside tag List.mem_cons_self).2
          (ih later increasing fun a member => inside a (List.mem_cons_of_mem tag member))

theorem MapInside.visitTag_isSome {tag : Nat} (map : tagType mem tag = tagMmap → MapInside mem tag) :
    ∃ enough, ∀ fuel, enough ≤ fuel → ∀ p, (visitTag mem fuel tag p).isSome := by
  by_cases isMmap : tagType mem tag = tagMmap
  · obtain ⟨visited, ⟨enough, returns⟩, -⟩ := (mapInside_iff tag).mpr (map isMmap)
    refine ⟨enough, fun fuel more p => ?_⟩
    have entries := returns fuel more
    rw [visitTag, if_pos isMmap, entryLoop_eq, ← entriesOf, entries]
    rfl
  · refine ⟨0, fun fuel _ p => ?_⟩
    rw [visitTag, if_neg isMmap]
    rfl

theorem TagsInside.tagLoop_isSome {tag : Nat} (tags : TagsInside mem tag) :
    ∃ enough, ∀ fuel, enough ≤ fuel → ∀ p, (tagLoop mem fuel tag p).isSome := by
  induction tags with
  | last isEnd inside =>
      refine ⟨0, fun fuel _ p => ?_⟩
      rw [tagLoop.eq_def, if_pos isEnd]
      rfl
  | next notEnd advances map rest ih =>
      obtain ⟨some, body⟩ := MapInside.visitTag_isSome map
      obtain ⟨more, loop⟩ := ih
      refine ⟨max some more + 1, fun fuel enough p => ?_⟩
      obtain ⟨fuel, rfl⟩ := Nat.exists_eq_add_of_le' (Nat.le_of_add_left_le enough)
      obtain ⟨q, visited⟩ := Option.isSome_iff_exists.mp (body fuel (by omega) p)
      rw [tagLoop, if_neg notEnd, visited]
      exact loop fuel (by omega) q

/-- The loops over the boot information end inside the block exactly if the loader provides what they rely on. -/
theorem boot_walk_inside_iff (mem : Nat → UInt8) : WalkInside mem ↔ TagsInside mem multiboot2FirstTag := by
  constructor
  · rintro ⟨-, ⟨visited, ⟨enough, returns⟩, increasing, inside⟩, -⟩
    refine TagsInside.of_trace (returns enough (Nat.le_refl _)) increasing fun a member => ⟨(inside a member).1, ?_⟩
    exact fun isMmap => (mapInside_iff a).mp ((inside a member).2 isMmap)
  · intro tags
    obtain ⟨fuel, visited, returns, increasing, members⟩ := tags.visits (show stopsAtEnd tagEnd from rfl)
    obtain ⟨fuel', visited', returns', increasing', members'⟩ := tags.visits (show stopsAtModule tagEnd from rfl)
    refine ⟨?_, ?_, ?_⟩
    · obtain ⟨enough, loop⟩ := tags.tagLoop_isSome
      refine ⟨max enough fuel', fun fuel more => ⟨fun kernelStart kernelEnd => ?_, ?_⟩⟩
      · obtain ⟨p, released⟩ := Option.isSome_iff_exists.mp (loop fuel (by omega) { bitmap := fun _ => 0xFF })
        rw [pmmInit, released]
        rfl
      · have trace : tagTrace mem stopsAtModule fuel multiboot2FirstTag = some visited' :=
          visits_more returns' (by omega)
        rw [findInitramfsModule, findLoop_eq, trace]
        rfl
    · refine VisitsInside.of_visits returns increasing fun a member => ?_
      have tags := (members a member).2
      exact ⟨tags.lt, fun isMmap => (mapInside_iff a).mpr (tags.map isMmap)⟩
    · exact VisitsInside.of_visits returns' increasing' fun a member => ⟨(members' a member).2.lt, trivial⟩

-- A command line tag of size 0 in front of the END tag.
def zeroSizeBlock : Nat → UInt8 := fun a =>
  ([24, 0, 0, 0, 0, 0, 0, 0, 1, 0, 0, 0, 0, 0, 0, 0, 0, 0, 0, 0, 8, 0, 0, 0] : List UInt8).getD a 0

/-- The walk does not get past a tag of size 0. -/
theorem zero_size_never_ends : (∀ fuel, findInitramfsModule fuel zeroSizeBlock = none) ∧ ¬WalkInside zeroSizeBlock := by
  have stuck (fuel : Nat) : findInitramfsModule fuel zeroSizeBlock = none := by
    have same : multiboot2NextTag zeroSizeBlock multiboot2FirstTag = multiboot2FirstTag := by decide
    have notEnd : tagType zeroSizeBlock multiboot2FirstTag ≠ tagEnd := by decide
    have notModule : tagType zeroSizeBlock multiboot2FirstTag ≠ tagModule := by decide
    unfold findInitramfsModule
    induction fuel with
    | zero => rw [findLoop, if_neg notEnd, if_neg notModule]
    | succ fuel ih => rw [findLoop, if_neg notEnd, if_neg notModule, same, ih]
  refine ⟨stuck, fun inside => ?_⟩
  obtain ⟨enough, returns⟩ := inside.returns
  have found := (returns enough (Nat.le_refl _)).2
  rw [stuck enough] at found
  cases found

end Mgcore
