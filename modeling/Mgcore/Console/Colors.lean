import Mgcore.Console.Mirror

/-!
# Colours

A text attribute has room for two of sixteen colours. `color_nearest_vga_index` searches the palette for the one with the
least distance, and `console_update_attr` puts two results into one byte.
-/

namespace Mgcore

/-- `palette[i]` is the first of the entries nearest to `c`. -/
structure Nearest (c : RgbColor) (palette : List RgbColor) (i : Nat) (h : i < palette.length) : Prop where
  least : ∀ j (k : j < palette.length), colorDistance c palette[i] ≤ colorDistance c palette[j]
  first : ∀ j (less : j < i), colorDistance c palette[i] < colorDistance c palette[j]

theorem Nearest.cons {c color : RgbColor} {palette : List RgbColor} {i : Nat} {h : i < palette.length}
    (near : Nearest c palette i h) (closer : colorDistance c palette[i] < colorDistance c color) :
    Nearest c (color :: palette) (i + 1) (Nat.succ_lt_succ h) := by
  constructor
  · intro j k
    cases j with
    | zero => exact Nat.le_of_lt closer
    | succ j => exact near.least j (Nat.lt_of_succ_lt_succ k)
  · intro j less
    cases j with
    | zero => exact closer
    | succ j => exact near.first j (Nat.lt_of_succ_lt_succ less)

/-- The search finds it, unless no entry is nearer than what the search started with. -/
theorem foldl_nearest (c : RgbColor) (palette : List RgbColor) (n : Nat) (best : UInt8 × Nat) :
    let found := (palette.zipIdx n).foldl
      (fun best entry => if colorDistance c entry.1 < best.2 then (entry.2.toUInt8, colorDistance c entry.1) else best) best
    (found = best ∧ ∀ i (h : i < palette.length), best.2 ≤ colorDistance c palette[i]) ∨
      ∃ i h, found = ((n + i).toUInt8, colorDistance c palette[i]) ∧ found.2 < best.2 ∧ Nearest c palette i h := by
  induction palette generalizing n best with
  | nil => simp
  | cons color palette ih =>
      simp only [List.zipIdx_cons, List.foldl_cons]
      by_cases nearer : colorDistance c color < best.2
      · rw [if_pos nearer]
        right
        rcases ih (n + 1) (n.toUInt8, colorDistance c color) with ⟨same, all⟩ | ⟨i, h, found, less, near⟩
        · refine ⟨0, Nat.succ_pos _, same, by rw [same]; exact nearer, fun j k => ?_, fun j less => absurd less (Nat.not_lt_zero j)⟩
          cases j with
          | zero => exact Nat.le_refl _
          | succ j => exact all j (Nat.lt_of_succ_lt_succ k)
        · have closer : colorDistance c palette[i] < colorDistance c color := by
            rw [found] at less
            exact less
          refine ⟨i + 1, Nat.succ_lt_succ h, ?_, Nat.lt_trans less nearer, near.cons closer⟩
          rw [found, Nat.add_right_comm, Nat.add_assoc n i 1]
          rfl
      · rw [if_neg nearer]
        rcases ih (n + 1) best with ⟨same, all⟩ | ⟨i, h, found, less, near⟩
        · refine Or.inl ⟨same, fun j k => ?_⟩
          cases j with
          | zero => exact Nat.not_lt.mp nearer
          | succ j => exact all j (Nat.lt_of_succ_lt_succ k)
        · have closer : colorDistance c palette[i] < colorDistance c color := by
            rw [found] at less
            exact Nat.lt_of_lt_of_le less (Nat.not_lt.mp nearer)
          refine Or.inr ⟨i + 1, Nat.succ_lt_succ h, ?_, less, near.cons closer⟩
          rw [found, Nat.add_right_comm, Nat.add_assoc n i 1]
          rfl

theorem colorDistance_lt (c p : RgbColor) : colorDistance c p < 0xFFFFFFFF := by
  have bound (x y : UInt8) : ((x.toNat : Int) - y.toNat) * (x.toNat - y.toNat) ≤ 255 * 255 := by
    have low := x.toNat_lt
    have high := y.toNat_lt
    have range : ((x.toNat : Int) - y.toNat).natAbs ≤ 255 := by omega
    have square := Nat.mul_le_mul range range
    rw [← Int.natAbs_mul_self]
    omega
  have red := bound c.r p.r
  have green := bound c.g p.g
  have blue := bound c.b p.b
  unfold colorDistance
  dsimp only
  omega

theorem colorNearestVgaIndex_nearest (c : RgbColor) :
    ∃ i h, colorNearestVgaIndex c = i.toUInt8 ∧ Nearest c vgaPalette i h := by
  unfold colorNearestVgaIndex
  rcases foldl_nearest c vgaPalette 0 (0, 0xFFFFFFFF) with ⟨-, all⟩ | ⟨i, h, found, -, near⟩
  · exact absurd (all 0 (by decide)) (Nat.not_le.mpr (colorDistance_lt c _))
  · exact ⟨i, h, by rw [found, Nat.zero_add], near⟩

/-- The attribute that any two colours are shown with. -/
theorem attribute_nearest (s : Screen) (fg bg : RgbColor) :
    ∃ f hf b hb, Nearest fg vgaPalette f hf ∧ Nearest bg vgaPalette b hb ∧
      (consoleSetColorRgb s fg bg).attr.toNat = b * 16 + f := by
  obtain ⟨f, hf, front, nearFront⟩ := colorNearestVgaIndex_nearest fg
  obtain ⟨b, hb, back, nearBack⟩ := colorNearestVgaIndex_nearest bg
  refine ⟨f, hf, b, hb, nearFront, nearBack, ?_⟩
  show (colorNearestVgaIndex bg <<< 4 ||| colorNearestVgaIndex fg).toNat = _
  rw [front, back]
  have joined : ∀ b f : Fin 16, (b.val.toUInt8 <<< 4 ||| f.val.toUInt8).toNat = b.val * 16 + f.val := by decide
  exact joined ⟨b, hb⟩ ⟨f, hf⟩

end Mgcore
