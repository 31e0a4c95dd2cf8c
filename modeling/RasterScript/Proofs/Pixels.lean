import Mathlib.Data.Finset.Prod
import Mathlib.Order.Basic
import RasterScript.Image

/-!
# Images place by place and channel by channel

The places of an image are a finite set, its `grid`, and regions of the image are
parts of it. Many filters treat the four numbers of a pixel alike. `Channel` names
these numbers, so that what holds of each of them is said once, and `Pixel.get` reads
one.

Images are ordered by their channels: an image is at most another one if both have
the same size and none of its numbers is greater than the one at the same place of
the other. Images of different sizes are not comparable.
-/

namespace RasterScript

/-! ## Places -/

namespace Bounds

/-- The places of an image of this size. -/
def grid (b : Bounds) : Finset (Nat × Nat) := Finset.range b.width ×ˢ Finset.range b.height

theorem mem_grid {b : Bounds} {p : Nat × Nat} : p ∈ b.grid ↔ p.1 < b.width ∧ p.2 < b.height := by
  rw [grid, Finset.mem_product, Finset.mem_range, Finset.mem_range]

theorem card_grid (b : Bounds) : b.grid.card = b.area := by
  rw [grid, Finset.card_product, Finset.card_range, Finset.card_range]
  rfl

end Bounds

/-! ## Channels -/

/-- The numbers of a pixel. -/
inductive Channel where
  | red
  | green
  | blue
  | alpha
deriving DecidableEq

/-- One number of a pixel. -/
def Pixel.get (p : Pixel) : Channel → UInt8
  | .red => p.red
  | .green => p.green
  | .blue => p.blue
  | .alpha => p.alpha

/-- Pixels with the same numbers are the same. -/
theorem Pixel.ext_get {p q : Pixel} (h : ∀ c, p.get c = q.get c) : p = q := by
  obtain ⟨red, green, blue, alpha⟩ := p
  obtain ⟨red', green', blue', alpha'⟩ := q
  rw [Pixel.mk.injEq]
  exact ⟨h .red, h .green, h .blue, h .alpha⟩

/-! ## The order of images -/

namespace Image

section Sides

variable {a b : Image} (h : a.bounds = b.bounds)
include h

theorem width_congr : a.width = b.width := congrArg Bounds.width h

theorem height_congr : a.height = b.height := congrArg Bounds.height h

end Sides

/-- The order of images: place by place and channel by channel. -/
instance : PartialOrder Image where
  le a b := a.bounds = b.bounds ∧ ∀ x y, x < a.width → y < a.height →
    ∀ c, (a.pixel x y).get c ≤ (b.pixel x y).get c
  le_refl a := ⟨rfl, fun _ _ _ _ _ => UInt8.le_refl _⟩
  le_trans a b c hab hbc := by
    obtain ⟨hbounds, hle⟩ := hab
    refine ⟨hbounds.trans hbc.1, fun x y hx hy k => ?_⟩
    exact UInt8.le_trans (hle x y hx hy k)
      (hbc.2 x y (width_congr hbounds ▸ hx) (height_congr hbounds ▸ hy) k)
  le_antisymm a b hab hba := by
    obtain ⟨hbounds, hle⟩ := hab
    refine ext_pixel hbounds fun x y hx hy => Pixel.ext_get fun k => ?_
    exact UInt8.le_antisymm (hle x y hx hy k)
      (hba.2 x y (width_congr hbounds ▸ hx) (height_congr hbounds ▸ hy) k)

theorem le_def {a b : Image} :
    a ≤ b ↔ a.bounds = b.bounds ∧ ∀ x y, x < a.width → y < a.height →
      ∀ c, (a.pixel x y).get c ≤ (b.pixel x y).get c :=
  Iff.rfl

end Image

/-! ## Averages of channels -/

section Average

variable {count : Nat} (hpos : 0 < count)
include hpos

/-- An average of bytes is a byte. -/
theorem average_lt {sum : Nat} (h : sum ≤ count * 255) : (sum + count / 2) / count < 256 := by
  rw [Nat.div_lt_iff_lt_mul hpos]
  omega

/-- The average of equal values is that value. -/
theorem average_const (value : Nat) : (count * value + count / 2) / count = value := by
  rw [Nat.mul_add_div hpos, Nat.div_eq_of_lt (by omega), Nat.add_zero]

end Average

end RasterScript
