import Mathlib.Algebra.BigOperators.Intervals
import Mathlib.Algebra.BigOperators.Ring.Finset
import Mathlib.Algebra.Order.BigOperators.Group.Finset
import RasterScript.Filter.Blur
import RasterScript.Proofs.Pixels

/-!
# Weighted averages

A blur takes two passes over an image, and both do the same: a pixel becomes the weighted
average of the pixels at its taps, which lie along the row in the one pass and along the
column in the other. A tap that would lead out of the image is moved to its border, so
every tap is a pixel of the image, of whatever size (`staysInside_alongRow`).

Sums are collected tap by tap. After some taps they are the plain sums of weights times
values (`get_sumsAfter`), and that is all the rest needs to know. In particular a sum can
only grow with the values, and lies between the least and the greatest value, each times
the sum of the weights.

If that sum is within 128 of 65536, what an average of equal bytes is off by is less than
a half, and rounding takes it away (`toByte_le`, `le_toByte`). So a blur stays between the
least and the greatest value even if its weights do not quite add up to the whole.
-/

namespace RasterScript

namespace Blur

/-! ## Sums tap by tap -/

/-- The sum of one channel. -/
def Sums.get (sums : Sums) : Channel → Nat
  | .red => sums.red
  | .green => sums.green
  | .blue => sums.blue
  | .alpha => sums.alpha

/-- The sums with one more tap. -/
def Sums.add (pixelAt : Nat → Pixel) (sums : Sums) : Nat × Nat → Sums
  | (weight, i) =>
    let p := pixelAt i
    { red := sums.red + weight * p.red.toNat, green := sums.green + weight * p.green.toNat,
      blue := sums.blue + weight * p.blue.toNat, alpha := sums.alpha + weight * p.alpha.toNat }

/-- The sums after the first taps. -/
def sumsAfter (weights : List Nat) (pixelAt : Nat → Pixel) (count : Nat) : Sums :=
  (weights.zipIdx.take count).foldl (Sums.add pixelAt) ⟨0, 0, 0, 0⟩

theorem get_add (pixelAt : Nat → Pixel) (sums : Sums) (weight i : Nat) (c : Channel) :
    (sums.add pixelAt (weight, i)).get c = sums.get c + weight * ((pixelAt i).get c).toNat := by
  cases c <;> rfl

/-- **After some taps the sums are the weighted values of these taps.** -/
theorem get_sumsAfter {weights : List Nat} (pixelAt : Nat → Pixel) (c : Channel) {count : Nat}
    (h : count ≤ weights.length) :
    (sumsAfter weights pixelAt count).get c =
      ∑ i ∈ Finset.range count, weights.getD i 0 * ((pixelAt i).get c).toNat := by
  induction count with
  | zero => cases c <;> rfl
  | succ count ih =>
      have htap : weights.zipIdx[count]? = some (weights.getD count 0, count) := by
        simp [List.getElem?_zipIdx, List.getD_eq_getElem?_getD,
          List.getElem?_eq_getElem (Nat.lt_of_succ_le h)]
      have hafter : sumsAfter weights pixelAt (count + 1) =
          (sumsAfter weights pixelAt count).add pixelAt (weights.getD count 0, count) := by
        rw [sumsAfter, List.take_add_one, htap, List.foldl_append]
        rfl
      rw [hafter, get_add, ih (Nat.le_of_succ_le h), Finset.sum_range_succ]

/-- What all taps come to. -/
def weighted (weights : List Nat) (value : Nat → UInt8) : Nat :=
  ∑ i ∈ Finset.range weights.length, weights.getD i 0 * (value i).toNat

theorem get_average (weights : List Nat) (pixelAt : Nat → Pixel) (c : Channel) :
    (average weights pixelAt).get c =
      toByte (weighted weights fun i => (pixelAt i).get c) := by
  have hall : weights.zipIdx.take weights.length = weights.zipIdx :=
    List.take_of_length_le (by rw [List.length_zipIdx])
  have haverage : (average weights pixelAt).get c =
      toByte ((sumsAfter weights pixelAt weights.length).get c) := by
    rw [sumsAfter, hall]
    cases c <;> rfl
  rw [haverage, get_sumsAfter pixelAt c (Nat.le_refl _)]
  rfl

theorem total_eq_sum (weights : List Nat) :
    total weights = ∑ i ∈ Finset.range weights.length, weights.getD i 0 := by
  induction weights with
  | nil => rfl
  | cons weight weights ih =>
      rw [List.length_cons, Finset.sum_range_succ', Nat.add_comm]
      exact congrArg (weight + ·) ih

section Values

variable {weights : List Nat} {value : Nat → UInt8}

/-- Greater values have a greater sum. -/
theorem weighted_mono {greater : Nat → UInt8} (h : ∀ i < weights.length, value i ≤ greater i) :
    weighted weights value ≤ weighted weights greater := by
  refine Finset.sum_le_sum fun i hi => Nat.mul_le_mul_left _ ?_
  exact UInt8.le_iff_toNat_le.mp (h i (Finset.mem_range.mp hi))

/-- Equal values have their own multiple of the sum of the weights. -/
theorem weighted_const (weights : List Nat) (v : UInt8) :
    weighted weights (fun _ => v) = total weights * v.toNat := by
  rw [total_eq_sum, Finset.sum_mul]
  rfl

theorem le_weighted {least : UInt8} (h : ∀ i < weights.length, least ≤ value i) :
    total weights * least.toNat ≤ weighted weights value :=
  weighted_const weights least ▸ weighted_mono h

theorem weighted_le {greatest : UInt8} (h : ∀ i < weights.length, value i ≤ greatest) :
    weighted weights value ≤ total weights * greatest.toNat :=
  weighted_const weights greatest ▸ weighted_mono h

end Values

/-! ## Rounding to a byte -/

theorem toNat_toByte (sum : Nat) : (toByte sum).toNat = min ((sum + 32768) / 65536) 255 :=
  UInt8.toNat_ofNat_of_lt' (Nat.lt_succ_of_le (Nat.min_le_right _ _))

theorem toByte_mono {sum greater : Nat} (h : sum ≤ greater) : toByte sum ≤ toByte greater := by
  rw [UInt8.le_iff_toNat_le, toNat_toByte, toNat_toByte]
  omega

/-- Weights that add up to 65536 but for what rounding hides. -/
structure NearlyWhole (weights : List Nat) : Prop where
  least : 65408 ≤ total weights
  most : total weights ≤ 65664

section Rounding

variable {weights : List Nat} (h : NearlyWhole weights) {sum : Nat} {v : UInt8}
include h

theorem NearlyWhole.quotient_le (hsum : sum ≤ total weights * v.toNat) :
    (sum + 32768) / 65536 ≤ v.toNat := by
  have hv := v.toNat_lt
  have htotal := Nat.mul_le_mul_right v.toNat h.most
  omega

theorem NearlyWhole.toByte_le (hsum : sum ≤ total weights * v.toNat) : toByte sum ≤ v := by
  rw [UInt8.le_iff_toNat_le, toNat_toByte]
  exact (Nat.min_le_left _ _).trans (h.quotient_le hsum)

theorem NearlyWhole.le_toByte (hsum : total weights * v.toNat ≤ sum) : v ≤ toByte sum := by
  have hv := v.toNat_lt
  have htotal := Nat.mul_le_mul_right v.toNat h.least
  rw [UInt8.le_iff_toNat_le, toNat_toByte]
  omega

end Rounding

/-! ## Passes -/

/-- The place along a side that is tapped for `k`, moved to the border if it is outside. -/
def tap (reach length k i : Nat) : Nat := min (k + i - reach) (length - 1)

theorem tap_lt {reach length k i : Nat} (h : k < length) : tap reach length k i < length := by
  unfold tap
  omega

theorem tap_eq {reach length k i : Nat} (h : k < length) :
    (tap reach length k i : Int) = max 0 (min ((k : Int) + i - reach) (length - 1)) := by
  unfold tap
  omega

/-- The taps of a pass along the rows. -/
def alongRow (b : Bounds) (reach : Nat) (p : Nat × Nat) (i : Nat) : Nat × Nat :=
  (tap reach b.width p.1 i, p.2)

/-- The taps of a pass along the columns. -/
def alongColumn (b : Bounds) (reach : Nat) (p : Nat × Nat) (i : Nat) : Nat × Nat :=
  (p.1, tap reach b.height p.2 i)

/-- The pixels at the taps of a place. -/
def tapped (image : Image) (taps : Nat × Nat → Nat → Nat × Nat) (x y i : Nat) : Pixel :=
  image.pixel (taps (x, y) i).1 (taps (x, y) i).2

/-- The image whose pixels are the averages of the pixels at their taps. -/
def pass (weights : List Nat) (taps : Nat × Nat → Nat → Nat × Nat) (image : Image) : Image :=
  Image.generate image.bounds fun x y => average weights (tapped image taps x y)

theorem rows_eq (image : Image) (weights : List Nat) :
    rows image weights = pass weights (alongRow image.bounds (weights.length / 2)) image := rfl

theorem columns_eq (image : Image) (weights : List Nat) :
    columns image weights =
      pass weights (alongColumn image.bounds (weights.length / 2)) image := rfl

/-- No tap of a place of the image is outside. -/
def StaysInside (b : Bounds) (taps : Nat × Nat → Nat → Nat × Nat) : Prop :=
  ∀ p ∈ b.grid, ∀ i, taps p i ∈ b.grid

theorem staysInside_alongRow (b : Bounds) (reach : Nat) : StaysInside b (alongRow b reach) := by
  intro p hp i
  obtain ⟨hpx, hpy⟩ := Bounds.mem_grid.mp hp
  exact Bounds.mem_grid.mpr ⟨tap_lt hpx, hpy⟩

theorem staysInside_alongColumn (b : Bounds) (reach : Nat) :
    StaysInside b (alongColumn b reach) := by
  intro p hp i
  obtain ⟨hpx, hpy⟩ := Bounds.mem_grid.mp hp
  exact Bounds.mem_grid.mpr ⟨hpx, tap_lt hpy⟩

section Pass

variable {weights : List Nat} {taps : Nat × Nat → Nat → Nat × Nat}

theorem pixel_pass {image : Image} {x y : Nat} (hx : x < image.width) (hy : y < image.height) :
    (pass weights taps image).pixel x y = average weights (tapped image taps x y) :=
  Image.pixel_generate hx hy

theorem get_pass {image : Image} {x y : Nat} (hx : x < image.width) (hy : y < image.height)
    (c : Channel) :
    ((pass weights taps image).pixel x y).get c =
      toByte (weighted weights fun i => (tapped image taps x y i).get c) := by
  rw [pixel_pass hx hy, get_average]

/-- **A pass keeps the order of images,** whatever its weights. -/
theorem pass_mono {a b : Image} (htaps : StaysInside a.bounds taps) (hab : a ≤ b) :
    pass weights taps a ≤ pass weights taps b := by
  obtain ⟨hbounds, hle⟩ := hab
  refine Image.le_def.mpr ⟨hbounds, fun x y hx hy c => ?_⟩
  have hx : x < a.width := hx
  have hy : y < a.height := hy
  rw [get_pass hx hy, get_pass (Image.width_congr hbounds ▸ hx) (Image.height_congr hbounds ▸ hy)]
  refine toByte_mono (weighted_mono fun i _ => ?_)
  obtain ⟨htx, hty⟩ := Bounds.mem_grid.mp (htaps (x, y) (Bounds.mem_grid.mpr ⟨hx, hy⟩) i)
  exact hle _ _ htx hty c

/-- The values of a channel are all between two bytes. -/
def Between (image : Image) (c : Channel) (low high : UInt8) : Prop :=
  ∀ p ∈ image.bounds.grid, low ≤ (image.pixel p.1 p.2).get c ∧ (image.pixel p.1 p.2).get c ≤ high

/-- **A pass stays between the values of its source.** -/
theorem between_pass (h : NearlyWhole weights) {image : Image}
    (htaps : StaysInside image.bounds taps) {c : Channel} {low high : UInt8}
    (hbetween : Between image c low high) : Between (pass weights taps image) c low high := by
  intro p hp
  have hin : p.1 < image.width ∧ p.2 < image.height := Bounds.mem_grid.mp hp
  rw [get_pass hin.1 hin.2]
  exact ⟨h.le_toByte (le_weighted fun i _ => (hbetween _ (htaps p hp i)).1),
    h.toByte_le (weighted_le fun i _ => (hbetween _ (htaps p hp i)).2)⟩

end Pass

/-- A pass over an image as it is carried out. -/
structure IsPass (weights : List Nat) (taps : Nat × Nat → Nat → Nat × Nat) (src dst : Image) :
    Prop where
  /-- The size stays the same. -/
  bounds : dst.bounds = src.bounds
  /-- Every tap is a pixel of the source. -/
  inside : StaysInside src.bounds taps
  /-- No sum leaves 64 bits at any tap, not even with the half that is added for rounding. -/
  fits : ∀ x y, x < src.width → y < src.height → ∀ c, ∀ count ≤ weights.length,
    (sumsAfter weights (tapped src taps x y) count).get c + 32768 < 2 ^ 64
  /-- What is written is the rounded sum, which is a byte without a limit. -/
  value : ∀ x y, x < src.width → y < src.height → ∀ c, ((dst.pixel x y).get c).toNat =
    (∑ i ∈ Finset.range weights.length,
      weights.getD i 0 * ((tapped src taps x y i).get c).toNat + 32768) / 65536

theorem isPass_pass {weights : List Nat} (h : NearlyWhole weights)
    {taps : Nat × Nat → Nat → Nat × Nat} {image : Image} (htaps : StaysInside image.bounds taps) :
    IsPass weights taps image (pass weights taps image) := by
  have hlimit : ∀ x y c, weighted weights (fun i => (tapped image taps x y i).get c) ≤
      total weights * (255 : UInt8).toNat := by
    intro x y c
    refine weighted_le fun i _ => UInt8.le_iff_toNat_le.mpr ?_
    exact Nat.le_of_lt_succ (UInt8.toNat_lt _)
  refine ⟨rfl, htaps, fun x y _ _ c count hcount => ?_, fun x y hx hy c => ?_⟩
  · have hpart : (sumsAfter weights (tapped image taps x y) count).get c ≤
        weighted weights fun i => (tapped image taps x y i).get c := by
      rw [get_sumsAfter _ c hcount]
      exact Finset.sum_le_sum_of_subset (Finset.range_mono hcount)
    have hwhole := (hpart.trans (hlimit x y c)).trans (Nat.mul_le_mul_right _ h.most)
    have hbyte : (255 : UInt8).toNat = 255 := rfl
    omega
  · rw [get_pass hx hy, toNat_toByte]
    exact Nat.min_eq_left (h.quotient_le (hlimit x y c))

/-! ## Both passes -/

/-- The image after a pass along its rows and then one along its columns. -/
def smooth (weights : List Nat) (image : Image) : Image := columns (rows image weights) weights

theorem smooth_eq (weights : List Nat) (image : Image) :
    smooth weights image =
      pass weights (alongColumn image.bounds (weights.length / 2))
        (pass weights (alongRow image.bounds (weights.length / 2)) image) := rfl

theorem bounds_smooth (weights : List Nat) (image : Image) :
    (smooth weights image).bounds = image.bounds := rfl

theorem smooth_mono (weights : List Nat) {dark bright : Image} (h : dark ≤ bright) :
    smooth weights dark ≤ smooth weights bright := by
  have hbounds : dark.bounds = bright.bounds := h.1
  rw [smooth_eq, smooth_eq, ← hbounds]
  exact pass_mono (staysInside_alongColumn _ _) (pass_mono (staysInside_alongRow _ _) h)

section Whole

variable {weights : List Nat} (h : NearlyWhole weights) {image : Image}
include h

theorem between_smooth {c : Channel} {low high : UInt8} (hbetween : Between image c low high) :
    Between (smooth weights image) c low high := by
  rw [smooth_eq]
  exact between_pass h (staysInside_alongColumn _ _)
    (between_pass h (staysInside_alongRow _ _) hbetween)

/-- An image of one colour does not change. -/
theorem smooth_flat {p : Pixel}
    (hflat : ∀ x y, x < image.width → y < image.height → image.pixel x y = p) :
    smooth weights image = image := by
  refine Image.ext_pixel (bounds_smooth weights image) fun x y hx hy => Pixel.ext_get fun c => ?_
  have hsource : Between image c (p.get c) (p.get c) := by
    intro q hq
    obtain ⟨hqx, hqy⟩ := Bounds.mem_grid.mp hq
    rw [hflat q.1 q.2 hqx hqy]
    exact ⟨UInt8.le_refl _, UInt8.le_refl _⟩
  obtain ⟨hlow, hhigh⟩ := between_smooth h hsource (x, y) (Bounds.mem_grid.mpr ⟨hx, hy⟩)
  rw [hflat x y hx hy]
  exact UInt8.le_antisymm hhigh hlow

end Whole

/--
**What two passes with nearly whole weights do.** The sum of the weights is within 128 of
65536; their number does not matter. Then, for every image:

- in both passes every tap is a pixel of the image, the place that is asked for or the one
  nearest to it; the sums stay below `2 ^ 64` from the first tap to the last; and what is
  written is the rounded sum as it is, with nothing to cut off above 255;
- each channel stays between any two values that it is between in the image, the least and
  the greatest for instance, so that an image of one colour does not change;
- of two images one of which is at most the other, so are the blurred ones.
-/
theorem passes_between {weights : List Nat} (h : NearlyWhole weights) :
    (∀ image : Image,
        IsPass weights (alongRow image.bounds (weights.length / 2)) image (rows image weights)
          ∧ IsPass weights (alongColumn image.bounds (weights.length / 2)) (rows image weights)
            (columns (rows image weights) weights))
      ∧ (∀ (b : Bounds) (reach : Nat) (p : Nat × Nat), p ∈ b.grid → ∀ i,
          (((alongRow b reach p i).1 : Int) = max 0 (min ((p.1 : Int) + i - reach) (b.width - 1))
              ∧ (alongRow b reach p i).2 = p.2)
            ∧ (alongColumn b reach p i).1 = p.1
            ∧ ((alongColumn b reach p i).2 : Int) =
              max 0 (min ((p.2 : Int) + i - reach) (b.height - 1)))
      ∧ (∀ (image : Image) (c : Channel) (low high : UInt8), Between image c low high →
          Between (columns (rows image weights) weights) c low high)
      ∧ (∀ (image : Image) (p : Pixel),
          (∀ x y, x < image.width → y < image.height → image.pixel x y = p) →
          columns (rows image weights) weights = image)
      ∧ ∀ dark bright : Image, dark ≤ bright →
          columns (rows dark weights) weights ≤ columns (rows bright weights) weights := by
  refine ⟨fun image => ⟨isPass_pass h (staysInside_alongRow _ _),
      isPass_pass h (staysInside_alongColumn _ _)⟩, fun b reach p hp i => ?_,
    fun _ _ _ _ => between_smooth h, fun _ _ => smooth_flat h, fun _ _ => smooth_mono weights⟩
  obtain ⟨hpx, hpy⟩ := Bounds.mem_grid.mp hp
  exact ⟨⟨tap_eq hpx, rfl⟩, rfl, tap_eq hpy⟩

/-- Three weights that are 128 short of the whole leave a white image white. -/
theorem passes_between_white :
    let weights := [30000, 5408, 30000]
    let image := Image.generate ⟨4, 2, by decide, by decide⟩ fun _ _ => Pixel.white
    NearlyWhole weights ∧ columns (rows image weights) weights = image
      ∧ IsPass weights (alongRow image.bounds (weights.length / 2)) image (rows image weights) := by
  intro weights image
  have hwhole : NearlyWhole weights := ⟨by decide, by decide⟩
  obtain ⟨hpasses, _, _, hflat, _⟩ := passes_between hwhole
  exact ⟨hwhole, hflat image Pixel.white fun _ _ => Image.pixel_generate, (hpasses image).1⟩

end Blur

end RasterScript
