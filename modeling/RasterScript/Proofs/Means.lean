import RasterScript.Proofs.Disks
import RasterScript.Proofs.Filters

/-!
# Means in 32 bits

The mean of the samples is their sum, with half their number added so that the
quotient is rounded, divided by their number. The sum is kept in 32 bits. A byte is
at most 255, so `maxSamples` of them and half their number still fit, and one more
byte need not.

What is lost when they do not fit shows at once: the mean that is written is exact
just if the true sum and half the number fit (`toNat_mean_eq_iff`). A disk can hold as
many samples as an image has pixels, and an image that may be made can have nearly
sixteen times as many as are safe. So the mean is exact on all images of a size just if no
disk holds more than `maxSamples` places (`means_exact_iff`), and white turns black
where one holds a single place more (`white_mean_black`).
-/

namespace RasterScript

namespace Neighbourhood

/-- The sum of some bytes. -/
def total (values : List UInt8) : Nat := (values.map UInt8.toNat).sum

/-- The most bytes whose sum always leaves room in 32 bits for half their number. -/
def maxSamples : Nat := 16810048

theorem total_le (values : List UInt8) : total values ≤ values.length * 255 := by
  induction values with
  | nil => exact Nat.le_refl 0
  | cons value values ih =>
      have hvalue := value.toNat_lt
      simp only [total, List.map_cons, List.sum_cons, List.length_cons] at ih ⊢
      omega

theorem total_replicate (count : Nat) (value : UInt8) :
    total (List.replicate count value) = count * value.toNat := by
  rw [total, List.map_replicate, List.sum_replicate_nat]

/-- Adding in 32 bits is adding and then keeping 32 bits. -/
theorem toNat_foldl (values : List UInt8) (start : UInt32) :
    (values.foldl (fun (sum : UInt32) value => sum + value.toUInt32) start).toNat =
      (start.toNat + total values) % 2 ^ 32 := by
  induction values generalizing start with
  | nil =>
      have hstart := start.toNat_lt
      simp only [total, List.foldl_nil, List.map_nil, List.sum_nil]
      omega
  | cons value values ih =>
      rw [List.foldl_cons, ih]
      simp only [total, List.map_cons, List.sum_cons, UInt32.toNat_add, UInt8.toNat_toUInt32]
      omega

theorem toNat_mean {values : List UInt8} (h : values.length < 2 ^ 32) :
    (mean values).toNat =
      (total values + values.length / 2) % 2 ^ 32 / values.length % 256 := by
  unfold mean
  dsimp only
  rw [UInt32.toNat_toUInt8, UInt32.toNat_div, UInt32.toNat_add, UInt32.toNat_div, toNat_foldl,
    UInt32.toNat_ofNat_of_lt' h]
  simp

/-- **The mean is exact just if the true sum fits.** -/
theorem toNat_mean_eq_iff {values : List UInt8} (hne : values ≠ [])
    (h : values.length < 2 ^ 32) :
    (mean values).toNat = (total values + values.length / 2) / values.length ↔
      total values + values.length / 2 < 2 ^ 32 := by
  have hpos : 0 < values.length := List.length_pos_iff.mpr hne
  have hbyte := average_lt hpos (total_le values)
  rw [toNat_mean h]
  constructor
  · intro heq
    by_contra hover
    -- what wraps is at least the number of samples, so the quotient is at least one too small
    have hwrapped : (total values + values.length / 2) % 2 ^ 32 + values.length ≤
        total values + values.length / 2 := by omega
    have hless := Nat.div_le_div_right (c := values.length) hwrapped
    rw [Nat.add_div_right _ hpos] at hless
    have hmod := Nat.mod_le ((total values + values.length / 2) % 2 ^ 32 / values.length) 256
    omega
  · intro hfits
    rw [Nat.mod_eq_of_lt hfits, Nat.mod_eq_of_lt hbyte]

/-! ## Means of images -/

/-- An image that is white everywhere. -/
def whiteImage (b : Bounds) : Image := Image.generate b fun _ _ => Pixel.white

theorem samples_white {b : Bounds} (size : Int32) {x y : Nat} (hx : x < b.width)
    (hy : y < b.height) (c : Channel) :
    samples (whiteImage b) size x y c =
      List.replicate (within b (reach size) x y).card 255 := by
  refine List.eq_replicate_iff.mpr ⟨length_samples hx hy size c, fun v hv => ?_⟩
  obtain ⟨p, hp, rfl⟩ := List.mem_map.mp hv
  obtain ⟨hpx, hpy, _⟩ := (mem_places hx hy).mp hp
  rw [whiteImage, Image.pixel_generate hpx hpy]
  cases c <;> rfl

/-- The rounded sum of the samples, before it is divided. -/
def rounded (image : Image) (size : Int32) (x y : Nat) (c : Channel) : Nat :=
  total (samples image size x y c) + (samples image size x y c).length / 2

theorem rounded_white {b : Bounds} (size : Int32) {x y : Nat} (hx : x < b.width)
    (hy : y < b.height) (c : Channel) :
    let count := (within b (reach size) x y).card
    rounded (whiteImage b) size x y c = count * 255 + count / 2 := by
  intro count
  rw [rounded, samples_white size hx hy, total_replicate, List.length_replicate]
  rfl

/-- What is written for a channel is the true mean, a half going up. -/
def MeanIsExact (image : Image) (size : Int32) (x y : Nat) (c : Channel) : Prop :=
  (((filter image .mean size).pixel x y).get c).toNat =
    rounded image size x y c / (samples image size x y c).length

theorem meanIsExact_iff {image : Image} (ha : image.bounds.isAllocatable = true) (size : Int32)
    {x y : Nat} (hx : x < image.width) (hy : y < image.height) (c : Channel) :
    MeanIsExact image size x y c ↔ rounded image size x y c < 2 ^ 32 := by
  have hcount : (samples image size x y c).length < 2 ^ 32 := by
    have hdisk := card_within_le image.bounds (reach size) x y
    have harea : image.bounds.area ≤ Bounds.maxArea := of_decide_eq_true ha
    rw [length_samples hx hy]
    unfold Bounds.maxArea at harea
    omega
  rw [MeanIsExact, get_filter hx hy]
  exact toNat_mean_eq_iff (samples_ne_nil hx hy size c) hcount

/--
**When means are exact.** On an image that may be made, the mean of a channel of a
pixel is the true one just if the sum of its samples and half their number fit in 32
bits. They fit on every image of a size, at every pixel and in every channel, just if
no disk around a pixel holds more than `maxSamples` places.
-/
theorem means_exact_iff {b : Bounds} (ha : b.isAllocatable = true) (size : Int32) :
    (∀ image : Image, image.bounds = b → ∀ x y, x < b.width → y < b.height → ∀ c,
        (MeanIsExact image size x y c ↔ rounded image size x y c < 2 ^ 32))
      ∧ ((∀ image : Image, image.bounds = b → ∀ x y, x < b.width → y < b.height → ∀ c,
            rounded image size x y c < 2 ^ 32 ∧ MeanIsExact image size x y c) ↔
          ∀ x y, x < b.width → y < b.height →
            (within b (reach size) x y).card ≤ maxSamples) := by
  have hexact : ∀ image : Image, image.bounds = b → ∀ x y, x < b.width → y < b.height → ∀ c,
      (MeanIsExact image size x y c ↔ rounded image size x y c < 2 ^ 32) := by
    intro image hb x y hx hy c
    subst hb
    exact meanIsExact_iff ha size hx hy c
  refine ⟨hexact, ?_⟩
  constructor
  · intro hall x y hx hy
    -- white has the greatest sum of all
    obtain ⟨hfits, _⟩ := hall (whiteImage b) rfl x y hx hy .red
    rw [rounded_white size hx hy] at hfits
    unfold maxSamples
    omega
  · intro hfew image hb x y hx hy c
    subst hb
    have hfits : rounded image size x y c < 2 ^ 32 := by
      have hcount := hfew x y hx hy
      have htotal := total_le (samples image size x y c)
      unfold rounded
      rw [length_samples hx hy] at htotal ⊢
      unfold maxSamples at hcount
      omega
    exact ⟨hfits, (hexact image rfl x y hx hy c).mpr hfits⟩

/-- On a square of 4100 pixels even the disk of the largest size is safe. -/
theorem means_exact_iff_square :
    let b : Bounds := ⟨4100, 4100, by decide, by decide⟩
    b.isAllocatable = true ∧ ∀ image : Image, image.bounds = b → ∀ x y, x < 4100 → y < 4100 →
      ∀ c, MeanIsExact image 2147483647 x y c := by
  intro b
  have ha : b.isAllocatable = true := by decide
  have hfew : ∀ x y, x < b.width → y < b.height →
      (within b (reach 2147483647) x y).card ≤ maxSamples := by
    intro x y _ _
    exact (card_within_le b _ x y).trans (by decide)
  refine ⟨ha, fun image hb x y hx hy c => ?_⟩
  exact ((means_exact_iff ha 2147483647).2.mpr hfew image hb x y hx hy c).2

/-- A white row of one pixel more than is safe. -/
def whiteRow : Image :=
  whiteImage ⟨16810049, 1, Nat.le_of_ble_eq_true rfl, Nat.le_of_ble_eq_true rfl⟩

/-- Around its middle, the disk that is as wide as the row holds all of it. -/
theorem card_within_row : (within whiteRow.bounds (reach 16810049) 8405024 0).card = 16810049 := by
  have hreach : reach 16810049 = 8405024 := by decide
  refine card_within_eq fun p hpx hpy => ?_
  have hpx' : p.1 < 16810049 := hpx
  have hpy' : p.2 < 1 := hpy
  have hrow : (p.2 : Int) - (0 : Nat) = 0 := by omega
  rw [distSq, hreach, hrow, zero_pow two_ne_zero, add_zero]
  exact sq_le_sq' (by omega) (by omega)

/--
**White turns black.** In the middle of the white row the true mean over the whole row
is 255. The rounded sum is 223 more than 32 bits can hold, and what is written is
nothing, in every channel.
-/
theorem white_mean_black :
    whiteRow.bounds.isAllocatable = true
      ∧ (∀ c, ¬ rounded whiteRow 16810049 8405024 0 c < 2 ^ 32
        ∧ ¬ MeanIsExact whiteRow 16810049 8405024 0 c
        ∧ rounded whiteRow 16810049 8405024 0 c /
            (samples whiteRow 16810049 8405024 0 c).length = 255)
      ∧ ∃ out, (Render.image Engine.plain whiteRow [.neighbourhood .mean 16810049] ()).1 = .ok out
        ∧ out.pixel 8405024 0 = Pixel.clear := by
  have ha : whiteRow.bounds.isAllocatable = true := by decide
  have hx : 8405024 < whiteRow.width := by decide
  have hy : 0 < whiteRow.height := by decide
  have hrounded : ∀ c, rounded whiteRow 16810049 8405024 0 c = 2 ^ 32 + 223 := by
    intro c
    have hwhite := rounded_white 16810049 hx hy c
    rw [card_within_row] at hwhite
    exact hwhite
  have hcount : ∀ c, (samples whiteRow 16810049 8405024 0 c).length = 16810049 := by
    intro c
    rw [length_samples hx hy, card_within_row]
  have hover : ∀ c, ¬ rounded whiteRow 16810049 8405024 0 c < 2 ^ 32 := by
    intro c
    rw [hrounded]
    decide
  refine ⟨ha, fun c => ⟨hover c, ?_, ?_⟩, _,
    (Operation.filters_neighbourhood .mean 16810049).image ha, Pixel.ext_get fun c => ?_⟩
  · rw [meanIsExact_iff ha _ hx hy]
    exact hover c
  · rw [hrounded, hcount]
    rfl
  · have hsum : total (samples whiteRow 16810049 8405024 0 c) +
        (samples whiteRow 16810049 8405024 0 c).length / 2 = 2 ^ 32 + 223 := hrounded c
    rw [get_filter hx hy]
    refine UInt8.toNat_inj.mp ((toNat_mean (by rw [hcount]; decide)).trans ?_)
    rw [hsum, hcount]
    cases c <;> rfl

end Neighbourhood

end RasterScript
