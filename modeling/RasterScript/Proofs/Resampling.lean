import RasterScript.Proofs.Cropping
import RasterScript.Proofs.Pixels

/-!
# What scaling writes

Scaling takes every pixel from a window of the source around the place that it comes
from, first along the columns and then along the rows. In between there is one array
with the samples of all columns, row after row. Here this array is read back
(`getElem?_columnPass`), so that a pixel of the result is said in terms of pixels of the
source alone (`get_resample`): a weighted sum along a row of weighted sums along columns.

The windows are never empty and never leave the source, whatever the machine numbers
that they are computed from come to (`isWindow_taps`). So there is no pixel of the
result that nothing is written to, and none that is made of anything but pixels of the
source (`isScaled_resample`).
-/

namespace RasterScript

namespace Scale

/-! ## The window of a place -/

section Axis

variable (src dst : Nat)

/-- How many places of the source there are for one of the result. -/
def ratio : Float32 := (UInt32.ofNat src).toFloat32 / (UInt32.ofNat dst).toFloat32

/-- How far the kernel is stretched: as far as the source is shrunk, and not below its width. -/
def stretch : Float32 := if ratio src dst < 1 then 1 else ratio src dst

/-- The middle of a place of the result, measured in places of the source. -/
def centre (place : Nat) : Float32 := ((UInt32.ofNat place).toFloat32 + 0.5) * ratio src dst

/-- The kernel around a place of the result, at a place of the source. -/
def kernelAt (place i : Nat) : Float32 :=
  lanczos (((UInt32.ofNat i).toFloat32 - (centre src dst place - 0.5)) / stretch src dst)

end Axis

/-- The places of the source that a place of the result is made of, and their weights. -/
structure Taps.IsWindow (t : Taps) (src dst place : Nat) : Prop where
  /-- The first one is where the kernel begins, but not before the source; -/
  first : (t.first : Int) =
    min (max (Single.floor (centre src dst place - 3 * stretch src dst)) 0) (src - 1 : Nat)
  /-- the last one is where it ends, but neither before the first one nor after the source. -/
  last : ((t.first + t.weights.length : Nat) : Int) =
    min (max (Single.ceil (centre src dst place + 3 * stretch src dst)) (t.first + 1 : Nat)) src
  /-- There is one, -/
  nonempty : t.weights ≠ []
  /-- and all of them are in the source. -/
  inside : t.first + t.weights.length ≤ src
  /-- The weight of each is the kernel there, divided by the sum of the kernel at all of them. -/
  weight : ∀ i weight, t.weights[i]? = some weight →
    weight = kernelAt src dst place (t.first + i) /
      (List.range t.weights.length).foldl
        (fun sum j => sum + kernelAt src dst place (t.first + j)) 0

/-- **Every place has a window in the source.** -/
theorem isWindow_taps {src : Nat} (hsrc : 0 < src) (dst place : Nat) :
    (taps src dst place).IsWindow src dst place := by
  let first := (taps src dst place).first
  let count := (min (max (Single.ceil (centre src dst place + 3 * stretch src dst))
    (first + 1 : Nat)) src).toNat - first
  let raw := (List.range count).map fun i => kernelAt src dst place (first + i)
  have hweights : (taps src dst place).weights =
      raw.map fun w => w / raw.foldl (fun sum w => sum + w) 0 := rfl
  have hfirst : (first : Int) =
      min (max (Single.floor (centre src dst place - 3 * stretch src dst)) 0) (src - 1 : Nat) :=
    Int.toNat_of_nonneg (by omega)
  have hlength : (taps src dst place).weights.length = count := by
    rw [hweights, List.length_map, List.length_map, List.length_range]
  refine ⟨hfirst, ?_, ?_, ?_, fun i weight hweight => ?_⟩
  · rw [hlength]
    change ((first + count : Nat) : Int) = _
    omega
  · refine List.ne_nil_of_length_pos ?_
    omega
  · rw [hlength]
    change first + count ≤ src
    omega
  · have hi : i < count := hlength ▸ (List.getElem?_eq_some_iff.mp hweight).1
    rw [hweights, List.getElem?_map, List.getElem?_map, List.getElem?_range hi] at hweight
    rw [hlength, ← Option.some.inj hweight, List.foldl_map]

/-! ## Weighted sums -/

/-- One number of a sample. -/
def Sample.get (s : Sample) : Channel → Float32
  | .red => s.red
  | .green => s.green
  | .blue => s.blue
  | .alpha => s.alpha

namespace Taps

/-- The weighted sum of the numbers at the places of a window, from the first one on. -/
def total (t : Taps) (value : Nat → Float32) : Float32 :=
  (t.weights.zipIdx t.first).foldl (fun sum (weight, i) => sum + value i * weight) 0

/-- A sum of samples is a sum in each channel. -/
theorem get_sum (t : Taps) (sampleAt : Nat → Sample) (c : Channel) :
    (t.sum sampleAt).get c = t.total fun i => (sampleAt i).get c := by
  have key : ∀ (entries : List (Float32 × Nat)) (start : Sample),
      (entries.foldl
          (fun sum (w, i) =>
            let s := sampleAt i
            (⟨sum.red + s.red * w, sum.green + s.green * w, sum.blue + s.blue * w,
              sum.alpha + s.alpha * w⟩ : Sample))
          start).get c =
        entries.foldl (fun sum (weight, i) => sum + (sampleAt i).get c * weight) (start.get c) := by
    intro entries
    induction entries with
    | nil => intro start; rfl
    | cons entry entries ih =>
        intro start
        rw [List.foldl_cons, List.foldl_cons, ih]
        cases c <;> rfl
  rw [sum, key, total]
  cases c <;> rfl

/-- A sum only looks at the places of its window. -/
theorem total_congr {t : Taps} {f g : Nat → Float32}
    (h : ∀ i < t.first + t.weights.length, f i = g i) : t.total f = t.total g := by
  refine List.foldl_ext _ _ _ ?_
  rintro sum ⟨weight, i⟩ hentry
  obtain ⟨-, hi, -⟩ := List.mem_zipIdx hentry
  dsimp only
  rw [h i hi]

end Taps

/-! ## The two passes -/

/-- Rows of one length, one after the other, are read by row and column. -/
theorem getElem?_flatMap_rows {α β : Type} {f : α → List β} {width : Nat}
    (hf : ∀ a, (f a).length = width) {x : Nat} (hx : x < width) (rows : List α) :
    ∀ y, (rows.flatMap f)[y * width + x]? = rows[y]?.bind fun a => (f a)[x]? := by
  induction rows with
  | nil => intro y; rfl
  | cons a rows ih =>
      intro y
      rw [List.flatMap_cons]
      cases y with
      | zero =>
          rw [Nat.zero_mul, Nat.zero_add, List.getElem?_append_left (by rw [hf]; exact hx)]
          rfl
      | succ y =>
          have hrest : (y + 1) * width + x - width = y * width + x := by
            rw [Nat.add_mul, Nat.one_mul]
            omega
          rw [List.getElem?_append_right (by rw [hf, Nat.add_mul]; omega), hf, hrest, ih]
          rfl

/-- What the first pass leaves for a column of the source, at a row of the result. -/
theorem getElem?_columnPass (image : Image) {height x y : Nat} (hx : x < image.width)
    (hy : y < height) :
    (columnPass image height)[y * image.width + x]? =
      some ((taps image.height height y).sum fun j => Sample.ofPixel (image.pixel x j)) := by
  have hrow : ∀ t : Taps, ((Array.range image.width).map fun x =>
      t.sum fun j => Sample.ofPixel (image.pixel x j)).toList.length = image.width := by
    intro t
    rw [Array.length_toList, Array.size_map, Array.size_range]
  unfold columnPass
  rw [← Array.getElem?_toList, Array.toList_flatMap, getElem?_flatMap_rows hrow hx]
  simp [hx, hy]

section Pixel

variable {image : Image} {dst : Bounds} {x y : Nat}

/-- **A scaled pixel is a sum along a row of sums along columns,** as a byte. -/
theorem get_resample (hne : image.bounds.isEmpty = false) (hsize : image.bounds ≠ dst)
    (hx : x < dst.width) (hy : y < dst.height) (c : Channel) :
    ((resample image dst).pixel x y).get c =
      Single.toByte (Single.clamp
        ((taps image.width dst.width x).total fun i =>
          (taps image.height dst.height y).total fun j => ((image.pixel i j).get c).toFloat32)
        0 255) := by
  have hwindow := isWindow_taps (Bounds.isEmpty_eq_false_iff.mp hne).1 dst.width x
  have hacross : ((Array.range dst.width).map (taps image.width dst.width)).getD x ⟨0, []⟩ =
      taps image.width dst.width x := by
    simp [hx]
  have hbyte : ∀ s : Sample,
      s.toPixel.get c = Single.toByte (Single.clamp (s.get c) 0 255) := by
    intro s
    cases c <;> rfl
  have hchannel : ∀ p : Pixel, (Sample.ofPixel p).get c = (p.get c).toFloat32 := by
    intro p
    cases c <;> rfl
  rw [resample, if_neg hsize]
  dsimp only
  rw [Image.pixel_generate hx hy, hacross, hbyte, Taps.get_sum]
  congr 2
  refine Taps.total_congr fun i hi => ?_
  rw [Array.getD_eq_getD_getElem?,
    getElem?_columnPass image (lt_of_lt_of_le hi hwindow.inside) hy, Option.getD_some, Taps.get_sum]
  simp only [hchannel]

end Pixel

end Scale

/-! ## Scaled images -/

/-- One image is another one, scaled to its own size. -/
structure Image.IsScaled (scaled image : Image) : Prop where
  /-- At its own size an image stays as it is. -/
  same : scaled.bounds = image.bounds → scaled = image
  /-- At any other size each number of each pixel is computed, and from the source alone. -/
  computed : scaled.bounds ≠ image.bounds → ∀ x y, x < scaled.width → y < scaled.height →
    ∃ across down : Scale.Taps,
      across.IsWindow image.width scaled.width x ∧ down.IsWindow image.height scaled.height y
        ∧ ∀ c, (scaled.pixel x y).get c =
          Single.toByte (Single.clamp
            (across.total fun i => down.total fun j => ((image.pixel i j).get c).toFloat32) 0 255)

/-- **Scaling writes every pixel of the size it scales to.** -/
theorem Scale.isScaled_resample {image : Image} (hne : image.bounds.isEmpty = false)
    (dst : Bounds) : (resample image dst).IsScaled image := by
  obtain ⟨hw, hh⟩ := Bounds.isEmpty_eq_false_iff.mp hne
  have hbounds := bounds_resample image dst
  constructor
  · intro hsame
    exact if_pos (hsame.symm.trans hbounds)
  · intro hother x y hx hy
    have hwidth : (resample image dst).width = dst.width := congrArg Bounds.width hbounds
    have hheight : (resample image dst).height = dst.height := congrArg Bounds.height hbounds
    rw [hwidth] at hx ⊢
    rw [hheight] at hy ⊢
    rw [hbounds] at hother
    exact ⟨_, _, isWindow_taps hw dst.width x, isWindow_taps hh dst.height y,
      get_resample hne hother.symm hx hy⟩

end RasterScript
