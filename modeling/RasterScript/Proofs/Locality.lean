import Mathlib.Data.List.Basic
import RasterScript.Proofs.Cropping
import RasterScript.Proofs.Filters
import RasterScript.Proofs.Samples

/-!
# How far a filter looks

A pixel of a filtered image depends on the pixels around it, up to the filter's
reach and no further. So it makes no difference to it whether the image is cut
before or after the filter, as long as the cut is not within reach
(`filter_crop_commutes`).

Where a side of the part is a side of the whole as well, the filter meets the same
border in both and may be as near to it as can be. That is what `Clear` says, one
axis at a time. Filters that repeat the border take a tap from a clamped place, and
at a clear place clamping in the part is clamping in the whole (`Clear.tap`).
Filters that skip what is outside lose nothing, since what they sample is in the
part if it is in the whole (`Clear.mem_iff`).

A blur is two passes, and the second reads rows that the first has averaged. No
pixel of those rows is nearer to the left or right side than the one that is
computed, so the first pass is the same along the whole column (`rows_part`).
-/

namespace RasterScript

/-! ## Places out of reach of a cut -/

/--
A place along one axis of a part, `length` places from `start` on out of `whole`:
it is `reach` away from both ends, but for those that are ends of the whole.
-/
structure Clear (start length whole reach k : Nat) : Prop where
  inside : k < length
  first : reach ≤ k ∨ start = 0
  last : reach ≤ length - 1 - k ∨ start + length = whole

section Clear

variable {start length whole reach k : Nat} (h : Clear start length whole reach k)
  (hw : start + length ≤ whole)
include h hw

/-- **Clamping to the part is clamping to the whole.** -/
theorem Clear.tap {i : Nat} (hi : i ≤ 2 * reach) :
    min (k + i - reach) (length - 1) < length
      ∧ start + min (k + i - reach) (length - 1) =
        min (start + k + i - reach) (whole - 1) := by
  obtain ⟨hinside, hfirst, hlast⟩ := h
  omega

/-- **What is within reach is in the part if it is in the whole.** -/
theorem Clear.mem_iff {j : Nat} (hlow : -(reach : Int) ≤ (j : Int) - (start + k : Nat))
    (hhigh : (j : Int) - (start + k : Nat) ≤ reach) :
    j < whole ↔ start ≤ j ∧ j - start < length := by
  obtain ⟨hinside, hfirst, hlast⟩ := h
  omega

end Clear

/-- A function on images that commutes with cutting at every place with no cut within reach. -/
def HasReach (f : Image → Image) (reach : Nat) : Prop :=
  ∀ {part whole : Image} {x0 y0 x y : Nat}, part.IsPart whole x0 y0 →
    Clear x0 part.width whole.width reach x → Clear y0 part.height whole.height reach y →
    (f part).pixel x y = (f whole).pixel (x0 + x) (y0 + y)

/-! ## Single pixels -/

theorem hasReach_map (adjust : Pixel → Pixel) : HasReach (fun image => image.map adjust) 0 := by
  intro part whole x0 y0 x y hpart hx hy
  obtain ⟨hwx, hwy⟩ := hpart.inside hx.inside hy.inside
  dsimp only
  rw [Image.pixel_map _ _ hx.inside hy.inside, Image.pixel_map _ _ hwx hwy,
    hpart.pixel x y hx.inside hy.inside]

/-! ## Three by three pixels -/

namespace Convolve

theorem window_part {part whole : Image} {x0 y0 x y : Nat} (hpart : part.IsPart whole x0 y0)
    (hx : Clear x0 part.width whole.width 1 x) (hy : Clear y0 part.height whole.height 1 y) :
    window part x y = window whole (x0 + x) (y0 + y) := by
  refine List.map_congr_left fun i hi => ?_
  have hi' : i < 9 := List.mem_range.mp hi
  obtain ⟨htx, hx'⟩ := hx.tap hpart.columns (i := i % 3) (by omega)
  obtain ⟨hty, hy'⟩ := hy.tap hpart.rows (i := i / 3) (by omega)
  rw [hpart.pixel _ _ htx hty, hx', hy']

theorem hasReach_onWindows (f : List UInt8 → Float32) :
    HasReach (fun image => onWindows image f) 1 := by
  intro part whole x0 y0 x y hpart hx hy
  obtain ⟨hwx, hwy⟩ := hpart.inside hx.inside hy.inside
  have hpixel := hpart.pixel x y hx.inside hy.inside
  dsimp only [onWindows]
  rw [Image.pixel_generate hx.inside hy.inside, Image.pixel_generate hwx hwy,
    window_part hpart hx hy, hpixel]

end Convolve

/-! ## Disks -/

namespace Neighbourhood

theorem places_part {part whole : Image} {x0 y0 x y radius : Nat}
    (hpart : part.IsPart whole x0 y0) (hx : Clear x0 part.width whole.width radius x)
    (hy : Clear y0 part.height whole.height radius y) :
    ((places part.bounds radius x y).map fun p => (x0 + p.1, y0 + p.2)).Perm
      (places whole.bounds radius (x0 + x) (y0 + y)) := by
  obtain ⟨hwx, hwy⟩ := hpart.inside hx.inside hy.inside
  have hdist : ∀ p : Nat × Nat,
      distSq (x0 + p.1, y0 + p.2) (x0 + x, y0 + y) = distSq p (x, y) := by
    intro p
    unfold distSq
    push_cast
    rw [add_sub_add_left_eq_sub, add_sub_add_left_eq_sub]
  refine places_perm (fun p _ q _ heq => ?_) fun q => ?_
  · obtain ⟨hfst, hsnd⟩ := Prod.mk.inj heq
    exact Prod.ext (by omega) (by omega)
  · rw [mem_places hwx hwy]
    constructor
    · rintro ⟨hqx, hqy, hnear⟩
      obtain ⟨⟨hlx, hhx⟩, hly, hhy⟩ := near_of_distSq hnear
      obtain ⟨hsx, hinx⟩ := (hx.mem_iff hpart.columns hlx hhx).mp hqx
      obtain ⟨hsy, hiny⟩ := (hy.mem_iff hpart.rows hly hhy).mp hqy
      have heq : (x0 + (q.1 - x0), y0 + (q.2 - y0)) = q := Prod.ext (by omega) (by omega)
      refine ⟨(q.1 - x0, q.2 - y0), (mem_places hx.inside hy.inside).mpr ⟨hinx, hiny, ?_⟩, heq⟩
      rw [← hdist, heq]
      exact hnear
    · rintro ⟨p, hp, rfl⟩
      obtain ⟨hpx, hpy, hnear⟩ := (mem_places hx.inside hy.inside).mp hp
      obtain ⟨hqx, hqy⟩ := hpart.inside hpx hpy
      exact ⟨hqx, hqy, by rw [hdist]; exact hnear⟩

theorem hasReach_filter (statistic : Statistic) (size : Int32) :
    HasReach (fun image => filter image statistic size) (reach size) := by
  intro part whole x0 y0 x y hpart hx hy
  by_cases hsmall : diameter size < 3
  · dsimp only
    rw [filter_small hsmall, filter_small hsmall]
    exact hpart.pixel x y hx.inside hy.inside
  · obtain ⟨hwx, hwy⟩ := hpart.inside hx.inside hy.inside
    refine pixel_filter_congr hsmall statistic hx.inside hy.inside hwx hwy
      (places_part hpart hx hy) fun p hp => ?_
    obtain ⟨hpx, hpy, _⟩ := (mem_places hx.inside hy.inside).mp hp
    exact hpart.pixel p.1 p.2 hpx hpy

end Neighbourhood

/-! ## Blurring -/

namespace Blur

theorem average_congr {weights : List Nat} {f g : Nat → Pixel}
    (h : ∀ i < weights.length, f i = g i) : average weights f = average weights g := by
  unfold average
  dsimp only
  rw [List.foldl_ext _ _ _ fun sums tap htap => ?_]
  obtain ⟨weight, i⟩ := tap
  obtain ⟨_, hi, _⟩ := List.mem_zipIdx htap
  dsimp only
  rw [h i (by omega)]

section Passes

variable {part whole : Image} {x0 y0 x y : Nat} {weights : List Nat}

/-- Averaging rows only looks along the row. -/
theorem rows_part (hpart : part.IsPart whole x0 y0)
    (hx : Clear x0 part.width whole.width (weights.length / 2) x) (hy : y < part.height) :
    (rows part weights).pixel x y = (rows whole weights).pixel (x0 + x) (y0 + y) := by
  obtain ⟨hwx, hwy⟩ := hpart.inside hx.inside hy
  dsimp only [rows]
  rw [Image.pixel_generate hx.inside hy, Image.pixel_generate hwx hwy]
  refine average_congr fun i hi => ?_
  obtain ⟨htap, heq⟩ := hx.tap hpart.columns (i := i) (by omega)
  rw [hpart.pixel _ _ htap hy, heq]

theorem hasReach_passes (weights : List Nat) :
    HasReach (fun image => columns (rows image weights) weights) (weights.length / 2) := by
  intro part whole x0 y0 x y hpart hx hy
  obtain ⟨hwx, hwy⟩ := hpart.inside hx.inside hy.inside
  have hleft : (columns (rows part weights) weights).pixel x y = _ :=
    Image.pixel_generate hx.inside hy.inside
  have hright : (columns (rows whole weights) weights).pixel (x0 + x) (y0 + y) = _ :=
    Image.pixel_generate hwx hwy
  dsimp only
  rw [hleft, hright]
  refine average_congr fun i hi => ?_
  -- every row of the column is averaged alike, up to the last one that is tapped
  obtain ⟨htap, heq⟩ := hy.tap hpart.rows (i := i) (by omega)
  exact (rows_part hpart hx htap).trans (congrArg _ heq)

end Passes

theorem length_kernel (sigma : Float32) : (kernel sigma).length = 2 * radius sigma + 1 := by
  simp only [kernel, heights, List.length_modify, List.length_map, List.length_append,
    List.length_reverse, List.length_tail, List.length_range]
  omega

/-- How far a blur looks: nowhere if it changes nothing. -/
def reach (sigma : Float32) : Nat := if isEffective sigma then radius sigma else 0

theorem hasReach_blur (sigma : Float32) :
    HasReach (fun image => blur image sigma) (reach sigma) := by
  intro part whole x0 y0 x y hpart hx hy
  dsimp only [blur]
  unfold reach at hx hy
  cases heffective : isEffective sigma with
  | false =>
      rw [if_neg (by simp), if_neg (by simp)]
      exact hpart.pixel x y hx.inside hy.inside
  | true =>
      have hhalf : (kernel sigma).length / 2 = radius sigma := by
        rw [length_kernel]
        omega
      rw [heffective, if_pos rfl, ← hhalf] at hx hy
      rw [if_pos rfl, if_pos rfl]
      exact hasReach_passes (kernel sigma) hpart hx hy

theorem hasReach_unsharp (sigma amount threshold : Float32) :
    HasReach (fun image => unsharp image sigma amount threshold) (reach sigma) := by
  intro part whole x0 y0 x y hpart hx hy
  obtain ⟨hwx, hwy⟩ := hpart.inside hx.inside hy.inside
  have hblurred := hasReach_blur sigma hpart hx hy
  have hpixel := hpart.pixel x y hx.inside hy.inside
  dsimp only [unsharp] at hblurred ⊢
  rw [Image.pixel_generate hx.inside hy.inside, Image.pixel_generate hwx hwy, hblurred, hpixel]

end Blur

/-! ## Rendering -/

namespace Operation

/-- How far a filter looks; other operations are not filters. -/
def reach? : Operation → Option Nat
  | edge | emboss | sobel => some 1
  | neighbourhood _ size => some (Neighbourhood.reach size)
  | blur sigma | unsharpMask sigma _ _ => some (Blur.reach sigma)
  | op => if op.isAdjustment then some 0 else none

theorem filters_of_reach? {op : Operation} {reach : Nat} (h : op.reach? = some reach) :
    ∃ f, op.Filters f ∧ HasReach f reach := by
  have hstencil : ∀ {op : Operation} {f : List UInt8 → Float32},
      op.reach? = some 1 → op.reach? = some reach →
      op.Filters (fun image => Convolve.onWindows image f) →
      ∃ f, op.Filters f ∧ HasReach f reach := by
    intro op f hone hreach hfilters
    obtain rfl := Option.some.inj (hone.symm.trans hreach)
    exact ⟨_, hfilters, Convolve.hasReach_onWindows f⟩
  cases op with
  | edge => exact hstencil rfl h filters_edge
  | emboss => exact hstencil rfl h filters_emboss
  | sobel => exact hstencil rfl h filters_sobel
  | neighbourhood statistic size =>
      obtain rfl := Option.some.inj h
      exact ⟨_, filters_neighbourhood statistic size, Neighbourhood.hasReach_filter _ _⟩
  | blur sigma =>
      obtain rfl := Option.some.inj h
      exact ⟨_, filters_blur sigma, Blur.hasReach_blur sigma⟩
  | unsharpMask sigma amount level =>
      obtain rfl := Option.some.inj h
      exact ⟨_, filters_unsharpMask sigma amount level, Blur.hasReach_unsharp _ _ _⟩
  | _ =>
      simp only [reach?, Option.ite_none_right_eq_some] at h
      obtain ⟨hadjustment, hzero⟩ := h
      obtain rfl := Option.some.inj hzero
      exact ⟨_, filters_adjustment hadjustment, hasReach_map _⟩

end Operation

/-- A rectangle from `(x0, y0)` up to, but not including, `(x1, y1)`. -/
def Rect.between (x0 y0 x1 y1 : Nat) : Rect := ⟨x0, y0, x1, y1⟩

/-- The operation that cuts out such a rectangle. -/
def Operation.cropTo (x0 y0 x1 y1 : Nat) : Operation :=
  .crop (Int32.ofNat x0) (Int32.ofNat y0) (Int32.ofNat x1) (Int32.ofNat y1)

section Crop

variable {x0 y0 x1 y1 : Nat} {image : Image} (hx : x0 < x1) (hx1 : x1 ≤ image.width)
  (hy : y0 < y1) (hy1 : y1 ≤ image.height)
include hx hx1 hy hy1

theorem Region.inside_between : (Rect.between x0 y0 x1 y1).Inside image.bounds where
  left := Int.natCast_nonneg x0
  columns := Int.ofNat_lt.mpr hx
  right := Int.ofNat_le.mpr hx1
  top := Int.natCast_nonneg y0
  rows := Int.ofNat_lt.mpr hy
  bottom := Int.ofNat_le.mpr hy1

theorem Region.bounds_between :
    (Rect.between x0 y0 x1 y1).bounds.width = x1 - x0
      ∧ (Rect.between x0 y0 x1 y1).bounds.height = y1 - y0 := by
  obtain ⟨hwidth, hheight⟩ := (Region.inside_between hx hx1 hy hy1).size
  dsimp only [Rect.between] at hwidth hheight ⊢
  omega

theorem Region.isPart_cut :
    (Region.cut image (Rect.between x0 y0 x1 y1)).IsPart image x0 y0 :=
  (Region.inside_between hx hx1 hy hy1).isPart_cut

variable (ha : image.bounds.isAllocatable = true)
include ha

theorem Region.isAllocatable_between :
    (Rect.between x0 y0 x1 y1).bounds.isAllocatable = true :=
  (Region.inside_between hx hx1 hy hy1).isAllocatable ha

/-- The sides of an image that may be made and has pixels fit in signed 32 bits. -/
theorem Region.crop?_between :
    Region.crop? image.bounds (Int32.ofNat x0) (Int32.ofNat y0) (Int32.ofNat x1)
      (Int32.ofNat y1) = some (Rect.between x0 y0 x1 y1) := by
  have hx1' : x1 ≤ image.bounds.width := hx1
  have hy1' : y1 ≤ image.bounds.height := hy1
  have hne : image.bounds.isEmpty = false := Bounds.isEmpty_eq_false_iff.mpr (by omega)
  obtain ⟨hw, hh⟩ := Bounds.side_le ha hne
  have hcorner : ∀ n, n ≤ Bounds.maxArea → (Int32.ofNat n).toInt = n := by
    intro n hn
    refine Int32.toInt_ofNat_of_lt ?_
    unfold Bounds.maxArea at hn
    omega
  unfold Region.crop?
  rw [hcorner x0 (by omega), hcorner y0 (by omega), hcorner x1 (by omega), hcorner y1 (by omega)]
  unfold Rect.intersect? Rect.ofCorners Rect.ofBounds Rect.between
  dsimp only
  rw [if_neg (by omega)]
  simp only [Option.some.injEq, Rect.mk.injEq]
  omega

theorem image_cropTo :
    (Render.image Engine.plain image [.cropTo x0 y0 x1 y1] ()).1 =
      .ok (Region.cut image (Rect.between x0 y0 x1 y1)) :=
  (image_crop ha _ _ _ _).trans (congrArg (fun region => Except.ok (Region.cut? image region))
    (Region.crop?_between hx hx1 hy hy1 ha))

end Crop

/--
**Cutting and filtering commute where the cut is out of reach.** The image may be
made, the rectangle is inside it and not empty, and the operation is a filter. Then
both orders can be rendered, to images of the rectangle's size, and these agree at
every place that is at least the filter's reach away from each side of the
rectangle which is not a side of the image.
-/
theorem filter_crop_commutes {image : Image} (ha : image.bounds.isAllocatable = true)
    {op : Operation} {reach : Nat} (hop : op.reach? = some reach) {x0 y0 x1 y1 : Nat}
    (hx : x0 < x1) (hx1 : x1 ≤ image.width) (hy : y0 < y1) (hy1 : y1 ≤ image.height) :
    let rendered (ops : List Operation) := (Render.image Engine.plain image ops ()).1
    let crop := Operation.cropTo x0 y0 x1 y1
    ∃ cutFirst cutLast, rendered [crop, op] = .ok cutFirst ∧ rendered [op, crop] = .ok cutLast
      ∧ (cutFirst.width = x1 - x0 ∧ cutFirst.height = y1 - y0)
      ∧ (cutLast.width = x1 - x0 ∧ cutLast.height = y1 - y0)
      ∧ ∀ x y, x0 ≤ x → x < x1 → y0 ≤ y → y < y1 →
          (reach ≤ x - x0 ∨ x0 = 0) → (reach ≤ x1 - 1 - x ∨ x1 = image.width) →
          (reach ≤ y - y0 ∨ y0 = 0) → (reach ≤ y1 - 1 - y ∨ y1 = image.height) →
          cutFirst.pixel (x - x0) (y - y0) = cutLast.pixel (x - x0) (y - y0) := by
  intro rendered crop
  obtain ⟨f, hf, hreach⟩ := Operation.filters_of_reach? hop
  have hwidth : (f image).width = image.width := congrArg Bounds.width (hf.bounds image)
  have hheight : (f image).height = image.height := congrArg Bounds.height (hf.bounds image)
  have haf : (f image).bounds.isAllocatable = true := by rw [hf.bounds, ha]
  let part := Region.cut image (Rect.between x0 y0 x1 y1)
  have hpart := Region.isPart_cut hx hx1 hy hy1
  have hx1' : x1 ≤ (f image).width := hwidth ▸ hx1
  have hy1' : y1 ≤ (f image).height := hheight ▸ hy1
  have hfpart := Region.isPart_cut hx hx1' hy hy1'
  obtain ⟨hw, hh⟩ := Region.bounds_between hx hx1 hy hy1
  have hap : part.bounds.isAllocatable = true :=
    Region.isAllocatable_between hx hx1 hy hy1 ha
  refine ⟨f part, Region.cut (f image) (Rect.between x0 y0 x1 y1), ?_, ?_, ?_, ⟨hw, hh⟩, ?_⟩
  · exact image_plain_append (image_cropTo hx hx1 hy hy1 ha) (hf.image hap)
  · exact image_plain_append (hf.image ha)
      (image_cropTo hx hx1' hy hy1' haf)
  · have hbounds := hf.bounds part
    exact ⟨(congrArg Bounds.width hbounds).trans hw, (congrArg Bounds.height hbounds).trans hh⟩
  · intro x y hxl hxh hyl hyh hfirst hlast htop hbottom
    have hpw : part.width = x1 - x0 := hw
    have hph : part.height = y1 - y0 := hh
    have hcx : Clear x0 part.width image.width reach (x - x0) :=
      ⟨by omega, hfirst, by omega⟩
    have hcy : Clear y0 part.height image.height reach (y - y0) :=
      ⟨by omega, htop, by omega⟩
    calc (f part).pixel (x - x0) (y - y0)
        = (f image).pixel (x0 + (x - x0)) (y0 + (y - y0)) := hreach hpart hcx hcy
      _ = (Region.cut (f image) (Rect.between x0 y0 x1 y1)).pixel (x - x0) (y - y0) :=
        (hfpart.pixel _ _ hcx.inside hcy.inside).symm

/--
A disk of five pixels across in the upper right of an image. The place is in its top
row and last column, and two pixels away from the two sides that are cut.
-/
theorem filter_crop_commutes_corner :
    let image := Image.generate ⟨6, 5, by decide, by decide⟩ fun x y =>
      if x = y then Pixel.white else Pixel.clear
    let rendered (ops : List Operation) := (Render.image Engine.plain image ops ()).1
    let median := Operation.neighbourhood .median 5
    image.bounds.isAllocatable = true ∧ median.reach? = some 2
      ∧ ∃ cutFirst cutLast, rendered [.cropTo 3 0 6 3, median] = .ok cutFirst
        ∧ rendered [median, .cropTo 3 0 6 3] = .ok cutLast
        ∧ cutFirst.pixel 2 0 = cutLast.pixel 2 0 := by
  intro image rendered median
  have hallocatable : image.bounds.isAllocatable = true := rfl
  have hreach : median.reach? = some 2 := rfl
  obtain ⟨cutFirst, cutLast, hfirst, hlast, _, _, hagree⟩ :=
    filter_crop_commutes hallocatable hreach (show 3 < 6 by decide) (by decide)
      (show 0 < 3 by decide) (by decide)
  refine ⟨hallocatable, hreach, cutFirst, cutLast, hfirst, hlast, ?_⟩
  exact hagree 5 0 (by decide) (by decide) (by decide) (by decide) (.inl (by decide))
    (.inr rfl) (.inr rfl) (.inl (by decide))

end RasterScript
