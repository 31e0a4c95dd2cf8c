import RasterScript.Proofs.Resampling

/-!
# The centre of an image

Two operations keep the middle of an image: a crop to a size, and a fill, which
first scales the image to cover the size that is wanted. The middle is a rectangle
of its own (`Region.centre`), with margins that differ by at most one pixel on
either axis, and it is inside the image if its sides are no longer than those of the
image (`centre_inside`).

For a fill they are. One side of the cover is a quotient that has been rounded, but
it is never taken as less than the side that is wanted (`Scale.le_cover`), and the
other is exactly that (`Scale.cover_tight`). So every pixel of the result comes from
the scaled image, whatever the quotient may be, and every pixel of the scaled image is
written by the scaling (`Scale.isScaled_resample`). Both together are `fill_covered`.
-/

namespace RasterScript

/-! ## Covers -/

/-- **A cover is no larger than it must be on one axis.** -/
theorem Scale.cover_tight (src dst : Bounds) :
    (cover src dst).width = dst.width ∨ (cover src dst).height = dst.height := by
  unfold cover
  dsimp only
  split
  · exact .inl (Bounds.clampSide_natCast dst.width_le)
  · exact .inr (Bounds.clampSide_natCast dst.height_le)

/-- What a fill makes is what is asked for. -/
theorem Scale.fillBounds_sides {src : Bounds} (hne : src.isEmpty = false) {width height : Int32}
    (hw : 0 < width.toInt) (hh : 0 < height.toInt) :
    (fillBounds src width height).width = width.toInt.toNat
      ∧ (fillBounds src width height).height = height.toInt.toNat := by
  have hpositive : ¬ (width ≤ 0 ∨ height ≤ 0 ∨ src.isEmpty = true) := by
    rw [Int32.le_iff_toInt_le, Int32.le_iff_toInt_le, Int32.toInt_zero, hne]
    simp only [Bool.false_eq_true, or_false]
    omega
  have hwidth := width.toInt_lt
  have hheight := height.toInt_lt
  rw [fillBounds, if_neg hpositive]
  simp only [Bounds.ofInts, Bounds.clampSide, maxSide]
  omega

/-! ## The middle of a size -/

namespace Region

/-- A rectangle in the middle of an image; the left and the upper margin are the smaller ones. -/
def centre (src : Bounds) (w h : Nat) : Rect where
  x0 := ((src.width - w) / 2 : Nat)
  y0 := ((src.height - h) / 2 : Nat)
  x1 := ((src.width - w) / 2 + w : Nat)
  y1 := ((src.height - h) / 2 + h : Nat)

section Centre

variable {src : Bounds} {w h : Nat} (hw : 0 < w) (hwle : w ≤ src.width) (hh : 0 < h)
  (hhle : h ≤ src.height)
include hw hwle hh hhle

theorem centre_inside : (centre src w h).Inside src := by
  constructor <;> dsimp only [centre] <;> omega

theorem centre_bounds : (centre src w h).bounds.width = w ∧ (centre src w h).bounds.height = h := by
  obtain ⟨hwidth, hheight⟩ := (centre_inside hw hwle hh hhle).size
  dsimp only [centre] at hwidth hheight ⊢
  omega

end Centre

theorem centred?_eq {src : Bounds} (hne : src.isEmpty = false) {width height : Int}
    (hw : 0 < width) (hh : 0 < height) :
    centred? src width height =
      some (centre src (min width.toNat src.width) (min height.toNat src.height)) := by
  have hpositive : ¬ (width ≤ 0 ∨ height ≤ 0 ∨ src.isEmpty = true) := by
    rw [hne]
    simp only [Bool.false_eq_true, or_false]
    omega
  rw [centred?, if_neg hpositive]
  simp only [centre, Option.some.injEq, Rect.mk.injEq]
  omega

/-- The middle of an image, as much of it as fits in a size. -/
def middle (image : Image) (width height : Int) : Image :=
  cut? image (centred? image.bounds width height)

section Middle

variable {image : Image} {width height : Int}

theorem middle_eq_empty (h : width ≤ 0 ∨ height ≤ 0 ∨ image.bounds.isEmpty = true) :
    middle image width height = Image.blank Bounds.empty := by
  rw [middle, centred?, if_pos h]
  rfl

variable (hne : image.bounds.isEmpty = false) (hw : 0 < width) (hh : 0 < height)
include hne hw hh

/-- **The middle of an image is a part of it**, as large as it can be, with even margins. -/
theorem middle_isPart :
    let w := min width.toNat image.width
    let h := min height.toNat image.height
    (middle image width height).width = w ∧ (middle image width height).height = h
      ∧ (middle image width height).IsPart image ((image.width - w) / 2)
        ((image.height - h) / 2) := by
  intro w h
  have hsides : 0 < image.width ∧ 0 < image.height := Bounds.isEmpty_eq_false_iff.mp hne
  have hregion : middle image width height = cut image (centre image.bounds w h) := by
    rw [middle, centred?_eq hne hw hh]
    rfl
  have hw0 : 0 < w := by omega
  have hh0 : 0 < h := by omega
  have hwle : w ≤ image.bounds.width := min_le_right _ _
  have hhle : h ≤ image.bounds.height := min_le_right _ _
  obtain ⟨hwidth, hheight⟩ := centre_bounds hw0 hwle hh0 hhle
  rw [hregion]
  exact ⟨hwidth, hheight, (centre_inside hw0 hwle hh0 hhle).isPart_cut⟩

end Middle

/-- **Keeping the middle a second time changes nothing.** -/
theorem middle_middle (image : Image) (width height : Int) :
    middle (middle image width height) width height = middle image width height := by
  by_cases hnone : width ≤ 0 ∨ height ≤ 0 ∨ image.bounds.isEmpty = true
  · rw [middle_eq_empty hnone]
    exact middle_eq_empty (.inr (.inr rfl))
  · obtain ⟨hw, hh, hne⟩ : 0 < width ∧ 0 < height ∧ image.bounds.isEmpty = false := by
      simpa using hnone
    obtain ⟨hwidth, hheight, -⟩ := middle_isPart hne hw hh
    have hsides : 0 < image.width ∧ 0 < image.height := Bounds.isEmpty_eq_false_iff.mp hne
    have hagain : (middle image width height).bounds.isEmpty = false :=
      Bounds.isEmpty_eq_false_iff.mpr (by
        show 0 < (middle image width height).width ∧ 0 < (middle image width height).height
        omega)
    obtain ⟨hwidth', hheight', hpart⟩ := middle_isPart hagain hw hh
    exact hpart.eq_whole (by omega) (by omega)

end Region

/-! ## Rendering -/

section Rendered

variable {image out : Image} {width height : Int32}

theorem image_cropToSize :
    (Render.image Engine.plain image [.cropToSize width height] ()).1 = .ok out ↔
      (Region.middle image width.toInt height.toInt).bounds.isAllocatable = true
        ∧ Region.middle image width.toInt height.toInt = out := by
  have hbounds := Region.bounds_cut? image
    (Region.centred? image.bounds width.toInt height.toInt)
  rw [Region.middle, hbounds]
  constructor
  · intro hout
    have ha := (image_single_iff.mp ⟨out, hout⟩).result
    exact ⟨ha, Except.ok.inj ((image_region ha rfl rfl).symm.trans hout)⟩
  · rintro ⟨ha, rfl⟩
    exact image_region ha rfl rfl

/-- A crop to a size, and the same once more. -/
theorem image_cropToSize_twice (image : Image) (width height : Int32) :
    (Render.image Engine.plain image
        [.cropToSize width height, .cropToSize width height] ()).1 =
      (Render.image Engine.plain image [.cropToSize width height] ()).1 := by
  have hboth := image_append Engine.plain_isPure Engine.plain_keepsSize image
    [.cropToSize width height] [.cropToSize width height] ()
  cases hfirst : (Render.image Engine.plain image [.cropToSize width height] ()).1 with
  | error error =>
      rw [hfirst] at hboth
      exact hboth
  | ok out =>
      obtain ⟨ha, rfl⟩ := image_cropToSize.mp hfirst
      refine image_plain_append hfirst (image_cropToSize.mpr ?_)
      rw [Region.middle_middle]
      exact ⟨ha, rfl⟩

section Fill

variable (hne : image.bounds.isEmpty = false) (hw : 0 < width.toInt) (hh : 0 < height.toInt)
include hne hw hh

theorem fits_resizeToFill_iff :
    (Operation.resizeToFill width height).Fits image.bounds ↔
      (Scale.cover image.bounds (Scale.fillBounds image.bounds width height)).isAllocatable =
        true := by
  obtain ⟨hwidth, hheight⟩ := Scale.fillBounds_sides hne hw hh
  have hwanted : (Scale.fillBounds image.bounds width height).isEmpty = false :=
    Bounds.isEmpty_eq_false_iff.mpr (by omega)
  refine ⟨fun hfits => hfits.cover width height rfl hwanted, fun hcover => ⟨?_, ?_⟩⟩
  · obtain ⟨hwle, hhle⟩ := Scale.le_cover image.bounds (Scale.fillBounds image.bounds width height)
    exact Bounds.isAllocatable_of_le hwle hhle hcover
  · intro _ _ hop _
    cases hop
    exact hcover

/-- **A fill is the middle of the image scaled to the cover.** -/
theorem image_resizeToFill :
    let cover := Scale.cover image.bounds (Scale.fillBounds image.bounds width height)
    (Render.image Engine.plain image [.resizeToFill width height] ()).1 = .ok out ↔
      cover.isAllocatable = true
        ∧ Region.middle (Scale.resample image cover) width.toInt height.toInt = out := by
  intro cover
  have hmade : cover.isAllocatable = true →
      (Render.image Engine.plain image [.resizeToFill width height] ()).1 =
        .ok (Region.middle (Scale.resample image cover) width.toInt height.toInt) := by
    intro hcover
    have hfits := (fits_resizeToFill_iff hne hw hh).mpr hcover
    obtain ⟨hwidth, hheight⟩ := Scale.fillBounds_sides hne hw hh
    have hwanted : (Scale.fillBounds image.bounds width height).isEmpty = false :=
      Bounds.isEmpty_eq_false_iff.mpr (by omega)
    have htransform : (Operation.resizeToFill width height).transform image
        (Scale.fillBounds image.bounds width height) =
        .ok (Region.middle (Scale.resample image cover) width.toInt height.toInt) := by
      refine (if_pos hcover).trans ?_
      rw [Region.middle, Scale.bounds_resample, hwidth, hheight, Int.toNat_of_nonneg hw.le,
        Int.toNat_of_nonneg hh.le]
    obtain ⟨made, hmade, hbounds⟩ := transform_fits hfits hwanted
    rw [Except.ok.inj (hmade.symm.trans htransform)] at hbounds
    exact image_plain_single hfits.result (apply_of_transform hbounds htransform)
  constructor
  · intro hout
    have hcover := (fits_resizeToFill_iff hne hw hh).mp (image_single_iff.mp ⟨out, hout⟩)
    exact ⟨hcover, Except.ok.inj ((hmade hcover).symm.trans hout)⟩
  · rintro ⟨hcover, rfl⟩
    exact hmade hcover

end Fill

end Rendered

/--
**A fill leaves nothing uncovered.** Let an image have pixels and let a width and a
height be positive. The cover, whatever its rounded side comes to, is at least as wide
and as high, and no larger on one axis; the size that is wanted is in the middle of it,
with half the excess, rounded down, as its left and its upper margin. The fill can be
rendered exactly if the cover may be made. Then it has the size that is wanted, and each
of its pixels is that of the image scaled to the cover at the same place in the middle.
The scaled image is as large as the cover, and all of it is computed from the image: it
is the image itself where that has the size of the cover, and otherwise each number of
each pixel is a weighted sum over a window of the image that is not empty.

A crop to a size makes the middle of the image itself, no larger than the image, if that
is not too large; to crop it again changes nothing.
-/
theorem fill_covered {image : Image} (hne : image.bounds.isEmpty = false)
    {width height : Int32} (hw : 0 < width.toInt) (hh : 0 < height.toInt) :
    let rendered (ops : List Operation) := (Render.image Engine.plain image ops ()).1
    let w := width.toInt.toNat
    let h := height.toInt.toNat
    let cover := Scale.cover image.bounds (Scale.fillBounds image.bounds width height)
    let left := (cover.width - w) / 2
    let top := (cover.height - h) / 2
    (w ≤ cover.width ∧ h ≤ cover.height ∧ (cover.width = w ∨ cover.height = h))
      ∧ (Region.centred? cover w h = some ⟨left, top, left + w, top + h⟩
        ∧ left + w ≤ cover.width ∧ top + h ≤ cover.height)
      ∧ ((∃ out, rendered [.resizeToFill width height] = .ok out) ↔ cover.isAllocatable = true)
      ∧ (∀ out, rendered [.resizeToFill width height] = .ok out →
          out.width = w ∧ out.height = h ∧ out.IsPart (Scale.resample image cover) left top)
      ∧ ((Scale.resample image cover).bounds = cover
        ∧ (Scale.resample image cover).IsScaled image)
      ∧ ((∃ out, rendered [.cropToSize width height] = .ok out) ↔
          min w image.width * min h image.height ≤ Bounds.maxArea)
      ∧ (∀ out, rendered [.cropToSize width height] = .ok out →
          out.width = min w image.width ∧ out.height = min h image.height
            ∧ out.IsPart image ((image.width - out.width) / 2) ((image.height - out.height) / 2))
      ∧ ∀ a b, rendered [.cropToSize a b, .cropToSize a b] = rendered [.cropToSize a b] := by
  intro rendered w h cover left top
  obtain ⟨hwidth, hheight⟩ := Scale.fillBounds_sides hne hw hh
  obtain ⟨hwle, hhle⟩ : w ≤ cover.width ∧ h ≤ cover.height := by
    have hcover := Scale.le_cover image.bounds (Scale.fillBounds image.bounds width height)
    rwa [hwidth, hheight] at hcover
  have htight : cover.width = w ∨ cover.height = h := by
    have hcover := Scale.cover_tight image.bounds (Scale.fillBounds image.bounds width height)
    rwa [hwidth, hheight] at hcover
  have hcovered : cover.isEmpty = false := Bounds.isEmpty_eq_false_iff.mpr (by omega)
  obtain ⟨hmw, hmh, hmiddle⟩ := Region.middle_isPart hne hw hh
  refine ⟨⟨hwle, hhle, htight⟩, ⟨?_, by omega, by omega⟩, ?_, fun out hout => ?_,
    ⟨Scale.bounds_resample image cover, Scale.isScaled_resample hne cover⟩, ?_,
    fun out hout => ?_, image_cropToSize_twice image⟩
  · rw [Region.centred?_eq hcovered (by omega) (by omega), Int.toNat_natCast, Int.toNat_natCast,
      min_eq_left hwle, min_eq_left hhle]
    simp [Region.centre, left, top]
  · exact image_single_iff.trans (fits_resizeToFill_iff hne hw hh)
  · obtain ⟨-, rfl⟩ := (image_resizeToFill hne hw hh).mp hout
    have hscaled := Scale.bounds_resample image cover
    have hpart := Region.middle_isPart (hscaled ▸ hcovered) hw hh
    rw [Image.width, Image.height, hscaled, min_eq_left hwle, min_eq_left hhle] at hpart
    exact hpart
  · constructor
    · rintro ⟨out, hout⟩
      obtain ⟨ha, -⟩ := image_cropToSize.mp hout
      have harea := of_decide_eq_true ha
      rw [← hmw, ← hmh]
      exact harea
    · intro harea
      rw [← hmw, ← hmh] at harea
      exact ⟨_, image_cropToSize.mpr ⟨decide_eq_true harea, rfl⟩⟩
  · obtain ⟨-, rfl⟩ := image_cropToSize.mp hout
    rw [hmw, hmh]
    exact ⟨rfl, rfl, hmiddle⟩

/--
A wide image in a square is scaled to ten columns and four rows, three columns of which
are too many on the left and three on the right. Each number of each pixel that is left
is a sum over windows of the five columns and the two rows of the image.
-/
theorem fill_covered_wide :
    let image := Image.generate ⟨5, 2, by decide, by decide⟩ fun x y =>
      if x = y then Pixel.white else Pixel.clear
    let rendered (ops : List Operation) := (Render.image Engine.plain image ops ()).1
    (image.bounds.isEmpty = false ∧ 0 < (4 : Int32).toInt)
      ∧ ∃ out, rendered [.resizeToFill 4 4] = .ok out ∧ out.width = 4 ∧ out.height = 4
        ∧ ∀ x y, x < 4 → y < 4 → ∃ across down : Scale.Taps,
            across.IsWindow 5 10 (3 + x) ∧ down.IsWindow 2 4 y
              ∧ ∀ c, (out.pixel x y).get c =
                Single.toByte (Single.clamp
                  (across.total fun i => down.total fun j => ((image.pixel i j).get c).toFloat32)
                  0 255) := by
  intro image rendered
  have hne : image.bounds.isEmpty = false := rfl
  have hpositive : 0 < (4 : Int32).toInt := by decide
  have hwant : (4 : Int32).toInt.toNat = 4 := by decide
  have hcover : Scale.cover image.bounds (Scale.fillBounds image.bounds 4 4) =
      ⟨10, 4, by decide, by decide⟩ := by
    decide +kernel
  obtain ⟨-, -, hmade, hpart, ⟨hbounds, hscaled⟩, -⟩ := fill_covered hne hpositive hpositive
  obtain ⟨out, hout⟩ := hmade.mpr (by rw [hcover]; rfl)
  obtain ⟨hwidth, hheight, hplace⟩ := hpart out hout
  rw [hcover] at hbounds hscaled hplace
  rw [hwant] at hwidth hheight hplace
  generalize Scale.resample image _ = scaled at hbounds hscaled hplace
  have hcolumns : scaled.width = 10 := congrArg Bounds.width hbounds
  have hrows : scaled.height = 4 := congrArg Bounds.height hbounds
  have hother : scaled.bounds ≠ image.bounds := by
    rw [hbounds]
    decide
  have hmiddle : out.IsPart scaled 3 0 := hplace
  refine ⟨⟨hne, hpositive⟩, out, hout, hwidth, hheight, fun x y hx hy => ?_⟩
  obtain ⟨across, down, hacross, hdown, hvalue⟩ :=
    hscaled.computed hother (3 + x) y (by omega) (by omega)
  rw [hcolumns] at hacross
  rw [hrows] at hdown
  refine ⟨across, down, hacross, hdown, fun c => ?_⟩
  rw [hmiddle.pixel x y (by omega) (by omega), Nat.zero_add]
  exact hvalue c

end RasterScript
