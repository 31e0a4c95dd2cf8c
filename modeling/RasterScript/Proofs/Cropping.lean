import RasterScript.Proofs.Emptiness

/-!
# What a crop shows

The corners of a crop are any integers, in any order and anywhere. What counts is
which pixels are between them, and so a rectangle is taken here for the set of its
points (`Rect.Contains`). Clipping is intersection then (`contains_common`), and a
shift is a shift (`contains_shift`); of the corners nothing is left.

An image `Shows` a region of another if it has the size of the region and its
pixels. There is only one such image (`Shows.unique`), so two pipelines that show
the same region make the same image. A crop shows the points of the image that are
between its corners, and a region of a part is a region of the whole, moved to
where the part is (`Shows.of_part`): two crops are one (`crop_shows`).
-/

namespace RasterScript

/-- An image that may be made and has pixels has sides that fit in signed 32 bits. -/
theorem Bounds.side_le {b : Bounds} (ha : b.isAllocatable = true) (hne : b.isEmpty = false) :
    b.width ≤ maxArea ∧ b.height ≤ maxArea := by
  have harea : b.width * b.height ≤ maxArea := of_decide_eq_true ha
  obtain ⟨hw, hh⟩ := isEmpty_eq_false_iff.mp hne
  exact ⟨(Nat.le_mul_of_pos_right _ hh).trans harea, (Nat.le_mul_of_pos_left _ hw).trans harea⟩

theorem Bounds.eq_of_sides {a b : Bounds} (hw : a.width = b.width) (hh : a.height = b.height) :
    a = b := by
  obtain ⟨width, height, hwidth, hheight⟩ := a
  cases hw
  cases hh
  rfl

theorem Bounds.isAllocatable_of_le {a b : Bounds} (hw : a.width ≤ b.width)
    (hh : a.height ≤ b.height) (hb : b.isAllocatable = true) : a.isAllocatable = true :=
  decide_eq_true ((Nat.mul_le_mul hw hh).trans (of_decide_eq_true hb))

/-! ## Rectangles as sets of points -/

namespace Rect

/-- A point of the rectangle. -/
def Contains (r : Rect) (x y : Int) : Prop := r.x0 ≤ x ∧ x < r.x1 ∧ r.y0 ≤ y ∧ y < r.y1

/-- The rectangle that two corners span. -/
def spanned (x1 y1 x2 y2 : Int32) : Rect := ofCorners x1.toInt y1.toInt x2.toInt y2.toInt

/-- The points of both rectangles. -/
def common (r s : Rect) : Rect := ⟨max r.x0 s.x0, max r.y0 s.y0, min r.x1 s.x1, min r.y1 s.y1⟩

/-- The rectangle moved to the right and down. -/
def shift (r : Rect) (dx dy : Int) : Rect := ⟨r.x0 + dx, r.y0 + dy, r.x1 + dx, r.y1 + dy⟩

section Points

variable {r s : Rect} {b : Bounds} {x y : Int}

theorem contains_common : (r.common s).Contains x y ↔ r.Contains x y ∧ s.Contains x y := by
  unfold Contains common
  dsimp only
  omega

theorem contains_shift {dx dy : Int} :
    (r.shift dx dy).Contains x y ↔ r.Contains (x - dx) (y - dy) := by
  unfold Contains shift
  dsimp only
  omega

/-- **Clipping finds the points in common, if there are any.** -/
theorem intersect?_cases (r s : Rect) :
    (r.intersect? s = some (r.common s)
        ∧ (r.common s).x0 < (r.common s).x1 ∧ (r.common s).y0 < (r.common s).y1)
      ∨ (r.intersect? s = none ∧ ∀ x y, ¬ (r.common s).Contains x y) := by
  by_cases hnone : (r.common s).x1 ≤ (r.common s).x0 ∨ (r.common s).y1 ≤ (r.common s).y0
  · refine .inr ⟨if_pos hnone, fun x y hxy => ?_⟩
    unfold Contains at hxy
    omega
  · exact .inl ⟨if_neg hnone, by omega, by omega⟩

/-- A rectangle inside an image, with pixels in it. -/
structure Inside (r : Rect) (b : Bounds) : Prop where
  left : 0 ≤ r.x0
  columns : r.x0 < r.x1
  right : r.x1 ≤ b.width
  top : 0 ≤ r.y0
  rows : r.y0 < r.y1
  bottom : r.y1 ≤ b.height

/-- A rectangle is inside an image if its points are. -/
theorem inside_of_contains (hcolumns : r.x0 < r.x1) (hrows : r.y0 < r.y1)
    (h : ∀ x y, r.Contains x y → (ofBounds b).Contains x y) : r.Inside b := by
  obtain ⟨hleft, -, htop, -⟩ := h r.x0 r.y0 ⟨le_refl _, hcolumns, le_refl _, hrows⟩
  have hlast : (r.x1 - 1 < (b.width : Int)) ∧ r.y1 - 1 < (b.height : Int) := by
    obtain ⟨-, hx, -, hy⟩ := h (r.x1 - 1) (r.y1 - 1) ⟨by omega, by omega, by omega, by omega⟩
    exact ⟨hx, hy⟩
  exact ⟨hleft, hcolumns, by omega, htop, hrows, by omega⟩

section Inside

variable (h : r.Inside b)
include h

/-- The size of a rectangle inside an image is exactly what its corners say. -/
theorem Inside.size :
    (r.bounds.width : Int) = r.x1 - r.x0 ∧ (r.bounds.height : Int) = r.y1 - r.y0 := by
  have hw := b.width_le
  have hh := b.height_le
  obtain ⟨hleft, hcolumns, hright, htop, hrows, hbottom⟩ := h
  simp only [Rect.bounds, Bounds.ofInts, Bounds.clampSide]
  omega

/-- Counted from its corner, a rectangle is all of an image of its size. -/
theorem Inside.contains_sub :
    (ofBounds r.bounds).Contains (x - r.x0) (y - r.y0) ↔ r.Contains x y := by
  obtain ⟨hwidth, hheight⟩ := h.size
  unfold Contains ofBounds
  dsimp only
  omega

/-- A rectangle has no more pixels than the image that it is inside of. -/
theorem Inside.isAllocatable (ha : b.isAllocatable = true) : r.bounds.isAllocatable = true := by
  obtain ⟨hwidth, hheight⟩ := h.size
  obtain ⟨hleft, hcolumns, hright, htop, hrows, hbottom⟩ := h
  exact Bounds.isAllocatable_of_le (by omega) (by omega) ha

/-- Corners and sides of the rectangle are unsigned integers of 32 bits. -/
theorem Inside.toNat_ofInt :
    ∀ v ∈ [r.x0, r.y0, r.x1 - r.x0, r.y1 - r.y0], ((UInt32.ofInt v).toNat : Int) = v := by
  have hw := b.width_le
  have hh := b.height_le
  have hfits : ∀ v : Int, 0 ≤ v → v ≤ maxSide → ((UInt32.ofInt v).toNat : Int) = v := by
    intro v hlow hhigh
    unfold maxSide at hhigh
    rw [UInt32.ofInt, UInt32.toNat_ofNat']
    omega
  obtain ⟨hleft, hcolumns, hright, htop, hrows, hbottom⟩ := h
  simp only [List.forall_mem_cons]
  exact ⟨hfits _ hleft (by omega), hfits _ htop (by omega), hfits _ (by omega) (by omega),
    hfits _ (by omega) (by omega), by simp⟩

/-- A rectangle inside an image that may be made has corners that fit in 32 bits. -/
theorem Inside.exists_corners (ha : b.isAllocatable = true) :
    ∃ x1 y1 x2 y2, spanned x1 y1 x2 y2 = r := by
  obtain ⟨hleft, hcolumns, hright, htop, hrows, hbottom⟩ := h
  have hne : b.isEmpty = false := Bounds.isEmpty_eq_false_iff.mpr (by omega)
  obtain ⟨hw, hh⟩ := Bounds.side_le ha hne
  unfold Bounds.maxArea at hw hh
  have hcorner : ∀ v : Int, 0 ≤ v → v < 2 ^ 31 → (Int32.ofInt v).toInt = v :=
    fun v hlow hhigh => Int32.toInt_ofInt_of_le (by omega) hhigh
  refine ⟨Int32.ofInt r.x0, Int32.ofInt r.y0, Int32.ofInt r.x1, Int32.ofInt r.y1, ?_⟩
  unfold spanned ofCorners
  rw [hcorner _ hleft (by omega), hcorner _ htop (by omega), hcorner _ (by omega) (by omega),
    hcorner _ (by omega) (by omega)]
  rw [min_eq_left hcolumns.le, min_eq_left hrows.le, max_eq_right hcolumns.le,
    max_eq_right hrows.le]

end Inside

/-- Two corners can span the points of any rectangle that has none outside the image. -/
theorem exists_spanning (hb : b.isAllocatable = true)
    (h : ∀ x y, r.Contains x y → (ofBounds b).Contains x y) :
    ∃ x1 y1 x2 y2, ∀ x y, (spanned x1 y1 x2 y2).Contains x y ↔ r.Contains x y := by
  by_cases hproper : r.x0 < r.x1 ∧ r.y0 < r.y1
  · obtain ⟨x1, y1, x2, y2, heq⟩ :=
      (inside_of_contains hproper.1 hproper.2 h).exists_corners hb
    exact ⟨x1, y1, x2, y2, fun x y => by rw [heq]⟩
  · -- no points at all are between a corner and itself
    refine ⟨0, 0, 0, 0, fun x y => ?_⟩
    have hspan : (spanned 0 0 0 0).Contains x y ↔ 0 ≤ x ∧ x < 0 ∧ 0 ≤ y ∧ y < 0 := Iff.rfl
    rw [hspan]
    unfold Contains
    omega

end Points

end Rect

/-- **What a crop cuts out is inside the image, and all that is between the corners.** -/
theorem Region.crop?_cases (src : Bounds) (x1 y1 x2 y2 : Int32) :
    let clipped := (Rect.spanned x1 y1 x2 y2).common (Rect.ofBounds src)
    (Region.crop? src x1 y1 x2 y2 = some clipped ∧ clipped.Inside src)
      ∨ (Region.crop? src x1 y1 x2 y2 = none ∧ ∀ x y, ¬ clipped.Contains x y) := by
  intro clipped
  obtain ⟨hsome, hcolumns, hrows⟩ | hnone :=
    Rect.intersect?_cases (Rect.spanned x1 y1 x2 y2) (Rect.ofBounds src)
  · refine .inl ⟨hsome, Rect.inside_of_contains hcolumns hrows fun x y hxy => ?_⟩
    exact (Rect.contains_common.mp hxy).2
  · exact .inr hnone

/-! ## Parts of images -/

/-- One image is cut out of another, its first pixel being the one at `(x0, y0)` there. -/
structure Image.IsPart (part whole : Image) (x0 y0 : Nat) : Prop where
  /-- No column is beyond the last of the whole. -/
  columns : x0 + part.width ≤ whole.width
  /-- No row is beyond the last of the whole. -/
  rows : y0 + part.height ≤ whole.height
  pixel : ∀ x y, x < part.width → y < part.height →
    part.pixel x y = whole.pixel (x0 + x) (y0 + y)

/-- A place of the part is a place of the whole. -/
theorem Image.IsPart.inside {part whole : Image} {x0 y0 x y : Nat}
    (h : part.IsPart whole x0 y0) (hx : x < part.width) (hy : y < part.height) :
    x0 + x < whole.width ∧ y0 + y < whole.height := by
  have hcolumns := h.columns
  have hrows := h.rows
  omega

/-- A part of a part is a part of the whole. -/
theorem Image.IsPart.trans {part mid whole : Image} {x0 y0 i0 j0 : Nat}
    (h : part.IsPart mid i0 j0) (k : mid.IsPart whole x0 y0) :
    part.IsPart whole (x0 + i0) (y0 + j0) := by
  obtain ⟨hcolumns, hrows, hpixel⟩ := h
  obtain ⟨kcolumns, krows, kpixel⟩ := k
  refine ⟨by omega, by omega, fun x y hx hy => ?_⟩
  rw [hpixel x y hx hy, kpixel _ _ (by omega) (by omega), Nat.add_assoc, Nat.add_assoc]

/-- A part as large as the whole is the whole. -/
theorem Image.IsPart.eq_whole {part whole : Image} {x0 y0 : Nat} (h : part.IsPart whole x0 y0)
    (hw : part.width = whole.width) (hh : part.height = whole.height) : part = whole := by
  obtain ⟨hcolumns, hrows, hpixel⟩ := h
  obtain rfl : x0 = 0 := by omega
  obtain rfl : y0 = 0 := by omega
  refine Image.ext_pixel (Bounds.eq_of_sides hw hh) fun x y hx hy => ?_
  rw [hpixel x y hx hy, Nat.zero_add, Nat.zero_add]

theorem Rect.Inside.size_cut {r : Rect} {image : Image} (h : r.Inside image.bounds) :
    ((Region.cut image r).width : Int) = r.x1 - r.x0
      ∧ ((Region.cut image r).height : Int) = r.y1 - r.y0 := h.size

theorem Rect.Inside.isPart_cut {r : Rect} {image : Image} (h : r.Inside image.bounds) :
    (Region.cut image r).IsPart image r.x0.toNat r.y0.toNat := by
  obtain ⟨hwidth, hheight⟩ := h.size_cut
  obtain ⟨hleft, hcolumns, hright, htop, hrows, hbottom⟩ := h
  have hright' : r.x1 ≤ image.width := hright
  have hbottom' : r.y1 ≤ image.height := hbottom
  exact ⟨by omega, by omega, fun x y hx hy => Image.pixel_generate hx hy⟩

/--
An image has the size of a region of another, and its pixels. Where there are no points
in the region, it has no pixels.
-/
inductive Image.Shows (out image : Image) (region : Int → Int → Prop) : Prop where
  | nothing : out.bounds = Bounds.empty → (∀ x y, ¬ region x y) → out.Shows image region
  | part {x0 y0 : Nat} : out.IsPart image x0 y0 → 0 < out.width → 0 < out.height →
      (∀ x y, region x y ↔ (x0 : Int) ≤ x ∧ x < x0 + out.width ∧ (y0 : Int) ≤ y
        ∧ y < y0 + out.height) →
      out.Shows image region

theorem Rect.Inside.shows_cut {r : Rect} {image : Image} (h : r.Inside image.bounds) :
    (Region.cut image r).Shows image r.Contains := by
  obtain ⟨hwidth, hheight⟩ := h.size_cut
  have hpart := h.isPart_cut
  obtain ⟨hleft, hcolumns, hright, htop, hrows, hbottom⟩ := h
  refine .part hpart (by omega) (by omega) fun x y => ?_
  unfold Contains
  omega

namespace Image.Shows

variable {out out' mid image : Image} {region region' : Int → Int → Prop}

theorem congr (h : out.Shows image region) (hsame : ∀ x y, region x y ↔ region' x y) :
    out.Shows image region' := by
  cases h with
  | nothing hempty hnone => exact .nothing hempty fun x y hxy => hnone x y ((hsame x y).mpr hxy)
  | part hpart hw hh hpoints =>
      exact .part hpart hw hh fun x y => (hsame x y).symm.trans (hpoints x y)

/-- **Only one image shows a region.** -/
theorem unique (h : out.Shows image region) (h' : out'.Shows image region) : out = out' := by
  cases h with
  | nothing hempty hnone =>
      cases h' with
      | nothing hempty' _ =>
          exact Image.eq_of_isEmpty (hempty.trans hempty'.symm) (by rw [hempty]; rfl)
      | @part x0 y0 _ _ _ hpoints => exact absurd ((hpoints x0 y0).mpr (by omega)) (hnone _ _)
  | @part x0 y0 hpart hw hh hpoints =>
      cases h' with
      | nothing _ hnone => exact absurd ((hpoints x0 y0).mpr (by omega)) (hnone _ _)
      | @part x0' y0' hpart' hw' hh' hpoints' =>
          have hsame := fun x y => (hpoints x y).symm.trans (hpoints' x y)
          -- the first and the last point of either rectangle are in the other
          have hfirst := (hsame x0 y0).mp (by omega)
          have hfirst' := (hsame x0' y0').mpr (by omega)
          have hlast := (hsame (x0 + out.width - 1) (y0 + out.height - 1)).mp (by omega)
          have hlast' := (hsame (x0' + out'.width - 1) (y0' + out'.height - 1)).mpr (by omega)
          obtain rfl : x0 = x0' := by omega
          obtain rfl : y0 = y0' := by omega
          have hwidth : out.width = out'.width := by omega
          have hheight : out.height = out'.height := by omega
          refine Image.ext_pixel (Bounds.eq_of_sides hwidth hheight) fun x y hx hy => ?_
          rw [hpart.pixel x y hx hy, hpart'.pixel x y (hwidth ▸ hx) (hheight ▸ hy)]

/-- **A region of a part is a region of the whole, moved to where the part is.** -/
theorem of_part {x0 y0 : Nat} (h : out.Shows mid region) (hpart : mid.IsPart image x0 y0) :
    out.Shows image fun x y => region (x - x0) (y - y0) := by
  cases h with
  | nothing hempty hnone => exact .nothing hempty fun x y => hnone _ _
  | part hout hw hh hpoints =>
      refine .part (hout.trans hpart) hw hh fun x y => (hpoints _ _).trans ?_
      omega

/-- A region has no more pixels than the image it is of. -/
theorem isAllocatable (h : out.Shows image region) (ha : image.bounds.isAllocatable = true) :
    out.bounds.isAllocatable = true := by
  cases h with
  | nothing hempty _ => rw [hempty]; rfl
  | part hpart _ _ _ =>
      exact Bounds.isAllocatable_of_le ((Nat.le_add_left _ _).trans hpart.columns)
        ((Nat.le_add_left _ _).trans hpart.rows) ha

end Image.Shows

/-! ## Rendering -/

/-- An operation that cuts is rendered to what it cuts, if that is not too large. -/
theorem image_region {op : Operation} {image : Image} {region : Option Rect}
    (ha : (Region.bounds region).isAllocatable = true)
    (hbounds : op.bounds image.bounds = Region.bounds region)
    (htransform : op.transform image (op.bounds image.bounds) = .ok (Region.cut? image region)) :
    (Render.image Engine.plain image [op] ()).1 = .ok (Region.cut? image region) :=
  image_plain_single (hbounds ▸ ha)
    (apply_of_transform ((Region.bounds_cut? image region).trans hbounds.symm) htransform)

theorem image_crop {image : Image} (ha : image.bounds.isAllocatable = true)
    (x1 y1 x2 y2 : Int32) :
    (Render.image Engine.plain image [.crop x1 y1 x2 y2] ()).1 =
      .ok (Region.cut? image (Region.crop? image.bounds x1 y1 x2 y2)) := by
  refine image_region ?_ rfl rfl
  obtain ⟨hsome, hinside⟩ | ⟨hnone, -⟩ := Region.crop?_cases image.bounds x1 y1 x2 y2
  · rw [hsome]
    exact hinside.isAllocatable ha
  · rw [hnone]
    rfl

/-- **A crop shows the points of the image that are between its corners.** -/
theorem shows_crop (image : Image) (x1 y1 x2 y2 : Int32) :
    (Region.cut? image (Region.crop? image.bounds x1 y1 x2 y2)).Shows image
      ((Rect.spanned x1 y1 x2 y2).common (Rect.ofBounds image.bounds)).Contains := by
  obtain ⟨hsome, hinside⟩ | ⟨hnone, houtside⟩ := Region.crop?_cases image.bounds x1 y1 x2 y2
  · rw [hsome]
    exact hinside.shows_cut
  · rw [hnone]
    exact .nothing rfl houtside

/-- **Two crops show what both show**, the second moved to where the first begins. -/
theorem shows_crop_crop (image : Image) (a b c d a' b' c' d' : Int32) :
    let first := (Rect.spanned a b c d).common (Rect.ofBounds image.bounds)
    let mid := Region.cut? image (Region.crop? image.bounds a b c d)
    (Region.cut? mid (Region.crop? mid.bounds a' b' c' d')).Shows image
      (first.common ((Rect.spanned a' b' c' d').shift first.x0 first.y0)).Contains := by
  intro first mid
  obtain ⟨hsome, hinside⟩ | ⟨hnone, houtside⟩ := Region.crop?_cases image.bounds a b c d
  · have hmid : mid = Region.cut image first := by dsimp only [mid]; rw [hsome]; rfl
    rw [hmid]
    refine ((shows_crop _ a' b' c' d').of_part hinside.isPart_cut).congr fun x y => ?_
    rw [Int.toNat_of_nonneg hinside.left, Int.toNat_of_nonneg hinside.top, Rect.contains_common,
      Rect.contains_common, Rect.contains_shift, and_comm]
    exact and_congr_left' hinside.contains_sub
  · have hmid : mid = Image.blank Bounds.empty := by dsimp only [mid]; rw [hnone]; rfl
    rw [hmid, Region.crop?_of_isEmpty rfl]
    exact .nothing rfl fun x y hxy => houtside x y (Rect.contains_common.mp hxy).1

/--
**What a crop shows.** Let an image be one that may be made. Whatever the corners of a
crop, it can be rendered, and shows those points of the image that the corners span;
the first of these points, their columns and their rows are integers that 32 bits can
hold. Two crops are one: they show the points that the first clips to, as far as the
second, moved to where these begin, has them too. There are always corners that span
just these points, and any that do give the same image.
-/
theorem crop_shows {image : Image} (ha : image.bounds.isAllocatable = true) :
    let rendered (ops : List Operation) := (Render.image Engine.plain image ops ()).1
    let window := Rect.ofBounds image.bounds
    (∀ x1 y1 x2 y2, ∃ out, rendered [.crop x1 y1 x2 y2] = .ok out
        ∧ out.Shows image fun x y =>
          (Rect.spanned x1 y1 x2 y2).Contains x y ∧ window.Contains x y)
      ∧ (∀ x1 y1 x2 y2 r, Region.crop? image.bounds x1 y1 x2 y2 = some r →
          ∀ v ∈ [r.x0, r.y0, r.x1 - r.x0, r.y1 - r.y0], ((UInt32.ofInt v).toNat : Int) = v)
      ∧ ∀ a b c d a' b' c' d',
          let first := (Rect.spanned a b c d).common window
          let both := first.common ((Rect.spanned a' b' c' d').shift first.x0 first.y0)
          (∃ x1 y1 x2 y2, ∀ x y, (Rect.spanned x1 y1 x2 y2).Contains x y ↔ both.Contains x y)
            ∧ ∀ x1 y1 x2 y2,
              (∀ x y, (Rect.spanned x1 y1 x2 y2).Contains x y ↔ both.Contains x y) →
              rendered [.crop a b c d, .crop a' b' c' d'] = rendered [.crop x1 y1 x2 y2] := by
  intro rendered window
  refine ⟨fun x1 y1 x2 y2 => ?_, fun x1 y1 x2 y2 r hr => ?_, fun a b c d a' b' c' d' => ?_⟩
  · exact ⟨_, image_crop ha x1 y1 x2 y2,
      (shows_crop image x1 y1 x2 y2).congr fun x y => Rect.contains_common⟩
  · obtain ⟨hsome, hinside⟩ | ⟨hnone, -⟩ := Region.crop?_cases image.bounds x1 y1 x2 y2
    · exact Option.some.inj (hsome.symm.trans hr) ▸ hinside.toNat_ofInt
    · exact absurd (hnone.symm.trans hr) (by simp)
  · intro first both
    have hwindow : ∀ x y, both.Contains x y → window.Contains x y := fun x y hxy =>
      (Rect.contains_common.mp (Rect.contains_common.mp hxy).1).2
    refine ⟨Rect.exists_spanning ha hwindow, fun x1 y1 x2 y2 hspan => ?_⟩
    have hmid := image_crop ha a b c d
    have hamid := (shows_crop image a b c d).isAllocatable ha
    have htwo : rendered [.crop a b c d, .crop a' b' c' d'] = _ :=
      image_plain_append hmid (image_crop hamid a' b' c' d')
    have hone : rendered [.crop x1 y1 x2 y2] = _ := image_crop ha x1 y1 x2 y2
    have hsame : ∀ x y, ((Rect.spanned x1 y1 x2 y2).common window).Contains x y ↔
        both.Contains x y := by
      intro x y
      rw [Rect.contains_common, hspan]
      exact and_iff_left_of_imp (hwindow x y)
    have hshows := (shows_crop image x1 y1 x2 y2).congr hsame
    rw [htwo, hone, (shows_crop_crop image a b c d a' b' c' d').unique hshows]

/-- Corners in any order and beyond the image, and a second crop that goes beyond the first. -/
theorem crop_shows_beyond :
    let image := Image.generate ⟨6, 5, by decide, by decide⟩ fun x y =>
      if x = y then Pixel.white else Pixel.clear
    let rendered (ops : List Operation) := (Render.image Engine.plain image ops ()).1
    image.bounds.isAllocatable = true
      ∧ rendered [.crop 9 1 2 7, .crop 3 (-4) 1 2] = rendered [.crop 3 1 5 3] := by
  intro image rendered
  have hallocatable : image.bounds.isAllocatable = true := rfl
  obtain ⟨-, -, htwo⟩ := crop_shows hallocatable
  refine ⟨hallocatable, (htwo 9 1 2 7 3 (-4) 1 2).2 3 1 5 3 fun x y => ?_⟩
  have hspan : Rect.spanned 3 1 5 3 = ((Rect.spanned 9 1 2 7).common
      (Rect.ofBounds image.bounds)).common ((Rect.spanned 3 (-4) 1 2).shift 2 1) := by
    decide
  rw [hspan]
  rfl

end RasterScript
