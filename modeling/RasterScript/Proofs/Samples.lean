import Mathlib.Algebra.Order.Ring.Abs
import Mathlib.Data.List.Nodup
import Mathlib.Tactic.Linarith
import RasterScript.Filter.Neighbourhood

/-!
# What a local statistic is taken of

A disk is listed offset by offset, cut down to the offsets that can meet the image
at all, and the offsets that lead out of the image are skipped. What is left is
plain: every place of the image that is within the radius, once
(`mem_places`, `nodup_places`). No place is lost with the offsets that are cut
off, because no two places of an image are further apart than its sides.

The order of the samples is that of the disk and depends on where the image ends,
but no statistic looks at it (`reduce_perm`). So two pixels of filtered images are
the same as soon as their samples correspond, one to one (`pixel_filter_congr`).
-/

namespace RasterScript

namespace Neighbourhood

/-! ## Places within reach -/

/-- The square of the distance between two places. -/
def distSq (p q : Nat × Nat) : Int := ((p.1 : Int) - q.1) ^ 2 + ((p.2 : Int) - q.2) ^ 2

theorem distSq_comm (p q : Nat × Nat) : distSq p q = distSq q p :=
  congrArg₂ (· + ·) (sub_sq_comm (p.1 : Int) q.1) (sub_sq_comm (p.2 : Int) q.2)

/-- Places within a distance are within it along each axis. -/
theorem near_of_distSq {p q : Nat × Nat} {radius : Nat} (h : distSq p q ≤ (radius : Int) ^ 2) :
    (-(radius : Int) ≤ (p.1 : Int) - q.1 ∧ (p.1 : Int) - q.1 ≤ radius)
      ∧ (-(radius : Int) ≤ (p.2 : Int) - q.2 ∧ (p.2 : Int) - q.2 ≤ radius) := by
  unfold distSq at h
  exact ⟨abs_le_of_sq_le_sq' (by nlinarith [sq_nonneg ((p.2 : Int) - q.2)]) (by omega),
    abs_le_of_sq_le_sq' (by nlinarith [sq_nonneg ((p.1 : Int) - q.1)]) (by omega)⟩

/-- The place that an offset leads to, if it is inside the image. -/
def place? (b : Bounds) (x y : Nat) (offset : Int × Int) : Option (Nat × Nat) :=
  if 0 ≤ x + offset.1 ∧ 0 ≤ y + offset.2 ∧ x + offset.1 < b.width ∧ y + offset.2 < b.height then
    some ((x + offset.1).toNat, (y + offset.2).toNat)
  else none

/-- The places of an image that are sampled for `(x, y)`. -/
def places (b : Bounds) (radius x y : Nat) : List (Nat × Nat) :=
  (disk radius b.width b.height).filterMap (place? b x y)

theorem mem_span {reach : Nat} {d : Int} : d ∈ span reach ↔ -(reach : Int) ≤ d ∧ d ≤ reach := by
  unfold span
  rw [List.mem_map]
  constructor
  · rintro ⟨i, hi, rfl⟩
    have := List.mem_range.mp hi
    omega
  · rintro ⟨hlow, hhigh⟩
    exact ⟨(d + reach).toNat, List.mem_range.mpr (by omega), by omega⟩

theorem nodup_span (reach : Nat) : (span reach).Nodup := by
  refine List.Nodup.map ?_ List.nodup_range
  intro i j h
  dsimp only at h
  omega

theorem mem_disk {radius width height : Nat} {dx dy : Int} :
    (dx, dy) ∈ disk radius width height ↔
      dx ∈ span (min radius (width - 1)) ∧ dy ∈ span (min radius (height - 1))
        ∧ dx * dx + dy * dy ≤ (radius : Int) * radius := by
  simp only [disk, List.mem_flatMap, List.mem_map, List.mem_filter, decide_eq_true_eq,
    Prod.mk.injEq]
  constructor
  · rintro ⟨_, hdy, _, ⟨hdx, hin⟩, rfl, rfl⟩
    exact ⟨hdx, hdy, hin⟩
  · rintro ⟨hdx, hdy, hin⟩
    exact ⟨dy, hdy, dx, ⟨hdx, hin⟩, rfl, rfl⟩

theorem nodup_disk (radius width height : Nat) : (disk radius width height).Nodup := by
  unfold disk
  refine List.nodup_flatMap.mpr ⟨fun dy _ => ?_, ?_⟩
  · refine List.Nodup.map ?_ ((nodup_span _).filter _)
    intro dx dx' h
    exact (Prod.mk.inj h).1
  · -- offsets with different second parts are different
    refine (nodup_span _).imp fun {dy dy'} hne => ?_
    intro offset h h'
    obtain ⟨_, _, rfl⟩ := List.mem_map.mp h
    obtain ⟨_, _, heq⟩ := List.mem_map.mp h'
    exact hne (Prod.mk.inj heq).2.symm

theorem place?_eq_some {b : Bounds} {x y : Nat} {offset : Int × Int} {p : Nat × Nat} :
    place? b x y offset = some p ↔
      p.1 < b.width ∧ p.2 < b.height
        ∧ offset = ((p.1 : Int) - x, (p.2 : Int) - y) := by
  obtain ⟨dx, dy⟩ := offset
  obtain ⟨px, py⟩ := p
  unfold place?
  dsimp only
  constructor
  · intro h
    split at h
    · simp only [Option.some.injEq, Prod.mk.injEq] at h ⊢
      omega
    · exact absurd h (by simp)
  · rintro ⟨hx, hy, h⟩
    simp only [Prod.mk.injEq] at h
    rw [if_pos (by omega)]
    simp only [Option.some.injEq, Prod.mk.injEq]
    omega

section Offsets

variable {offsets : List (Int × Int)} {b : Bounds} {x y : Nat}

/-- Offsets lead to the places of the image that they are offsets of. -/
theorem mem_reached {p : Nat × Nat} :
    p ∈ offsets.filterMap (place? b x y) ↔
      p.1 < b.width ∧ p.2 < b.height ∧ ((p.1 : Int) - x, (p.2 : Int) - y) ∈ offsets := by
  rw [List.mem_filterMap]
  constructor
  · intro h
    obtain ⟨offset, hin, hplace⟩ := h
    obtain ⟨hpx, hpy, rfl⟩ := place?_eq_some.mp hplace
    exact ⟨hpx, hpy, hin⟩
  · intro h
    obtain ⟨hpx, hpy, hin⟩ := h
    exact ⟨_, hin, place?_eq_some.mpr ⟨hpx, hpy, rfl⟩⟩

theorem nodup_reached (h : offsets.Nodup) : (offsets.filterMap (place? b x y)).Nodup := by
  refine List.Nodup.filterMap ?_ h
  intro offset offset' p hp hp'
  obtain ⟨_, _, rfl⟩ := place?_eq_some.mp hp
  obtain ⟨_, _, rfl⟩ := place?_eq_some.mp hp'
  rfl

theorem gather_reached (image : Image) (offsets : List (Int × Int)) (x y : Nat) :
    gather image offsets x y =
      (offsets.filterMap (place? image.bounds x y)).map fun p => image.pixel p.1 p.2 := by
  unfold gather
  rw [List.map_filterMap]
  refine List.filterMap_congr fun offset _ => ?_
  by_cases hin : 0 ≤ x + offset.1 ∧ 0 ≤ y + offset.2 ∧ x + offset.1 < image.width
      ∧ y + offset.2 < image.height
  · have hplace : place? image.bounds x y offset = some _ := if_pos hin
    rw [hplace]
    exact if_pos hin
  · have hplace : place? image.bounds x y offset = none := if_neg hin
    rw [hplace]
    exact if_neg hin

end Offsets

/-- **Every place within the radius is sampled,** and no other. -/
theorem mem_places {b : Bounds} {radius x y : Nat} {p : Nat × Nat} (hx : x < b.width)
    (hy : y < b.height) :
    p ∈ places b radius x y ↔
      p.1 < b.width ∧ p.2 < b.height ∧ distSq p (x, y) ≤ (radius : Int) ^ 2 := by
  unfold places
  rw [mem_reached]
  constructor
  · rintro ⟨hpx, hpy, hin⟩
    obtain ⟨_, _, hdisk⟩ := mem_disk.mp hin
    refine ⟨hpx, hpy, ?_⟩
    unfold distSq
    linarith
  · rintro ⟨hpx, hpy, hnear⟩
    obtain ⟨hdx, hdy⟩ := near_of_distSq hnear
    unfold distSq at hnear
    dsimp only at hdx hdy hnear
    refine ⟨hpx, hpy, mem_disk.mpr ⟨mem_span.mpr ?_, mem_span.mpr ?_, by linarith⟩⟩
    · omega
    · omega

/-- **No place is sampled twice.** -/
theorem nodup_places (b : Bounds) (radius x y : Nat) : (places b radius x y).Nodup :=
  nodup_reached (nodup_disk _ _ _)

theorem gather_eq (image : Image) (radius x y : Nat) :
    gather image (disk radius image.width image.height) x y =
      (places image.bounds radius x y).map fun p => image.pixel p.1 p.2 :=
  gather_reached image _ x y

/-- Places that correspond one to one are the same places in another order. -/
theorem places_perm {a b : Bounds} {radius x y u v : Nat} {f : Nat × Nat → Nat × Nat}
    (hinj : ∀ p ∈ places a radius x y, ∀ q ∈ places a radius x y, f p = f q → p = q)
    (hiff : ∀ q, q ∈ places b radius u v ↔ ∃ p ∈ places a radius x y, f p = q) :
    ((places a radius x y).map f).Perm (places b radius u v) := by
  have hnodup : ((places a radius x y).map f).Nodup :=
    List.Nodup.map_on hinj (nodup_places a radius x y)
  refine (List.perm_ext_iff_of_nodup hnodup (nodup_places b radius u v)).mpr fun q => ?_
  rw [List.mem_map, hiff]

/-! ## The order of the samples -/

section Pick

variable {R : UInt8 → UInt8 → Prop} {pick : UInt8 → UInt8 → UInt8}

/-- A fold that keeps one of two values ends with one of all, and that bounds all of them. -/
theorem foldl_pick (hrefl : ∀ a, R a a) (htrans : ∀ a b c, R a b → R b c → R a c)
    (hpick : ∀ a b, (pick a b = a ∨ pick a b = b) ∧ R (pick a b) a ∧ R (pick a b) b)
    (values : List UInt8) :
    ∀ first, values.foldl pick first ∈ first :: values
      ∧ ∀ v ∈ first :: values, R (values.foldl pick first) v := by
  induction values with
  | nil =>
      intro first
      exact ⟨by simp, by simpa using hrefl first⟩
  | cons value values ih =>
      intro first
      obtain ⟨hmem, hbound⟩ := ih (pick first value)
      obtain ⟨hone, hfirst, hvalue⟩ := hpick first value
      have hhead := hbound _ List.mem_cons_self
      rw [List.foldl_cons]
      refine ⟨?_, ?_⟩
      · rcases List.mem_cons.mp hmem with heq | hmem
        · rw [heq]
          rcases hone with h | h <;> simp [h]
        · simp [hmem]
      · rintro v (_ | ⟨_, _ | ⟨_, hv⟩⟩)
        · exact htrans _ _ _ hhead hfirst
        · exact htrans _ _ _ hhead hvalue
        · exact hbound v (List.mem_cons_of_mem _ hv)

end Pick

/-- The least value is one of them, and none is less. -/
theorem least_spec {values : List UInt8} (h : values ≠ []) :
    least values ∈ values ∧ ∀ v ∈ values, least values ≤ v := by
  obtain ⟨value, values, rfl⟩ := List.exists_cons_of_ne_nil h
  refine foldl_pick (R := (· ≤ ·)) (fun a => UInt8.le_refl a) (fun _ _ _ => UInt8.le_trans)
    (fun a b => ?_) values value
  split
  · rename_i hlt
    exact ⟨.inr rfl, UInt8.le_of_lt hlt, UInt8.le_refl b⟩
  · rename_i hge
    exact ⟨.inl rfl, UInt8.le_refl a, UInt8.not_lt.mp hge⟩

/-- The greatest value is one of them, and none is greater. -/
theorem greatest_spec {values : List UInt8} (h : values ≠ []) :
    greatest values ∈ values ∧ ∀ v ∈ values, v ≤ greatest values := by
  obtain ⟨value, values, rfl⟩ := List.exists_cons_of_ne_nil h
  refine foldl_pick (R := (· ≥ ·)) (fun a => UInt8.le_refl a)
    (fun _ _ _ hab hbc => UInt8.le_trans hbc hab) (fun a b => ?_) values value
  split
  · rename_i hlt
    exact ⟨.inr rfl, UInt8.le_of_lt hlt, UInt8.le_refl b⟩
  · rename_i hge
    exact ⟨.inl rfl, UInt8.le_refl a, UInt8.not_lt.mp hge⟩

theorem mean_perm {a b : List UInt8} (h : a.Perm b) : mean a = mean b := by
  have hsum : a.foldl (fun (sum : UInt32) value => sum + value.toUInt32) 0 =
      b.foldl (fun (sum : UInt32) value => sum + value.toUInt32) 0 :=
    h.foldl_eq' (fun x _ y _ sum => by ac_rfl) 0
  unfold mean
  rw [hsum, h.length_eq]

/-- The values from the least to the greatest. -/
def sorted (values : List UInt8) : List UInt8 := values.mergeSort fun a b => a ≤ b

theorem sorted_perm (values : List UInt8) : (sorted values).Perm values :=
  List.mergeSort_perm values _

theorem pairwise_sorted (values : List UInt8) : (sorted values).Pairwise (· ≤ ·) := by
  have hle : ∀ a b c : UInt8, decide (a ≤ b) = true → decide (b ≤ c) = true →
      decide (a ≤ c) = true := by
    intro a b c hab hbc
    exact decide_eq_true (UInt8.le_trans (of_decide_eq_true hab) (of_decide_eq_true hbc))
  have htotal : ∀ a b : UInt8, (decide (a ≤ b) || decide (b ≤ a)) = true := by
    intro a b
    simpa using UInt8.le_total a b
  exact (List.pairwise_mergeSort hle htotal values).imp of_decide_eq_true

theorem median_perm {a b : List UInt8} (h : a.Perm b) : median a = median b := by
  -- sorted lists of the same values are the same list
  have hsorted : sorted a = sorted b :=
    List.Perm.eq_of_pairwise (fun _ _ _ _ => UInt8.le_antisymm) (pairwise_sorted a)
      (pairwise_sorted b) ((sorted_perm a).trans (h.trans (sorted_perm b).symm))
  change (sorted a).getD (a.length / 2) 0 = (sorted b).getD (b.length / 2) 0
  rw [hsorted, h.length_eq]

/-- **No statistic depends on the order of its values.** -/
theorem reduce_perm {a b : List UInt8} (h : a.Perm b) (statistic : Statistic) :
    reduce statistic a = reduce statistic b := by
  by_cases hne : a = []
  · subst hne
    rw [List.nil_perm.mp h]
  · have hne' : b ≠ [] := fun hb => hne (List.perm_nil.mp (hb ▸ h))
    cases statistic with
    | minimum =>
        obtain ⟨hmem, hle⟩ := least_spec hne
        obtain ⟨hmem', hle'⟩ := least_spec hne'
        exact UInt8.le_antisymm (hle _ (h.mem_iff.mpr hmem')) (hle' _ (h.mem_iff.mp hmem))
    | maximum =>
        obtain ⟨hmem, hle⟩ := greatest_spec hne
        obtain ⟨hmem', hle'⟩ := greatest_spec hne'
        exact UInt8.le_antisymm (hle' _ (h.mem_iff.mp hmem)) (hle _ (h.mem_iff.mpr hmem'))
    | mean => exact mean_perm h
    | median => exact median_perm h

/-! ## Filtered images -/

/-- The statistic of each channel of some pixels. -/
def summary (statistic : Statistic) (pixels : List Pixel) : Pixel :=
  ⟨reduce statistic (pixels.map Pixel.red), reduce statistic (pixels.map Pixel.green),
    reduce statistic (pixels.map Pixel.blue), reduce statistic (pixels.map Pixel.alpha)⟩

theorem summary_perm {a b : List Pixel} (h : a.Perm b) (statistic : Statistic) :
    summary statistic a = summary statistic b := by
  unfold summary
  rw [reduce_perm (h.map Pixel.red), reduce_perm (h.map Pixel.green),
    reduce_perm (h.map Pixel.blue), reduce_perm (h.map Pixel.alpha)]

/-- How far the samples of a size can be from their centre. -/
def reach (size : Int32) : Nat := if diameter size < 3 then 0 else (diameter size / 2).toNat

theorem reach_small {size : Int32} (h : diameter size < 3) : reach size = 0 := if_pos h

theorem reach_eq {size : Int32} (h : ¬ diameter size < 3) :
    reach size = (diameter size / 2).toNat := if_neg h

/-- A size without a disk around each pixel changes nothing. -/
theorem filter_small {size : Int32} (h : diameter size < 3) (image : Image)
    (statistic : Statistic) : filter image statistic size = image := if_pos h

theorem pixel_filter {size : Int32} (h : ¬ diameter size < 3) {image : Image}
    (statistic : Statistic) {x y : Nat} (hx : x < image.width) (hy : y < image.height) :
    (filter image statistic size).pixel x y =
      summary statistic ((places image.bounds (reach size) x y).map fun p =>
        image.pixel p.1 p.2) := by
  rw [filter, if_neg h, Image.pixel_generate hx hy, reach_eq h, ← gather_eq]
  rfl

/--
**Samples that correspond give the same pixel.** Two images are filtered alike at
two places if what is sampled around the one is, one to one, what is sampled
around the other.
-/
theorem pixel_filter_congr {size : Int32} (h : ¬ diameter size < 3) (statistic : Statistic)
    {a b : Image} {x y u v : Nat} (hx : x < a.width) (hy : y < a.height) (hu : u < b.width)
    (hv : v < b.height) {f : Nat × Nat → Nat × Nat}
    (hperm : ((places a.bounds (reach size) x y).map f).Perm
      (places b.bounds (reach size) u v))
    (hpixel : ∀ p ∈ places a.bounds (reach size) x y,
      a.pixel p.1 p.2 = b.pixel (f p).1 (f p).2) :
    (filter a statistic size).pixel x y = (filter b statistic size).pixel u v := by
  rw [pixel_filter h statistic hx hy, pixel_filter h statistic hu hv,
    List.map_congr_left hpixel]
  have hsamples := summary_perm (hperm.map fun p => b.pixel p.1 p.2) statistic
  rwa [List.map_map] at hsamples

end Neighbourhood

end RasterScript
