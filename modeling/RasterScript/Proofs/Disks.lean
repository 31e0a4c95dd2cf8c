import Mathlib.Order.Bounds.Defs
import RasterScript.Proofs.Pixels
import RasterScript.Proofs.Samples

/-!
# Disks

A disk has a plain description: the places of the image that are not further from
the centre than the radius (`within`). The filter arrives at them in another way. It
lists the offsets of a disk that has been cut down to the sides of the image, so
that a disk far larger than the image costs no more than the image, and drops the
offsets that lead outside at each pixel. Both are the same, with every place once
(`samples_fill_disk`): cutting the list changes nothing (`reached_fullDisk`), because
an offset that is cut off leads out of the image from everywhere.

A size without a disk is no exception. It changes nothing, and so does a statistic
of the one sample at distance zero; `get_filter` speaks of every size.
-/

namespace RasterScript

namespace Neighbourhood

/-! ## Disks before they are cut -/

/-- All offsets of a disk, whether they can meet an image or not. -/
def fullDisk (radius : Nat) : List (Int × Int) := disk radius (radius + 1) (radius + 1)

theorem mem_fullDisk {radius : Nat} {dx dy : Int} :
    (dx, dy) ∈ fullDisk radius ↔ dx * dx + dy * dy ≤ (radius : Int) * radius := by
  unfold fullDisk
  rw [mem_disk, mem_span, mem_span]
  constructor
  · intro h
    exact h.2.2
  · intro h
    have hdx := abs_le_of_sq_le_sq' (a := dx) (b := radius) (by nlinarith) (by omega)
    have hdy := abs_le_of_sq_le_sq' (a := dy) (b := radius) (by nlinarith) (by omega)
    exact ⟨by omega, by omega, h⟩

section Place

variable {b : Bounds} {x y : Nat} (hx : x < b.width) (hy : y < b.height)
include hx hy

/-- **A disk that is cut to the image reaches the same places.** -/
theorem reached_fullDisk (radius : Nat) :
    ((fullDisk radius).filterMap (place? b x y)).Perm (places b radius x y) := by
  have hnodup : (fullDisk radius).Nodup := nodup_disk _ _ _
  refine (List.perm_ext_iff_of_nodup (nodup_reached hnodup)
    (nodup_places b radius x y)).mpr fun p => ?_
  rw [mem_reached, mem_fullDisk, mem_places hx hy]
  unfold distSq
  rw [sq, sq, sq]

/-- A place is always within its own reach. -/
theorem self_mem_places (radius : Nat) : (x, y) ∈ places b radius x y := by
  refine (mem_places hx hy).mpr ⟨hx, hy, ?_⟩
  unfold distSq
  rw [sub_self, sub_self]
  positivity

theorem places_ne_nil (radius : Nat) : places b radius x y ≠ [] :=
  List.ne_nil_of_mem (self_mem_places hx hy radius)

theorem places_zero : places b 0 x y = [(x, y)] := by
  refine List.perm_singleton.mp
    ((List.perm_ext_iff_of_nodup (nodup_places b 0 x y) (List.nodup_singleton _)).mpr fun p => ?_)
  rw [List.mem_singleton]
  constructor
  · intro hp
    obtain ⟨_, _, hnear⟩ := (mem_places hx hy).mp hp
    obtain ⟨hdx, hdy⟩ := near_of_distSq hnear
    exact Prod.ext (by omega) (by omega)
  · intro hp
    exact hp ▸ self_mem_places hx hy 0

end Place

/-- The places of an image that are not further from `(x, y)` than the radius. -/
def within (b : Bounds) (radius x y : Nat) : Finset (Nat × Nat) :=
  b.grid.filter fun p => ((p.1 : Int) - x) ^ 2 + ((p.2 : Int) - y) ^ 2 ≤ (radius : Int) ^ 2

/-- A disk holds at most the whole image. -/
theorem card_within_le (b : Bounds) (radius x y : Nat) :
    (within b radius x y).card ≤ b.area :=
  (Finset.card_le_card (Finset.filter_subset _ _)).trans_eq b.card_grid

/-- It holds the whole image if nothing is out of reach. -/
theorem card_within_eq {b : Bounds} {radius x y : Nat}
    (hnear : ∀ p : Nat × Nat, p.1 < b.width → p.2 < b.height →
      distSq p (x, y) ≤ (radius : Int) ^ 2) : (within b radius x y).card = b.area := by
  rw [← Bounds.card_grid, within, Finset.filter_true_of_mem]
  intro p hp
  obtain ⟨hpx, hpy⟩ := Bounds.mem_grid.mp hp
  exact hnear p hpx hpy

theorem places_within {b : Bounds} {x y : Nat} (hx : x < b.width) (hy : y < b.height)
    (radius : Nat) :
    ((places b radius x y : List _) : Multiset (Nat × Nat)) = (within b radius x y).val := by
  refine Multiset.Nodup.ext (Multiset.coe_nodup.mpr (nodup_places b radius x y))
    (within b radius x y).nodup |>.mpr fun p => ?_
  rw [Multiset.mem_coe, mem_places hx hy, Finset.mem_val, within, Finset.mem_filter,
    Bounds.mem_grid, and_assoc]
  rfl

/-! ## Samples of a channel -/

/-- The values that a statistic is taken of, for one channel of one pixel. -/
def samples (image : Image) (size : Int32) (x y : Nat) (c : Channel) : List UInt8 :=
  (places image.bounds (reach size) x y).map fun p => (image.pixel p.1 p.2).get c

theorem get_summary (statistic : Statistic) (pixels : List Pixel) (c : Channel) :
    (summary statistic pixels).get c = reduce statistic (pixels.map fun p => p.get c) := by
  cases c <;> rfl

theorem reduce_singleton (statistic : Statistic) (value : UInt8) :
    reduce statistic [value] = value := by
  cases statistic with
  | minimum => rfl
  | maximum => rfl
  | mean =>
      refine UInt8.toNat_inj.mp ?_
      simp [reduce, mean]
  | median => simp [reduce, median]

section Pixel

variable {image : Image} {x y : Nat} (hx : x < image.width) (hy : y < image.height)
include hx hy

theorem samples_ne_nil (size : Int32) (c : Channel) : samples image size x y c ≠ [] :=
  fun h => places_ne_nil hx hy (reach size) (List.map_eq_nil_iff.mp h)

theorem length_samples (size : Int32) (c : Channel) :
    (samples image size x y c).length = (within image.bounds (reach size) x y).card := by
  rw [samples, List.length_map, Finset.card, ← places_within hx hy, Multiset.coe_card]

/-- **Every channel of every filtered pixel is the statistic of its samples.** -/
theorem get_filter (statistic : Statistic) (size : Int32) (c : Channel) :
    ((filter image statistic size).pixel x y).get c =
      reduce statistic (samples image size x y c) := by
  by_cases hsmall : diameter size < 3
  · rw [filter_small hsmall, samples, reach_small hsmall, places_zero hx hy]
    exact (reduce_singleton statistic _).symm
  · rw [pixel_filter hsmall statistic hx hy, get_summary, List.map_map]
    rfl

end Pixel

/-- The median stands in the middle of the values when they are sorted. -/
theorem median_spec {values : List UInt8} (h : values ≠ []) :
    (sorted values)[values.length / 2]? = some (median values) := by
  have hlt : values.length / 2 < (sorted values).length := by
    rw [(sorted_perm values).length_eq]
    exact Nat.div_lt_self (List.length_pos_iff.mpr h) (by decide)
  change _ = some ((sorted values).getD (values.length / 2) 0)
  rw [List.getD_eq_getElem?_getD, List.getElem?_eq_getElem hlt]
  rfl

/--
**The samples are the disk.** For every size with a disk, the values that are
gathered for a channel of a pixel are the values of that channel at the places
within the radius: each place once, and always at least one. The list of offsets may
be cut to the image or not. The least, the greatest and the middle one of these
values are what the image of the minimum, the maximum and the median holds.
-/
theorem samples_fill_disk {image : Image} {size : Int32} (hsize : 3 ≤ diameter size) {x y : Nat}
    (hx : x < image.width) (hy : y < image.height) (c : Channel) :
    let radius := (diameter size / 2).toNat
    let gathered (offsets : List (Int × Int)) := (gather image offsets x y).map fun p => p.get c
    let values := gathered (disk radius image.width image.height)
    let filtered (statistic : Statistic) := ((filter image statistic size).pixel x y).get c
    (values : Multiset UInt8) =
        (within image.bounds radius x y).val.map (fun p => (image.pixel p.1 p.2).get c)
      ∧ values ≠ []
      ∧ (gathered (fullDisk radius)).Perm values
      ∧ (∀ statistic, filtered statistic = reduce statistic values)
      ∧ IsLeast {v | v ∈ values} (filtered .minimum)
      ∧ IsGreatest {v | v ∈ values} (filtered .maximum)
      ∧ ∃ inOrder : List UInt8, inOrder.Perm values ∧ inOrder.Pairwise (· ≤ ·)
        ∧ inOrder[values.length / 2]? = some (filtered .median) := by
  intro radius gathered values filtered
  have hreach : reach size = radius := reach_eq (Int.not_lt.mpr hsize)
  have hvalues : values = samples image size x y c := by
    dsimp only [values, gathered]
    rw [gather_eq, List.map_map, samples, hreach]
    rfl
  have hne : values ≠ [] := hvalues ▸ samples_ne_nil hx hy size c
  have hfiltered : ∀ statistic, filtered statistic = reduce statistic values :=
    fun statistic => (get_filter hx hy statistic size c).trans (congrArg _ hvalues.symm)
  refine ⟨?_, hne, ?_, hfiltered, ?_, ?_, sorted values, sorted_perm values,
    pairwise_sorted values, ?_⟩
  · rw [hvalues, samples, hreach, ← places_within hx hy, Multiset.map_coe]
  · dsimp only [values, gathered]
    rw [gather_reached, gather_eq]
    exact ((reached_fullDisk hx hy radius).map _).map _
  · rw [hfiltered]
    exact least_spec hne
  · rw [hfiltered]
    exact greatest_spec hne
  · rw [hfiltered]
    exact median_spec hne

/--
The least size wraps round to the greatest diameter. On an image of five by five pixels,
the whole image is sampled from one corner, and the one bright pixel is in the opposite
corner.
-/
theorem samples_fill_disk_corner :
    let image := Image.generate ⟨5, 5, by decide, by decide⟩ fun x y =>
      if x = 0 ∧ y = 0 then Pixel.white else Pixel.clear
    let values := (gather image (disk (diameter (-2147483648) / 2).toNat image.width image.height)
      4 4).map fun p => p.get .green
    (3 ≤ diameter (-2147483648) ∧ 4 < image.width ∧ 4 < image.height) ∧ values.length = 25
      ∧ ((filter image .maximum (-2147483648)).pixel 4 4).get .green = 255
      ∧ ((filter image .minimum (-2147483648)).pixel 4 4).get .green = 0 := by
  intro image values
  have hsize : 3 ≤ diameter (-2147483648) := by decide
  have hx : 4 < image.width := by decide
  have hy : 4 < image.height := by decide
  obtain ⟨hvalues, -, -, -, hleast, hgreatest, -⟩ := samples_fill_disk hsize hx hy .green
  have hmem : ∀ p ∈ within image.bounds 1073741823 4 4,
      (image.pixel p.1 p.2).get .green ∈ values := by
    intro p hp
    refine Multiset.mem_coe.mp ?_
    rw [hvalues]
    exact Multiset.mem_map_of_mem _ hp
  have hlength : values.length = (within image.bounds 1073741823 4 4).card := by
    have hcard := congrArg Multiset.card hvalues
    rwa [Multiset.coe_card, Multiset.card_map] at hcard
  have hbyte : ∀ v : UInt8, v ≤ 255 :=
    fun v => UInt8.le_iff_toNat_le.mpr (Nat.le_of_lt_succ v.toNat_lt)
  refine ⟨⟨hsize, hx, hy⟩, hlength.trans (by decide), ?_, ?_⟩
  · exact UInt8.le_antisymm (hbyte _) (hgreatest.2 (hmem (0, 0) (by decide)))
  · exact UInt8.le_antisymm (hleast.2 (hmem (1, 0) (by decide))) UInt8.zero_le

end Neighbourhood

end RasterScript
