import RasterScript.Proofs.Filters
import RasterScript.Proofs.Samples
import RasterScript.Proofs.Symmetry

/-!
# Filters that see no direction

A filter is `Equivariant` if it makes no difference whether an image is placed
before it is filtered or afterwards, for every placement: every flip, every
quarter turn and both transpositions.

A colour adjustment looks at one pixel at a time, so it has to be. A local
statistic looks at a disk, and a disk is mapped to a disk because a placement
keeps distances between places (`Placement.distSq_source`). That the disk is cut
off where the image ends does no harm: what is sampled are the places of the image
within a distance, and the image is placed as a whole.

The samples arrive in another order, which no statistic notices.
-/

namespace RasterScript

namespace Placement

/-! ## Where a placed pixel comes from -/

/-- The place that a place of the result is read from. -/
def source (p : Placement) (b : Bounds) (q : Nat × Nat) : Nat × Nat :=
  (mirror p.mirrorsX b.width (if p.swaps then q.2 else q.1),
    mirror p.mirrorsY b.height (if p.swaps then q.1 else q.2))

theorem source_inside {p : Placement} {b : Bounds} {q : Nat × Nat}
    (hx : q.1 < (p.bounds b).width) (hy : q.2 < (p.bounds b).height) :
    (p.source b q).1 < b.width ∧ (p.source b q).2 < b.height := by
  unfold bounds at hx hy
  unfold source
  cases hs : p.swaps with
  | false =>
      simp only [hs, Bool.false_eq_true, if_false] at hx hy ⊢
      exact ⟨mirror_lt hx _, mirror_lt hy _⟩
  | true =>
      simp only [hs, if_true, Bounds.swapped] at hx hy ⊢
      exact ⟨mirror_lt hy _, mirror_lt hx _⟩

theorem mirror_self {n k : Nat} (h : k < n) (reversed : Bool) :
    mirror reversed n (mirror reversed n k) = k := by
  rw [mirror_mirror h, Bool.xor_self]
  rfl

/-- Every place of the image is read for some place of the result. -/
theorem exists_source (p : Placement) {b : Bounds} {q : Nat × Nat} (hx : q.1 < b.width)
    (hy : q.2 < b.height) :
    ∃ r : Nat × Nat, r.1 < (p.bounds b).width ∧ r.2 < (p.bounds b).height
      ∧ p.source b r = q := by
  unfold bounds source
  cases p.swaps with
  | false =>
      refine ⟨(mirror p.mirrorsX b.width q.1, mirror p.mirrorsY b.height q.2),
        mirror_lt hx _, mirror_lt hy _, ?_⟩
      exact Prod.ext (mirror_self hx _) (mirror_self hy _)
  | true =>
      refine ⟨(mirror p.mirrorsY b.height q.2, mirror p.mirrorsX b.width q.1),
        mirror_lt hy _, mirror_lt hx _, ?_⟩
      exact Prod.ext (mirror_self hx _) (mirror_self hy _)

theorem mirror_sub_sq {n j k : Nat} (hj : j < n) (hk : k < n) (reversed : Bool) :
    ((mirror reversed n j : Int) - mirror reversed n k) ^ 2 = ((j : Int) - k) ^ 2 := by
  cases reversed with
  | false => rfl
  | true =>
      have hdiff : ((mirror true n j : Int) - mirror true n k) = -((j : Int) - k) := by
        simp only [mirror, if_true]
        omega
      rw [hdiff, neg_sq]

/-- **A placement keeps distances.** -/
theorem distSq_source {p : Placement} {b : Bounds} {q r : Nat × Nat}
    (hqx : q.1 < (p.bounds b).width) (hqy : q.2 < (p.bounds b).height)
    (hrx : r.1 < (p.bounds b).width) (hry : r.2 < (p.bounds b).height) :
    Neighbourhood.distSq (p.source b q) (p.source b r) = Neighbourhood.distSq q r := by
  unfold bounds at hqx hqy hrx hry
  unfold source Neighbourhood.distSq
  cases hs : p.swaps with
  | false =>
      simp only [hs, Bool.false_eq_true, if_false] at hqx hqy hrx hry ⊢
      rw [mirror_sub_sq hqx hrx, mirror_sub_sq hqy hry]
  | true =>
      simp only [hs, if_true, Bounds.swapped] at hqx hqy hrx hry ⊢
      rw [mirror_sub_sq hqy hry, mirror_sub_sq hqx hrx, add_comm]

theorem source_injective {p : Placement} {b : Bounds} {q r : Nat × Nat}
    (hqx : q.1 < (p.bounds b).width) (hqy : q.2 < (p.bounds b).height)
    (hrx : r.1 < (p.bounds b).width) (hry : r.2 < (p.bounds b).height)
    (h : p.source b q = p.source b r) : q = r := by
  have hdist := distSq_source hqx hqy hrx hry
  rw [h] at hdist
  unfold Neighbourhood.distSq at hdist
  have hx : ((q.1 : Int) - r.1) ^ 2 = 0 := by
    nlinarith [sq_nonneg ((q.1 : Int) - r.1), sq_nonneg ((q.2 : Int) - r.2)]
  have hy : ((q.2 : Int) - r.2) ^ 2 = 0 := by
    nlinarith [sq_nonneg ((q.1 : Int) - r.1), sq_nonneg ((q.2 : Int) - r.2)]
  have hx' := pow_eq_zero_iff (two_ne_zero) |>.mp hx
  have hy' := pow_eq_zero_iff (two_ne_zero) |>.mp hy
  exact Prod.ext (by omega) (by omega)

/-! ## Filtering what has been placed -/

/-- A function on images that commutes with every placement. -/
def Equivariant (f : Image → Image) : Prop :=
  ∀ (p : Placement) (image : Image), f (p.place image) = p.place (f image)

theorem equivariant_map (adjust : Pixel → Pixel) :
    Equivariant fun image => image.map adjust := by
  intro p image
  refine Image.ext_pixel rfl fun x y hx hy => ?_
  have hx' : x < (p.bounds image.bounds).width := hx
  have hy' : y < (p.bounds image.bounds).height := hy
  obtain ⟨hsx, hsy⟩ := source_inside (q := (x, y)) hx' hy'
  dsimp only
  rw [Image.pixel_map _ _ hx' hy', pixel_place p image hx' hy',
    pixel_place p (image.map adjust) hx' hy']
  exact (Image.pixel_map image adjust hsx hsy).symm

/-- **What is sampled around a place is where the samples around its source have gone.** -/
theorem places_source {p : Placement} {b : Bounds} {x y : Nat}
    (hx : x < (p.bounds b).width) (hy : y < (p.bounds b).height) (radius : Nat) :
    ((Neighbourhood.places (p.bounds b) radius x y).map (p.source b)).Perm
      (Neighbourhood.places b radius (p.source b (x, y)).1 (p.source b (x, y)).2) := by
  obtain ⟨hsx, hsy⟩ := source_inside (q := (x, y)) hx hy
  refine Neighbourhood.places_perm (fun q hq r hr heq => ?_) fun q => ?_
  · obtain ⟨hqx, hqy, _⟩ := (Neighbourhood.mem_places hx hy).mp hq
    obtain ⟨hrx, hry, _⟩ := (Neighbourhood.mem_places hx hy).mp hr
    exact source_injective hqx hqy hrx hry heq
  · rw [Neighbourhood.mem_places hsx hsy]
    constructor
    · rintro ⟨hqx, hqy, hnear⟩
      obtain ⟨r, hrx, hry, rfl⟩ := exists_source p hqx hqy
      rw [Prod.mk.eta, distSq_source hrx hry hx hy] at hnear
      exact ⟨r, (Neighbourhood.mem_places hx hy).mpr ⟨hrx, hry, hnear⟩, rfl⟩
    · rintro ⟨r, hr, rfl⟩
      obtain ⟨hrx, hry, hnear⟩ := (Neighbourhood.mem_places hx hy).mp hr
      obtain ⟨hqx, hqy⟩ := source_inside hrx hry
      refine ⟨hqx, hqy, ?_⟩
      rwa [Prod.mk.eta, distSq_source hrx hry hx hy]

theorem equivariant_filter (statistic : Statistic) (size : Int32) :
    Equivariant fun image => Neighbourhood.filter image statistic size := by
  intro p image
  by_cases hsmall : Neighbourhood.diameter size < 3
  · dsimp only
    rw [Neighbourhood.filter_small hsmall, Neighbourhood.filter_small hsmall]
  · have hbounds := Neighbourhood.bounds_filter image statistic size
    refine Image.ext_pixel ?_ fun x y hx hy => ?_
    · dsimp only
      rw [Neighbourhood.bounds_filter, bounds_place, bounds_place, hbounds]
    · have hx' : x < (p.bounds image.bounds).width := by
        rw [Image.width, Neighbourhood.bounds_filter] at hx
        exact hx
      have hy' : y < (p.bounds image.bounds).height := by
        rw [Image.height, Neighbourhood.bounds_filter] at hy
        exact hy
      obtain ⟨hsx, hsy⟩ := source_inside (q := (x, y)) hx' hy'
      have hright := pixel_place p (Neighbourhood.filter image statistic size)
        (x := x) (y := y) (by rw [hbounds]; exact hx') (by rw [hbounds]; exact hy')
      rw [hright, Image.width, Image.height, hbounds]
      refine Neighbourhood.pixel_filter_congr hsmall statistic hx' hy' hsx hsy
        (places_source hx' hy' _) fun q hq => ?_
      obtain ⟨hqx, hqy, _⟩ := (Neighbourhood.mem_places hx' hy').mp hq
      exact pixel_place p image hqx hqy

end Placement

/-! ## Rendering -/

namespace Operation

/-- Operations without a direction: adjustments of single pixels and statistics over disks. -/
inductive Isotropic : Operation → Prop where
  | adjustment {op : Operation} : op.isAdjustment = true → Isotropic op
  | neighbourhood (statistic : Statistic) (size : Int32) :
      Isotropic (.neighbourhood statistic size)

theorem Isotropic.filters {op : Operation} (h : op.Isotropic) :
    ∃ f, op.Filters f ∧ Placement.Equivariant f := by
  cases h with
  | adjustment h => exact ⟨_, filters_adjustment h, Placement.equivariant_map _⟩
  | neighbourhood statistic size =>
      exact ⟨_, filters_neighbourhood statistic size, Placement.equivariant_filter _ _⟩

/-- Operations that only move pixels. -/
def isTurn : Operation → Bool
  | flipHorizontal | flipVertical | rotate90 | rotate180 | rotate270
  | transpose | transverse => true
  | _ => false

theorem lays_of_isTurn {turn : Operation} (h : turn.isTurn = true) :
    ∃ p, Lays [turn] p := by
  cases turn with
  | flipHorizontal => exact ⟨_, lays_symmetryOps (.sr 0)⟩
  | flipVertical => exact ⟨_, lays_symmetryOps (.sr 2)⟩
  | rotate90 => exact ⟨_, lays_symmetryOps (.r 1)⟩
  | rotate180 => exact ⟨_, lays_symmetryOps (.r 2)⟩
  | rotate270 => exact ⟨_, lays_symmetryOps (.r 3)⟩
  | transpose => exact ⟨_, lays_symmetryOps (.sr 1)⟩
  | transverse => exact ⟨_, lays_symmetryOps (.sr 3)⟩
  | _ => exact absurd h (by simp [isTurn])

end Operation

/--
**Colours and local statistics do not depend on which way an image lies.** On every
image that may be made, a colour adjustment or a local statistic can be rendered
before or after a flip, a quarter turn or a transposition: both orders succeed, and
the images are the same.
-/
theorem isotropic_commutes {image : Image} (ha : image.bounds.isAllocatable = true)
    {op turn : Operation} (hop : op.Isotropic) (hturn : turn.isTurn = true) :
    let rendered (ops : List Operation) := (Render.image Engine.plain image ops ()).1
    ∃ out, rendered [op, turn] = .ok out ∧ rendered [turn, op] = .ok out := by
  intro rendered
  obtain ⟨f, hf, hequivariant⟩ := hop.filters
  obtain ⟨p, hp⟩ := Operation.lays_of_isTurn hturn
  refine ⟨p.place (f image), ?_, ?_⟩
  · have hfiltered : (f image).bounds.isAllocatable = true := by rw [hf.bounds, ha]
    exact image_plain_append (hf.image ha) (image_lays hp hfiltered)
  · have hplaced : (p.place image).bounds.isAllocatable = true := by
      rw [Placement.bounds_place, Placement.isAllocatable_bounds, ha]
    rw [← hequivariant]
    exact image_plain_append (image_lays hp ha) (hf.image hplaced)

/-- The median over disks of five pixels across, before and after a quarter turn. -/
theorem isotropic_commutes_median :
    let rendered (ops : List Operation) := (Render.image Engine.plain markedImage ops ()).1
    markedImage.bounds.isAllocatable = true
      ∧ (Operation.neighbourhood .median 5).Isotropic ∧ Operation.rotate90.isTurn = true
      ∧ ∃ out, rendered [.neighbourhood .median 5, .rotate90] = .ok out
        ∧ rendered [.rotate90, .neighbourhood .median 5] = .ok out :=
  ⟨rfl, .neighbourhood _ _, rfl, isotropic_commutes rfl (.neighbourhood _ _) rfl⟩

end RasterScript
