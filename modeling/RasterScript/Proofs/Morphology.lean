import Mathlib.Order.GaloisConnection.Basic
import RasterScript.Proofs.Disks
import RasterScript.Proofs.Sizes

/-!
# Erosion and dilation

The local minimum shrinks what is bright in an image and the local maximum makes it
grow. The two are bound to each other. A dilated image stays below another image if
every place is at most every place of the other that it is sampled for; an image
stays below an eroded one if every place is at most every place of the other that is
sampled for it. One place is sampled for another exactly if the other is sampled for
the one (`mem_places_comm`), because distance has no direction and places outside
the image are left out rather than filled with something. So both conditions are the
same one (`galoisConnection_dilate_erode`).

All else follows from that and has nothing to do with disks: to erode and then dilate
gives an image below, the other way about gives one above, and doing either pair a
second time changes nothing (`dilate_erode_adjoint`).
-/

namespace RasterScript

namespace Neighbourhood

/-- The image of local minima. -/
def erode (size : Int32) (image : Image) : Image := filter image .minimum size

/-- The image of local maxima. -/
def dilate (size : Int32) (image : Image) : Image := filter image .maximum size

theorem greatest_le_iff {values : List UInt8} (h : values ≠ []) {bound : UInt8} :
    greatest values ≤ bound ↔ ∀ v ∈ values, v ≤ bound := by
  obtain ⟨hmem, hle⟩ := greatest_spec h
  constructor
  · intro hbound v hv
    exact UInt8.le_trans (hle v hv) hbound
  · intro hall
    exact hall _ hmem

theorem le_least_iff {values : List UInt8} (h : values ≠ []) {bound : UInt8} :
    bound ≤ least values ↔ ∀ v ∈ values, bound ≤ v := by
  obtain ⟨hmem, hle⟩ := least_spec h
  constructor
  · intro hbound v hv
    exact UInt8.le_trans hbound (hle v hv)
  · intro hall
    exact hall _ hmem

/-- **Being sampled is mutual.** -/
theorem mem_places_comm {b : Bounds} {radius : Nat} {p q : Nat × Nat} (hpx : p.1 < b.width)
    (hpy : p.2 < b.height) (hqx : q.1 < b.width) (hqy : q.2 < b.height) :
    p ∈ places b radius q.1 q.2 ↔ q ∈ places b radius p.1 p.2 := by
  rw [mem_places hqx hqy, mem_places hpx hpy, Prod.mk.eta, Prod.mk.eta, distSq_comm p q]
  constructor
  · intro h
    exact ⟨hqx, hqy, h.2.2⟩
  · intro h
    exact ⟨hpx, hpy, h.2.2⟩

/-- No place of the one image is greater than any place of the other that is within reach. -/
def Under (size : Int32) (a b : Image) : Prop :=
  a.bounds = b.bounds ∧ ∀ p q : Nat × Nat, p.1 < a.width → p.2 < a.height → q.1 < a.width →
    q.2 < a.height → p ∈ places a.bounds (reach size) q.1 q.2 →
    ∀ c, (a.pixel p.1 p.2).get c ≤ (b.pixel q.1 q.2).get c

section Adjoint

variable {size : Int32} {a b : Image}

/-- A dilated image is below another if its samples are. -/
theorem dilate_le_iff : dilate size a ≤ b ↔ Under size a b := by
  have hsize : (dilate size a).bounds = a.bounds := bounds_filter a .maximum size
  rw [Image.le_def, hsize, Image.width_congr hsize, Image.height_congr hsize]
  refine and_congr_right fun hbounds => ?_
  constructor
  · intro h p q hpx hpy hqx hqy hp c
    have hq := h q.1 q.2 hqx hqy c
    rw [dilate, get_filter hqx hqy] at hq
    refine (greatest_le_iff (samples_ne_nil hqx hqy size c)).mp hq _ ?_
    exact List.mem_map.mpr ⟨p, hp, rfl⟩
  · intro h x y hx hy c
    rw [dilate, get_filter hx hy]
    refine (greatest_le_iff (samples_ne_nil hx hy size c)).mpr fun v hv => ?_
    obtain ⟨p, hp, rfl⟩ := List.mem_map.mp hv
    obtain ⟨hpx, hpy, _⟩ := (mem_places hx hy).mp hp
    exact h p (x, y) hpx hpy hx hy hp c

/-- An image is below an eroded one if it is below its samples. -/
theorem le_erode_iff : a ≤ erode size b ↔ Under size a b := by
  have hsize : (erode size b).bounds = b.bounds := bounds_filter b .minimum size
  rw [Image.le_def, hsize]
  refine and_congr_right fun hbounds => ?_
  have hw := Image.width_congr hbounds
  have hh := Image.height_congr hbounds
  constructor
  · intro h p q hpx hpy hqx hqy hp c
    have hpx' : p.1 < b.width := hw ▸ hpx
    have hpy' : p.2 < b.height := hh ▸ hpy
    have hp' := h p.1 p.2 hpx hpy c
    rw [erode, get_filter hpx' hpy'] at hp'
    refine (le_least_iff (samples_ne_nil hpx' hpy' size c)).mp hp' _ ?_
    refine List.mem_map.mpr ⟨q, ?_, rfl⟩
    rw [← hbounds]
    exact (mem_places_comm hpx hpy hqx hqy).mp hp
  · intro h x y hx hy c
    have hx' : x < b.width := hw ▸ hx
    have hy' : y < b.height := hh ▸ hy
    rw [erode, get_filter hx' hy']
    refine (le_least_iff (samples_ne_nil hx' hy' size c)).mpr fun v hv => ?_
    obtain ⟨q, hq, rfl⟩ := List.mem_map.mp hv
    rw [← hbounds] at hq
    obtain ⟨hqx, hqy, _⟩ := (mem_places hx hy).mp hq
    exact h (x, y) q hx hy hqx hqy ((mem_places_comm hqx hqy hx hy).mp hq) c

end Adjoint

theorem galoisConnection_dilate_erode (size : Int32) :
    GaloisConnection (dilate size) (erode size) :=
  fun _ _ => dilate_le_iff.trans le_erode_iff.symm

/--
**Dilation and erosion are adjoint.** For every size and all images, one image
dilated is at most the other exactly if the one is at most the other eroded. So an
image eroded and then dilated is at most the image, dilated and then eroded it is at
least the image, and each of these two pairs does nothing more when it is done
again.
-/
theorem dilate_erode_adjoint (size : Int32) :
    (∀ a b : Image, dilate size a ≤ b ↔ a ≤ erode size b)
      ∧ (∀ a : Image, dilate size (erode size a) ≤ a)
      ∧ (∀ a : Image, a ≤ erode size (dilate size a))
      ∧ (∀ a : Image, dilate size (erode size (dilate size (erode size a))) =
          dilate size (erode size a))
      ∧ ∀ a : Image, erode size (dilate size (erode size (dilate size a))) =
          erode size (dilate size a) := by
  have hadjoint := galoisConnection_dilate_erode size
  refine ⟨hadjoint, hadjoint.l_u_le, hadjoint.le_u_l, fun a => ?_, fun a => ?_⟩
  · rw [hadjoint.u_l_u_eq_u]
  · rw [hadjoint.l_u_l_eq_l]

end Neighbourhood

end RasterScript
