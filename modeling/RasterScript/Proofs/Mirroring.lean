import RasterScript.Proofs.Averages
import RasterScript.Proofs.Equivariance
import RasterScript.Proofs.Weights

/-!
# Blurring a placed image

What a placement does to a pass is a matter of its taps. If those of a place in the placed
image come from those of its source, in the same order or in the opposite one, then the
averages are the same, as long as the weights read the same in both directions
(`pass_place`).

The taps of a pass do come from there, in the opposite order along a side that the placement
reads from its far end (`mirror_tap`). The middle tap has to be in the middle for that, so
the number of weights is odd. The border needs no case of its own: a tap that is moved to
one border has its mirror image moved to the other. And where a placement exchanges columns
and rows, it exchanges the two kinds of passes (`source_alongRow`, `source_alongColumn`).

So both passes together commute with every placement that leaves columns columns. The others
exchange the passes as well, and so change which of the two is rounded first.
-/

namespace RasterScript

namespace Blur

/-! ## Averages from the other end -/

section Palindrome

variable {weights : List Nat} (hpalindrome : weights.reverse = weights)
include hpalindrome

theorem getD_mirror {i : Nat} (hi : i < weights.length) (reversed : Bool) :
    weights.getD (mirror reversed weights.length i) 0 = weights.getD i 0 := by
  cases reversed with
  | false => rfl
  | true =>
      have hreverse : weights.reverse[i]? = weights[weights.length - 1 - i]? :=
        List.getElem?_reverse hi
      rw [hpalindrome] at hreverse
      rw [List.getD_eq_getElem?_getD, List.getD_eq_getElem?_getD, hreverse]
      rfl

/-- The values in the opposite order have the same sum. -/
theorem weighted_mirror (value : Nat → UInt8) (reversed : Bool) :
    weighted weights (fun i => value (mirror reversed weights.length i)) =
      weighted weights value := by
  cases reversed with
  | false => rfl
  | true =>
      have hterm : ∀ i ∈ Finset.range weights.length,
          weights.getD i 0 * (value (mirror true weights.length i)).toNat =
            weights.getD (weights.length - 1 - i) 0 *
              (value (weights.length - 1 - i)).toNat := by
        intro i hi
        rw [← getD_mirror hpalindrome (Finset.mem_range.mp hi) true]
        rfl
      rw [weighted, Finset.sum_congr rfl hterm]
      exact Finset.sum_range_reflect (fun i => weights.getD i 0 * (value i).toNat) weights.length

theorem average_mirror {first second : Nat → Pixel} (reversed : Bool)
    (h : ∀ i < weights.length, first i = second (mirror reversed weights.length i)) :
    average weights first = average weights second := by
  refine Pixel.ext_get fun c => ?_
  have hsum : weighted weights (fun i => (first i).get c) =
      weighted weights (fun i => (second (mirror reversed weights.length i)).get c) :=
    Finset.sum_congr rfl fun i hi =>
      congrArg (fun p : Pixel => weights.getD i 0 * (p.get c).toNat) (h i (Finset.mem_range.mp hi))
  rw [get_average, get_average, hsum,
    weighted_mirror hpalindrome (fun i => (second i).get c) reversed]

/-! ## Passes over a placed image -/

/-- **A pass over a placed image is the placed pass,** if the taps come from its taps. -/
theorem pass_place {taps taps' : Nat × Nat → Nat → Nat × Nat} {p : Placement} {image : Image}
    (reversed : Bool) (hinside : StaysInside (p.bounds image.bounds) taps')
    (htaps : ∀ q ∈ (p.bounds image.bounds).grid, ∀ i < weights.length,
      p.source image.bounds (taps' q i) =
        taps (p.source image.bounds q) (mirror reversed weights.length i)) :
    pass weights taps' (p.place image) = p.place (pass weights taps image) := by
  refine Image.ext_pixel rfl fun x y hx hy => ?_
  have hx : x < (p.bounds image.bounds).width := hx
  have hy : y < (p.bounds image.bounds).height := hy
  have hq : (x, y) ∈ (p.bounds image.bounds).grid := Bounds.mem_grid.mpr ⟨hx, hy⟩
  obtain ⟨hsx, hsy⟩ := Placement.source_inside (q := (x, y)) hx hy
  have hplaced : (p.place (pass weights taps image)).pixel x y =
      average weights (tapped image taps (p.source image.bounds (x, y)).1
        (p.source image.bounds (x, y)).2) :=
    (Placement.pixel_place p (pass weights taps image) hx hy).trans (pixel_pass hsx hsy)
  rw [hplaced, pixel_pass hx hy]
  refine average_mirror hpalindrome reversed fun i hi => ?_
  obtain ⟨htx, hty⟩ := Bounds.mem_grid.mp (hinside (x, y) hq i)
  have htap : tapped (p.place image) taps' x y i =
      image.pixel (p.source image.bounds (taps' (x, y) i)).1
        (p.source image.bounds (taps' (x, y) i)).2 :=
    Placement.pixel_place p image htx hty
  rw [htap, htaps (x, y) hq i hi]
  rfl

end Palindrome

/-! ## Taps of the two passes -/

/-- **The mirror image of a tap is a tap of the mirror image,** at the borders as well. -/
theorem mirror_tap {count length k i : Nat} (hodd : count % 2 = 1) (hk : k < length)
    (hi : i < count) (reversed : Bool) :
    mirror reversed length (tap (count / 2) length k i) =
      tap (count / 2) length (mirror reversed length k) (mirror reversed count i) := by
  cases reversed with
  | false => rfl
  | true =>
      simp only [mirror, if_true, tap]
      omega

section Placed

variable {b : Bounds} {p : Placement} {count : Nat} (hodd : count % 2 = 1) {q : Nat × Nat}
  (hq : q ∈ (p.bounds b).grid) {i : Nat} (hi : i < count)
include hodd hq hi

/-- The taps along a row come from taps along a row, or along a column if these are exchanged. -/
theorem source_alongRow :
    p.source b (alongRow (p.bounds b) (count / 2) q i) =
      if p.swaps then alongColumn b (count / 2) (p.source b q) (mirror p.mirrorsY count i)
      else alongRow b (count / 2) (p.source b q) (mirror p.mirrorsX count i) := by
  obtain ⟨swaps, mirrorsX, mirrorsY⟩ := p
  obtain ⟨hx, _⟩ := Bounds.mem_grid.mp hq
  cases swaps with
  | false => exact Prod.ext (mirror_tap hodd hx hi mirrorsX) rfl
  | true => exact Prod.ext rfl (mirror_tap hodd hx hi mirrorsY)

/-- The taps along a column come from taps along a column, or along a row. -/
theorem source_alongColumn :
    p.source b (alongColumn (p.bounds b) (count / 2) q i) =
      if p.swaps then alongRow b (count / 2) (p.source b q) (mirror p.mirrorsX count i)
      else alongColumn b (count / 2) (p.source b q) (mirror p.mirrorsY count i) := by
  obtain ⟨swaps, mirrorsX, mirrorsY⟩ := p
  obtain ⟨_, hy⟩ := Bounds.mem_grid.mp hq
  cases swaps with
  | false => exact Prod.ext rfl (mirror_tap hodd hy hi mirrorsY)
  | true => exact Prod.ext (mirror_tap hodd hy hi mirrorsX) rfl

end Placed

/-! ## Passes and placements -/

/-- Weights with one in the middle that read the same in both directions. -/
structure IsSymmetric (weights : List Nat) : Prop where
  odd : weights.length % 2 = 1
  palindrome : weights.reverse = weights

theorem isSymmetric_kernel (sigma : Float32) : IsSymmetric (kernel sigma) := by
  have hlength := length_kernel sigma
  exact ⟨by omega, reverse_kernel sigma⟩

section Symmetric

variable {weights : List Nat} (h : IsSymmetric weights)
include h

/-- **A placement exchanges the two passes just if it exchanges columns and rows.** -/
theorem rows_place (p : Placement) (image : Image) :
    rows (p.place image) weights =
      p.place (if p.swaps then columns image weights else rows image weights) := by
  have htaps (q) (hq : q ∈ (p.bounds image.bounds).grid) (i) (hi : i < weights.length) :=
    source_alongRow h.odd hq hi
  have hinside := staysInside_alongRow (p.bounds image.bounds) (weights.length / 2)
  cases hswaps : p.swaps with
  | false =>
      simp only [hswaps, Bool.false_eq_true, if_false] at htaps ⊢
      rw [rows_eq, rows_eq]
      exact pass_place h.palindrome p.mirrorsX hinside htaps
  | true =>
      simp only [hswaps, if_true] at htaps ⊢
      rw [rows_eq, columns_eq]
      exact pass_place h.palindrome p.mirrorsY hinside htaps

theorem columns_place (p : Placement) (image : Image) :
    columns (p.place image) weights =
      p.place (if p.swaps then rows image weights else columns image weights) := by
  have htaps (q) (hq : q ∈ (p.bounds image.bounds).grid) (i) (hi : i < weights.length) :=
    source_alongColumn h.odd hq hi
  have hinside := staysInside_alongColumn (p.bounds image.bounds) (weights.length / 2)
  cases hswaps : p.swaps with
  | false =>
      simp only [hswaps, Bool.false_eq_true, if_false] at htaps ⊢
      rw [columns_eq, columns_eq]
      exact pass_place h.palindrome p.mirrorsY hinside htaps
  | true =>
      simp only [hswaps, if_true] at htaps ⊢
      rw [columns_eq, rows_eq]
      exact pass_place h.palindrome p.mirrorsX hinside htaps

/-- Both passes commute with every placement that leaves columns columns. -/
theorem smooth_place {p : Placement} (hswaps : p.swaps = false) (image : Image) :
    smooth weights (p.place image) = p.place (smooth weights image) := by
  have hrows := rows_place h p image
  have hcolumns := columns_place h p (rows image weights)
  rw [hswaps, if_neg Bool.false_ne_true] at hrows hcolumns
  rw [smooth, hrows, hcolumns, smooth]

end Symmetric

/-- A blur of any strength commutes with these placements. -/
theorem blur_place {p : Placement} (hswaps : p.swaps = false) (image : Image) (sigma : Float32) :
    blur (p.place image) sigma = p.place (blur image sigma) := by
  cases heffective : isEffective sigma with
  | false => simp only [blur, heffective, Bool.false_eq_true, if_false]
  | true =>
      simp only [blur, heffective, if_true]
      exact smooth_place (isSymmetric_kernel sigma) hswaps image

/--
**Two passes commute with the flips.** The weights are odd in number and read the same in
both directions; nothing is said about their sum, nor about their number compared with the
sides of the image. Then flipping left and right, or top and bottom, and blurring may be done
in either order, pixel by pixel up to the borders. Over any placed image each pass is the placed
pass over the image, or the other pass if the placement exchanges columns and rows.
-/
theorem passes_commute_with_flips {weights : List Nat} (h : IsSymmetric weights) :
    (∀ image : Image,
        columns (rows (Turn.flipHorizontal image) weights) weights =
            Turn.flipHorizontal (columns (rows image weights) weights)
          ∧ columns (rows (Turn.flipVertical image) weights) weights =
            Turn.flipVertical (columns (rows image weights) weights))
      ∧ ∀ (p : Placement) (image : Image),
          rows (p.place image) weights =
              p.place (if p.swaps then columns image weights else rows image weights)
            ∧ columns (p.place image) weights =
              p.place (if p.swaps then rows image weights else columns image weights) := by
  refine ⟨fun image => ⟨?_, ?_⟩, fun p image => ⟨rows_place h p image, columns_place h p image⟩⟩
  · exact smooth_place (p := ⟨false, true, false⟩) h rfl image
  · exact smooth_place (p := ⟨false, false, true⟩) h rfl image

/-- Five weights, more than a row of three has pixels, and a mark in a corner. -/
theorem passes_commute_with_flips_mark :
    let weights := [13107, 13107, 13108, 13107, 13107]
    IsSymmetric weights
      ∧ columns (rows (Turn.flipHorizontal markedImage) weights) weights =
        Turn.flipHorizontal (columns (rows markedImage weights) weights) := by
  intro weights
  have hsymmetric : IsSymmetric weights := ⟨by decide, rfl⟩
  exact ⟨hsymmetric, ((passes_commute_with_flips hsymmetric).1 markedImage).1⟩

end Blur

end RasterScript
