import Mathlib.Tactic.Linarith
import Mathlib.Tactic.Ring
import RasterScript.Proofs.Locality

/-!
# The weights of a blur

A kernel is the same on both sides of its centre. The weights of a side are the shares of
65536 that the Gaussian asks for, each rounded by itself, and the centre has whatever the
two sides leave over (`kernel_eq`). Everything about kernels follows from that equation.

It settles the sum. As long as the sides leave something, the weights add up to 65536
exactly. A weight cannot be less than nothing, though, and where the sides have been
rounded up to more than the whole by themselves, the sum is theirs
(`kernel_normalized_iff`).

Up to a radius of 181 there are too few places for so much rounding, since the centre has
the greatest share of all of them (`side_le_of_radius`). For the greatest sigmas, whose
Gaussians are all but flat, 1025 places have less than 65 each, and 1024 times 64 is the
whole (`side_le_of_flat`). In between it does happen (`kernel_overfull`).
-/

namespace RasterScript

namespace Blur

/-! ## The shape of a kernel -/

/-- A number in units of its format. -/
def scale (sigma : Float32) : Nat := BinaryFormat.single.units (Single.pattern sigma)

/-- The heights of the Gaussian on one side of its centre, from the nearest place on. -/
def slope (sigma : Float32) : List Nat :=
  (List.range (radius sigma)).map fun i => height (scale sigma) (i + 1)

/-- The weights on one side of the centre, from the nearest place on. -/
def side (sigma : Float32) : List Nat := (slope sigma).map (share (total (heights sigma)))

theorem length_slope (sigma : Float32) : (slope sigma).length = radius sigma := by
  rw [slope, List.length_map, List.length_range]

theorem total_singleton (weight : Nat) : total [weight] = weight := Nat.add_zero weight

theorem total_append (first second : List Nat) :
    total (first ++ second) = total first + total second :=
  List.sum_append

theorem total_reverse (weights : List Nat) : total weights.reverse = total weights :=
  List.sum_reverse weights

/-- What is the same on both sides of a centre adds up to twice the side and the centre. -/
theorem total_mirrored (side : List Nat) (centre : Nat) :
    total (side.reverse ++ centre :: side) = 2 * total side + centre := by
  have hcons : total (centre :: side) = centre + total side := rfl
  rw [total_append, total_reverse, hcons]
  omega

theorem modify_middle (left right : List Nat) (centre : Nat) (f : Nat → Nat) :
    (left ++ centre :: right).modify left.length f = left ++ f centre :: right := by
  induction left with
  | nil => rfl
  | cons weight left ih => exact congrArg (weight :: ·) ih

theorem heights_eq (sigma : Float32) :
    heights sigma = (slope sigma).reverse ++ one :: slope sigma := by
  have hhalf : (List.range (radius sigma + 1)).map (height (scale sigma)) =
      one :: slope sigma := by
    rw [List.range_succ_eq_map, List.map_cons, List.map_map, height_zero]
    rfl
  change ((List.range _).map (height (scale sigma))).tail.reverse ++
    (List.range _).map (height (scale sigma)) = _
  rw [hhalf, List.tail_cons]

/-- **The centre has what the two sides leave over,** as long as they leave anything. -/
theorem kernel_eq (sigma : Float32) :
    kernel sigma =
      (side sigma).reverse ++ (65536 - 2 * total (side sigma)) :: side sigma := by
  have hshares : (heights sigma).map (share (total (heights sigma))) =
      (side sigma).reverse ++ share (total (heights sigma)) one :: side sigma := by
    rw [side, ← List.map_reverse, ← List.map_cons, ← List.map_append, ← heights_eq]
  have hlength : (side sigma).reverse.length = radius sigma := by
    rw [List.length_reverse, side, List.length_map, length_slope]
  unfold kernel
  dsimp only
  rw [hshares, total_mirrored, ← hlength, modify_middle]
  congr 2
  omega

theorem reverse_kernel (sigma : Float32) : (kernel sigma).reverse = kernel sigma := by
  rw [kernel_eq]
  simp

/-- **Weights add up to 65536, or to the two sides where these are more.** -/
theorem total_kernel (sigma : Float32) :
    total (kernel sigma) = max 65536 (2 * total (side sigma)) := by
  rw [kernel_eq, total_mirrored]
  omega

theorem share_le (whole weight : Nat) : share whole weight ≤ 65536 := Nat.min_le_right _ _

theorem le_of_mem_kernel {sigma : Float32} {weight : Nat} (h : weight ∈ kernel sigma) :
    weight ≤ 65536 := by
  have hside : ∀ weight ∈ side sigma, weight ≤ 65536 := by
    intro weight hmem
    obtain ⟨_, _, rfl⟩ := List.mem_map.mp hmem
    exact share_le _ _
  rw [kernel_eq] at h
  rcases List.mem_append.mp h with hleft | hrest
  · exact hside weight (List.mem_reverse.mp hleft)
  · rcases List.mem_cons.mp hrest with rfl | hright
    · exact Nat.sub_le _ _
    · exact hside weight hright

/-! ## How high the Gaussian is -/

theorem one_pos : 0 < one := by decide

theorem series_le (t terms n : Nat) : series t terms n ≤ one := by
  cases terms with
  | zero => exact Nat.le_refl one
  | succ terms => exact Nat.sub_le _ _

/-- A number that is short of 1 by some loss falls short by at most that much more each time. -/
theorem sub_le_squares {x loss : Nat} (hx : x ≤ one) (h : one ≤ x + loss) (times : Nat) :
    squares x times ≤ one ∧ one ≤ squares x times + 2 ^ times * loss := by
  induction times generalizing x loss with
  | zero =>
      refine ⟨hx, ?_⟩
      rw [Nat.pow_zero, Nat.one_mul]
      exact h
  | succ times ih =>
      have hsquare : x * x / one ≤ one :=
        Nat.div_le_of_le_mul (Nat.mul_le_mul hx hx)
      have hloss : one ≤ x * x / one + 2 * loss := by
        rw [← Nat.add_mul_div_left _ _ one_pos, Nat.le_div_iff_mul_le one_pos]
        nlinarith
      obtain ⟨hle, hge⟩ := ih hsquare hloss
      refine ⟨hle, ?_⟩
      rw [Nat.pow_succ, Nat.mul_assoc]
      exact hge

/-- **`exp (-t)` is at most 1, and at least `1 - t`.** -/
theorem expNeg_bounds (t : Nat) : expNeg t ≤ one ∧ one ≤ expNeg t + t := by
  unfold expNeg
  split
  · rename_i hlarge
    have hone := one_pos
    exact ⟨Nat.zero_le one, by omega⟩
  · have hseries : one ≤ series (t / 4096) 20 1 + t / 4096 := by
      have hterm : t / 4096 * series (t / 4096) 19 2 / (1 * one) ≤ t / 4096 := by
        rw [Nat.one_mul]
        refine Nat.div_le_of_le_mul ?_
        rw [Nat.mul_comm one]
        exact Nat.mul_le_mul_left _ (series_le _ _ _)
      change one ≤ one - t / 4096 * series (t / 4096) 19 2 / (1 * one) + t / 4096
      omega
    obtain ⟨hle, hge⟩ := sub_le_squares (series_le _ _ _) hseries 12
    have htwelve : 2 ^ 12 * (t / 4096) ≤ t := Nat.mul_div_le t 4096
    exact ⟨hle, by omega⟩

theorem height_le (scale distance : Nat) : height scale distance ≤ one := (expNeg_bounds _).1

/-! ## Where the sides are at most the whole -/

theorem total_map_le {f : Nat → Nat} {bound : Nat} (h : ∀ i, f i ≤ bound) (count : Nat) :
    total ((List.range count).map f) ≤ count * bound := by
  induction count with
  | zero => exact Nat.zero_le _
  | succ count ih =>
      rw [List.range_succ, List.map_append, total_append, List.map_singleton, total_singleton,
        Nat.succ_mul]
      exact Nat.add_le_add ih (h count)

theorem total_heights (sigma : Float32) :
    total (heights sigma) = 2 * total (slope sigma) + one := by
  rw [heights_eq, total_mirrored]

/-- Rounding takes a share up by at most a half. -/
theorem total_shares_le (whole : Nat) (weights : List Nat) :
    2 * whole * total (weights.map (share whole)) ≤
      2 * 65536 * total weights + weights.length * whole := by
  induction weights with
  | nil => simp [total]
  | cons weight weights ih =>
      have hshare : 2 * whole * share whole weight ≤ 2 * weight * 65536 + whole :=
        (Nat.mul_le_mul_left _ (Nat.min_le_left _ _)).trans (Nat.mul_div_le _ _)
      have hcons : total ((weight :: weights).map (share whole)) =
          share whole weight + total (weights.map (share whole)) := rfl
      have hcons' : total (weight :: weights) = weight + total weights := rfl
      rw [hcons, hcons', List.length_cons]
      nlinarith

/--
Up to a radius of 181 the sides leave something: what rounding adds is less than the
share of the centre, since no place has a greater one.
-/
theorem side_le_of_radius {sigma : Float32} (h : radius sigma ≤ 181) :
    2 * total (side sigma) ≤ 65536 := by
  have hone := one_pos
  have hslope : total (slope sigma) ≤ 181 * one :=
    (total_map_le (fun i => height_le _ _) _).trans (Nat.mul_le_mul_right one h)
  have hrounded := total_shares_le (total (heights sigma)) (slope sigma)
  rw [length_slope] at hrounded
  have hplaces : radius sigma * total (heights sigma) ≤ 181 * total (heights sigma) :=
    Nat.mul_le_mul_right _ h
  by_contra hover
  have hsides : 65538 * total (heights sigma) ≤ 2 * total (heights sigma) * total (side sigma) := by
    have : 65538 ≤ 2 * total (side sigma) := by omega
    nlinarith
  rw [total_heights] at hplaces hrounded hsides
  unfold side at hsides
  rw [total_heights] at hsides
  omega

/-- A sigma of at least a whole number. -/
def AtLeast (sigma : Float32) (n : Nat) : Prop :=
  n * 2 ^ BinaryFormat.single.unitPower ≤ scale sigma

instance (sigma : Float32) (n : Nat) : Decidable (AtLeast sigma n) :=
  inferInstanceAs (Decidable (_ ≤ _))

section Flat

variable {sigma : Float32} {n : Nat} (h : AtLeast sigma n)
include h

/-- The exponent of the Gaussian: the square of the distance over twice the square of sigma. -/
theorem exponent_le (distance : Nat) :
    2 * n * n * (distance * distance * Nat.pow 2 (2 * BinaryFormat.single.unitPower) * one /
      (2 * scale sigma * scale sigma)) ≤ distance * distance * one := by
  unfold AtLeast at h
  generalize BinaryFormat.single.unitPower = power at h ⊢
  have hunits : Nat.pow 2 (2 * power) = 2 ^ power * 2 ^ power := by
    rw [Nat.two_mul]
    exact Nat.pow_add ..
  rw [hunits]
  have hpos : 0 < 2 ^ power * 2 ^ power := Nat.mul_pos (Nat.two_pow_pos _) (Nat.two_pow_pos _)
  generalize 2 ^ power = unit at h hpos ⊢
  generalize scale sigma = s at h ⊢
  have hscale : 2 * n * n * (unit * unit) ≤ 2 * s * s := by
    have hsquare := Nat.mul_le_mul h h
    nlinarith
  generalize hquotient : distance * distance * (unit * unit) * one / (2 * s * s) = quotient
  refine Nat.le_of_mul_le_mul_right (c := unit * unit) ?_ hpos
  calc 2 * n * n * quotient * (unit * unit)
      _ = quotient * (2 * n * n * (unit * unit)) := by ring
      _ ≤ quotient * (2 * s * s) := Nat.mul_le_mul_left _ hscale
      _ ≤ distance * distance * (unit * unit) * one := hquotient ▸ Nat.div_mul_le_self _ _
      _ = distance * distance * one * (unit * unit) := by ring

/-- The Gaussian has lost little at a distance, since `exp (-t)` is at least `1 - t`. -/
theorem height_ge (distance : Nat) :
    2 * n * n * one ≤
      2 * n * n * height (scale sigma) distance + distance * distance * one := by
  have hexp := (expNeg_bounds (distance * distance * Nat.pow 2 (2 *
    BinaryFormat.single.unitPower) * one / (2 * scale sigma * scale sigma))).2
  have hmul := Nat.mul_le_mul_left (2 * n * n) hexp
  rw [Nat.mul_add] at hmul
  exact hmul.trans (Nat.add_le_add_left (exponent_le h distance) _)

/-- What a side has lost in all, with the sum of the squares up to its end. -/
theorem slope_ge (count : Nat) :
    6 * (count * (2 * n * n * one)) ≤
      6 * (2 * n * n * total ((List.range count).map fun i => height (scale sigma) (i + 1))) +
        count * (count + 1) * (2 * count + 1) * one := by
  induction count with
  | zero => simp
  | succ count ih =>
      have hlast := height_ge h (count + 1)
      have hsquares : (count + 1) * (count + 1 + 1) * (2 * (count + 1) + 1) * one =
          count * (count + 1) * (2 * count + 1) * one + 6 * ((count + 1) * (count + 1) * one) := by
        ring
      rw [List.range_succ, List.map_append, total_append, List.map_singleton, total_singleton,
        hsquares, Nat.succ_mul count, Nat.mul_add (2 * n * n)]
      omega

end Flat

/-- Where all 1025 places are nearly as high, none has a share of more than 64. -/
theorem side_le_of_flat {sigma : Float32} (h : AtLeast sigma 2250) (hradius : radius sigma = 512) :
    2 * total (side sigma) ≤ 65536 := by
  have hone := one_pos
  have hslope := slope_ge h 512
  have hwhole : 131072 * one + total (heights sigma) < 130 * total (heights sigma) := by
    rw [total_heights, slope, hradius]
    omega
  have hshare : ∀ i, share (total (heights sigma)) (height (scale sigma) (i + 1)) ≤ 64 := by
    intro i
    have hheight := height_le (scale sigma) (i + 1)
    refine (Nat.min_le_left _ _).trans (Nat.lt_succ_iff.mp ?_)
    rw [Nat.div_lt_iff_lt_mul (by omega)]
    omega
  have hside : total (side sigma) ≤ 512 * 64 := by
    rw [side, slope, hradius, List.map_map]
    exact total_map_le hshare 512
  omega

/--
**When the weights of a blur add up to the whole.** A kernel reaches as far to the left as to
the right, no weight is more than the whole, which is 65536, and it reads the same in both
directions. Its weights add up to the whole just if the rounded weights beside the centre do
not add up to more than that; otherwise the centre has nothing, and the sum is theirs. They do
not where the radius is at most 181, nor where sigma is at least 2250.
-/
theorem kernel_normalized_iff (sigma : Float32) :
    (kernel sigma).length = 2 * radius sigma + 1
      ∧ (∀ weight ∈ kernel sigma, weight ≤ 65536)
      ∧ (kernel sigma).reverse = kernel sigma
      ∧ total (kernel sigma) = max 65536 (2 * total (side sigma))
      ∧ (total (kernel sigma) = 65536 ↔ 2 * total (side sigma) ≤ 65536)
      ∧ (radius sigma ≤ 181 → total (kernel sigma) = 65536)
      ∧ (radius sigma = 512 → AtLeast sigma 2250 → total (kernel sigma) = 65536) := by
  have htotal := total_kernel sigma
  refine ⟨length_kernel sigma, fun weight => le_of_mem_kernel, reverse_kernel sigma, htotal, ?_,
    fun hradius => ?_, fun hradius hflat => ?_⟩
  · omega
  · have hside := side_le_of_radius hradius
    omega
  · have hside := side_le_of_flat hflat hradius
    omega

/-- A radius of 180, and a Gaussian that is nearly flat as far as the kernel reaches. -/
theorem kernel_normalized_samples :
    (radius 60 ≤ 181 ∧ total (kernel 60) = 65536)
      ∧ radius 3000 = 512 ∧ AtLeast 3000 2250 ∧ total (kernel 3000) = 65536 := by
  have hnear : radius 60 ≤ 181 := by decide +kernel
  have hreach : radius 3000 = 512 := by decide +kernel
  have hflat : AtLeast 3000 2250 := by decide +kernel
  obtain ⟨_, _, _, _, _, hsmall, _⟩ := kernel_normalized_iff 60
  obtain ⟨_, _, _, _, _, _, hlarge⟩ := kernel_normalized_iff 3000
  exact ⟨⟨hnear, hsmall hnear⟩, hreach, hflat, hlarge hreach hflat⟩

/-- **Between these the weights can be too many:** rounding takes 67, and the centre has 65. -/
theorem kernel_overfull :
    (1920 : Float32).isFinite = true ∧ (0 : Float32) < 1920 ∧ radius 1920 = 512
      ∧ total (kernel 1920) = 65538 := by
  decide +kernel

end Blur

end RasterScript
