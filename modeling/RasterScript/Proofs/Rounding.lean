import Mathlib
import RasterScript.Number.Shortest

/-!
# Rounding what is exact

A decimal that is written out in full, or to just enough digits, comes back as the
pattern it was made from. Two facts about `nearest` carry that: it depends on the
**ratio** of its two arguments and on nothing else about them, and the exact
value of a finite pattern rounds to that very pattern.

The second is where the layout of the patterns matters. Past the first binade a
pattern is an exponent and a fraction, its value has `precision` bits followed by
zeros, and the number of those zeros is the shift that `nearest` chooses.
-/

namespace RasterScript

namespace BinaryFormat

variable {format : BinaryFormat}

/-! ## Only the ratio counts -/

theorem roundEven_mul (a b : Nat) {k : Nat} (hk : 0 < k) :
    roundEven (a * k) (b * k) = roundEven a b := by
  have hless : ∀ x y : Nat, x * k < y * k ↔ x < y := fun x y => Nat.mul_lt_mul_right hk
  have hrest : 2 * (a % b * k) = 2 * (a % b) * k := (Nat.mul_assoc ..).symm
  simp only [roundEven, Nat.mul_div_mul_right _ _ hk, Nat.mul_mod_mul_right, hrest, hless]

theorem nearest_mul (a b : Nat) {k : Nat} (hk : 0 < k) :
    format.nearest (a * k) (b * k) = format.nearest a b := by
  have hscaled : a * k * 2 ^ format.unitPower = a * 2 ^ format.unitPower * k :=
    Nat.mul_right_comm ..
  have hshift : ∀ shift, b * k * 2 ^ shift = b * 2 ^ shift * k := fun _ => Nat.mul_right_comm ..
  simp only [nearest, Nat.pow_eq, hscaled, hshift, Nat.mul_div_mul_right _ _ hk,
    roundEven_mul _ _ hk]

theorem nearest_congr {a b a' b' : Nat} (hb : 0 < b) (hb' : 0 < b') (h : a * b' = a' * b) :
    format.nearest a b = format.nearest a' b' := by
  calc format.nearest a b
      _ = format.nearest (a * b') (b * b') := (nearest_mul a b hb').symm
      _ = format.nearest (a' * b) (b' * b) := by rw [h, Nat.mul_comm b b']
      _ = format.nearest a' b' := nearest_mul a' b' hb

/-! ## Exact values round to themselves -/

theorem roundEven_exact (a : Nat) {d : Nat} (hd : 0 < d) : roundEven (a * d) d = a := by
  simp [roundEven, Nat.mul_div_cancel _ hd, hd]

theorem binade_pos : 0 < format.binade := Nat.two_pow_pos _

/-- A whole number of units is rounded at the place that its leading bit asks for. -/
theorem nearest_whole (units : Nat) :
    format.nearest units (2 ^ format.unitPower) =
      let shift := units.log2 + 1 - format.precision
      min (shift * format.binade + roundEven units (2 ^ shift)) format.infinity := by
  have hpos : 0 < 2 ^ format.unitPower := Nat.two_pow_pos _
  have hshift : ∀ shift, 2 ^ format.unitPower * 2 ^ shift = 2 ^ shift * 2 ^ format.unitPower :=
    fun _ => Nat.mul_comm ..
  simp only [nearest, Nat.pow_eq, Nat.mul_div_cancel _ hpos, hshift, roundEven_mul _ _ hpos]

/-- The value of a finite pattern is rounded to that pattern. -/
theorem nearest_units (hp : 0 < format.precision) {pattern : Nat}
    (h : pattern ≤ format.infinity) :
    format.nearest (format.units pattern) (2 ^ format.unitPower) = pattern := by
  have hbinade : format.binade = 2 ^ (format.precision - 1) := rfl
  have hsplit : pattern / format.binade * format.binade + pattern % format.binade = pattern :=
    Nat.div_add_mod' ..
  have hfraction : pattern % format.binade < format.binade := Nat.mod_lt _ binade_pos
  rw [nearest_whole]
  by_cases hfirst : pattern / format.binade = 0
  · -- the first binade counts units one by one, and nothing is shifted
    have hunits : format.units pattern = pattern := by
      rw [units, if_pos hfirst]
      rw [hfirst] at hsplit
      omega
    have hshift : pattern.log2 + 1 - format.precision = 0 := by
      by_cases hzero : pattern = 0
      · subst hzero
        simp [Nat.log2_zero]
        omega
      · have : pattern.log2 < format.precision - 1 := by
          rw [Nat.log2_lt hzero, ← hbinade]
          rw [hfirst] at hsplit
          omega
        omega
    simp only [hunits, hshift, roundEven, Nat.pow_zero, Nat.mod_one, Nat.div_one]
    simp [h]
  · -- past it the leading bit is implied, so that it stands `exponent` places further up
    obtain ⟨exponent, hexponent⟩ := Nat.exists_eq_succ_of_ne_zero hfirst
    have hunits : format.units pattern =
        (pattern % format.binade + format.binade) * 2 ^ exponent := by
      rw [units, if_neg hfirst, hexponent]
      rfl
    have hlog : (format.units pattern).log2 = format.precision - 1 + exponent := by
      have hpos := Nat.two_pow_pos exponent
      have hlead : (pattern % format.binade + format.binade) * 2 ^ exponent ≠ 0 :=
        Nat.ne_of_gt (Nat.mul_pos (by omega) hpos)
      rw [hunits, Nat.log2_eq_iff hlead, Nat.add_right_comm, Nat.pow_add, Nat.pow_add, Nat.pow_succ,
        ← hbinade]
      exact ⟨Nat.mul_le_mul_right _ (by omega), (Nat.mul_lt_mul_right hpos).mpr (by omega)⟩
    have hshift : (format.units pattern).log2 + 1 - format.precision = exponent := by omega
    have hround : roundEven (format.units pattern) (2 ^ exponent) =
        pattern % format.binade + format.binade := by
      rw [hunits, roundEven_exact _ (Nat.two_pow_pos exponent)]
    -- the implied bit, added as a fraction, is the step into the next binade
    simp only [hshift, hround]
    rw [hexponent, Nat.succ_mul] at hsplit
    omega

end BinaryFormat

/-! ## Decimals that denote the same number -/

namespace Decimal

variable {format : BinaryFormat}

/-- A decimal is rounded by its value: zeros at the end of its digits may go into the exponent. -/
theorem pattern_mul_ten_pow (negative : Bool) (digits k : Nat) (exponent : Int) :
    pattern ⟨negative, digits * 10 ^ k, exponent⟩ format =
      pattern ⟨negative, digits, exponent + k⟩ format := by
  have hpos : ∀ n, 0 < 10 ^ n := fun n => Nat.pow_pos (by decide)
  -- one of the two powers is trivial on either side, by the sign of the exponent
  have hpowers : k + exponent.toNat + (-(exponent + k)).toNat =
      (exponent + k).toNat + (-exponent).toNat := by omega
  refine BinaryFormat.nearest_congr (hpos _) (hpos _) ?_
  simp only [Nat.pow_eq, Nat.mul_assoc, ← Nat.pow_add, hpowers]

theorem pattern_zero (hp : 0 < format.precision) (negative : Bool) (exponent : Int) :
    pattern ⟨negative, 0, exponent⟩ format = 0 := by
  have hshift : 1 - format.precision = 0 := by omega
  simp [pattern, BinaryFormat.nearest, BinaryFormat.roundEven, hshift]

end Decimal

/-! ## The shortest decimal reads back -/

namespace Shortest

variable {readsBack : Nat → Int → Bool}

theorem atPlace?_readsBack {tie : Tie} {unitPower exact dropped : Nat} {found : Nat × Int}
    (h : atPlace? readsBack tie unitPower exact dropped = some found) :
    readsBack found.1 found.2 = true := by
  unfold atPlace? at h
  dsimp only at h
  split at h
  · cases h
    split_ifs <;> assumption
  · cases h
    assumption
  · cases h
    assumption
  · cases h

/-- If all the digits read back, so does what the search ends at. -/
theorem search_readsBack {tie : Tie} {unitPower exact : Nat}
    (h : readsBack exact (-(unitPower : Int)) = true) (places : Nat) :
    readsBack (search readsBack tie unitPower exact places).1
      (search readsBack tie unitPower exact places).2 = true := by
  induction places with
  | zero => exact h
  | succ dropped ih =>
      rw [search]
      split
      next hfound => exact atPlace?_readsBack hfound
      next => exact ih

theorem decimal_readsBack {format : BinaryFormat} {pattern : Nat} (tie : Tie)
    (h : readsBack (exactDigits format pattern) (-(format.unitPower : Int)) = true) :
    readsBack (decimal format readsBack tie pattern).1 (decimal format readsBack tie pattern).2 =
      true :=
  search_readsBack h _

theorem pattern_exactDigits {format : BinaryFormat} (hp : 0 < format.precision) (negative : Bool)
    {pattern : Nat} (h : pattern ≤ format.infinity) :
    Decimal.pattern ⟨negative, exactDigits format pattern, -(format.unitPower : Int)⟩ format =
      pattern := by
  have hten : 10 ^ format.unitPower = 2 ^ format.unitPower * 5 ^ format.unitPower :=
    Nat.mul_pow 2 5 _
  have hdigits : (-(format.unitPower : Int)).toNat = 0 := by omega
  have hplaces : (- -(format.unitPower : Int)).toNat = format.unitPower := by omega
  simp only [Decimal.pattern, exactDigits, hdigits, hplaces, Nat.pow_eq, Nat.pow_zero, Nat.mul_one,
    hten]
  rw [BinaryFormat.nearest_mul _ _ (Nat.pow_pos (by decide)), BinaryFormat.nearest_units hp h]

end Shortest

namespace Single

theorem single_precision : 0 < BinaryFormat.single.precision := by decide

/--
What the search asks for is kept abstract here: with the test written out, a checker that looks for
the two components of the pair would start to carry out the search.
-/
theorem shortest_eq (tie : Tie) {x : Float32} (h : pattern x ≠ 0) :
    ∃ readsBack : Nat → Int → Bool,
      (∀ digits exponent, readsBack digits exponent = true ↔
        Decimal.pattern ⟨false, digits, exponent⟩ .single = pattern x) ∧
      shortest tie x = ⟨isNegative x, (Shortest.decimal .single readsBack tie (pattern x)).1,
        (Shortest.decimal .single readsBack tie (pattern x)).2⟩ := by
  refine ⟨fun digits exponent => decide (Decimal.pattern ⟨false, digits, exponent⟩ .single =
    pattern x), fun digits exponent => decide_eq_true_iff, ?_⟩
  rewrite [shortest, if_neg h]
  generalize Shortest.decimal .single _ tie (pattern x) = found
  obtain ⟨digits, exponent⟩ := found
  rfl

/-- The shortest decimal of a finite number has its sign and its pattern. -/
theorem shortest_reads_back (tie : Tie) {x : Float32}
    (h : pattern x < BinaryFormat.single.infinity) :
    (shortest tie x).negative = isNegative x ∧
      (shortest tie x).pattern .single = pattern x := by
  by_cases hzero : pattern x = 0
  · rw [shortest, if_pos hzero]
    exact ⟨rfl, by rw [hzero, Decimal.pattern_zero single_precision]⟩
  · obtain ⟨readsBack, hreads, heq⟩ := shortest_eq tie hzero
    have hexact := (hreads _ _).mpr (Shortest.pattern_exactDigits single_precision false
      (Nat.le_of_lt h))
    have hfound := (hreads _ _).mp (Shortest.decimal_readsBack tie hexact)
    rw [heq]
    exact ⟨rfl, hfound⟩

end Single

end RasterScript
