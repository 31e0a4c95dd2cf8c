import Mathlib
import RasterScript.Proofs.Rounding

/-!
# Numbers and their texts

What is printed as a number reads back as that number: `Single.ofText_text` for
machine numbers and `Integer.ofText?_text` for integers.

A finite number is printed in plain digits, in one of three layouts: with zeros
put behind its digits, with a point among them, or with zeros in front. Each of
them is read as a decimal that need not have the digits that were laid out, but
has their value (`ReadsAs`), and by `Rounding` the value is all that matters.
-/

namespace RasterScript

/-! ## Runs of digits -/

theorem digitsValue_eq (digits : List Char) : digitsValue digits = Nat.ofDigitChars 10 digits 0 :=
  Nat.ofDigitChars_eq_foldl.symm

theorem digitsValue_toDigits (n : Nat) : digitsValue (Nat.toDigits 10 n) = n := by
  rw [digitsValue_eq, Nat.ofDigitChars_ten_toDigits]

theorem digitsValue_append_zeros (digits : List Char) (k : Nat) :
    digitsValue (digits ++ List.replicate k '0') = digitsValue digits * 10 ^ k := by
  rw [digitsValue_eq, digitsValue_eq, Nat.ofDigitChars_append, Nat.ofDigitChars_replicate_zero,
    Nat.mul_comm]

theorem digitsValue_zeros_append (digits : List Char) (k : Nat) :
    digitsValue (List.replicate k '0' ++ digits) = digitsValue digits := by
  rw [digitsValue_eq, digitsValue_eq, Nat.ofDigitChars_append, Nat.ofDigitChars_replicate_zero,
    Nat.mul_zero]

theorem isDigit_toDigits (n : Nat) : ∀ c ∈ Nat.toDigits 10 n, c.isDigit = true :=
  fun _ => Nat.isDigit_of_mem_toDigits (by decide) (by decide)

theorem isDigit_zeros (k : Nat) : ∀ c ∈ List.replicate k '0', c.isDigit = true := by
  intro c hc
  rw [List.eq_of_mem_replicate hc]
  decide

section Runs

variable {run rest : List Char}

/-- A run of some kind of characters is read up to the first of another kind. -/
theorem takeWhile_run {p : Char → Bool} (h : ∀ c ∈ run, p c = true)
    (hrest : ∀ c ∈ rest.head?, p c = false) :
    (run ++ rest).takeWhile p = run ∧ (run ++ rest).dropWhile p = rest := by
  rw [List.takeWhile_append_of_pos h, List.dropWhile_append_of_pos h]
  cases rest with
  | nil => simp
  | cons c rest => simp [hrest c rfl]

theorem splitSign_unsigned (h : ∀ c ∈ run, c.isDigit = true ∨ c = '.') :
    Decimal.splitSign run = (false, run) := by
  unfold Decimal.splitSign
  split
  next => exact absurd (h '-' (by simp)) (by decide)
  next => exact absurd (h '+' (by simp)) (by decide)
  next => rfl

end Runs

namespace NumberStyle

/-- What `trim` takes off the end of a run of digits is so many zeros. -/
theorem trim_append (digits : List Char) :
    (trim digits).1 ++ List.replicate (trim digits).2 '0' = digits := by
  have hzeros : digits.reverse.takeWhile (· = '0') = List.replicate (trim digits).2 '0' :=
    List.eq_replicate_iff.mpr ⟨rfl, fun c hc => by simpa using List.mem_takeWhile_imp hc⟩
  have htake := List.prefix_iff_eq_take.mp (List.takeWhile_prefix (l := digits.reverse) (· = '0'))
  have hdropped : digits.drop (digits.length - (trim digits).2) =
      List.replicate (trim digits).2 '0' := by
    rw [hzeros, List.length_replicate, List.take_reverse] at htake
    simpa using (congrArg List.reverse htake).symm
  rw [← hdropped]
  exact List.take_append_drop ..

theorem isDigit_trim {digits : List Char} (h : ∀ c ∈ digits, c.isDigit = true) :
    ∀ c ∈ (trim digits).1, c.isDigit = true :=
  fun c hc => h c (List.mem_of_mem_take hc)

end NumberStyle

/-! ## Reading what was laid out -/

namespace Decimal

variable {negative : Bool} {whole fraction : List Char}

theorem unsigned?_whole (h : ∀ c ∈ whole, c.isDigit = true) (hne : whole ≠ []) :
    unsigned? negative whole = some ⟨negative, digitsValue whole, 0⟩ := by
  have htake := List.takeWhile_eq_self_iff.mpr h
  have hdrop := List.dropWhile_eq_nil_iff.mpr h
  simp [unsigned?, htake, hdrop, hne, exponent?]

theorem unsigned?_point (h : ∀ c ∈ whole, c.isDigit = true) (hne : whole ≠ [])
    (hfraction : ∀ c ∈ fraction, c.isDigit = true) :
    unsigned? negative (whole ++ '.' :: fraction) =
      some ⟨negative, digitsValue (whole ++ fraction), -(fraction.length : Int)⟩ := by
  obtain ⟨htake, hdrop⟩ := @takeWhile_run whole ('.' :: fraction) _ h (by simp)
  have htake' := List.takeWhile_eq_self_iff.mpr hfraction
  have hdrop' := List.dropWhile_eq_nil_iff.mpr hfraction
  simp [unsigned?, htake, hdrop, htake', hdrop', hne, exponent?]

/-- The text without its sign is read as a decimal with the sign and the value of `d`. -/
def ReadsAs (text : List Char) (d : Decimal) : Prop :=
  ∃ r, unsigned? d.negative text = some r ∧ r.negative = d.negative ∧
    ∀ format, r.pattern format = d.pattern format

theorem ReadsAs.of_eq {text : List Char} {d : Decimal}
    (h : unsigned? d.negative text = some d) : ReadsAs text d :=
  ⟨d, h, rfl, fun _ => rfl⟩

end Decimal

namespace NumberStyle

open Decimal

variable {digits : List Char}

/-- Plain digits are read as the decimal that was laid out. -/
theorem layOut_bare (negative : Bool) (h : ∀ c ∈ digits, c.isDigit = true) (hne : digits ≠ [])
    (exponent : Int) :
    ReadsAs (bare.layOut digits exponent) ⟨negative, digitsValue digits, exponent⟩ := by
  have hlength : 0 < digits.length := List.length_pos_iff.mpr hne
  rw [layOut, if_pos (show bare.plain _ = true from rfl)]
  by_cases hwhole : 0 ≤ exponent
  · -- zeros behind the digits
    have hrun : ∀ c ∈ digits ++ List.replicate exponent.toNat '0', c.isDigit = true := fun c hc =>
      (List.mem_append.mp hc).elim (h c) (isDigit_zeros _ c)
    rw [if_pos hwhole]
    refine ⟨⟨negative, digitsValue digits * 10 ^ exponent.toNat, 0⟩, ?_, rfl, fun format => ?_⟩
    · rw [← digitsValue_append_zeros, ← unsigned?_whole hrun (by simp [hne])]
      simp [bare]
    · rw [pattern_mul_ten_pow, Int.zero_add, Int.toNat_of_nonneg hwhole]
  · rw [if_neg hwhole]
    by_cases hpoint : 0 < (digits.length : Int) + exponent
    · -- a point among the digits
      have hplaces : 0 < ((digits.length : Int) + exponent).toNat := by omega
      have htake := List.take_append_drop ((digits.length : Int) + exponent).toNat digits
      rw [if_pos hpoint]
      refine .of_eq ?_
      rw [unsigned?_point (fun c hc => h c (List.mem_of_mem_take hc))
        (by simp [hne]; omega) (fun c hc => h c (List.mem_of_mem_drop hc)), htake,
        List.length_drop]
      congr
      omega
    · -- a point in front of the digits, and zeros in between
      rw [if_neg hpoint]
      refine .of_eq ?_
      have hrun : ∀ c ∈ List.replicate (-((digits.length : Int) + exponent)).toNat '0' ++ digits,
          c.isDigit = true := fun c hc =>
        (List.mem_append.mp hc).elim (isDigit_zeros _ c) (h c)
      have hread := @unsigned?_point negative ['0'] _ (isDigit_zeros 1) (by simp) hrun
      have hvalue := digitsValue_zeros_append digits
        ((-((digits.length : Int) + exponent)).toNat + 1)
      rw [List.replicate_succ] at hvalue
      simp only [List.cons_append, List.nil_append] at hread hvalue ⊢
      rw [hread, hvalue, List.length_append, List.length_replicate]
      congr
      omega

/-- The characters of a layout. The last ones are those of an exponent. -/
theorem mem_layOut (style : NumberStyle) (h : ∀ c ∈ digits, c.isDigit = true) (exponent : Int) :
    ∀ c ∈ style.layOut digits exponent, c.isDigit = true ∨ c = '.'
      ∨ style.plain (digits.length + exponent - 1) = false ∧ (c = 'e' ∨ c = '+' ∨ c = '-') := by
  have hzero : ∀ c, c = '0' → c.isDigit = true := by
    rintro c rfl
    decide
  intro c hc
  unfold layOut at hc
  dsimp only at hc
  split at hc
  · split at hc
    · obtain hc | hc | hc := by simpa using hc
      · exact .inl (h c hc)
      · exact .inl (hzero c hc.2)
      · obtain ⟨-, rfl | rfl⟩ := hc
        · exact .inr (.inl rfl)
        · exact .inl (by decide)
    split at hc
    · obtain hc | rfl | hc := by simpa using hc
      · exact .inl (h c (List.mem_of_mem_take hc))
      · exact .inr (.inl rfl)
      · exact .inl (h c (List.mem_of_mem_drop hc))
    · obtain rfl | rfl | hc | hc := by simpa using hc
      · exact .inl (by decide)
      · exact .inr (.inl rfl)
      · exact .inl (hzero c hc.2)
      · exact .inl (h c hc)
  next hplain =>
    have hplain := Bool.eq_false_iff.mpr hplain
    obtain hc | hc | rfl | hc | hc := by
      simpa only [List.mem_append, List.mem_cons, or_assoc] using hc
    · exact .inl (h c (List.mem_of_mem_take hc))
    · split at hc
      · cases hc
      · obtain rfl | hc := List.mem_cons.mp hc
        · exact .inr (.inl rfl)
        · exact .inl (h c (List.mem_of_mem_drop hc))
    · exact .inr (.inr ⟨hplain, .inl rfl⟩)
    · split at hc
      · exact .inr (.inr ⟨hplain, .inr (.inr hc)⟩)
      · exact .inr (.inr ⟨hplain, .inr (.inl hc)⟩)
    · exact .inl (isDigit_toDigits _ c hc)

/-- Of a decimal in plain digits, the part behind its sign is read as the decimal. -/
theorem chars_bare (d : Decimal) :
    ∃ body, bare.chars d = (if d.negative then '-' :: body else body) ∧ ReadsAs body d ∧
      ∀ c ∈ body, c.isDigit = true ∨ c = '.' := by
  refine ⟨_, rfl, ?_⟩
  by_cases hzero : d.digits = 0
  · rw [if_pos hzero]
    refine ⟨⟨⟨d.negative, 0, 0⟩, ?_, rfl, fun format => ?_⟩, fun c hc => .inl ?_⟩
    · exact unsigned?_whole (isDigit_zeros 1) (by simp)
    · rw [pattern, pattern, hzero]
      exact BinaryFormat.nearest_congr (Nat.pow_pos (by decide)) (Nat.pow_pos (by decide)) (by simp)
    · exact isDigit_zeros 1 c hc
  · rw [if_neg hzero]
    -- the zeros that were trimmed are in the exponent
    have hvalue : digitsValue (trim (Nat.toDigits 10 d.digits)).1 *
        10 ^ (trim (Nat.toDigits 10 d.digits)).2 = d.digits := by
      rw [← digitsValue_append_zeros, trim_append, digitsValue_toDigits]
    have hdigits := isDigit_trim (isDigit_toDigits d.digits)
    have hne : (trim (Nat.toDigits 10 d.digits)).1 ≠ [] := by
      intro hnil
      rw [hnil, show digitsValue [] = 0 from rfl, Nat.zero_mul] at hvalue
      exact hzero hvalue.symm
    refine ⟨?_, fun c hc => ?_⟩
    rotate_left
    · obtain hc | hc | ⟨hplain, -⟩ := mem_layOut bare hdigits _ c hc
      · exact .inl hc
      · exact .inr hc
      · cases hplain
    obtain ⟨r, hread, hsign, hpattern⟩ := layOut_bare d.negative hdigits hne
      (d.exponent + (trim (Nat.toDigits 10 d.digits)).2)
    refine ⟨r, hread, hsign, fun format => ?_⟩
    rw [hpattern, ← pattern_mul_ten_pow, hvalue]

end NumberStyle

/-! ## Machine numbers -/

namespace Single

theorem toNat_toBits (x : Float32) :
    x.toBits.toNat = if isNegative x then pattern x + 0x80000000 else pattern x := by
  have hsize := x.toBits.toNat_lt
  simp only [isNegative, pattern, decide_eq_true_eq]
  split <;> omega

/-- A number is its sign and its pattern. -/
theorem ofPattern_pattern (x : Float32) : ofPattern (isNegative x) (pattern x) = x := by
  rw [ofPattern, ← toNat_toBits, UInt32.ofNat_toNat, Float32.ofBits_toBits]

theorem toNat_unpackExponent (x : Float32) :
    (@Float.Model.UnpackedFloat.unpackExponent .binary32 x.toBits.toBitVec).toNat =
      x.toBits.toNat >>> 23 % 2 ^ 8 := by
  rw [Float.Model.UnpackedFloat.unpackExponent_def, BitVec.extractLsb'_toNat]
  rfl

/-- There is only one NaN. -/
theorem eq_nan {x : Float32} (h : BinaryFormat.single.infinity < pattern x) : x = 0 / 0 := by
  have hpattern : 0x7f800000 < x.toBits.toNat % 0x80000000 := h
  have hexponent :
      (@Float.Model.UnpackedFloat.unpackExponent .binary32 x.toBits.toBitVec).toNat = 255 := by
    rw [toNat_unpackExponent]
    omega
  -- all ones in the exponent and something in the fraction: the model keeps one such number
  have hcanonical := x.toModel.valid.eq_packedNaN (BitVec.eq_of_toNat_eq hexponent) (by
    rw [Float.Model.UnpackedFloat.unpackMantissa_def]
    intro hmantissa
    have hzero := congrArg BitVec.toNat hmantissa
    rw [BitVec.extractLsb'_toNat] at hzero
    have : x.toBits.toNat >>> 0 % 2 ^ 23 = 0 := hzero
    omega)
  rw [← Float32.toBits_inj, ← UInt32.toBitVec_inj]
  exact hcanonical

/-- Whether a number is finite can be seen from its pattern. -/
theorem isFinite_iff (x : Float32) :
    x.isFinite = true ↔ pattern x < BinaryFormat.single.infinity := by
  have hpattern : pattern x < BinaryFormat.single.infinity ↔
      x.toBits.toNat >>> 23 % 2 ^ 8 ≠ 255 := by
    show x.toBits.toNat % 0x80000000 < 0x7f800000 ↔ _
    omega
  rw [hpattern, ← toNat_unpackExponent]
  show (Float.Model.UnpackedFloat.unpack .binary32 x.toBits.toBitVec).isFinite = true ↔ _
  unfold Float.Model.UnpackedFloat.unpack
  dsimp only
  split
  next hones =>
    rw [hones]
    split <;> simp [Float.Model.UnpackedFloat.isFinite]
  next hones =>
    refine iff_of_true ?_ fun heq => hones (BitVec.eq_of_toNat_eq heq)
    split
    · split <;> rfl
    · rfl

/-- **A machine number is read back from its text.** -/
theorem ofText_text (x : Float32) : ofText (text x) = x := by
  unfold text
  split
  next hnan =>
    rw [eq_nan hnan]
    decide +kernel
  split
  next hinf =>
    have hx := ofPattern_pattern x
    rw [hinf] at hx
    by_cases hneg : isNegative x = true
    · rw [if_pos hneg, ← hx, hneg]
      rfl
    · rw [if_neg hneg, ← hx, Bool.eq_false_iff.mpr hneg]
      rfl
  next hnan hinf =>
    -- any other text is the shortest decimal in plain digits, behind its sign
    obtain ⟨hsign, hpattern⟩ := shortest_reads_back .upper (x := x) (by omega)
    obtain ⟨body, hchars, ⟨r, hread, hrsign, hrpattern⟩, hbody⟩ :=
      NumberStyle.chars_bare (shortest .upper x)
    have hnumeral : Numeral.ofChars? (NumberStyle.bare.chars (shortest .upper x)) =
        some (.finite r) := by
      have hsplit : Decimal.splitSign (NumberStyle.bare.chars (shortest .upper x)) =
          ((shortest .upper x).negative, body) := by
        rw [hchars]
        split
        next hneg => rw [hneg]; rfl
        next hneg => rw [splitSign_unsigned hbody, Bool.eq_false_iff.mpr hneg]
      rw [Numeral.ofChars?, hsplit]
      simp only [hread]
    rw [ofText, String.toList_ofList, hnumeral]
    show r.toSingle = x
    rw [Decimal.toSingle, hrsign, hrpattern, hsign, hpattern, ofPattern_pattern]

end Single

/-! ## Integers -/

namespace Integer

theorem ofChars?_chars (n : Int) : ofChars? (chars n) = some n := by
  have hdigits := isDigit_toDigits n.natAbs
  have hne : Nat.toDigits 10 n.natAbs ≠ [] := Nat.toDigits_ne_nil
  rw [chars]
  split
  next hneg =>
    have hsplit : Decimal.splitSign ('-' :: Nat.toDigits 10 n.natAbs) =
        (true, Nat.toDigits 10 n.natAbs) := rfl
    simp only [ofChars?, hsplit, digitsValue_toDigits]
    rw [if_neg (by simpa [hne] using hdigits), if_true]
    exact congrArg some (by omega)
  next hneg =>
    have hsplit : Decimal.splitSign (Nat.toDigits 10 n.natAbs) =
        (false, Nat.toDigits 10 n.natAbs) :=
      splitSign_unsigned fun c hc => .inl (hdigits c hc)
    simp only [ofChars?, hsplit, digitsValue_toDigits]
    rw [if_neg (by simpa [hne] using hdigits), if_neg (by simp)]
    exact congrArg some (by omega)

theorem toInt32?_toInt (n : Int32) : toInt32? n.toInt = some n := by
  have hlow := n.le_toInt
  have hhigh := n.toInt_lt
  rw [toInt32?, if_pos (by omega), Int32.ofInt_toInt]

/-- **An integer is read back from its text.** -/
theorem ofText?_text (n : Int32) : ofText? (text n.toInt) = some n := by
  rw [ofText?, text, String.toList_ofList, ofChars?_chars, Option.bind_some, toInt32?_toInt]

end Integer

end RasterScript
