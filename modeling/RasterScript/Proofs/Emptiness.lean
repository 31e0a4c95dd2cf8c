import RasterScript.Proofs.Composition

/-!
# Images without pixels

A crop may miss the image altogether, and then nothing is left. No operation makes
pixels out of that: each of them turns a size without pixels into another
(`isEmpty_bounds`), a scaling by leaving alone what has no shape, the rest because
they cut, exchange or keep the sides. Nor does such a step fail, as it needs no room
(`fits_of_isEmpty`).

So a pipeline that has come to an empty size goes on to its end, and it is the
encoder that refuses, whatever the container: that there are no pixels is asked
before which container it is (`empty_never_encoded`).
-/

namespace RasterScript

namespace Bounds

theorem isEmpty_iff {b : Bounds} : b.isEmpty = true ↔ b.width = 0 ∨ b.height = 0 := by
  simp [isEmpty]

theorem isEmpty_eq_false_iff {b : Bounds} : b.isEmpty = false ↔ 0 < b.width ∧ 0 < b.height := by
  rw [Bool.eq_false_iff, Ne, isEmpty_iff]
  omega

theorem isEmpty_swapped (b : Bounds) : b.swapped.isEmpty = b.isEmpty := by
  simp only [isEmpty, swapped, or_comm]

/-- No pixels are never too many. -/
theorem isAllocatable_of_isEmpty {b : Bounds} (h : b.isEmpty = true) : b.isAllocatable = true := by
  have harea : b.area = 0 := Nat.mul_eq_zero.mpr (isEmpty_iff.mp h)
  simp [isAllocatable, harea]

end Bounds

/-! ## One operation -/

/-- Nothing can be cut out of an image without pixels. -/
theorem Region.crop?_of_isEmpty {src : Bounds} (h : src.isEmpty = true) (x1 y1 x2 y2 : Int32) :
    Region.crop? src x1 y1 x2 y2 = none := by
  have hside := Bounds.isEmpty_iff.mp h
  unfold Region.crop? Rect.intersect? Rect.ofBounds
  dsimp only
  rw [if_pos (by omega)]

theorem Region.centred?_of_isEmpty {src : Bounds} (h : src.isEmpty = true) (width height : Int) :
    Region.centred? src width height = none := if_pos (.inr (.inr h))

/-- **An operation makes no pixels out of none.** -/
theorem Operation.isEmpty_bounds (op : Operation) {src : Bounds} (h : src.isEmpty = true) :
    (op.bounds src).isEmpty = true := by
  cases op with
  | crop x1 y1 x2 y2 =>
      rw [Operation.bounds, Region.crop?_of_isEmpty h]
      rfl
  | cropToSize width height =>
      rw [Operation.bounds, Region.centred?_of_isEmpty h]
      rfl
  | resize width height =>
      rw [Operation.bounds, Scale.bounds]
      exact (congrArg Bounds.isEmpty (if_pos (.inr (.inr (.inr h))))).trans rfl
  | resizeToFill width height =>
      rw [Operation.bounds, Scale.fillBounds, if_pos (.inr (.inr h))]
      rfl
  | resizeToFit width height =>
      rw [Operation.bounds, Scale.fitBounds]
      exact (congrArg Bounds.isEmpty (if_pos (.inr (.inr h)))).trans rfl
  | rotate90 => exact (Bounds.isEmpty_swapped src).trans h
  | rotate270 => exact (Bounds.isEmpty_swapped src).trans h
  | transpose => exact (Bounds.isEmpty_swapped src).trans h
  | transverse => exact (Bounds.isEmpty_swapped src).trans h
  | rotate degrees =>
      dsimp only [Operation.bounds]
      split
      next => exact (Bounds.isEmpty_swapped src).trans h
      next => exact (Bounds.isEmpty_swapped src).trans h
      next => exact h
      next =>
        rw [Turn.rotatedBounds, if_pos h]
        rfl
  | _ => exact h

theorem Operation.fits_of_isEmpty (op : Operation) {src : Bounds} (h : src.isEmpty = true) :
    op.Fits src where
  result := Bounds.isAllocatable_of_isEmpty (op.isEmpty_bounds h)
  cover width height _ hne := by
    rw [op.isEmpty_bounds h] at hne
    cases hne

/-! ## Pipelines -/

theorem sizeAfter_append (src : Bounds) (p q : List Operation) :
    sizeAfter src (p ++ q) = sizeAfter (sizeAfter src p) q := by
  rw [sizeAfter, outputBounds_append]
  rfl

theorem isEmpty_sizeAfter (ops : List Operation) :
    ∀ {src : Bounds}, src.isEmpty = true → (sizeAfter src ops).isEmpty = true := by
  induction ops with
  | nil => exact id
  | cons op ops ih => exact fun h => ih (op.isEmpty_bounds h)

section Empty

variable {src : Bounds} {ops : List Operation} {n : Nat}
variable (h : (sizeAfter src (ops.take n)).isEmpty = true)
include h

theorem isEmpty_sizeAfter_of_take : (sizeAfter src ops).isEmpty = true := by
  rw [← List.take_append_drop n ops, sizeAfter_append]
  exact isEmpty_sizeAfter _ h

theorem isEmpty_take {m : Nat} (hm : n ≤ m) : (sizeAfter src (ops.take m)).isEmpty = true := by
  rw [← Nat.min_eq_left hm, ← List.take_take] at h
  exact isEmpty_sizeAfter_of_take h

/-- Only the steps up to the empty size can fail to fit. -/
theorem fitUpTo_iff_of_isEmpty : FitUpTo src ops ops.length ↔ FitUpTo src ops n := by
  constructor
  · exact fun hfit i hi _ => hfit i hi hi
  · intro hfit i hi _
    obtain hlt | hge := Nat.lt_or_ge i n
    · exact hfit i hi hlt
    · exact ops[i].fits_of_isEmpty (isEmpty_take h hge)

end Empty

/-- **There is no container for an image without pixels.** -/
theorem encode_of_isEmpty {image : Image} (h : image.bounds.isEmpty = true)
    (container : Container) :
    encode image container = .error (.encode (.emptyImage container image.bounds)) := if_pos h

/-- A render through an empty size ends at the encoder, unless a step before that size fails. -/
theorem render_of_isEmpty (binding : Binding) (ops : List Operation) {n : Nat}
    (h : (sizeAfter binding.image.bounds (ops.take n)).isEmpty = true) :
    let src := binding.image.bounds
    let rendered := (binding.render Engine.plain ops ()).1
    (FitUpTo src ops n
        ∧ rendered = .error (.encode (.emptyImage binding.container (sizeAfter src ops))))
      ∨ ∃ i, ∃ hi : i < ops.length, i < n ∧ FitUpTo src ops i
        ∧ ¬ ops[i].Fits (sizeAfter src (ops.take i))
        ∧ rendered =
          .error (.render (.atStep i ops[i] (ops[i].obstacle (sizeAfter src (ops.take i))))) := by
  intro src rendered
  dsimp only [rendered, src]
  rw [render_fst]
  by_cases hfit : FitUpTo binding.image.bounds ops ops.length
  · obtain ⟨out, hout, hbounds⟩ := image_fit hfit
    refine .inl ⟨(fitUpTo_iff_of_isEmpty h).mp hfit, ?_⟩
    rw [hout, ← hbounds]
    exact encode_of_isEmpty (hbounds ▸ isEmpty_sizeAfter_of_take h) _
  · obtain ⟨i, hi, hearlier, hunfit⟩ := exists_first_unfit hfit
    refine .inr ⟨i, hi, ?_, hearlier, hunfit, ?_⟩
    · -- from the empty size on, every step fits
      by_contra hge
      exact hunfit (ops[i].fits_of_isEmpty (isEmpty_take h (Nat.not_lt.mp hge)))
    · rw [image_unfit hi hearlier hunfit]

/--
**What has come to nothing stays nothing, and is not encoded.** Let the size that is
announced for the first `n` steps of a pipeline be without pixels. Then so is every
later one, and the render makes no file in any container, not even the missing one
that a container without an encoder is answered with. It ends with the encoder's
complaint about the empty image, exactly if those `n` steps fit; otherwise with the
fault of the first of them that does not.
-/
theorem empty_never_encoded (binding : Binding) (ops : List Operation) {n : Nat}
    (h : (sizeAfter binding.image.bounds (ops.take n)).isEmpty = true) :
    let size (i : Nat) : Bounds := sizeAfter binding.image.bounds (ops.take i)
    let rendered := (binding.render Engine.plain ops ()).1
    let refusal : Error :=
      .encode (.emptyImage binding.container (sizeAfter binding.image.bounds ops))
    (∀ m, n ≤ m → (size m).isEmpty = true)
      ∧ (∀ made, rendered ≠ .ok made)
      ∧ (rendered = .error refusal ↔ ∀ i (hi : i < ops.length), i < n → ops[i].Fits (size i))
      ∧ ∀ error, rendered = .error error → error = refusal
          ∨ ∃ i, ∃ hi : i < ops.length, i < n ∧ ¬ ops[i].Fits (size i)
            ∧ (∀ j (hj : j < ops.length), j < i → ops[j].Fits (size j))
            ∧ error = .render (.atStep i ops[i] (ops[i].obstacle (size i))) := by
  intro size rendered refusal
  refine ⟨fun m hm => isEmpty_take h hm, ?_⟩
  dsimp only [rendered]
  obtain ⟨hfit, hrefused⟩ | ⟨i, hi, hlt, hearlier, hunfit, hfailed⟩ :=
    render_of_isEmpty binding ops h
  · rw [hrefused]
    refine ⟨by simp, ⟨fun _ => hfit, fun _ => rfl⟩, ?_⟩
    exact fun error herror => .inl (Except.error.inj herror).symm
  · rw [hfailed]
    refine ⟨by simp, ⟨by simp [refusal], fun hfit => ?_⟩, ?_⟩
    · exact absurd (hfit i hi hlt) hunfit
    · intro error herror
      exact .inr ⟨i, hi, hlt, hunfit, hearlier, (Except.error.inj herror).symm⟩

/-- A crop beside the image, a turn and a scaling, in a container that cannot be written. -/
theorem empty_never_encoded_webp :
    let image := Image.generate ⟨2, 1, by decide, by decide⟩ fun x _ =>
      if x = 0 then Pixel.white else Pixel.clear
    let binding : Binding := ⟨image, .other "webp", "in.webp"⟩
    let ops : List Operation := [.crop 5 5 9 9, .rotate90, .resize 10 10]
    (sizeAfter image.bounds (ops.take 1)).isEmpty = true
      ∧ (binding.render Engine.plain ops ()).1 =
        .error (.encode (.emptyImage (.other "webp") Bounds.empty)) := by
  intro image binding ops
  have hempty : (sizeAfter image.bounds (ops.take 1)).isEmpty = true := by decide
  obtain ⟨-, -, hrefused, -⟩ := empty_never_encoded binding ops hempty
  have hsize : sizeAfter image.bounds ops = Bounds.empty := by decide
  refine ⟨hempty, ?_⟩
  rw [← hsize]
  refine hrefused.mpr fun i hi hlt => ?_
  obtain rfl : i = 0 := by omega
  have hcrop : (Operation.crop 5 5 9 9).Fits image.bounds :=
    ⟨by decide, fun width height hop => Operation.noConfusion hop⟩
  exact hcrop

end RasterScript
