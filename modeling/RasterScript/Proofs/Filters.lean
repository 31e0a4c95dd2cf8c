import RasterScript.Proofs.Composition

/-!
# Operations that keep the size

Colour adjustments, stencils, local statistics, blurring and sharpening announce
the size that they are given and cannot fail on an image that may be made. Each of
them is a function on images and nothing else (`Operation.Filters`), so what is
proved of the function holds of a render (`Filters.image`).
-/

namespace RasterScript

namespace Operation

/-- An operation that is a function on images and keeps their size. -/
structure Filters (op : Operation) (f : Image → Image) : Prop where
  /-- The size that is announced is that of the source. -/
  announced : ∀ b, op.bounds b = b
  /-- It is also the size of what is made. -/
  bounds : ∀ image, (f image).bounds = image.bounds
  /-- Nothing is in the way if the image may be made at all. -/
  transform : ∀ image, image.bounds.isAllocatable = true →
    op.transform image image.bounds = .ok (f image)

/-- **Such an operation is rendered to what its function makes.** -/
theorem Filters.image {op : Operation} {f : Image → Image} (h : op.Filters f) {image : Image}
    (ha : image.bounds.isAllocatable = true) :
    (Render.image Engine.plain image [op] ()).1 = .ok (f image) := by
  refine image_plain_single (by rw [h.announced, ha]) (apply_of_transform ?_ ?_)
  · rw [h.bounds, h.announced]
  · rw [h.announced]
    exact h.transform image ha

/-- Operations that adjust each pixel for itself. -/
def isAdjustment : Operation → Bool
  | brightness _ | colorBalance _ _ _ | colorize _ _ _ | colorspace _ | contrast _ | gamma _
  | grayscale | hue _ | invert | opacity _ | saturation _ | sepia _ | sigmoid _ _ | threshold _ =>
    true
  | _ => false

theorem filters_adjustment {op : Operation} (h : op.isAdjustment = true) :
    op.Filters fun image => image.map ((Color.adjust? op).getD id) := by
  cases op with
  | brightness | colorBalance | colorize | colorspace | contrast | gamma | grayscale | hue
  | invert | opacity | saturation | sepia | sigmoid | threshold =>
      exact ⟨fun _ => rfl, fun _ => rfl, fun _ _ => rfl⟩
  | _ => exact absurd h (by simp [isAdjustment])

theorem filters_edge : edge.Filters fun image => Convolve.weigh image Convolve.edgeWeights :=
  ⟨fun _ => rfl, fun _ => rfl, fun _ _ => rfl⟩

theorem filters_emboss :
    emboss.Filters fun image => Convolve.weigh image Convolve.embossWeights :=
  ⟨fun _ => rfl, fun _ => rfl, fun _ _ => rfl⟩

theorem filters_sobel : sobel.Filters Convolve.sobel :=
  ⟨fun _ => rfl, fun _ => rfl, fun _ _ => rfl⟩

theorem filters_neighbourhood (statistic : Statistic) (size : Int32) :
    (neighbourhood statistic size).Filters fun image =>
      Neighbourhood.filter image statistic size :=
  ⟨fun _ => rfl, fun image => Neighbourhood.bounds_filter image statistic size, fun _ _ => rfl⟩

theorem filters_blur (sigma : Float32) :
    (blur sigma).Filters fun image => Blur.blur image sigma := by
  refine ⟨fun _ => rfl, fun image => Blur.bounds_blur image sigma, fun image ha => ?_⟩
  rw [Operation.transform, checkBlur_eq ha]
  rfl

theorem filters_unsharpMask (sigma amount level : Float32) :
    (unsharpMask sigma amount level).Filters fun image =>
      Blur.unsharp image sigma amount level := by
  refine ⟨fun _ => rfl, fun _ => rfl, fun image ha => ?_⟩
  rw [Operation.transform, checkBlur_eq ha]
  rfl

end Operation

end RasterScript
