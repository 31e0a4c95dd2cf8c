import RasterScript.Proofs.Composition
import RasterScript.Proofs.Pixels

/-!
# Colours and alpha

Adjustments of colours, stencils and sharpening are about colours and leave alpha
alone; `opacity` is about alpha and leaves the colours alone
(`colours_and_alpha_apart`). That holds for any numbers they are given, infinite or
none at all, because no number of an operation ever meets the channel that is left.

There are three ways of leaving a channel alone. Stencils and sharpening copy its
byte. A curve on bytes passes it on with the pixel. All others take the whole pixel
to the scale from 0 to 1 and back, and nothing but the exactness of that way keeps
the channel: every byte comes back as itself (`toByte_ofByte`).

A pipeline of operations that keep a channel can be rendered if the source may be
made, and its render keeps the channel (`render_keeps_channel`).
-/

namespace RasterScript

/-! ## Images that agree in a channel -/

namespace Image

/-- Images of one size with the same numbers in a channel. -/
structure AgreeIn (c : Channel) (a b : Image) : Prop where
  bounds : b.bounds = a.bounds
  get : ∀ x y, x < a.width → y < a.height → (b.pixel x y).get c = (a.pixel x y).get c

variable {c : Channel} {image : Image}

theorem AgreeIn.refl (image : Image) : image.AgreeIn c image := ⟨rfl, fun _ _ _ _ => rfl⟩

theorem AgreeIn.trans {a b d : Image} (hab : a.AgreeIn c b) (hbd : b.AgreeIn c d) :
    a.AgreeIn c d := by
  refine ⟨hbd.bounds.trans hab.bounds, fun x y hx hy => ?_⟩
  have hx' : x < b.width := width_congr hab.bounds ▸ hx
  have hy' : y < b.height := height_congr hab.bounds ▸ hy
  exact (hbd.get x y hx' hy').trans (hab.get x y hx hy)

theorem agreeIn_generate {f : Nat → Nat → Pixel}
    (h : ∀ x y, (f x y).get c = (image.pixel x y).get c) :
    image.AgreeIn c (generate image.bounds f) := by
  refine ⟨rfl, fun x y hx hy => ?_⟩
  rw [pixel_generate hx hy]
  exact h x y

theorem agreeIn_map {f : Pixel → Pixel} (h : ∀ p, (f p).get c = p.get c) :
    image.AgreeIn c (image.map f) :=
  agreeIn_generate fun x y => h (image.pixel x y)

end Image

/-! ## What is made of one image -/

theorem Convolve.agreeIn_onWindows (image : Image) (f : List UInt8 → Float32) :
    image.AgreeIn .alpha (onWindows image f) :=
  Image.agreeIn_generate fun _ _ => rfl

theorem Blur.agreeIn_unsharp (image : Image) (sigma amount threshold : Float32) :
    image.AgreeIn .alpha (unsharp image sigma amount threshold) := by
  unfold unsharp
  exact Image.agreeIn_generate fun _ _ => rfl

/-- Operations that are about colours and nothing else. -/
def Operation.isRecolouring : Operation → Bool
  | brightness _ | colorBalance _ _ _ | colorize _ _ _ | colorspace _ | contrast _ | edge | emboss
  | gamma _ | grayscale | hue _ | invert | saturation _ | sepia _ | sigmoid _ _ | sobel
  | threshold _ | unsharpMask _ _ _ => true
  | _ => false

theorem Color.alpha_adjust {op : Operation} (h : op.isRecolouring = true) (p : Pixel) :
    ((adjust? op).getD id p).alpha = p.alpha := by
  cases op with
  | opacity => exact absurd h (by simp [Operation.isRecolouring])
  | brightness | colorBalance | colorize | colorspace | contrast | gamma | grayscale | hue | invert
  | saturation | sepia | threshold => exact alpha_onColors _ p
  | sigmoid midpoint factor =>
      -- either the pixel is kept or its alpha is passed on as a byte
      dsimp only [adjust?]
      split <;> rfl
  | _ => rfl

theorem Color.get_setAlpha (percent : Float32) (p : Pixel) {c : Channel} (h : c ≠ .alpha) :
    (setAlpha percent p).get c = p.get c := by
  rw [setAlpha_eq]
  cases c with
  | alpha => exact absurd rfl h
  | red | green | blue => rfl

/-! ## Operations that keep a channel -/

namespace Operation

/-- An operation that leaves a channel of every image alone. -/
structure Keeps (op : Operation) (c : Channel) : Prop where
  /-- The size that is announced is that of the source. -/
  announced : ∀ b, op.bounds b = b
  /--
  What is made has the numbers of the source in this channel. That something is made is only in
  question for sharpening, which refuses an image with more bytes than 64 bits count.
  -/
  transform : ∀ image,
    (∃ out, op.transform image image.bounds = .ok out ∧ image.AgreeIn c out)
      ∨ (image.bounds.byteLength? = none
        ∧ ∃ sigma amount level, op = unsharpMask sigma amount level)

theorem keeps_alpha {op : Operation} (h : op.isRecolouring = true) : op.Keeps .alpha := by
  cases op with
  | edge | emboss | sobel =>
      exact ⟨fun _ => rfl, fun image => .inl ⟨_, rfl, Convolve.agreeIn_onWindows image _⟩⟩
  | unsharpMask sigma amount level =>
      refine ⟨fun _ => rfl, fun image => ?_⟩
      cases hlength : image.bounds.byteLength? with
      | none => exact .inr ⟨rfl, sigma, amount, level, rfl⟩
      | some length =>
          rw [Operation.transform, checkBlur_of_byteLength hlength]
          exact .inl ⟨_, rfl, Blur.agreeIn_unsharp image sigma amount level⟩
  | brightness | colorBalance | colorize | colorspace | contrast | gamma | grayscale | hue
  | invert | saturation | sepia | sigmoid | threshold =>
      exact ⟨fun _ => rfl, fun _ => .inl ⟨_, rfl, Image.agreeIn_map (Color.alpha_adjust h)⟩⟩
  | _ => exact absurd h (by simp [isRecolouring])

theorem keeps_colour (percent : Float32) {c : Channel} (h : c ≠ .alpha) :
    (opacity percent).Keeps c where
  announced _ := rfl
  transform _ := .inl ⟨_, rfl, Image.agreeIn_map fun p => Color.get_setAlpha percent p h⟩

theorem Keeps.apply {op : Operation} {c : Channel} (h : op.Keeps c) (image : Image) :
    (∃ out, op.apply image image.bounds = .ok out ∧ image.AgreeIn c out)
      ∨ (image.bounds.byteLength? = none
        ∧ ∃ sigma amount level, op = unsharpMask sigma amount level) := by
  have hsize := h.announced image.bounds
  obtain ⟨out, hout, hagree⟩ | hlong := h.transform image
  · have happly := apply_of_transform (hagree.bounds.trans hsize.symm) (hsize.symm ▸ hout)
    rw [hsize] at happly
    exact .inl ⟨out, happly, hagree⟩
  · exact .inr hlong

end Operation

/--
**Colours and alpha are apart.** For any image, and whatever the numbers of the
operations are:

- an operation about colours makes an image of the same size with the alpha of the
  source at every pixel; only sharpening refuses an image, and only one with more bytes
  than 64 bits count;
- an opacity makes an image of the same size with the colours of the source at every
  pixel, and with one alpha everywhere that depends on the percentage alone.
-/
theorem colours_and_alpha_apart (image : Image) :
    (∀ op : Operation, op.isRecolouring = true →
        (∃ out, op.apply image image.bounds = .ok out ∧ image.AgreeIn .alpha out)
          ∨ (image.bounds.byteLength? = none
            ∧ ∃ sigma amount level, op = .unsharpMask sigma amount level))
      ∧ ∀ percent, ∃ out, (Operation.opacity percent).apply image image.bounds = .ok out
          ∧ (∀ c, c ≠ .alpha → image.AgreeIn c out)
          ∧ ∀ x y, x < image.width → y < image.height →
              (out.pixel x y).alpha = Color.toByte (Single.clamp percent 0 100 / 100) := by
  refine ⟨fun op hop => (Operation.keeps_alpha hop).apply image, fun percent => ?_⟩
  have happly : (Operation.opacity percent).apply image image.bounds =
      .ok (image.map (Color.setAlpha percent)) := apply_of_transform rfl rfl
  refine ⟨_, happly, fun c hc => ?_, fun x y hx hy => ?_⟩
  · obtain ⟨out, hout, hagree⟩ | ⟨_, _, _, _, hop⟩ :=
      (Operation.keeps_colour percent hc).apply image
    · exact Except.ok.inj (hout.symm.trans happly) ▸ hagree
    · exact absurd hop (by simp)
  · rw [Image.pixel_map _ _ hx hy, Color.setAlpha_eq]

/--
Numbers that are infinite or not numbers, on a pixel with four different channels. An
opacity that is not a number makes it transparent.
-/
theorem colours_and_alpha_apart_nan :
    let image := Image.generate ⟨1, 1, by decide, by decide⟩ fun _ _ => ⟨10, 200, 30, 7⟩
    let nan : Float32 := 0 / 0
    (∀ op ∈ [Operation.brightness nan, .unsharpMask (1 / 0) nan (-1 / 0)],
        op.isRecolouring = true ∧ image.bounds.byteLength? = some 4
          ∧ ∃ out, op.apply image image.bounds = .ok out ∧ (out.pixel 0 0).alpha = 7)
      ∧ (Channel.green ≠ .alpha ∧ 0 < image.width ∧ 0 < image.height)
      ∧ ∃ out, (Operation.opacity nan).apply image image.bounds = .ok out
          ∧ (out.pixel 0 0).green = 200 ∧ (out.pixel 0 0).alpha = 0 := by
  intro image nan
  obtain ⟨hrecolour, hopacity⟩ := colours_and_alpha_apart image
  have hgreen : Channel.green ≠ .alpha := by decide
  have hsize : 0 < image.width ∧ 0 < image.height := by decide
  have hlength : image.bounds.byteLength? = some 4 := rfl
  have hpixel : image.pixel 0 0 = ⟨10, 200, 30, 7⟩ := Image.pixel_generate hsize.1 hsize.2
  refine ⟨fun op hop => ?_, ⟨hgreen, hsize⟩, ?_⟩
  · have hcolours : op.isRecolouring = true := by
      obtain rfl | hop := List.mem_cons.mp hop
      · rfl
      · rw [List.mem_singleton.mp hop]
        rfl
    obtain ⟨out, hout, hagree⟩ | ⟨hlong, _⟩ := hrecolour op hcolours
    · refine ⟨hcolours, hlength, out, hout, (hagree.get 0 0 hsize.1 hsize.2).trans ?_⟩
      rw [hpixel]
      rfl
    · exact absurd (hlength.symm.trans hlong) (by simp)
  · obtain ⟨out, hout, hcolours, halpha⟩ := hopacity nan
    refine ⟨out, hout, ((hcolours .green hgreen).get 0 0 hsize.1 hsize.2).trans ?_,
      (halpha 0 0 hsize.1 hsize.2).trans ?_⟩
    · rw [hpixel]
      rfl
    · decide +kernel

/-! ## Pipelines -/

section Pipeline

variable {c : Channel} {ops : List Operation} (h : ∀ op ∈ ops, op.Keeps c)
include h

theorem steps_keep_channel :
    ∀ {index : Nat} {image : Image}, image.bounds.isAllocatable = true →
      ∃ out, (Render.steps Engine.plain index image ops ()).1 = .ok out ∧ image.AgreeIn c out := by
  induction ops with
  | nil => intro index image _; exact ⟨image, rfl, .refl image⟩
  | cons op ops ih =>
      intro index image ha
      obtain ⟨hop, hrest⟩ := List.forall_mem_cons.mp h
      rw [steps_plain_cons, hop.announced, if_pos ha]
      obtain ⟨next, hnext, hfirst⟩ | ⟨hlong, _⟩ := hop.apply image
      · rw [hnext]
        obtain ⟨out, hout, hlater⟩ := ih hrest (hfirst.bounds ▸ ha)
        exact ⟨out, hout, hfirst.trans hlater⟩
      · -- an image that may be made is not too long for sharpening
        rw [Bounds.byteLength?_of_isAllocatable ha] at hlong
        exact absurd hlong (by simp)

/-- **A pipeline of operations that keep a channel is rendered and keeps it.** -/
theorem render_keeps_channel {source : Image} (ha : source.bounds.isAllocatable = true) :
    ∃ out, (Render.image Engine.plain source ops ()).1 = .ok out ∧ source.AgreeIn c out := by
  rw [image_eq_steps Engine.plain_isPure Engine.plain_keepsSize source ops () ()]
  exact steps_keep_channel h ha

end Pipeline

end RasterScript
