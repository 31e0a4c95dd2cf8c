import Mathlib.Algebra.Order.BigOperators.Group.List
import Mathlib.Algebra.Order.Group.Nat
import Mathlib.Data.Nat.Find
import RasterScript.Proofs.Rendering

/-!
# Which pipelines can be rendered

The plain engine announces the size of every step before it makes the image, and
two functions that know nothing of each other have to agree: `Operation.bounds`
and `Operation.transform`. They do (`transform_cases`), so a pipeline never ends
in a size that was not announced.

What is left to go wrong is room. A step `Fits` if its result is not too large
and, where it fills a size, the image that it cuts from is not too large either.
A pipeline is rendered exactly if every step fits the size it starts from, and
otherwise the error names the first step that does not
(`render_succeeds_iff_fits`). None of the other faults of a step can come up: a
flip has the destination it needs, and an image that may be made at all has few
enough bytes to be blurred.
-/

namespace RasterScript

/-! ## Sizes along a pipeline -/

/-- The size that the plain engine announces for a pipeline. -/
def sizeAfter (src : Bounds) (ops : List Operation) : Bounds :=
  (Render.outputBounds Engine.plain src ops ()).1

@[simp] theorem sizeAfter_nil (src : Bounds) : sizeAfter src [] = src := rfl

@[simp] theorem sizeAfter_cons (src : Bounds) (op : Operation) (ops : List Operation) :
    sizeAfter src (op :: ops) = sizeAfter (op.bounds src) ops := rfl

namespace Operation

/-- What a step needs of the size that it starts from. -/
structure Fits (op : Operation) (src : Bounds) : Prop where
  /-- Its result may be made. -/
  result : (op.bounds src).isAllocatable = true
  /-- So may the image from which a fill is cut, unless there is nothing to cut. -/
  cover : ∀ width height, op = .resizeToFill width height → (op.bounds src).isEmpty = false →
    (Scale.cover src (op.bounds src)).isAllocatable = true

/-- What is in the way of a step that does not fit. -/
def obstacle (op : Operation) (src : Bounds) : RenderFault :=
  if (op.bounds src).isAllocatable then .coverTooLarge (Scale.cover src (op.bounds src))
  else .tooLarge (op.bounds src)

end Operation

/-! ## The two faults of a blur that cannot come up -/

namespace Blur

/-- The Gaussian is highest at its centre. -/
theorem height_zero (sigma : Nat) : height sigma 0 = one := by
  unfold height
  simp only [Nat.zero_mul, Nat.zero_div]
  decide

/-- The weights of a blur add up to something, because there is always one at the centre. -/
theorem total_heights_pos (sigma : Float32) : 0 < total (heights sigma) := by
  have hmem : one ∈ heights sigma := by
    unfold heights
    refine List.mem_append_right _ (List.mem_map.mpr ⟨0, ?_, height_zero _⟩)
    exact List.mem_range.mpr (Nat.succ_pos _)
  exact Nat.lt_of_lt_of_le (by decide) (List.le_sum_of_mem hmem)

theorem bounds_blur (image : Image) (sigma : Float32) :
    (blur image sigma).bounds = image.bounds := by
  unfold blur
  split <;> rfl

end Blur

theorem Neighbourhood.bounds_filter (image : Image) (statistic : Statistic) (size : Int32) :
    (filter image statistic size).bounds = image.bounds := by
  unfold filter
  split <;> rfl

/-- An image can be blurred if 64 bits count its bytes. -/
theorem checkBlur_of_byteLength {image : Image} {length : Nat}
    (h : image.bounds.byteLength? = some length) (sigma : Float32) :
    Operation.checkBlur image sigma = .ok () := by
  obtain ⟨_, hlength⟩ := Option.ite_none_right_eq_some.mp h
  have hsize : image.pixels.size * 4 = length := by
    rw [image.size_pixels]
    exact Option.some.inj hlength
  have hweights := Blur.total_heights_pos sigma
  unfold Operation.checkBlur
  rw [h]
  dsimp only
  rw [if_neg (not_not_intro hsize), if_neg (by omega)]

/-- An image that may be made at all has few enough bytes. -/
theorem Bounds.byteLength?_of_isAllocatable {b : Bounds} (h : b.isAllocatable = true) :
    b.byteLength? = some (b.area * 4) := by
  have harea : b.area ≤ maxArea := by simpa [isAllocatable] using h
  unfold maxArea at harea
  exact if_pos (by omega)

/-- So it can be blurred. -/
theorem checkBlur_eq {image : Image} (h : image.bounds.isAllocatable = true) (sigma : Float32) :
    Operation.checkBlur image sigma = .ok () :=
  checkBlur_of_byteLength (Bounds.byteLength?_of_isAllocatable h) sigma

/-! ## The size of what is made -/

theorem Turn.quarters?_lt {degrees : Float32} {turns : Nat}
    (h : Turn.quarters? degrees = some turns) : turns < 4 := by
  unfold Turn.quarters? at h
  obtain ⟨k, _, rfl⟩ := Option.map_eq_some_iff.mp h
  exact Nat.mod_lt _ (by decide)

theorem Scale.bounds_resample (image : Image) (dst : Bounds) :
    (Scale.resample image dst).bounds = dst := by
  unfold Scale.resample
  split
  · assumption
  · rfl

theorem Bounds.clampSide_natCast {n : Nat} (h : n ≤ maxSide) : clampSide (n : Nat) = n :=
  Nat.min_eq_left h

/-- Neither side of a cover is shorter than the side it covers. -/
theorem Scale.le_cover (src dst : Bounds) :
    dst.width ≤ (Scale.cover src dst).width ∧ dst.height ≤ (Scale.cover src dst).height := by
  have key : ∀ (n : Nat) (b : Nat), b ≤ maxSide → b ≤ Bounds.clampSide (max n b : Nat) :=
    fun n b hb => Nat.le_min.mpr ⟨le_max_right n b, hb⟩
  unfold Scale.cover
  dsimp only
  split
  · exact ⟨(Bounds.clampSide_natCast dst.width_le).ge, key _ _ dst.height_le⟩
  · exact ⟨key _ _ dst.width_le, (Bounds.clampSide_natCast dst.height_le).ge⟩

/-- The centre of a larger image has the size that is asked for. -/
theorem Region.bounds_centred {src dst : Bounds} (h : dst.isEmpty = false)
    (hw : dst.width ≤ src.width) (hh : dst.height ≤ src.height) :
    Region.bounds (Region.centred? src dst.width dst.height) = dst := by
  obtain ⟨width, height, hwle, hhle⟩ := dst
  dsimp only at hw hh ⊢
  obtain ⟨hw0, hh0⟩ : width ≠ 0 ∧ height ≠ 0 := by simpa [Bounds.isEmpty] using h
  have hsrc : src.isEmpty = false := by
    simp only [Bounds.isEmpty, decide_eq_false_iff_not, not_or]
    omega
  unfold Region.centred?
  rw [if_neg (by simp only [hsrc, Bool.false_eq_true, or_false]; omega)]
  simp only [Region.bounds, Rect.bounds, Bounds.ofInts, Bounds.clampSide, Bounds.mk.injEq]
  constructor <;> omega

theorem Region.bounds_cut? (image : Image) (region : Option Rect) :
    (Region.cut? image region).bounds = Region.bounds region := by
  cases region <;> rfl

/--
**What a step makes has the size that was announced.** If it makes nothing, then
because it does not fit.
-/
theorem transform_cases (op : Operation) {image : Image}
    (hne : (op.bounds image.bounds).isEmpty = false) :
    (∃ out, op.transform image (op.bounds image.bounds) = .ok out
        ∧ out.bounds = op.bounds image.bounds)
      ∨ ((∃ error, op.transform image (op.bounds image.bounds) = .error error)
        ∧ ¬ op.Fits image.bounds) := by
  have hrearrange : ∀ {result : Image} {dst : Bounds}, result.bounds = dst →
      ∃ out, Operation.rearrange result dst = .ok out ∧ out.bounds = dst :=
    fun hb => ⟨_, if_pos hb, hb⟩
  have hblur : ∀ {sigma : Float32} {error : Error}, op.bounds image.bounds = image.bounds →
      Operation.checkBlur image sigma = .error error → ¬ op.Fits image.bounds := by
    intro sigma error hb hc h
    rw [checkBlur_eq (hb ▸ h.result) sigma] at hc
    exact absurd hc (by simp)
  cases op with
  | blur sigma =>
      rw [Operation.transform]
      cases hc : Operation.checkBlur image sigma with
      | ok _ => exact .inl ⟨_, rfl, Blur.bounds_blur image sigma⟩
      | error error => exact .inr ⟨⟨error, rfl⟩, hblur rfl hc⟩
  | unsharpMask sigma amount level =>
      rw [Operation.transform]
      cases hc : Operation.checkBlur image sigma with
      | ok _ => exact .inl ⟨_, rfl, rfl⟩
      | error error => exact .inr ⟨⟨error, rfl⟩, hblur rfl hc⟩
  | crop x1 y1 x2 y2 => exact .inl ⟨_, rfl, Region.bounds_cut? _ _⟩
  | cropToSize width height => exact .inl ⟨_, rfl, Region.bounds_cut? _ _⟩
  | flipHorizontal => exact .inl (hrearrange rfl)
  | flipVertical => exact .inl (hrearrange rfl)
  | rotate90 => exact .inl (hrearrange rfl)
  | rotate180 => exact .inl (hrearrange rfl)
  | rotate270 => exact .inl (hrearrange rfl)
  | rotate degrees =>
      left
      dsimp only [Operation.transform, Operation.bounds]
      cases hq : Turn.quarters? degrees with
      | none => exact ⟨_, rfl, rfl⟩
      | some turns =>
          have hlt := Turn.quarters?_lt hq
          match turns, hlt with
          | 0, _ => exact ⟨_, rfl, rfl⟩
          | 1, _ => exact hrearrange rfl
          | 2, _ => exact hrearrange rfl
          | 3, _ => exact hrearrange rfl
  | neighbourhood statistic size => exact .inl ⟨_, rfl, Neighbourhood.bounds_filter _ _ _⟩
  | pixelate size =>
      refine .inl ⟨_, rfl, ?_⟩
      unfold Block.pixelate
      split <;> rfl
  | resize width height => exact .inl ⟨_, rfl, Scale.bounds_resample _ _⟩
  | resizeToFit width height => exact .inl ⟨_, rfl, Scale.bounds_resample _ _⟩
  | resizeToFill width height =>
      by_cases hc : (Scale.cover image.bounds
          (Scale.fillBounds image.bounds width height)).isAllocatable = true
      · refine .inl ⟨_, if_pos hc, ?_⟩
        rw [Region.bounds_cut?]
        exact Region.bounds_centred hne (Scale.le_cover _ _).1 (Scale.le_cover _ _).2
      · exact .inr ⟨⟨_, if_neg hc⟩, fun h => hc (h.cover width height rfl hne)⟩
  | _ => exact .inl ⟨_, rfl, rfl⟩

theorem transform_fits {op : Operation} {image : Image} (h : op.Fits image.bounds)
    (hne : (op.bounds image.bounds).isEmpty = false) :
    ∃ out, op.transform image (op.bounds image.bounds) = .ok out
      ∧ out.bounds = op.bounds image.bounds := by
  obtain hout | ⟨_, hunfit⟩ := transform_cases op hne
  · exact hout
  · exact absurd h hunfit

/-- No operation resizes the destination it is given. -/
theorem bounds_of_apply {op : Operation} {image out : Image} {dst : Bounds}
    (h : op.apply image dst = .ok out) : out.bounds = dst := by
  unfold Operation.apply at h
  dsimp only at h
  by_cases hdst : dst = op.bounds image.bounds
  · subst hdst
    rw [if_neg (by simp)] at h
    cases hne : (op.bounds image.bounds).isEmpty with
    | true =>
        rw [hne, if_pos rfl] at h
        rw [← Except.ok.inj h]
        rfl
    | false =>
        rw [hne, if_neg (by simp)] at h
        obtain ⟨made, hmade, hb⟩ | ⟨⟨error, herror⟩, _⟩ := transform_cases op hne
        · rw [hmade] at h
          rw [← Except.ok.inj h, hb]
        · rw [herror] at h
          exact absurd h (by simp)
  · rw [if_pos hdst] at h
    exact absurd h (by simp)

theorem apply_fits {op : Operation} {image : Image} (h : op.Fits image.bounds) :
    ∃ out, op.apply image (op.bounds image.bounds) = .ok out
      ∧ out.bounds = op.bounds image.bounds := by
  unfold Operation.apply
  dsimp only
  rw [if_neg (by simp)]
  cases hne : (op.bounds image.bounds).isEmpty with
  | true => exact ⟨_, rfl, rfl⟩
  | false => exact transform_fits h hne

/-- Images of one size are the same if they have no pixels. -/
theorem Image.eq_of_isEmpty {a b : Image} (hb : a.bounds = b.bounds)
    (he : a.bounds.isEmpty = true) : a = b := by
  refine Image.ext_pixel hb fun x y hx hy => ?_
  have hnone : a.bounds.width = 0 ∨ a.bounds.height = 0 := by simpa [Bounds.isEmpty] using he
  have hx' : x < a.bounds.width := hx
  have hy' : y < a.bounds.height := hy
  omega

/-- What an operation makes of pixels it makes without pixels too: there the size is enough. -/
theorem apply_of_transform {op : Operation} {image out : Image}
    (hb : out.bounds = op.bounds image.bounds)
    (h : op.transform image (op.bounds image.bounds) = .ok out) :
    op.apply image (op.bounds image.bounds) = .ok out := by
  unfold Operation.apply
  dsimp only
  rw [if_neg (by simp)]
  cases hne : (op.bounds image.bounds).isEmpty with
  | true => exact congrArg Except.ok (Image.eq_of_isEmpty hb.symm hne)
  | false => exact h

/-- A step whose result may be made only fails as a fill that has too much to cut from. -/
theorem apply_unfit {op : Operation} {image : Image}
    (ha : (op.bounds image.bounds).isAllocatable = true) (h : ¬ op.Fits image.bounds) :
    op.apply image (op.bounds image.bounds) =
      .error (.render (.coverTooLarge (Scale.cover image.bounds (op.bounds image.bounds)))) := by
  -- the result may be made, so it is the other half of `Fits` that is missing
  have hcover : ∃ width height, op = .resizeToFill width height
      ∧ (op.bounds image.bounds).isEmpty = false
      ∧ ¬ (Scale.cover image.bounds (op.bounds image.bounds)).isAllocatable = true := by
    by_contra hc
    refine h ⟨ha, fun width height hop hne => ?_⟩
    by_contra hbig
    exact hc ⟨width, height, hop, hne, hbig⟩
  obtain ⟨width, height, rfl, hne, hbig⟩ := hcover
  unfold Operation.apply
  dsimp only
  rw [if_neg (by simp), hne]
  exact if_neg hbig

/-! ## Runs of steps -/

theorem steps_plain_cons (index : Nat) (image : Image) (op : Operation) (ops : List Operation) :
    (Render.steps Engine.plain index image (op :: ops) ()).1 =
      if (op.bounds image.bounds).isAllocatable then
        match op.apply image (op.bounds image.bounds) with
        | .ok next => (Render.steps Engine.plain (index + 1) next ops ()).1
        | .error error => .error (Render.locate index op error)
      else .error (.render (.atStep index op (.tooLarge (op.bounds image.bounds)))) :=
  steps_cons_fst Engine.plain index image op ops ()

/-- The first `n` steps of a pipeline fit the sizes that they start from. -/
def FitUpTo (src : Bounds) (ops : List Operation) (n : Nat) : Prop :=
  ∀ i (h : i < ops.length), i < n → ops[i].Fits (sizeAfter src (ops.take i))

/-- The first step fits if all do, and the others fit the size that it leaves. -/
theorem fitUpTo_succ_cons {src : Bounds} {op : Operation} {ops : List Operation} {n : Nat}
    (h : FitUpTo src (op :: ops) (n + 1)) : op.Fits src ∧ FitUpTo (op.bounds src) ops n :=
  ⟨h 0 (Nat.succ_pos _) (Nat.succ_pos _),
    fun i hi hn => h (i + 1) (Nat.succ_lt_succ hi) (Nat.succ_lt_succ hn)⟩

/-- Steps that all fit make an image of the announced size. -/
theorem steps_fit {ops : List Operation} :
    ∀ {index : Nat} {image : Image}, FitUpTo image.bounds ops ops.length →
      ∃ out, (Render.steps Engine.plain index image ops ()).1 = .ok out
        ∧ out.bounds = sizeAfter image.bounds ops := by
  induction ops with
  | nil => intro index image _; exact ⟨image, rfl, rfl⟩
  | cons op ops ih =>
      intro index image h
      obtain ⟨hop, hrest⟩ := fitUpTo_succ_cons h
      obtain ⟨next, hnext, hbounds⟩ := apply_fits hop
      rw [← hbounds] at hrest
      rw [steps_plain_cons, if_pos hop.result, hnext, sizeAfter_cons, ← hbounds]
      exact ih hrest

/-- The first step that does not fit ends the run, with what is in its way. -/
theorem steps_unfit {ops : List Operation} :
    ∀ {index : Nat} {image : Image} {i : Nat} (hi : i < ops.length),
      FitUpTo image.bounds ops i → ¬ ops[i].Fits (sizeAfter image.bounds (ops.take i)) →
      (Render.steps Engine.plain index image ops ()).1 =
        .error (.render (.atStep (index + i) ops[i]
          (ops[i].obstacle (sizeAfter image.bounds (ops.take i))))) := by
  induction ops with
  | nil => intro index image i hi; exact absurd hi (Nat.not_lt_zero _)
  | cons op ops ih =>
      intro index image i hi hfit hunfit
      rw [steps_plain_cons]
      cases i with
      | zero =>
          dsimp only [List.getElem_cons_zero, List.take_zero, sizeAfter_nil, Operation.obstacle]
            at hunfit ⊢
          split
          · rename_i ha
            rw [apply_unfit ha hunfit]
            rfl
          · rfl
      | succ i =>
          obtain ⟨hop, hrest⟩ := fitUpTo_succ_cons hfit
          obtain ⟨next, hnext, hbounds⟩ := apply_fits hop
          have hlt : i < ops.length := Nat.lt_of_succ_lt_succ hi
          rw [if_pos hop.result, hnext]
          rw [← hbounds] at hrest
          have hunfit' : ¬ ops[i].Fits (sizeAfter next.bounds (ops.take i)) := by
            rw [hbounds]; exact hunfit
          have hrun := @ih (index + 1) next i hlt hrest hunfit'
          rw [hbounds, Nat.add_right_comm] at hrun
          exact hrun

/-! ## Pipelines -/

theorem image_fit {source : Image} {ops : List Operation}
    (h : FitUpTo source.bounds ops ops.length) :
    ∃ out, (Render.image Engine.plain source ops ()).1 = .ok out
      ∧ out.bounds = sizeAfter source.bounds ops := by
  obtain ⟨out, hout, hbounds⟩ := @steps_fit ops 0 source h
  refine ⟨out, ?_, hbounds⟩
  rw [image_fst]
  dsimp only
  rw [hout]
  exact if_pos hbounds

theorem image_unfit {source : Image} {ops : List Operation} {i : Nat} (hi : i < ops.length)
    (hfit : FitUpTo source.bounds ops i)
    (h : ¬ ops[i].Fits (sizeAfter source.bounds (ops.take i))) :
    (Render.image Engine.plain source ops ()).1 =
      .error (.render (.atStep i ops[i]
        (ops[i].obstacle (sizeAfter source.bounds (ops.take i))))) := by
  have hrun := @steps_unfit ops 0 source i hi hfit h
  rw [Nat.zero_add] at hrun
  rw [image_fst]
  dsimp only
  rw [hrun]

/-- Where not all steps fit, there is a first that does not. -/
theorem exists_first_unfit {src : Bounds} {ops : List Operation}
    (h : ¬ FitUpTo src ops ops.length) :
    ∃ i, ∃ hi : i < ops.length, FitUpTo src ops i ∧ ¬ ops[i].Fits (sizeAfter src (ops.take i)) := by
  classical
  have hex : ∃ i, ∃ hi : i < ops.length, ¬ ops[i].Fits (sizeAfter src (ops.take i)) := by
    by_contra hc
    refine h fun i hi _ => ?_
    by_contra hu
    exact hc ⟨i, hi, hu⟩
  -- the least such step, so that those before it fit
  obtain ⟨hi, hu⟩ := Nat.find_spec hex
  refine ⟨Nat.find hex, hi, fun j hj hlt => ?_, hu⟩
  by_contra hc
  exact Nat.find_min hex hlt ⟨hj, hc⟩

end RasterScript
