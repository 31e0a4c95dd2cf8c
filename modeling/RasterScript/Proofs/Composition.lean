import RasterScript.Proofs.Sizes

/-!
# One pipeline after another

A run of steps can be cut anywhere: `p ++ q` does what `p` does and then, from
the image that is left, what `q` does (`steps_append`). Nothing of the first part
is left behind but that image, the engine's state, and the number of steps, which
the second part only uses to say where it failed (`steps_later`).

A render is more than its steps. The size of the whole is announced before any
step is made and compared with the result at the end. For an engine without
memory that does not resize what it is given, the comparison never fails
(`image_eq_steps`), and so renders can be cut where steps can
(`render_append`).
-/

namespace RasterScript

variable {σ : Type}

/-- A fault at a step, with `n` more steps counted before it. -/
def Error.later (n : Nat) : Error → Error
  | .render (.atStep index op fault) => .render (.atStep (index + n) op fault)
  | error => error

/-- An engine that leaves a destination the size it was given. -/
def Engine.KeepsSize (engine : Engine σ) : Prop :=
  ∀ op image dst st out, (engine.apply op image dst st).1 = .ok out → out.bounds = dst

theorem Engine.plain_isPure : Engine.plain.IsPure := isPure_ofFunctions _ _

theorem Engine.plain_keepsSize : Engine.plain.KeepsSize :=
  fun _ _ _ _ _ h => bounds_of_apply h

/-! ## Any engine -/

theorem outputBounds_append (engine : Engine σ) (p q : List Operation) :
    ∀ (src : Bounds) (st : σ),
      Render.outputBounds engine src (p ++ q) st =
        let before := Render.outputBounds engine src p st
        Render.outputBounds engine before.1 q before.2 := by
  induction p with
  | nil => intro src st; rfl
  | cons op p ih => intro src st; exact ih _ _

/-- **A run of steps can be cut anywhere.** -/
theorem steps_append (engine : Engine σ) (p q : List Operation) :
    ∀ (index : Nat) (image : Image) (st : σ),
      Render.steps engine index image (p ++ q) st =
        match Render.steps engine index image p st with
        | (.ok mid, st) => Render.steps engine (index + p.length) mid q st
        | (.error error, st) => (.error error, st) := by
  induction p with
  | nil => intro index image st; rfl
  | cons op p ih =>
      intro index image st
      rw [List.cons_append, Render.steps, Render.steps]
      dsimp only
      split
      · rcases engine.apply op image (engine.bounds op image.bounds st).1
          (engine.bounds op image.bounds st).2 with ⟨result, next⟩
        cases result with
        | error error => rfl
        | ok made =>
            dsimp only
            rw [ih, List.length_cons, Nat.add_assoc, Nat.add_comm 1]
      · rfl

/-- An engine's own error has no number in it, whatever the step. -/
theorem later_locate (index n : Nat) (op : Operation) (error : Error) :
    (Render.locate index op error).later n = Render.locate (index + n) op error := by
  cases error <;> rfl

/-- **The number of the first step is only seen in an error.** -/
theorem steps_later (engine : Engine σ) (n : Nat) (ops : List Operation) :
    ∀ (index : Nat) (image : Image) (st : σ),
      Render.steps engine (index + n) image ops st =
        let done := Render.steps engine index image ops st
        (done.1.mapError (Error.later n), done.2) := by
  induction ops with
  | nil => intro index image st; rfl
  | cons op ops ih =>
      intro index image st
      rw [Render.steps, Render.steps]
      dsimp only
      split
      · rcases engine.apply op image (engine.bounds op image.bounds st).1
          (engine.bounds op image.bounds st).2 with ⟨result, next⟩
        cases result with
        | error error =>
            refine congrArg (fun e => (Except.error e, next)) ?_
            exact (later_locate index n op error).symm
        | ok made =>
            dsimp only
            rw [Nat.add_right_comm]
            exact ih (index + 1) made next
      · rfl

/-! ## Engines without memory -/

section Pure

variable {engine : Engine σ} (hp : engine.IsPure) (hk : engine.KeepsSize)
include hp hk

/-- Steps that succeed leave the size that was announced for them. -/
theorem bounds_of_steps (ops : List Operation) :
    ∀ (st' : σ) {index : Nat} {image out : Image} {st : σ},
      (Render.steps engine index image ops st).1 = .ok out →
      out.bounds = (Render.outputBounds engine image.bounds ops st').1 := by
  induction ops with
  | nil =>
      intro st' index image out st h
      rw [← Except.ok.inj h]
      rfl
  | cons op ops ih =>
      intro st' index image out st h
      rw [steps_cons_fst] at h
      dsimp only at h
      split at h
      · split at h
        · rename_i made hmade
          -- the next step starts from the announced size, in whatever state
          have hsize := hk _ _ _ _ _ hmade
          rw [hp.bounds op image.bounds st st'] at hsize
          rw [ih (engine.bounds op image.bounds st').2 h, hsize]
          rfl
        · exact absurd h (by simp)
      · exact absurd h (by simp)

/-- **A render comes to what its steps come to.** The size is never another than was announced. -/
theorem image_eq_steps (source : Image) (ops : List Operation) (st st' : σ) :
    (Render.image engine source ops st).1 = (Render.steps engine 0 source ops st').1 := by
  rw [image_fst]
  dsimp only
  rw [steps_pure hp ops 0 source _ st']
  cases hrun : (Render.steps engine 0 source ops st').1 with
  | ok out => exact if_pos (bounds_of_steps hp hk ops _ hrun)
  | error error => rfl

theorem image_append (source : Image) (p q : List Operation) (st : σ) :
    (Render.image engine source (p ++ q) st).1 =
      match (Render.image engine source p st).1 with
      | .ok mid => (Render.image engine mid q st).1.mapError (Error.later p.length)
      | .error error => .error error := by
  rw [image_eq_steps hp hk source (p ++ q) st st, image_eq_steps hp hk source p st st,
    steps_append]
  rcases Render.steps engine 0 source p st with ⟨result, next⟩
  cases result with
  | error error => rfl
  | ok mid =>
      dsimp only
      rw [steps_later, image_eq_steps hp hk mid q st next]

/--
**Rendering one pipeline and then another is rendering both at once.** The engine
has no memory and does not resize what it is given. Then the size announced for
`p ++ q` is the one announced for `q` from that of `p`. The render of `p ++ q`
succeeds exactly if that of `p` does and that of `q` does on its result, and it
makes the same image. If the first fails, so does the whole, with the same error;
if the second fails, so does the whole, with an error that only counts the steps
of the first as well.
-/
theorem render_append (source : Image) (p q : List Operation) (st : σ) :
    let size (src : Bounds) (ops : List Operation) := (Render.outputBounds engine src ops st).1
    let rendered (image : Image) (ops : List Operation) := (Render.image engine image ops st).1
    (∀ src, size src (p ++ q) = size (size src p) q)
      ∧ (∀ out, rendered source (p ++ q) = .ok out ↔
          ∃ mid, rendered source p = .ok mid ∧ rendered mid q = .ok out)
      ∧ (∀ error, rendered source p = .error error → rendered source (p ++ q) = .error error)
      ∧ ∀ mid error, rendered source p = .ok mid → rendered mid q = .error error →
          rendered source (p ++ q) = .error (error.later p.length) := by
  intro size rendered
  have happend : rendered source (p ++ q) = _ := image_append hp hk source p q st
  refine ⟨fun src => ?_, fun out => ?_, fun error hfirst => ?_, fun mid error hfirst hsecond => ?_⟩
  · have hsize := outputBounds_append engine p q src st
    dsimp only [size]
    rw [hsize]
    exact outputBounds_pure hp q _ _ _
  · rw [happend]
    dsimp only [rendered]
    cases (Render.image engine source p st).1 with
    | error error => simp
    | ok mid =>
        dsimp only
        cases hsecond : (Render.image engine mid q st).1 with
        | error error => simp [hsecond, Except.mapError]
        | ok made => simp [hsecond, Except.mapError]
  · rw [happend]
    dsimp only [rendered] at hfirst
    rw [hfirst]
  · rw [happend]
    dsimp only [rendered] at hfirst hsecond
    rw [hfirst]
    dsimp only
    rw [hsecond]
    rfl

end Pure

/-- A quarter turn, and then a flip and a size that is too large. -/
theorem render_append_located :
    let source := Image.generate ⟨2, 1, by decide, by decide⟩ fun x _ =>
      if x = 0 then Pixel.white else Pixel.clear
    let huge : Operation := .resize 70000 70000
    let fault : RenderFault := .tooLarge ⟨70000, 70000, by decide, by decide⟩
    Engine.plain.IsPure ∧ Engine.plain.KeepsSize
      ∧ (Render.image Engine.plain source [.rotate90] ()).1 = .ok (Turn.rotate90 source)
      ∧ (Render.image Engine.plain (Turn.rotate90 source) [.flipVertical, huge] ()).1 =
        .error (.render (.atStep 1 huge fault))
      ∧ (Render.image Engine.plain source [.rotate90, .flipVertical, huge] ()).1 =
        .error (.render (.atStep 2 huge fault)) := by
  intro source huge fault
  have hfirst : (Render.image Engine.plain source [.rotate90] ()).1 = .ok (Turn.rotate90 source) :=
    rfl
  have hsecond : (Render.image Engine.plain (Turn.rotate90 source) [.flipVertical, huge] ()).1 =
      .error (.render (.atStep 1 huge fault)) := by
    rw [image_eq_steps Engine.plain_isPure Engine.plain_keepsSize _ _ () (), steps_plain_cons]
    refine (if_pos (by decide)).trans ?_
    exact (steps_plain_cons 1 _ huge []).trans (if_neg (by decide))
  obtain ⟨_, _, _, hlater⟩ :=
    render_append Engine.plain_isPure Engine.plain_keepsSize source [.rotate90]
      [.flipVertical, huge] ()
  exact ⟨Engine.plain_isPure, Engine.plain_keepsSize, hfirst, hsecond, hlater _ _ hfirst hsecond⟩

/-! ## The plain engine -/

theorem image_plain_append {source mid out : Image} {p q : List Operation}
    (h : (Render.image Engine.plain source p ()).1 = .ok mid)
    (k : (Render.image Engine.plain mid q ()).1 = .ok out) :
    (Render.image Engine.plain source (p ++ q) ()).1 = .ok out := by
  rw [image_append Engine.plain_isPure Engine.plain_keepsSize, h]
  dsimp only
  rw [k]
  rfl

/-- A single step can be rendered exactly if it fits. -/
theorem image_single_iff {op : Operation} {image : Image} :
    (∃ out, (Render.image Engine.plain image [op] ()).1 = .ok out) ↔ op.Fits image.bounds := by
  constructor
  · rintro ⟨out, hout⟩
    by_contra hunfit
    have hfailed := image_unfit (show 0 < [op].length from Nat.one_pos)
      (fun i _ hlt => absurd hlt (Nat.not_lt_zero i)) hunfit
    exact absurd (hout.symm.trans hfailed) (by simp)
  · intro hfits
    have hfit : FitUpTo image.bounds [op] [op].length := by
      intro i hi _
      obtain rfl : i = 0 := Nat.lt_one_iff.mp hi
      exact hfits
    obtain ⟨out, hout, -⟩ := image_fit hfit
    exact ⟨out, hout⟩

/-- A single step that fits is rendered to what it makes. -/
theorem image_plain_single {op : Operation} {image out : Image}
    (ha : (op.bounds image.bounds).isAllocatable = true)
    (h : op.apply image (op.bounds image.bounds) = .ok out) :
    (Render.image Engine.plain image [op] ()).1 = .ok out := by
  rw [image_eq_steps Engine.plain_isPure Engine.plain_keepsSize image [op] () (),
    steps_plain_cons, if_pos ha, h]
  rfl

end RasterScript
