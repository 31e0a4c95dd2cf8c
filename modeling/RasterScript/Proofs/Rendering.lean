import RasterScript.Proofs.Verdict

/-!
# What a session shows

`Session.rendering` is what a session would show if it were rendered now. With an
engine whose results do not depend on its state (`Engine.IsPure`) that is a
function of the source and the pipeline, which is why two renders of the same
session can be compared at all.

A watched file is written by `renderWatch` and nowhere else, and `renderWatch`
does one of two things (`renderWatch_cases`): it writes the picture that the
session shows, or it touches no file. `step` is a line followed by at most one
such render, so it changes a session as its verdict says, up to the engine's
state and the count of renders (`step_alike`).
-/

namespace RasterScript

variable {σ : Type}

/-! ## What a render comes to -/

/-- The outcome of a run of operations, from that of its first. -/
theorem steps_cons_fst (engine : Engine σ) (index : Nat) (image : Image) (op : Operation)
    (ops : List Operation) (st : σ) :
    (Render.steps engine index image (op :: ops) st).1 =
      let sized := engine.bounds op image.bounds st
      let applied := engine.apply op image sized.1 sized.2
      if sized.1.isAllocatable then
        match applied.1 with
        | .ok next => (Render.steps engine (index + 1) next ops applied.2).1
        | .error error => .error (Render.locate index op error)
      else .error (.render (.atStep index op (.tooLarge sized.1))) := by
  simp only [Render.steps]
  split
  · cases engine.apply op image (engine.bounds op image.bounds st).1
      (engine.bounds op image.bounds st).2 with
    | mk result next => cases result <;> rfl
  · rfl

/-- The outcome of a pipeline, from that of its operations. -/
theorem image_fst (engine : Engine σ) (source : Image) (ops : List Operation) (st : σ) :
    (Render.image engine source ops st).1 =
      let expected := Render.outputBounds engine source.bounds ops st
      match (Render.steps engine 0 source ops expected.2).1 with
      | .ok result =>
        if result.bounds = expected.1 then .ok result
        else .error (.render (.produced result.bounds expected.1))
      | .error error => .error error := by
  simp only [Render.image]
  cases Render.steps engine 0 source ops (Render.outputBounds engine source.bounds ops st).2 with
  | mk result next =>
      cases result with
      | ok image => dsimp only; split <;> rfl
      | error error => rfl

/-- The outcome of a render, from that of the pipeline. -/
theorem render_fst (binding : Binding) (engine : Engine σ) (ops : List Operation) (st : σ) :
    (binding.render engine ops st).1 =
      match (Render.image engine binding.image ops st).1 with
      | .ok image => encode image binding.container
      | .error error => .error error := by
  simp only [Binding.render]
  cases Render.image engine binding.image ops st with
  | mk result next => cases result <;> rfl

/-! ## Engines without memory -/

/-- An engine whose answers do not depend on its state. -/
structure Engine.IsPure (engine : Engine σ) : Prop where
  /-- It always announces the same size. -/
  bounds : ∀ op src st st', (engine.bounds op src st).1 = (engine.bounds op src st').1
  /-- It always makes the same image. -/
  apply : ∀ op image dst st st',
    (engine.apply op image dst st).1 = (engine.apply op image dst st').1

theorem Engine.isPure_ofFunctions (bounds : Operation → Bounds → Bounds)
    (apply : Operation → Image → Bounds → Except Error Image) :
    (Engine.ofFunctions bounds apply).IsPure :=
  ⟨fun _ _ _ _ => rfl, fun _ _ _ _ _ => rfl⟩

section Pure

variable {engine : Engine σ} (hp : engine.IsPure)
include hp

theorem outputBounds_pure (ops : List Operation) :
    ∀ (src : Bounds) (st st' : σ),
      (Render.outputBounds engine src ops st).1 = (Render.outputBounds engine src ops st').1 := by
  induction ops with
  | nil => intro src st st'; rfl
  | cons op ops ih =>
      intro src st st'
      simp only [Render.outputBounds]
      rw [hp.bounds op src st st']
      exact ih _ _ _

theorem steps_pure (ops : List Operation) :
    ∀ (index : Nat) (image : Image) (st st' : σ),
      (Render.steps engine index image ops st).1 = (Render.steps engine index image ops st').1 := by
  induction ops with
  | nil => intro index image st st'; rfl
  | cons op ops ih =>
      intro index image st st'
      rw [steps_cons_fst, steps_cons_fst]
      dsimp only
      -- both runs go on with the same image, each in a state of its own
      rw [hp.bounds op image.bounds st st',
        hp.apply op image _ _ (engine.bounds op image.bounds st').2]
      split
      · split
        · exact ih _ _ _ _
        · rfl
      · rfl

theorem image_pure (source : Image) (ops : List Operation) (st st' : σ) :
    (Render.image engine source ops st).1 = (Render.image engine source ops st').1 := by
  rw [image_fst, image_fst]
  dsimp only
  rw [outputBounds_pure hp ops source.bounds st st', steps_pure hp ops 0 source _
    (Render.outputBounds engine source.bounds ops st').2]

/-- A render with such an engine depends on the source and the operations alone. -/
theorem render_pure (binding : Binding) (ops : List Operation) (st st' : σ) :
    (binding.render engine ops st).1 = (binding.render engine ops st').1 := by
  rw [render_fst, render_fst, image_pure hp binding.image ops st st']

end Pure

namespace Session

/-- What a session shows, if a source is bound: the outcome of a render. -/
def rendering (s : Session σ) : Option (Except Error (Option Encoded)) :=
  s.binding.map fun binding => (binding.render s.engine s.pipeline.ops s.engineState).1

/-- There is nothing to write: no source, no encoder, or an error that costs one render only. -/
def Withholds (s : Session σ) : Prop :=
  s.binding = none ∨ s.rendering = some (.ok none)
    ∨ ∃ error, s.rendering = some (.error error) ∧ error.isRecoverable = true

/-- A session that shows a picture does not withhold one. -/
theorem not_withholds {s : Session σ} {encoded : Encoded}
    (h : s.rendering = some (.ok (some encoded))) : ¬ s.Withholds := by
  rintro (hb | hn | ⟨error, he, _⟩)
  · rw [rendering, hb] at h; exact absurd h (by simp)
  · rw [h] at hn; exact absurd hn (by simp)
  · rw [h] at he; exact absurd he (by simp)

theorem rendering_eq_of_pure {s t : Session σ} (hp : s.engine.IsPure)
    (he : t.engine = s.engine) (hl : t.pipeline = s.pipeline) (hb : t.binding = s.binding) :
    t.rendering = s.rendering := by
  unfold rendering
  rw [he, hl, hb]
  cases s.binding with
  | none => rfl
  | some binding => exact congrArg some (render_pure hp _ _ _ _)

/-! ## What a watched render does -/

/-- **A watched render writes what the session shows, or touches no file.** -/
theorem renderWatch_cases (s : Session σ) (w : World) (path : String) :
    (∃ encoded files, s.rendering = some (.ok (some encoded))
        ∧ w.files.write path (.picture encoded) = .ok files
        ∧ (s.renderWatch w path).result = .ok ()
        ∧ (s.renderWatch w path).world.files = files
        ∧ (s.renderWatch w path).session.summary.renders = s.summary.renders + 1)
      ∨ ((s.renderWatch w path).world.files = w.files
        ∧ (s.renderWatch w path).session.summary.renders = s.summary.renders
        ∧ ((s.renderWatch w path).result = .ok () → s.Withholds)) := by
  unfold renderWatch Withholds rendering
  cases s.binding with
  | none => exact Or.inr ⟨rfl, rfl, fun _ => Or.inl rfl⟩
  | some binding =>
      dsimp only [render, Option.map_some]
      rcases binding.render s.engine s.pipeline.ops s.engineState with ⟨result, st⟩
      cases result with
      | ok shown =>
          cases shown with
          | none => exact Or.inr ⟨rfl, rfl, fun _ => Or.inr (Or.inl rfl)⟩
          | some encoded =>
              dsimp only
              cases hw : w.files.write path (.picture encoded) with
              | ok files => exact Or.inl ⟨encoded, files, rfl, hw, rfl, rfl, rfl⟩
              | error error => exact Or.inr ⟨rfl, rfl, fun h => absurd h (by simp)⟩
      | error error =>
          right
          dsimp only
          cases hr : error.isRecoverable with
          | false => exact ⟨rfl, rfl, fun h => absurd h (by simp)⟩
          | true =>
              -- reported, and whether or not that succeeds no file is touched
              dsimp only [report, tell, if_true]
              exact ⟨rfl, rfl, fun _ => Or.inr (Or.inr ⟨error, rfl, hr⟩)⟩

/-! ## A step is a line and at most one render -/

/-- A line that fails, is not processed, or is not watched is all there is to its step. -/
theorem step_unrendered {s : Session σ} {w : World} {line : Nat} {text : String}
    (h : ∀ outcome, (s.processLine w line text).result = .ok outcome →
      s.watch = none ∨ outcome.isProcessed = false) :
    s.step w line text = s.processLine w line text := by
  have hwatch := (processLine_untouched s w line text).watch
  unfold step
  generalize s.processLine w line text = done at h hwatch ⊢
  obtain ⟨result, s', w'⟩ := done
  cases result with
  | error error => rfl
  | ok outcome =>
      dsimp only at h hwatch ⊢
      -- the step looks at the session after the line, but the line keeps the watched file
      rw [hwatch]
      rcases h outcome rfl with hn | hu
      · rw [hn]
      · rw [hu]
        cases s.watch with
        | none => rfl
        | some path => rfl

/-- A processed line of a watching session is followed by a render. -/
theorem step_rendered {s : Session σ} {w : World} {line : Nat} {text path : String}
    {outcome : Outcome} (hw : s.watch = some path)
    (h : (s.processLine w line text).result = .ok outcome) (hp : outcome.isProcessed = true) :
    s.step w line text =
      let done := s.processLine w line text
      let shown := done.session.renderWatch done.world path
      ⟨shown.result.map fun _ => outcome, shown.session, shown.world⟩ := by
  have hwatch := (processLine_untouched s w line text).watch
  unfold step
  generalize s.processLine w line text = done at h hwatch ⊢
  obtain ⟨result, s', w'⟩ := done
  dsimp only at h hwatch ⊢
  subst h
  dsimp only
  rw [hwatch, hw]
  dsimp only
  rw [if_pos hp]
  rcases s'.renderWatch w' path with ⟨result, s'', w''⟩
  cases result <;> rfl

/-- **There are two kinds of steps:** those that are a line only, and those that render after it. -/
theorem step_cases (s : Session σ) (w : World) (line : Nat) (text : String) :
    (s.step w line text = s.processLine w line text
        ∧ ∀ outcome, (s.processLine w line text).result = .ok outcome →
          s.watch = none ∨ outcome.isProcessed = false)
      ∨ ∃ path outcome, s.watch = some path
        ∧ (s.processLine w line text).result = .ok outcome ∧ outcome.isProcessed = true
        ∧ s.step w line text =
          let done := s.processLine w line text
          let shown := done.session.renderWatch done.world path
          ⟨shown.result.map fun _ => outcome, shown.session, shown.world⟩ := by
  by_cases h : ∀ outcome, (s.processLine w line text).result = .ok outcome →
      s.watch = none ∨ outcome.isProcessed = false
  · exact Or.inl ⟨step_unrendered h, h⟩
  · simp only [Classical.not_forall, not_or, Bool.not_eq_false] at h
    obtain ⟨outcome, ho, hw, hp⟩ := h
    obtain ⟨path, hpath⟩ := Option.ne_none_iff_exists'.mp hw
    exact Or.inr ⟨path, outcome, hpath, ho, hp, step_rendered hpath ho hp⟩

theorem step_of_batch {s : Session σ} (h : s.watch = none) (w : World) (line : Nat)
    (text : String) : s.step w line text = s.processLine w line text :=
  step_unrendered fun _ _ => Or.inl h

/-! ## Sessions that differ in rendering alone -/

/--
Two sessions that agree on everything but what watching leaves behind: which file
is watched, the engine's state, and how often it has been rendered.
-/
structure Alike (s t : Session σ) : Prop where
  registry : t.registry = s.registry
  engine : t.engine = s.engine
  pipeline : t.pipeline = s.pipeline
  binding : t.binding = s.binding
  phase : t.phase = s.phase
  lines : t.summary.lines = s.summary.lines
  accepted : t.summary.accepted = s.summary.accepted
  rejected : t.summary.rejected = s.summary.rejected
  unknown : t.summary.unknown = s.summary.unknown

theorem Alike.refl (s : Session σ) : s.Alike s :=
  ⟨rfl, rfl, rfl, rfl, rfl, rfl, rfl, rfl, rfl⟩

theorem Alike.symm {s t : Session σ} (h : s.Alike t) : t.Alike s :=
  ⟨h.registry.symm, h.engine.symm, h.pipeline.symm, h.binding.symm, h.phase.symm, h.lines.symm,
    h.accepted.symm, h.rejected.symm, h.unknown.symm⟩

theorem Alike.trans {s t u : Session σ} (h : s.Alike t) (k : t.Alike u) : s.Alike u :=
  ⟨k.registry.trans h.registry, k.engine.trans h.engine, k.pipeline.trans h.pipeline,
    k.binding.trans h.binding, k.phase.trans h.phase, k.lines.trans h.lines,
    k.accepted.trans h.accepted, k.rejected.trans h.rejected, k.unknown.trans h.unknown⟩

/-- A render only moves the engine's state and the count of renders. -/
theorem renderWatch_alike (s : Session σ) (w : World) (path : String) :
    s.Alike (s.renderWatch w path).session
      ∧ (s.renderWatch w path).session.watch = s.watch := by
  have key : ∀ st renders,
      s.Alike { s with engineState := st, summary := { s.summary with renders } } :=
    fun _ _ => ⟨rfl, rfl, rfl, rfl, rfl, rfl, rfl, rfl, rfl⟩
  unfold renderWatch
  cases s.binding with
  | none => exact ⟨Alike.refl s, rfl⟩
  | some binding =>
      dsimp only [render]
      rcases binding.render s.engine s.pipeline.ops s.engineState with ⟨result, st⟩
      cases result with
      | ok shown =>
          cases shown with
          | none => exact ⟨key st _, rfl⟩
          | some encoded =>
              dsimp only
              cases w.files.write path (.picture encoded) <;> exact ⟨key st _, rfl⟩
      | error error =>
          dsimp only [report, tell]
          cases error.isRecoverable with
          | false => exact ⟨key st _, rfl⟩
          | true =>
              rw [if_pos rfl]
              exact ⟨key st _, rfl⟩

/-- With an engine without memory, a render does not change what a session shows. -/
theorem renderWatch_rendering {s : Session σ} (hp : s.engine.IsPure) (w : World)
    (path : String) : (s.renderWatch w path).session.rendering = s.rendering :=
  have h := (renderWatch_alike s w path).1
  rendering_eq_of_pure hp h.engine h.pipeline h.binding

/-- **A step changes a session as its line does, up to what rendering leaves behind.** -/
theorem step_alike (s : Session σ) (w : World) (line : Nat) (text : String) :
    (s.processLine w line text).session.Alike (s.step w line text).session
      ∧ (s.step w line text).session.watch = s.watch := by
  have hwatch := (processLine_untouched s w line text).watch
  rcases step_cases s w line text with ⟨h, _⟩ | ⟨path, outcome, _, _, _, h⟩
  · rw [h]
    exact ⟨Alike.refl _, hwatch⟩
  · rw [h]
    have hr := renderWatch_alike (s.processLine w line text).session
      (s.processLine w line text).world path
    exact ⟨hr.1, hr.2.trans hwatch⟩

theorem step_registry (s : Session σ) (w : World) (line : Nat) (text : String) :
    (s.step w line text).session.registry = s.registry :=
  (step_alike s w line text).1.registry.trans (processLine_untouched s w line text).registry

theorem step_engine (s : Session σ) (w : World) (line : Nat) (text : String) :
    (s.step w line text).session.engine = s.engine :=
  (step_alike s w line text).1.engine.trans (processLine_untouched s w line text).engine

/-- A step that succeeds has the outcome of its line. -/
theorem step_ok {s : Session σ} {w : World} {line : Nat} {text : String} {outcome : Outcome}
    (h : (s.step w line text).result = .ok outcome) :
    (s.processLine w line text).result = .ok outcome := by
  rcases step_cases s w line text with ⟨hs, _⟩ | ⟨path, own, _, ho, _, hs⟩
  · rwa [hs] at h
  · rw [hs] at h
    dsimp only at h
    cases hr : ((s.processLine w line text).session.renderWatch
        (s.processLine w line text).world path).result with
    | error error => rw [hr] at h; exact absurd h (by simp [Except.map])
    | ok _ => rw [hr] at h; rwa [← h]

/-- What every step keeps, whether it succeeds or not, steps keep. -/
theorem steps_keep {P : Session σ → World → Prop}
    (hstep : ∀ s w line text, P s w → P (s.step w line text).session (s.step w line text).world)
    {lines : List (List UInt8)} :
    ∀ {s : Session σ} {w : World} {line : Nat}, P s w →
      P (s.steps w line lines).session (s.steps w line lines).world := by
  induction lines with
  | nil => intro s w line h; exact h
  | cons bytes rest ih =>
      intro s w line h
      have hnext := hstep s w line (Script.lineText bytes) h
      rw [steps]
      generalize s.step w line (Script.lineText bytes) = done at hnext ⊢
      obtain ⟨result, s', w'⟩ := done
      cases result with
      | error error => exact hnext
      | ok outcome => exact ih hnext

theorem steps_watch (s : Session σ) (w : World) (line : Nat) (lines : List (List UInt8)) :
    (s.steps w line lines).session.watch = s.watch :=
  steps_keep (P := fun t _ => t.watch = s.watch)
    (fun t u line text h => (step_alike t u line text).2.trans h) rfl

/-- Where steps all succeed, the first of them does, and the rest go on from there. -/
theorem steps_ok_cons {s : Session σ} {w : World} {line : Nat} {bytes : List UInt8}
    {rest : List (List UInt8)} (h : (s.steps w line (bytes :: rest)).result = .ok ()) :
    let done := s.step w line (Script.lineText bytes)
    (∃ outcome, done.result = .ok outcome)
      ∧ s.steps w line (bytes :: rest) = done.session.steps done.world (line + 1) rest := by
  rw [steps] at h ⊢
  generalize s.step w line (Script.lineText bytes) = done at h ⊢
  obtain ⟨result, s', w'⟩ := done
  cases result with
  | error error => exact absurd h (by simp)
  | ok outcome => exact ⟨⟨outcome, rfl⟩, rfl⟩

end Session

end RasterScript
