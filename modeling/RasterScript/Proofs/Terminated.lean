import RasterScript.Proofs.Failure

/-!
# Sessions that are over

A session that is over refuses lines, but lines are not all that can be asked of
it. An image can still be bound, as before a script, and then the session goes on;
and a batch of an empty script has no line to refuse, so it renders once more.
These are the only two ways in which a session that is over can be disturbed
(`spares_iff`), and so it rests through any requests exactly if none of them is
such a one (`rests_iff`).
-/

namespace RasterScript

variable {σ : Type}

/-- A session shows a picture, and an output with this fault takes it. -/
def Session.Emits (s : Session σ) (fault : Option OutputFault) : Prop :=
  (∃ encoded, s.rendering = some (.ok (some encoded))) ∧ ∀ error, fault ≠ some (.write error)

/-- What can be asked of a session, with the world that it is asked in. -/
inductive Request where
  /-- To carry out one line, with or without the render after it. -/
  | line (call : Call)
  /-- To bind an image outside any line. -/
  | preload (world : World) (path : String)
  /-- To carry out a script, with an output that nothing has been written to. -/
  | run (world : World) (script : Script) (fault : Option OutputFault)

/-- What a request leaves behind. -/
structure Aftermath (σ : Type) where
  session : Session σ
  world : World
  /-- What was written to the output. -/
  written : Option Encoded

namespace Request

/-- The files and diagnostics that there are for a request. -/
def world : Request → World
  | line call => call.world
  | preload world _ => world
  | run world _ _ => world

/-- A request is made of a session, whether it succeeds or not. -/
def on (q : Request) (s : Session σ) : Aftermath σ :=
  match q with
  | line call => ⟨(call.on s).session, (call.on s).world, none⟩
  | preload w path => ⟨(s.preload w path).session, (s.preload w path).world, none⟩
  | run w script fault =>
    let run := s.run w script ⟨[], fault⟩
    ⟨run.session, run.world, run.output.written⟩

/--
Whether a request disturbs a session that is over: it binds an image that can be
read, or it is a batch without a line, and the session shows a picture that the
output takes.
-/
def Disturbs (q : Request) (s : Session σ) : Prop :=
  match q with
  | line _ => False
  | preload w path => ∃ binding, Session.load w.files path = .ok binding
  | run _ script fault =>
    script.lines = [] ∧ script.failure = none ∧ s.watch = none ∧ s.Emits fault

end Request

namespace Session

/-- A session that is over, with what another one holds and has counted. -/
structure Rests (s t : Session σ) : Prop where
  phase : t.phase = .terminated
  pipeline : t.pipeline = s.pipeline
  binding : t.binding = s.binding
  summary : t.summary = s.summary

theorem Rests.refl {s : Session σ} (h : s.phase = .terminated) : s.Rests s := ⟨h, rfl, rfl, rfl⟩

/-- A request leaves a session as another one rests, and nothing is written to a file or output. -/
structure Spares (s t : Session σ) (q : Request) : Prop where
  rests : s.Rests (q.on t).session
  files : (q.on t).world.files = q.world.files
  written : (q.on t).written = none

/-- It makes no difference with which of two resting sessions a third is compared. -/
theorem Rests.congr {s t u : Session σ} (h : s.Rests t) : s.Rests u ↔ t.Rests u where
  mp k := ⟨k.phase, k.pipeline.trans h.pipeline.symm, k.binding.trans h.binding.symm,
    k.summary.trans h.summary.symm⟩
  mpr k := ⟨k.phase, k.pipeline.trans h.pipeline, k.binding.trans h.binding,
    k.summary.trans h.summary⟩

theorem Rests.spares_congr {s t : Session σ} (h : s.Rests t) (q : Request) :
    s.Spares t q ↔ t.Spares t q where
  mp k := ⟨h.congr.mp k.rests, k.files, k.written⟩
  mpr k := ⟨h.congr.mpr k.rests, k.files, k.written⟩

/-! ## One request -/

/-- The render at the end writes what the session shows, or it only moves the engine's state. -/
theorem renderFinal_cases (s : Session σ) (fault : Option OutputFault) :
    (s.Emits fault ∧ (s.renderFinal ⟨[], fault⟩).2.2.written ≠ none)
      ∨ (¬ s.Emits fault ∧ ∃ result st,
        s.renderFinal ⟨[], fault⟩ = (result, { s with engineState := st }, ⟨[], fault⟩)) := by
  obtain ⟨st, hfinal⟩ := renderFinal_eq s ⟨[], fault⟩
  unfold Emits
  rw [hfinal]
  rcases s.rendering with _ | (error | _ | encoded)
  · exact Or.inr ⟨by simp, _, st, rfl⟩
  · exact Or.inr ⟨by simp, _, st, rfl⟩
  · exact Or.inr ⟨by simp, _, st, rfl⟩
  · rcases fault with _ | refused | flushed
    · exact Or.inl ⟨by simp, by simp [Output.write]⟩
    · exact Or.inr ⟨by simp, _, st, rfl⟩
    · exact Or.inl ⟨by simp, by simp [Output.write]⟩

theorem ended_self {s : Session σ} (h : s.phase = .terminated) : s.ended = s := by
  obtain ⟨registry, engine, state, watch, pipeline, source, phase, summary⟩ := s
  cases h
  rfl

/-- A request after which the session is over, and at most the engine has moved, spares it. -/
theorem spares_of_on {s : Session σ} {q : Request} (st : σ)
    (hq : q.on s = ⟨{ s with engineState := st }.ended, q.world, none⟩) : s.Spares s q := by
  refine ⟨⟨?_, ?_, ?_, ?_⟩, ?_, ?_⟩
  all_goals rw [hq]
  all_goals rfl

theorem spares_run {s : Session σ} {w : World} {script : Script} {fault : Option OutputFault}
    {st : σ} {result : Except Error Summary}
    (hrun : s.run w script ⟨[], fault⟩ =
      ⟨result, { s with engineState := st }.ended, w, ⟨[], fault⟩⟩) :
    s.Spares s (.run w script fault) := by
  refine spares_of_on st ?_
  dsimp only [Request.on]
  rw [hrun]
  rfl

section Over

variable {s : Session σ} (h : s.phase = .terminated)
include h

theorem spares_line (call : Call) : s.Spares s (.line call) := by
  refine spares_of_on s.engineState ?_
  dsimp only [Request.on]
  rw [call_over h]
  exact congrArg (Aftermath.mk · call.world none) (ended_self h).symm

theorem spares_preload_iff (w : World) (path : String) :
    s.Spares s (.preload w path) ↔ ¬ ∃ binding, load w.files path = .ok binding := by
  cases hl : load w.files path with
  | ok binding =>
      -- the image opens the session again
      refine iff_of_false (fun hs => ?_) (fun hn => hn ⟨binding, rfl⟩)
      have hphase := hs.rests.phase
      dsimp only [Request.on] at hphase
      rw [preload, hl] at hphase
      exact absurd hphase (by simp [bind])
  | error error =>
      refine iff_of_true (spares_of_on s.engineState ?_) (by simp)
      dsimp only [Request.on]
      rw [preload, hl]
      exact congrArg (Aftermath.mk · w none) (ended_self h).symm

/-- The lines of a script change nothing, and if there is one they fail. -/
theorem steps_over (w : World) (line : Nat) (lines : List (List UInt8)) :
    (s.steps w line lines).session = s ∧ (s.steps w line lines).world = w
      ∧ ((s.steps w line lines).result = .ok () ↔ lines = []) := by
  cases lines with
  | nil => exact ⟨rfl, rfl, by simp [steps]⟩
  | cons l rest =>
      have hstep := call_over h ⟨true, w, line, Script.lineText l⟩
      rw [Call.on, if_pos rfl] at hstep
      dsimp only at hstep
      rw [steps, hstep]
      exact ⟨rfl, rfl, by simp⟩

/-- Only a batch that has no line to refuse comes to its render. -/
theorem spares_run_iff (w : World) (script : Script) (fault : Option OutputFault) :
    s.Spares s (.run w script fault) ↔ ¬ (Request.run w script fault).Disturbs s := by
  obtain ⟨hsession, hworld, hlines⟩ := steps_over h w 1 script.lines
  rcases run_cases s w script ⟨[], fault⟩ with
    ⟨error, he, hr⟩ | ⟨hok, ⟨cut, hf, hr⟩ | ⟨hf, ⟨hw, hr⟩ | ⟨hw, hr⟩⟩⟩
  · rw [hsession, hworld] at hr
    refine iff_of_true (spares_run hr) ?_
    rintro ⟨hempty, _⟩
    rw [hlines.mpr hempty] at he
    exact absurd he (by simp)
  · rw [hsession, hworld] at hr
    refine iff_of_true (spares_run hr) ?_
    rintro ⟨_, hwhole, _⟩
    exact absurd (hf.symm.trans hwhole) (by simp)
  · rw [hsession] at hw
    rw [hsession, hworld] at hr
    refine iff_of_true (spares_run hr) ?_
    rintro ⟨_, _, hbatch, _⟩
    rw [isWatch, hbatch] at hw
    exact absurd hw (by simp)
  · -- without a line nothing stands between the session and its last render
    rw [hsession] at hw
    rw [hsession, hworld] at hr
    have hbatch : s.watch = none := by simpa [isWatch] using hw
    rcases renderFinal_cases s fault with ⟨hemits, hwritten⟩ | ⟨hn, result, st, hfinal⟩
    · refine iff_of_false (fun hs => hwritten ?_) fun hn => hn ⟨hlines.mp hok, hf, hbatch, hemits⟩
      have hnone := hs.written
      dsimp only [Request.on] at hnone
      rwa [hr] at hnone
    · rw [hfinal] at hr
      exact iff_of_true (spares_run hr) fun hd => hn hd.2.2.2

/-- **A request spares a session that is over exactly if it does not disturb it.** -/
theorem spares_iff (q : Request) : s.Spares s q ↔ ¬ q.Disturbs s := by
  cases q with
  | line call => exact iff_of_true (spares_line h call) (fun hd => hd)
  | preload w path => exact spares_preload_iff h w path
  | run w script fault => exact spares_run_iff h w script fault

end Over

/-! ## Any requests -/

/-- The requests of a list, each with the session that it meets. -/
def meetings (s : Session σ) : List Request → List (Session σ × Request)
  | [] => []
  | q :: rest => (s, q) :: (q.on s).session.meetings rest

/-- As long as a session rests, it is spared by as many requests as do not disturb it. -/
theorem rests_through {s : Session σ} {requests : List Request} :
    ∀ {t : Session σ}, s.Rests t →
      ((∀ m ∈ t.meetings requests, s.Spares m.1 m.2) ↔
        ∀ m ∈ t.meetings requests, ¬ m.2.Disturbs m.1) := by
  induction requests with
  | nil => intro t _; simp [meetings]
  | cons q rest ih =>
      intro t ht
      rw [meetings, List.forall_mem_cons, List.forall_mem_cons, ht.spares_congr,
        spares_iff ht.phase]
      -- the next request meets a session that rests too, because this one was spared
      refine and_congr_right fun hq => ih ?_
      exact ((ht.spares_congr q).mpr ((spares_iff ht.phase q).mpr hq)).rests

/--
**When a session that is over stays as it is.** Let anything be asked of it, one
request after the other: lines, images to bind, whole scripts, in any files and
with any output. It stays over and keeps its pipeline, its source and its counts,
and no file and no output is written, exactly if none of these requests disturbs
it: if no image is bound that can be read, and no batch of an empty script renders
a picture that the output takes.
-/
theorem rests_iff (s : Session σ) (h : s.phase = .terminated) (requests : List Request) :
    (∀ m ∈ s.meetings requests,
        let left := m.2.on m.1
        left.session.phase = .terminated
          ∧ left.session.pipeline = s.pipeline
          ∧ left.session.binding = s.binding
          ∧ left.session.summary = s.summary
          ∧ left.world.files = m.2.world.files
          ∧ left.written = none) ↔
      ∀ m ∈ s.meetings requests, ¬ m.2.Disturbs m.1 := by
  rw [← rests_through (Rests.refl h)]
  refine forall₂_congr fun m _ => ⟨?_, ?_⟩
  · rintro ⟨hphase, hpipeline, hbinding, hsummary, hfiles, hwritten⟩
    exact ⟨⟨hphase, hpipeline, hbinding, hsummary⟩, hfiles, hwritten⟩
  · rintro ⟨⟨hphase, hpipeline, hbinding, hsummary⟩, hfiles, hwritten⟩
    exact ⟨hphase, hpipeline, hbinding, hsummary, hfiles, hwritten⟩

/-- A batch on the sample image that has inverted it, and is over. -/
def overSample : Session Unit :=
  (((start Registry.sample Engine.plain () none).bind Binding.sample).run World.sample
    ⟨[110, 101, 103], none⟩ ⟨[], none⟩).session

/-- A line, an image that is not there, and a script with a blank line: nothing comes of them. -/
theorem rests_iff_undisturbed :
    overSample.phase = .terminated
      ∧ ∀ m ∈ overSample.meetings [.line ⟨true, World.sample, 2, "neg"⟩,
          .preload World.sample "none.png", .run World.sample ⟨[10], none⟩ none],
        (m.2.on m.1).session.pipeline.ops = [.invert]
          ∧ (m.2.on m.1).session.summary = ⟨1, 1, 0, 0, 1⟩ ∧ (m.2.on m.1).written = none := by
  refine ⟨rfl, fun m hm => ?_⟩
  have hquiet : ∀ m ∈ overSample.meetings [.line ⟨true, World.sample, 2, "neg"⟩,
      .preload World.sample "none.png", .run World.sample ⟨[10], none⟩ none],
      ¬ m.2.Disturbs m.1 := by
    intro m hm
    simp only [meetings, List.mem_cons, List.not_mem_nil, or_false] at hm
    rcases hm with rfl | rfl | rfl
    · exact fun hd => hd
    · rintro ⟨binding, hload⟩
      exact absurd hload (by rw [show load World.sample.files "none.png" =
        .error (.bind "none.png" (.file .noEntry)) from rfl]; simp)
    · rintro ⟨hempty, _⟩
      exact absurd hempty (by decide)
  obtain ⟨_, hpipeline, _, hsummary, _, hwritten⟩ := (rests_iff overSample rfl _).mpr hquiet m hm
  exact ⟨congrArg Pipeline.ops hpipeline, hsummary, hwritten⟩

/-- An image is bound after the end, and lines are taken again; a second end writes once more. -/
theorem over_disturbed :
    overSample.phase = .terminated
      ∧ (overSample.preload World.sample "dot.png").session.phase = .active
      ∧ ((overSample.preload World.sample "dot.png").session.processLine World.sample 2
          "neg").result = .ok .accepted
      ∧ (overSample.run World.sample ⟨[], none⟩ ⟨[], none⟩).output.written.isSome = true
      ∧ (overSample.run World.sample ⟨[], none⟩ ⟨[], none⟩).session.summary.renders = 2 :=
  ⟨rfl, rfl, rfl, rfl, rfl⟩

end Session

end RasterScript
