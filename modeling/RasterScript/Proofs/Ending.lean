import RasterScript.Proofs.Rendering

/-!
# How a run ends

A run is its lines and then an end: the error of a line, the failure of the
script, or in batch mode the one render that goes to the output. Each of these is
a lemma here, stated over the session and the world that the lines left
(`run_failed`, `run_cut`, `run_rendered`, `run_watched`), so that nothing about
runs has to look into `run` again.

Whatever the end, the session is over afterwards and otherwise as its lines left
it (`run_alike`).
-/

namespace RasterScript

variable {σ : Type}

namespace Output

@[simp] theorem written_nil (fault : Option OutputFault) : written ⟨[], fault⟩ = none := rfl

@[simp] theorem written_singleton (encoded : Encoded) (fault : Option OutputFault) :
    written ⟨[encoded], fault⟩ = some encoded := rfl

end Output

namespace Session

/-- The session when it is over. -/
def ended (s : Session σ) : Session σ := { s with phase := .terminated }

theorem Alike.ended {s t : Session σ} (h : s.Alike t) : s.ended.Alike t.ended :=
  { h with phase := rfl }

/-- What the end of a batch does, from what the session shows. -/
theorem renderFinal_eq (s : Session σ) (out : Output) :
    ∃ st, s.renderFinal out =
      let t := { s with engineState := st }
      match s.rendering with
      | none => (.error .missingSource, t, out)
      | some (.error error) => (.error error, t, out)
      | some (.ok none) => (.ok (), t, out)
      | some (.ok (some encoded)) =>
        match out.write encoded with
        | (.ok (), out) => (.ok (), t.countRender, out)
        | (.error fault, out) => (.error (.sink "output" fault), t, out) := by
  obtain ⟨registry, engine, state, watch, pipeline, source, phase, summary⟩ := s
  cases source with
  | none => exact ⟨state, rfl⟩
  | some binding =>
      dsimp only [renderFinal, rendering, render, Option.map_some]
      rcases binding.render engine pipeline.ops state with ⟨result, st⟩
      refine ⟨st, ?_⟩
      cases result with
      | error error => rfl
      | ok shown =>
          cases shown with
          | none => rfl
          | some encoded =>
              rcases hw : out.write encoded with ⟨result, out'⟩
              cases result <;> simp only [hw]

/-- The render at the end only moves the engine's state and the count of renders. -/
theorem renderFinal_alike (s : Session σ) (out : Output) :
    s.Alike (s.renderFinal out).2.1 := by
  obtain ⟨st, h⟩ := renderFinal_eq s out
  have key : ∀ renders,
      s.Alike { s with engineState := st, summary := { s.summary with renders } } :=
    fun _ => ⟨rfl, rfl, rfl, rfl, rfl, rfl, rfl, rfl, rfl⟩
  rw [h]
  dsimp only
  split
  · exact key _
  · exact key _
  · exact key _
  · split <;> exact key _

section Run

variable {s : Session σ} {w : World} {script : Script} (out : Output)

/-- A line that fails ends the run with its error. -/
theorem run_failed {error : Error} (h : (s.steps w 1 script.lines).result = .error error) :
    s.run w script out =
      ⟨.error error, (s.steps w 1 script.lines).session.ended,
        (s.steps w 1 script.lines).world, out⟩ := by
  unfold run runLines
  generalize s.steps w 1 script.lines = done at h ⊢
  obtain ⟨result, s', w'⟩ := done
  dsimp only at h
  rw [h]
  rfl

/-- A script that breaks off ends the run once its whole lines are carried out. -/
theorem run_cut {fault : StreamFault} (h : (s.steps w 1 script.lines).result = .ok ())
    (hf : script.failure = some fault) :
    s.run w script out =
      ⟨.error (.script fault), (s.steps w 1 script.lines).session.ended,
        (s.steps w 1 script.lines).world, out⟩ := by
  unfold run runLines
  generalize s.steps w 1 script.lines = done at h ⊢
  obtain ⟨result, s', w'⟩ := done
  dsimp only at h
  rw [h, hf]
  rfl

/-- A watching session has nothing to do at the end of its script. -/
theorem run_watched (h : (s.steps w 1 script.lines).result = .ok ())
    (hf : script.failure = none) (hw : (s.steps w 1 script.lines).session.isWatch = true) :
    s.run w script out =
      ⟨.ok (s.steps w 1 script.lines).session.summary,
        (s.steps w 1 script.lines).session.ended, (s.steps w 1 script.lines).world, out⟩ := by
  unfold run runLines
  generalize s.steps w 1 script.lines = done at h hw ⊢
  obtain ⟨result, s', w'⟩ := done
  dsimp only at h hw
  rw [h, hf]
  dsimp only
  rw [hw]
  rfl

/-- A batch session renders at the end of its script, and only there. -/
theorem run_rendered (h : (s.steps w 1 script.lines).result = .ok ())
    (hf : script.failure = none) (hw : (s.steps w 1 script.lines).session.isWatch = false) :
    s.run w script out =
      let last := (s.steps w 1 script.lines).session.renderFinal out
      ⟨last.1.map fun _ => last.2.1.summary, last.2.1.ended,
        (s.steps w 1 script.lines).world, last.2.2⟩ := by
  unfold run runLines
  generalize s.steps w 1 script.lines = done at h hw ⊢
  obtain ⟨result, s', w'⟩ := done
  dsimp only at h hw
  rw [h, hf]
  dsimp only
  rw [hw]
  rcases s'.renderFinal out with ⟨result, s'', out'⟩
  cases result <;> rfl

end Run

/-- **A run ends in one of four ways.** -/
theorem run_cases (s : Session σ) (w : World) (script : Script) (out : Output) :
    let done := s.steps w 1 script.lines
    let last := done.session.renderFinal out
    (∃ error, done.result = .error error
        ∧ s.run w script out = ⟨.error error, done.session.ended, done.world, out⟩)
      ∨ done.result = .ok () ∧
        ((∃ fault, script.failure = some fault
            ∧ s.run w script out = ⟨.error (.script fault), done.session.ended, done.world, out⟩)
          ∨ script.failure = none ∧
            ((done.session.isWatch = true
                ∧ s.run w script out =
                  ⟨.ok done.session.summary, done.session.ended, done.world, out⟩)
              ∨ (done.session.isWatch = false
                ∧ s.run w script out =
                  ⟨last.1.map fun _ => last.2.1.summary, last.2.1.ended, done.world,
                    last.2.2⟩))) := by
  intro done last
  cases h : done.result with
  | error error => exact Or.inl ⟨error, rfl, run_failed out h⟩
  | ok _ =>
      refine Or.inr ⟨rfl, ?_⟩
      cases hf : script.failure with
      | some fault => exact Or.inl ⟨fault, rfl, run_cut out h hf⟩
      | none =>
          refine Or.inr ⟨rfl, ?_⟩
          cases hw : done.session.isWatch with
          | true => exact Or.inl ⟨rfl, run_watched out h hf hw⟩
          | false => exact Or.inr ⟨rfl, run_rendered out h hf hw⟩

/-- **Every run ends the session, and leaves it otherwise as its lines did.** -/
theorem run_alike (s : Session σ) (w : World) (script : Script) (out : Output) :
    (s.steps w 1 script.lines).session.ended.Alike (s.run w script out).session := by
  rcases run_cases s w script out with ⟨_, _, h⟩ | ⟨_, ⟨_, _, h⟩ | ⟨_, ⟨_, h⟩ | ⟨_, h⟩⟩⟩
  · rw [h]; exact Alike.refl _
  · rw [h]; exact Alike.refl _
  · rw [h]; exact Alike.refl _
  · rw [h]; exact (renderFinal_alike _ out).ended

/-- No end of a run touches a file. -/
theorem run_world (s : Session σ) (w : World) (script : Script) (out : Output) :
    (s.run w script out).world = (s.steps w 1 script.lines).world := by
  rcases run_cases s w script out with ⟨_, _, h⟩ | ⟨_, ⟨_, _, h⟩ | ⟨_, ⟨_, h⟩ | ⟨_, h⟩⟩⟩ <;> rw [h]

/-- A run that succeeds has carried out every line of a script read to its end. -/
theorem run_ok {s : Session σ} {w : World} {script : Script} {out : Output} {counted : Summary}
    (h : (s.run w script out).result = .ok counted) :
    (s.steps w 1 script.lines).result = .ok () ∧ script.failure = none := by
  rcases run_cases s w script out with ⟨_, _, hr⟩ | ⟨hok, ⟨_, _, hr⟩ | ⟨hf, _⟩⟩
  · rw [hr] at h; exact absurd h (by simp)
  · rw [hr] at h; exact absurd h (by simp)
  · exact ⟨hok, hf⟩

end Session

end RasterScript
