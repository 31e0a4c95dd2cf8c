import RasterScript.Proofs.WatchFile

/-!
# Both modes come to the same

A batch renders once, after the last line; a watching session renders again and
again. For a script without a reset that does not read the watched file this is
the only difference: while both carry out the same lines, their sessions stay
alike and their files differ at most in the watched one (`Paired`, `paired_step`).

That the watched file ends with what the batch writes needs a second invariant,
on the watching side alone: once a line was processed, the file is up to date
(`UpToDate`). A line that was not processed cannot change that, since it changes
nothing that a render depends on; so the last processed line has already seen the
final pipeline and the final source.
-/

namespace RasterScript

variable {σ : Type}

/-- Only a comment, a blank line and an unknown command are not processed. -/
theorem Verdict.of_unprocessed {v : Verdict} (h : v.outcome.isProcessed = false) :
    v = .skip ∨ ∃ name, v = .unknown name := by
  cases v with
  | skip => exact Or.inl rfl
  | unknown name => exact Or.inr ⟨name, rfl⟩
  | direct d args => cases d <;> exact absurd h (by simp [outcome, Outcome.isProcessed])
  | _ => exact absurd h (by simp [outcome, Outcome.isProcessed])

namespace Session

/-! ## Carrying out one line in both modes -/

/-- An image that can be read can be read while another file is rewritten. -/
theorem load_rewritten {target path : String} {F G : FileStore} {binding : Binding}
    (h : F.Rewritten target G) (hl : load F path = .ok binding) (hne : ¬ F.Shares target path) :
    load G path = .ok binding := by
  unfold load at hl ⊢
  cases hr : F.read path with
  | error error => rw [hr] at hl; exact absurd hl (by simp)
  | ok contents => rw [h.read hr hne]; rw [hr] at hl; exact hl

/-- The same for the image that a line reads. -/
theorem load?_rewritten {target : String} {F G : FileStore} {v : Verdict}
    (h : F.Rewritten target G) (hok : ∀ error, v.load? F ≠ some (.error error))
    (hne : ∀ args, v = .direct .read args → ¬ F.Shares target (args.headD "")) :
    v.load? G = v.load? F := by
  cases v with
  | direct d args =>
      cases d with
      | read =>
          dsimp only [Verdict.load?] at hok ⊢
          cases hl : load F (args.headD "") with
          | error error => exact absurd (congrArg some hl) (hok error)
          | ok binding => rw [load_rewritten h hl (hne args rfl)]
      | _ => rfl
  | _ => rfl

/-- Sessions that are alike stay so under a verdict that means the same to both. -/
theorem after_alike {s t : Session σ} (h : s.Alike t) {F G : FileStore} {line : Nat}
    {v : Verdict} (hv : v.directs .reset = false) (hl : v.load? G = v.load? F) :
    (s.after F line v).Alike (t.after G line v) where
  registry := by rw [after_registry, after_registry, h.registry]
  engine := by rw [after_engine, after_engine, h.engine]
  pipeline := by
    rw [after_pipeline, after_pipeline, h.pipeline]
    cases v with
    | direct d args =>
        cases d with
        | reset => exact absurd hv (by simp [Verdict.directs])
        | _ => rfl
    | _ => rfl
  binding := by rw [after_binding, after_binding, hl, h.binding]
  phase := by rw [after_phase, after_phase, hl, h.phase]
  lines := by rw [after_summary, after_summary]; cases v <;> rfl
  accepted := by
    rw [after_summary, after_summary]; cases v <;> simp [Verdict.count, h.accepted]
  rejected := by
    rw [after_summary, after_summary]; cases v <;> simp [Verdict.count, h.rejected]
  unknown := by
    rw [after_summary, after_summary]; cases v <;> simp [Verdict.count, h.unknown]

/-- A batch session and a watching one in the middle of the same script. -/
structure Paired (target : String) (F : FileStore) (s : Session σ) (w : World)
    (t : Session σ) (u : World) : Prop where
  alike : s.Alike t
  batch : s.watch = none
  watching : Watching target t
  /-- The batch session leaves the files as they were. -/
  files : w.files = F
  /-- The watching one writes to the watched file alone. -/
  rewritten : F.Rewritten target u.files

/-- A step of a watching session writes to the watched file alone. -/
theorem step_rewritten {target : String} {F : FileStore} {t : Session σ} {u : World}
    (ht : Watching target t) (h : F.Rewritten target u.files) (line : Nat) (text : String) :
    F.Rewritten target (t.step u line text).world.files := by
  rcases step_watching ht u line text with ⟨encoded, _, _, hw, _⟩ | ⟨_, hf, _⟩
  · exact .write h hw
  · rw [hf]; exact h

/-- **A line that succeeds in both modes keeps the two sessions paired.** -/
theorem paired_step {target : String} {F : FileStore} {s t : Session σ} {w u : World}
    (h : Paired target F s w t u) {line : Nat} {text : String} {outcome outcome' : Outcome}
    (hreset : (s.registry.judge text).directs .reset = false)
    (hread : ∀ args, s.registry.judge text = .direct .read args →
      ¬ F.Shares target (args.headD ""))
    (hs : (s.step w line text).result = .ok outcome)
    (ht : (t.step u line text).result = .ok outcome') :
    Paired target F (s.step w line text).session (s.step w line text).world
      (t.step u line text).session (t.step u line text).world := by
  have hbatch := step_of_batch h.batch w line text
  obtain ⟨hphase, hanswer⟩ := processLine_ok (step_ok hs)
  obtain ⟨hphase', _⟩ := processLine_ok (step_ok ht)
  -- the batch reads in the files as they were, the other in the rewritten ones
  have hload := load?_rewritten h.rewritten (h.files ▸ (answer_ok hanswer).2) hread
  have halike : (s.processLine w line text).session.Alike (t.processLine u line text).session := by
    rw [processLine_eq hphase, processLine_eq hphase', h.alike.registry]
    exact after_alike h.alike hreset (by rw [hload, h.files])
  rw [hbatch]
  exact {
    alike := halike.trans (step_alike t u line text).1
    batch := (processLine_untouched s w line text).watch.trans h.batch
    watching := h.watching.step u line text
    files := (processLine_untouched s w line text).files.trans h.files
    rewritten := step_rewritten h.watching h.rewritten line text }

theorem paired_steps {target : String} {F : FileStore} {lines : List (List UInt8)} :
    ∀ {s t : Session σ} {w u : World} {line : Nat}, Paired target F s w t u →
      (∀ bytes ∈ lines,
        (s.registry.judge (Script.lineText bytes)).directs .reset = false) →
      (∀ bytes ∈ lines, ∀ args, s.registry.judge (Script.lineText bytes) = .direct .read args →
        ¬ F.Shares target (args.headD "")) →
      (s.steps w line lines).result = .ok () → (t.steps u line lines).result = .ok () →
      Paired target F (s.steps w line lines).session (s.steps w line lines).world
        (t.steps u line lines).session (t.steps u line lines).world := by
  induction lines with
  | nil => intro s t w u line h _ _ _ _; exact h
  | cons bytes rest ih =>
      intro s t w u line h hreset hread hs ht
      obtain ⟨⟨_, hso⟩, hsr⟩ := steps_ok_cons hs
      obtain ⟨⟨_, hto⟩, htr⟩ := steps_ok_cons ht
      have hnext := paired_step h (hreset bytes (List.mem_cons_self ..))
        (hread bytes (List.mem_cons_self ..)) hso hto
      have hregistry := step_registry s w line (Script.lineText bytes)
      rw [hsr] at hs ⊢
      rw [htr] at ht ⊢
      exact ih hnext
        (fun later hl => by rw [hregistry]; exact hreset later (List.mem_cons_of_mem _ hl))
        (fun later hl => by rw [hregistry]; exact hread later (List.mem_cons_of_mem _ hl)) hs ht

/-! ## The watched file is up to date -/

/-- If the session shows a picture, it is the one in the watched file. -/
def UpToDate (target : String) (t : Session σ) (files : FileStore) : Prop :=
  ∀ encoded, t.rendering = some (.ok (some encoded)) →
    files.read target = .ok (.picture encoded)

/-- A line that is not processed changes nothing that a render depends on. -/
theorem step_unprocessed {target : String} {t : Session σ} (h : Watching target t) {u : World}
    {line : Nat} {text : String} {outcome : Outcome}
    (hok : (t.step u line text).result = .ok outcome) (hu : outcome.isProcessed = false) :
    (t.step u line text).session.rendering = t.rendering
      ∧ (t.step u line text).world.files = u.files := by
  have hline := step_ok hok
  obtain ⟨hphase, hanswer⟩ := processLine_ok hline
  have hstep : t.step u line text = t.processLine u line text :=
    step_unrendered fun other ho => Or.inr (Except.ok.inj (hline.symm.trans ho) ▸ hu)
  rw [(answer_ok hanswer).1] at hu
  rw [hstep, processLine_eq hphase]
  refine ⟨rendering_eq_of_pure h.pure (after_engine ..) ?_ ?_, rfl⟩
  · rw [after_pipeline]
    rcases Verdict.of_unprocessed hu with hv | ⟨name, hv⟩ <;> rw [hv] <;> rfl
  · rw [after_binding]
    rcases Verdict.of_unprocessed hu with hv | ⟨name, hv⟩ <;> rw [hv] <;> rfl

theorem upToDate_step {target : String} {t : Session σ} (h : Watching target t) {u : World}
    {line : Nat} {text : String} {outcome : Outcome}
    (hok : (t.step u line text).result = .ok outcome)
    (hb : outcome.isProcessed = true ∨ UpToDate target t u.files) :
    UpToDate target (t.step u line text).session (t.step u line text).world.files := by
  intro encoded hr
  cases hp : outcome.isProcessed with
  | false =>
      obtain ⟨hsame, hfiles⟩ := step_unprocessed h hok hp
      rw [hfiles]
      exact hb.resolve_left (by rw [hp]; simp) encoded (hsame ▸ hr)
  | true =>
      have hprocessed : (t.step u line text).processed = true := by
        unfold Step.processed; rw [hok]; exact hp
      rcases step_watching h u line text with ⟨shown, _, hs, hw, _⟩ | ⟨hq, _, _⟩
      · rw [hr] at hs
        rw [Option.some.inj (Except.ok.inj (Option.some.inj hs))]
        exact FileStore.read_write hw
      · exact absurd (hq hprocessed) (not_withholds hr)

/-- **Once a line was processed, the watched file is up to date for good.** -/
theorem upToDate_steps {target : String} {lines : List (List UInt8)} :
    ∀ {t : Session σ} {u : World} {line : Nat}, Watching target t →
      (t.steps u line lines).result = .ok () →
      (UpToDate target t u.files ∨ ∃ bytes ∈ lines,
        (t.registry.judge (Script.lineText bytes)).outcome.isProcessed = true) →
      UpToDate target (t.steps u line lines).session (t.steps u line lines).world.files := by
  induction lines with
  | nil => intro t u line _ _ hb; exact hb.resolve_right (by simp)
  | cons bytes rest ih =>
      intro t u line h hok hb
      obtain ⟨⟨outcome, ho⟩, hrest⟩ := steps_ok_cons hok
      have hanswer := answer_ok (processLine_ok (step_ok ho)).2
      rw [hrest] at hok ⊢
      -- it is up to date after this line, or the processed line is still to come
      refine ih (h.step u line _) hok ?_
      rw [step_registry]
      rcases hb with hb | ⟨later, hl, hp⟩
      · exact Or.inl (upToDate_step h ho (Or.inr hb))
      · rcases List.mem_cons.mp hl with rfl | hl
        · exact Or.inl (upToDate_step h ho (Or.inl (by rw [hanswer.1]; exact hp)))
        · exact Or.inr ⟨later, hl, hp⟩

/-! ## Whole runs in both modes -/

/-- What the render at the end wrote to an output that held nothing is what the session showed. -/
theorem renderFinal_written {s : Session σ} {fault : Option OutputFault} {encoded : Encoded}
    (h : (s.renderFinal ⟨[], fault⟩).2.2.written = some encoded) :
    s.rendering = some (.ok (some encoded)) := by
  obtain ⟨st, hfinal⟩ := renderFinal_eq s ⟨[], fault⟩
  rw [hfinal] at h
  dsimp only at h
  split at h
  · exact absurd h (by simp)
  · exact absurd h (by simp)
  · exact absurd h (by simp)
  · rename_i shown hshown
    have he : shown = encoded := by
      rcases fault with _ | fault | fault
      · exact Option.some.inj h
      · exact absurd h (by simp [Output.write])
      · exact Option.some.inj h
    rw [hshown, he]

/-- What a batch wrote is what its session showed after the last line. -/
theorem run_written {s : Session σ} (hb : s.watch = none) {w : World} {script : Script}
    {fault : Option OutputFault} {encoded : Encoded}
    (h : (s.run w script ⟨[], fault⟩).output.written = some encoded) :
    (s.steps w 1 script.lines).session.rendering = some (.ok (some encoded)) := by
  have hwatch : (s.steps w 1 script.lines).session.isWatch = false := by
    rw [isWatch, steps_watch, hb]; rfl
  rcases run_cases s w script ⟨[], fault⟩ with
    ⟨_, _, hr⟩ | ⟨_, ⟨_, _, hr⟩ | ⟨_, ⟨hw, _⟩ | ⟨_, hr⟩⟩⟩
  · rw [hr] at h; exact absurd h (by simp)
  · rw [hr] at h; exact absurd h (by simp)
  · exact absurd (hwatch.symm.trans hw) (by simp)
  · rw [hr] at h; exact renderFinal_written h

/--
**Both modes come to the same.** A script in which no line carries out a reset or
reads the watched file is run twice from the same session and the same files, as
a batch and watching. If both runs succeed, they end with the same pipeline, the
same source and the same counts of lines. And if any line was processed, what the
batch wrote is what the watched file holds.
-/
theorem modes_agree (s : Session σ) (hp : s.engine.IsPure) (files : FileStore)
    (d d' : Diagnostics) (script : Script) (target : String) (fault : Option OutputFault)
    (out : Output) (batch watched : Run σ) (counted counted' : Summary)
    (hreset : ∀ v ∈ s.registry.verdicts script, v.directs .reset = false)
    (hread : ∀ args, .direct .read args ∈ s.registry.verdicts script →
      ¬ files.Shares target (args.headD ""))
    (hb : run { s with watch := none } ⟨files, d⟩ script ⟨[], fault⟩ = batch)
    (hw : run { s with watch := some target } ⟨files, d'⟩ script out = watched)
    (hbok : batch.result = .ok counted) (hwok : watched.result = .ok counted') :
    watched.session.pipeline = batch.session.pipeline
      ∧ watched.session.binding = batch.session.binding
      ∧ watched.session.summary.lines = batch.session.summary.lines
      ∧ watched.session.summary.accepted = batch.session.summary.accepted
      ∧ watched.session.summary.rejected = batch.session.summary.rejected
      ∧ watched.session.summary.unknown = batch.session.summary.unknown
      ∧ ∀ encoded, (∃ v ∈ s.registry.verdicts script, v.outcome.isProcessed = true) →
          batch.output.written = some encoded →
          watched.world.files.read target = .ok (.picture encoded) := by
  subst hb hw
  have hpaired : Paired target files { s with watch := none } ⟨files, d⟩
      { s with watch := some target } ⟨files, d'⟩ :=
    ⟨⟨rfl, rfl, rfl, rfl, rfl, rfl, rfl, rfl, rfl⟩, rfl, ⟨rfl, hp⟩, rfl, .refl⟩
  have hend := paired_steps hpaired
    (fun bytes hl => hreset _ (List.mem_map_of_mem hl))
    (fun bytes hl args hv => hread args (hv ▸ List.mem_map_of_mem hl))
    (run_ok hbok).1 (run_ok hwok).1
  have halike := ((run_alike _ _ script ⟨[], fault⟩).symm.trans hend.alike.ended).trans
    (run_alike _ _ script out)
  refine ⟨halike.pipeline, halike.binding, halike.lines, halike.accepted, halike.rejected,
    halike.unknown, ?_⟩
  rintro encoded ⟨v, hv, hprocessed⟩ hwritten
  obtain ⟨bytes, hl, rfl⟩ := List.mem_map.mp hv
  have hdate := upToDate_steps hpaired.watching (run_ok hwok).1
    (Or.inr ⟨bytes, hl, hprocessed⟩)
  rw [run_world]
  refine hdate encoded ?_
  have hpure := hend.watching.pure
  rw [hend.alike.engine] at hpure
  rw [rendering_eq_of_pure hpure hend.alike.engine hend.alike.pipeline hend.alike.binding]
  exact run_written rfl hwritten

/-- An image bound in mid-script, an unknown line and an ignored one, in both modes. -/
theorem modes_agree_sample :
    let s := start Registry.sample Engine.plain () none
    let batch := run { s with watch := none } World.sample Script.sample ⟨[], none⟩
    let watched := run { s with watch := some "w.png" } World.sample Script.sample ⟨[], none⟩
    watched.session.pipeline = batch.session.pipeline
      ∧ watched.session.binding = batch.session.binding
      ∧ ∃ encoded, batch.output.written = some encoded
        ∧ watched.world.files.read "w.png" = .ok (.picture encoded) := by
  intro s batch watched
  have hverdicts : s.registry.verdicts Script.sample =
      [.append .invert, .direct .read ["dot.png"], .unknown "x", .ignore] := rfl
  have hapart : ¬ World.sample.files.Shares "w.png" "dot.png" := by
    rintro ⟨place, hw, hr⟩
    have hwatch : ["w.png"] = place := Except.ok.inj hw
    have hsource : ["dot.png"] = place := Except.ok.inj hr
    exact absurd (hwatch.trans hsource.symm) (by decide)
  obtain ⟨hpipeline, hbinding, _, _, _, _, hfile⟩ :=
    modes_agree s (Engine.isPure_ofFunctions _ _) World.sample.files (.sound "") (.sound "")
      Script.sample "w.png" none ⟨[], none⟩ batch watched _ _
      (by rw [hverdicts]; decide)
      (by
        intro args hargs
        rw [hverdicts] at hargs
        have he : args = ["dot.png"] := by simpa using hargs
        rw [he]
        exact hapart)
      rfl rfl rfl rfl
  exact ⟨hpipeline, hbinding, _, rfl, hfile _ ⟨_, hverdicts ▸ List.mem_cons_self .., rfl⟩ rfl⟩

end Session

end RasterScript
