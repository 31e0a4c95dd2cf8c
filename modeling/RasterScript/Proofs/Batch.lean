import RasterScript.Proofs.Ending
import RasterScript.Proofs.History

/-!
# What a batch writes

A batch renders once, after its last line, and what it renders is what its lines
made of the session; so the output is a function of the script as a whole and not
of the order in which things happened (`batch_run`). The history of a session
(`feeds_recalls`) gives the source and the operations: the lines of a batch are
calls in a world whose files stay as they were (`steps_feeds`).

That a script can be carried out at all does not depend on where its reads stand
either (`steps_ok_iff`). A read fails for a reason that lies in the files; any
other line only fails when the diagnostics do not take what it has to say, and how
much that is depends on the table and the operations before it, never on the source.
-/

namespace RasterScript

variable {σ : Type}

namespace Session

/-! ## The lines of a batch as its history -/

theorem Feeds.trans {s t u : Session σ} {calls more : List Call} (h : s.Feeds calls t)
    (k : t.Feeds more u) : s.Feeds (calls ++ more) u := by
  induction k with
  | nil => rw [List.append_nil]; exact h
  | snoc _ hc ih => rw [← List.append_assoc]; exact .snoc ih hc

/-- Steps that all succeed feed their lines to the session, and in a batch from the same files. -/
theorem steps_feeds {lines : List (List UInt8)} :
    ∀ {s : Session σ} {w : World} {line : Nat}, s.watch = none →
      (s.steps w line lines).result = .ok () →
      ∃ calls, s.Feeds calls (s.steps w line lines).session
        ∧ calls.map Call.text = lines.map Script.lineText
        ∧ ∀ c ∈ calls, c.world.files = w.files := by
  induction lines with
  | nil => intro s w line _ _; exact ⟨[], .nil, rfl, by simp⟩
  | cons bytes rest ih =>
      intro s w line hb hok
      obtain ⟨⟨outcome, ho⟩, hrest⟩ := steps_ok_cons hok
      have hwatch := (step_alike s w line (Script.lineText bytes)).2
      have hfiles : (s.step w line (Script.lineText bytes)).world.files = w.files := by
        rw [step_of_batch hb]; exact (processLine_untouched ..).files
      rw [hrest] at hok ⊢
      obtain ⟨calls, hfeeds, htexts, hsame⟩ := ih (hwatch.trans hb) hok
      have hfirst : s.Feeds ([] ++ [⟨true, w, line, Script.lineText bytes⟩])
          (s.step w line (Script.lineText bytes)).session :=
        .snoc (w := (s.step w line (Script.lineText bytes)).world) .nil (by rw [← ho]; rfl)
      refine ⟨_, hfirst.trans hfeeds, ?_, ?_⟩
      · rw [List.map_append, htexts]; rfl
      · intro c hc
        rcases List.mem_append.mp hc with hc | hc
        · rw [List.mem_singleton.mp hc]
        · exact (hsame c hc).trans hfiles

/-- The operations of calls are those of their verdicts. -/
theorem filterMap_operation? (r : Registry) (calls : List Call) :
    calls.filterMap (·.operation? r) =
      (calls.map fun c => r.judge c.text).filterMap Verdict.op? := by
  rw [List.filterMap_map]
  congr 1
  funext c
  exact (judge_op? r c.line c.text).symm

/-- Calls in worlds with the same files read what their verdicts read there. -/
theorem filterMap_load? (r : Registry) {calls : List Call} {files : FileStore}
    (h : ∀ c ∈ calls, c.world.files = files) :
    calls.filterMap (·.load? r) =
      (calls.map fun c => r.judge c.text).filterMap (·.load? files) := by
  rw [List.filterMap_map]
  refine List.filterMap_congr fun c hc => ?_
  rw [Call.load?, h c hc]
  rfl

/-- **What the lines of a batch made of a fresh session.** -/
theorem steps_recalls {r : Registry} {engine : Engine σ} {st : σ} {source : Option Binding}
    {w : World} {script : Script}
    (h : ((opened r engine st none source).steps w 1 script.lines).result = .ok ()) :
    let done := ((opened r engine st none source).steps w 1 script.lines).session
    done.pipeline.ops = (r.verdicts script).filterMap Verdict.op?
      ∧ BoundBy source ((r.verdicts script).filterMap (·.load? w.files)) done.binding := by
  obtain ⟨calls, hfeeds, htexts, hfiles⟩ := steps_feeds (opened_watch ..) h
  have hr := feeds_recalls hfeeds
  have hverdicts : (calls.map fun c => r.judge c.text) = r.verdicts script := by
    have hmap := congrArg (List.map r.judge) htexts
    rw [List.map_map, List.map_map] at hmap
    exact hmap
  refine ⟨?_, ?_⟩
  · rw [← hverdicts, ← filterMap_operation?]; exact hr.pipeline
  · rw [← hverdicts, ← filterMap_load? r hfiles]; exact hr.binding

/-- What the lines of a batch leave to the render at its end. -/
structure Unrendered (s t : Session σ) : Prop where
  watch : t.watch = none
  engine : t.engine = s.engine
  engineState : t.engineState = s.engineState
  renders : t.summary.renders = s.summary.renders

theorem steps_unrendered {s : Session σ} (h : s.watch = none) (w : World) (line : Nat)
    (lines : List (List UInt8)) : s.Unrendered (s.steps w line lines).session := by
  refine steps_keep (P := fun t _ => s.Unrendered t) ?_ ⟨h, rfl, rfl, rfl⟩
  intro t u line text ht
  rw [step_of_batch ht.watch]
  have hline := processLine_untouched t u line text
  exact ⟨hline.watch.trans ht.watch, hline.engine.trans ht.engine,
    hline.engineState.trans ht.engineState, hline.renders.trans ht.renders⟩

end Session

/-! ## Which scripts can be carried out -/

namespace Verdict

/-- How many lines a verdict puts on the diagnostics. -/
def volume (r : Registry) (p : Pipeline) : Verdict → Nat
  | unknown _ | refuse _ _ _ => 1
  | direct .help _ => r.length + 1
  | direct .show _ => p.length
  | _ => 0

/-- How many lines the verdicts of a batch put on the diagnostics, together. -/
def volumes (r : Registry) : Pipeline → List Verdict → Nat
  | _, [] => 0
  | p, v :: vs => v.volume r p + volumes r (v.extend false p) vs

end Verdict

namespace Session

theorem length_notices (s : Session σ) (line : Nat) (v : Verdict) :
    (s.notices line v).length = v.volume s.registry s.pipeline := by
  cases v with
  | direct d args =>
      cases d with
      | help =>
          rw [notices, Registry.rows, List.length_cons, List.length_map]
          rfl
      | «show» =>
          rw [notices, Pipeline.listing, List.length_map, List.length_zipIdx]
          rfl
      | _ => rfl
  | _ => rfl

/-- **A line succeeds if its image can be read and every line it has to say is taken.** -/
theorem answer_ok_iff (s : Session σ) (w : World) (line : Nat) (v : Verdict) :
    (∃ outcome, (s.answer w line v).1 = .ok outcome) ↔
      (∀ error, v.load? w.files ≠ some (.error error))
        ∧ w.diagnostics.Takes (v.volume s.registry s.pipeline) := by
  rcases s.answer_cases w line v with ⟨error, hload, hanswer⟩ | ⟨hread, hanswer⟩
  · rw [hanswer, hload]
    simp
  · rw [hanswer, ← length_notices s line, ← Diagnostics.writeAll_iff]
    dsimp only
    cases (w.diagnostics.writeAll (s.notices line v)).1 <;> simp [hread]

/-- After a line that succeeds, the lines it said are behind the stream. -/
theorem answer_diagnostics {s : Session σ} {w : World} {line : Nat} {v : Verdict}
    {outcome : Outcome} (h : (s.answer w line v).1 = .ok outcome) :
    (s.answer w line v).2 =
      ⟨w.diagnostics.text ++ Diagnostics.page (s.notices line v),
        w.diagnostics.lines + v.volume s.registry s.pipeline, w.diagnostics.fate⟩ := by
  obtain ⟨hread, htakes⟩ := (answer_ok_iff s w line v).mp ⟨outcome, h⟩
  rw [← length_notices s line] at htakes ⊢
  rw [answer_readable hread, Diagnostics.writeAll_of_takes htakes]

theorem after_goes_on {s : Session σ} (h : s.phase ≠ .terminated) (files : FileStore)
    (line : Nat) (v : Verdict) : (s.after files line v).phase ≠ .terminated := by
  rw [after_phase]
  split
  · simp
  · exact h

/--
**Which scripts a batch can carry out:** those of which every image can be read, if
the diagnostics take all lines that there are to be said.
-/
theorem steps_ok_iff {lines : List (List UInt8)} :
    ∀ {s : Session σ} {w : World} {line : Nat}, s.watch = none → s.phase ≠ .terminated →
      let vs := lines.map fun bytes => s.registry.judge (Script.lineText bytes)
      ((s.steps w line lines).result = .ok () ↔
        (∀ v ∈ vs, ∀ error, v.load? w.files ≠ some (.error error))
          ∧ w.diagnostics.Takes (Verdict.volumes s.registry s.pipeline vs)) := by
  induction lines with
  | nil => intro s w line _ _; simp [steps, Verdict.volumes, Diagnostics.takes_zero]
  | cons bytes rest ih =>
      intro s w line hb hphase
      have hcan := answer_ok_iff s w line (s.registry.judge (Script.lineText bytes))
      have hsaid := @answer_diagnostics σ s w line (s.registry.judge (Script.lineText bytes))
      rw [steps, step_of_batch hb, processLine_eq hphase]
      simp only [List.map_cons, List.forall_mem_cons, Verdict.volumes, Diagnostics.takes_add]
      generalize s.registry.judge (Script.lineText bytes) = v at hcan hsaid ⊢
      generalize s.answer w line v = answer at hcan hsaid ⊢
      obtain ⟨result, diagnostics⟩ := answer
      cases result with
      | error error =>
          -- the rest is never reached, and the first line is to blame
          constructor
          · intro h; exact absurd h (by simp)
          · intro h
            obtain ⟨_, ho⟩ := hcan.mpr ⟨h.1.1, h.2.1⟩
            exact absurd ho (by simp)
      | ok outcome =>
          have hrest := @ih (s.after w.files line v) { w with diagnostics } (line + 1)
            ((after_watch ..).trans hb) (after_goes_on hphase w.files line v)
          have hfirst := hcan.mp ⟨outcome, rfl⟩
          have hd := hsaid rfl
          dsimp only at hrest hd ⊢
          rw [hrest, after_registry, after_pipeline, isWatch, hb, hd]
          constructor
          · intro h
            exact ⟨⟨hfirst.1, h.1⟩, hfirst.2, h.2⟩
          · intro h
            exact ⟨h.1.2, h.2.2⟩

end Session

/-! ## Moving the reads of a script -/

namespace Verdict

/-- Lines with the same reads, of which the last is the same, and with everything else in order. -/
structure Reordered (vs us : List Verdict) : Prop where
  others : us.filter (!·.directs .read) = vs.filter (!·.directs .read)
  reads : (us.filter (·.directs .read)).Perm (vs.filter (·.directs .read))
  last : (us.filter (·.directs .read)).getLast? = (vs.filter (·.directs .read)).getLast?

theorem Reordered.mem_iff {vs us : List Verdict} (h : Reordered vs us) (v : Verdict) :
    v ∈ us ↔ v ∈ vs := by
  cases hv : v.directs .read with
  | true =>
      have := h.reads.mem_iff (a := v)
      simpa [hv] using this
  | false =>
      have : v ∈ us.filter (!·.directs .read) ↔ v ∈ vs.filter (!·.directs .read) := by
        rw [h.others]
      simpa [hv] using this

/-- A read says nothing and leaves the pipeline, so only the other lines are heard. -/
theorem volumes_filter (r : Registry) (vs : List Verdict) :
    ∀ p, volumes r p (vs.filter (!·.directs .read)) = volumes r p vs := by
  induction vs with
  | nil => intro p; rfl
  | cons v vs ih =>
      intro p
      cases hv : v.directs .read with
      | false =>
          rw [List.filter_cons_of_pos (by rw [hv]; rfl)]
          exact congrArg (v.volume r p + ·) (ih _)
      | true =>
          -- the read is gone on the left, and on the right it asks for nothing
          rw [List.filter_cons_of_neg (by rw [hv]; simp), ih p]
          cases v with
          | direct d args => cases d <;> simp_all [directs, volumes, volume, extend]
          | _ => exact absurd hv (by simp [directs])

theorem Reordered.volumes {vs us : List Verdict} (h : Reordered vs us) (r : Registry)
    (p : Pipeline) : volumes r p us = volumes r p vs := by
  rw [← volumes_filter r us, h.others, volumes_filter]

theorem Reordered.ops {vs us : List Verdict} (h : Reordered vs us) :
    us.filterMap op? = vs.filterMap op? := by
  have key : ∀ ws : List Verdict,
      (ws.filter (!·.directs .read)).filterMap op? = ws.filterMap op? := by
    intro ws
    rw [List.filterMap_filter]
    refine List.filterMap_congr fun v _ => ?_
    cases v with
    | direct d args => cases d <;> rfl
    | _ => rfl
  rw [← key us, h.others, key]

/-- A line reads an image exactly if it carries out a read. -/
theorem load?_cases (v : Verdict) (files : FileStore) :
    (v.directs .read = false ∧ v.load? files = none)
      ∨ ∃ read, v.directs .read = true ∧ v.load? files = some read := by
  cases v with
  | direct d args =>
      cases d with
      | read => exact Or.inr ⟨_, rfl, rfl⟩
      | _ => exact Or.inl ⟨rfl, rfl⟩
  | _ => exact Or.inl ⟨rfl, rfl⟩

theorem Reordered.lastRead {vs us : List Verdict} (h : Reordered vs us) (files : FileStore) :
    (us.filterMap (·.load? files)).getLast? = (vs.filterMap (·.load? files)).getLast? := by
  have key : ∀ ws : List Verdict, (ws.filterMap (·.load? files)).getLast? =
      (ws.filter (·.directs .read)).getLast?.bind (·.load? files) := by
    intro ws
    induction ws using List.reverseRecOn with
    | nil => rfl
    | append_singleton ws v ih =>
        rw [List.filterMap_append, List.filter_append]
        rcases load?_cases v files with ⟨hv, hl⟩ | ⟨read, hv, hl⟩
        · have hmap : [v].filterMap (·.load? files) = [] := by simp [hl]
          have hfilter : [v].filter (·.directs .read) = [] := by simp [hv]
          rw [hmap, hfilter, List.append_nil, List.append_nil, ih]
        · have hmap : [v].filterMap (·.load? files) = [read] := by simp [hl]
          have hfilter : [v].filter (·.directs .read) = [v] := by simp [hv]
          rw [hmap, hfilter, List.getLast?_concat, List.getLast?_concat]
          exact hl.symm
  rw [key, key, h.last]

end Verdict

namespace Session

/-! ## The run as a whole -/

/-- Nothing was written to the output after what it held, and no render is counted. -/
structure Unwritten (held : List Encoded) (run : Run σ) : Prop where
  output : run.output = ⟨held, none⟩
  renders : run.session.summary.renders = 0

/-- The run succeeded, and wrote once to the output: the one render that it counts. -/
structure Written (held : List Encoded) (encoded : Encoded) (run : Run σ) : Prop where
  result : run.result = .ok run.session.summary
  output : run.output = ⟨held ++ [encoded], none⟩
  renders : run.session.summary.renders = 1

/-- How a batch ends once its lines are carried out, from what its session then shows. -/
theorem run_finished {s : Session σ} {w : World} {script : Script} (held : List Encoded)
    (hb : s.watch = none) (h : (s.steps w 1 script.lines).result = .ok ())
    (hf : script.failure = none) (hn : s.summary.renders = 0) :
    let run := s.run w script ⟨held, none⟩
    match (s.steps w 1 script.lines).session.rendering with
    | none => run.result = .error .missingSource ∧ Unwritten held run
    | some (.error error) => run.result = .error error ∧ Unwritten held run
    | some (.ok none) => run.result = .ok run.session.summary ∧ Unwritten held run
    | some (.ok (some encoded)) => Written held encoded run := by
  have hu := steps_unrendered hb w 1 script.lines
  have hzero := hu.renders.trans hn
  obtain ⟨st, hfinal⟩ := renderFinal_eq (s.steps w 1 script.lines).session ⟨held, none⟩
  rw [run_rendered _ h hf (by rw [isWatch, hu.watch]; rfl), hfinal]
  rcases (s.steps w 1 script.lines).session.rendering with _ | (error | _ | encoded)
  · exact ⟨rfl, rfl, hzero⟩
  · exact ⟨rfl, rfl, hzero⟩
  · exact ⟨rfl, rfl, hzero⟩
  · exact ⟨rfl, rfl, congrArg (· + 1) hzero⟩

section Batch

variable {r : Registry} {engine : Engine σ} {st : σ} {source : Option Binding} {w : World}
variable {script other : Script}

/-- What a batch session shows after its lines is a function of their verdicts. -/
theorem steps_rendering
    (h : ((opened r engine st none source).steps w 1 script.lines).result = .ok ()) :
    ∃ bound, BoundBy source ((r.verdicts script).filterMap (·.load? w.files)) bound
      ∧ ((opened r engine st none source).steps w 1 script.lines).session.rendering =
        bound.map fun b => (b.render engine ((r.verdicts script).filterMap Verdict.op?) st).1 := by
  obtain ⟨hops, hbound⟩ := steps_recalls h
  have hu := steps_unrendered (opened_watch r engine st none source) w 1 script.lines
  refine ⟨_, hbound, ?_⟩
  rw [rendering, hops, hu.engine, hu.engineState]
  cases source <;> rfl

/-- Whether the lines of a batch can all be carried out, from their verdicts. -/
theorem script_ok_iff :
    ((opened r engine st none source).steps w 1 script.lines).result = .ok () ↔
      (∀ v ∈ r.verdicts script, ∀ error, v.load? w.files ≠ some (.error error))
        ∧ w.diagnostics.Takes (Verdict.volumes r Pipeline.empty (r.verdicts script)) := by
  have hphase : (opened r engine st none source).phase ≠ .terminated := by
    cases source <;> simp [opened, start, bind]
  have h := @steps_ok_iff σ script.lines _ w 1 (opened_watch r engine st none source) hphase
  cases source <;> exact h

/-- Moving reads does not decide whether the lines can be carried out. -/
theorem script_ok_reordered (h : Verdict.Reordered (r.verdicts script) (r.verdicts other)) :
    ((opened r engine st none source).steps w 1 other.lines).result = .ok () ↔
      ((opened r engine st none source).steps w 1 script.lines).result = .ok () := by
  rw [script_ok_iff, script_ok_iff, h.volumes]
  exact and_congr_left fun _ => forall_congr' fun v => imp_congr_left (h.mem_iff v)

/-- **Moving the reads of a script does not change what is written.** -/
theorem run_reordered (held : List Encoded) (hf : other.failure = script.failure)
    (h : Verdict.Reordered (r.verdicts script) (r.verdicts other)) :
    ((opened r engine st none source).run w other ⟨held, none⟩).output =
      ((opened r engine st none source).run w script ⟨held, none⟩).output := by
  have hiff := @script_ok_reordered σ r engine st source w script other h
  have hwatch := opened_watch r engine st none source
  cases hs : ((opened r engine st none source).steps w 1 script.lines).result with
  | error error =>
      cases ho : ((opened r engine st none source).steps w 1 other.lines).result with
      | error error' => rw [run_failed _ hs, run_failed _ ho]
      | ok _ => exact absurd (hs.symm.trans (hiff.mp ho)) (by simp)
  | ok _ =>
      have ho := hiff.mpr hs
      cases hc : script.failure with
      | some fault => rw [run_cut _ hs hc, run_cut _ ho (hf.trans hc)]
      | none =>
          obtain ⟨b, hb, hr⟩ := steps_rendering hs
          obtain ⟨b', hb', hr'⟩ := steps_rendering ho
          have he := run_finished held hwatch hs hc (opened_renders ..)
          have he' := run_finished held hwatch ho (hf.trans hc) (opened_renders ..)
          -- both show the same, so both end alike
          rw [hr', h.ops, hb.unique hb' (h.lastRead w.files), ← hr] at he'
          dsimp only at he he'
          generalize ((opened r engine st none source).steps w 1
            script.lines).session.rendering = shown at he he'
          rcases shown with _ | (error | _ | encoded)
          · exact he'.2.output.trans he.2.output.symm
          · exact he'.2.output.trans he.2.output.symm
          · exact he'.2.output.trans he.2.output.symm
          · exact he'.output.trans he.output.symm

end Batch

/--
**What a batch writes.** A batch is run from a fresh session, with or without a
source. If a line fails or the script breaks off, the run has that error and
nothing is written. Otherwise there is one render, of the last source that was
bound and the operations of all lines in order, and with it the run stands or
falls: without a source, with an error, or in a container that is only read,
nothing is written, and else the picture, once. Every run ends the session. And
scripts that differ in where their reads stand, but not in their last, write the
same.
-/
theorem batch_run (r : Registry) (engine : Engine σ) (st : σ) (source : Option Binding)
    (w : World) (script : Script) (held : List Encoded) :
    let s := opened r engine st none source
    let lines := s.steps w 1 script.lines
    let run := s.run w script ⟨held, none⟩
    let ops := (r.verdicts script).filterMap Verdict.op?
    run.session.phase = .terminated
      ∧ (∀ error, lines.result = .error error →
          run.result = .error error ∧ Unwritten held run)
      ∧ (∀ fault, lines.result = .ok () → script.failure = some fault →
          run.result = .error (.script fault) ∧ Unwritten held run)
      ∧ (lines.result = .ok () → script.failure = none →
          ∃ bound, BoundBy source ((r.verdicts script).filterMap (·.load? w.files)) bound
            ∧ (bound = none → run.result = .error .missingSource ∧ Unwritten held run)
            ∧ ∀ b, bound = some b →
              (∀ error, (Render.image engine b.image ops st).1 = .error error →
                run.result = .error error ∧ Unwritten held run)
              ∧ ∀ image, (Render.image engine b.image ops st).1 = .ok image →
                (∀ error, encode image b.container = .error error →
                  run.result = .error error ∧ Unwritten held run)
                ∧ (∀ name, b.container = .other name → image.bounds.isEmpty = false →
                  run.result = .ok run.session.summary ∧ Unwritten held run)
                ∧ (∀ encoded, encode image b.container = .ok (some encoded) →
                  Written held encoded run))
      ∧ ∀ other : Script, other.failure = script.failure →
          Verdict.Reordered (r.verdicts script) (r.verdicts other) →
          (s.run w other ⟨held, none⟩).output = run.output := by
  intro s lines run ops
  have hwatch : s.watch = none := opened_watch ..
  have hzero : lines.session.summary.renders = 0 :=
    (steps_unrendered hwatch w 1 script.lines).renders.trans (opened_renders ..)
  refine ⟨(run_alike s w script ⟨held, none⟩).phase, ?_, ?_, ?_,
    fun other hf h => run_reordered held hf h⟩
  · intro error he
    have hrun : run = _ := run_failed ⟨held, none⟩ he
    rw [hrun]
    exact ⟨rfl, rfl, hzero⟩
  · intro fault hok hf
    have hrun : run = _ := run_cut ⟨held, none⟩ hok hf
    rw [hrun]
    exact ⟨rfl, rfl, hzero⟩
  · intro hok hf
    obtain ⟨bound, hbound, hr⟩ := steps_rendering hok
    have hend := run_finished held hwatch hok hf (opened_renders ..)
    rw [hr] at hend
    refine ⟨bound, hbound, ?_, ?_⟩
    · rintro rfl
      exact hend
    · rintro b rfl
      rw [Option.map_some, render_fst] at hend
      refine ⟨fun error he => ?_, fun image hi => ⟨fun error he => ?_, fun name hc hn => ?_,
        fun encoded he => ?_⟩⟩
      · rw [he] at hend; exact hend
      · rw [hi] at hend; dsimp only at hend; rw [he] at hend; exact hend
      · rw [hi] at hend; dsimp only at hend
        rw [show encode image b.container = .ok none by rw [encode, hn, hc]; rfl] at hend
        exact hend
      · rw [hi] at hend; dsimp only at hend; rw [he] at hend; exact hend

/-- One picture is written, the same if the read stands first: `r dot.png`, `neg` and the rest. -/
theorem batch_run_sample :
    let s := opened Registry.sample Engine.plain () none none
    let run := s.run World.sample Script.sample ⟨[], none⟩
    (∃ encoded, Written [] encoded run)
      ∧ (s.run World.sample ⟨[114, 32, 100, 111, 116, 46, 112, 110, 103, 10, 110, 101, 103, 10, 120,
          10, 114, 111, 116, 97, 116, 101, 32, 48], none⟩ ⟨[], none⟩).output = run.output := by
  intro s run
  obtain ⟨_, _, _, hend, hmove⟩ :=
    batch_run Registry.sample Engine.plain () none World.sample Script.sample []
  obtain ⟨bound, hbound, _, hsome⟩ := hend rfl rfl
  obtain ⟨b, hb, rfl⟩ := hbound
  obtain rfl : Binding.sample = b := Except.ok.inj hb
  refine ⟨⟨_, ((hsome _ rfl).2 _ rfl).2.2 _ rfl⟩, ?_⟩
  exact hmove _ rfl ⟨rfl, List.Perm.refl _, rfl⟩

end Session

end RasterScript
