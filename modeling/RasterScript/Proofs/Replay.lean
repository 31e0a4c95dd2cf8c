import RasterScript.Proofs.CommandTable
import RasterScript.Proofs.Ending
import RasterScript.Proofs.History

/-!
# A listed pipeline is a script for itself

Take any session over the standard commands, at any point of its life: after
lines and whole scripts, in whatever files, whether they succeeded or not. The
operations that it lists, written one per line, are a script that gives a fresh
session the same pipeline, and that no line of is rejected or unknown
(`texts_rebuild_pipeline`).

A pipeline only ever grows by an operation that some line makes. That is the
invariant (`Reachable.keeps`), and `CommandTable` shows that operations which
lines make are printed as lines that make them.
-/

namespace RasterScript

namespace Session

variable {σ : Type} {r : Registry}

/-! ## Sessions that can come about -/

/-- A session as it may be found at some time, whatever has been asked of it. -/
inductive Reachable (r : Registry) : Session σ → Prop where
  | opened (engine : Engine σ) (engineState : σ) (watch : Option String)
      (source : Option Binding) : Reachable r (opened r engine engineState watch source)
  | preload {s : Session σ} (w : World) (path : String) :
      Reachable r s → Reachable r (s.preload w path).session
  | processLine {s : Session σ} (w : World) (line : Nat) (text : String) :
      Reachable r s → Reachable r (s.processLine w line text).session
  | step {s : Session σ} (w : World) (line : Nat) (text : String) :
      Reachable r s → Reachable r (s.step w line text).session
  | run {s : Session σ} (w : World) (script : Script) (out : Output) :
      Reachable r s → Reachable r (s.run w script out).session

section Invariant

variable {P : Pipeline → Prop}

/-- What is kept by the operations that lines make is kept by a line. -/
theorem processLine_keeps (hempty : P Pipeline.empty)
    (happend : ∀ p text op, r.judge text = .append op → P p → P (p.append op))
    {s : Session σ} (h : s.registry = r ∧ P s.pipeline) (w : World) (line : Nat) (text : String) :
    (s.processLine w line text).session.registry = r
      ∧ P (s.processLine w line text).session.pipeline := by
  by_cases hover : s.phase = .terminated
  · rw [processLine_over hover]
    exact h
  · rw [processLine_eq hover]
    refine ⟨(after_registry ..).trans h.1, ?_⟩
    rw [after_pipeline, h.1]
    cases hv : r.judge text with
    | append op => exact happend _ text op hv h.2
    | direct directive args =>
        -- of the directives only a reset changes the pipeline
        cases directive with
        | reset =>
            rw [Verdict.extend]
            split
            · exact hempty
            · exact h.2
        | _ => exact h.2
    | _ => exact h.2

theorem Alike.keeps {s t : Session σ} (halike : s.Alike t) (h : s.registry = r ∧ P s.pipeline) :
    t.registry = r ∧ P t.pipeline := by
  rw [halike.registry, halike.pipeline]
  exact h

/-- What holds of no operations, and is kept by those that lines make, holds at any time. -/
theorem Reachable.keeps {s : Session σ} (h : Reachable r s) (hempty : P Pipeline.empty)
    (happend : ∀ p text op, r.judge text = .append op → P p → P (p.append op)) :
    s.registry = r ∧ P s.pipeline := by
  have hstep : ∀ (s : Session σ) (w : World) (line : Nat) (text : String),
      s.registry = r ∧ P s.pipeline →
      (s.step w line text).session.registry = r ∧ P (s.step w line text).session.pipeline :=
    fun s w line text hs =>
      (step_alike s w line text).1.keeps (processLine_keeps hempty happend hs w line text)
  induction h with
  | opened engine engineState watch source =>
      cases source <;> exact ⟨rfl, hempty⟩
  | preload w path _ ih =>
      unfold Session.preload
      split <;> exact ih
  | processLine w line text _ ih => exact processLine_keeps hempty happend ih w line text
  | step w line text _ ih => exact hstep _ w line text ih
  | @run s w script out _ ih =>
      have hsteps : (s.steps w 1 script.lines).session.registry = r
          ∧ P (s.steps w 1 script.lines).session.pipeline :=
        steps_keep (P := fun t _ => t.registry = r ∧ P t.pipeline) hstep ih
      exact (run_alike s w script out).keeps hsteps

end Invariant

/-- The operations of a session over the standard table are printed as lines that make them. -/
theorem Reachable.judge_text {s : Session σ} (h : Reachable .standard s) :
    ∀ op ∈ s.pipeline.ops, Registry.standard.judge op.text = .append op := by
  refine (h.keeps (P := fun p => ∀ op ∈ p.ops, Registry.standard.judge op.text = .append op)
    (by simp [Pipeline.empty]) ?_).2
  intro p text op hjudge hp made hmade
  obtain hmade | hmade := List.mem_append.mp hmade
  · exact hp made hmade
  · rw [List.mem_singleton.mp hmade]
    exact Registry.judge_text_of_judge hjudge

/-! ## Lines that append -/

/-- The session with one more operation, from an accepted line. -/
def accept (s : Session σ) (line : Nat) (op : Operation) : Session σ :=
  { s with
    pipeline := s.pipeline.append op
    summary := { s.summary with lines := line, accepted := s.summary.accepted + 1 } }

theorem processLine_append {s : Session σ} {text : String} {op : Operation}
    (hphase : s.phase ≠ .terminated) (hjudge : s.registry.judge text = .append op) (w : World)
    (line : Nat) : s.processLine w line text = ⟨.ok .accepted, s.accept line op, w⟩ := by
  rw [processLine_eq hphase, hjudge]
  rfl

theorem Reachable.accept {s : Session σ} (h : Reachable r s) (w : World) (line : Nat)
    {text : String} {op : Operation} (hregistry : s.registry = r) (hphase : s.phase ≠ .terminated)
    (hjudge : r.judge text = .append op) : Reachable r (s.accept line op) := by
  have hnext := h.processLine w line text
  rwa [processLine_append hphase (by rwa [hregistry])] at hnext

/-- As long as nothing is written, a line that appends is carried out. -/
theorem step_append {s : Session σ} {text : String} {op : Operation}
    (hphase : s.phase ≠ .terminated) (hjudge : s.registry.judge text = .append op)
    (hsilent : s.watch = none ∨ s.binding = none) (w : World) (line : Nat) :
    s.step w line text = ⟨.ok .accepted, s.accept line op, w⟩ := by
  have hline := processLine_append hphase hjudge w line
  obtain hwatch | hbinding := hsilent
  · rw [step_of_batch hwatch, hline]
  · have hunbound : (s.accept line op).binding = none := hbinding
    unfold step
    rw [hline]
    dsimp only
    cases (s.accept line op).watch with
    | none => rfl
    | some path => simp [renderWatch, hunbound, Outcome.isProcessed]

/-- What lines with some operations, all accepted, have done to a session. -/
structure Replayed (s : Session σ) (ops : List Operation) (t : Session σ) : Prop where
  pipeline : t.pipeline.ops = s.pipeline.ops ++ ops
  lines : t.summary.lines = s.summary.lines + ops.length
  accepted : t.summary.accepted = s.summary.accepted + ops.length
  rejected : t.summary.rejected = s.summary.rejected
  unknown : t.summary.unknown = s.summary.unknown

theorem Replayed.cons {s t u : Session σ} {op : Operation} {ops : List Operation} {line : Nat}
    (hline : line = s.summary.lines + 1) (h : (s.accept line op).Alike t)
    (k : t.Replayed ops u) : s.Replayed (op :: ops) u := by
  have hpipeline : t.pipeline.ops = s.pipeline.ops ++ [op] := congrArg Pipeline.ops h.pipeline
  have hlines : t.summary.lines = line := h.lines
  have haccepted : t.summary.accepted = s.summary.accepted + 1 := h.accepted
  refine ⟨?_, ?_, ?_, k.rejected.trans h.rejected, k.unknown.trans h.unknown⟩
  · rw [k.pipeline, hpipeline, List.append_assoc]
    rfl
  · rw [k.lines, hlines, hline, List.length_cons]
    omega
  · rw [k.accepted, haccepted, List.length_cons]
    omega

/-- The lines of some operations are all accepted, unless a file cannot be written in between. -/
theorem steps_replayed {ops : List Operation} :
    ∀ {s : Session σ} {w : World} {lines : List (List UInt8)}, s.phase ≠ .terminated →
      (∀ op ∈ ops, s.registry.judge op.text = .append op) →
      lines.map Script.lineText = ops.map Operation.text →
      let done := s.steps w (s.summary.lines + 1) lines
      (s.watch = none ∨ s.binding = none → done.result = .ok ())
        ∧ (done.result = .ok () → s.Replayed ops done.session) := by
  induction ops with
  | nil =>
      intro s w lines _ _ hlines
      rw [List.map_eq_nil_iff.mp hlines]
      exact ⟨fun _ => rfl, fun _ => ⟨(List.append_nil _).symm, rfl, rfl, rfl, rfl⟩⟩
  | cons op ops ih =>
      intro s w lines hphase hjudge hlines
      obtain ⟨bytes, rest, rfl, htext, hrest⟩ := List.map_eq_cons_iff.mp hlines
      have hop := hjudge op (by simp)
      have hops : ∀ made ∈ ops, s.registry.judge made.text = .append made :=
        fun made hmade => hjudge made (by simp [hmade])
      refine ⟨fun hsilent => ?_, fun hok => ?_⟩
      · have hstep := step_append hphase hop hsilent w (s.summary.lines + 1)
        rw [steps, htext, hstep]
        exact (ih (s := s.accept (s.summary.lines + 1) op) hphase hops hrest).1 hsilent
      · -- a render after the line may have failed, but then the steps ended with it
        obtain ⟨-, hsteps⟩ := steps_ok_cons hok
        have halike := (step_alike s w (s.summary.lines + 1) op.text).1
        rw [processLine_append hphase hop] at halike
        rw [htext] at hsteps
        generalize s.step w (s.summary.lines + 1) op.text = done at halike hsteps
        have hlines : done.session.summary.lines = s.summary.lines + 1 := halike.lines
        rw [hsteps] at hok ⊢
        rw [← hlines] at hok ⊢
        have hreplayed := (ih (s := done.session) (by rw [halike.phase]; exact hphase)
          (by rw [halike.registry]; exact hops) hrest).2 hok
        exact hreplayed.cons rfl halike

/-! ## The whole script -/

/--
**What a session lists is a script for it.** Let a session over the standard
commands have come about in any way, and let its operations be written one per
line, each as it is listed.

* These texts are the lines of that script, and any session over the standard
  commands that goes on accepts each of them and appends just that operation.
* A fresh session that carries the script out, in either mode and with or without
  a source, ends with the same pipeline, having accepted every line; only where a
  source is rendered to a watched file in between can it fail.
* Neither depends on the session: whatever operation a standard command makes of
  any arguments is printed as a line that makes it.
-/
theorem texts_rebuild_pipeline {τ : Type} {s : Session σ} (h : Reachable .standard s)
    (engine : Engine τ) (engineState : τ) (watch : Option String) (source : Option Binding)
    (w : World) :
    let script := Script.ofTexts (s.pipeline.ops.map Operation.text)
    let fresh := opened .standard engine engineState watch source
    script.lines.map Script.lineText = s.pipeline.ops.map Operation.text
      ∧ (∀ op ∈ s.pipeline.ops, ∀ (t : Session τ) (v : World) (line : Nat),
          t.registry = .standard → t.phase ≠ .terminated →
          t.processLine v line op.text =
            ⟨.ok .accepted,
              { t with
                pipeline := t.pipeline.append op
                summary := { t.summary with lines := line, accepted := t.summary.accepted + 1 } },
              v⟩)
      ∧ (watch = none ∨ source = none → (fresh.steps w 1 script.lines).result = .ok ())
      ∧ ((fresh.steps w 1 script.lines).result = .ok () →
          ∀ out, (fresh.run w script out).session.pipeline = s.pipeline
            ∧ (fresh.run w script out).session.summary.lines = s.pipeline.length
            ∧ (fresh.run w script out).session.summary.accepted = s.pipeline.length
            ∧ (fresh.run w script out).session.summary.rejected = 0
            ∧ (fresh.run w script out).session.summary.unknown = 0)
      ∧ (∀ c ∈ Command.standard, ∀ written args line op,
          c.validate written args line = .ok (some op) →
          Registry.standard.judge op.text = .append op) := by
  intro script fresh
  have hops := h.judge_text
  have hlines : script.lines.map Script.lineText = s.pipeline.ops.map Operation.text := by
    refine Script.lines_ofTexts fun text htext => ?_
    obtain ⟨op, -, rfl⟩ := List.mem_map.mp htext
    exact op.isPlain_text
  have hfresh : fresh.registry = .standard ∧ fresh.phase ≠ .terminated
      ∧ fresh.watch = watch ∧ fresh.binding = source ∧ fresh.pipeline = Pipeline.empty
      ∧ fresh.summary = ⟨0, 0, 0, 0, 0⟩ := by
    cases source <;> exact ⟨rfl, by simp [fresh, opened, start, bind], rfl, rfl, rfl, rfl⟩
  obtain ⟨hregistry, hphase, hwatch, hbinding, hpipeline, hsummary⟩ := hfresh
  have hsteps := steps_replayed (s := fresh) (w := w) hphase (by rwa [hregistry]) hlines
  rw [hwatch, hbinding, hsummary] at hsteps
  refine ⟨hlines, ?_, hsteps.1, fun hok out => ?_, ?_⟩
  · intro op hop t v line hregistry hphase
    exact processLine_append hphase (by rw [hregistry]; exact hops op hop) v line
  · have halike := run_alike fresh w script out
    obtain ⟨hops, hcount, haccepted, hrejected, hunknown⟩ := hsteps.2 hok
    rw [hpipeline] at hops
    rw [hsummary] at hcount haccepted hrejected hunknown
    refine ⟨halike.pipeline.trans (congrArg Pipeline.mk hops), halike.lines.trans ?_,
      halike.accepted.trans ?_, halike.rejected.trans hrejected, halike.unknown.trans hunknown⟩
    · exact hcount.trans (Nat.zero_add _)
    · exact haccepted.trans (Nat.zero_add _)
  · intro c hc written args line op hvalidate
    unfold Command.validate at hvalidate
    split at hvalidate
    next made hcheck =>
      cases hvalidate
      exact Registry.judge_text hc hcheck
    next => cases hvalidate

/-- A quarter turn and a blur of no particular size are listed, and made again. -/
theorem texts_rebuild_pipeline_turn :
    ∃ s : Session Unit, Reachable .standard s
      ∧ s.pipeline.ops.map Operation.text = ["rotate 90", "blur NaN"]
      ∧ ((opened .standard Engine.plain () none none).run World.sample (Script.ofTexts
          ["rotate 90", "blur NaN"]) ⟨[], none⟩).session.pipeline = s.pipeline := by
  have hturn : Registry.standard.judge Operation.rotate90.text = .append .rotate90 := by
    have hnumber : Arguments.number ["90"] 0 = .ok 90 :=
      congrArg Except.ok (show Single.ofText "90" = 90 by decide +kernel)
    have hangle : Arguments.angle ["90"] = .ok (some .rotate90) := by
      rw [Arguments.angle, hnumber]
      simp only [Bind.bind, Except.bind]
      rw [if_pos (by decide +kernel), if_pos (by decide +kernel)]
      rfl
    have hcheck : (Command.transform "rotate" ["rot"] 1 "degrees counter-clockwise"
        Arguments.angle).check ["90"] = .ok (some .rotate90) := hangle
    exact Registry.judge_text (by simp [Command.standard]) hcheck
  have hblur : Registry.standard.judge (Operation.blur (0 / 0)).text = .append (.blur (0 / 0)) := by
    have hcheck : (Command.transform "blur" [] 1 "value > 0" (Arguments.one .blur)).check
        [Single.text (0 / 0)] = .ok (some (.blur (0 / 0))) :=
      congrArg (fun x => Except.ok (some (Operation.blur x))) (Single.ofText_text (0 / 0))
    exact Registry.judge_text (by simp [Command.standard]) hcheck
  have hawaits : Phase.awaitingBinding ≠ .terminated := by decide
  have hfresh := Reachable.opened (r := .standard) Engine.plain () none none
  have hreach := (hfresh.accept World.sample 1 rfl hawaits hturn).accept World.sample 2 rfl hawaits
    hblur
  obtain ⟨s, hreach, hops⟩ : ∃ s : Session Unit, Reachable .standard s
      ∧ s.pipeline.ops = [.rotate90, .blur (0 / 0)] := ⟨_, hreach, rfl⟩
  have htexts : s.pipeline.ops.map Operation.text = ["rotate 90", "blur NaN"] := by
    rw [hops]
    decide +kernel
  obtain ⟨-, -, hok, hrebuilt, -⟩ := texts_rebuild_pipeline hreach Engine.plain () none none
    World.sample
  rw [← htexts]
  exact ⟨s, hreach, rfl, (hrebuilt (hok (.inl rfl)) ⟨[], none⟩).1⟩

end Session

end RasterScript
