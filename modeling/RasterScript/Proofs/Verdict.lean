import RasterScript.Proofs.Diagnostics

/-!
# What a line asks for

`processLine` decides what to do with a line while it is already doing it. This
file takes the two apart. `Registry.judge` reads a line and says what it asks
for — its **verdict** — without looking at any session; `Session.after` says
what a session becomes when a verdict is carried out; and `Session.answer` says
what is reported and whether it can be.

`processLine_eq` puts them together again and is the only place where the code
of a line is taken apart. Everything about single lines is read off from there.
-/

namespace RasterScript

/-- What a line asks for. -/
inductive Verdict where
  /-- Nothing: a comment or a blank line. -/
  | skip
  /-- A command that is not in the table. -/
  | unknown (name : String)
  /-- A known command whose arguments are refused. -/
  | refuse (name usage : String) (reason : Reason)
  /-- One more operation. -/
  | append (op : Operation)
  /-- An accepted command that comes to no operation. -/
  | ignore
  | direct (directive : Directive) (args : List String)

/-- The verdict on a line. It depends on the command table and the text alone. -/
def Registry.judge (r : Registry) (text : String) : Verdict :=
  match Line.ofText text with
  | .comment | .blank => .skip
  | .command name args =>
    match r.resolve? name with
    | none => .unknown name
    | some c =>
      match c.check args, c.action with
      | .error reason, _ => .refuse name c.usage reason
      | .ok (some op), _ => .append op
      | .ok none, .transform _ => .ignore
      | .ok none, .directive directive => .direct directive args

/-- The verdicts on the lines of a script. -/
def Registry.verdicts (r : Registry) (script : Script) : List Verdict :=
  script.lines.map fun bytes => r.judge (Script.lineText bytes)

/-- A small table: an operation, a command that may come to none, and two directives. -/
def Registry.sample : Registry := ⟨[
  ⟨"invert", ["neg"], 0, "", .transform (Arguments.plain .invert)⟩,
  ⟨"read", ["r"], 1, "", .directive .read⟩,
  ⟨"reset", [], 0, "", .directive .reset⟩,
  ⟨"rotate", [], 1, "", .transform Arguments.angle⟩]⟩

/-- The lines `neg`, `r dot.png`, `x` and `rotate 0`, the last of them without an end. -/
def Script.sample : Script :=
  ⟨[110, 101, 103, 10, 114, 32, 100, 111, 116, 46, 112, 110, 103, 10, 120, 10, 114, 111, 116, 97,
    116, 101, 32, 48], none⟩

example : Registry.sample.verdicts Script.sample =
    [.append .invert, .direct .read ["dot.png"], .unknown "x", .ignore] := rfl

/-- A single white pixel. -/
def Binding.sample : Binding :=
  ⟨Image.generate ⟨1, 1, by decide, by decide⟩ fun _ _ => Pixel.white, .png, "dot.png"⟩

/-- A directory with an image of that pixel. -/
def World.sample : World :=
  ⟨⟨[], [(["dot.png"], .file (.picture ⟨.png, Binding.sample.image⟩))]⟩, .sound ""⟩

namespace Verdict

/-- What a line with this verdict did, if nothing went wrong. -/
def outcome : Verdict → Outcome
  | skip => .skipped
  | unknown _ => .unknown
  | refuse _ _ _ => .rejected
  | append _ | ignore => .accepted
  | direct .read _ => .bound
  | direct .reset _ => .reset
  | direct .help _ => .help
  | direct .show _ => .shown

/-- Whether the verdict is to carry out a directive. -/
def directs (v : Verdict) (directive : Directive) : Bool :=
  match v with
  | direct d _ => d = directive
  | _ => false

/-- The counters after a line. -/
def count (v : Verdict) (line : Nat) (c : Summary) : Summary :=
  match v with
  | skip => { c with lines := line }
  | unknown _ => { c with lines := line, unknown := c.unknown + 1 }
  | refuse _ _ _ => { c with lines := line, rejected := c.rejected + 1 }
  | append _ | ignore | direct _ _ => { c with lines := line, accepted := c.accepted + 1 }

/-- The pipeline after a line; only where a file is watched can it be discarded. -/
def extend (v : Verdict) (watching : Bool) (p : Pipeline) : Pipeline :=
  match v with
  | append op => p.append op
  | direct .reset _ => if watching then Pipeline.empty else p
  | _ => p

/-- The fault of a line that cannot say what it has to say. -/
def fault : Verdict → OtherFault
  | direct .help _ => .writeHelp
  | direct .show _ => .writeListing
  | _ => .writeDiagnostic

/-- The image that a line reads, or why it cannot be read. Other lines read none. -/
def load? (v : Verdict) (files : FileStore) : Option (Except Error Binding) :=
  match v with
  | direct .read args => some (Session.load files (args.headD ""))
  | _ => none

end Verdict

namespace Session

variable {σ : Type}

/-- The session after a line with a verdict. A source that cannot be read leaves the old one. -/
def after (s : Session σ) (files : FileStore) (line : Nat) (v : Verdict) : Session σ :=
  let s := { s with summary := v.count line s.summary, pipeline := v.extend s.isWatch s.pipeline }
  match v.load? files with
  | some (.ok binding) => s.bind binding
  | _ => s

/-- What a line with a verdict says on the diagnostics, line by line. -/
def notices (s : Session σ) (line : Nat) : Verdict → List String
  | .unknown name => [(ScriptError.unknownCommand line name).text]
  | .refuse name usage reason => [(ScriptError.invalid line name usage reason).text]
  | .direct .help _ => s.registry.rows
  | .direct .show _ => s.pipeline.listing
  | _ => []

/-- How a line with a verdict ends, and the diagnostics after it. -/
def answer (s : Session σ) (w : World) (line : Nat) (v : Verdict) :
    Except Error Outcome × Diagnostics :=
  match v.load? w.files with
  | some (.error error) => (.error error, w.diagnostics)
  | _ =>
    let (all, diagnostics) := w.diagnostics.writeAll (s.notices line v)
    (if all then .ok v.outcome else .error (.other v.fault), diagnostics)

/-! ## One line, taken apart once -/

/-- A directive is carried out as its verdict says, once its line has been counted. -/
theorem direct_eq (s : Session σ) (w : World) (line : Nat) (d : Directive) (args : List String) :
    { s with summary := (Verdict.direct d args).count line s.summary }.direct w d args =
      ⟨(s.answer w line (.direct d args)).1, s.after w.files line (.direct d args),
        { w with diagnostics := (s.answer w line (.direct d args)).2 }⟩ := by
  cases d with
  | read =>
      dsimp only [direct, answer, after, Verdict.load?]
      cases load w.files (args.headD "") <;> rfl
  | reset =>
      dsimp only [direct, answer, after, Verdict.load?, isWatch]
      cases s.watch <;> rfl
  | help => rfl
  | «show» => rfl

/--
**A line is judged, and the verdict carried out.** The session changes as the
verdict says even when the line fails; the files do not change at all.
-/
theorem processLine_eq {s : Session σ} (h : s.phase ≠ .terminated) (w : World) (line : Nat)
    (text : String) :
    s.processLine w line text =
      ⟨(s.answer w line (s.registry.judge text)).1,
        s.after w.files line (s.registry.judge text),
        { w with diagnostics := (s.answer w line (s.registry.judge text)).2 }⟩ := by
  unfold processLine Registry.judge
  rw [if_neg h]
  cases Line.ofText text with
  | comment => rfl
  | blank => rfl
  | command name args =>
      dsimp only [obey]
      cases s.registry.resolve? name with
      | none => rfl
      | some c =>
          dsimp only [Command.validate]
          cases c.check args with
          | error reason => rfl
          | ok made =>
              cases made with
              | some op => rfl
              | none =>
                  cases c.action with
                  | transform reader => rfl
                  | directive d => exact direct_eq s w line d args

/-- A session that is over takes no line. -/
theorem processLine_over {s : Session σ} (h : s.phase = .terminated) (w : World) (line : Nat)
    (text : String) :
    s.processLine w line text = ⟨.error (.other .sessionOver), s, w⟩ := by
  unfold processLine; rw [if_pos h]

/-- A line that succeeds is in a session that goes on, and does what its verdict says. -/
theorem processLine_ok {s : Session σ} {w : World} {line : Nat} {text : String}
    {outcome : Outcome} (h : (s.processLine w line text).result = .ok outcome) :
    s.phase ≠ .terminated ∧ (s.answer w line (s.registry.judge text)).1 = .ok outcome := by
  by_cases ho : s.phase = .terminated
  · rw [processLine_over ho] at h; exact absurd h (by simp)
  · rw [processLine_eq ho] at h; exact ⟨ho, h⟩

/-- A line whose image can be read, if it reads one, only has its notices to fail at. -/
theorem answer_readable {s : Session σ} {w : World} {line : Nat} {v : Verdict}
    (h : ∀ error, v.load? w.files ≠ some (.error error)) :
    s.answer w line v =
      let (all, diagnostics) := w.diagnostics.writeAll (s.notices line v)
      (if all then .ok v.outcome else .error (.other v.fault), diagnostics) := by
  unfold answer
  rcases hl : v.load? w.files with _ | (error | binding)
  · rfl
  · exact absurd hl (h error)
  · rfl

/-- **Two ways to go about a line:** its image cannot be read, or it is down to its notices. -/
theorem answer_cases (s : Session σ) (w : World) (line : Nat) (v : Verdict) :
    (∃ error, v.load? w.files = some (.error error)
        ∧ s.answer w line v = (.error error, w.diagnostics))
      ∨ (∀ error, v.load? w.files ≠ some (.error error))
        ∧ s.answer w line v =
          let (all, diagnostics) := w.diagnostics.writeAll (s.notices line v)
          (if all then .ok v.outcome else .error (.other v.fault), diagnostics) := by
  by_cases hfails : ∃ error, v.load? w.files = some (.error error)
  · obtain ⟨error, hload⟩ := hfails
    refine Or.inl ⟨error, hload, ?_⟩
    rw [answer, hload]
  · have hread : ∀ error, v.load? w.files ≠ some (.error error) := not_exists.mp hfails
    exact Or.inr ⟨hread, answer_readable hread⟩

/-- A line that succeeds has the outcome of its verdict, and has read what it asked for. -/
theorem answer_ok {s : Session σ} {w : World} {line : Nat} {v : Verdict} {outcome : Outcome}
    (h : (s.answer w line v).1 = .ok outcome) :
    outcome = v.outcome ∧ ∀ error, v.load? w.files ≠ some (.error error) := by
  rcases s.answer_cases w line v with ⟨error, _, hanswer⟩ | ⟨hread, hanswer⟩
  · rw [hanswer] at h
    exact absurd h (by simp)
  · refine ⟨?_, hread⟩
    rw [hanswer] at h
    dsimp only at h
    split at h
    · exact (Except.ok.inj h).symm
    · exact absurd h (by simp)

/-! ## What a verdict leaves alone -/

section Frame

variable (s : Session σ) (files : FileStore) (line : Nat) (v : Verdict)

/-- The session after a verdict, field by field. -/
theorem after_eq :
    s.after files line v =
      { s with
        summary := v.count line s.summary
        pipeline := v.extend s.isWatch s.pipeline
        binding := (s.after files line v).binding
        phase := (s.after files line v).phase } := by
  unfold after
  dsimp only
  split <;> rfl

@[simp] theorem after_registry : (s.after files line v).registry = s.registry := by
  rw [after_eq]

@[simp] theorem after_engine : (s.after files line v).engine = s.engine := by rw [after_eq]

@[simp] theorem after_engineState : (s.after files line v).engineState = s.engineState := by
  rw [after_eq]

@[simp] theorem after_watch : (s.after files line v).watch = s.watch := by rw [after_eq]

@[simp] theorem after_summary :
    (s.after files line v).summary = v.count line s.summary := by rw [after_eq]

@[simp] theorem after_pipeline :
    (s.after files line v).pipeline = v.extend s.isWatch s.pipeline := by rw [after_eq]

/-- Only an image that could be read becomes the source. -/
theorem after_binding :
    (s.after files line v).binding =
      match v.load? files with
      | some (.ok binding) => some binding
      | _ => s.binding := by
  unfold after
  dsimp only
  split <;> rfl

theorem after_phase :
    (s.after files line v).phase =
      match v.load? files with
      | some (.ok _) => .active
      | _ => s.phase := by
  unfold after
  dsimp only
  split <;> rfl

end Frame

/-! ## What a line leaves alone -/

/-- What no line changes by itself: renders come after it, and files are written by renders. -/
structure Untouched (s : Session σ) (w : World) (done : Step σ Outcome) : Prop where
  registry : done.session.registry = s.registry
  engine : done.session.engine = s.engine
  engineState : done.session.engineState = s.engineState
  watch : done.session.watch = s.watch
  renders : done.session.summary.renders = s.summary.renders
  files : done.world.files = w.files

theorem processLine_untouched (s : Session σ) (w : World) (line : Nat) (text : String) :
    Untouched s w (s.processLine w line text) := by
  by_cases h : s.phase = .terminated
  · rw [processLine_over h]
    exact ⟨rfl, rfl, rfl, rfl, rfl, rfl⟩
  · rw [processLine_eq h]
    have hrenders : (s.after w.files line (s.registry.judge text)).summary.renders =
        s.summary.renders := by
      rw [after_summary]; cases s.registry.judge text <;> rfl
    exact ⟨after_registry .., after_engine .., after_engineState .., after_watch .., hrenders, rfl⟩

end Session

end RasterScript
