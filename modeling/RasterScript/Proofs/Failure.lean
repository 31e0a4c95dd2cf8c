import RasterScript.Proofs.Batch
import RasterScript.Proofs.LineText
import RasterScript.Proofs.WatchFile

/-!
# What a failure leaves

Lines fail for few reasons (`answer_error`): the session is over, an image cannot
be read, or the diagnostics do not take something that is to be said, perhaps after
they took some lines of it. None of the lines that can fail in this way changes the
pipeline, so a line that fails has been counted and has done nothing else
(`failed_line_keeps`). A step may also fail in the render after its line, and then
the line stands.

A line on its own never ends a session, not even when it fails: that is what a
run does with it (`failing_call_ends_iff`). And a run is over at the first line
that fails, so that nothing after that line is ever looked at
(`first_failure_ends_run`).
-/

namespace RasterScript

variable {σ : Type}

namespace Session

/-! ## A line that fails -/

section Verdicts

variable {s : Session σ} {w : World} {line : Nat} {v : Verdict}

/-- **Why a line fails:** its image cannot be read, or what it has to say cannot be said. -/
theorem answer_error {error : Error} (h : (s.answer w line v).1 = .error error) :
    v.load? w.files = some (.error error)
      ∨ ¬ w.diagnostics.Takes (s.notices line v).length ∧ error = .other v.fault := by
  rcases s.answer_cases w line v with ⟨reason, hload, hanswer⟩ | ⟨_, hanswer⟩
  · -- an image that cannot be read goes before anything that there is to say
    rw [hanswer] at h
    rw [hload, Except.error.inj h]
    exact Or.inl rfl
  · rw [hanswer] at h
    rw [← Diagnostics.writeAll_iff]
    dsimp only at h
    split at h
    · exact absurd h (by simp)
    · rename_i hbroken
      exact Or.inr ⟨hbroken, (Except.error.inj h).symm⟩

theorem extend_of_load? {files : FileStore} {read : Except Error Binding}
    (h : v.load? files = some read) (watching : Bool) (p : Pipeline) :
    v.extend watching p = p := by
  cases v with
  | direct d args =>
      cases d with
      | read => rfl
      | _ => exact absurd h (by simp [Verdict.load?])
  | _ => exact absurd h (by simp [Verdict.load?])

/-- A line that has something to say reads no image and leaves the pipeline alone. -/
theorem extend_of_notices (h : s.notices line v ≠ []) (files : FileStore) (watching : Bool)
    (p : Pipeline) : v.load? files = none ∧ v.extend watching p = p := by
  cases v with
  | unknown name => exact ⟨rfl, rfl⟩
  | refuse name usage reason => exact ⟨rfl, rfl⟩
  | direct d args =>
      cases d with
      | help => exact ⟨rfl, rfl⟩
      | «show» => exact ⟨rfl, rfl⟩
      | _ => exact absurd rfl h
  | _ => exact absurd rfl h

/-- **A line that fails has been counted, and that is all.** -/
theorem after_failed {error : Error} (h : (s.answer w line v).1 = .error error) :
    s.after w.files line v = { s with summary := v.count line s.summary } := by
  unfold after
  -- neither of the two reasons is one of a line that appends or resets
  rcases answer_error h with hl | ⟨htakes, _⟩
  · rw [hl, extend_of_load? hl]
  · have hsome : s.notices line v ≠ [] := by
      intro hnone
      rw [hnone] at htakes
      exact htakes (Diagnostics.takes_zero _)
    obtain ⟨hl, hp⟩ := extend_of_notices hsome w.files s.isWatch s.pipeline
    rw [hl, hp]

end Verdicts

/-- What a line makes of a session does not depend on the diagnostics, nor on what they took. -/
theorem processLine_session (s : Session σ) (w : World) (d : Diagnostics) (line : Nat)
    (text : String) :
    (s.processLine { w with diagnostics := d } line text).session =
      (s.processLine w line text).session := by
  by_cases h : s.phase = .terminated
  · rw [processLine_over h, processLine_over h]
  · rw [processLine_eq h, processLine_eq h]

theorem processLine_failed {s : Session σ} {w : World} {line : Nat} {text : String} {error : Error}
    (h : (s.processLine w line text).result = .error error) :
    (s.processLine w line text).session =
      { s with summary := (s.processLine w line text).session.summary } := by
  by_cases ho : s.phase = .terminated
  · rw [processLine_over ho]
  · rw [processLine_eq ho] at h ⊢
    dsimp only at h ⊢
    rw [after_failed h]

theorem preload_failed {s : Session σ} {w : World} {path : String} {error : Error}
    (h : (s.preload w path).result = .error error) :
    (s.preload w path).session = s ∧ (s.preload w path).world = w := by
  unfold preload at h ⊢
  cases hl : load w.files path with
  | ok binding => rw [hl] at h; exact absurd h (by simp)
  | error reason => exact ⟨rfl, rfl⟩

/--
**A line that fails changes nothing but the counters.** Whatever state a session
is in and why ever a line fails, the pipeline, the source and the phase are the
same as before, and so is everything else but what has been counted. It makes no
difference how much of a report or a listing the diagnostics took before they
failed: what a line makes of a session is the same with any. And an image that
cannot be bound before the script leaves the session and the world as they were.
-/
theorem failed_line_keeps (s : Session σ) (w : World) :
    (∀ line text error, (s.processLine w line text).result = .error error →
        let t := (s.processLine w line text).session
        t.pipeline = s.pipeline ∧ t.binding = s.binding ∧ t.phase = s.phase
          ∧ t = { s with summary := t.summary }
          ∧ ∀ d, (s.processLine { w with diagnostics := d } line text).session = t)
      ∧ ∀ path error, (s.preload w path).result = .error error →
        (s.preload w path).session = s ∧ (s.preload w path).world = w := by
  refine ⟨fun line text error h => ?_, fun path error h => preload_failed h⟩
  have hkept := processLine_failed h
  refine ⟨?_, ?_, ?_, hkept, fun d => processLine_session s w d line text⟩
  · rw [hkept]
  · rw [hkept]
  · rw [hkept]

/--
The source stays when the next cannot be read. So do operations that cannot be listed,
here because the second line of the listing breaks off after three bytes.
-/
theorem failed_line_keeps_source :
    let table : Registry := ⟨⟨"show", [], 0, "", .directive .show⟩ :: Registry.sample.commands⟩
    let s := (start table Engine.plain () none).bind Binding.sample
    let t := ((s.processLine World.sample 1 "invert").session.processLine World.sample 2
      "neg").session
    let full : World :=
      { World.sample with diagnostics := ⟨"", 0, fun i => if i = 0 then none else some 3⟩ }
    let listed := t.processLine full 3 "show"
    (t.processLine World.sample 3 "read none.png").session.binding = some Binding.sample
      ∧ listed.world.diagnostics.text = "0: invert\n1: "
      ∧ listed.session.pipeline.ops = [.invert, .invert]
      ∧ (s.preload World.sample "none.png").session = s := by
  intro table s t full listed
  have hread := (failed_line_keeps t World.sample).1 3 "read none.png" _ rfl
  have hshow := (failed_line_keeps t full).1 3 "show" (.other .writeListing) rfl
  exact ⟨hread.2.1, by decide +kernel, congrArg Pipeline.ops hshow.1,
    ((failed_line_keeps s World.sample).2 "none.png" _ rfl).1⟩

/-! ## What ends a session -/

/-- No line ends a session, and none reopens it. -/
theorem processLine_phase (s : Session σ) (w : World) (line : Nat) (text : String) :
    (s.processLine w line text).session.phase = .terminated ↔ s.phase = .terminated := by
  by_cases h : s.phase = .terminated
  · rw [processLine_over h]
  · rw [processLine_eq h]
    exact iff_of_false (after_goes_on h w.files line _) h

theorem call_phase (s : Session σ) (c : Call) :
    (c.on s).session.phase = .terminated ↔ s.phase = .terminated := by
  rw [← processLine_phase s c.world c.line c.text]
  unfold Call.on
  split
  · rw [(step_alike s c.world c.line c.text).1.phase]
  · rfl

/-- A session that is over refuses every line, and nothing comes of it. -/
theorem call_over {s : Session σ} (h : s.phase = .terminated) (c : Call) :
    c.on s = ⟨.error (.other .sessionOver), s, c.world⟩ := by
  have hline := processLine_over h c.world c.line c.text
  unfold Call.on
  split
  · rw [step_unrendered (by rw [hline]; simp), hline]
  · exact hline

theorem comment_taken {s : Session σ} (h : s.phase ≠ .terminated) (w : World) :
    ((⟨false, w, 1, "#"⟩ : Call).on s).result = .ok .skipped := by
  have hjudge : s.registry.judge "#" = .skip := by
    unfold Registry.judge
    rw [show Line.ofText "#" = .comment from rfl]
  unfold Call.on
  rw [if_neg (by simp), processLine_eq h, hjudge]
  rfl

/--
**A failing line does not end a session.** Once a line has failed, as a step or
on its own, the session is over exactly if it was over before the line, and
exactly then it refuses all later lines. It takes a run to end it: when a run
fails, for whatever reason, no line is taken any more.
-/
theorem failing_call_ends_iff (s : Session σ) :
    (∀ (c : Call) error, (c.on s).result = .error error →
        ((c.on s).session.phase = .terminated ↔ s.phase = .terminated)
          ∧ ((∀ later : Call, ∃ fault, (later.on (c.on s).session).result = .error fault) ↔
            s.phase = .terminated))
      ∧ ∀ w script out error, (s.run w script out).result = .error error →
        (s.run w script out).session.phase = .terminated
          ∧ ∀ later : Call,
            (later.on (s.run w script out).session).result = .error (.other .sessionOver) := by
  refine ⟨fun c error _ => ⟨call_phase s c, ?_⟩, fun w script out error _ => ?_⟩
  · rw [← call_phase s c]
    constructor
    · intro hrefuses
      by_contra hopen
      -- a comment is refused by no session that goes on
      obtain ⟨fault, hfault⟩ := hrefuses ⟨false, c.world, 1, "#"⟩
      rw [comment_taken hopen] at hfault
      exact absurd hfault (by simp)
    · intro hover later
      exact ⟨_, congrArg Step.result (call_over hover later)⟩
  · have hover := (run_alike s w script out).phase
    exact ⟨hover, fun later => congrArg Step.result (call_over hover later)⟩

/-- A fresh session takes a line after it could not read an image. -/
theorem open_after_failed_read :
    let s := start Registry.sample Engine.plain () none
    let failed := s.processLine World.sample 1 "r none.png"
    failed.result = .error (.bind "none.png" (.file .noEntry))
      ∧ failed.session.phase = .awaitingBinding
      ∧ (failed.session.processLine World.sample 2 "neg").result = .ok .accepted :=
  ⟨rfl, rfl, rfl⟩

/-- The same by the rule: the session is not over, and there are lines that it does not refuse. -/
theorem failing_call_ends_iff_read :
    let s := start Registry.sample Engine.plain () none
    let failed := s.processLine World.sample 1 "r none.png"
    failed.session.phase ≠ .terminated
      ∧ (¬ ∀ later : Call, ∃ fault, (later.on failed.session).result = .error fault)
      ∧ (s.run World.sample ⟨[114], none⟩ ⟨[], none⟩).session.phase = .terminated := by
  intro s failed
  obtain ⟨hcalls, hruns⟩ := failing_call_ends_iff s
  obtain ⟨hphase, hrefuses⟩ := hcalls ⟨false, World.sample, 1, "r none.png"⟩ _ rfl
  have hopen : s.phase ≠ .terminated := by simp [s, start]
  exact ⟨fun h => hopen (hphase.mp h), fun h => hopen (hrefuses.mp h),
    (hruns World.sample ⟨[114], none⟩ ⟨[], none⟩ _ rfl).1⟩

/-! ## The first failure of a run -/

/-- Steps that all succeed are a walk, and whatever comes after them goes on from its end. -/
theorem steps_append {p : List (List UInt8)} (q : List (List UInt8)) :
    ∀ {s : Session σ} {w : World} {line : Nat},
      (∀ done ∈ s.trail w (numbered line p), done.succeeded = true) →
      s.steps w line (p ++ q) =
        (s.walk w (numbered line p)).1.steps (s.walk w (numbered line p)).2 (line + p.length)
          q := by
  induction p with
  | nil => intro s w line _; rfl
  | cons bytes p ih =>
      intro s w line h
      rw [numbered_cons] at h ⊢
      rw [trail] at h
      rw [walk, List.cons_append, steps, List.length_cons, Nat.add_comm p.length,
        ← Nat.add_assoc]
      obtain ⟨hfirst, hrest⟩ := List.forall_mem_cons.mp h
      generalize s.step w line (Script.lineText bytes) = done at hfirst hrest ⊢
      obtain ⟨result, s', w'⟩ := done
      -- this line succeeds, so the walk and the steps go on in the same place
      cases result with
      | ok outcome => exact ih hrest
      | error error => exact absurd hfirst (by simp [Step.succeeded])

/-- A step that fails is the last, whatever lines are left. -/
theorem steps_failed {s : Session σ} {w : World} {line : Nat} {l : List UInt8} {error : Error}
    (h : (s.step w line (Script.lineText l)).result = .error error) (q : List (List UInt8)) :
    s.steps w line (l :: q) =
      ⟨.error error, (s.step w line (Script.lineText l)).session,
        (s.step w line (Script.lineText l)).world⟩ := by
  rw [steps]
  generalize s.step w line (Script.lineText l) = done at h ⊢
  obtain ⟨result, s', w'⟩ := done
  dsimp only at h
  rw [h]

end Session

namespace Script

/-- The bytes of one line, with the line feed that ends it. -/
def IsLine (bytes : List UInt8) : Prop :=
  ∃ text, bytes = text ++ [0x0a] ∧ ∀ byte ∈ text, byte ≠ 0x0a

/-- Whole lines stay the first lines of a script, whatever bytes follow and however they end. -/
theorem lines_append {lines : List (List UInt8)} (h : ∀ line ∈ lines, IsLine line)
    (bytes : List UInt8) (failure : Option StreamFault) :
    (Script.mk (lines.flatten ++ bytes) failure).lines =
      lines ++ (Script.mk bytes failure).lines := by
  have hsplit : split (lines.flatten ++ bytes) = (lines ++ (split bytes).1, (split bytes).2) := by
    induction lines with
    | nil => rfl
    | cons line lines ih =>
        obtain ⟨⟨text, rfl, htext⟩, hlines⟩ := List.forall_mem_cons.mp h
        rw [List.flatten_cons, List.append_assoc, List.append_assoc, List.singleton_append,
          split_line htext, ih hlines]
        rfl
  unfold Script.lines
  rw [hsplit]
  dsimp only
  -- a last line without an end counts in both or in neither
  split
  · rfl
  · exact List.append_assoc ..

end Script

namespace Session

/--
**A run is over at the first line that fails.** Let all lines `p` succeed, one
after the other, and let the line `l` fail in the session they leave. A run over
any script that begins with these lines fails with the error of `l`; its session
and its world are what the step of `l` left, down to the part of a report or of a
listing that the diagnostics took before they failed, with the session over, and
nothing was written to the output, in a batch no more than where a file is watched.
None of this depends on the lines after `l`. If `l` and the lines before it are
whole, any bytes may follow, and reading those may fail as well.
-/
theorem first_failure_ends_run (s : Session σ) (w : World) (p : List (List UInt8))
    (l : List UInt8) (error : Error) (out : Output)
    (hp : ∀ done ∈ s.trail w (numbered 1 p), done.succeeded = true)
    (hl : ((s.walk w (numbered 1 p)).1.step (s.walk w (numbered 1 p)).2 (p.length + 1)
      (Script.lineText l)).result = .error error) :
    let reached := s.walk w (numbered 1 p)
    let failed := reached.1.step reached.2 (p.length + 1) (Script.lineText l)
    (∀ script q, script.lines = p ++ l :: q →
        s.run w script out = ⟨.error error, failed.session.ended, failed.world, out⟩)
      ∧ ((∀ line ∈ p ++ [l], Script.IsLine line) → ∀ bytes failure,
        s.run w ⟨(p ++ [l]).flatten ++ bytes, failure⟩ out =
          ⟨.error error, failed.session.ended, failed.world, out⟩) := by
  intro reached failed
  have hrun : ∀ script q, script.lines = p ++ l :: q →
      s.run w script out = ⟨.error error, failed.session.ended, failed.world, out⟩ := by
    intro script q hlines
    have hsteps : s.steps w 1 script.lines = ⟨.error error, failed.session, failed.world⟩ := by
      rw [hlines, steps_append (l :: q) hp, Nat.add_comm 1]
      exact steps_failed hl q
    rw [run_failed out (congrArg Step.result hsteps), hsteps]
  refine ⟨hrun, fun hwhole bytes failure => hrun _ (Script.mk bytes failure).lines ?_⟩
  rw [Script.lines_append hwhole, List.append_assoc, List.singleton_append]

/-- A session that watches a file in a directory that is not there. -/
def unwritableSample : Session Unit :=
  start Registry.sample Engine.plain () (some "none/w.png")

/--
Of `neg`, `r dot.png` and `neg`, the image stays bound although it could not be shown.
And of `x`, `y` and `neg` in a batch, the report of `y` breaks off after six bytes, which
is the end: what is on the diagnostics stays there, and nothing is written.
-/
theorem first_failure_ends_run_unwritten :
    let run := unwritableSample.run World.sample
      ⟨[110, 101, 103, 10, 114, 32, 100, 111, 116, 46, 112, 110, 103, 10, 110, 101, 103], none⟩
      ⟨[], none⟩
    let full : World :=
      { World.sample with diagnostics := ⟨"", 0, fun i => if i = 0 then none else some 6⟩ }
    let batch := (opened Registry.sample Engine.plain () none (some Binding.sample)).run full
      ⟨[120, 10, 121, 10, 110, 101, 103], none⟩ ⟨[], none⟩
    (run.result = .error (.sink "none/w.png" (.file .noEntry))
        ∧ run.session.pipeline.ops = [.invert] ∧ run.session.binding = some Binding.sample
        ∧ run.session.phase = .terminated ∧ run.output.written = none)
      ∧ batch.result = .error (.other .writeDiagnostic)
      ∧ batch.world.diagnostics.text = "line 1: x invalid command\nline 2"
      ∧ batch.session.summary.unknown = 2 ∧ batch.session.pipeline.ops = []
      ∧ batch.output.writes = [] := by
  intro run full batch
  have hrun : run = _ :=
    (first_failure_ends_run unwritableSample World.sample [[110, 101, 103, 10]]
      [114, 32, 100, 111, 116, 46, 112, 110, 103, 10] (.sink "none/w.png" (.file .noEntry))
      ⟨[], none⟩ (by intro done hd; rw [List.mem_singleton.mp hd]; rfl) rfl).1 _
      [[110, 101, 103]] rfl
  have hbatch : batch = _ :=
    (first_failure_ends_run (opened Registry.sample Engine.plain () none (some Binding.sample))
      full [[120, 10]] [121, 10] (.other .writeDiagnostic) ⟨[], none⟩
      (by intro done hd; rw [List.mem_singleton.mp hd]; rfl) rfl).1 _ [[110, 101, 103]] rfl
  rw [hrun, hbatch]
  exact ⟨⟨rfl, rfl, rfl, rfl, rfl⟩, rfl, by decide +kernel, rfl, rfl, rfl⟩

end Session

end RasterScript
