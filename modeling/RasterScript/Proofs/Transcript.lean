import RasterScript.Proofs.Batch

/-!
# The account of a batch

A batch that carries out all its lines has counted each of them, and has said on
the diagnostics what it had to say about each, in order and nothing else. Both can
be read off the verdicts: what a line counts as from its own, and what it says
from its own, its number, and the operations of the lines before it, which a
listing shows.

The step lemma is `step_account`. Lines are numbered by the session itself, in
that the number of a line is one more than the lines counted before it, so the
induction is on the lines with the session left open (`steps_account`).
-/

namespace RasterScript

variable {σ : Type}

/-! ## What a line counts as, and what it says -/

/-- Whether a line counts as accepted: directives are accepted before they are carried out. -/
def Outcome.isAccepted : Outcome → Bool
  | skipped | unknown | rejected => false
  | accepted | bound | reset | help | shown => true

namespace Verdict

/-- **A line moves one counter at most,** by one; a comment or a blank line moves none. -/
theorem count_eq (v : Verdict) (line : Nat) (c : Summary) :
    v.count line c =
      { lines := line
        accepted := c.accepted + if v.outcome.isAccepted then 1 else 0
        rejected := c.rejected + if v.outcome = .rejected then 1 else 0
        unknown := c.unknown + if v.outcome = .unknown then 1 else 0
        renders := c.renders } := by
  cases v with
  | direct directive args => cases directive <;> rfl
  | _ => rfl

/-- What is said about the line with a number, when a pipeline has been put together before it. -/
def message (r : Registry) (before : List Operation) (line : Nat) : Verdict → String
  | unknown name => "line " ++ Integer.text line ++ ": " ++ name ++ " invalid command" ++ "\n"
  | refuse name usage _ => "line " ++ Integer.text line ++ ": " ++ name ++ " " ++ usage ++ "\n"
  | direct .help _ => r.help
  | direct .show _ => String.join ((Pipeline.mk before).listing.map (· ++ "\n"))
  | _ => ""

/-- What is said about all lines of a script, the first of which is numbered `line`. -/
def messages (r : Registry) (before : List Operation) (line : Nat) (vs : List Verdict) :
    List String :=
  vs.mapIdx fun i v => v.message r (before ++ (vs.take i).filterMap op?) (line + i)

theorem messages_cons (r : Registry) (before : List Operation) (line : Nat) (v : Verdict)
    (vs : List Verdict) :
    messages r before line (v :: vs) =
      v.message r before line :: messages r (before ++ v.op?.toList) (line + 1) vs := by
  have hop : ∀ i, ((v :: vs).take (i + 1)).filterMap op? =
      v.op?.toList ++ (vs.take i).filterMap op? := by
    intro i
    rw [List.take_succ_cons, List.filterMap_cons]
    cases v.op? <;> rfl
  rw [messages, messages, List.mapIdx_cons]
  simp only [hop, List.take_zero, List.filterMap_nil, List.append_nil, List.append_assoc,
    Nat.add_zero, Nat.add_assoc, Nat.add_comm 1]

theorem messages_append (r : Registry) (vs us : List Verdict) :
    ∀ (before : List Operation) (line : Nat),
      messages r before line (vs ++ us) =
        messages r before line vs
          ++ messages r (before ++ vs.filterMap op?) (line + vs.length) us := by
  induction vs with
  | nil =>
      intro before line
      rw [List.filterMap_nil, List.append_nil]
      rfl
  | cons v vs ih =>
      intro before line
      have hops : before ++ (v :: vs).filterMap op? =
          before ++ v.op?.toList ++ vs.filterMap op? := by
        rw [List.filterMap_cons]
        cases v.op? <;> simp
      rw [List.cons_append, messages_cons, messages_cons, ih, hops, List.length_cons,
        Nat.add_comm vs.length, ← Nat.add_assoc, List.cons_append]

end Verdict

/-- Exactly the lines that are comments or blank are skipped. -/
theorem judge_skipped_iff (r : Registry) (text : String) :
    (r.judge text).outcome = .skipped ↔ (Line.ofText text).toFields = [] := by
  unfold Registry.judge
  cases Line.ofText text with
  | comment => exact iff_of_true rfl rfl
  | blank => exact iff_of_true rfl rfl
  | command name args =>
      refine iff_of_false ?_ (by simp [Line.toFields])
      dsimp only
      split
      · simp [Verdict.outcome]
      · split
        · simp [Verdict.outcome]
        · simp [Verdict.outcome]
        · simp [Verdict.outcome]
        next directive _ _ => cases directive <;> simp [Verdict.outcome]

theorem Registry.countP_skipped (r : Registry) (script : Script) :
    (r.verdicts script).countP (·.outcome = .skipped) =
      script.lines.countP fun bytes => (Line.ofText (Script.lineText bytes)).toFields = [] := by
  rw [verdicts, List.countP_map]
  refine List.countP_congr fun bytes _ => ?_
  simpa using judge_skipped_iff r (Script.lineText bytes)

namespace Session

/-! ## The account -/

/-- What a session has counted, put together and said in carrying out lines with some verdicts. -/
structure Account (s : Session σ) (w : World) (vs : List Verdict) (t : Session σ) (u : World) :
    Prop where
  registry : t.registry = s.registry
  watch : t.watch = s.watch
  lines : t.summary.lines = s.summary.lines + vs.length
  accepted : t.summary.accepted = s.summary.accepted + vs.countP (·.outcome.isAccepted)
  rejected : t.summary.rejected = s.summary.rejected + vs.countP (·.outcome = .rejected)
  unknown : t.summary.unknown = s.summary.unknown + vs.countP (·.outcome = .unknown)
  pipeline : t.pipeline.ops = s.pipeline.ops ++ vs.filterMap Verdict.op?
  messages : u.diagnostics.text = w.diagnostics.text ++ String.join
    (Verdict.messages s.registry s.pipeline.ops (s.summary.lines + 1) vs)

theorem Account.nil (s : Session σ) (w : World) : s.Account w [] s w :=
  ⟨rfl, rfl, rfl, rfl, rfl, rfl, (List.append_nil _).symm, (String.append_empty ..).symm⟩

theorem Account.append {s t t' : Session σ} {w u u' : World} {vs us : List Verdict}
    (h : s.Account w vs t u) (k : t.Account u us t' u') : s.Account w (vs ++ us) t' u' := by
  refine ⟨k.registry.trans h.registry, k.watch.trans h.watch, ?_, ?_, ?_, ?_, ?_, ?_⟩
  · rw [k.lines, h.lines, List.length_append, Nat.add_assoc]
  · rw [k.accepted, h.accepted, List.countP_append, Nat.add_assoc]
  · rw [k.rejected, h.rejected, List.countP_append, Nat.add_assoc]
  · rw [k.unknown, h.unknown, List.countP_append, Nat.add_assoc]
  · rw [k.pipeline, h.pipeline, List.filterMap_append, List.append_assoc]
  · rw [k.messages, h.messages, h.registry, h.pipeline, h.lines, Verdict.messages_append,
      String.join_append, String.append_assoc, Nat.add_right_comm]

theorem message_eq (s : Session σ) (line : Nat) (v : Verdict) :
    v.message s.registry s.pipeline.ops line = Diagnostics.page (s.notices line v) := by
  cases v with
  | direct directive args => cases directive <;> rfl
  | unknown name =>
      rw [notices, Diagnostics.page_cons, Diagnostics.page_nil, String.append_empty]
      rfl
  | refuse name usage reason =>
      rw [notices, Diagnostics.page_cons, Diagnostics.page_nil, String.append_empty]
      rfl
  | _ => rfl

/-- A line that succeeds has said what there was to say about it. -/
theorem answer_message {s : Session σ} {w : World} {line : Nat} {v : Verdict} {outcome : Outcome}
    (h : (s.answer w line v).1 = .ok outcome) :
    (s.answer w line v).2.text =
      w.diagnostics.text ++ v.message s.registry s.pipeline.ops line := by
  rw [answer_diagnostics h, message_eq]

/-- **A line of a batch that succeeds is counted, and what there is to say about it is said.** -/
theorem step_account {s : Session σ} {w : World} {text : String} {outcome : Outcome}
    (hb : s.watch = none) (h : (s.step w (s.summary.lines + 1) text).result = .ok outcome) :
    let done := s.step w (s.summary.lines + 1) text
    s.Account w [s.registry.judge text] done.session done.world := by
  rw [step_of_batch hb] at h ⊢
  obtain ⟨hphase, hanswer⟩ := processLine_ok h
  rw [processLine_eq hphase]
  generalize s.registry.judge text = v at hanswer ⊢
  refine ⟨after_registry .., after_watch .., ?_, ?_, ?_, ?_, ?_, ?_⟩
  · rw [after_summary, Verdict.count_eq]
    rfl
  · rw [after_summary, Verdict.count_eq, List.countP_singleton]
  · rw [after_summary, Verdict.count_eq, List.countP_singleton]
    simp only [decide_eq_true_eq]
  · rw [after_summary, Verdict.count_eq, List.countP_singleton]
    simp only [decide_eq_true_eq]
  · rw [after_pipeline, isWatch, hb]
    cases v with
    | direct directive args => cases directive <;> exact (List.append_nil _).symm
    | append op => rfl
    | _ => exact (List.append_nil _).symm
  · rw [Verdict.messages_cons, String.join_cons]
    exact (answer_message hanswer).trans (congrArg _ (String.append_empty ..).symm)

/-- **What all lines of a batch have counted and said.** -/
theorem steps_account {lines : List (List UInt8)} :
    ∀ {s : Session σ} {w : World}, s.watch = none →
      (s.steps w (s.summary.lines + 1) lines).result = .ok () →
      let done := s.steps w (s.summary.lines + 1) lines
      s.Account w (lines.map fun bytes => s.registry.judge (Script.lineText bytes)) done.session
        done.world := by
  induction lines with
  | nil => intro s w _ _; exact Account.nil s w
  | cons bytes rest ih =>
      intro s w hb hok
      obtain ⟨⟨outcome, ho⟩, hrest⟩ := steps_ok_cons hok
      have hfirst := step_account hb ho
      rw [hrest] at hok ⊢
      generalize s.step w (s.summary.lines + 1) (Script.lineText bytes) = done at hfirst hok ⊢
      -- the line has been counted, so the next one has the number that the session expects
      have hlines : done.session.summary.lines = s.summary.lines + 1 := hfirst.lines
      rw [← hlines] at hok ⊢
      have hnext := ih (hfirst.watch.trans hb) hok
      rw [hfirst.registry] at hnext
      exact hfirst.append hnext

/-- Every line is accepted, rejected, unknown or skipped. -/
theorem length_eq_countP (vs : List Verdict) :
    vs.length = vs.countP (·.outcome.isAccepted) + vs.countP (·.outcome = .rejected)
      + vs.countP (·.outcome = .unknown) + vs.countP (·.outcome = .skipped) := by
  induction vs with
  | nil => rfl
  | cons v vs ih =>
      rw [List.length_cons, ih]
      simp only [List.countP_cons]
      cases v.outcome <;> simp [Outcome.isAccepted] <;> omega

theorem opened_fresh (r : Registry) (engine : Engine σ) (st : σ) (source : Option Binding) :
    (opened r engine st none source).summary = ⟨0, 0, 0, 0, 0⟩
      ∧ (opened r engine st none source).registry = r
      ∧ (opened r engine st none source).pipeline.ops = [] := by
  cases source <;> exact ⟨rfl, rfl, rfl⟩

/--
**The account of a batch.** Let a batch be run from a fresh session and carry out
all lines of its script. Then it has counted every line of the script, as
accepted, as rejected or as unknown unless it is a comment or blank. And on the
diagnostics it has said, for the lines in order: that an unknown command is
invalid, how a rejected one is used, each with the number of the line and the
name that stands there; the command table where a line asks for help, and where
one asks for the pipeline, the operations of the lines before it, each with its
place; and nothing for any other line.
-/
theorem batch_account (r : Registry) (engine : Engine σ) (st : σ) (source : Option Binding)
    (w : World) (script : Script) (out : Output)
    (h : ((opened r engine st none source).steps w 1 script.lines).result = .ok ()) :
    let run := (opened r engine st none source).run w script out
    let counted := run.session.summary
    let vs := r.verdicts script
    let skipped := script.lines.countP fun bytes =>
      (Line.ofText (Script.lineText bytes)).toFields = []
    counted.lines = script.lines.length
      ∧ counted.lines = counted.accepted + counted.rejected + counted.unknown + skipped
      ∧ counted.accepted = vs.countP (·.outcome.isAccepted)
      ∧ counted.rejected = vs.countP (·.outcome = .rejected)
      ∧ counted.unknown = vs.countP (·.outcome = .unknown)
      ∧ run.world.diagnostics.text = w.diagnostics.text ++ String.join
          (vs.mapIdx fun i v => v.message r ((vs.take i).filterMap Verdict.op?) (i + 1)) := by
  intro run counted vs skipped
  obtain ⟨hsummary, hregistry, hops⟩ := opened_fresh r engine st source
  have haccount := @steps_account σ script.lines (opened r engine st none source) w
    (opened_watch ..)
  rw [hsummary, hregistry] at haccount
  have hdone := haccount h
  have halike := run_alike (opened r engine st none source) w script out
  have hlines : counted.lines = script.lines.length := by
    rw [halike.lines, ended, hdone.lines, hsummary, List.length_map, Nat.zero_add]
  have haccepted : counted.accepted = vs.countP (·.outcome.isAccepted) := by
    rw [halike.accepted, ended, hdone.accepted, hsummary, Nat.zero_add]
    rfl
  have hrejected : counted.rejected = vs.countP (·.outcome = .rejected) := by
    rw [halike.rejected, ended, hdone.rejected, hsummary, Nat.zero_add]
    rfl
  have hunknown : counted.unknown = vs.countP (·.outcome = .unknown) := by
    rw [halike.unknown, ended, hdone.unknown, hsummary, Nat.zero_add]
    rfl
  have hskipped : vs.countP (·.outcome = .skipped) = skipped := r.countP_skipped script
  refine ⟨hlines, ?_, haccepted, hrejected, hunknown, ?_⟩
  · rw [haccepted, hrejected, hunknown, ← hskipped, ← length_eq_countP, hlines]
    exact (List.length_map ..).symm
  · rw [run_world, hdone.messages, hregistry, hops, hsummary, Verdict.messages]
    simp only [List.nil_append, Nat.add_comm 1]
    rfl

/-- Of `neg`, a comment, `x`, `show`, `r` and `help`, four say something. -/
theorem batch_account_sample :
    let table : Registry := ⟨[
      ⟨"help", [], 0, "", .directive .help⟩,
      ⟨"invert", ["neg"], 0, "", .transform (Arguments.plain .invert)⟩,
      ⟨"read", ["r"], 1, "file", .directive .read⟩,
      ⟨"show", [], 0, "", .directive .show⟩]⟩
    let run := (opened table Engine.plain () none none).run World.sample
      ⟨[110, 101, 103, 10, 35, 10, 120, 10, 115, 104, 111, 119, 10, 114, 10, 104, 101, 108, 112],
        none⟩ ⟨[], none⟩
    run.session.summary.lines = 6
      ∧ run.session.summary.accepted = 3 ∧ run.session.summary.rejected = 1
      ∧ run.session.summary.unknown = 1
      ∧ run.world.diagnostics.text =
        "line 3: x invalid command\n0: invert\nline 5: r file\n" ++ table.help := by
  intro table run
  obtain ⟨hlines, _, haccepted, hrejected, hunknown, htext⟩ :=
    batch_account table Engine.plain () none World.sample
      ⟨[110, 101, 103, 10, 35, 10, 120, 10, 115, 104, 111, 119, 10, 114, 10, 104, 101, 108, 112],
        none⟩ ⟨[], none⟩ rfl
  exact ⟨hlines, haccepted, hrejected, hunknown, htext.trans (by decide +kernel)⟩

end Session

end RasterScript
