import RasterScript.Proofs.LineEnds
import RasterScript.Proofs.Readers

/-!
# What a run does not look at

Of a command a run looks at the entry of the table that its name stands for, and
at the argument fields that this entry asks for. It does not look at how the name
is spelt, at fields beyond those, or at the spacing. Two scripts that differ in
nothing else, line by line, are **respelt** into each other, and the run of the
one is the run of the other, but for the names in messages.

The two runs go side by side: the same session, the same files, and diagnostics
that differ by an `Echo` for each line. One line keeps them so (`step_respelt`)
because its two verdicts are the same up to a name (`judge_respelt`). That is
where the table comes in: no standard command looks further than it asks for
(`Reads.check_congr`).
-/

namespace RasterScript

variable {σ : Type}

/-! ## Verdicts up to a name -/

/--
Two lines that differ in nothing that is looked at. Where too few arguments are
given, how many and which they are makes no difference either.
-/
inductive Registry.Respelt (r : Registry) : Line → Line → Prop where
  | quiet {a b : Line} : a.toFields = [] → b.toFields = [] → Respelt r a b
  | unknown {name name' : String} {args args' : List String} :
      r.resolve? name = none → r.resolve? name' = none →
      Respelt r (.command name args) (.command name' args')
  | few {name name' : String} {args args' : List String} {c : Command} :
      r.resolve? name = some c → r.resolve? name' = some c →
      args.length < c.minArgs → args'.length < c.minArgs →
      Respelt r (.command name args) (.command name' args')
  | same {name name' : String} {args args' : List String} {c : Command} :
      r.resolve? name = some c → r.resolve? name' = some c →
      args'.take c.minArgs = args.take c.minArgs →
      Respelt r (.command name args) (.command name' args')

/-- The verdicts on two lines, where they are the same but for the names of the lines. -/
inductive Verdict.Renamed : Line → Line → Verdict → Verdict → Prop where
  | same {a b : Line} (v : Verdict) : Renamed a b v v
  | unknown {name name' : String} {args args' : List String} :
      Renamed (.command name args) (.command name' args') (.unknown name) (.unknown name')
  | refuse {name name' usage : String} {args args' : List String} {reason reason' : Reason} :
      Renamed (.command name args) (.command name' args') (.refuse name usage reason)
        (.refuse name' usage reason')
  | direct {a b : Line} {directive : Directive} {args args' : List String} :
      (directive = .read → args'.headD "" = args.headD "") →
      Renamed a b (.direct directive args) (.direct directive args')

namespace Registry

theorem Respelt.refl (r : Registry) (a : Line) : r.Respelt a a := by
  cases a with
  | comment => exact .quiet rfl rfl
  | blank => exact .quiet rfl rfl
  | command name args =>
      cases hfound : r.resolve? name with
      | none => exact .unknown hfound hfound
      | some c => exact .same hfound hfound rfl

/-- Lines with the same fields are respelt into each other, however they are spaced. -/
theorem respelt_of_fields (r : Registry) {text text' : String}
    (h : Line.fields text'.toList = Line.fields text.toList) :
    r.Respelt (Line.ofText text) (Line.ofText text') := by
  rw [show Line.ofText text' = Line.ofText text from Line.ofChars_congr h]
  exact .refl r _

/-- So are lines with two names of one command, and with any fields after those it asks for. -/
theorem respelt_of_names {c : Command} (hc : c ∈ Command.standard) {name name' : String}
    (hname : name ∈ c.names) (hname' : name' ∈ c.names) {args : List String}
    (hargs : c.minArgs ≤ args.length) (extra extra' : List String) :
    standard.Respelt (.command name (args ++ extra)) (.command name' (args ++ extra')) := by
  refine .same (resolve?_standard hc hname) (resolve?_standard hc hname') ?_
  rw [List.take_append_of_le_length hargs, List.take_append_of_le_length hargs]

/-- **Lines that are respelt have the same verdict but for the name.** -/
theorem judge_respelt {text text' : String}
    (h : standard.Respelt (Line.ofText text) (Line.ofText text')) :
    Verdict.Renamed (Line.ofText text) (Line.ofText text') (standard.judge text)
      (standard.judge text') := by
  unfold judge
  generalize Line.ofText text = a at h ⊢
  generalize Line.ofText text' = b at h ⊢
  cases h with
  | quiet ha hb =>
      cases a with
      | command name args => cases ha
      | _ =>
          cases b with
          | command name args => cases hb
          | _ => exact .same _
  | unknown hfound hfound' =>
      dsimp only
      rw [hfound, hfound']
      exact .unknown
  | @few name name' args args' c hfound hfound' hfew hfew' =>
      have hcheck : c.check args = .error (.arity c.minArgs args.length) := if_pos hfew
      have hcheck' : c.check args' = .error (.arity c.minArgs args'.length) := if_pos hfew'
      dsimp only
      rw [hfound, hfound']
      dsimp only
      rw [hcheck, hcheck']
      exact .refuse
  | @same name name' args args' c hfound hfound' hsame =>
      have hreads := Command.reads_standard c (mem_of_resolve?_standard hfound)
      dsimp only
      rw [hfound, hfound']
      dsimp only
      rw [hreads.check_congr hsame]
      unfold Command.Reads at hreads
      cases c.check args with
      | error reason => exact .refuse
      | ok made =>
          cases made with
          | some op => exact .same _
          | none =>
              cases haction : c.action with
              | transform reader => exact .same _
              | directive directive =>
                  refine .direct fun hread => ?_
                  -- the path is the one field that a read asks for
                  rw [haction] at hreads
                  rw [hreads hread] at hsame
                  cases args <;> cases args' <;> simp_all

end Registry

/-- How a message about a line begins. -/
def ScriptError.heading (line : Nat) (name : String) : String :=
  "line " ++ Integer.text line ++ ": " ++ name

/-- What two lines with a number say, if it is the same but for their names. -/
inductive Echo (line : Nat) : Line → Line → String → String → Prop where
  | same {a b : Line} (said : String) : Echo line a b said said
  | named {name name' : String} {args args' : List String} (rest : String) :
      Echo line (.command name args) (.command name' args')
        (ScriptError.heading line name ++ rest) (ScriptError.heading line name' ++ rest)

theorem Echo.append {line : Nat} {a b : Line} {said said' : String} (h : Echo line a b said said')
    (more : String) : Echo line a b (said ++ more) (said' ++ more) := by
  cases h with
  | same => exact .same _
  | named rest =>
      rw [String.append_assoc, String.append_assoc]
      exact .named (rest ++ more)

namespace Verdict

section Renamed

variable {a b : Line} {v v' : Verdict}

theorem Renamed.load? (h : Renamed a b v v') (files : FileStore) :
    v'.load? files = v.load? files := by
  cases h with
  | @direct _ _ directive args args' hread =>
      cases directive with
      | read => rw [Verdict.load?, Verdict.load?, hread rfl]
      | _ => rfl
  | _ => rfl

theorem Renamed.outcome (h : Renamed a b v v') : v'.outcome = v.outcome := by
  cases h with
  | @direct _ _ directive => cases directive <;> rfl
  | _ => rfl

theorem Renamed.count (h : Renamed a b v v') (line : Nat) (c : Summary) :
    v'.count line c = v.count line c := by
  cases h <;> rfl

theorem Renamed.extend (h : Renamed a b v v') (watching : Bool) (p : Pipeline) :
    v'.extend watching p = v.extend watching p := by
  cases h with
  | @direct _ _ directive => cases directive <;> rfl
  | _ => rfl

end Renamed

end Verdict

/-! ## Two worlds side by side -/

/-- The files are the same, and the diagnostics treat alike the lines that are to come. -/
structure World.Beside (w w' : World) : Prop where
  files : w'.files = w.files
  diagnostics : w.diagnostics.Beside w'.diagnostics

/-- Two steps in such worlds that come to the same, but for what they say. -/
structure Step.Twin {α : Type} (Echoed : String → String → Prop) (w w' : World)
    (done done' : Step σ α) : Prop where
  result : done'.result = done.result
  session : done'.session = done.session
  beside : done.world.Beside done'.world
  fate : done.world.diagnostics.fate = w.diagnostics.fate
  /-- What they say, where no line breaks off inside. -/
  diagnostics : w.diagnostics.Whole → ∃ said said', Echoed said said'
    ∧ done.world.diagnostics.text = w.diagnostics.text ++ said
    ∧ done'.world.diagnostics.text = w'.diagnostics.text ++ said'

namespace Step.Twin

variable {w w' u u' : World}

/-- Steps that come to the same and say nothing. -/
theorem silent {α : Type} {Echoed : String → String → Prop} (hecho : Echoed "" "")
    (hu : u.Beside u') (hd : u.diagnostics = w.diagnostics) (hd' : u'.diagnostics = w'.diagnostics)
    (result : Except Error α) (s : Session σ) :
    Step.Twin Echoed w w' ⟨result, s, u⟩ ⟨result, s, u'⟩ := by
  refine ⟨rfl, rfl, hu, congrArg Diagnostics.fate hd, fun _ => ⟨"", "", hecho, ?_, ?_⟩⟩
  · rw [hd, String.append_empty]
  · rw [hd', String.append_empty]

/-- Steps after others in the worlds that these left say what they say after what those said. -/
theorem andThen {α β : Type} {First Next Both : String → String → Prop} {first first' : Step σ α}
    {next next' : Step σ β} (h : Step.Twin First w w' first first')
    (k : Step.Twin Next first.world first'.world next next')
    (hboth : ∀ {said said' more more' : String}, First said said' → Next more more' →
      Both (said ++ more) (said' ++ more')) :
    Step.Twin Both w w' next next' := by
  refine ⟨k.result, k.session, k.beside, k.fate.trans h.fate, fun hwhole => ?_⟩
  obtain ⟨said, said', hecho, hsaid, hsaid'⟩ := h.diagnostics hwhole
  obtain ⟨more, more', hmore, htext, htext'⟩ := k.diagnostics (hwhole.of_fate h.fate)
  refine ⟨said ++ more, said' ++ more', hboth hecho hmore, ?_, ?_⟩
  · rw [htext, hsaid, String.append_assoc]
  · rw [htext', hsaid', String.append_assoc]

end Step.Twin

namespace Session

variable {s : Session σ} {w w' : World} {line : Nat} {a b : Line} {v v' : Verdict}

theorem after_renamed (h : v.Renamed a b v') (s : Session σ) (files : FileStore) (line : Nat) :
    s.after files line v' = s.after files line v := by
  rw [after, after, h.load?, h.count, h.extend]

/-- A notice of one line is echoed if it is taken, and so is nothing if it is not. -/
theorem echo_take {said said' : String} (h : Echo line a b said said') (count : Nat) :
    Echo line a b (Diagnostics.page ([said].take count))
      (Diagnostics.page ([said'].take count)) := by
  cases count with
  | zero => exact .same ""
  | succ count =>
      rw [List.take_succ_cons, List.take_succ_cons, List.take_nil, Diagnostics.page_cons,
        Diagnostics.page_cons]
      exact (h.append "\n").append _

/-- A line has as much to say as its respelling, and the same but for its name. -/
theorem notices_renamed (h : v.Renamed a b v') (s : Session σ) (line : Nat) :
    v'.fault = v.fault ∧ (s.notices line v').length = (s.notices line v).length
      ∧ ∀ count, Echo line a b (Diagnostics.page ((s.notices line v).take count))
        (Diagnostics.page ((s.notices line v').take count)) := by
  cases h with
  | same => exact ⟨rfl, rfl, fun _ => .same _⟩
  | unknown => exact ⟨rfl, rfl, echo_take (.named " invalid command")⟩
  | @refuse _ _ usage => exact ⟨rfl, rfl, echo_take ((Echo.named " ").append usage)⟩
  | @direct _ _ directive => cases directive <;> exact ⟨rfl, rfl, fun _ => .same _⟩

/-- **A line ends as its respelling ends, and says the same but for the name.** -/
theorem answer_renamed (h : v.Renamed a b v') (hw : w.Beside w') (s : Session σ) (line : Nat) :
    (s.answer w' line v').1 = (s.answer w line v).1
      ∧ (s.answer w line v).2.Beside (s.answer w' line v').2
      ∧ (s.answer w line v).2.fate = w.diagnostics.fate
      ∧ (w.diagnostics.Whole → ∃ said said', Echo line a b said said'
        ∧ (s.answer w line v).2.text = w.diagnostics.text ++ said
        ∧ (s.answer w' line v').2.text = w'.diagnostics.text ++ said') := by
  have hload : v'.load? w'.files = v.load? w.files := by rw [hw.files, h.load?]
  rcases s.answer_cases w line v with ⟨error, hfails, hanswer⟩ | ⟨hread, hanswer⟩
  · rw [hanswer, answer, hload, hfails]
    exact ⟨rfl, hw.diagnostics, rfl, fun _ =>
      ⟨"", "", .same "", (String.append_empty ..).symm, (String.append_empty ..).symm⟩⟩
  · obtain ⟨hfault, hlength, hecho⟩ := notices_renamed h s line
    obtain ⟨hall, hbeside, hsaid⟩ := Diagnostics.writeAll_beside hw.diagnostics hlength
    rw [hanswer, answer_readable (hload ▸ hread), h.outcome, hfault]
    dsimp only
    rw [hall]
    refine ⟨rfl, hbeside, Diagnostics.fate_writeAll .., fun hwhole => ?_⟩
    obtain ⟨count, htext, htext'⟩ := hsaid hwhole
    exact ⟨_, _, hecho count, htext, htext'⟩

/-- A line on its own, and its respelling. -/
theorem processLine_respelt {text text' : String} (hr : s.registry = .standard)
    (h : Registry.standard.Respelt (Line.ofText text) (Line.ofText text')) (hw : w.Beside w')
    (line : Nat) :
    Step.Twin (Echo line (Line.ofText text) (Line.ofText text')) w w' (s.processLine w line text)
      (s.processLine w' line text') := by
  by_cases hover : s.phase = .terminated
  · rw [processLine_over hover, processLine_over hover]
    exact .silent (.same "") hw rfl rfl _ s
  · have hrenamed := Registry.judge_respelt h
    rw [← hr] at hrenamed
    obtain ⟨hresult, hbeside, hfate, hsaid⟩ := answer_renamed hrenamed hw s line
    rw [processLine_eq hover, processLine_eq hover]
    refine ⟨hresult, ?_, ⟨hw.files, hbeside⟩, hfate, hsaid⟩
    dsimp only
    rw [hw.files, after_renamed hrenamed]

/-- A report, the same in worlds side by side. -/
theorem report_beside (hw : w.Beside w') (s : Session σ) (message : String) :
    Step.Twin Eq w w' (s.report w message ()) (s.report w' message ()) := by
  obtain ⟨hall, hbeside, hsaid⟩ :=
    Diagnostics.writeAll_beside hw.diagnostics (Eq.refl [message].length)
  refine ⟨?_, rfl, ⟨hw.files, hbeside⟩, w.diagnostics.fate_writeAll [message], fun hwhole => ?_⟩
  · dsimp only [report, tell]
    rw [hall]
  · obtain ⟨count, htext, htext'⟩ := hsaid hwhole
    exact ⟨_, _, rfl, htext, htext'⟩

/-- A watched render does and says the same in worlds side by side. -/
theorem renderWatch_beside (hw : w.Beside w') (s : Session σ) (path : String) :
    Step.Twin Eq w w' (s.renderWatch w path) (s.renderWatch w' path) := by
  have hsilent : ∀ (result : Except Error Unit) (t : Session σ) (files : FileStore),
      Step.Twin Eq w w' ⟨result, t, { w with files }⟩ ⟨result, t, { w' with files }⟩ := by
    intro result t files
    have hbeside : World.Beside { w with files } { w' with files } := ⟨rfl, hw.diagnostics⟩
    exact .silent rfl hbeside (by rfl) (by rfl) result t
  have hstays : ∀ (result : Except Error Unit) (t : Session σ),
      Step.Twin Eq w w' ⟨result, t, w⟩ ⟨result, t, w'⟩ :=
    fun result t => .silent rfl hw rfl rfl result t
  unfold renderWatch
  cases s.binding with
  | none => exact hstays ..
  | some binding =>
      dsimp only
      rcases s.render binding with ⟨error | _ | encoded, t⟩
      · dsimp only
        cases error.isRecoverable with
        | false => exact hstays ..
        | true => exact report_beside hw t error.message
      · exact hstays ..
      · dsimp only
        rw [hw.files]
        cases w.files.write path (.picture encoded) with
        | ok files => exact hsilent ..
        | error error => exact hstays ..

/-- **A step is the step of its respelling, and says the same but for the name.** -/
theorem step_respelt {text text' : String} (hr : s.registry = .standard)
    (h : Registry.standard.Respelt (Line.ofText text) (Line.ofText text')) (hw : w.Beside w')
    (line : Nat) :
    Step.Twin (Echo line (Line.ofText text) (Line.ofText text')) w w' (s.step w line text)
      (s.step w' line text') := by
  have htwin := processLine_respelt hr h hw line
  rcases step_cases s w line text with ⟨hs, hu⟩ | ⟨path, outcome, hpath, ho, hp, hs⟩
  · rw [hs, step_unrendered (htwin.result ▸ hu)]
    exact htwin
  · rw [hs, step_rendered hpath (htwin.result.trans ho) hp]
    dsimp only
    have hrender := renderWatch_beside htwin.beside (s.processLine w line text).session path
    rw [htwin.session]
    have hjoin : ∀ {said said' more more' : String},
        Echo line (Line.ofText text) (Line.ofText text') said said' → more = more' →
        Echo line (Line.ofText text) (Line.ofText text') (said ++ more) (said' ++ more') := by
      rintro said said' more _ hecho rfl
      exact hecho.append more
    have hboth := htwin.andThen hrender hjoin
    refine ⟨?_, hboth.session, hboth.beside, hboth.fate, hboth.diagnostics⟩
    dsimp only
    rw [hboth.result]

/-! ## Scripts side by side -/

/-- What the lines of two scripts say, from a line on, if it is the same but for their names. -/
inductive Echoes : Nat → List Line → List Line → String → String → Prop where
  /-- Nothing more is said, because there are no lines left or because one has failed. -/
  | stop {line : Nat} {as bs : List Line} : Echoes line as bs "" ""
  | line {line : Nat} {a b : Line} {as bs : List Line} {said said' rest rest' : String} :
      Echo line a b said said' → Echoes (line + 1) as bs rest rest' →
      Echoes line (a :: as) (b :: bs) (said ++ rest) (said' ++ rest')

/-- Two lines of bytes that are respelt. -/
def Respells (bytes bytes' : List UInt8) : Prop :=
  Registry.standard.Respelt (Script.read bytes) (Script.read bytes')

/-- **Steps over lines and their respellings come to the same.** -/
theorem steps_respelt {lines lines' : List (List UInt8)} (h : List.Forall₂ Respells lines lines') :
    ∀ {s : Session σ} {w w' : World} {line : Nat}, s.registry = .standard → w.Beside w' →
      Step.Twin (Echoes line (lines.map Script.read) (lines'.map Script.read)) w w'
        (s.steps w line lines) (s.steps w' line lines') := by
  induction h with
  | nil =>
      intro s w w' line _ hw
      exact .silent .stop hw rfl rfl _ s
  | @cons bytes bytes' rest rest' hline _ ih =>
      intro s w w' line hr hw
      have hstep := step_respelt hr hline hw line
      have hnext := step_registry s w line (Script.lineText bytes)
      rw [steps, steps]
      generalize s.step w line (Script.lineText bytes) = done at hstep hnext ⊢
      generalize s.step w' line (Script.lineText bytes') = done' at hstep ⊢
      obtain ⟨result, t, u⟩ := done
      obtain ⟨result', t', u'⟩ := done'
      have hresult := hstep.result
      have hsession := hstep.session
      dsimp only at hresult hsession hnext
      subst hresult hsession
      -- after this line both go on in one session, or stop with one error
      cases result' with
      | error error =>
          have hstop : Step.Twin (Echoes (line + 1) (rest.map Script.read) (rest'.map Script.read))
              u u' (⟨.error error, t', u⟩ : Step σ Unit) ⟨.error error, t', u'⟩ :=
            .silent .stop hstep.beside rfl rfl _ t'
          exact hstep.andThen hstop .line
      | ok outcome => exact hstep.andThen (ih (hnext.trans hr) hstep.beside) .line

/-- Every line has the outcome of its respelling, those after a line that failed as well. -/
theorem trail_respelt {lines lines' : List (List UInt8)} (h : List.Forall₂ Respells lines lines') :
    ∀ {s : Session σ} {w w' : World} {line : Nat}, s.registry = .standard → w.Beside w' →
      (s.trail w' (numbered line lines')).map Step.result =
        (s.trail w (numbered line lines)).map Step.result := by
  induction h with
  | nil => intro s w w' line _ _; rfl
  | @cons bytes bytes' rest rest' hline _ ih =>
      intro s w w' line hr hw
      have hstep := step_respelt hr hline hw line
      have hnext := step_registry s w line (Script.lineText bytes)
      rw [numbered_cons, numbered_cons, trail, trail, List.map_cons, List.map_cons, hstep.result,
        hstep.session, ih (hnext.trans hr) hstep.beside]

/-- The end of a run looks at the session that the lines left, and at no world. -/
theorem run_twin {script script' : Script} (hf : script'.failure = script.failure) (out : Output)
    (hresult : (s.steps w' 1 script'.lines).result = (s.steps w 1 script.lines).result)
    (hsession : (s.steps w' 1 script'.lines).session = (s.steps w 1 script.lines).session) :
    (s.run w' script' out).result = (s.run w script out).result
      ∧ (s.run w' script' out).session = (s.run w script out).session
      ∧ (s.run w' script' out).output = (s.run w script out).output := by
  rcases run_cases s w script out with ⟨error, he, hrun⟩ |
    ⟨hok, ⟨fault, hc, hrun⟩ | ⟨hc, ⟨hwatch, hrun⟩ | ⟨hwatch, hrun⟩⟩⟩
  · rw [hrun, run_failed out (hresult.trans he), hsession]
    exact ⟨rfl, rfl, rfl⟩
  · rw [hrun, run_cut out (hresult.trans hok) (hf.trans hc), hsession]
    exact ⟨rfl, rfl, rfl⟩
  · rw [hrun, run_watched out (hresult.trans hok) (hf.trans hc) (hsession ▸ hwatch), hsession]
    exact ⟨rfl, rfl, rfl⟩
  · rw [hrun, run_rendered out (hresult.trans hok) (hf.trans hc) (hsession ▸ hwatch), hsession]
    exact ⟨rfl, rfl, rfl⟩

/--
**A run does not depend on how its script is spelt.** Let two scripts over the
standard commands be respelt into each other line by line, and be run by the same
session on the same files, with diagnostics that treat what is said alike. Then every
line has the same outcome, and the runs end alike: with the same result, the same
session, the same output and the same files. What they say is the same too, up to the
names in messages, each of which is the one that its line has, as long as no line of
it breaks off inside. Lines with the same fields are respelt, as are lines with two
names of one command and with any fields after those that the command asks for.
-/
theorem respelt_run {s : Session σ} (hr : s.registry = .standard) {w w' : World}
    (hw : w.Beside w') {script script' : Script} (hf : script'.failure = script.failure)
    (h : List.Forall₂ Respells script.lines script'.lines) (out : Output) :
    (s.trail w' (numbered 1 script'.lines)).map Step.result =
        (s.trail w (numbered 1 script.lines)).map Step.result
      ∧ (s.run w' script' out).result = (s.run w script out).result
      ∧ (s.run w' script' out).session = (s.run w script out).session
      ∧ (s.run w' script' out).output = (s.run w script out).output
      ∧ (s.run w' script' out).world.files = (s.run w script out).world.files
      ∧ (w.diagnostics.Whole → ∃ said said',
          Echoes 1 (script.lines.map Script.read) (script'.lines.map Script.read) said said'
            ∧ (s.run w script out).world.diagnostics.text = w.diagnostics.text ++ said
            ∧ (s.run w' script' out).world.diagnostics.text = w'.diagnostics.text ++ said')
      ∧ (∀ text text', Line.fields text'.toList = Line.fields text.toList →
          Registry.standard.Respelt (Line.ofText text) (Line.ofText text'))
      ∧ ∀ c ∈ Command.standard, ∀ name ∈ c.names, ∀ name' ∈ c.names, ∀ args extra extra',
          c.minArgs ≤ args.length →
          Registry.standard.Respelt (.command name (args ++ extra))
            (.command name' (args ++ extra')) := by
  have htwin := @steps_respelt σ _ _ h s w w' 1 hr hw
  obtain ⟨hresult, hsession, houtput⟩ := run_twin hf out htwin.result htwin.session
  refine ⟨trail_respelt h hr hw, hresult, hsession, houtput, ?_, ?_, ?_, ?_⟩
  · rw [run_world, run_world]
    exact htwin.beside.files
  · rw [run_world, run_world]
    exact htwin.diagnostics
  · exact fun _ _ hfields => Registry.respelt_of_fields _ hfields
  · exact fun c hc name hname name' hname' args extra extra' hargs =>
      Registry.respelt_of_names hc hname hname' hargs extra extra'

/-- `neg x`, a comment, `sat` and `x` are ` invert`, an empty line, `saturation` and `y 1`. -/
theorem respelt_run_names :
    let s := opened Registry.standard Engine.plain () none none
    let script : Script := ⟨[110, 101, 103, 32, 120, 10, 35, 97, 10, 115, 97, 116, 10, 120], none⟩
    let script' : Script := ⟨[32, 105, 110, 118, 101, 114, 116, 10, 10, 115, 97, 116, 117, 114, 97,
      116, 105, 111, 110, 10, 121, 32, 49], none⟩
    let run := s.run World.sample script ⟨[], none⟩
    let run' := s.run World.sample script' ⟨[], none⟩
    run'.result = run.result ∧ run'.session = run.session ∧ run'.world.files = run.world.files
      ∧ ∃ said said', Echoes 1
          [.command "neg" ["x"], .comment, .command "sat" [], .command "x" []]
          [.command "invert" [], .blank, .command "saturation" [], .command "y" ["1"]] said said'
        ∧ run.world.diagnostics.text = said ∧ run'.world.diagnostics.text = said' := by
  intro s script script' run run'
  have hx : Registry.standard.resolve? "x" = none :=
    Registry.resolve?_standard_none (by decide +kernel)
  have hy : Registry.standard.resolve? "y" = none :=
    Registry.resolve?_standard_none (by decide +kernel)
  have hinvert : Command.transform "invert" ["neg"] 0 "invert image" (Arguments.plain .invert) ∈
      Command.standard := by simp [Command.standard]
  have hsaturation : Command.transform "saturation" ["sat"] 1 "value (-100, 500)"
      (Arguments.within (-100) 500 .saturation) ∈ Command.standard := by simp [Command.standard]
  have hneg : Registry.standard.Respelt (.command "neg" ([] ++ ["x"]))
      (.command "invert" ([] ++ [])) :=
    Registry.respelt_of_names hinvert (by decide) (by decide) (by decide) ["x"] []
  have hsat : Registry.standard.Respelt (.command "sat" []) (.command "saturation" []) :=
    .few (Registry.resolve?_standard hsaturation (by decide))
      (Registry.resolve?_standard hsaturation (by decide)) (by decide) (by decide)
  have hrespells : List.Forall₂ Respells script.lines script'.lines :=
    .cons hneg (.cons (.quiet rfl rfl) (.cons hsat (.cons (.unknown hx hy) .nil)))
  obtain ⟨_, hresult, hsession, _, hfiles, hsays, _⟩ :=
    respelt_run (s := s) rfl (w := World.sample) ⟨rfl, fun _ => rfl⟩ (by rfl) hrespells ⟨[], none⟩
  obtain ⟨said, said', hechoes, hsaid, hsaid'⟩ := hsays (Diagnostics.whole_sound "")
  refine ⟨hresult, hsession, hfiles, said, said', hechoes, ?_, ?_⟩
  · exact hsaid.trans (String.empty_append ..)
  · exact hsaid'.trans (String.empty_append ..)

end Session

end RasterScript
