import RasterScript.CommandLine
import RasterScript.Proofs.FileStore

/-!
# The stages of the program

The program does its work in stages, each of which either goes on or ends it.
Here a stage is a function on where the program stands (`Stage.act`), and the
program takes one stage after the other up to the first that ends it (`through`).
`run_eq_through` says that this is what the command line does. From there on the
exit code is a matter of one stage (`finish_ended`, `finish_passed`), and so is
anything else that the program leaves behind.
-/

namespace RasterScript.CommandLine

/-- The stages of the program. Each does nothing unless it is asked for. -/
inductive Stage where
  /-- Show the command table. -/
  | table
  /-- Open the script. -/
  | script
  /-- Create the output. -/
  | output
  /-- Bind the source. -/
  | source
  /-- Carry out the script. -/
  | session
  /-- Write the pipeline. -/
  | dump
deriving DecidableEq

/-- Where the program stands between two stages. -/
structure Standing where
  files : FileStore
  session : Session Unit
  /-- What was written to the error stream. -/
  errors : String
  /-- The image that was written to standard output. -/
  stdout : Option Encoded

namespace Standing

/-- Where the program stands before its first stage. -/
def start (options : Options) (files : FileStore) : Standing :=
  ⟨files, Session.start Registry.standard Engine.plain () options.watch, "", none⟩

/-- What the session acts on. -/
def world (st : Standing) : World := ⟨st.files, .sound st.errors⟩

/-- Says on the error stream why the program ends. -/
def complain (st : Standing) (message : String) : Standing :=
  { st with errors := st.errors ++ "imgsh: " ++ message ++ "\n" }

/-- What the program leaves behind if it ends here. -/
def finish (st : Standing) (outcome : ExitOutcome) : Finish :=
  ⟨outcome, st.errors, st.stdout, st.files⟩

/-- The script that has been opened, with what it holds by now. -/
def script (options : Options) (stdin : List UInt8) (st : Standing) : Script :=
  match openScript options stdin st.files with
  | .ok script => script
  | .error _ => ⟨[], none⟩

/-- The run of the session from here. -/
def carryOut (options : Options) (stdin : List UInt8) (st : Standing) : Run Unit :=
  st.session.run st.world (seen (st.script options stdin) options st.session st.world)
    ⟨[], none⟩

/-- Where the program stands after that run, with its image put where the output goes. -/
def after (options : Options) (stdin : List UInt8) (st : Standing) : Standing :=
  let run := st.carryOut options stdin
  let (stdout, files) := deliver options run.output.written run.world.files
  ⟨files, run.session, run.world.diagnostics.text, stdout⟩

theorem after_files (options : Options) (stdin : List UInt8) (st : Standing) :
    (st.after options stdin).files =
      (deliver options (st.carryOut options stdin).output.written
        (st.carryOut options stdin).world.files).2 := rfl

theorem after_stdout (options : Options) (stdin : List UInt8) (st : Standing) :
    (st.after options stdin).stdout =
      (deliver options (st.carryOut options stdin).output.written
        (st.carryOut options stdin).world.files).1 := rfl

theorem after_session (options : Options) (stdin : List UInt8) (st : Standing) :
    (st.after options stdin).session = (st.carryOut options stdin).session := rfl

end Standing

namespace Stage

/-- The stages in the order in which they are taken. -/
def all : List Stage := [table, script, output, source, session, dump]

/-- The stages that are taken before one. -/
def before (stage : Stage) : List Stage := all.takeWhile (· ≠ stage)

/-- What a stage does: the outcome if it ends the program, and where that stands afterwards. -/
def act (options : Options) (stdin : List UInt8) (stage : Stage) (st : Standing) :
    Option ExitOutcome × Standing :=
  match stage with
  | table =>
    if options.commands then
      (some .usage, { st with errors := st.errors ++ Registry.standard.help })
    else (none, st)
  | script =>
    match openScript options stdin st.files with
    | .error error =>
      (some .scriptOpen,
        st.complain ("open script '" ++ options.script.getD "" ++ "': " ++ error.message))
    | .ok _ => (none, st)
  | output =>
    match createOutput options st.files with
    | .error error =>
      (some .outputOpen,
        st.complain ("create output '" ++ options.output.getD "" ++ "': " ++ error.message))
    | .ok files => (none, { st with files })
  | source =>
    match (preload options st.session st.world).result with
    | .error error => (some (.ofError error), st.complain error.message)
    | .ok () => (none, { st with session := (preload options st.session st.world).session })
  | session =>
    match (st.carryOut options stdin).result with
    | .error error => (some (.ofError error), (st.after options stdin).complain error.message)
    | .ok _ => (none, st.after options stdin)
  | dump =>
    match CommandLine.dump options st.session.pipeline st.files with
    | .error message => (some .failure, st.complain message)
    | .ok files => (none, { st with files })

end Stage

/-- Takes stages up to the first that ends the program. -/
def through (options : Options) (stdin : List UInt8) :
    List Stage → Standing → Option ExitOutcome × Standing
  | [], st => (none, st)
  | stage :: rest, st =>
    match stage.act options stdin st with
    | (some outcome, st) => (some outcome, st)
    | (none, st) => through options stdin rest st

section

variable {options : Options} {stdin : List UInt8} {files : FileStore}

theorem through_append (first rest : List Stage) (st : Standing) :
    through options stdin (first ++ rest) st =
      match through options stdin first st with
      | (some outcome, st) => (some outcome, st)
      | (none, st) => through options stdin rest st := by
  induction first generalizing st with
  | nil => rfl
  | cons stage first ih =>
      rw [List.cons_append, through, through]
      rcases stage.act options stdin st with ⟨_ | outcome, st'⟩
      · exact ih st'
      · rfl

/-- Binding a source leaves the files and the error stream alone. -/
theorem preload_world (options : Options) (session : Session Unit) (world : World) :
    (preload options session world).world = world := by
  unfold preload
  split
  · rfl
  · rw [Session.preload]
    split <;> rfl

/-- **A script opens if its path leads somewhere,** be it to a directory. -/
theorem openScript_iff :
    (∃ script, openScript options stdin files = .ok script)
      ↔ ∀ path, options.script = some path → ∃ place, files.resolve path = .ok place := by
  unfold openScript
  cases options.script with
  | none => exact iff_of_true ⟨_, rfl⟩ (by simp)
  | some path =>
      dsimp only
      rw [FileStore.read]
      cases hr : files.resolve path with
      | ok place =>
          refine iff_of_true ?_ (fun _ h => ⟨place, Option.some.inj h ▸ hr⟩)
          dsimp only
          rcases files.node? place with _ | ((_ | _) | _) <;> exact ⟨_, rfl⟩
      | error error =>
          refine iff_of_false ?_ (fun h => ?_)
          · have hne : error ≠ .isDirectory := fun he =>
              FileStore.resolve_ne_isDirectory (he ▸ hr)
            rintro ⟨script, h⟩
            cases error <;> first | exact absurd rfl hne | exact absurd h (by simp)
          · obtain ⟨place, hp⟩ := h path rfl
            exact absurd (hr.symm.trans hp) (by simp)

/-- **A script that could be opened is still open after the output was created.** -/
theorem openScript_created {created : FileStore}
    (h : ∃ script, openScript options stdin files = .ok script)
    (hc : createOutput options files = .ok created) :
    ∃ script, openScript options stdin created = .ok script := by
  unfold createOutput at hc
  split at hc
  · rw [← Except.ok.inj hc]; exact h
  · rw [openScript_iff] at h ⊢
    intro path hpath
    obtain ⟨place, hplace⟩ := h path hpath
    exact ⟨place, FileStore.resolve_write hc hplace⟩

end

/-- **The program takes its stages up to the first that ends it.** -/
theorem run_eq_through (options : Options) (stdin : List UInt8) (files : FileStore) :
    run options stdin files =
      let left := through options stdin Stage.all (.start options files)
      left.2.finish (left.1.getD .success) := by
  unfold run Stage.all
  dsimp only [through, Stage.act, Standing.start]
  cases options.commands with
  | true => rfl
  | false =>
      rw [if_neg (by simp), if_neg (by simp)]
      dsimp only
      cases hscript : openScript options stdin files with
      | error error => rfl
      | ok script =>
          dsimp only
          cases hcreated : createOutput options files with
          | error error => rfl
          | ok created =>
              dsimp only [Standing.world]
              have hworld := preload_world options
                (Session.start Registry.standard Engine.plain () options.watch)
                ⟨created, .sound ""⟩
              generalize preload options _ _ = bound at hworld ⊢
              obtain ⟨result, session, world⟩ := bound
              obtain rfl : world = _ := hworld
              cases result with
              | error error => rfl
              | ok _ =>
                  obtain ⟨again, hagain⟩ := openScript_created ⟨script, hscript⟩ hcreated
                  dsimp only [runSession, Standing.after, Standing.carryOut, Standing.script,
                    Standing.world]
                  rw [hagain]
                  dsimp only
                  generalize Session.run _ _ _ _ = run
                  cases run.result with
                  | error error => rfl
                  | ok counted =>
                      dsimp only
                      cases dump options run.session.pipeline _ <;> rfl

/-! ## Coming to a stage -/

/-- The program comes to a stage: all that are taken before it have passed. -/
def Reaches (options : Options) (stdin : List UInt8) (files : FileStore) (stage : Stage)
    (st : Standing) : Prop :=
  through options stdin stage.before (.start options files) = (none, st)

/-- The program comes to its end: all stages have passed. -/
def Passes (options : Options) (stdin : List UInt8) (files : FileStore) (st : Standing) : Prop :=
  through options stdin Stage.all (.start options files) = (none, st)

/-- How a stage ends the program, with the code to exit with. -/
def Stage.Ends (options : Options) (stdin : List UInt8) (stage : Stage) (st : Standing)
    (code : Nat) : Prop :=
  match stage with
  | table => options.commands = true ∧ code = 1
  | script => (∃ error, openScript options stdin st.files = .error error) ∧ code = 2
  | output => (∃ error, createOutput options st.files = .error error) ∧ code = 3
  | source =>
    ∃ error, (preload options st.session st.world).result = .error error
      ∧ code = (ExitOutcome.ofError error).code
  | session =>
    ∃ error, (st.carryOut options stdin).result = .error error
      ∧ code = (ExitOutcome.ofError error).code
  | dump =>
    (∃ message, CommandLine.dump options st.session.pipeline st.files = .error message) ∧ code = 6

section

variable {options : Options} {stdin : List UInt8} {files : FileStore} {stage : Stage}
  {st st' : Standing} {outcome : ExitOutcome}

/-- A stage that ends the program does so in the way that is laid down for it. -/
theorem Stage.ends_of_act (h : stage.act options stdin st = (some outcome, st')) :
    stage.Ends options stdin st outcome.code := by
  cases stage <;> dsimp only [act] at h <;> split at h <;> cases h
  · rename_i hc; exact ⟨hc, rfl⟩
  · rename_i error he; exact ⟨⟨error, he⟩, rfl⟩
  · rename_i error he; exact ⟨⟨error, he⟩, rfl⟩
  · rename_i error he; exact ⟨error, he, rfl⟩
  · rename_i error he; exact ⟨error, he, rfl⟩
  · rename_i message he; exact ⟨⟨message, he⟩, rfl⟩

/-- Unless it is the session, a stage that ends the program has changed nothing before. -/
theorem act_left (h : stage.act options stdin st = (some outcome, st')) (hs : stage ≠ .session) :
    st'.files = st.files ∧ st'.stdout = st.stdout := by
  cases stage with
  | session => exact absurd rfl hs
  | _ =>
      dsimp only [Stage.act] at h
      split at h <;> cases h
      exact ⟨rfl, rfl⟩

/-- No stage ends the program with the code of a success. -/
theorem Stage.Ends.ne_zero {code : Nat} (h : stage.Ends options stdin st code) : code ≠ 0 := by
  have herror : ∀ error, (ExitOutcome.ofError error).code ≠ 0 := by
    intro error; cases error <;> simp [ExitOutcome.ofError, ExitOutcome.code]
  cases stage with
  | table => rw [h.2]; decide
  | script => rw [h.2]; decide
  | output => rw [h.2]; decide
  | source => obtain ⟨error, _, rfl⟩ := h; exact herror error
  | session => obtain ⟨error, _, rfl⟩ := h; exact herror error
  | dump => rw [h.2]; decide

theorem through_ended {stages : List Stage} :
    ∀ {st : Standing}, through options stdin stages st = (some outcome, st') →
      ∃ front stage rest mid, stages = front ++ stage :: rest
        ∧ through options stdin front st = (none, mid)
        ∧ stage.act options stdin mid = (some outcome, st') := by
  induction stages with
  | nil => intro st h; exact absurd h (by simp [through])
  | cons first rest ih =>
      intro st h
      rw [through] at h
      rcases hact : first.act options stdin st with ⟨_ | own, mid⟩
      · rw [hact] at h
        obtain ⟨front, stage, rest, last, rfl, hfront, hstage⟩ := ih h
        exact ⟨first :: front, stage, rest, last, rfl, by rw [through, hact]; exact hfront,
          hstage⟩
      · rw [hact] at h
        exact ⟨[], first, rest, st, rfl, rfl, hact.trans h⟩

theorem Stage.all_eq (stage : Stage) : ∃ rest, all = stage.before ++ stage :: rest := by
  cases stage <;> exact ⟨_, rfl⟩

theorem Stage.before_eq {front rest : List Stage} (h : all = front ++ stage :: rest) :
    front = stage.before := by
  have hnodup : (front ++ stage :: rest).Nodup := h ▸ (by decide)
  have hfront : ∀ other ∈ front, decide (other ≠ stage) = true := fun other ho =>
    decide_eq_true ((List.nodup_append.mp hnodup).2.2 other ho stage (List.mem_cons_self ..))
  rw [before, h, List.takeWhile_append_of_pos hfront, List.takeWhile_cons_of_neg (by simp),
    List.append_nil]

/-- **A stage that ends the program decides what that leaves behind.** -/
theorem finish_ended (h : Reaches options stdin files stage st)
    (ha : stage.act options stdin st = (some outcome, st')) :
    run options stdin files = st'.finish outcome := by
  obtain ⟨rest, hall⟩ := stage.all_eq
  unfold Reaches at h
  rw [run_eq_through, hall, through_append, h]
  dsimp only
  rw [through, ha]
  rfl

theorem finish_passed (h : Passes options stdin files st) :
    run options stdin files = st.finish .success := by
  unfold Passes at h
  rw [run_eq_through, h]
  rfl

/-- **Some stage is the first to end the program, or all of them pass.** -/
theorem ended_or_passed (options : Options) (stdin : List UInt8) (files : FileStore) :
    (∃ stage st outcome st', Reaches options stdin files stage st
        ∧ stage.act options stdin st = (some outcome, st'))
      ∨ ∃ st, Passes options stdin files st := by
  rcases h : through options stdin Stage.all (.start options files) with ⟨_ | outcome, st'⟩
  · exact Or.inr ⟨st', h⟩
  · obtain ⟨front, stage, rest, st, hall, hfront, hact⟩ := through_ended h
    rw [Stage.before_eq hall] at hfront
    exact Or.inl ⟨stage, st, outcome, st', hfront, hact⟩

theorem through_concat (stages : List Stage) (stage : Stage) (st st' : Standing) :
    through options stdin (stages ++ [stage]) st = (none, st')
      ↔ ∃ mid, through options stdin stages st = (none, mid)
        ∧ stage.act options stdin mid = (none, st') := by
  rw [through_append]
  rcases through options stdin stages st with ⟨_ | outcome, mid⟩
  · dsimp only
    rw [through]
    rcases hact : stage.act options stdin mid with ⟨_ | outcome, last⟩
    · simp [through, hact]
    · simp [hact]
  · simp

/-- One stage later. -/
theorem reaches_next (stage : Stage) {next : Stage} (h : next.before = stage.before ++ [stage]) :
    Reaches options stdin files next st
      ↔ ∃ mid, Reaches options stdin files stage mid
        ∧ stage.act options stdin mid = (none, st) := by
  unfold Reaches
  rw [h]
  exact through_concat ..

/-- The source is bound in the files that have the output. -/
theorem reaches_source :
    Reaches options stdin files .source st
      ↔ options.commands = false ∧ (∃ script, openScript options stdin files = .ok script)
        ∧ ∃ created, createOutput options files = .ok created
          ∧ st = { Standing.start options files with files := created } := by
  unfold Reaches
  show through options stdin [.table, .script, .output] _ = _ ↔ _
  dsimp only [through, Stage.act]
  cases options.commands with
  | true => simp
  | false =>
      rw [if_neg (by simp)]
      dsimp only [Standing.start]
      cases openScript options stdin files with
      | error error => simp
      | ok script =>
          dsimp only
          cases createOutput options files <;> simp [eq_comm]

/-- The session starts with the source that was asked for. -/
theorem reaches_session :
    Reaches options stdin files .session st
      ↔ ∃ mid, Reaches options stdin files .source mid
        ∧ (preload options mid.session mid.world).result = .ok ()
        ∧ st = { mid with session := (preload options mid.session mid.world).session } := by
  rw [reaches_next .source rfl]
  refine exists_congr fun mid => and_congr_right fun _ => ?_
  dsimp only [Stage.act]
  split <;> rename_i hr <;> simp [hr, eq_comm]

theorem reaches_dump :
    Reaches options stdin files .dump st
      ↔ ∃ mid, Reaches options stdin files .session mid
        ∧ (∃ counted, (mid.carryOut options stdin).result = .ok counted)
        ∧ st = mid.after options stdin := by
  rw [reaches_next .session rfl]
  refine exists_congr fun mid => and_congr_right fun _ => ?_
  dsimp only [Stage.act]
  split <;> rename_i hr <;> simp [hr, eq_comm]

/-- The first stages change nothing that those after them see. -/
theorem reaches_early (h : Reaches options stdin files stage st)
    (he : stage ∈ [Stage.table, .script, .output]) : st = .start options files := by
  have htable : ∀ {st}, Reaches options stdin files .table st → st = .start options files :=
    fun h => (Prod.mk.inj h).2.symm
  have hscript : ∀ {st}, Reaches options stdin files .script st → st = .start options files := by
    intro st h
    obtain ⟨mid, hmid, hact⟩ := (reaches_next .table rfl).mp h
    dsimp only [Stage.act] at hact
    split at hact <;> cases hact
    exact htable hmid
  cases stage with
  | table => exact htable h
  | script => exact hscript h
  | output =>
      obtain ⟨mid, hmid, hact⟩ := (reaches_next .script rfl).mp h
      dsimp only [Stage.act] at hact
      split at hact <;> cases hact
      exact hscript hmid
  | _ => exact absurd he (by decide)

theorem passes_iff :
    Passes options stdin files st
      ↔ ∃ mid, Reaches options stdin files .dump mid
        ∧ ∃ written, dump options mid.session.pipeline mid.files = .ok written
          ∧ st = { mid with files := written } := by
  unfold Passes
  show through options stdin (Stage.before .dump ++ [.dump]) _ = _ ↔ _
  rw [through_concat]
  refine exists_congr fun mid => and_congr_right fun _ => ?_
  dsimp only [Stage.act]
  split <;> rename_i hr <;> simp [hr, eq_comm]

end

end RasterScript.CommandLine
