import RasterScript.Proofs.Modes
import RasterScript.Proofs.Stages

/-!
# What a program leaves in its files

A program writes to three files at most, and each of them in one stage only: the
output is emptied when it is created, and filled when the session is over; the
watched file is written by lines; and the pipeline is written at the end. What is
in a file afterwards is therefore a matter of which stages were reached, which is
what `Course` lists.
-/

namespace RasterScript

namespace Session

variable {σ : Type}

/-- **A run touches no file but the watched one.** -/
theorem run_confined {s : Session σ} (hp : s.engine.IsPure) (w : World) (script : Script)
    (out : Output) : w.files.Confined s.watch.toList (s.run w script out).world.files := by
  rw [run_world]
  cases hw : s.watch with
  | none =>
      have hkeep : (s.steps w 1 script.lines).session.watch = none
          ∧ (s.steps w 1 script.lines).world.files = w.files :=
        steps_keep (P := fun t u => t.watch = none ∧ u.files = w.files)
          (fun t u line text h => by
            rw [step_of_batch h.1]
            have hline := processLine_untouched t u line text
            exact ⟨hline.watch.trans h.1, hline.files.trans h.2⟩)
          ⟨hw, rfl⟩
      rw [hkeep.2]
      exact .refl _ _
  | some path =>
      have hkeep : Watching path (s.steps w 1 script.lines).session
          ∧ w.files.Rewritten path (s.steps w 1 script.lines).world.files :=
        steps_keep (P := fun t u => Watching path t ∧ w.files.Rewritten path u.files)
          (fun t u line text h => ⟨h.1.step u line text, step_rewritten h.1 h.2 line text⟩)
          ⟨⟨hw, hp⟩, .refl⟩
      exact hkeep.2.confined

/-- **What a run puts out is what its session shows in the end,** if a batch and successful. -/
theorem run_written_iff {s : Session σ} (hp : s.engine.IsPure) {w : World} {script : Script}
    {encoded : Encoded} :
    (s.run w script ⟨[], none⟩).output.written = some encoded
      ↔ s.watch = none ∧ (∃ counted, (s.run w script ⟨[], none⟩).result = .ok counted)
        ∧ (s.run w script ⟨[], none⟩).session.rendering = some (.ok (some encoded)) := by
  have hengine : (s.steps w 1 script.lines).session.engine.IsPure :=
    steps_keep (P := fun t _ => t.engine.IsPure)
      (fun t u line text h => by rw [step_engine]; exact h) hp
  have hshown : (s.run w script ⟨[], none⟩).session.rendering
      = (s.steps w 1 script.lines).session.rendering :=
    have h := run_alike s w script ⟨[], none⟩
    rendering_eq_of_pure hengine h.engine h.pipeline h.binding
  have hwatch := steps_watch s w 1 script.lines
  rw [hshown]
  rcases run_cases s w script ⟨[], none⟩ with
    ⟨error, _, hr⟩ | ⟨_, ⟨fault, _, hr⟩ | ⟨_, ⟨hw, hr⟩ | ⟨hw, hr⟩⟩⟩
  · simp [hr]
  · simp [hr]
  · rw [isWatch, hwatch] at hw
    simp [hr, Option.isSome_iff_ne_none.mp hw]
  · rw [isWatch, hwatch] at hw
    have hnone : s.watch = none := by simpa using hw
    obtain ⟨st, hfinal⟩ := renderFinal_eq (s.steps w 1 script.lines).session ⟨[], none⟩
    rw [hr, hfinal]
    rcases (s.steps w 1 script.lines).session.rendering with _ | (error | _ | shown)
    · simp
    · simp [Except.map]
    · simp
    · simp [Output.write, Except.map, hnone]

end Session

namespace CommandLine

variable {options : Options} {stdin : List UInt8} {files created : FileStore} {st : Standing}

/-! ## What each stage writes -/

theorem created_confined (h : createOutput options files = .ok created) :
    files.Confined options.output.toList created := by
  unfold createOutput at h
  split at h
  · rw [← Except.ok.inj h]; exact .refl _ _
  · rename_i path hpath
    rw [hpath]
    exact FileStore.write_confined h

/-- An output that was created can be written. -/
theorem created_writable {path : String} (hp : options.output = some path)
    (h : createOutput options files = .ok created) : ∃ place, files.writable path = .ok place := by
  unfold createOutput at h
  rw [hp] at h
  obtain ⟨place, hw, _⟩ := FileStore.write_ok h
  exact ⟨place, hw⟩

/-- The output is empty once it is created. -/
theorem created_empty {path : String} (hp : options.output = some path)
    (h : createOutput options files = .ok created) : created.read path = .ok (.bytes []) := by
  unfold createOutput at h
  rw [hp] at h
  exact FileStore.read_write h

/-- Where there is no output file, the image goes to standard output. -/
theorem deliver_stdout (hp : options.output = none) (written : Option Encoded)
    (files : FileStore) : deliver options written files = (written, files) := by
  unfold deliver
  rw [hp]

/-- Else it goes into the file. -/
theorem deliver_output {path : String} {place : Place} (hp : options.output = some path)
    (hw : files.writable path = .ok place) (written : Option Encoded) :
    (deliver options written files).1 = none
      ∧ files.Confined [path] (deliver options written files).2
      ∧ (deliver options written files).2.read path =
        match written with
        | some encoded => .ok (.picture encoded)
        | none => files.read path := by
  unfold deliver
  rw [hp]
  cases written with
  | none => exact ⟨rfl, .refl _ _, rfl⟩
  | some encoded =>
      obtain ⟨after, hafter⟩ := (FileStore.Confined.refl [] files).write hw (.picture encoded)
      dsimp only
      rw [hafter]
      exact ⟨rfl, FileStore.write_confined hafter, FileStore.read_write hafter⟩

theorem deliver_none (options : Options) (files : FileStore) :
    deliver options none files = (none, files) := by
  unfold deliver
  split
  · rename_i h; exact absurd h (by simp)
  · rfl

/-- Where a dump is asked for, the last stage is one write. -/
theorem dump_ok_iff {path : String} {pipeline : Pipeline} {written : FileStore}
    (hp : options.dump = some path) :
    dump options pipeline files = .ok written
      ↔ files.write path (Contents.ofText pipeline.dump) = .ok written := by
  unfold dump
  rw [hp]
  dsimp only
  cases files.write path (Contents.ofText pipeline.dump) <;> simp

theorem dump_confined {pipeline : Pipeline} {written : FileStore}
    (h : dump options pipeline files = .ok written) :
    files.Confined options.dump.toList written := by
  cases hp : options.dump with
  | none =>
      unfold dump at h
      rw [hp] at h
      rw [← Except.ok.inj h]
      exact .refl _ _
  | some path => exact FileStore.write_confined ((dump_ok_iff hp).mp h)

/-! ## The session in its program -/

/-- The session is about to start, or its source about to be bound. -/
structure Started (options : Options) (files : FileStore) (st : Standing) : Prop where
  watch : st.session.watch = options.watch
  pure : st.session.engine.IsPure
  /-- Nothing was written to standard output yet. -/
  stdout : st.stdout = none
  /-- The output was created, and no other file was written. -/
  created : createOutput options files = .ok st.files

theorem started_source (h : Reaches options stdin files .source st) :
    Started options files st := by
  obtain ⟨_, _, created, hc, rfl⟩ := reaches_source.mp h
  exact ⟨rfl, Engine.isPure_ofFunctions _ _, rfl, hc⟩

theorem started_session (h : Reaches options stdin files .session st) :
    Started options files st := by
  obtain ⟨mid, hmid, _, rfl⟩ := reaches_session.mp h
  have hs := started_source hmid
  have hsame : (preload options mid.session mid.world).session.watch = mid.session.watch
      ∧ (preload options mid.session mid.world).session.engine = mid.session.engine := by
    unfold preload
    split
    · exact ⟨rfl, rfl⟩
    · rw [Session.preload]
      split <;> exact ⟨rfl, rfl⟩
  exact ⟨hsame.1.trans hs.watch, by rw [hsame.2]; exact hs.pure, hs.stdout, hs.created⟩

/-- A program comes to a stage in one way. -/
theorem Reaches.unique {stage : Stage} {st st' : Standing}
    (h : Reaches options stdin files stage st) (h' : Reaches options stdin files stage st') :
    st' = st :=
  (Prod.mk.inj (h.symm.trans h')).2.symm

/-- Without its output no session starts. -/
theorem not_session_of_early (h : ∀ st, ¬ Reaches options stdin files .source st)
    (last : Standing) : ¬ Reaches options stdin files .session last := fun hlast =>
  have ⟨mid, hmid, _⟩ := reaches_session.mp hlast
  h mid hmid

/-- Without its source no session starts. -/
theorem not_session_of_unbound {error : Error} (h : Reaches options stdin files .source st)
    (he : (preload options st.session st.world).result = .error error) (last : Standing) :
    ¬ Reaches options stdin files .session last := by
  intro hlast
  obtain ⟨mid, hmid, hok, _⟩ := reaches_session.mp hlast
  rw [Reaches.unique h hmid, he] at hok
  exact absurd hok (by simp)

/--
A program yields an image: its session is a batch that succeeds, and the image is
the render at its end.
-/
def Yields (options : Options) (stdin : List UInt8) (files : FileStore) (encoded : Encoded) :
    Prop :=
  options.watch = none ∧ ∃ st counted, Reaches options stdin files .session st
    ∧ (st.carryOut options stdin).result = .ok counted
    ∧ (st.carryOut options stdin).session.rendering = some (.ok (some encoded))

/-- Without a session there is no image. -/
theorem not_yields (h : ∀ st, ¬ Reaches options stdin files .session st) (encoded : Encoded) :
    ¬ Yields options stdin files encoded := fun ⟨_, st, _, hst, _⟩ => h st hst

/-- **The image that a session puts out is the one that its program yields.** -/
theorem written_iff (h : Reaches options stdin files .session st) (encoded : Encoded) :
    (st.carryOut options stdin).output.written = some encoded
      ↔ Yields options stdin files encoded := by
  have hs := started_session h
  unfold Yields
  rw [← hs.watch]
  refine (Session.run_written_iff hs.pure).trans (and_congr_right fun _ => ?_)
  constructor
  · rintro ⟨⟨counted, hok⟩, hr⟩
    exact ⟨st, counted, h, hok, hr⟩
  · rintro ⟨other, counted, ho, hok, hr⟩
    rw [Reaches.unique h ho] at hok hr
    exact ⟨⟨counted, hok⟩, hr⟩

/-! ## The course of a program -/

/-- How far a program comes, as to what that leaves in its files and writes to standard output. -/
inductive Course (options : Options) (stdin : List UInt8) (files : FileStore)
    (finish : Finish) : Prop where
  /-- It ends before a source is bound, and no file was touched. -/
  | early :
      (∀ st, ¬ Reaches options stdin files .source st) → finish.files = files →
      finish.stdout = none → Course options stdin files finish
  /-- The source cannot be bound. -/
  | unbound {st : Standing} {error : Error} :
      Reaches options stdin files .source st →
      (preload options st.session st.world).result = .error error →
      finish.outcome = .ofError error → finish.files = st.files → finish.stdout = none →
      Course options stdin files finish
  /-- The session fails. -/
  | broken {st : Standing} {error : Error} :
      Reaches options stdin files .session st →
      (st.carryOut options stdin).result = .error error →
      finish.outcome = .ofError error →
      finish.files = (st.carryOut options stdin).world.files → finish.stdout = none →
      Course options stdin files finish
  /-- The session succeeds, but its pipeline cannot be written. -/
  | undumped {st : Standing} {counted : Summary} {message : String} :
      Reaches options stdin files .session st →
      (st.carryOut options stdin).result = .ok counted →
      dump options (st.carryOut options stdin).session.pipeline
        (st.after options stdin).files = .error message →
      finish.outcome = .failure →
      finish.files = (st.after options stdin).files →
      finish.stdout = (st.after options stdin).stdout →
      Course options stdin files finish
  /-- All succeeds. -/
  | whole {st : Standing} {counted : Summary} :
      Reaches options stdin files .session st →
      (st.carryOut options stdin).result = .ok counted →
      dump options (st.carryOut options stdin).session.pipeline
        (st.after options stdin).files = .ok finish.files →
      finish.outcome = .success →
      finish.stdout = (st.after options stdin).stdout →
      Course options stdin files finish

/-- Where no source is bound, the program ends in one of the first three stages. -/
theorem ended_early (h : ∀ st, ¬ Reaches options stdin files .source st) :
    (run options stdin files).files = files ∧ (run options stdin files).stdout = none := by
  have hdump : ∀ st, ¬ Reaches options stdin files .dump st := fun st hd =>
    have ⟨mid, hmid, _⟩ := reaches_dump.mp hd
    not_session_of_early h mid hmid
  rcases ended_or_passed options stdin files with ⟨stage, st, outcome, st', hreach, hact⟩ | ⟨st, hp⟩
  · have hearly : stage ∈ [.table, .script, .output] := by
      cases stage with
      | source => exact absurd hreach (h st)
      | session => exact absurd hreach (not_session_of_early h st)
      | dump => exact absurd hreach (hdump st)
      | _ => decide
    have hleft := act_left hact (by rintro rfl; exact absurd hearly (by decide))
    rw [finish_ended hreach hact]
    rw [reaches_early hreach hearly] at hleft
    exact hleft
  · have ⟨mid, hmid, _⟩ := passes_iff.mp hp
    exact absurd hmid (hdump mid)

/-- A session that fails puts nothing out. -/
theorem after_broken {st : Standing} {error : Error}
    (h : Reaches options stdin files .session st)
    (he : (st.carryOut options stdin).result = .error error) :
    (st.after options stdin).files = (st.carryOut options stdin).world.files
      ∧ (st.after options stdin).stdout = none := by
  have hnone : (st.carryOut options stdin).output.written = none := by
    cases hw : (st.carryOut options stdin).output.written with
    | none => rfl
    | some encoded =>
        obtain ⟨_, ⟨counted, hok⟩, _⟩ :=
          (Session.run_written_iff (started_session h).pure).mp hw
        exact absurd (he.symm.trans hok) (by simp)
  rw [Standing.after_files, Standing.after_stdout, hnone, deliver_none]
  exact ⟨rfl, rfl⟩

/-- **Every program takes one of these courses.** -/
theorem run_course (options : Options) (stdin : List UInt8) (files : FileStore) :
    Course options stdin files (run options stdin files) := by
  by_cases hearly : ∀ st, ¬ Reaches options stdin files .source st
  · exact .early hearly (ended_early hearly).1 (ended_early hearly).2
  obtain ⟨st, hst⟩ := Classical.not_forall_not.mp hearly
  cases hbound : (preload options st.session st.world).result with
  | error error =>
      have hact : Stage.act options stdin .source st =
          (some (.ofError error), st.complain error.message) := by
        dsimp only [Stage.act]; rw [hbound]
      have hfinish := finish_ended hst hact
      refine .unbound hst hbound ?_ ?_ ?_ <;> rw [hfinish]
      · rfl
      · rfl
      · exact (started_source hst).stdout
  | ok _ =>
      -- from here on it is the session alone that counts
      have hsession := reaches_session.mpr ⟨st, hst, hbound, rfl⟩
      generalize ({ st with session := (preload options st.session st.world).session } : Standing)
        = st at hsession
      cases hr : (st.carryOut options stdin).result with
      | error error =>
          have hact : Stage.act options stdin .session st =
              (some (.ofError error), (st.after options stdin).complain error.message) := by
            dsimp only [Stage.act]; rw [hr]
          have hfinish := finish_ended hsession hact
          have hleft := after_broken hsession hr
          refine .broken hsession hr ?_ ?_ ?_ <;> rw [hfinish]
          · rfl
          · exact hleft.1
          · exact hleft.2
      | ok counted =>
          have hdump := reaches_dump.mpr ⟨st, hsession, ⟨counted, hr⟩, rfl⟩
          cases hd : dump options (st.carryOut options stdin).session.pipeline
              (st.after options stdin).files with
          | error message =>
              have hact : Stage.act options stdin .dump (st.after options stdin) =
                  (some .failure, (st.after options stdin).complain message) := by
                dsimp only [Stage.act]
                rw [Standing.after_session, hd]
              have hfinish := finish_ended hdump hact
              refine .undumped hsession hr hd ?_ ?_ ?_ <;> rw [hfinish] <;> rfl
          | ok written =>
              have hfinish := finish_passed (passes_iff.mpr ⟨_, hdump, written, hd, rfl⟩)
              refine .whole hsession hr ?_ ?_ ?_ <;> rw [hfinish]
              · exact hd
              · rfl
              · rfl

/-! ## The output file -/

/-- The lines of the script write to the watched file alone. -/
theorem carryOut_confined (stdin : List UInt8) (h : Started options files st) :
    st.files.Confined options.watch.toList (st.carryOut options stdin).world.files := by
  rw [← h.watch]
  exact Session.run_confined h.pure st.world _ _

/-- The files when the session is over, before its image goes out. -/
theorem session_confined (stdin : List UInt8) (h : Started options files st) :
    files.Confined (options.output.toList ++ options.watch.toList)
      (st.carryOut options stdin).world.files :=
  (created_confined h.created).trans (carryOut_confined stdin h)

/-- Where there is an output file, the image goes there and nowhere else. -/
theorem delivered {path : String} (stdin : List UInt8) (h : Started options files st)
    (hp : options.output = some path) :
    (st.after options stdin).stdout = none
      ∧ (st.carryOut options stdin).world.files.Confined [path] (st.after options stdin).files
      ∧ (st.after options stdin).files.read path =
        match (st.carryOut options stdin).output.written with
        | some encoded => .ok (.picture encoded)
        | none => (st.carryOut options stdin).world.files.read path := by
  obtain ⟨place, hplace⟩ := created_writable hp h.created
  exact deliver_output hp (((session_confined stdin h).writable path place).mpr hplace) _

/-- The files after the session, its image among them. -/
theorem after_confined (stdin : List UInt8) (h : Started options files st) :
    files.Confined (options.output.toList ++ options.watch.toList)
      (st.after options stdin).files := by
  have hsession := session_confined stdin h
  cases hp : options.output with
  | none =>
      rw [Standing.after_files, deliver_stdout hp]
      rw [hp] at hsession
      exact hsession
  | some path =>
      rw [hp] at hsession
      exact (hsession.trans (delivered stdin h hp).2.1).mono fun other ho =>
        (List.mem_append.mp ho).elim id (List.mem_append_left _)

/-- **An output file that is not watched holds the image that was put out, or nothing.** -/
theorem after_output {path : String} (h : Started options files st)
    (hp : options.output = some path)
    (hw : ∀ other ∈ options.watch.toList, ¬ files.Collide path other) :
    (st.after options stdin).files.read path =
      match (st.carryOut options stdin).output.written with
      | some encoded => .ok (.picture encoded)
      | none => .ok (.bytes []) := by
  obtain ⟨place, hplace⟩ := created_writable hp h.created
  -- no line has written to it
  have hread : (st.carryOut options stdin).world.files.read path = .ok (.bytes []) :=
    ((created_confined h.created).read_later (carryOut_confined stdin h) hplace hw).trans
      (created_empty hp h.created)
  rw [(delivered stdin h hp).2.2, hread]

/-- **Once an output file was created, it holds what the program yields, or nothing.** -/
theorem output_held {path : String} (hp : options.output = some path)
    (ha : ∀ other ∈ options.watch.toList ++ options.dump.toList, ¬ files.Collide path other)
    (hs : Reaches options stdin files .source st) :
    ∃ held : Option Encoded, (∀ encoded, held = some encoded ↔ Yields options stdin files encoded)
      ∧ (run options stdin files).files.read path =
        match held with
        | some encoded => .ok (.picture encoded)
        | none => .ok (.bytes []) := by
  have hwatch : ∀ other ∈ options.watch.toList, ¬ files.Collide path other := fun other ho =>
    ha other (List.mem_append_left _ ho)
  cases run_course options stdin files with
  | early hnone => exact absurd hs (hnone st)
  | unbound hsource hbound _ hfiles =>
      refine ⟨none, fun encoded => iff_of_false (by simp) ?_, ?_⟩
      · exact not_yields (not_session_of_unbound hsource hbound) encoded
      · rw [hfiles]
        exact created_empty hp (started_source hsource).created
  | broken hsession herror _ hfiles =>
      refine ⟨_, written_iff hsession, ?_⟩
      rw [hfiles, ← (after_broken hsession herror).1]
      exact after_output (started_session hsession) hp hwatch
  | undumped hsession _ _ _ hfiles =>
      refine ⟨_, written_iff hsession, ?_⟩
      rw [hfiles]
      exact after_output (started_session hsession) hp hwatch
  | @whole st _ hsession _ hdump =>
      refine ⟨_, written_iff hsession, ?_⟩
      have hs := started_session hsession
      obtain ⟨place, hplace⟩ := created_writable hp hs.created
      rw [(after_confined stdin hs).read_later (dump_confined hdump) hplace fun other ho =>
        ha other (List.mem_append_right _ ho)]
      exact after_output hs hp hwatch

/-- A source that is the output as well is found empty. -/
theorem source_emptied {path : String} (hp : options.output = some path)
    (hf : options.source = some path) (hs : Reaches options stdin files .source st) :
    (run options stdin files).outcome = .bindFailed
      ∧ (run options stdin files).files.read path = .ok (.bytes []) := by
  have hempty := created_empty hp (started_source hs).created
  have hbound : (preload options st.session st.world).result =
      .error (.bind path .unrecognized) := by
    have hload : Session.load st.files path = .error (.bind path .unrecognized) := by
      unfold Session.load
      rw [hempty]
      rfl
    unfold preload
    rw [hf]
    dsimp only
    rw [Session.preload, show st.world.files = st.files from rfl, hload]
  have hnone := not_session_of_unbound hs hbound
  cases run_course options stdin files with
  | early hn => exact absurd hs (hn st)
  | unbound hsource herror houtcome hfiles =>
      obtain rfl := Reaches.unique hs hsource
      rw [hbound] at herror
      rw [houtcome, hfiles, ← Except.error.inj herror]
      exact ⟨rfl, hempty⟩
  | broken hsession => exact absurd hsession (hnone _)
  | undumped hsession => exact absurd hsession (hnone _)
  | whole hsession => exact absurd hsession (hnone _)

/--
**An output file is emptied first and filled last.** Take an output file that the
program neither watches nor dumps to. It holds in the end what it held at the
start, or the final render in full, just if it was not created at all, or was
empty from the start, or the program is a batch that succeeds and shows a picture.
In all other cases it is left empty. And a program that was to read its source
from this file cannot bind it, and leaves it empty too.
-/
theorem output_kept_iff (options : Options) (stdin : List UInt8) (files : FileStore)
    (path : String) (hp : options.output = some path)
    (ha : ∀ other ∈ options.watch.toList ++ options.dump.toList, ¬ files.Collide path other) :
    let finish := run options stdin files
    ((finish.files.read path = files.read path
        ∨ ∃ st encoded, Reaches options stdin files .session st
          ∧ (st.carryOut options stdin).session.rendering = some (.ok (some encoded))
          ∧ finish.files.read path = .ok (.picture encoded))
      ↔ (∀ st, ¬ Reaches options stdin files .source st) ∨ files.read path = .ok (.bytes [])
        ∨ ∃ encoded, Yields options stdin files encoded)
      ∧ ∀ st, Reaches options stdin files .source st →
        ((∀ encoded, ¬ Yields options stdin files encoded) →
          finish.files.read path = .ok (.bytes []))
        ∧ (options.source = some path →
          finish.outcome = .bindFailed ∧ finish.files.read path = .ok (.bytes [])) := by
  intro finish
  refine ⟨?_, fun st hs => ⟨fun hnone => ?_, fun hf => source_emptied hp hf hs⟩⟩
  · by_cases hs : ∃ st, Reaches options stdin files .source st
    · obtain ⟨st, hs⟩ := hs
      obtain ⟨held, hyields, hread⟩ := output_held hp ha hs
      cases held with
      | none =>
          -- emptied, which can only be what it was if it was empty before
          constructor
          · rintro (hsame | ⟨_, encoded, _, _, hfull⟩)
            · exact Or.inr (Or.inl (hsame.symm.trans hread))
            · exact absurd (hread.symm.trans hfull) (by simp)
          · rintro (hnone | hempty | ⟨encoded, hy⟩)
            · exact absurd hs (hnone st)
            · exact Or.inl (hread.trans hempty.symm)
            · exact absurd ((hyields encoded).mpr hy) (by simp)
      | some encoded =>
          obtain ⟨hbatch, last, counted, hlast, hok, hshown⟩ := (hyields encoded).mp rfl
          exact iff_of_true (Or.inr ⟨last, encoded, hlast, hshown, hread⟩)
            (Or.inr (Or.inr ⟨encoded, (hyields encoded).mp rfl⟩))
    · have hnone := not_exists.mp hs
      refine iff_of_true (Or.inl ?_) (Or.inl hnone)
      exact congrArg (·.read path) (ended_early hnone).1
  · obtain ⟨held, hyields, hread⟩ := output_held hp ha hs
    cases held with
    | none => exact hread
    | some encoded => exact absurd ((hyields encoded).mp rfl) (hnone encoded)

/-- A program that binds no source, with an image in its output file and a dump beside it. -/
theorem output_kept_iff_unbound :
    let options : Options := ⟨none, some "dot.png", none, none, some "d.json", false⟩
    let files := World.sample.files
    (∀ other ∈ options.watch.toList ++ options.dump.toList, ¬ files.Collide "dot.png" other)
      ∧ (run options [] files).outcome = .missingSource
      ∧ (run options [] files).files.read "dot.png" = .ok (.bytes []) := by
  intro options files
  have hapart : ∀ other ∈ options.watch.toList ++ options.dump.toList,
      ¬ files.Collide "dot.png" other := by
    intro other ho
    obtain rfl : other = "d.json" := by simpa [options] using ho
    rintro ⟨place, himage, hdump⟩
    have houtput : ["dot.png"] = place := Except.ok.inj himage
    have hplace : ["d.json"] = place := Except.ok.inj hdump
    exact absurd (houtput.trans hplace.symm) (by decide)
  let emptied : FileStore := ⟨[], [(["dot.png"], .file (.bytes []))]⟩
  let st : Standing := ⟨emptied, Session.start Registry.standard Engine.plain () none, "", none⟩
  have hsource : Reaches options [] files .source st := rfl
  have hsession : Reaches options [] files .session st := rfl
  have herror : (st.carryOut options []).result = .error .missingSource := rfl
  refine ⟨hapart, rfl, ((output_kept_iff options [] files "dot.png" rfl hapart).2 st hsource).1 ?_⟩
  rintro encoded ⟨_, last, counted, hlast, hok, _⟩
  rw [Reaches.unique hsession hlast, herror] at hok
  exact absurd hok (by simp)

/-- A program that fails has emptied the image that was in its output file. -/
theorem output_emptied :
    let options : Options := ⟨none, some "dot.png", none, none, none, false⟩
    let files := World.sample.files
    let finish := run options [] files
    finish.outcome = .missingSource
      ∧ files.read "dot.png" = .ok (.picture ⟨.png, Binding.sample.image⟩)
      ∧ ¬ (finish.files.read "dot.png" = files.read "dot.png"
        ∨ ∃ st encoded, Reaches options [] files .session st
          ∧ (st.carryOut options []).session.rendering = some (.ok (some encoded))
          ∧ finish.files.read "dot.png" = .ok (.picture encoded)) := by
  intro options files finish
  have hread : finish.files.read "dot.png" = .ok (.bytes []) := rfl
  have hbefore : files.read "dot.png" = .ok (.picture ⟨.png, Binding.sample.image⟩) := rfl
  refine ⟨rfl, hbefore, ?_⟩
  rw [hread, hbefore]
  rintro (h | ⟨_, encoded, _, _, h⟩) <;> exact absurd h (by simp)

end CommandLine

end RasterScript
