import RasterScript.Proofs.Delivery
import RasterScript.Proofs.Replay

/-!
# The stage that ends the program

The first stage that ends the program decides the code to exit with, and what was
written up to there is what is left. This puts together what is known of the
single stages (`Stage.Ends`) and of the files that they write (`Course`): which
code there is, when an image comes out of the program, and when its pipeline is
written.
-/

namespace RasterScript.CommandLine

variable {options : Options} {stdin : List UInt8} {files : FileStore} {st : Standing}

/-! ## The code and the files -/

/-- What a stage leaves in the files when it ends the program. -/
theorem finish_stage {stage : Stage} {outcome : ExitOutcome} {st' : Standing}
    (h : Reaches options stdin files stage st)
    (ha : stage.act options stdin st = (some outcome, st')) :
    st'.files = if stage = .session then (st.carryOut options stdin).world.files else st.files := by
  by_cases hs : stage = .session
  · subst hs
    rw [if_pos rfl]
    obtain ⟨error, he, _⟩ := Stage.ends_of_act ha
    rw [← (after_broken h he).1]
    dsimp only [Stage.act] at ha
    rw [he] at ha
    cases ha
    rfl
  · rw [if_neg hs]
    exact (act_left ha hs).1

/-! ## Images -/

/-- **The image that is on its way to standard output is the one that the program yields.** -/
theorem after_stdout_iff (h : Reaches options stdin files .session st) (encoded : Encoded) :
    (st.after options stdin).stdout = some encoded
      ↔ options.output = none ∧ Yields options stdin files encoded := by
  rw [← written_iff h]
  cases hp : options.output with
  | none =>
      rw [Standing.after_stdout, deliver_stdout hp]
      simp
  | some path =>
      rw [(delivered stdin (started_session h) hp).1]
      simp

/-- **On standard output is what the program yields,** if no output file is asked for. -/
theorem stdout_iff (encoded : Encoded) :
    (run options stdin files).stdout = some encoded
      ↔ options.output = none ∧ Yields options stdin files encoded := by
  cases run_course options stdin files with
  | early hnone _ hstdout =>
      rw [hstdout]
      exact iff_of_false (by simp) fun h => not_yields (not_session_of_early hnone) encoded h.2
  | unbound hsource hbound _ _ hstdout =>
      rw [hstdout]
      exact iff_of_false (by simp) fun h =>
        not_yields (not_session_of_unbound hsource hbound) encoded h.2
  | broken hsession herror _ _ hstdout =>
      rw [hstdout, ← (after_broken hsession herror).2]
      exact after_stdout_iff hsession encoded
  | undumped hsession _ _ _ _ hstdout => rw [hstdout]; exact after_stdout_iff hsession encoded
  | whole hsession _ _ _ hstdout => rw [hstdout]; exact after_stdout_iff hsession encoded

/-- What an output file that is not watched holds after the session is what the program yields. -/
theorem after_picture {path : String} {encoded : Encoded}
    (h : Reaches options stdin files .session st) (hp : options.output = some path)
    (hw : ∀ other ∈ options.watch.toList, ¬ files.Collide path other)
    (hr : (st.after options stdin).files.read path =
      .ok (.picture encoded)) : Yields options stdin files encoded := by
  rw [after_output (started_session h) hp hw] at hr
  cases hwritten : (st.carryOut options stdin).output.written with
  | none => rw [hwritten] at hr; exact absurd hr (by simp)
  | some shown =>
      rw [hwritten] at hr
      obtain rfl : shown = encoded := by simpa using hr
      exact (written_iff h shown).mp hwritten

/-- **An image in the output file was there before, or it is what the program yields.** -/
theorem output_picture {path : String} {encoded : Encoded} (hp : options.output = some path)
    (hw : ∀ other ∈ options.watch.toList, ¬ files.Collide path other)
    (hr : (run options stdin files).files.read path = .ok (.picture encoded)) :
    (run options stdin files).files = files ∨ Yields options stdin files encoded := by
  cases run_course options stdin files with
  | early _ hfiles => exact Or.inl hfiles
  | unbound hsource _ _ hfiles =>
      rw [hfiles, created_empty hp (started_source hsource).created] at hr
      exact absurd hr (by simp)
  | broken hsession herror _ hfiles =>
      rw [hfiles, ← (after_broken hsession herror).1] at hr
      exact Or.inr (after_picture hsession hp hw hr)
  | undumped hsession _ _ _ hfiles =>
      rw [hfiles] at hr
      exact Or.inr (after_picture hsession hp hw hr)
  | @whole st _ hsession _ hdump =>
      have hs := started_session hsession
      have hkept := dump_confined hdump
      by_cases hc : ∀ other ∈ options.dump.toList,
          ¬ (st.after options stdin).files.Collide path other
      · obtain ⟨place, hplace⟩ := created_writable hp hs.created
        rw [hkept.read (((after_confined stdin hs).writable path place).mpr hplace) hc] at hr
        exact Or.inr (after_picture hsession hp hw hr)
      · -- the dump has come in its place
        simp only [not_forall, not_not] at hc
        obtain ⟨other, ho, hcollide⟩ := hc
        have hwritten := FileStore.read_write ((dump_ok_iff (by simpa using ho)).mp hdump)
        rw [((hkept.collide path other).mpr hcollide).read, hwritten] at hr
        exact absurd (Except.ok.inj hr) (by simp [Contents.ofText])

/-! ## The pipeline -/

/-- After a session that succeeds the one thing that can still fail is the dump. -/
theorem session_passed {counted : Summary} (h : Reaches options stdin files .session st)
    (hok : (st.carryOut options stdin).result = .ok counted) :
    let left := st.after options stdin
    let finish := run options stdin files
    (∃ message, dump options left.session.pipeline left.files = .error message
        ∧ finish.outcome = .failure ∧ finish.files = left.files)
      ∨ dump options left.session.pipeline left.files = .ok finish.files
        ∧ finish.outcome = .success := by
  intro left finish
  cases run_course options stdin files with
  | early hnone => exact absurd h (not_session_of_early hnone st)
  | unbound hsource hbound => exact absurd h (not_session_of_unbound hsource hbound st)
  | broken hsession herror =>
      rw [Reaches.unique h hsession, hok] at herror
      exact absurd herror (by simp)
  | undumped hsession _ hdump houtcome hfiles =>
      rw [Reaches.unique h hsession] at hdump hfiles
      exact Or.inl ⟨_, hdump, houtcome, hfiles⟩
  | whole hsession _ hdump houtcome =>
      rw [Reaches.unique h hsession] at hdump
      exact Or.inr ⟨hdump, houtcome⟩

/-- **A session that succeeds has its pipeline written,** if the path for it can be. -/
theorem dumped {path : String} {counted : Summary} (hp : options.dump = some path)
    (h : Reaches options stdin files .session st)
    (hok : (st.carryOut options stdin).result = .ok counted) :
    let finish := run options stdin files
    ((∃ place, files.writable path = .ok place) ∧ finish.outcome = .success
        ∧ finish.files.read path =
          .ok (Contents.ofText (st.carryOut options stdin).session.pipeline.dump))
      ∨ (∀ place, files.writable path ≠ .ok place) ∧ finish.outcome = .failure
        ∧ finish.files = (st.after options stdin).files := by
  intro finish
  have hafter := after_confined stdin (started_session h)
  rcases session_passed h hok with ⟨message, hdump, houtcome, hfiles⟩ | ⟨hdump, houtcome⟩
  · refine Or.inr ⟨fun place hplace => ?_, houtcome, hfiles⟩
    obtain ⟨written, hwritten⟩ := hafter.write hplace
      (Contents.ofText (st.carryOut options stdin).session.pipeline.dump)
    exact absurd (((dump_ok_iff hp).mpr hwritten).symm.trans hdump) (by simp)
  · have hwritten := (dump_ok_iff hp).mp hdump
    obtain ⟨place, hplace, _⟩ := FileStore.write_ok hwritten
    exact Or.inl ⟨⟨place, (hafter.writable path place).mp hplace⟩, houtcome,
      FileStore.read_write hwritten⟩

/-- Where no dump is asked for, nothing happens after a session that succeeds. -/
theorem undumped {counted : Summary} (hp : options.dump = none)
    (h : Reaches options stdin files .session st)
    (hok : (st.carryOut options stdin).result = .ok counted) :
    let finish := run options stdin files
    finish.outcome = .success
      ∧ finish.files = (st.after options stdin).files := by
  have hnone : ∀ pipeline files, dump options pipeline files = .ok files := by
    intro pipeline files
    unfold dump
    rw [hp]
  rcases session_passed h hok with ⟨message, hdump, _⟩ | ⟨hdump, houtcome⟩
  · exact absurd ((hnone ..).symm.trans hdump) (by simp)
  · exact ⟨houtcome, (Except.ok.inj ((hnone ..).symm.trans hdump)).symm⟩

/-- **Without a session that succeeds the file for the pipeline is left alone.** -/
theorem dump_untouched {path : String} {place : Place}
    (h : ∀ st counted, Reaches options stdin files .session st →
      (st.carryOut options stdin).result ≠ .ok counted)
    (ha : ∀ other ∈ options.output.toList ++ options.watch.toList, ¬ files.Collide path other)
    (hw : files.writable path = .ok place) :
    (run options stdin files).files.read path = files.read path := by
  cases run_course options stdin files with
  | early _ hfiles => rw [hfiles]
  | unbound hsource _ _ hfiles =>
      rw [hfiles]
      exact (created_confined (started_source hsource).created).read hw fun other ho =>
        ha other (List.mem_append_left _ ho)
  | broken hsession _ _ hfiles =>
      rw [hfiles]
      exact (session_confined stdin (started_session hsession)).read hw ha
  | undumped hsession hok => exact absurd hok (h _ _ hsession)
  | whole hsession hok => exact absurd hok (h _ _ hsession)

/--
**The first stage that ends the program decides.** The code to exit with is the
one laid down for that stage, which is never 0, and all stays as that stage left
it; the code is 0 if all stages pass. An image is on standard output just if
there is no output file and the program yields it, and it gets into an output
file that is not watched only if the program yields it. When the session has
succeeded, in whichever mode, its final pipeline is in the file that is asked
for, unless that cannot be written; then the code is 6 and nothing is written
any more. And when it has not, the program does not come to this, and the file
holds what it held, if it is not also the output or the watched file.
-/
theorem first_ending_stage_decides (options : Options) (stdin : List UInt8)
    (files : FileStore) :
    let finish := run options stdin files
    ((∃ stage st, Reaches options stdin files stage st
          ∧ stage.Ends options stdin st finish.outcome.code ∧ finish.outcome.code ≠ 0
          ∧ finish = (stage.act options stdin st).2.finish finish.outcome
          ∧ finish.files =
            if stage = .session then (st.carryOut options stdin).world.files else st.files)
        ∨ ∃ st, Passes options stdin files st ∧ finish.outcome.code = 0
          ∧ finish = st.finish .success)
      ∧ (∀ encoded, finish.stdout = some encoded
          ↔ options.output = none ∧ Yields options stdin files encoded)
      ∧ (∀ path encoded, options.output = some path →
          (∀ other ∈ options.watch.toList, ¬ files.Collide path other) →
          finish.files.read path = .ok (.picture encoded) →
          finish.files = files ∨ Yields options stdin files encoded)
      ∧ (∀ st counted, Reaches options stdin files .session st →
          (st.carryOut options stdin).result = .ok counted →
          let left := st.after options stdin
          (options.dump = none → finish.outcome.code = 0 ∧ finish.files = left.files)
            ∧ ∀ path, options.dump = some path →
              ((∃ place, files.writable path = .ok place) ∧ finish.outcome.code = 0
                  ∧ finish.files.read path = .ok (Contents.ofText left.session.pipeline.dump))
                ∨ (∀ place, files.writable path ≠ .ok place) ∧ finish.outcome.code = 6
                  ∧ finish.files = left.files)
      ∧ ((∀ st counted, Reaches options stdin files .session st →
            (st.carryOut options stdin).result ≠ .ok counted) →
          (∀ st, ¬ Reaches options stdin files .dump st)
            ∧ ∀ path place, options.dump = some path → files.writable path = .ok place →
              (∀ other ∈ options.output.toList ++ options.watch.toList,
                ¬ files.Collide path other) →
              finish.files.read path = files.read path) := by
  intro finish
  refine ⟨?_, fun encoded => stdout_iff encoded, fun path encoded => output_picture, ?_, ?_⟩
  · rcases ended_or_passed options stdin files with
      ⟨stage, st, outcome, st', hreach, hact⟩ | ⟨st, hpass⟩
    · have hfinish : finish = st'.finish outcome := finish_ended hreach hact
      have hends := Stage.ends_of_act hact
      rw [hfinish]
      exact Or.inl ⟨stage, st, hreach, hends, hends.ne_zero, by rw [hact]; rfl,
        finish_stage hreach hact⟩
    · have hfinish : finish = st.finish .success := finish_passed hpass
      rw [hfinish]
      exact Or.inr ⟨st, hpass, rfl, rfl⟩
  · intro st counted hsession hok left
    refine ⟨fun hp => ?_, fun path hp => ?_⟩
    · obtain ⟨houtcome, hfiles⟩ := undumped hp hsession hok
      exact ⟨congrArg ExitOutcome.code houtcome, hfiles⟩
    · rcases dumped hp hsession hok with ⟨hw, houtcome, hread⟩ | ⟨hw, houtcome, hfiles⟩
      · exact Or.inl ⟨hw, congrArg ExitOutcome.code houtcome, hread⟩
      · exact Or.inr ⟨hw, congrArg ExitOutcome.code houtcome, hfiles⟩
  · intro hnone
    refine ⟨fun st hdump => ?_, fun path place _ hw ha => dump_untouched hnone ha hw⟩
    obtain ⟨mid, hmid, ⟨counted, hok⟩, _⟩ := reaches_dump.mp hdump
    exact hnone mid counted hmid hok

/-- A program that shows the image it has read, and dumps the pipeline. -/
theorem first_ending_stage_decides_dumped :
    let options : Options := ⟨none, some "out.png", some "dot.png", none, some "d.json", false⟩
    let finish := run options [] World.sample.files
    finish.outcome.code = 0
      ∧ finish.files.read "d.json" = .ok (Contents.ofText Pipeline.empty.dump) := by
  intro options finish
  let created : FileStore :=
    ⟨[], [(["out.png"], .file (.bytes [])),
      (["dot.png"], .file (.picture ⟨.png, Binding.sample.image⟩))]⟩
  let st : Standing :=
    ⟨created, (Session.start Registry.standard Engine.plain () none).bind Binding.sample, "", none⟩
  have hsession : Reaches options [] World.sample.files .session st := rfl
  have hok : (st.carryOut options []).result = .ok ⟨0, 0, 0, 0, 1⟩ := rfl
  obtain ⟨-, -, -, hsucceeded, -⟩ := first_ending_stage_decides options [] World.sample.files
  rcases (hsucceeded st _ hsession hok).2 "d.json" rfl with ⟨_, hcode, hread⟩ | ⟨hno, _⟩
  · exact ⟨hcode, hread⟩
  · exact absurd rfl (hno ["d.json"])

/--
The script `show`, with the output watched and no directory for the pipeline. The
session succeeds, an image is in the output although this is no batch, and the
pipeline is not written.
-/
theorem watched_output_filled :
    let options : Options :=
      ⟨none, some "out.png", some "dot.png", some "out.png", some "none/d.json", false⟩
    let stdin : List UInt8 := [115, 104, 111, 119, 10]
    let files := World.sample.files
    let finish := run options stdin files
    (∃ st counted, Reaches options stdin files .session st
        ∧ (st.carryOut options stdin).result = .ok counted)
      ∧ finish.files.read "out.png" = .ok (.picture ⟨.png, Binding.sample.image⟩)
      ∧ finish.files.read "none/d.json" = .error .noEntry := by
  intro options stdin files finish
  have hfound : Registry.standard.resolve? "show" =
      some (Command.ofDirective "show" [] 0 "list the current pipeline" .show) :=
    Registry.resolve?_standard (by simp [Command.standard]) (by decide)
  have hjudge : Registry.standard.judge "show" = .direct .show [] := by
    rw [Registry.judge, show Line.ofText "show" = .command "show" [] from rfl]
    dsimp only
    rw [hfound]
    rfl
  let dot : Node := .file (.picture ⟨.png, Binding.sample.image⟩)
  let s : Session Unit :=
    (Session.start Registry.standard Engine.plain () options.watch).bind Binding.sample
  let st : Standing := ⟨⟨[], [(["out.png"], .file (.bytes [])), (["dot.png"], dot)]⟩, s, "", none⟩
  let t : Session Unit := { s with summary := ⟨1, 1, 0, 0, 0⟩ }
  let u : World := ⟨⟨[], [(["out.png"], dot), (["dot.png"], dot)]⟩, .sound ""⟩
  have hsession : Reaches options stdin files .session st := rfl
  have hline : s.processLine st.world 1 "show" = ⟨.ok .shown, t, st.world⟩ := by
    rw [Session.processLine_eq (by decide), show s.registry = Registry.standard from rfl, hjudge]
    rfl
  have hrender : t.renderWatch st.world "out.png" = ⟨.ok (), t.countRender, u⟩ := rfl
  have hstep : s.step st.world 1 "show" = ⟨.ok .shown, t.countRender, u⟩ := by
    rw [Session.step_rendered rfl (by rw [hline]) rfl, hline]
    dsimp only
    rw [hrender]
    rfl
  have hsteps : s.steps st.world 1 (Script.lines ⟨stdin, none⟩) = ⟨.ok (), t.countRender, u⟩ := by
    have hlines : Script.lines ⟨stdin, none⟩ = [stdin] := rfl
    have htext : Script.lineText stdin = "show" := rfl
    rw [hlines, Session.steps, htext, hstep]
    rfl
  have hrun : st.carryOut options stdin =
      ⟨.ok t.countRender.summary, t.countRender.ended, u, ⟨[], none⟩⟩ := by
    have h := Session.run_watched ⟨[], none⟩ (congrArg Step.result hsteps) rfl
      (by rw [hsteps]; rfl)
    rw [hsteps] at h
    exact h
  have hdump : Reaches options stdin files .dump ⟨u.files, t.countRender.ended, "", none⟩ :=
    reaches_dump.mpr ⟨st, hsession, ⟨_, congrArg Run.result hrun⟩,
      by unfold Standing.after; rw [hrun]; rfl⟩
  refine ⟨⟨st, _, hsession, congrArg Run.result hrun⟩, ?_⟩
  show (run options stdin files).files.read "out.png" = _
    ∧ (run options stdin files).files.read "none/d.json" = _
  rw [finish_ended hdump rfl]
  exact ⟨rfl, rfl⟩

end RasterScript.CommandLine
