import RasterScript.Proofs.Ending
import RasterScript.Proofs.FileStore

/-!
# What the watched file holds

In watch mode a file is written after lines, and this is about which lines and
with what. A step either leaves the picture that its session then shows, and
counts one render, or it touches no file and counts none (`step_watching`).
Which of the two is decided by the outcome of the line and by the session after
it, never by what was in the file.

From there a whole run is a matter of the last write: the watched file holds the
picture of the last step that left one, and before the first such step whatever
it held at the start (`walk_held`). Two lines between which nothing changes leave
the same picture, because the engine has no memory.
-/

namespace RasterScript

variable {σ : Type}

namespace Step

/-- Whether a line succeeded and named a known command. -/
def processed (done : Step σ Outcome) : Bool :=
  match done.result with
  | .ok outcome => outcome.isProcessed
  | .error _ => false

/-- Whether a line succeeded. -/
def succeeded (done : Step σ Outcome) : Bool :=
  match done.result with
  | .ok _ => true
  | .error _ => false

/-- The picture that a step in watch mode leaves: what its session shows after a processed line. -/
def picture? (done : Step σ Outcome) : Option Encoded :=
  if done.processed then
    match done.session.rendering with
    | some (.ok shown) => shown
    | _ => none
  else none

theorem picture?_of_shown {done : Step σ Outcome} {encoded : Encoded} (hp : done.processed = true)
    (h : done.session.rendering = some (.ok (some encoded))) : done.picture? = some encoded := by
  unfold picture?
  rw [if_pos hp, h]

theorem picture?_of_withheld {done : Step σ Outcome}
    (h : done.processed = true → done.session.Withholds) : done.picture? = none := by
  unfold picture?
  split
  · rename_i hp
    rcases h hp with hb | hn | ⟨error, he, _⟩
    · rw [Session.rendering, hb]; rfl
    · rw [hn]
    · rw [he]
  · rfl

end Step

namespace Session

/-- The session watches a file, and its engine has no memory. -/
structure Watching (path : String) (s : Session σ) : Prop where
  watch : s.watch = some path
  pure : s.engine.IsPure

theorem Watching.step {path : String} {s : Session σ} (h : Watching path s) (w : World)
    (line : Nat) (text : String) : Watching path (s.step w line text).session :=
  ⟨(step_alike s w line text).2.trans h.watch, by rw [step_engine]; exact h.pure⟩

/--
**A step leaves a picture or touches nothing.** If it leaves one, it is what the
session shows afterwards. If it processed a line and leaves none, there was
nothing to write.
-/
theorem step_watching {path : String} {s : Session σ} (h : Watching path s) (w : World)
    (line : Nat) (text : String) :
    (∃ encoded, (s.step w line text).processed = true
        ∧ (s.step w line text).session.rendering = some (.ok (some encoded))
        ∧ w.files.write path (.picture encoded) = .ok (s.step w line text).world.files
        ∧ (s.step w line text).session.summary.renders = s.summary.renders + 1)
      ∨ (((s.step w line text).processed = true → (s.step w line text).session.Withholds)
        ∧ (s.step w line text).world.files = w.files
        ∧ (s.step w line text).session.summary.renders = s.summary.renders) := by
  rcases step_cases s w line text with ⟨hs, hu⟩ | ⟨_, outcome, hpath, ho, hproc, hs⟩
  · right
    rw [hs]
    have hline := processLine_untouched s w line text
    refine ⟨fun hp => ?_, hline.files, hline.renders⟩
    unfold Step.processed at hp
    split at hp
    · rename_i outcome ho
      rcases hu outcome ho with hn | hq
      · rw [h.watch] at hn; exact absurd hn (by simp)
      · rw [hq] at hp; exact absurd hp (by simp)
    · exact absurd hp (by simp)
  · obtain rfl := Option.some.inj (h.watch.symm.trans hpath)
    rw [hs]
    dsimp only
    have hfiles := (processLine_untouched s w line text).files
    have hrenders := (processLine_untouched s w line text).renders
    have hpure : (s.processLine w line text).session.engine.IsPure := by
      rw [(processLine_untouched s w line text).engine]; exact h.pure
    -- the render happens in the session that the line left
    generalize (s.processLine w line text).session = t at hrenders hpure ⊢
    generalize (s.processLine w line text).world = u at hfiles ⊢
    rcases renderWatch_cases t u path with ⟨encoded, files, hr, hwrite, hok, hwf, hcount⟩ |
      ⟨hwf, hcount, hquiet⟩
    · left
      refine ⟨encoded, ?_, (renderWatch_rendering hpure u path).trans hr, ?_, ?_⟩
      · unfold Step.processed; rw [hok]; exact hproc
      · rw [hwf, ← hfiles]; exact hwrite
      · rw [hcount, hrenders]
    · right
      refine ⟨fun hp => ?_, hwf.trans hfiles, hcount.trans hrenders⟩
      have hok : (t.renderWatch u path).result = .ok () := by
        unfold Step.processed at hp
        cases hres : (t.renderWatch u path).result with
        | ok _ => rfl
        | error error => rw [hres] at hp; exact absurd hp (by simp [Except.map])
      unfold Withholds at hquiet ⊢
      rw [renderWatch_rendering hpure, (renderWatch_alike t u path).1.binding]
      exact hquiet hok

/-! ## Many steps -/

/-- The session and the world after steps, each from where the one before ended. -/
def walk (s : Session σ) (w : World) : List (Nat × String) → Session σ × World
  | [] => (s, w)
  | (line, text) :: rest =>
    (s.step w line text).session.walk (s.step w line text).world rest

/-- The steps of such a walk, those that fail among them. -/
def trail (s : Session σ) (w : World) : List (Nat × String) → List (Step σ Outcome)
  | [] => []
  | (line, text) :: rest =>
    s.step w line text :: (s.step w line text).session.trail (s.step w line text).world rest

theorem Watching.walk {path : String} {calls : List (Nat × String)} :
    ∀ {s : Session σ}, Watching path s → ∀ w : World, Watching path (s.walk w calls).1 := by
  induction calls with
  | nil => intro s h w; exact h
  | cons call rest ih => intro s h w; exact ih (h.step w call.1 call.2) _

theorem walk_engine (calls : List (Nat × String)) :
    ∀ (s : Session σ) (w : World), (s.walk w calls).1.engine = s.engine := by
  induction calls with
  | nil => intro s w; rfl
  | cons call rest ih => intro s w; exact (ih _ _).trans (step_engine s w call.1 call.2)

/-- What a file holds after pictures were written to it. -/
def held (before : Except FileError Contents) (pictures : List Encoded) :
    Except FileError Contents :=
  match pictures.getLast? with
  | some encoded => .ok (.picture encoded)
  | none => before

theorem held_cons (before : Except FileError Contents) (encoded : Encoded)
    (pictures : List Encoded) :
    held before (encoded :: pictures) = held (.ok (.picture encoded)) pictures := by
  unfold held
  rw [List.getLast?_cons]
  cases pictures.getLast? <;> rfl

theorem step_held {path : String} {s : Session σ} (h : Watching path s) (w : World)
    (line : Nat) (text : String) :
    (s.step w line text).world.files.read path =
      match (s.step w line text).picture? with
      | some encoded => .ok (.picture encoded)
      | none => w.files.read path := by
  rcases step_watching h w line text with ⟨encoded, hp, hr, hw, _⟩ | ⟨hq, hf, _⟩
  · rw [Step.picture?_of_shown hp hr]; exact FileStore.read_write hw
  · rw [Step.picture?_of_withheld hq, hf]

/-- **The watched file holds the picture that was left last.** -/
theorem walk_held {path : String} {calls : List (Nat × String)} :
    ∀ {s : Session σ}, Watching path s → ∀ w : World,
      (s.walk w calls).2.files.read path =
        held (w.files.read path) ((s.trail w calls).filterMap Step.picture?) := by
  induction calls with
  | nil => intro s _ w; rfl
  | cons call rest ih =>
      intro s h w
      rw [walk, trail, List.filterMap_cons, ih (h.step w call.1 call.2),
        step_held h w call.1 call.2]
      cases (s.step w call.1 call.2).picture? with
      | none => rfl
      | some encoded => exact (held_cons ..).symm

/-- The lines of a script with the numbers that a run gives them. -/
def numbered (line : Nat) (lines : List (List UInt8)) : List (Nat × String) :=
  (lines.zipIdx line).map fun (bytes, number) => (number, Script.lineText bytes)

theorem numbered_cons (line : Nat) (bytes : List UInt8) (rest : List (List UInt8)) :
    numbered line (bytes :: rest) = (line, Script.lineText bytes) :: numbered (line + 1) rest :=
  rfl

/-- A run takes the steps of its walk up to the first that fails, which leaves no picture. -/
theorem steps_held {path : String} {lines : List (List UInt8)} :
    ∀ {s : Session σ}, Watching path s → ∀ (w : World) (line : Nat),
      (s.steps w line lines).world.files.read path =
        held (w.files.read path)
          (((s.trail w (numbered line lines)).takeWhile Step.succeeded).filterMap
            Step.picture?) := by
  induction lines with
  | nil => intro s _ w line; rfl
  | cons bytes rest ih =>
      intro s h w line
      have hstep := step_held h w line (Script.lineText bytes)
      have hnext := h.step w line (Script.lineText bytes)
      rw [numbered_cons, trail, steps]
      rcases hd : s.step w line (Script.lineText bytes) with ⟨result, s', w'⟩
      rw [hd] at hstep hnext
      cases result with
      | error error =>
          -- the run stops here, and this step has left no picture
          rw [List.takeWhile_cons_of_neg (by simp [Step.succeeded])]
          exact hstep
      | ok outcome =>
          rw [List.takeWhile_cons_of_pos rfl, List.filterMap_cons]
          dsimp only
          rw [ih hnext, hstep]
          cases Step.picture? (⟨.ok outcome, s', w'⟩ : Step σ Outcome) with
          | none => rfl
          | some encoded => exact (held_cons ..).symm

/-- Lines of which none is processed leave no picture. -/
theorem walk_unprocessed {path : String} {s : Session σ} (h : Watching path s) (w : World)
    {calls : List (Nat × String)} (hq : ∀ done ∈ s.trail w calls, done.processed = false) :
    (s.walk w calls).2.files.read path = w.files.read path := by
  have hnone : (s.trail w calls).filterMap Step.picture? = [] := by
    rw [List.filterMap_eq_nil_iff]
    intro done hd
    unfold Step.picture?
    rw [hq done hd]
    rfl
  rw [walk_held h, hnone]
  rfl

/-- Two processed lines after which the same is in the pipeline and bound leave the same. -/
theorem picture?_eq {s t : Session σ} {w u : World} {line line' : Nat} {text text' : String}
    (hp : s.engine.IsPure) (he : t.engine = s.engine)
    (h : (s.step w line text).processed = true) (h' : (t.step u line' text').processed = true)
    (hl : (t.step u line' text').session.pipeline = (s.step w line text).session.pipeline)
    (hb : (t.step u line' text').session.binding = (s.step w line text).session.binding) :
    (t.step u line' text').picture? = (s.step w line text).picture? := by
  have hr : (t.step u line' text').session.rendering = (s.step w line text).session.rendering :=
    rendering_eq_of_pure (by rw [step_engine]; exact hp)
      (by rw [step_engine, step_engine]; exact he) hl hb
  unfold Step.picture?
  rw [h, h', hr]

/-- A line that is neither skipped nor unknown is processed, and only such a line is. -/
theorem isProcessed_eq_false_iff {outcome : Outcome} :
    outcome.isProcessed = false ↔ outcome = .skipped ∨ outcome = .unknown := by
  cases outcome <;> simp [Outcome.isProcessed]

/--
**The watched file follows the session.** A line that succeeds leaves all files
and the count of renders alone if it was skipped or unknown, or if there is
nothing to write after it; otherwise the file is exactly the picture of the
session after the line, and one more render is counted. So after any calls, and
after any run, the file holds the picture of the last processed line that left
one, or what it held before. And two processed lines with nothing processed
between them, the second of which changes neither pipeline nor source, leave the
same picture.
-/
theorem watched_file_follows (path : String) (s : Session σ) (h : Watching path s) (w : World) :
    (∀ line text outcome s' w', s.step w line text = ⟨.ok outcome, s', w'⟩ →
        ((outcome = .skipped ∨ outcome = .unknown ∨ s'.Withholds)
            ∧ w'.files = w.files
            ∧ s'.summary.renders = s.summary.renders)
          ∨ (¬ (outcome = .skipped ∨ outcome = .unknown ∨ s'.Withholds)
            ∧ ∃ encoded, s'.rendering = some (.ok (some encoded))
              ∧ w'.files.read path = .ok (.picture encoded)
              ∧ s'.summary.renders = s.summary.renders + 1))
      ∧ (∀ calls, (s.walk w calls).2.files.read path =
          held (w.files.read path) ((s.trail w calls).filterMap Step.picture?))
      ∧ (∀ script out, (s.run w script out).world.files.read path =
          held (w.files.read path)
            (((s.trail w (numbered 1 script.lines)).takeWhile Step.succeeded).filterMap
              Step.picture?))
      ∧ (∀ (first second : Nat × String) (between : List (Nat × String)),
          let a := s.step w first.1 first.2
          let t := a.session.walk a.world between
          let b := t.1.step t.2 second.1 second.2
          a.processed = true → b.processed = true →
          (∀ done ∈ a.session.trail a.world between, done.processed = false) →
          b.session.pipeline = a.session.pipeline → b.session.binding = a.session.binding →
          b.picture? = a.picture? ∧ b.world.files.read path = a.world.files.read path) := by
  refine ⟨?_, fun calls => walk_held h w, ?_, ?_⟩
  · intro line text outcome s' w' hs
    have hstep := step_watching h w line text
    rw [hs] at hstep
    dsimp only [Step.processed] at hstep
    rcases hstep with ⟨encoded, hp, hr, hw, hc⟩ | ⟨hq, hf, hc⟩
    · right
      refine ⟨?_, encoded, hr, FileStore.read_write hw, hc⟩
      rw [← or_assoc, ← isProcessed_eq_false_iff, hp]
      rintro (hn | hn)
      · exact absurd hn (by simp)
      · exact not_withholds hr hn
    · left
      refine ⟨?_, hf, hc⟩
      rw [← or_assoc, ← isProcessed_eq_false_iff]
      cases hp : outcome.isProcessed with
      | false => exact Or.inl rfl
      | true => exact Or.inr (hq hp)
  · intro script out
    rw [run_world]
    exact steps_held h w 1
  · intro first second between a t b ha hb hq hl hbind
    have hwa : Watching path a.session := h.step w first.1 first.2
    have hwt : Watching path t.1 := hwa.walk a.world
    have hengine : t.1.engine = s.engine :=
      (walk_engine between a.session a.world).trans (step_engine s w first.1 first.2)
    have hpic : b.picture? = a.picture? := picture?_eq h.pure hengine ha hb hl hbind
    refine ⟨hpic, ?_⟩
    have hfirst := step_held h w first.1 first.2
    have hbetween : t.2.files.read path = a.world.files.read path := walk_unprocessed hwa _ hq
    have hsecond := step_held hwt t.2 second.1 second.2
    rw [show (t.1.step t.2 second.1 second.2).picture? = a.picture? from hpic] at hsecond
    rw [hsecond]
    -- with no picture the second step leaves what was there, with one it writes the same again
    cases hpa : a.picture? with
    | none => exact hbetween
    | some encoded => exact (hfirst.trans (by rw [hpa])).symm

/-- A session on the sample image that watches a file which is not there yet. -/
def watchingSample : Session Unit :=
  (start Registry.sample Engine.plain () (some "w.png")).bind Binding.sample

/-- A picture follows `neg`; a reset brings back the source, and an ignored line changes nothing. -/
theorem watched_file_follows_sample :
    Watching "w.png" watchingSample
      ∧ (∃ s' w', watchingSample.step World.sample 1 "neg" = ⟨.ok .accepted, s', w'⟩
        ∧ s'.summary.renders = 1
        ∧ ∃ encoded, s'.rendering = some (.ok (some encoded))
          ∧ w'.files.read "w.png" = .ok (.picture encoded))
      ∧ (watchingSample.run World.sample ⟨[110, 101, 103, 10, 114, 101, 115, 101, 116], none⟩
          ⟨[], none⟩).world.files.read "w.png" = .ok (.picture ⟨.png, Binding.sample.image⟩)
      ∧ (let a := watchingSample.step World.sample 1 "neg"
        let t := a.session.walk a.world [(2, "nothing")]
        (t.1.step t.2 3 "rotate 0").world.files.read "w.png" = a.world.files.read "w.png") := by
  have h : Watching "w.png" watchingSample := ⟨rfl, Engine.isPure_ofFunctions _ _⟩
  obtain ⟨hstep, _, hrun, hpair⟩ := watched_file_follows "w.png" watchingSample h World.sample
  refine ⟨h, ⟨_, _, rfl, ?_⟩, ?_, ?_⟩
  · rcases hstep 1 "neg" .accepted _ _ rfl with ⟨hn, _⟩ | ⟨_, encoded, hr, hf, hc⟩
    · rcases hn with hn | hn | hn
      · exact absurd hn (by decide)
      · exact absurd hn (by decide)
      · exact absurd hn (not_withholds rfl)
    · exact ⟨hc, encoded, hr, hf⟩
  · rw [hrun]; rfl
  · refine (hpair (1, "neg") (3, "rotate 0") [(2, "nothing")] rfl rfl ?_ rfl rfl).2
    intro done hd
    rw [List.mem_singleton.mp hd]
    rfl

end Session

end RasterScript
