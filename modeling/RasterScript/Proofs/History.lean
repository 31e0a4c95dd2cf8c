import Mathlib.Data.List.DropRight
import RasterScript.Proofs.Rendering

/-!
# A session is what its lines made of it

A fresh session is handed lines one after the other, each as a `step` or as a
bare `processLine`, each with whatever files and diagnostics there are at that
moment. As long as every one of them succeeds, what the session holds at the end
can be read off the lines (`feeds_history`):

* the pipeline is the operations of the accepted lines, in order — where a file
  is watched, of those after the last reset;
* the source is the one of the last line that read one;
* the session waits for a source exactly as long as there is none.

The invariant is `Recalls`. It is kept by every call because a call changes a
session as its verdict says (`call_ok`).
-/

namespace RasterScript

variable {σ : Type}

/-- The operation of a line: what its validated command makes, if it makes one. -/
def Registry.operation? (r : Registry) (line : Nat) (text : String) : Option Operation :=
  match Line.ofText text with
  | .comment | .blank => none
  | .command name args =>
    match r.resolve? name with
    | none => none
    | some c =>
      match c.validate name args line with
      | .ok op => op
      | .error _ => none

/-- The operation that a verdict adds. -/
def Verdict.op? : Verdict → Option Operation
  | append op => some op
  | _ => none

/-- A line adds the operation that its command makes when it is validated. -/
theorem judge_op? (r : Registry) (line : Nat) (text : String) :
    (r.judge text).op? = r.operation? line text := by
  unfold Registry.judge Registry.operation?
  cases Line.ofText text with
  | comment => rfl
  | blank => rfl
  | command name args =>
      dsimp only
      cases r.resolve? name with
      | none => rfl
      | some c =>
          dsimp only [Command.validate]
          cases c.check args with
          | error reason => rfl
          | ok made =>
              cases made with
              | some op => rfl
              | none => cases c.action <;> rfl

/-- A line that is handed to a session. -/
structure Call where
  /-- Whether it is a step, with the render that may follow, or the bare line. -/
  renders : Bool
  /-- The files and diagnostics there are for it. -/
  world : World
  line : Nat
  text : String

namespace Call

/-- The call on a session. -/
def on (c : Call) (s : Session σ) : Step σ Outcome :=
  if c.renders then s.step c.world c.line c.text else s.processLine c.world c.line c.text

/-- The operation that the line contributes. -/
def operation? (r : Registry) (c : Call) : Option Operation := r.operation? c.line c.text

/-- Whether the line carries out a reset. -/
def resets (r : Registry) (c : Call) : Bool := (r.judge c.text).directs .reset

/-- The image that the line reads, or why it cannot be read. -/
def load? (r : Registry) (c : Call) : Option (Except Error Binding) :=
  (r.judge c.text).load? c.world.files

end Call

namespace Session

/-- A session that has taken no line, with or without a source. -/
def opened (registry : Registry) (engine : Engine σ) (engineState : σ) (watch : Option String)
    (source : Option Binding) : Session σ :=
  match source with
  | none => start registry engine engineState watch
  | some binding => (start registry engine engineState watch).bind binding

theorem opened_watch (r : Registry) (engine : Engine σ) (st : σ) (watch : Option String)
    (source : Option Binding) : (opened r engine st watch source).watch = watch := by
  cases source <;> rfl

theorem opened_renders (r : Registry) (engine : Engine σ) (st : σ) (watch : Option String)
    (source : Option Binding) : (opened r engine st watch source).summary.renders = 0 := by
  cases source <;> rfl

/-- What calls make of a session if every one of them succeeds. -/
inductive Feeds (s : Session σ) : List Call → Session σ → Prop where
  | nil : Feeds s [] s
  | snoc {calls : List Call} {c : Call} {t t' : Session σ} {outcome : Outcome} {w : World} :
      Feeds s calls t → c.on t = ⟨.ok outcome, t', w⟩ → Feeds s (calls ++ [c]) t'

/-- A call that succeeds changes the session as its verdict says. -/
theorem call_ok {c : Call} {s s' : Session σ} {outcome : Outcome} {w : World}
    (h : c.on s = ⟨.ok outcome, s', w⟩) :
    s.phase ≠ .terminated
      ∧ (s.after c.world.files c.line (s.registry.judge c.text)).Alike s'
      ∧ s'.watch = s.watch
      ∧ ∀ error, c.load? s.registry ≠ some (.error error) := by
  have hok : (s.processLine c.world c.line c.text).result = .ok outcome
      ∧ (s.processLine c.world c.line c.text).session.Alike s' ∧ s'.watch = s.watch := by
    unfold Call.on at h
    split at h
    · refine ⟨step_ok (congrArg Step.result h), ?_⟩
      rw [show s' = (s.step c.world c.line c.text).session from (congrArg Step.session h).symm]
      exact step_alike s c.world c.line c.text
    · rw [h]
      refine ⟨rfl, Alike.refl s', ?_⟩
      rw [show s' = (s.processLine c.world c.line c.text).session from
        (congrArg Step.session h).symm]
      exact (processLine_untouched s c.world c.line c.text).watch
  obtain ⟨hres, halike, hwatch⟩ := hok
  obtain ⟨hphase, hans⟩ := processLine_ok hres
  rw [processLine_eq hphase] at halike
  exact ⟨hphase, halike, hwatch, (answer_ok hans).2⟩

/-! ## The invariant -/

/-- The calls whose operations are still in the pipeline. -/
def kept (registry : Registry) (watch : Option String) (calls : List Call) : List Call :=
  if watch.isSome then calls.rtakeWhile fun c => !c.resets registry else calls

/-- A source is the image of the last read of a list, or the one there was before. -/
def BoundBy (source : Option Binding) (reads : List (Except Error Binding))
    (bound : Option Binding) : Prop :=
  match reads.getLast? with
  | none => bound = source
  | some read => ∃ binding, read = .ok binding ∧ bound = some binding

theorem BoundBy.concat (source : Option Binding) (reads : List (Except Error Binding))
    (binding : Binding) : BoundBy source (reads ++ [.ok binding]) (some binding) := by
  unfold BoundBy
  rw [List.getLast?_concat]
  exact ⟨binding, rfl, rfl⟩

theorem BoundBy.unique {source : Option Binding} {reads reads' : List (Except Error Binding)}
    {b b' : Option Binding} (h : BoundBy source reads b) (h' : BoundBy source reads' b')
    (hl : reads'.getLast? = reads.getLast?) : b' = b := by
  unfold BoundBy at h h'
  rw [hl] at h'
  cases hr : reads.getLast? with
  | none => rw [hr] at h h'; exact h'.trans h.symm
  | some read =>
      rw [hr] at h h'
      obtain ⟨binding, ho, rfl⟩ := h
      obtain ⟨binding', ho', rfl⟩ := h'
      rw [ho] at ho'
      rw [Except.ok.inj ho']

/-- A session recalls the calls it was fed. -/
structure Recalls (r : Registry) (target : Option String) (source : Option Binding)
    (calls : List Call) (s : Session σ) : Prop where
  registry : s.registry = r
  watch : s.watch = target
  /-- The pipeline is the operations of the calls since the last reset. -/
  pipeline : s.pipeline.ops = (kept r target calls).filterMap (·.operation? r)
  /-- The source is the last image that was read. -/
  binding : BoundBy source (calls.filterMap (·.load? r)) s.binding
  /-- It waits exactly as long as there is no source. -/
  phase : s.phase = if s.binding.isNone then .awaitingBinding else .active

theorem recalls_opened (r : Registry) (engine : Engine σ) (engineState : σ)
    (watch : Option String) (source : Option Binding) :
    Recalls r watch source [] (opened r engine engineState watch source) := by
  cases source with
  | none => exact ⟨rfl, rfl, by unfold kept; split <;> rfl, rfl, rfl⟩
  | some binding => exact ⟨rfl, rfl, by unfold kept; split <;> rfl, rfl, rfl⟩

/-- A call extends the operations that count as its verdict extends a pipeline. -/
theorem kept_concat (r : Registry) (watch : Option String) (calls : List Call) (c : Call) :
    (kept r watch (calls ++ [c])).filterMap (·.operation? r) =
      ((r.judge c.text).extend watch.isSome
        ⟨(kept r watch calls).filterMap (·.operation? r)⟩).ops := by
  have hop : c.operation? r = (r.judge c.text).op? := (judge_op? r c.line c.text).symm
  unfold kept
  cases watch with
  | none =>
      simp only [Option.isSome_none, Bool.false_eq_true, if_false, List.filterMap_append,
        List.filterMap_cons, List.filterMap_nil, hop]
      cases r.judge c.text with
      | direct d args => cases d <;> simp [Verdict.op?, Verdict.extend]
      | _ => simp [Verdict.op?, Verdict.extend, Pipeline.append]
  | some path =>
      -- the list of calls that count starts anew at a reset and else grows by the call
      simp only [Option.isSome_some, if_true, List.rtakeWhile_concat]
      cases hv : r.judge c.text with
      | direct d args =>
          cases d <;>
            simp [hop, hv, Call.resets, Verdict.directs, Verdict.op?, Verdict.extend,
              Pipeline.empty]
      | _ =>
          simp [hop, hv, Call.resets, Verdict.directs, Verdict.op?, Verdict.extend,
            Pipeline.append]

/-- **Every call that succeeds is recalled.** -/
theorem recalls_call {r : Registry} {watch : Option String} {source : Option Binding}
    {calls : List Call} {c : Call} {s s' : Session σ} {outcome : Outcome} {w : World}
    (h : Recalls r watch source calls s) (hc : c.on s = ⟨.ok outcome, s', w⟩) :
    Recalls r watch source (calls ++ [c]) s' := by
  obtain ⟨hphase, halike, hwatch, hread⟩ := call_ok hc
  have hb := halike.binding
  have hp := halike.phase
  rw [after_binding, h.registry] at hb
  rw [after_phase, h.registry] at hp
  rw [h.registry] at hread
  -- source and phase only ever change together, when an image is read
  have hsource : BoundBy source ((calls ++ [c]).filterMap (·.load? r)) s'.binding
      ∧ s'.phase = if s'.binding.isNone then .awaitingBinding else .active := by
    rw [List.filterMap_append, List.filterMap_cons, List.filterMap_nil]
    unfold Call.load? at hread ⊢
    cases hl : (r.judge c.text).load? c.world.files with
    | none =>
        rw [hl] at hb hp
        dsimp only at hb hp ⊢
        rw [List.append_nil, hb, hp]
        exact ⟨h.binding, h.phase⟩
    | some read =>
        cases read with
        | error error => exact absurd hl (hread error)
        | ok binding =>
            rw [hl] at hb hp
            dsimp only at hb hp ⊢
            rw [hb, hp]
            exact ⟨BoundBy.concat source _ binding, rfl⟩
  refine ⟨halike.registry.trans ((after_registry ..).trans h.registry), hwatch.trans h.watch,
    ?_, hsource.1, hsource.2⟩
  rw [halike.pipeline, after_pipeline, kept_concat, h.registry, isWatch, h.watch, ← h.pipeline]

theorem feeds_recalls {r : Registry} {engine : Engine σ} {engineState : σ}
    {watch : Option String} {source : Option Binding} {calls : List Call} {s : Session σ}
    (h : (opened r engine engineState watch source).Feeds calls s) :
    Recalls r watch source calls s := by
  induction h with
  | nil => exact recalls_opened r engine engineState watch source
  | snoc _ hc ih => exact recalls_call ih hc

/--
**What a session holds is its history.** Whatever lines a fresh session was fed,
as steps or one by one, if all of them succeeded: its pipeline is the operations
that their validated commands made, in order, in watch mode from the last reset
on; its source is the one of the last line that read one; and it waits for a
source exactly as long as it has none.
-/
theorem feeds_history (r : Registry) (engine : Engine σ) (engineState : σ)
    (watch : Option String) (source : Option Binding) (calls : List Call) (s : Session σ)
    (h : (opened r engine engineState watch source).Feeds calls s) :
    s.pipeline.ops =
        (if watch.isSome then calls.rtakeWhile fun c => !c.resets r else calls).filterMap
          (·.operation? r)
      ∧ (match (calls.filterMap (·.load? r)).getLast? with
        | none => s.binding = source
        | some read => ∃ binding, read = .ok binding ∧ s.binding = some binding)
      ∧ (s.phase = .awaitingBinding ↔ s.binding = none)
      ∧ (s.phase = .active ↔ s.binding ≠ none) := by
  have hr := feeds_recalls h
  refine ⟨hr.pipeline, hr.binding, ?_, ?_⟩
  · rw [hr.phase]; cases s.binding <;> simp
  · rw [hr.phase]; cases s.binding <;> simp

/-- A reset discards what came before it; an unknown line and an ignored one do nothing. -/
theorem feeds_history_reset :
    ∃ s : Session Unit,
      (opened Registry.sample Engine.plain () (some "w.png") none).Feeds
          [⟨false, World.sample, 1, "neg"⟩, ⟨true, World.sample, 2, "reset"⟩,
            ⟨true, World.sample, 3, "r dot.png"⟩, ⟨false, World.sample, 4, "rotate 0"⟩,
            ⟨true, World.sample, 5, "nothing"⟩, ⟨false, World.sample, 6, "invert"⟩] s
        ∧ s.pipeline.ops = [.invert] ∧ s.binding = some Binding.sample ∧ s.phase = .active := by
  have h := Feeds.snoc (.snoc (.snoc (.snoc (.snoc (.snoc
    (.nil (s := opened Registry.sample Engine.plain () (some "w.png") none))
    (c := ⟨false, World.sample, 1, "neg"⟩) rfl)
    (c := ⟨true, World.sample, 2, "reset"⟩) rfl)
    (c := ⟨true, World.sample, 3, "r dot.png"⟩) rfl)
    (c := ⟨false, World.sample, 4, "rotate 0"⟩) rfl)
    (c := ⟨true, World.sample, 5, "nothing"⟩) rfl)
    (c := ⟨false, World.sample, 6, "invert"⟩) rfl
  obtain ⟨hops, ⟨b, hb, hbound⟩, _, hactive⟩ := feeds_history _ _ _ _ _ _ _ h
  refine ⟨_, h, hops, ?_, ?_⟩
  · rw [hbound, ← Except.ok.inj hb]; rfl
  · exact hactive.mpr (by rw [hbound]; simp)

end Session

end RasterScript
