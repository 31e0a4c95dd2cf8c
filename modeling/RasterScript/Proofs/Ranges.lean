import RasterScript.Filter.Apply
import RasterScript.Proofs.Readers
import RasterScript.Proofs.Replay
import RasterScript.Proofs.WatchFile

/-!
# Operations in their range

Whatever is done with a session over the standard commands, the operations that it
holds are in their documented range: the numbers are numbers and between the
bounds, sizes are positive, and a turn by whole quarters is never held as an angle
(`operations_in_range`). That is so at any time, and in the middle of a script.

The engine moves the numbers of seven operations into a range of its own before it
computes with them. `Operation.clamped` is that move and `Color.unclamped?` the
computation after it; put together they are what the engine does
(`adjust?_eq`). The two ranges are the same, so for an operation from a script the
engine computes with the number as it was written.
-/

namespace RasterScript

variable {σ : Type}

/-! ## What the engine does with a number out of range -/

/-- The operation with its number moved into the range that the engine works in. -/
def Operation.clamped : Operation → Operation
  | brightness percent => brightness (Single.clamp percent (-100) 100)
  | contrast percent => contrast (Single.clamp percent (-100) 100)
  | hue shift => hue (Single.clamp shift (-180) 180)
  | opacity percent => opacity (Single.clamp percent 0 100)
  | saturation percent => saturation (Single.clamp percent (-100) 500)
  | sepia percent => sepia (Single.clamp percent 0 100)
  | threshold percent => threshold (Single.clamp percent 0 100)
  | op => op

namespace Color

/--
What a colour operation does to a pixel if its number is taken as it stands. The
operations whose numbers have no documented range are left to `adjust?`.
-/
def unclamped? : Operation → Option (Pixel → Pixel)
  | .brightness percent => some (onColors (onEach fun c => c + percent / 100))
  | .contrast percent =>
    some (onColors (onEach
      (if 100 ≤ percent then fun c => if c < 0.5 then 0 else if 0.5 < c then 1 else 0.5
      else fun c =>
        (c - 0.5) * (if percent ≤ 0 then 1 + percent / 100 else 1 / (1 - percent / 100)) + 0.5)))
  | .hue shift =>
    some (onColors fun c =>
      ofHsl ⟨Single.remainder ((toHsl c).h + shift / 360) 1, (toHsl c).s, (toHsl c).l⟩)
  | .opacity percent =>
    some fun p => ⟨p.red, p.green, p.blue, toByte (percent / 100)⟩
  | .saturation percent =>
    some (onColors fun c =>
      ofHsl ⟨(toHsl c).h, Single.clamp ((toHsl c).s * (1 + percent / 100)) 0 1, (toHsl c).l⟩)
  | .sepia percent =>
    some (onColors fun c =>
      ⟨c.r + (0.393 * c.r + 0.769 * c.g + 0.189 * c.b - c.r) * (percent / 100),
        c.g + (0.349 * c.r + 0.686 * c.g + 0.168 * c.b - c.g) * (percent / 100),
        c.b + (0.272 * c.r + 0.534 * c.g + 0.131 * c.b - c.b) * (percent / 100)⟩)
  | .threshold percent =>
    some (onColors fun c => gray (if percent / 100 ≤ luminance c then 1 else 0))
  | op => adjust? op

/-- **The engine clamps first and computes then.** -/
theorem adjust?_eq (op : Operation) : adjust? op = unclamped? op.clamped := by
  cases op with
  | opacity percent => exact congrArg some (funext fun p => setAlpha_eq percent p)
  | _ => rfl

end Color

theorem Within.clamp {x lo hi : Float32} (h : Within x lo hi) : Single.clamp x lo hi = x := by
  unfold Single.clamp
  rw [if_neg (not_lt_of_le h.low)]
  exact if_neg (not_lt_of_le h.high)

/-- An operation in its documented range is in the range that the engine works in. -/
theorem Operation.InRange.clamped {op : Operation} (h : op.InRange) : op.clamped = op := by
  cases op with
  | brightness percent => exact congrArg Operation.brightness (Within.clamp h)
  | contrast percent => exact congrArg Operation.contrast (Within.clamp h)
  | hue shift => exact congrArg Operation.hue (Within.clamp h)
  | opacity percent => exact congrArg Operation.opacity (Within.clamp h)
  | saturation percent => exact congrArg Operation.saturation (Within.clamp h)
  | sepia percent => exact congrArg Operation.sepia (Within.clamp h)
  | threshold percent => exact congrArg Operation.threshold (Within.clamp h)
  | _ => rfl

namespace Session

/-! ## Any session, at any time -/

/-- A session in the middle of a script is one that may be found. -/
theorem Reachable.trail {r : Registry} {calls : List (Nat × String)} :
    ∀ {s : Session σ}, Reachable r s → ∀ w : World,
      ∀ done ∈ s.trail w calls, Reachable r done.session := by
  induction calls with
  | nil => intro s _ w done hd; cases hd
  | cons call rest ih =>
      intro s h w done hd
      have hstep := h.step w call.1 call.2
      obtain rfl | hd := List.mem_cons.mp hd
      · exact hstep
      · exact ih hstep _ done hd

theorem Reachable.inRange {s : Session σ} (h : Reachable .standard s) :
    ∀ op ∈ s.pipeline.ops, op.InRange := by
  refine (h.keeps (P := fun p => ∀ op ∈ p.ops, op.InRange) (by simp [Pipeline.empty]) ?_).2
  intro p text op hjudge hp made hmade
  obtain hmade | hmade := List.mem_append.mp hmade
  · exact hp made hmade
  · rw [List.mem_singleton.mp hmade]
    exact Registry.inRange_of_judge hjudge

/--
**What a session holds is in range.** Let a session over the standard commands
have come about in any way, and let it be given any further lines. At that time,
and after each of these lines, every operation that it holds is in its documented
range. The range that the engine moves its number into leaves it as it is, so the
engine does to every pixel what it would do without.
-/
theorem operations_in_range {s : Session σ} (h : Reachable .standard s) (w : World)
    (calls : List (Nat × String)) :
    ∀ t ∈ s :: (s.trail w calls).map Step.session, ∀ op ∈ t.pipeline.ops,
      op.InRange ∧ op.clamped = op ∧ Color.adjust? op = Color.unclamped? op := by
  intro t ht op hop
  have hreach : Reachable .standard t := by
    obtain rfl | ht := List.mem_cons.mp ht
    · exact h
    · obtain ⟨done, hdone, rfl⟩ := List.mem_map.mp ht
      exact h.trail w done hdone
  have hrange := hreach.inRange op hop
  exact ⟨hrange, hrange.clamped, by rw [Color.adjust?_eq, hrange.clamped]⟩

/-- A negative zero is in the range of an opacity, and the engine leaves it one. -/
theorem operations_in_range_zero :
    ∃ s : Session Unit, Reachable .standard s ∧ s.pipeline.ops.map Operation.text = ["opacity -0"]
      ∧ ∀ op ∈ s.pipeline.ops, op.InRange ∧ op.clamped = op := by
  have hcheck : (Command.transform "opacity" [] 1 "value (0-100)"
      (Arguments.within 0 100 .opacity)).check [Single.text (-0)] = .ok (some (.opacity (-0))) := by
    show Arguments.within 0 100 .opacity [Single.text (-0)] = _
    rw [Arguments.within, Arguments.ranged, Arguments.number_text (x := -0) rfl]
    simp only [Bind.bind, Except.bind]
    rw [if_pos (by decide +kernel)]
    rfl
  have hjudge : Registry.standard.judge (Operation.opacity (-0)).text = .append (.opacity (-0)) :=
    Registry.judge_text (by simp [Command.standard]) hcheck
  have hfresh := Reachable.opened (r := .standard) Engine.plain () none none
  have hreach := hfresh.accept World.sample 1 rfl (by decide) hjudge
  have hall := operations_in_range hreach World.sample [] _ (List.mem_cons_self ..)
  refine ⟨_, hreach, ?_, fun op hop => ⟨(hall op hop).1, (hall op hop).2.1⟩⟩
  show [(Operation.opacity (-0)).text] = _
  decide +kernel

end Session

end RasterScript
