import RasterScript.Proofs.Failure
import RasterScript.Proofs.Fields

/-!
# Where lines end

A script is cut after each of its line feeds and nowhere else (`segments_iff`),
each line loses its line feed and one carriage return before it
(`stripNewline_eq_iff`), and what is left is decoded, whatever bytes it has. A run
takes a step for each of these texts, numbered from 1, up to the first that fails
(`steps_eq_follow`).

It makes no difference to a run by which of the two ends a line ends. A carriage
return before the line feed is dropped; and where there is a second one, so that
one of them stays, it is a blank at the end of the line, which separates nothing.
For this it must be a character of its own however the bytes before it break off
(`decodeFrom_append_ascii`).
-/

namespace RasterScript

variable {σ : Type}

/-! ## A byte that is a character -/

namespace Utf8

/-- What is pending only takes bytes that are not characters of their own. -/
def Pending.Owes (pending : Option Pending) : Prop :=
  ∀ p, pending = some p → 0x80 ≤ p.low

theorem Pending.owes_none : Pending.Owes none := by
  intro p hp
  cases hp

theorem lead?_low {byte : UInt8} {owed low high bits : Nat}
    (h : lead? byte = some (owed, low, high, bits)) : 0x80 ≤ low := by
  unfold lead? at h
  dsimp only at h
  split_ifs at h <;> cases h <;> decide

theorem start_owes (byte : UInt8) : Pending.Owes (start byte).2 := by
  intro p hp
  unfold start at hp
  split at hp
  · cases hp
  · split at hp
    next hlead =>
      cases hp
      exact lead?_low hlead
    next => cases hp

theorem decodeFrom_fresh (byte : UInt8) (rest : List UInt8) :
    decodeFrom none (byte :: rest) = (start byte).1 ++ decodeFrom (start byte).2 rest := rfl

theorem decodeFrom_pending (p : Pending) (byte : UInt8) (rest : List UInt8) :
    decodeFrom (some p) (byte :: rest) =
      if p.low ≤ byte.toNat ∧ byte.toNat ≤ p.high then
        if p.owed = 1 then Char.ofNat (p.bits * 64 + payload byte) :: decodeFrom none rest
        else decodeFrom (some ⟨p.owed - 1, 0x80, 0xbf, p.bits * 64 + payload byte⟩) rest
      else replacementChar :: decodeFrom none (byte :: rest) := rfl

/-- **A byte below 128 is a character, whatever comes before it.** -/
theorem decodeFrom_append_ascii {byte : UInt8} (hbyte : byte.toNat < 0x80)
    (bytes rest : List UInt8) :
    ∀ {pending : Option Pending}, Pending.Owes pending →
      decodeFrom pending (bytes ++ byte :: rest) =
        decodeFrom pending bytes ++ Char.ofNat byte.toNat :: decodeFrom none rest := by
  have hfresh : decodeFrom none (byte :: rest) = Char.ofNat byte.toNat :: decodeFrom none rest := by
    rw [decodeFrom_fresh, start, if_pos hbyte]
    rfl
  induction bytes with
  | nil =>
      intro pending howes
      cases pending with
      | none => exact hfresh
      | some p =>
          -- the byte cannot continue what is pending, so that ends here
          have hends : ¬ (p.low ≤ byte.toNat ∧ byte.toNat ≤ p.high) := by
            have hlow := howes p rfl
            omega
          rw [List.nil_append, decodeFrom_pending, if_neg hends, hfresh]
          rfl
  | cons b bytes ih =>
      have hnext : decodeFrom none (b :: (bytes ++ byte :: rest)) =
          decodeFrom none (b :: bytes) ++ Char.ofNat byte.toNat :: decodeFrom none rest := by
        rw [decodeFrom_fresh, decodeFrom_fresh, ih (start_owes b), List.append_assoc]
      intro pending howes
      cases pending with
      | none => exact hnext
      | some p =>
          rw [List.cons_append, decodeFrom_pending, decodeFrom_pending]
          split
          · split
            · rw [ih Pending.owes_none, List.cons_append]
            · refine ih ?_
              intro q hq
              cases hq
              exact Nat.le_refl _
          · rw [hnext, List.cons_append]

end Utf8

namespace Script

/-! ## Cutting -/

/-- The segments of some bytes, cut after each line feed. The last may be without one. -/
inductive Segments : List UInt8 → List (List UInt8) → Prop where
  | nil : Segments [] []
  | last {left : List UInt8} : left ≠ [] → (∀ byte ∈ left, byte ≠ 0x0a) → Segments left [left]
  | line {text bytes : List UInt8} {segments : List (List UInt8)} :
      (∀ byte ∈ text, byte ≠ 0x0a) → Segments bytes segments →
      Segments (text ++ 0x0a :: bytes) ((text ++ [0x0a]) :: segments)

theorem split_left {left : List UInt8} (h : ∀ byte ∈ left, byte ≠ 0x0a) :
    split left = ([], left) := by
  induction left with
  | nil => rfl
  | cons byte left ih =>
      obtain ⟨hbyte, hleft⟩ := List.forall_mem_cons.mp h
      rw [split, ih hleft]
      simp [hbyte]

theorem Segments.lines_eq {bytes : List UInt8} {segments : List (List UInt8)}
    (h : Segments bytes segments) : (Script.mk bytes none).lines = segments := by
  induction h with
  | nil => rfl
  | last hne hleft =>
      rw [lines, split_left hleft]
      simp [hne]
  | @line text bytes segments htext _ ih =>
      have hline : IsLine (text ++ [0x0a]) := ⟨text, rfl, htext⟩
      have happend := lines_append (List.forall_mem_singleton.mpr hline) bytes none
      rw [ih, List.flatten_singleton, List.append_assoc] at happend
      exact happend

theorem segments_exist (bytes : List UInt8) : ∃ segments, Segments bytes segments := by
  induction bytes with
  | nil => exact ⟨[], .nil⟩
  | cons byte bytes ih =>
      obtain ⟨segments, h⟩ := ih
      by_cases hbyte : byte = 0x0a
      · subst hbyte
        exact ⟨_, @Segments.line [] _ _ (by simp) h⟩
      -- any other byte is put in front of the first segment
      · cases h with
        | nil => exact ⟨_, @Segments.last [byte] (by simp) (by simpa using hbyte)⟩
        | last _ hleft =>
            exact ⟨_, .last (List.cons_ne_nil byte bytes) (List.forall_mem_cons.mpr ⟨hbyte, hleft⟩)⟩
        | @line text _ _ htext hrest =>
            have hline : ∀ b ∈ byte :: text, b ≠ 0x0a := List.forall_mem_cons.mpr ⟨hbyte, htext⟩
            exact ⟨_, @Segments.line (byte :: text) _ _ hline hrest⟩

/-- **The lines of a script that can be read to its end are its segments.** -/
theorem segments_iff {bytes : List UInt8} {segments : List (List UInt8)} :
    Segments bytes segments ↔ segments = (Script.mk bytes none).lines := by
  refine ⟨fun h => h.lines_eq.symm, ?_⟩
  rintro rfl
  obtain ⟨segments, h⟩ := segments_exist bytes
  rw [h.lines_eq]
  exact h

/-! ## The end of a line -/

/-- What a line has before its end: a line feed, a carriage return, both in this order or nothing. -/
inductive Unended : List UInt8 → List UInt8 → Prop where
  | crlf (text : List UInt8) : Unended (text ++ [0x0d, 0x0a]) text
  | lf {text : List UInt8} : text.getLast? ≠ some 0x0d → Unended (text ++ [0x0a]) text
  | cr (text : List UInt8) : Unended (text ++ [0x0d]) text
  | bare {text : List UInt8} : text.getLast? ≠ some 0x0a → text.getLast? ≠ some 0x0d →
      Unended text text

theorem stripNewline_eq_iff {line text : List UInt8} :
    stripNewline line = text ↔ Unended line text := by
  constructor
  · rintro rfl
    by_cases hfeed : line.getLast? = some 0x0a
    · obtain ⟨init, rfl⟩ := List.getLast?_eq_some_iff.mp hfeed
      by_cases hreturn : init.getLast? = some 0x0d
      · obtain ⟨text, rfl⟩ := List.getLast?_eq_some_iff.mp hreturn
        simpa [stripNewline] using Unended.crlf text
      · simpa [stripNewline, hreturn] using Unended.lf hreturn
    · by_cases hreturn : line.getLast? = some 0x0d
      · obtain ⟨text, rfl⟩ := List.getLast?_eq_some_iff.mp hreturn
        simpa [stripNewline] using Unended.cr text
      · simpa [stripNewline, hfeed, hreturn] using Unended.bare hfeed hreturn
  · intro h
    cases h with
    | crlf => simp [stripNewline]
    | lf hreturn => simp [stripNewline, hreturn]
    | cr => simp [stripNewline]
    | bare hfeed hreturn => simp [stripNewline, hfeed, hreturn]

/-- A last line reads the same without its line feed. -/
theorem lineText_unfed {text : List UInt8} (h : text.getLast? ≠ some 0x0a) :
    lineText text = lineText (text ++ [0x0a]) := by
  have hstrip : stripNewline text = stripNewline (text ++ [0x0a]) := by
    simp [stripNewline, h]
  rw [lineText, lineText, hstrip]

/-- One carriage return more before the line feed is at most a blank at the end of the line. -/
theorem ofText_crlf (text : List UInt8) :
    Line.ofText (lineText (text ++ [0x0d, 0x0a])) = Line.ofText (lineText (text ++ [0x0a])) := by
  have hcrlf : stripNewline (text ++ [0x0d, 0x0a]) = text := stripNewline_eq_iff.mpr (.crlf text)
  by_cases hreturn : text.getLast? = some 0x0d
  · obtain ⟨init, rfl⟩ := List.getLast?_eq_some_iff.mp hreturn
    have hlf : stripNewline (init ++ [0x0d] ++ [0x0a]) = init := by
      rw [List.append_assoc]
      exact stripNewline_eq_iff.mpr (.crlf init)
    have hdecoded : Utf8.decodeLossy (init ++ [0x0d]) = Utf8.decodeLossy init ++ ['\r'] :=
      Utf8.decodeFrom_append_ascii (by decide) init [] Utf8.Pending.owes_none
    have hblank : ∀ c ∈ ['\r'], isBlank c = true := by simp [isBlank]
    rw [lineText, lineText, hcrlf, hlf, hdecoded, Line.ofText, Line.ofText, String.toList_ofList,
      String.toList_ofList]
    exact Line.ofChars_congr (Line.fields_append_blanks hblank _)
  · have hlf : stripNewline (text ++ [0x0a]) = text := stripNewline_eq_iff.mpr (.lf hreturn)
    rw [lineText, lineText, hcrlf, hlf]

/-! ## Carriage returns put in -/

/-- The bytes again, with a carriage return put in before some of their line feeds. -/
inductive Returned : List UInt8 → List UInt8 → Prop where
  | nil : Returned [] []
  | keep (byte : UInt8) {bytes returned : List UInt8} :
      Returned bytes returned → Returned (byte :: bytes) (byte :: returned)
  | feed {bytes returned : List UInt8} :
      Returned bytes returned → Returned (0x0a :: bytes) (0x0d :: 0x0a :: returned)

/-- What the bytes of a line say. -/
def read (line : List UInt8) : Line := Line.ofText (lineText line)

/-- Two lines of bytes that say the same. -/
def SameLine (line line' : List UInt8) : Prop := read line' = read line

/-- A line with its end, and the line again or with a carriage return put in before its end. -/
def ReturnedLine (line returned : List UInt8) : Prop :=
  returned = line ∨ ∃ text, line = text ++ [0x0a] ∧ returned = text ++ [0x0d, 0x0a]

theorem ReturnedLine.cons {line returned : List UInt8} (h : ReturnedLine line returned)
    (byte : UInt8) : ReturnedLine (byte :: line) (byte :: returned) := by
  obtain rfl | ⟨text, rfl, rfl⟩ := h
  · exact .inl rfl
  · exact .inr ⟨byte :: text, rfl, rfl⟩

theorem ReturnedLine.same {line returned : List UInt8} (h : ReturnedLine line returned) :
    SameLine line returned := by
  obtain rfl | ⟨text, rfl, rfl⟩ := h
  · exact rfl
  · exact ofText_crlf text

/-- Carriage returns put in stay within their lines, and what is left over has none. -/
theorem Returned.split {bytes returned : List UInt8} (h : Returned bytes returned) :
    List.Forall₂ ReturnedLine (Script.split bytes).1 (Script.split returned).1
      ∧ (Script.split returned).2 = (Script.split bytes).2 := by
  induction h with
  | nil => exact ⟨.nil, rfl⟩
  | @keep byte bytes returned _ ih =>
      rw [Script.split, Script.split]
      generalize Script.split bytes = cut at ih ⊢
      generalize Script.split returned = cut' at ih ⊢
      obtain ⟨lines, left⟩ := cut
      obtain ⟨lines', left'⟩ := cut'
      obtain ⟨hlines, rfl⟩ := ih
      dsimp only at hlines ⊢
      split
      · exact ⟨.cons (.inl rfl) hlines, rfl⟩
      · cases hlines with
        | nil => exact ⟨.nil, rfl⟩
        | cons hline hlines => exact ⟨.cons (hline.cons byte) hlines, rfl⟩
  | @feed bytes returned _ ih =>
      have hfeed : ∀ rest, Script.split (0x0a :: rest) =
          ([0x0a] :: (Script.split rest).1, (Script.split rest).2) := fun _ => rfl
      rw [hfeed, Script.split, hfeed]
      exact ⟨.cons (.inr ⟨[], rfl, rfl⟩) ih.1, ih.2⟩

theorem Returned.lines {bytes returned : List UInt8} (h : Returned bytes returned)
    (failure : Option StreamFault) :
    List.Forall₂ SameLine (Script.mk bytes failure).lines (Script.mk returned failure).lines := by
  obtain ⟨hlines, hleft⟩ := h.split
  have hsame : List.Forall₂ SameLine (Script.split bytes).1 (Script.split returned).1 :=
    hlines.imp fun _ _ => ReturnedLine.same
  unfold Script.lines
  dsimp only
  rw [hleft]
  split
  · exact hsame
  · exact List.rel_append hsame (.cons rfl .nil)

/-- Without its last line feed a script has the same lines, unless the last is then empty. -/
theorem Segments.lines_fed {bytes : List UInt8} {segments : List (List UInt8)}
    (h : Segments bytes segments) (hne : bytes ≠ []) (hlast : bytes.getLast? ≠ some 0x0a) :
    List.Forall₂ SameLine (Script.mk (bytes ++ [0x0a]) none).lines segments := by
  induction h with
  | nil => exact absurd rfl hne
  | @last left _ hleft =>
      have hlines : (Script.mk (left ++ [0x0a]) none).lines = [left ++ [0x0a]] :=
        (Segments.line hleft .nil).lines_eq
      rw [hlines]
      exact .cons (congrArg Line.ofText (lineText_unfed hlast)) .nil
  | @line text rest segments htext _ ih =>
      have hrest : rest ≠ [] := by
        rintro rfl
        exact hlast (by simp)
      have hrestLast : rest.getLast? ≠ some 0x0a := by
        rwa [List.getLast?_append_of_ne_nil _ (List.cons_ne_nil 0x0a rest),
          List.getLast?_cons_of_ne_nil hrest] at hlast
      have hlines : (Script.mk ((text ++ 0x0a :: rest) ++ [0x0a]) none).lines =
          (text ++ [0x0a]) :: (Script.mk (rest ++ [0x0a]) none).lines := by
        rw [List.append_assoc, List.cons_append]
        exact (Segments.line htext (segments_iff.mpr rfl)).lines_eq
      rw [hlines]
      exact .cons rfl (ih hrest hrestLast)

end Script

namespace Session

/-! ## What a run reads -/

theorem processLine_congr {text text' : String} (h : Line.ofText text' = Line.ofText text)
    (s : Session σ) (w : World) (line : Nat) :
    s.processLine w line text' = s.processLine w line text := by
  unfold processLine
  rw [h]

theorem step_congr {text text' : String} (h : Line.ofText text' = Line.ofText text)
    (s : Session σ) (w : World) (line : Nat) : s.step w line text' = s.step w line text := by
  unfold step
  rw [processLine_congr h]

/-- Steps over lines that say the same are the same steps. -/
theorem steps_congr {lines lines' : List (List UInt8)}
    (h : List.Forall₂ Script.SameLine lines lines') :
    ∀ (s : Session σ) (w : World) (line : Nat), s.steps w line lines' = s.steps w line lines := by
  induction h with
  | nil => intro s w line; rfl
  | cons hline _ ih =>
      intro s w line
      rw [steps, steps, step_congr hline]
      split
      · exact ih _ _ _
      · rfl

theorem run_congr {script script' : Script}
    (h : List.Forall₂ Script.SameLine script.lines script'.lines)
    (hf : script'.failure = script.failure) (s : Session σ) (w : World) (out : Output) :
    s.run w script' out = s.run w script out := by
  unfold run runLines
  rw [steps_congr h, hf]

/-- The steps of lines that come with their numbers, up to the first that fails. -/
def follow (s : Session σ) (w : World) (calls : List (Nat × String)) : Step σ Unit :=
  match (s.trail w calls).find? (!·.succeeded) with
  | some failed => ⟨failed.result.map fun _ => (), failed.session, failed.world⟩
  | none => ⟨.ok (), (s.walk w calls).1, (s.walk w calls).2⟩

/-- **A run takes a step for each line with its number, up to the first that fails.** -/
theorem steps_eq_follow {lines : List (List UInt8)} :
    ∀ (s : Session σ) (w : World) (line : Nat),
      s.steps w line lines = s.follow w (numbered line lines) := by
  induction lines with
  | nil => intro s w line; rfl
  | cons bytes rest ih =>
      intro s w line
      rw [numbered_cons, steps, follow, trail, walk, List.find?_cons]
      generalize s.step w line (Script.lineText bytes) = done
      obtain ⟨result, s', w'⟩ := done
      cases result with
      | error error => rfl
      | ok outcome => exact ih s' w' (line + 1)

/--
**How a script is cut into lines, and what its line ends come to.** The bytes of
a script have segments in exactly one way. A run takes a step for each segment in
order, numbered from 1, up to the first step that fails; the text of the step is
the segment without its end, decoded as far as it can be. So a run is the same
run if a carriage return is put in before any of the line feeds, or if the last
line feed is left out where the last line is not empty.
-/
theorem run_line_ends (s : Session σ) (w : World) (bytes : List UInt8) (out : Output) :
    (∃ segments calls, (∀ other, Script.Segments bytes other ↔ other = segments)
        ∧ calls.length = segments.length
        ∧ (∀ (i : Nat) segment, segments[i]? = some segment → ∃ text,
            Script.Unended segment text
              ∧ calls[i]? = some (i + 1, String.ofList (Utf8.decodeLossy text)))
        ∧ s.steps w 1 (Script.mk bytes none).lines = s.follow w calls
        ∧ (s.run w ⟨bytes, none⟩ out).world = (s.follow w calls).world)
      ∧ (∀ returned, Script.Returned bytes returned → ∀ failure,
          s.run w ⟨returned, failure⟩ out = s.run w ⟨bytes, failure⟩ out)
      ∧ ∀ init, bytes = init ++ [0x0a] → init ≠ [] → init.getLast? ≠ some 0x0a →
          s.run w ⟨init, none⟩ out = s.run w ⟨bytes, none⟩ out := by
  refine ⟨⟨(Script.mk bytes none).lines, numbered 1 (Script.mk bytes none).lines, ?_, ?_, ?_, ?_,
    ?_⟩, ?_, ?_⟩
  · exact fun other => Script.segments_iff
  · rw [numbered, List.length_map, List.length_zipIdx]
  · intro i segment hsegment
    refine ⟨_, Script.stripNewline_eq_iff.mp rfl, ?_⟩
    rw [numbered, List.getElem?_map, List.getElem?_zipIdx, hsegment, Nat.add_comm]
    rfl
  · exact steps_eq_follow s w 1
  · rw [run_world, steps_eq_follow]
  · exact fun returned h failure => run_congr (h.lines failure) rfl s w out
  · rintro init rfl hne hlast
    have hsegments : Script.Segments init (Script.mk init none).lines := Script.segments_iff.mpr rfl
    exact run_congr (hsegments.lines_fed hne hlast) rfl s w out

/-- Of `neg`, two bytes of three that make a character, and `x` with a carriage return. -/
theorem run_line_ends_undecodable :
    let s := opened Registry.sample Engine.plain () none none
    let bytes := [110, 101, 103, 10, 0xe2, 0x82, 10, 120, 13, 10]
    let run := s.run World.sample ⟨bytes, none⟩ ⟨[], none⟩
    run.session.summary = ⟨3, 1, 0, 2, 0⟩ ∧ run.session.pipeline.ops = [.invert]
      ∧ s.run World.sample ⟨[110, 101, 103, 13, 10, 0xe2, 0x82, 13, 10, 120, 13, 13, 10], none⟩
        ⟨[], none⟩ = run
      ∧ s.run World.sample ⟨[110, 101, 103, 10, 0xe2, 0x82, 10, 120, 13], none⟩ ⟨[], none⟩ =
        run := by
  intro s bytes run
  obtain ⟨_, hreturned, hunfed⟩ := run_line_ends s World.sample bytes ⟨[], none⟩
  refine ⟨rfl, rfl, hreturned _ ?_ none, hunfed _ rfl (by decide) (by decide)⟩
  exact .keep _ (.keep _ (.keep _ (.feed (.keep _ (.keep _ (.feed (.keep _ (.keep _ (.feed
    .nil)))))))))

end Session

end RasterScript
