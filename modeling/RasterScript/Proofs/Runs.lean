import Mathlib.Data.List.Sort
import RasterScript.Proofs.Fields

/-!
# The fields of a line are its runs

A run is a stretch of a text without blanks that cannot be made longer
(`Line.IsRun`). It is told by where it starts and stops, so that runs with the same
characters are not taken for one, and so that runs have an order.

A blank is in no run, and what is on one side of it has no part in a run on the
other side (`Line.isRun_append`). That is also how a text is cut into fields, and
so the fields are the runs in their order (`Line.areRuns_fields`). A comment is the
one kind of line of which the fields are not asked for.
-/

namespace RasterScript

namespace Line

/-! ## Runs -/

/-- The characters of a text from `start` up to, but not including, `stop`. -/
def slice (text : List Char) (start stop : Nat) : List Char := (text.take stop).drop start

/-- A run of a text goes from `start` up to, but not including, `stop`. -/
structure IsRun (text : List Char) (start stop : Nat) : Prop where
  nonempty : start < stop
  inside : stop ≤ text.length
  /-- No character of the run is blank. -/
  solid : ∀ k c, start ≤ k → k < stop → text[k]? = some c → isBlank c = false
  /-- The character in front of the run is blank if there is one. -/
  opens : ∀ k c, k + 1 = start → text[k]? = some c → isBlank c = true
  /-- So is the character behind the run. -/
  closes : ∀ c, text[stop]? = some c → isBlank c = true

/-- These are all the runs of a text, from the first to the last. -/
def AreRuns (text : List Char) (fields : List String) : Prop :=
  ∃ spans : List (Nat × Nat), spans.Pairwise (fun a b => a.1 < b.1)
    ∧ (∀ start stop, (start, stop) ∈ spans ↔ IsRun text start stop)
    ∧ fields = spans.map fun span => String.ofList (slice text span.1 span.2)

/-- **A text has its runs in one way only.** -/
theorem AreRuns.unique {text : List Char} {fs gs : List String} (hf : AreRuns text fs)
    (hg : AreRuns text gs) : fs = gs := by
  obtain ⟨spans, hspans, hmem, rfl⟩ := hf
  obtain ⟨others, hothers, hmem', rfl⟩ := hg
  have hirrefl : Std.Irrefl fun a b : Nat × Nat => a.1 < b.1 := ⟨fun a => Nat.lt_irrefl a.1⟩
  have hantisymm : Std.Antisymm fun a b : Nat × Nat => a.1 < b.1 :=
    ⟨fun a b hab hba => absurd hba (Nat.lt_asymm hab)⟩
  have hsame : spans = others :=
    hspans.eq_of_mem_iff hothers fun span => (hmem _ _).trans (hmem' _ _).symm
  rw [hsame]

/-- **Runs are words.** -/
theorem AreRuns.isWord {text : List Char} {fields : List String} (h : AreRuns text fields) :
    ∀ field ∈ fields, IsWord field := by
  obtain ⟨spans, _, hspans, rfl⟩ := h
  intro field hfield
  obtain ⟨⟨start, stop⟩, hmem, rfl⟩ := List.mem_map.mp hfield
  have hrun := (hspans start stop).mp hmem
  have hstart := hrun.nonempty
  have hstop := hrun.inside
  refine ⟨fun hempty => ?_, fun c hc => ?_⟩
  · have hlength : (slice text start stop).length = 0 := by
      rw [String.ofList_eq_empty_iff.mp hempty, List.length_nil]
    rw [slice, List.length_drop, List.length_take] at hlength
    omega
  · rw [String.toList_ofList] at hc
    obtain ⟨i, hi⟩ := List.mem_iff_getElem?.mp hc
    rw [slice, List.getElem?_drop, List.getElem?_take] at hi
    split at hi
    · exact hrun.solid (start + i) c (by omega) (by assumption) hi
    · exact absurd hi (by simp)

/-! ## Cutting at a blank -/

section Blank

variable {c : Char} {a b : List Char} {start stop : Nat}

theorem getElem?_blank : (a ++ c :: b)[a.length]? = some c := by
  rw [List.getElem?_append_right le_rfl, Nat.sub_self, List.getElem?_cons_zero]

theorem getElem?_behind (k : Nat) : (a ++ c :: b)[a.length + 1 + k]? = b[k]? := by
  rw [List.getElem?_append_right (by omega), Nat.add_assoc, Nat.add_sub_cancel_left, Nat.add_comm,
    List.getElem?_cons_succ]

theorem slice_behind :
    slice (a ++ c :: b) (a.length + 1 + start) (a.length + 1 + stop) = slice b start stop := by
  have hlength : a.length + 1 = (a ++ [c]).length := by rw [List.length_append]; rfl
  have hsplit : a ++ c :: b = (a ++ [c]) ++ b := List.append_cons a c b
  rw [slice, slice, hlength, hsplit, List.take_length_add_append, List.drop_length_add_append]

variable (hc : isBlank c = true)
include hc

/-- What is behind a blank does not matter to the runs in front of it. -/
theorem isRun_append_left (hstop : stop ≤ a.length) :
    IsRun (a ++ c :: b) start stop ↔ IsRun a start stop := by
  have hfront : ∀ k, k < a.length → (a ++ c :: b)[k]? = a[k]? := fun k hk =>
    List.getElem?_append_left hk
  constructor
  · rintro ⟨hne, _, hsolid, hopens, hcloses⟩
    refine ⟨hne, hstop, fun k d hk hk' hd => ?_, fun k d hk hd => ?_, fun d hd => ?_⟩
    · exact hsolid k d hk hk' (hfront k (by omega) ▸ hd)
    · exact hopens k d hk (hfront k (by omega) ▸ hd)
    · exact hcloses d (hfront stop (List.getElem?_eq_some_iff.mp hd).1 ▸ hd)
  · rintro ⟨hne, _, hsolid, hopens, hcloses⟩
    refine ⟨hne, ?_, fun k d hk hk' hd => ?_, fun k d hk hd => ?_, fun d hd => ?_⟩
    · rw [List.length_append]
      omega
    · exact hsolid k d hk hk' (hfront k (by omega) ▸ hd)
    · exact hopens k d hk (hfront k (by omega) ▸ hd)
    · obtain hlt | rfl := Nat.lt_or_eq_of_le hstop
      · exact hcloses d (hfront stop hlt ▸ hd)
      · obtain rfl := Option.some.inj (getElem?_blank.symm.trans hd)
        exact hc

/-- What is in front of a blank does not matter to the runs behind it. -/
theorem isRun_append_right :
    IsRun (a ++ c :: b) (a.length + 1 + start) (a.length + 1 + stop) ↔ IsRun b start stop := by
  constructor
  · rintro ⟨hne, hin, hsolid, hopens, hcloses⟩
    rw [List.length_append, List.length_cons] at hin
    refine ⟨by omega, by omega, fun k d hk hk' hd => ?_, fun k d hk hd => ?_, fun d hd => ?_⟩
    · exact hsolid (a.length + 1 + k) d (by omega) (by omega) (getElem?_behind k ▸ hd)
    · exact hopens (a.length + 1 + k) d (by omega) (getElem?_behind k ▸ hd)
    · exact hcloses d (getElem?_behind stop ▸ hd)
  · rintro ⟨hne, hin, hsolid, hopens, hcloses⟩
    refine ⟨by omega, ?_, fun k d hk hk' hd => ?_, fun k d hk hd => ?_, fun d hd => ?_⟩
    · rw [List.length_append, List.length_cons]
      omega
    · obtain ⟨k, rfl⟩ := Nat.exists_eq_add_of_le (show a.length + 1 ≤ k by omega)
      exact hsolid k d (by omega) (by omega) (getElem?_behind k ▸ hd)
    · obtain hk' | rfl : a.length + 1 ≤ k ∨ k = a.length := by omega
      · obtain ⟨k, rfl⟩ := Nat.exists_eq_add_of_le hk'
        exact hopens k d (by omega) (getElem?_behind k ▸ hd)
      · obtain rfl := Option.some.inj (getElem?_blank.symm.trans hd)
        exact hc
    · exact hcloses d (getElem?_behind stop ▸ hd)

/-- **A blank is in no run**, so every run is on one side of it. -/
theorem isRun_append :
    IsRun (a ++ c :: b) start stop ↔
      IsRun a start stop ∨ ∃ start' stop', IsRun b start' stop'
        ∧ a.length + 1 + start' = start ∧ a.length + 1 + stop' = stop := by
  constructor
  · intro h
    have hne := h.nonempty
    obtain hstop | hstart : stop ≤ a.length ∨ a.length + 1 ≤ start := by
      by_contra hacross
      have hsolid := h.solid a.length c (by omega) (by omega) getElem?_blank
      exact absurd hc (by simp [hsolid])
    · exact .inl ((isRun_append_left hc hstop).mp h)
    · obtain ⟨start, rfl⟩ := Nat.exists_eq_add_of_le hstart
      obtain ⟨stop, rfl⟩ := Nat.exists_eq_add_of_le (show a.length + 1 ≤ stop by omega)
      exact .inr ⟨start, stop, (isRun_append_right hc).mp h, rfl, rfl⟩
  · rintro (h | ⟨start, stop, h, rfl, rfl⟩)
    · exact (isRun_append_left hc h.inside).mpr h
    · exact (isRun_append_right hc).mpr h

theorem areRuns_append {fs gs : List String} (ha : AreRuns a fs) (hb : AreRuns b gs) :
    AreRuns (a ++ c :: b) (fs ++ gs) := by
  obtain ⟨front, hfront, hmemfront, rfl⟩ := ha
  obtain ⟨back, hback, hmemback, rfl⟩ := hb
  let shift (span : Nat × Nat) : Nat × Nat := (a.length + 1 + span.1, a.length + 1 + span.2)
  refine ⟨front ++ back.map shift, ?_, fun start stop => ?_, ?_⟩
  · refine List.pairwise_append.mpr ⟨hfront, ?_, ?_⟩
    · exact List.pairwise_map.mpr (hback.imp fun h => Nat.add_lt_add_left h _)
    · intro first hfirst second hsecond
      obtain ⟨span, _, rfl⟩ := List.mem_map.mp hsecond
      have hrun := (hmemfront first.1 first.2).mp hfirst
      have hne := hrun.nonempty
      have hin := hrun.inside
      dsimp only [shift]
      omega
  · rw [List.mem_append, hmemfront, List.mem_map, isRun_append hc]
    simp only [Prod.exists, hmemback, shift, Prod.mk.injEq]
  · rw [List.map_append, List.map_map]
    congr 1
    · refine List.map_congr_left fun span hspan => ?_
      have hin := ((hmemfront span.1 span.2).mp hspan).inside
      rw [slice, slice, List.take_append_of_le_length hin]
    · exact List.map_congr_left fun span _ => congrArg String.ofList slice_behind.symm

end Blank

/-- A text without blanks is a run of its own if there is anything to it. -/
theorem isRun_solid {text : List Char} (h : ∀ c ∈ text, isBlank c = false) {start stop : Nat} :
    IsRun text start stop ↔ text ≠ [] ∧ start = 0 ∧ stop = text.length := by
  constructor
  · intro hrun
    have hne := hrun.nonempty
    have hin := hrun.inside
    have hstart : start = 0 := by
      by_contra hpos
      have hk : start - 1 < text.length := by omega
      have hblank := hrun.opens (start - 1) text[start - 1] (by omega)
        (List.getElem?_eq_getElem hk)
      exact absurd hblank (by simp [h _ (List.getElem_mem hk)])
    have hstop : stop = text.length := by
      by_contra hlt
      have hk : stop < text.length := by omega
      have hblank := hrun.closes text[stop] (List.getElem?_eq_getElem hk)
      exact absurd hblank (by simp [h _ (List.getElem_mem hk)])
    refine ⟨?_, hstart, hstop⟩
    rintro rfl
    rw [List.length_nil] at hstop
    omega
  · rintro ⟨hne, rfl, rfl⟩
    refine ⟨List.length_pos_iff.mpr hne, le_rfl, fun k c _ _ hc => ?_, fun k c hk _ => ?_,
      fun c hc => ?_⟩
    · exact h c (List.mem_of_getElem? hc)
    · exact absurd hk (Nat.succ_ne_zero k)
    · rw [List.getElem?_eq_none le_rfl] at hc
      exact absurd hc (by simp)

/-- **The fields of a text are its runs.** The induction is on how long the text is. -/
theorem areRuns_fields (text : List Char) : AreRuns text (fields text) := by
  by_cases hblank : ∃ c ∈ text, isBlank c = true
  · obtain ⟨c, hmem, hc⟩ := hblank
    obtain ⟨a, b, hsplit⟩ := List.append_of_mem hmem
    have hlength : text.length = a.length + (b.length + 1) := by
      rw [hsplit, List.length_append, List.length_cons]
    have ha : a.length < text.length := by omega
    have hb : b.length < text.length := by omega
    rw [hsplit, fields_append_blank hc]
    exact areRuns_append hc (areRuns_fields a) (areRuns_fields b)
  · have hsolid : ∀ c ∈ text, isBlank c = false := fun c hc => by
      simpa using fun h => hblank ⟨c, hc, h⟩
    by_cases hne : text = []
    · subst hne
      exact ⟨[], .nil, fun start stop => by simp [isRun_solid], rfl⟩
    · refine ⟨[(0, text.length)], List.pairwise_singleton _ _, fun start stop => ?_, ?_⟩
      · rw [isRun_solid hsolid, List.mem_singleton, Prod.mk.injEq]
        exact (and_iff_right hne).symm
      · rw [fields_run hne hsolid, List.map_singleton, slice, List.take_length, List.drop_zero]
termination_by text.length

/-! ## Lines -/

/-- Whether a text has the mark of a comment in front. -/
def IsMarked (text : List Char) : Prop := ['#'] <+: text ∨ ['/', '/'] <+: text

theorem marks_iff (text : List Char) : marks text = true ↔ IsMarked text := by
  cases text with
  | nil => simp [marks, IsMarked]
  | cons c rest =>
      have hsharp : ['#'] <+: c :: rest ↔ c = '#' := by
        rw [List.singleton_prefix_cons_iff, eq_comm]
      have hslash : ['/', '/'] <+: c :: rest ↔ c = '/' ∧ rest.head? = some '/' := by
        rw [List.cons_prefix_cons, eq_comm]
        cases rest with
        | nil => simp
        | cons d rest =>
            rw [List.singleton_prefix_cons_iff, List.head?_cons, Option.some.injEq,
              eq_comm (a := d)]
      rw [marks_cons, IsMarked, hsharp, hslash]
      simp

theorem ofText_eq_comment (text : String) :
    ofText text = comment ↔ IsMarked (text.toList.dropWhile isBlank) := by
  rw [← marks_iff]
  have hcomment : isComment text.toList = marks (text.toList.dropWhile isBlank) := rfl
  rw [← hcomment, ofText, ofChars]
  split
  · simp_all
  · split <;> simp_all

theorem fields_eq_nil (text : List Char) :
    fields text = [] ↔ ∀ c ∈ text, isBlank c = true := by
  constructor
  · intro h
    rw [← List.dropWhile_eq_nil_iff]
    cases hrest : text.dropWhile isBlank with
    | nil => rfl
    | cons c rest =>
        rw [← fields_dropWhile, hrest, fields_cons (dropWhile_head hrest)] at h
        exact absurd h (List.cons_ne_nil _ _)
  · intro h
    have hfields := fields_blanks_append h []
    rw [List.append_nil] at hfields
    exact hfields

theorem ofText_eq_blank (text : String) :
    ofText text = blank ↔ ∀ c ∈ text.toList, isBlank c = true := by
  rw [← fields_eq_nil, ofText, ofChars_eq]
  cases fields text.toList with
  | nil => simp [ofFields]
  | cons name args =>
      rw [ofFields]
      split <;> simp

theorem ofText_eq_command (text name : String) (args : List String) :
    ofText text = command name args ↔
      ¬ IsMarked (text.toList.dropWhile isBlank) ∧ fields text.toList = name :: args := by
  rw [← ofText_eq_comment, ofText, ofChars_eq]
  cases fields text.toList with
  | nil => simp [ofFields]
  | cons first rest =>
      rw [ofFields]
      split <;> simp

/--
**A line is a comment, or it is its runs.** It is a comment exactly if it is marked
once the blanks in front are gone, and blank exactly if all of it is. Any other line
is a command, of exactly the runs of the text, and those are words. Conversely,
words with gaps between them are a command of those words, whatever the gaps are and
whatever blanks there are at both ends, unless the first word has a mark in front.
-/
theorem ofText_reads_runs :
    (∀ text : String,
      (ofText text = comment ↔ IsMarked (text.toList.dropWhile isBlank))
        ∧ (ofText text = blank ↔ ∀ c ∈ text.toList, isBlank c = true)
        ∧ (¬ IsMarked (text.toList.dropWhile isBlank) →
            (∃ c ∈ text.toList, isBlank c = false) →
            ∃ name args, ofText text = command name args)
        ∧ (∀ name args, ofText text = command name args ↔
            ¬ IsMarked (text.toList.dropWhile isBlank) ∧ AreRuns text.toList (name :: args))
        ∧ ∀ field ∈ (ofText text).toFields, IsWord field)
      ∧ ∀ (leading name trailing : String) (args : List (String × String)),
          IsGap leading → IsGap trailing → IsWord name → ¬ IsMarked name.toList →
          (∀ arg ∈ args, arg.1 ≠ "" ∧ IsGap arg.1 ∧ IsWord arg.2) →
          ofText (leading ++ name ++ String.join (args.map fun arg => arg.1 ++ arg.2) ++ trailing) =
            command name (args.map Prod.snd) := by
  refine ⟨fun text => ⟨ofText_eq_comment text, ofText_eq_blank text, ?_, ?_, ?_⟩, ?_⟩
  · intro hmark hsolid
    cases hline : ofText text with
    | comment => exact absurd ((ofText_eq_comment text).mp hline) hmark
    | blank =>
        obtain ⟨c, hmem, hc⟩ := hsolid
        have hblank := (ofText_eq_blank text).mp hline c hmem
        exact absurd hblank (by simp [hc])
    | command name args => exact ⟨name, args, rfl⟩
  · intro name args
    rw [ofText_eq_command]
    refine and_congr_right fun _ => ⟨fun h => h ▸ areRuns_fields text.toList, fun h => ?_⟩
    exact (areRuns_fields text.toList).unique h
  · intro field hfield
    cases hline : ofText text with
    | comment | blank => exact absurd (hline ▸ hfield) List.not_mem_nil
    | command name args =>
        obtain ⟨_, hfields⟩ := (ofText_eq_command text name args).mp hline
        refine (areRuns_fields text.toList).isWord field ?_
        rw [hfields]
        exact (hline ▸ hfield : field ∈ toFields (command name args))
  · intro leading name trailing args hleading htrailing hname hmark hargs
    have hjoin : (String.join (args.map fun arg => arg.1 ++ arg.2)).toList =
        args.flatMap fun arg => arg.1.toList ++ arg.2.toList := by
      simp only [String.toList_join, List.flatMap_map, String.toList_append]
    rw [ofText, ofChars_eq, String.toList_append, fields_append_blanks htrailing,
      String.toList_append, String.toList_append, List.append_assoc, fields_blanks_append hleading,
      hjoin, fields_words args hname hargs, ofFields, if_neg (mt (marks_iff _).mp hmark)]

/-- Wide blanks, a single slash for a name, and marks in the fields behind it. -/
theorem ofText_reads_runs_slash :
    IsWord "/" ∧ ¬ IsMarked "/".toList
      ∧ ofText "\u3000/\u00a0\t//x\u2003# " = command "/" ["//x", "#"] := by
  have hword : IsWord "/" ∧ IsWord "//x" ∧ IsWord "#" := by
    simp [IsWord, isBlank]
  have hmark : ¬ IsMarked "/".toList := by
    rw [← marks_iff]
    decide
  have hgap : IsGap "\u3000" ∧ IsGap " " ∧ IsGap "\u00a0\t" ∧ IsGap "\u2003" := by
    simp [IsGap, isBlank]
  let args := [("\u00a0\t", "//x"), ("\u2003", "#")]
  have htext : "\u3000/\u00a0\t//x\u2003# " =
      "\u3000" ++ "/" ++ String.join (args.map fun arg => arg.1 ++ arg.2) ++ " " := rfl
  refine ⟨hword.1, hmark, ?_⟩
  rw [htext]
  refine ofText_reads_runs.2 _ _ _ _ hgap.1 hgap.2.1 hword.1 hmark fun arg harg => ?_
  obtain rfl | rfl : arg = ("\u00a0\t", "//x") ∨ arg = ("\u2003", "#") := by
    simpa [args] using harg
  · exact ⟨by decide, hgap.2.2.1, hword.2.1⟩
  · exact ⟨by decide, hgap.2.2.2, hword.2.2⟩

end Line

end RasterScript
