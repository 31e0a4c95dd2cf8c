import Mathlib.Data.List.TakeWhile
import RasterScript.Script.Line

/-!
# A line is what its fields are

The fields of a line are cut at blanks, and a blank between two texts does nothing
else: the fields of the whole are those of the one and then those of the other
(`fields_append_blank`). How many blanks there are and which, in front of the
fields, between them or after them, makes no difference. So words with gaps between
them are the fields of what they make up (`fields_words`).

Whether a line is a comment is decided before it is cut, but by characters that
the first field keeps. So the fields say what a line is (`ofChars_eq`), and two
lines with the same fields are the same line.
-/

namespace RasterScript

/-! ## Splitting -/

section Splitting

variable {separates : Char → Bool} {run : List Char}

theorem splitRuns_run (h : ∀ c ∈ run, separates c = false) : splitRuns separates run = [run] := by
  induction run with
  | nil => rfl
  | cons c run ih =>
      rw [splitRuns, h c (by simp), ih fun d hd => h d (by simp [hd])]
      rfl

theorem splitRuns_ne_nil (text : List Char) : splitRuns separates text ≠ [] := by
  cases text with
  | nil => simp [splitRuns]
  | cons c text =>
      rw [splitRuns]
      split
      · simp
      · cases splitRuns separates text <;> simp [attach]

theorem attach_append (c : Char) {runs : List (List Char)} (h : runs ≠ [])
    (more : List (List Char)) : attach c (runs ++ more) = attach c runs ++ more := by
  cases runs with
  | nil => exact absurd rfl h
  | cons run runs => rfl

/-- A separator anywhere cuts a text in two, and each part is split on its own. -/
theorem splitRuns_append {blank : Char} (hblank : separates blank = true) (a b : List Char) :
    splitRuns separates (a ++ blank :: b) = splitRuns separates a ++ splitRuns separates b := by
  induction a with
  | nil =>
      rw [List.nil_append, splitRuns.eq_2, if_pos hblank]
      rfl
  | cons c a ih =>
      rw [List.cons_append, splitRuns, splitRuns, ih]
      split
      · rfl
      · exact attach_append c (splitRuns_ne_nil a) _

end Splitting

/-! ## Fields -/

/-- What is left when characters of a kind are dropped begins with one of another kind. -/
theorem dropWhile_head {p : Char → Bool} {text rest : List Char} {c : Char}
    (h : text.dropWhile p = c :: rest) : p c = false := by
  have hstop := List.head?_dropWhile_not p text
  rw [h] at hstop
  simpa using hstop

namespace Line

/-- **A blank separates fields and does nothing else.** -/
theorem fields_append_blank {c : Char} (hc : isBlank c = true) (a b : List Char) :
    fields (a ++ c :: b) = fields a ++ fields b := by
  rw [fields, splitRuns_append hc, List.filter_append, List.map_append]
  rfl

/-- Blanks in front do not count. -/
theorem fields_blanks_append {gap : List Char} (h : ∀ c ∈ gap, isBlank c = true)
    (b : List Char) : fields (gap ++ b) = fields b := by
  induction gap with
  | nil => rfl
  | cons c gap ih =>
      obtain ⟨hc, hgap⟩ := List.forall_mem_cons.mp h
      exact (fields_append_blank hc [] (gap ++ b)).trans (ih hgap)

/-- However wide a gap is, it separates like a single blank. -/
theorem fields_append_gap {gap : List Char} (hne : gap ≠ []) (h : ∀ c ∈ gap, isBlank c = true)
    (a b : List Char) : fields (a ++ gap ++ b) = fields a ++ fields b := by
  cases gap with
  | nil => exact absurd rfl hne
  | cons c gap =>
      obtain ⟨hc, hgap⟩ := List.forall_mem_cons.mp h
      rw [List.append_assoc, List.cons_append, fields_append_blank hc, fields_blanks_append hgap]

/-- Blanks at the end do not count. -/
theorem fields_append_blanks {gap : List Char} (h : ∀ c ∈ gap, isBlank c = true)
    (a : List Char) : fields (a ++ gap) = fields a := by
  cases gap with
  | nil => rw [List.append_nil]
  | cons c gap =>
      have hgap := fields_append_gap (List.cons_ne_nil c gap) h a []
      rw [List.append_nil] at hgap
      rw [hgap]
      exact List.append_nil _

theorem fields_dropWhile (text : List Char) : fields (text.dropWhile isBlank) = fields text := by
  have hgap : ∀ c ∈ text.takeWhile isBlank, isBlank c = true := fun c hc =>
    List.mem_takeWhile_imp hc
  rw [← fields_blanks_append hgap, List.takeWhile_append_dropWhile]

/-- A text with no blank in it is a single field. -/
theorem fields_run {run : List Char} (hne : run ≠ []) (h : ∀ c ∈ run, isBlank c = false) :
    fields run = [String.ofList run] := by
  rw [fields, splitRuns_run h]
  cases run with
  | nil => exact absurd rfl hne
  | cons c run => rfl

/-- The first field of a text that does not begin with a blank goes up to the first blank. -/
theorem fields_cons {c : Char} (hc : isBlank c = false) (rest : List Char) :
    fields (c :: rest) =
      String.ofList (c :: rest.takeWhile (!isBlank ·)) :: fields (rest.dropWhile (!isBlank ·)) := by
  have hrun : ∀ d ∈ c :: rest.takeWhile (!isBlank ·), isBlank d = false := by
    intro d hd
    obtain rfl | hd := List.mem_cons.mp hd
    · exact hc
    · simpa using List.mem_takeWhile_imp hd
  have hfirst := fields_run (List.cons_ne_nil _ _) hrun
  have happend : fields (c :: rest) =
      fields (c :: rest.takeWhile (!isBlank ·)) ++ fields (rest.dropWhile (!isBlank ·)) := by
    conv => lhs; rw [← List.takeWhile_append_dropWhile (p := (!isBlank ·)) (l := rest)]
    cases hrest : rest.dropWhile (!isBlank ·) with
    | nil =>
        rw [List.append_nil]
        exact (List.append_nil _).symm
    | cons d tail =>
        -- what comes after the field begins with the blank that ends it
        have hd : isBlank d = true := by simpa using dropWhile_head hrest
        rw [← List.cons_append, fields_append_blank hd]
        exact congrArg (_ ++ ·) (fields_append_blank hd [] tail).symm
  rw [happend, hfirst, List.singleton_append]

/-- Something that a line can have as a field. -/
def IsWord (word : String) : Prop := word ≠ "" ∧ ∀ c ∈ word.toList, isBlank c = false

/-- Nothing but blanks, or nothing at all. -/
def IsGap (gap : String) : Prop := ∀ c ∈ gap.toList, isBlank c = true

/-- Words with gaps between them are cut into those words. -/
theorem fields_words (args : List (String × String)) :
    ∀ {name : String}, IsWord name →
      (∀ arg ∈ args, arg.1 ≠ "" ∧ IsGap arg.1 ∧ IsWord arg.2) →
      fields (name.toList ++ args.flatMap fun arg => arg.1.toList ++ arg.2.toList) =
        name :: args.map Prod.snd := by
  have hword : ∀ {word : String}, IsWord word → fields word.toList = [word] := by
    intro word h
    rw [fields_run (fun hempty => h.1 (String.toList_eq_nil_iff.mp hempty)) h.2,
      String.ofList_toList]
  induction args with
  | nil =>
      intro name hname _
      rw [List.flatMap_nil, List.append_nil, hword hname, List.map_nil]
  | cons arg args ih =>
      intro name hname hargs
      obtain ⟨⟨hne, hgap, harg⟩, hrest⟩ := List.forall_mem_cons.mp hargs
      rw [List.flatMap_cons, List.append_assoc, ← List.append_assoc,
        fields_append_gap (fun hempty => hne (String.toList_eq_nil_iff.mp hempty)) hgap,
        hword hname, ih harg hrest, List.map_cons, List.singleton_append]

/-- Whether characters begin with the mark of a comment. -/
def marks : List Char → Bool
  | '#' :: _ => true
  | '/' :: '/' :: _ => true
  | _ => false

theorem marks_cons (c : Char) (rest : List Char) :
    marks (c :: rest) = (c == '#' || c == '/' && rest.head? == some '/') := by
  by_cases hsharp : c = '#'
  · subst hsharp
    rfl
  by_cases hslash : c = '/'
  · subst hslash
    cases rest with
    | nil => rfl
    | cons d rest =>
        by_cases hd : d = '/'
        · subst hd
          rfl
        · simp [marks, hd]
  · simp [marks, hsharp, hslash]

/-- A mark has no blank in it, so it is not cut apart. -/
theorem marks_takeWhile (c : Char) (rest : List Char) :
    marks (c :: rest.takeWhile (!isBlank ·)) = marks (c :: rest) := by
  rw [marks_cons, marks_cons]
  cases rest with
  | nil => rfl
  | cons d rest =>
      by_cases hd : d = '/'
      · subst hd
        rfl
      · rw [List.takeWhile_cons]
        split <;> simp [hd]

/-- What a line with some fields is. -/
def ofFields : List String → Line
  | [] => blank
  | name :: args => if marks name.toList then comment else command name args

/-- **The fields say what a line is.** -/
theorem ofChars_eq (text : List Char) : ofChars text = ofFields (fields text) := by
  have hcomment : isComment text = marks (text.dropWhile isBlank) := rfl
  rw [ofChars, hcomment, ← fields_dropWhile]
  cases hrest : text.dropWhile isBlank with
  | nil => rfl
  | cons c rest =>
      rw [fields_cons (dropWhile_head hrest), ← marks_takeWhile, ofFields, String.toList_ofList]

theorem ofChars_congr {a b : List Char} (h : fields b = fields a) : ofChars b = ofChars a := by
  rw [ofChars_eq, ofChars_eq, h]

end Line

end RasterScript
