import RasterScript.Session

/-!
# What a stream takes

Everything that is said is written line by line, and each line can be the one that
fails, before or after some of it was taken. A stream takes lines as long as none of
them fails, and then it holds them one below the other; at the first one that does it
holds the lines before and the beginning of that one (`writeAll_cases`).

Which lines fail does not depend on what is in them. So two streams that treat lines
alike come through as many of them alike, whatever these are (`writeAll_beside`). Where
a line is taken whole or not at all (`Whole`), they then hold as many lines; a line that
breaks off inside does so after as many bytes, and that need not be the same place.
-/

namespace RasterScript

namespace Diagnostics

/-- Lines one below the other. -/
def page (lines : List String) : String := String.join (lines.map fun line => line ++ "\n")

@[simp] theorem page_nil : page [] = "" := String.join_nil

@[simp] theorem page_cons (line : String) (lines : List String) :
    page (line :: lines) = line ++ "\n" ++ page lines := by
  rw [page, List.map_cons, String.join_cons]
  rfl

/-- A number of lines that are to come are taken whole. -/
def Takes (d : Diagnostics) (count : Nat) : Prop := ∀ i < count, d.fate (d.lines + i) = none

/-- A line is taken whole or not at all. -/
def Whole (d : Diagnostics) : Prop := ∀ i taken, d.fate i = some taken → taken = 0

/-- Streams that treat alike the lines that are to come. -/
def Beside (d d' : Diagnostics) : Prop := ∀ i, d'.fate (d'.lines + i) = d.fate (d.lines + i)

variable {d d' : Diagnostics}

theorem whole_sound (text : String) : (sound text).Whole := by
  intro i taken hi
  exact absurd hi (by simp [sound])

theorem Whole.of_fate (h : d.Whole) (hfate : d'.fate = d.fate) : d'.Whole := by
  intro i taken hi
  exact h i taken (hfate ▸ hi)

theorem takes_zero (d : Diagnostics) : d.Takes 0 := by
  intro i hi
  exact absurd hi (Nat.not_lt_zero i)

theorem takes_add {m n : Nat} :
    d.Takes (m + n) ↔ d.Takes m ∧ ∀ i < n, d.fate (d.lines + m + i) = none := by
  unfold Takes
  constructor
  · intro h
    refine ⟨fun i hi => h i (by omega), fun i hi => ?_⟩
    rw [Nat.add_assoc]
    exact h (m + i) (by omega)
  · rintro ⟨hfirst, hrest⟩ i hi
    by_cases him : i < m
    · exact hfirst i him
    · have hi' := hrest (i - m) (by omega)
      rwa [Nat.add_assoc, Nat.add_sub_cancel' (Nat.not_lt.mp him)] at hi'

@[simp] theorem cut_zero (text : String) : cut text 0 = "" := rfl

/--
**Lines are written up to the first that fails.** Either all of them are taken, and
stand one below the other, or one fails after those before it were taken, and of that
one there is the beginning.
-/
theorem writeAll_cases (d : Diagnostics) (lines : List String) :
    (d.Takes lines.length
        ∧ d.writeAll lines = (true, ⟨d.text ++ page lines, d.lines + lines.length, d.fate⟩))
      ∨ ∃ before line rest taken, lines = before ++ line :: rest ∧ d.Takes before.length
        ∧ d.fate (d.lines + before.length) = some taken
        ∧ d.writeAll lines = (false, ⟨d.text ++ (page before ++ cut (line ++ "\n") taken),
            d.lines + before.length + 1, d.fate⟩) := by
  induction lines generalizing d with
  | nil =>
      refine Or.inl ⟨d.takes_zero, ?_⟩
      rw [page_nil, String.append_empty]
      rfl
  | cons line lines ih =>
      rw [writeAll, write]
      cases hfate : d.fate d.lines with
      | some taken =>
          refine Or.inr ⟨[], line, lines, taken, rfl, d.takes_zero, hfate, ?_⟩
          rw [page_nil, String.empty_append]
          rfl
      | none =>
          have htakes : ∀ {n : Nat},
              (∀ i < n, d.fate (d.lines + 1 + i) = none) → d.Takes (n + 1) := by
            intro n hn
            rw [Nat.add_comm]
            refine takes_add.mpr ⟨?_, hn⟩
            intro i hi
            obtain rfl := Nat.lt_one_iff.mp hi
            exact hfate
          dsimp only
          rcases ih ⟨d.text ++ (line ++ "\n"), d.lines + 1, d.fate⟩ with
            ⟨hall, hwrite⟩ | ⟨before, last, rest, taken, rfl, hbefore, hlast, hwrite⟩
          · refine Or.inl ⟨htakes hall, ?_⟩
            rw [hwrite, page_cons, String.append_assoc, List.length_cons, Nat.add_right_comm,
              Nat.add_assoc]
          · refine Or.inr ⟨line :: before, last, rest, taken, rfl, htakes hbefore, ?_, ?_⟩
            · rw [List.length_cons, ← hlast, Nat.add_right_comm, Nat.add_assoc]
            · rw [hwrite, page_cons, List.length_cons, Nat.add_right_comm d.lines 1,
                Nat.add_assoc d.lines]
              simp only [String.append_assoc]

theorem writeAll_of_takes {lines : List String} (h : d.Takes lines.length) :
    d.writeAll lines = (true, ⟨d.text ++ page lines, d.lines + lines.length, d.fate⟩) := by
  rcases d.writeAll_cases lines with ⟨_, hwrite⟩ | ⟨before, line, rest, taken, rfl, _, hfate, _⟩
  · exact hwrite
  · rw [h before.length (by simp)] at hfate
    exact absurd hfate (by simp)

/-- All of some lines are taken just if none of them fails. -/
theorem writeAll_iff (d : Diagnostics) (lines : List String) :
    (d.writeAll lines).1 = true ↔ d.Takes lines.length := by
  constructor
  · intro h
    rcases d.writeAll_cases lines with ⟨hall, _⟩ | ⟨_, _, _, _, _, _, _, hwrite⟩
    · exact hall
    · rw [hwrite] at h
      exact absurd h (by simp)
  · intro h
    rw [writeAll_of_takes h]

@[simp] theorem fate_writeAll (d : Diagnostics) (lines : List String) :
    (d.writeAll lines).2.fate = d.fate := by
  rcases d.writeAll_cases lines with ⟨_, hwrite⟩ | ⟨_, _, _, _, _, _, _, hwrite⟩ <;> rw [hwrite]

theorem Beside.takes_iff (h : d.Beside d') (count : Nat) : d'.Takes count ↔ d.Takes count :=
  forall_congr' fun i => imp_congr_right fun _ => by rw [h i]

/-- After as many lines more, streams that treated lines alike still do. -/
theorem Beside.after (h : d.Beside d') (text text' : String) (count : Nat) :
    Beside ⟨text, d.lines + count, d.fate⟩ ⟨text', d'.lines + count, d'.fate⟩ := by
  intro i
  dsimp only
  rw [Nat.add_assoc, Nat.add_assoc]
  exact h (count + i)

/-- **Streams that treat lines alike take as many of them,** and go on treating them alike. -/
theorem writeAll_beside (h : d.Beside d') {lines lines' : List String}
    (hlength : lines'.length = lines.length) :
    (d'.writeAll lines').1 = (d.writeAll lines).1
      ∧ (d.writeAll lines).2.Beside (d'.writeAll lines').2
      ∧ (d.Whole → ∃ count, (d.writeAll lines).2.text = d.text ++ page (lines.take count)
        ∧ (d'.writeAll lines').2.text = d'.text ++ page (lines'.take count)) := by
  rcases d.writeAll_cases lines with ⟨hall, hwrite⟩ |
    ⟨before, line, rest, taken, rfl, hbefore, hfate, hwrite⟩
  · have hwrite' := writeAll_of_takes ((h.takes_iff lines'.length).mpr (hlength ▸ hall))
    rw [hwrite, hwrite', hlength]
    refine ⟨rfl, h.after _ _ _, fun _ => ⟨lines.length, ?_, ?_⟩⟩
    · rw [List.take_length]
    · rw [← hlength, List.take_length]
  · rcases d'.writeAll_cases lines' with ⟨hall', _⟩ |
      ⟨before', line', rest', taken', rfl, hbefore', hfate', hwrite'⟩
    · -- the line that fails there is among those here
      have hin : before.length < lines'.length := by rw [hlength]; simp
      rw [← h, hall' before.length hin] at hfate
      exact absurd hfate (by simp)
    · have hsame : before'.length = before.length := by
        rcases Nat.lt_trichotomy before'.length before.length with hlt | heq | hlt
        · rw [h, hbefore _ hlt] at hfate'
          exact absurd hfate' (by simp)
        · exact heq
        · rw [← h, hbefore' _ hlt] at hfate
          exact absurd hfate (by simp)
      rw [hwrite, hwrite', hsame]
      refine ⟨rfl, h.after _ _ (before.length + 1), fun hwhole => ⟨before.length, ?_, ?_⟩⟩
      · rw [hwhole _ _ hfate, cut_zero, String.append_empty, List.take_left]
      · rw [hwhole _ _ ((h _).symm.trans hfate'), cut_zero, String.append_empty, ← hsame,
          List.take_left]

end Diagnostics

end RasterScript
