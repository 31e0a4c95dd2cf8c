import RasterScript.Proofs.Fields
import RasterScript.Proofs.NumberText
import RasterScript.Session

/-!
# Operations as lines of script

The text of an operation is its command and its arguments with single blanks in
between. It is split at those blanks and nowhere else, because each argument is a
**field**: not empty, and free of white space. So the line that an operation is
printed as is a command again, with the arguments as they were printed
(`ofText_text`).

All of it is ASCII, so the line survives as bytes too: a script put together from
such texts has them as its lines (`lines_ofTexts`).
-/

namespace RasterScript

/-! ## Fields -/

/-- A character that is printed as one byte and separates nothing. -/
def IsPrinted (c : Char) : Prop := isBlank c = false ∧ c.toNat < 0x80

/-- A text that stays in one piece when a line is split. -/
structure IsField (text : String) : Prop where
  nonempty : text.toList ≠ []
  printed : ∀ c ∈ text.toList, IsPrinted c

theorem IsField.isWord {text : String} (h : IsField text) : Line.IsWord text :=
  ⟨fun hempty => h.nonempty (String.toList_eq_nil_iff.mpr hempty), fun c hc => (h.printed c hc).1⟩

theorem IsPrinted.of_digit {c : Char} (h : c.isDigit = true) : IsPrinted c := by
  have hrange : 48 ≤ c.toNat ∧ c.toNat ≤ 57 := by
    simpa [Char.isDigit, UInt32.le_iff_toNat_le] using h
  refine ⟨?_, by omega⟩
  simp only [isBlank, decide_eq_false_iff_not]
  omega

instance (c : Char) : Decidable (IsPrinted c) := inferInstanceAs (Decidable (_ ∧ _))

theorem isField_ofDecidable {text : String} (hne : text.toList ≠ [])
    (h : text.toList.all (fun c => decide (IsPrinted c)) = true) : IsField text :=
  ⟨hne, fun c hc => of_decide_eq_true (List.all_eq_true.mp h c hc)⟩

theorem isField_number (x : Float32) : IsField (Single.text x) := by
  unfold Single.text
  split
  · exact isField_ofDecidable (by decide) (by decide)
  split
  · split
    · exact isField_ofDecidable (by decide) (by decide)
    · exact isField_ofDecidable (by decide) (by decide)
  · obtain ⟨body, hchars, ⟨r, hread, -⟩, hbody⟩ :=
      NumberStyle.chars_bare (Single.shortest .upper x)
    have hne : body ≠ [] := by
      rintro rfl
      simp [Decimal.unsigned?] at hread
    have hprinted : ∀ c ∈ body, IsPrinted c := by
      intro c hc
      obtain hdigit | rfl := hbody c hc
      · exact .of_digit hdigit
      · decide
    refine ⟨?_, ?_⟩
    · rw [String.toList_ofList, hchars]
      split <;> simp [hne]
    · rw [String.toList_ofList, hchars]
      split
      · exact List.forall_mem_cons.mpr ⟨by decide, hprinted⟩
      · exact hprinted

theorem isField_integer (n : Int) : IsField (Integer.text n) := by
  have hprinted : ∀ c ∈ Nat.toDigits 10 n.natAbs, IsPrinted c := fun c hc =>
    .of_digit (isDigit_toDigits _ c hc)
  refine ⟨?_, ?_⟩
  · rw [Integer.text, String.toList_ofList, Integer.chars]
    split <;> simp [Nat.toDigits_ne_nil]
  · rw [Integer.text, String.toList_ofList, Integer.chars]
    split
    · exact List.forall_mem_cons.mpr ⟨by decide, hprinted⟩
    · exact hprinted

theorem isField_word (conversion : Conversion) : IsField conversion.word := by
  cases conversion <;> exact isField_ofDecidable (by decide) (by decide)

theorem isField_command (kind : Kind) : IsField kind.command := by
  cases kind <;> exact isField_ofDecidable (by decide) (by decide)

/-- No command begins like a comment. -/
theorem command_head (kind : Kind) :
    kind.command.toList.head? ≠ some '#' ∧ kind.command.toList.head? ≠ some '/' := by
  cases kind <;> decide

theorem isField_params (op : Operation) : ∀ param ∈ op.params, IsField param.text := by
  cases op <;>
    simp [Operation.params, Param.text, isField_number, isField_integer, isField_word]

/-! ## Lines -/

namespace Operation

theorem toList_text (op : Operation) :
    op.text.toList =
      op.kind.command.toList ++ (op.params.map fun param => param.text.toList).flatMap fun field =>
        ' ' :: field := by
  have key : ∀ (params : List Param) (line : String),
      (params.foldl (fun line param => line ++ " " ++ param.text) line).toList =
        line.toList ++ (params.map fun param => param.text.toList).flatMap fun field =>
          ' ' :: field := by
    intro params
    induction params with
    | nil => intro line; simp
    | cons param params ih => intro line; simp [ih]
  exact key op.params op.kind.command

/-- **The text of an operation is a line with its command and its arguments.** -/
theorem ofText_text (op : Operation) :
    Line.ofText op.text = .command op.kind.command (op.params.map Param.text) := by
  obtain ⟨first, rest, hcommand⟩ := List.exists_cons_of_ne_nil (isField_command op.kind).nonempty
  have hhead : first ≠ '#' ∧ first ≠ '/' := by simpa [hcommand] using command_head op.kind
  let args := op.params.map fun param => (" ", param.text)
  have hargs : ∀ arg ∈ args, arg.1 ≠ "" ∧ Line.IsGap arg.1 ∧ Line.IsWord arg.2 := by
    intro arg harg
    obtain ⟨param, hparam, rfl⟩ := List.mem_map.mp harg
    exact ⟨by simp, by simp [Line.IsGap, isBlank], (isField_params op param hparam).isWord⟩
  have hfields : Line.fields op.text.toList = op.kind.command :: op.params.map Param.text := by
    have hwords := Line.fields_words args (isField_command op.kind).isWord hargs
    simpa [args, toList_text, List.flatMap_map, Function.comp_def] using hwords
  -- a command does not begin with the mark of a comment, so the line is not one
  have hmarks : Line.marks op.kind.command.toList = false := by
    rw [hcommand, Line.marks_cons]
    simp [hhead]
  rw [Line.ofText, Line.ofChars_eq, hfields, Line.ofFields, hmarks]
  rfl

end Operation

/-! ## Texts as bytes -/

namespace Script

/-- The bytes of a text in UTF-8. -/
def encode (text : String) : List UInt8 := text.toList.flatMap String.utf8EncodeChar

/-- The script whose lines are some texts, each with a line feed behind it. -/
def ofTexts (texts : List String) : Script :=
  ⟨texts.flatMap fun text => encode text ++ [0x0a], none⟩

/-- A text that is read from its bytes as it was: ASCII, and without the ends of lines. -/
def IsPlain (text : String) : Prop :=
  ∀ c ∈ text.toList, c.toNat < 0x80 ∧ c.toNat ≠ 0x0a ∧ c.toNat ≠ 0x0d

theorem encode_ascii {c : Char} (h : c.toNat < 0x80) :
    String.utf8EncodeChar c = [c.val.toUInt8] ∧ c.val.toUInt8.toNat = c.toNat := by
  have hsize : c.utf8Size = 1 := by
    rw [Char.utf8Size_eq_one_iff, UInt32.le_iff_toNat_le]
    exact Nat.le_of_lt_succ h
  refine ⟨String.utf8EncodeChar_eq_singleton hsize, ?_⟩
  rw [UInt32.toNat_toUInt8]
  exact Nat.mod_eq_of_lt (Nat.lt_of_lt_of_le h (by decide))

theorem decodeLossy_encode {text : List Char} (h : ∀ c ∈ text, c.toNat < 0x80) :
    Utf8.decodeLossy (text.flatMap String.utf8EncodeChar) = text := by
  induction text with
  | nil => rfl
  | cons c text ih =>
      obtain ⟨hbytes, hbyte⟩ := encode_ascii (h c (by simp))
      have htail := ih fun d hd => h d (by simp [hd])
      rw [Utf8.decodeLossy] at htail ⊢
      rw [List.flatMap_cons, hbytes, List.singleton_append, Utf8.decodeFrom, Utf8.start, hbyte,
        if_pos (h c (by simp))]
      simp [htail]

/-- No byte of such a text is a line feed or a carriage return. -/
theorem mem_encode {text : String} (h : IsPlain text) :
    ∀ byte ∈ encode text, byte ≠ 0x0a ∧ byte ≠ 0x0d := by
  intro byte hbyte
  obtain ⟨c, hc, hbyte⟩ := List.mem_flatMap.mp hbyte
  obtain ⟨hascii, hfeed, hreturn⟩ := h c hc
  obtain ⟨hbytes, hvalue⟩ := encode_ascii hascii
  rw [hbytes, List.mem_singleton] at hbyte
  subst hbyte
  refine ⟨fun heq => hfeed ?_, fun heq => hreturn ?_⟩
  · rw [← hvalue, heq]
    rfl
  · rw [← hvalue, heq]
    rfl

theorem lineText_encode {text : String} (h : IsPlain text) :
    lineText (encode text ++ [0x0a]) = text := by
  have hreturn : (encode text).getLast? ≠ some 0x0d := fun hlast =>
    (mem_encode h _ (List.mem_of_getLast? hlast)).2 rfl
  have hstrip : stripNewline (encode text ++ [0x0a]) = encode text := by
    simp [stripNewline, hreturn]
  rw [lineText, hstrip, encode, decodeLossy_encode fun c hc => (h c hc).1, String.ofList_toList]

/-- A line in front of others is split off them. -/
theorem split_line {line : List UInt8} (h : ∀ byte ∈ line, byte ≠ 0x0a) (rest : List UInt8) :
    split (line ++ 0x0a :: rest) = ((line ++ [0x0a]) :: (split rest).1, (split rest).2) := by
  induction line with
  | nil => simp [split]
  | cons byte line ih =>
      rw [List.cons_append, split, ih fun b hb => h b (by simp [hb])]
      simp [h byte (by simp)]

theorem split_texts {texts : List String} (h : ∀ text ∈ texts, IsPlain text) :
    split (texts.flatMap fun text => encode text ++ [0x0a]) =
      (texts.map fun text => encode text ++ [0x0a], []) := by
  induction texts with
  | nil => rfl
  | cons text texts ih =>
      have hline : ∀ byte ∈ encode text, byte ≠ 0x0a := fun byte hb =>
        (mem_encode (h text (by simp)) byte hb).1
      rw [List.flatMap_cons, List.append_assoc, List.singleton_append, split_line hline,
        ih fun t ht => h t (by simp [ht])]
      rfl

/-- **The lines of a script put together from texts are those texts.** -/
theorem lines_ofTexts {texts : List String} (h : ∀ text ∈ texts, IsPlain text) :
    (ofTexts texts).lines.map lineText = texts := by
  have hlines : (ofTexts texts).lines = texts.map fun text => encode text ++ [0x0a] := by
    rw [ofTexts, lines, split_texts h]
    simp
  rw [hlines, List.map_map]
  conv => rhs; rw [← List.map_id texts]
  exact List.map_congr_left fun text ht => lineText_encode (h text ht)

end Script

/-- The text of an operation is read from its bytes as it was. -/
theorem Operation.isPlain_text (op : Operation) : Script.IsPlain op.text := by
  intro c hc
  rw [toList_text] at hc
  have hprinted : IsPrinted c ∨ c = ' ' := by
    obtain hc | hc := List.mem_append.mp hc
    · exact .inl ((isField_command op.kind).printed c hc)
    · obtain ⟨field, hfield, hc⟩ := List.mem_flatMap.mp hc
      obtain ⟨param, hparam, rfl⟩ := List.mem_map.mp hfield
      obtain rfl | hc := List.mem_cons.mp hc
      · exact .inr rfl
      · exact .inl ((isField_params op param hparam).printed c hc)
  obtain ⟨hblank, hascii⟩ | rfl := hprinted
  · refine ⟨hascii, ?_, ?_⟩
    · intro heq
      rw [isBlank, heq] at hblank
      exact absurd hblank (by decide)
    · intro heq
      rw [isBlank, heq] at hblank
      exact absurd hblank (by decide)
  · decide

end RasterScript
