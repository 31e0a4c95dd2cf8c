import RasterScript.Json.Reader
import RasterScript.Proofs.NumberText

/-!
# Reading JSON that was written here

A value that was spread over lines is read back piece by piece: a string literal,
a number, and then arrays and objects from what their parts are read as. The
texts of the parts stay what they were, whatever follows them, so that the reader
stops where the part ends.

Numbers are the one thing that need not come back as they were written: a `real`
is read with the digits that its text has, not with the digits it was made from.
Objects and arrays are therefore followed for any function `read` from the values
that were written to the values that are read (`readsAs_object`,
`readsAs_array`).

Fuel bounds how deep readers call each other. Twice the length of the text is
enough, because each call is paid for by characters that it takes.
-/

namespace RasterScript

namespace Json

theorem exists_fuel {n fuel : Nat} (h : n < fuel) : ∃ less, fuel = less + 1 :=
  ⟨fuel - 1, by omega⟩

/-! ## Strings -/

theorem hexValue?_hexDigit (n : Nat) : hexValue? (hexDigit n) = some (n % 16) := by
  have hall : ∀ d, d < 16 → hexValue? (Nat.digitChar d) = some d := by decide
  exact hall _ (Nat.mod_lt _ (by decide))

theorem unicodeEscape?_control {c : Char} (h : c.toNat < 0x20) (text : List Char) :
    unicodeEscape? ('0' :: '0' :: hexDigit (c.toNat / 16) :: hexDigit c.toNat :: text) =
      some (c, text) := by
  have hzero : hexValue? '0' = some 0 := rfl
  have hcode : ((0 * 16 + 0) * 16 + c.toNat / 16 % 16) * 16 + c.toNat % 16 = c.toNat := by omega
  have hquad : hexQuad? ('0' :: '0' :: hexDigit (c.toNat / 16) :: hexDigit c.toNat :: text) =
      some (c.toNat, text) := by
    simp only [hexQuad?, hzero, hexValue?_hexDigit, Option.bind_eq_bind, Option.bind_some, hcode]
  rw [unicodeEscape?, hquad]
  simp only
  rw [if_pos (.inl (by omega)), Char.ofNat_toNat]

/-- A character is read back from its escape. -/
theorem stringRest?_escape (c : Char) (fuel : Nat) (text : List Char) :
    stringRest? (fuel + 1) (escape c ++ text) =
      (stringRest? fuel text).map fun (cs, rest) => (c :: cs, rest) := by
  -- backspace and form feed have no literal of their own and are compared by code
  have hcode : ∀ code, c.toNat = code → c = Char.ofNat code := by
    rintro code rfl
    exact (Char.ofNat_toNat c).symm
  unfold escape
  split
  next h => subst h; rfl
  split
  next h => subst h; rfl
  split
  next h => obtain rfl := hcode _ h; rfl
  split
  next h => obtain rfl := hcode _ h; rfl
  split
  next h => subst h; rfl
  split
  next h => subst h; rfl
  split
  next h => subst h; rfl
  split
  next h =>
    simp only [List.cons_append, List.nil_append, stringRest?, unicodeEscape?_control h]
  next hquote hslash _ _ _ _ _ hcontrol =>
    -- nothing to escape, so the character stands for itself
    rw [List.singleton_append, stringRest?, if_neg (by simp [hslash, hcontrol])]
    all_goals simp_all

theorem stringRest?_quote (cs rest : List Char) :
    ∀ fuel, cs.length < fuel →
      stringRest? fuel (cs.flatMap escape ++ '"' :: rest) = some (cs, rest) := by
  induction cs with
  | nil =>
      intro fuel hfuel
      obtain ⟨fuel, rfl⟩ := exists_fuel hfuel
      rfl
  | cons c cs ih =>
      intro fuel hfuel
      obtain ⟨fuel, rfl⟩ := exists_fuel hfuel
      rw [List.flatMap_cons, List.append_assoc, stringRest?_escape,
        ih fuel (Nat.lt_of_succ_lt_succ hfuel)]
      rfl

theorem length_le_escaped (cs : List Char) : cs.length ≤ (cs.flatMap escape).length := by
  have hescape : ∀ c, 0 < (escape c).length := by
    intro c
    unfold escape
    split_ifs <;> simp
  induction cs with
  | nil => rfl
  | cons c cs ih =>
      have := hescape c
      rw [List.flatMap_cons, List.length_append, List.length_cons]
      omega

/-! ## Values -/

/-- What follows does not go on with a number. -/
def Ends (rest : List Char) : Prop := ∀ c ∈ rest.head?, isNumeric c = false

/-- A text is read as a value, whatever ends it. -/
def ReadsAs (text : List Char) (v : Json) : Prop :=
  ∀ fuel rest, 2 * text.length < fuel → Ends rest → value? fuel (text ++ rest) = some (v, rest)

theorem readsAs_null : ReadsAs "null".toList null := by
  intro fuel rest hfuel _
  obtain ⟨fuel, rfl⟩ := exists_fuel hfuel
  rfl

theorem readsAs_string (s : String) : ReadsAs (quote s) (string s) := by
  intro fuel rest hfuel _
  obtain ⟨fuel, rfl⟩ := exists_fuel hfuel
  have hlength : s.toList.length < (s.toList.flatMap escape ++ '"' :: rest).length + 1 := by
    have := length_le_escaped s.toList
    rw [List.length_append]
    omega
  have hread := stringRest?_quote s.toList rest _ hlength
  have htext : quote s ++ rest = '"' :: (s.toList.flatMap escape ++ '"' :: rest) := by
    simp [quote]
  rw [htext]
  show ((stringRest? _ _).map fun (cs, rest) => (string (String.ofList cs), rest)) = _
  rw [hread]
  simp

theorem skipBlanks_of_head {text : List Char}
    (h : ∀ c ∈ text.head?, c ≠ ' ' ∧ c ≠ '\n' ∧ c ≠ '\t' ∧ c ≠ '\r') : skipBlanks text = text := by
  cases text with
  | nil => rfl
  | cons c text =>
      have hc := h c rfl
      rw [skipBlanks, List.dropWhile_cons, if_neg (by simp [hc])]

/-- What is read as a number is not the beginning of anything else. -/
theorem value?_number {c : Char} {text : List Char} (h : isNumeric c = true) (fuel : Nat) :
    value? (fuel + 1) (c :: text) =
      (ofNumberText? ((c :: text).takeWhile isNumeric)).map fun number =>
        (number, (c :: text).dropWhile isNumeric) := by
  have hother : ∀ d, isNumeric d = false → c ≠ d := by
    rintro d hd rfl
    exact absurd h (by simp [hd])
  have hskip : skipBlanks (c :: text) = c :: text :=
    skipBlanks_of_head fun d hd => by
      obtain rfl : c = d := by simpa using hd
      exact ⟨hother _ rfl, hother _ rfl, hother _ rfl, hother _ rfl⟩
  rw [value?, hskip]
  -- the six ways that other values begin, and then numbers
  split
  next heq => exact absurd (List.cons.inj heq).1 (hother _ rfl)
  next heq => exact absurd (List.cons.inj heq).1 (hother _ rfl)
  next heq => exact absurd (List.cons.inj heq).1 (hother _ rfl)
  next heq => exact absurd (List.cons.inj heq).1 (hother _ rfl)
  next heq => exact absurd (List.cons.inj heq).1 (hother _ rfl)
  next heq => exact absurd (List.cons.inj heq).1 (hother _ rfl)
  next => rfl

theorem readsAs_number {text : List Char} {v : Json} (hnumeric : ∀ c ∈ text, isNumeric c = true)
    (hread : ofNumberText? text = some v) : ReadsAs text v := by
  intro fuel rest hfuel hends
  obtain ⟨fuel, rfl⟩ := exists_fuel hfuel
  obtain ⟨htake, hdrop⟩ := takeWhile_run hnumeric hends
  have hne : text ≠ [] := by
    rintro rfl
    cases hread
  obtain ⟨c, text, rfl⟩ := List.exists_cons_of_ne_nil hne
  rw [List.cons_append] at htake hdrop ⊢
  rw [value?_number (hnumeric c (by simp)), htake, hdrop, hread]
  rfl

theorem isNumeric_of_isDigit {c : Char} (h : c.isDigit = true) : isNumeric c = true := by
  simp [isNumeric, h]

theorem head?_toDigits (n : Nat) : n ≠ 0 → (Nat.toDigits 10 n).head? ≠ some '0' := by
  induction n using Nat.strongRecOn with
  | ind n ih =>
      intro hne
      by_cases hsmall : n < 10
      · rw [Nat.toDigits_of_lt_base hsmall]
        simp [hne]
      · rw [Nat.toDigits_of_base_le (by decide) (by omega),
          List.head?_append_of_ne_nil _ Nat.toDigits_ne_nil]
        exact ih (n / 10) (by omega) (by omega)

/-- The digits of a natural number are the text of a number by themselves. -/
theorem isWellFormed_toDigits (n : Nat) : isWellFormed (Nat.toDigits 10 n) = true := by
  have htake := List.takeWhile_eq_self_iff.mpr (isDigit_toDigits n)
  have hdrop := List.dropWhile_eq_nil_iff.mpr (isDigit_toDigits n)
  have hplain : isPlainWhole (Nat.toDigits 10 n) = true := by
    by_cases hzero : n = 0
    · subst hzero
      rfl
    · simp [isPlainWhole, head?_toDigits n hzero]
  simp [isWellFormed, htake, hdrop, hplain, Nat.toDigits_ne_nil]

theorem ofNumberText?_toDigits (n : Nat) :
    ofNumberText? (Nat.toDigits 10 n) = some (ofWhole false (Nat.toDigits 10 n))
      ∧ ofNumberText? ('-' :: Nat.toDigits 10 n) = some (ofWhole true (Nat.toDigits 10 n)) := by
  have htake := List.takeWhile_eq_self_iff.mpr (isDigit_toDigits n)
  have hdrop := List.dropWhile_eq_nil_iff.mpr (isDigit_toDigits n)
  refine ⟨?_, ?_⟩
  · unfold ofNumberText?
    split
    next negative body hsign =>
      split at hsign
      next rest heq => exact absurd (isDigit_toDigits n '-' (by simp [heq])) (by decide)
      next =>
        cases hsign
        dsimp only
        rw [if_pos (isWellFormed_toDigits n), htake, hdrop]
  · simp only [ofNumberText?, isWellFormed_toDigits, htake, hdrop, if_true]

/-- An integer of at most 64 bits is read back. -/
theorem readsAs_integer {n : Int} (hlow : -0x8000000000000000 ≤ n)
    (hhigh : n < 0x10000000000000000) : ReadsAs (Integer.chars n) (integer n) := by
  obtain ⟨hwhole, hnegative⟩ := ofNumberText?_toDigits n.natAbs
  unfold Integer.chars
  split
  next hneg =>
    refine readsAs_number ?_ ?_
    · exact List.forall_mem_cons.mpr
        ⟨by decide, fun c hc => isNumeric_of_isDigit (isDigit_toDigits _ c hc)⟩
    · rw [hnegative, ofWhole, if_pos rfl, digitsValue_toDigits, if_pos (by omega)]
      exact congrArg (fun m => some (integer m)) (by omega)
  next hneg =>
    refine readsAs_number ?_ ?_
    · exact fun c hc => isNumeric_of_isDigit (isDigit_toDigits _ c hc)
    · rw [hwhole, ofWhole, if_neg Bool.false_ne_true, digitsValue_toDigits, if_pos (by omega)]
      exact congrArg (fun m => some (integer m)) (by omega)

/-! ## Objects and arrays -/

section Nested

variable {α : Type} {level : Nat}

theorem skipBlanks_newline (level : Nat) (text : List Char) :
    skipBlanks (newline level ++ text) = skipBlanks text := by
  refine List.dropWhile_append_of_pos fun c hc => ?_
  obtain rfl | hc := List.mem_cons.mp hc
  · rfl
  · rw [List.eq_of_mem_replicate hc]
    rfl

theorem ends_newline (level : Nat) (text : List Char) : Ends (newline level ++ text) := by
  intro c hc
  obtain rfl : '\n' = c := by simpa [newline] using hc
  rfl

theorem skipBlanks_comma (text : List Char) : skipBlanks (',' :: text) = ',' :: text := rfl

theorem ends_comma (text : List Char) : Ends (',' :: text) := by
  intro c hc
  obtain rfl : ',' = c := by simpa using hc
  rfl

theorem skipBlanks_skipBlanks (text : List Char) :
    skipBlanks (skipBlanks text) = skipBlanks text :=
  List.dropWhile_idempotent _ text

/-- White space in front of a value makes no difference. -/
theorem value?_congr {text text' : List Char} (h : skipBlanks text = skipBlanks text')
    (fuel : Nat) : value? fuel text = value? fuel text' := by
  cases fuel with
  | zero => rfl
  | succ fuel => rw [value?, value?, h]

theorem items?_skipBlanks (fuel : Nat) (text : List Char) :
    items? fuel (skipBlanks text) = items? fuel text := by
  cases fuel with
  | zero => rfl
  | succ fuel => rw [items?, items?, value?_congr (skipBlanks_skipBlanks text)]

theorem members?_skipBlanks (fuel : Nat) (text : List Char) :
    members? fuel (skipBlanks text) = members? fuel text := by
  cases fuel with
  | zero => rfl
  | succ fuel => rw [members?, members?, skipBlanks_skipBlanks]

/-- Items do not begin with the bracket that ends them, nor members with their brace. -/
theorem items?_close {fuel : Nat} {text rest : List Char} (h : skipBlanks text = ']' :: rest) :
    items? fuel text = none := by
  cases fuel with
  | zero => rfl
  | succ fuel =>
      have hvalue : value? fuel text = none := by
        cases fuel with
        | zero => rfl
        | succ fuel =>
            rw [value?, h]
            rfl
      rw [items?, hvalue]

theorem members?_close {fuel : Nat} {text rest : List Char} (h : skipBlanks text = '}' :: rest) :
    members? fuel text = none := by
  cases fuel with
  | zero => rfl
  | succ fuel =>
      rw [members?, h]
      rfl

/-- What an opening bracket begins is closed at once, or it holds items. -/
theorem value?_bracket (fuel : Nat) (text : List Char) :
    value? (fuel + 1) ('[' :: text) =
      match skipBlanks text with
      | ']' :: rest => some (array [], rest)
      | rest => (items? fuel rest).map fun (items, rest) => (array items, rest) := rfl

theorem value?_array {text : List Char} (h : ∀ rest, skipBlanks text ≠ ']' :: rest) (fuel : Nat) :
    value? (fuel + 1) ('[' :: text) =
      (items? fuel text).map fun (items, rest) => (array items, rest) := by
  rw [value?_bracket, ← items?_skipBlanks fuel text]
  split
  next rest hclose => exact absurd hclose (h rest)
  next => rfl

/-- What an opening brace begins is closed at once, or it holds members. -/
theorem value?_brace (fuel : Nat) (text : List Char) :
    value? (fuel + 1) ('{' :: text) =
      match skipBlanks text with
      | '}' :: rest => some (object [], rest)
      | rest => (members? fuel rest).map fun (members, rest) => (object members, rest) := rfl

theorem value?_object {text : List Char} (h : ∀ rest, skipBlanks text ≠ '}' :: rest) (fuel : Nat) :
    value? (fuel + 1) ('{' :: text) =
      (members? fuel text).map fun (members, rest) => (object members, rest) := by
  rw [value?_brace, ← members?_skipBlanks fuel text]
  split
  next rest hclose => exact absurd hclose (h rest)
  next => rfl

/-- One item, and what is done next. -/
theorem items?_item {text tail : List Char} {v : Json} (h : ReadsAs text v) {fuel : Nat}
    (hfuel : 2 * text.length < fuel) (hends : Ends tail) (level : Nat) :
    items? (fuel + 1) (newline level ++ text ++ tail) =
      match skipBlanks tail with
      | ',' :: rest => (items? fuel rest).map fun (items, rest) => (v :: items, rest)
      | ']' :: rest => some ([v], rest)
      | _ => none := by
  have hvalue : value? fuel (newline level ++ text ++ tail) = some (v, tail) := by
    rw [List.append_assoc, value?_congr (skipBlanks_newline level _)]
    exact h fuel tail hfuel hends
  rewrite [items?, hvalue]
  rfl

/-- One member, and what is done next. -/
theorem members?_member {text tail : List Char} {v : Json} (h : ReadsAs text v) {fuel : Nat}
    (hfuel : 2 * text.length < fuel) (hends : Ends tail) (level : Nat) (name : String) :
    members? (fuel + 1) (newline level ++ quote name ++ ':' :: ' ' :: text ++ tail) =
      match skipBlanks tail with
      | ',' :: rest =>
        (members? fuel rest).map fun (members, rest) => ((name, v) :: members, rest)
      | '}' :: rest => some ([(name, v)], rest)
      | _ => none := by
  have hskip : skipBlanks (newline level ++ quote name ++ ':' :: ' ' :: text ++ tail) =
      '"' :: (name.toList.flatMap escape ++ '"' :: ':' :: ' ' :: (text ++ tail)) := by
    simp only [List.append_assoc, skipBlanks_newline, quote]
    rfl
  have hlength : name.toList.length <
      (name.toList.flatMap escape ++ '"' :: ':' :: ' ' :: (text ++ tail)).length + 1 := by
    have := length_le_escaped name.toList
    rw [List.length_append]
    omega
  have hname := stringRest?_quote name.toList (':' :: ' ' :: (text ++ tail)) _ hlength
  have hcolon : skipBlanks (':' :: ' ' :: (text ++ tail)) = ':' :: ' ' :: (text ++ tail) := rfl
  rw [members?, hskip]
  have hspace : skipBlanks (' ' :: (text ++ tail)) = skipBlanks (text ++ tail) := rfl
  have hvalue : value? fuel (' ' :: (text ++ tail)) = some (v, tail) :=
    (value?_congr hspace fuel).trans (h fuel tail hfuel hends)
  simp only [hname, hcolon, hvalue]
  rewrite [String.ofList_toList]
  rfl

theorem prettyItems_cons (v w : Json) (items : List Json) :
    prettyItems level (v :: w :: items) =
      newline level ++ pretty level v ++ ',' :: prettyItems level (w :: items) := by
  rw [prettyItems]
  intro h
  cases h

theorem prettyMembers_cons (m n : String × Json) (members : List (String × Json)) :
    prettyMembers level (m :: n :: members) =
      newline level ++ quote m.1 ++ ':' :: ' ' :: pretty level m.2 ++
        ',' :: prettyMembers level (n :: members) := by
  rw [prettyMembers]
  intro h
  cases h

section Items

variable {write read : α → Json}

/-- The items of an array are read one after the other, and the bracket that ends it. -/
theorem items?_pretty (outer : Nat) (rest : List Char) :
    ∀ (xs : List α), xs ≠ [] → (∀ x ∈ xs, ReadsAs (pretty level (write x)) (read x)) →
      ∀ fuel, 2 * (prettyItems level (xs.map write)).length < fuel →
        items? fuel (prettyItems level (xs.map write) ++ (newline outer ++ ']' :: rest)) =
          some (xs.map read, rest)
  | [], hne, _, _, _ => absurd rfl hne
  | [x], _, hread, fuel, hfuel => by
      obtain ⟨fuel, rfl⟩ := exists_fuel hfuel
      have hclose : skipBlanks (newline outer ++ ']' :: rest) = ']' :: rest :=
        skipBlanks_newline outer _
      have hx : 2 * (pretty level (write x)).length < fuel := by
        simp [prettyItems, newline] at hfuel
        omega
      rw [List.map_singleton, prettyItems, items?_item (hread x (by simp)) hx (ends_newline _ _),
        hclose]
      rfl
  | x :: y :: xs, _, hread, fuel, hfuel => by
      obtain ⟨fuel, rfl⟩ := exists_fuel hfuel
      have htext : prettyItems level ((x :: y :: xs).map write) =
          newline level ++ pretty level (write x) ++
            ',' :: prettyItems level ((y :: xs).map write) :=
        prettyItems_cons ..
      have hlengths : 2 * (pretty level (write x)).length < fuel
          ∧ 2 * (prettyItems level ((y :: xs).map write)).length < fuel := by
        simp only [htext, List.length_append, List.length_cons, newline] at hfuel
        omega
      have hmore := items?_pretty outer rest (y :: xs) (by simp)
        (fun z hz => hread z (by simp [hz])) fuel hlengths.2
      rw [htext, List.append_assoc, List.cons_append,
        items?_item (hread x (by simp)) hlengths.1 (ends_comma _), skipBlanks_comma]
      simp only [hmore]
      rfl

theorem readsAs_array {xs : List α} (hne : xs ≠ [])
    (hread : ∀ x ∈ xs, ReadsAs (pretty (level + 1) (write x)) (read x)) :
    ReadsAs (pretty level (array (xs.map write))) (array (xs.map read)) := by
  intro fuel rest hfuel hends
  obtain ⟨fuel, rfl⟩ := exists_fuel hfuel
  have htext : pretty level (array (xs.map write)) ++ rest =
      '[' :: (prettyItems (level + 1) (xs.map write) ++ (newline level ++ ']' :: rest)) := by
    obtain ⟨x, xs, rfl⟩ := List.exists_cons_of_ne_nil hne
    simp [pretty]
  have hlength : 2 * (prettyItems (level + 1) (xs.map write)).length < fuel := by
    have := congrArg List.length htext
    simp only [List.length_append, List.length_cons] at this
    omega
  have hitems := items?_pretty level rest xs hne hread fuel hlength
  rw [htext, value?_array (fun more hclose => ?_), hitems]
  · rfl
  · rw [items?_close hclose] at hitems
    cases hitems

end Items

section Members

variable {read : Json → Json}

/-- The members of an object are read one after the other, and the brace that ends it. -/
theorem members?_pretty (outer : Nat) (rest : List Char) :
    ∀ (members : List (String × Json)), members ≠ [] →
      (∀ m ∈ members, ReadsAs (pretty level m.2) (read m.2)) →
      ∀ fuel, 2 * (prettyMembers level members).length < fuel →
        members? fuel (prettyMembers level members ++ (newline outer ++ '}' :: rest)) =
          some (members.map fun m => (m.1, read m.2), rest)
  | [], hne, _, _, _ => absurd rfl hne
  | [m], _, hread, fuel, hfuel => by
      obtain ⟨fuel, rfl⟩ := exists_fuel hfuel
      have hclose : skipBlanks (newline outer ++ '}' :: rest) = '}' :: rest :=
        skipBlanks_newline outer _
      have hm : 2 * (pretty level m.2).length < fuel := by
        simp [prettyMembers, newline] at hfuel
        omega
      rw [prettyMembers, members?_member (hread m (by simp)) hm (ends_newline _ _), hclose]
      rfl
  | m :: n :: members, _, hread, fuel, hfuel => by
      obtain ⟨fuel, rfl⟩ := exists_fuel hfuel
      have hlengths : 2 * (pretty level m.2).length < fuel
          ∧ 2 * (prettyMembers level (n :: members)).length < fuel := by
        simp [prettyMembers_cons, newline] at hfuel
        omega
      have hmore := members?_pretty outer rest (n :: members) (by simp)
        (fun o ho => hread o (by simp [ho])) fuel hlengths.2
      rw [prettyMembers_cons, List.append_assoc, List.cons_append,
        members?_member (hread m (by simp)) hlengths.1 (ends_comma _), skipBlanks_comma]
      simp only [hmore]
      rfl

theorem readsAs_object {members : List (String × Json)} (hne : members ≠ [])
    (hread : ∀ m ∈ members, ReadsAs (pretty (level + 1) m.2) (read m.2)) :
    ReadsAs (pretty level (object members)) (object (members.map fun m => (m.1, read m.2))) := by
  intro fuel rest hfuel hends
  obtain ⟨fuel, rfl⟩ := exists_fuel hfuel
  have htext : pretty level (object members) ++ rest =
      '{' :: (prettyMembers (level + 1) members ++ (newline level ++ '}' :: rest)) := by
    obtain ⟨m, members, rfl⟩ := List.exists_cons_of_ne_nil hne
    simp [pretty]
  have hlength : 2 * (prettyMembers (level + 1) members).length < fuel := by
    have := congrArg List.length htext
    simp only [List.length_append, List.length_cons] at this
    omega
  have hmembers := members?_pretty level rest members hne hread fuel hlength
  rw [htext, value?_object (fun more hclose => ?_), hmembers]
  · rfl
  · rw [members?_close hclose] at hmembers
    cases hmembers

end Members

end Nested

/-- A text that is read as a value holds that value. -/
theorem ReadsAs.ofChars? {text : List Char} {v : Json} (h : ReadsAs text v) :
    ofChars? text = some v := by
  have hvalue := h (2 * text.length + 2) [] (by omega) (by simp [Ends])
  rw [List.append_nil] at hvalue
  rw [Json.ofChars?, hvalue]
  rfl

end Json

end RasterScript
