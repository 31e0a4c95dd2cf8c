import RasterScript.Proofs.Readers

/-!
# What a command refuses

The manual says of every command what its arguments have to be: some are integers,
some are numbers in a range, one is a word, and the rest may be anything. That is
the table `Parameter.asked`, by the name of the command; the readers of arguments
know nothing of it. They follow it nevertheless. A reader goes through its fields in
the order of the table and stops at the first that will not do (`Goes`), which is
proved once for each kind of reader.

So a command has nothing to report but the number of its fields, if there are too
few of them, and otherwise the first field that its parameter does not take
(`first_refusal_reported`). It looks for no field that is not there.
-/

namespace RasterScript

/-! ## Integers as they are written -/

theorem Decimal.splitSign_cases (text : List Char) :
    (∃ rest, text = '-' :: rest ∧ splitSign text = (true, rest))
      ∨ (∃ rest, text = '+' :: rest ∧ splitSign text = (false, rest))
      ∨ splitSign text = (false, text) := by
  unfold splitSign
  split
  next rest => exact .inl ⟨rest, rfl, rfl⟩
  next rest => exact .inr (.inl ⟨rest, rfl, rfl⟩)
  next => exact .inr (.inr rfl)

namespace Integer

/-- A run of decimal digits, and not an empty one. -/
structure IsDigits (digits : List Char) : Prop where
  ne_nil : digits ≠ []
  all : ∀ d ∈ digits, d.isDigit = true

/-- A text is an integer in decimal: a sign if any, and then digits. -/
inductive Spells : List Char → Int → Prop where
  | unsigned {digits : List Char} : IsDigits digits → Spells digits (digitsValue digits)
  | plus {digits : List Char} : IsDigits digits → Spells ('+' :: digits) (digitsValue digits)
  | minus {digits : List Char} : IsDigits digits →
      Spells ('-' :: digits) (-(digitsValue digits : Int))

/-- A text is an integer, and it fits in 32 bits. -/
def IsInt32 (text : String) : Prop := ∃ n : Int32, Spells text.toList n.toInt

theorem ofChars?_of_split {text digits : List Char} {negative : Bool} {value : Int}
    (hsplit : Decimal.splitSign text = (negative, digits)) :
    ofChars? text = some value ↔
      IsDigits digits
        ∧ (if negative then -(digitsValue digits : Int) else digitsValue digits) = value := by
  have hgood : IsDigits digits ↔ ¬ (digits.isEmpty = true ∨ ¬ digits.all Char.isDigit = true) :=
    ⟨fun ⟨hne, hall⟩ => by simpa [hne] using hall, fun h => by
      obtain ⟨hne, hall⟩ : digits ≠ [] ∧ ∀ d ∈ digits, d.isDigit = true := by simpa using h
      exact ⟨hne, hall⟩⟩
  rw [ofChars?, hsplit]
  dsimp only
  by_cases hdigits : IsDigits digits
  · rw [if_neg (hgood.mp hdigits)]
    cases negative <;> simp [hdigits]
  · rw [if_pos (not_not.mp (mt hgood.mpr hdigits))]
    simp [hdigits]

theorem ofChars?_eq_some_iff {text : List Char} {value : Int} :
    ofChars? text = some value ↔ Spells text value := by
  constructor
  · intro h
    obtain ⟨digits, rfl, hsplit⟩ | ⟨digits, rfl, hsplit⟩ | hsplit :=
      Decimal.splitSign_cases text
    · obtain ⟨hdigits, rfl⟩ := (ofChars?_of_split hsplit).mp h
      exact .minus hdigits
    · obtain ⟨hdigits, rfl⟩ := (ofChars?_of_split hsplit).mp h
      exact .plus hdigits
    · obtain ⟨hdigits, rfl⟩ := (ofChars?_of_split hsplit).mp h
      exact .unsigned hdigits
  · intro h
    cases h with
    | unsigned hdigits =>
        have hsplit := splitSign_unsigned fun d hd => .inl (hdigits.all d hd)
        exact (ofChars?_of_split hsplit).mpr ⟨hdigits, rfl⟩
    | plus hdigits => exact (ofChars?_of_split rfl).mpr ⟨hdigits, rfl⟩
    | minus hdigits => exact (ofChars?_of_split rfl).mpr ⟨hdigits, rfl⟩

/-- **The reader of integers reads those texts that are integers of 32 bits.** -/
theorem ofText?_eq_some_iff {text : String} {n : Int32} :
    ofText? text = some n ↔ Spells text.toList n.toInt := by
  rw [← ofChars?_eq_some_iff, ofText?, Option.bind_eq_some_iff]
  constructor
  · rintro ⟨value, hvalue, hn⟩
    rw [toInt32?] at hn
    split at hn
    next hrange =>
      cases hn
      rw [Int32.toInt_ofInt_of_le (by omega) (by omega), hvalue]
    next => cases hn
  · intro h
    exact ⟨n.toInt, h, toInt32?_toInt n⟩

theorem ofText?_eq_none_iff {text : String} : ofText? text = none ↔ ¬ IsInt32 text := by
  rw [Option.eq_none_iff_forall_ne_some, IsInt32, not_exists]
  exact forall_congr' fun n => not_congr ofText?_eq_some_iff

end Integer

/-! ## What an argument has to be -/

/-- What is asked of one argument. -/
inductive Parameter where
  /-- Anything will do: a path, or a number without a range, which is read leniently. -/
  | any
  /-- A number in a range. -/
  | between (lo hi : Float32)
  /-- An integer of 32 bits. -/
  | integer
  /-- A positive integer of 32 bits. -/
  | positive
  /-- One of a few words. -/
  | oneOf (words : List String)

namespace Parameter

/-- A field will do. -/
def Takes (field : String) : Parameter → Prop
  | any => True
  | between lo hi => Within (Single.ofText field) lo hi
  | integer => Integer.IsInt32 field
  | positive => ∃ n : Int32, Integer.Spells field.toList n.toInt ∧ 1 ≤ n.toInt
  | oneOf words => field ∈ words

/-- The field at an index will not do, for a reason. -/
inductive Refuses (index : Nat) (field : String) : Parameter → Reason → Prop where
  | outside {lo hi : Float32} : ¬ Within (Single.ofText field) lo hi →
      Refuses index field (between lo hi) (.range index (Single.widen (Single.ofText field)))
  | notInteger : ¬ Integer.IsInt32 field →
      Refuses index field integer (.notInteger index field)
  | notSize : ¬ Integer.IsInt32 field →
      Refuses index field positive (.notInteger index field)
  | notPositive {n : Int32} : Integer.Spells field.toList n.toInt → n.toInt < 1 →
      Refuses index field positive (.range index (Double.ofRatio (n.toInt < 0) n.toInt.natAbs 1))
  | unknown {words : List String} : field ∉ words →
      Refuses index field (oneOf words) (.invalidChoice index field)

theorem Refuses.not_takes {index : Nat} {field : String} {p : Parameter} {reason : Reason}
    (h : p.Refuses index field reason) : ¬ p.Takes field := by
  cases h with
  | outside h => exact h
  | notInteger h => exact h
  | notSize h => exact fun ⟨n, hn, _⟩ => h ⟨n, hn⟩
  | @notPositive n hn hlow =>
      rintro ⟨m, hm, hpos⟩
      -- a text is not two numbers
      rw [← Integer.ofText?_eq_some_iff] at hn hm
      rw [Option.some.inj (hn.symm.trans hm)] at hlow
      omega
  | unknown h => exact h

theorem Refuses.unique {index : Nat} {field : String} {p : Parameter} {reason reason' : Reason}
    (h : p.Refuses index field reason) (h' : p.Refuses index field reason') :
    reason = reason' := by
  cases h with
  | outside h => cases h'; rfl
  | notInteger h => cases h'; rfl
  | notSize h =>
      cases h' with
      | notSize => rfl
      | notPositive hn _ => exact absurd ⟨_, hn⟩ h
  | notPositive hn hlow =>
      cases h' with
      | notSize h => exact absurd ⟨_, hn⟩ h
      | notPositive hm _ =>
          rw [← Integer.ofText?_eq_some_iff] at hn hm
          rw [Option.some.inj (hn.symm.trans hm)]
  | unknown h => cases h'; rfl

section Inversion

variable {i index : Nat} {field text : String} {p : Parameter}

theorem refuses_notInteger_iff :
    p.Refuses i field (.notInteger index text) ↔
      i = index ∧ field = text ∧ (p = integer ∨ p = positive) ∧ ¬ Integer.IsInt32 field := by
  constructor
  · intro h
    cases h with
    | notInteger h => exact ⟨rfl, rfl, .inl rfl, h⟩
    | notSize h => exact ⟨rfl, rfl, .inr rfl, h⟩
  · rintro ⟨rfl, rfl, rfl | rfl, h⟩
    · exact .notInteger h
    · exact .notSize h

theorem refuses_range_iff {value : Float} :
    p.Refuses i field (.range index value) ↔
      i = index
        ∧ ((∃ lo hi, p = between lo hi ∧ ¬ Within (Single.ofText field) lo hi
              ∧ value = Single.widen (Single.ofText field))
          ∨ p = positive ∧ ∃ n : Int32, Integer.Spells field.toList n.toInt ∧ n.toInt < 1
              ∧ value = Double.ofRatio (n.toInt < 0) n.toInt.natAbs 1) := by
  constructor
  · intro h
    cases h with
    | outside h => exact ⟨rfl, .inl ⟨_, _, rfl, h, rfl⟩⟩
    | notPositive hn hlow => exact ⟨rfl, .inr ⟨rfl, _, hn, hlow, rfl⟩⟩
  · rintro ⟨rfl, ⟨lo, hi, rfl, h, rfl⟩ | ⟨rfl, n, hn, hlow, rfl⟩⟩
    · exact .outside h
    · exact .notPositive hn hlow

theorem refuses_invalidChoice_iff :
    p.Refuses i field (.invalidChoice index text) ↔
      i = index ∧ field = text ∧ ∃ words, p = oneOf words ∧ field ∉ words := by
  constructor
  · intro h
    cases h with
    | unknown h => exact ⟨rfl, rfl, _, rfl, h⟩
  · rintro ⟨rfl, rfl, words, rfl, h⟩
    exact .unknown h

end Inversion

def isInteger : Parameter → Bool
  | integer => true
  | _ => false

def isAny : Parameter → Bool
  | any => true
  | _ => false

/-- What the manual asks of the arguments of a command. -/
def asked : String → List Parameter
  | "blur" | "gamma" | "rotate" | "read" => [any]
  | "sigmoid" => [any, any]
  | "colorbalance" | "colorize" | "unsharp" => [any, any, any]
  | "brightness" | "contrast" => [between (-100) 100]
  | "saturation" => [between (-100) 500]
  | "hue" => [between (-180) 180]
  | "opacity" | "sepia" | "threshold" => [between 0 100]
  | "crop" => [integer, integer, integer, integer]
  | "cropsize" | "resize" | "resizefill" | "resizefit" => [integer, integer]
  | "pixelate" => [integer]
  | "max" | "mean" | "median" | "min" => [positive]
  | "colorspace" => [oneOf ["linear", "l", "sRGB", "s"]]
  | _ => []

end Parameter

/-! ## Going through the fields -/

namespace Arguments

/-- Each parameter has a field, and takes it. -/
def AllTaken (params : List Parameter) (fields : List String) : Prop :=
  ∀ (i : Nat) (p : Parameter), params[i]? = some p →
    ∃ field, fields[i]? = some field ∧ p.Takes field

/-- The parameter at an index is about to be given its field; those before it took theirs. -/
structure ComesTo (params : List Parameter) (fields : List String) (i : Nat) (p : Parameter)
    (field : String) : Prop where
  parameter : params[i]? = some p
  field : fields[i]? = some field
  earlier : AllTaken (params.take i) fields

section Lists

variable {params : List Parameter} {fields : List String} {p q : Parameter} {i : Nat}
variable {field other : String}

theorem allTaken_nil : AllTaken [] fields := by
  intro i p hp
  cases hp

theorem allTaken_cons :
    AllTaken (p :: params) (field :: fields) ↔ p.Takes field ∧ AllTaken params fields := by
  constructor
  · intro h
    obtain ⟨_, hfield, htakes⟩ := h 0 p rfl
    obtain rfl := Option.some.inj hfield
    exact ⟨htakes, fun i q hq => h (i + 1) q hq⟩
  · rintro ⟨htakes, hrest⟩ i q hq
    cases i with
    | zero => exact ⟨field, rfl, Option.some.inj hq ▸ htakes⟩
    | succ i => exact hrest i q hq

theorem comesTo_zero :
    ComesTo (p :: params) (field :: fields) 0 q other ↔ q = p ∧ other = field := by
  constructor
  · rintro ⟨hp, hfield, -⟩
    exact ⟨(Option.some.inj hp).symm, (Option.some.inj hfield).symm⟩
  · rintro ⟨rfl, rfl⟩
    exact ⟨rfl, rfl, allTaken_nil⟩

theorem comesTo_succ :
    ComesTo (p :: params) (field :: fields) (i + 1) q other ↔
      p.Takes field ∧ ComesTo params fields i q other := by
  constructor
  · rintro ⟨hq, hother, hearlier⟩
    rw [List.take_succ_cons, allTaken_cons] at hearlier
    exact ⟨hearlier.1, hq, hother, hearlier.2⟩
  · rintro ⟨htakes, hq, hother, hearlier⟩
    refine ⟨hq, hother, ?_⟩
    rw [List.take_succ_cons, allTaken_cons]
    exact ⟨htakes, hearlier⟩

end Lists

/--
A result comes from going through the fields from `start` on, with one parameter for
each of them, and stopping at the first field that will not do.
-/
inductive Goes {α : Type} (args : List String) :
    Nat → List Parameter → Except Reason α → Prop where
  | done {start : Nat} {made : α} : Goes args start [] (.ok made)
  | stopped {start : Nat} {p : Parameter} {params : List Parameter} {field : String}
      {reason : Reason} : args[start]? = some field → p.Refuses start field reason →
      Goes args start (p :: params) (.error reason)
  | taken {start : Nat} {p : Parameter} {params : List Parameter} {field : String}
      {result : Except Reason α} : args[start]? = some field → p.Takes field →
      Goes args (start + 1) params result → Goes args start (p :: params) result

section Goes

variable {α : Type} {args : List String} {start : Nat} {params : List Parameter}
variable {result : Except Reason α}

theorem drop_of_getElem? {field : String} (h : args[start]? = some field) :
    args.drop start = field :: args.drop (start + 1) := by
  obtain ⟨hlt, rfl⟩ := List.getElem?_eq_some_iff.mp h
  exact List.drop_eq_getElem_cons hlt

/-- **There is a result exactly if every field will do.** -/
theorem Goes.ok_iff (h : Goes args start params result) :
    (∃ made, result = .ok made) ↔ AllTaken params (args.drop start) := by
  induction h with
  | @done start made => exact ⟨fun _ => allTaken_nil, fun _ => ⟨made, rfl⟩⟩
  | stopped hfield hrefuses =>
      rw [drop_of_getElem? hfield, allTaken_cons]
      refine ⟨fun ⟨made, hmade⟩ => absurd hmade (by simp), fun ⟨htakes, _⟩ => ?_⟩
      exact absurd htakes hrefuses.not_takes
  | taken hfield htakes _ ih =>
      rw [drop_of_getElem? hfield, allTaken_cons, ih]
      exact ⟨fun hrest => ⟨htakes, hrest⟩, And.right⟩

/-- **A failure is that of the first field that will not do.** -/
theorem Goes.error_iff (h : Goes args start params result) {reason : Reason} :
    result = .error reason ↔
      ∃ i p field, ComesTo params (args.drop start) i p field
        ∧ p.Refuses (start + i) field reason := by
  induction h with
  | done =>
      refine ⟨fun herror => absurd herror (by simp), fun ⟨i, p, field, hcomes, _⟩ => ?_⟩
      exact absurd hcomes.parameter (by simp)
  | @stopped start p params field found hfield hrefuses =>
      rw [drop_of_getElem? hfield]
      constructor
      · intro herror
        obtain rfl := Except.error.inj herror
        exact ⟨0, p, field, comesTo_zero.mpr ⟨rfl, rfl⟩, hrefuses⟩
      · rintro ⟨i, q, other, hcomes, hrefuses'⟩
        cases i with
        | zero =>
            obtain ⟨rfl, rfl⟩ := comesTo_zero.mp hcomes
            rw [hrefuses.unique hrefuses']
        | succ i => exact absurd (comesTo_succ.mp hcomes).1 hrefuses.not_takes
  | @taken start p params field result hfield htakes _ ih =>
      rw [drop_of_getElem? hfield, ih]
      constructor
      · rintro ⟨i, q, other, hcomes, hrefuses⟩
        rw [Nat.add_right_comm] at hrefuses
        exact ⟨i + 1, q, other, comesTo_succ.mpr ⟨htakes, hcomes⟩, hrefuses⟩
      · rintro ⟨i, q, other, hcomes, hrefuses⟩
        cases i with
        | zero =>
            obtain ⟨rfl, rfl⟩ := comesTo_zero.mp hcomes
            exact absurd htakes hrefuses.not_takes
        | succ i =>
            refine ⟨i, q, other, (comesTo_succ.mp hcomes).2, ?_⟩
            rw [Nat.add_right_comm]
            exact hrefuses

end Goes

/-! ## The readers go through their fields -/

section Steps

variable {β : Type} {args : List String} {start : Nat} {params : List Parameter}

theorem number_eq {field : String} (h : args[start]? = some field) :
    number args start = .ok (Single.ofText field) := by
  rw [number, Arguments.field, h]
  rfl

theorem integer_eq {field : String} (h : args[start]? = some field) :
    integer args start =
      match Integer.ofText? field with
      | some value => .ok value
      | none => .error (.notInteger start field) := by
  rw [integer, Arguments.field, h]
  rfl

theorem goes_number (h : start < args.length) {next : Float32 → Except Reason β}
    (hnext : ∀ x, Goes args (start + 1) params (next x)) :
    Goes args start (.any :: params) (number args start >>= next) := by
  have hfield : args[start]? = some args[start] := List.getElem?_eq_getElem h
  rw [number_eq hfield]
  exact .taken hfield trivial (hnext _)

theorem goes_ranged (h : start < args.length) {lo hi : Float32} {next : Float32 → Except Reason β}
    (hnext : ∀ x, Goes args (start + 1) params (next x)) :
    Goes args start (.between lo hi :: params) (ranged args start lo hi >>= next) := by
  have hfield : args[start]? = some args[start] := List.getElem?_eq_getElem h
  rw [ranged, number_eq hfield, bind_assoc]
  show Goes _ _ _ ((if _ then _ else _) >>= next)
  split
  next hbounds => exact .taken hfield (Within.of_le hbounds.1 hbounds.2) (hnext _)
  next hbounds =>
    refine .stopped hfield (.outside fun hwithin => ?_)
    exact hbounds ⟨hwithin.low, hwithin.high⟩

theorem goes_integer (h : start < args.length) {next : Int32 → Except Reason β}
    (hnext : ∀ n, Goes args (start + 1) params (next n)) :
    Goes args start (.integer :: params) (integer args start >>= next) := by
  have hfield : args[start]? = some args[start] := List.getElem?_eq_getElem h
  rw [integer_eq hfield]
  cases hread : Integer.ofText? args[start] with
  | none => exact .stopped hfield (.notInteger (Integer.ofText?_eq_none_iff.mp hread))
  | some n => exact .taken hfield ⟨n, Integer.ofText?_eq_some_iff.mp hread⟩ (hnext n)

theorem goes_neighbourhood (h : 0 < args.length) (statistic : Statistic) :
    Goes args 0 [.positive] (neighbourhood statistic args) := by
  have hfield : args[0]? = some args[0] := List.getElem?_eq_getElem h
  rw [neighbourhood, integer_eq hfield]
  cases hread : Integer.ofText? args[0] with
  | none => exact .stopped hfield (.notSize (Integer.ofText?_eq_none_iff.mp hread))
  | some n =>
      have hspells := Integer.ofText?_eq_some_iff.mp hread
      show Goes _ _ _ (if n ≤ 0 then _ else _)
      split
      next hlow =>
        rw [Int32.le_iff_toInt_le, Int32.toInt_zero] at hlow
        exact .stopped hfield (.notPositive hspells (by omega))
      next hpos =>
        rw [Int32.le_iff_toInt_le, Int32.toInt_zero] at hpos
        exact .taken hfield ⟨n, hspells, by omega⟩ .done

theorem goes_colorspace (h : 0 < args.length) :
    Goes args 0 [.oneOf ["linear", "l", "sRGB", "s"]] (colorspace args) := by
  have hfield : args[0]? = some args[0] := List.getElem?_eq_getElem h
  rw [colorspace, Arguments.field, hfield]
  show Goes _ _ _ (if args[0] = "linear" ∨ args[0] = "l" then _ else _)
  split
  next hword =>
    refine .taken hfield ?_ .done
    rcases hword with hword | hword <;> simp [Parameter.Takes, hword]
  next hother =>
    split
    next hword =>
      refine .taken hfield ?_ .done
      rcases hword with hword | hword <;> simp [Parameter.Takes, hword]
    next hunknown =>
      refine .stopped hfield (.unknown ?_)
      simpa [and_assoc] using And.intro hother hunknown

theorem goes_angle (h : 0 < args.length) : Goes args 0 [.any] (angle args) := by
  refine goes_number h fun degrees => ?_
  split
  next =>
    split
    next => exact .done
    split
    next => exact .done
    split
    next => exact .done
    next => exact .done
  next => exact .done

theorem goes_one (h : 1 ≤ args.length) (make : Float32 → Operation) :
    Goes args 0 [.any] (one make args) :=
  goes_number h fun _ => .done

theorem goes_two (h : 2 ≤ args.length) (make : Float32 → Float32 → Operation) :
    Goes args 0 [.any, .any] (two make args) :=
  goes_number (by omega) fun _ => goes_number h fun _ => .done

theorem goes_three (h : 3 ≤ args.length) (make : Float32 → Float32 → Float32 → Operation) :
    Goes args 0 [.any, .any, .any] (three make args) :=
  goes_number (by omega) fun _ => goes_number (by omega) fun _ => goes_number h fun _ => .done

theorem goes_within (h : 1 ≤ args.length) (lo hi : Float32) (make : Float32 → Operation) :
    Goes args 0 [.between lo hi] (within lo hi make args) :=
  goes_ranged h fun _ => .done

theorem goes_count (h : 1 ≤ args.length) (make : Int32 → Operation) :
    Goes args 0 [.integer] (count make args) :=
  goes_integer h fun _ => .done

theorem goes_size (h : 2 ≤ args.length) (make : Int32 → Int32 → Operation) :
    Goes args 0 [.integer, .integer] (size make args) :=
  goes_integer (by omega) fun _ => goes_integer h fun _ => .done

theorem goes_corners (h : 4 ≤ args.length) :
    Goes args 0 [.integer, .integer, .integer, .integer] (corners args) :=
  goes_integer (by omega) fun _ => goes_integer (by omega) fun _ =>
    goes_integer (by omega) fun _ => goes_integer h fun _ => .done

end Steps

end Arguments

/-! ## The table -/

namespace Command

/-- The parameters that the manual lists for a command. -/
def parameters (c : Command) : List Parameter := Parameter.asked c.name

/--
A command has one argument for each of its parameters. If there are enough fields, it goes through
them.
-/
structure Heeds (c : Command) : Prop where
  length : c.parameters.length = c.minArgs
  goes : ∀ args, c.minArgs ≤ args.length → Arguments.Goes args 0 c.parameters (c.check args)

theorem heeds_transform {name usage : String} {aliases : List String} {least : Nat}
    {reader : ArgumentReader} (hlength : (Parameter.asked name).length = least)
    (h : ∀ args, least ≤ args.length →
      Arguments.Goes args 0 (Parameter.asked name) (reader args)) :
    (transform name aliases least usage reader).Heeds := by
  refine ⟨hlength, fun args henough => ?_⟩
  have hcheck : (transform name aliases least usage reader).check args = reader args :=
    if_neg (Nat.not_lt.mpr henough)
  rw [hcheck]
  exact h args henough

theorem heeds_ofDirective {name usage : String} {aliases : List String} {least : Nat}
    {directive : Directive} (hlength : (Parameter.asked name).length = least)
    (h : ∀ args, least ≤ args.length →
      Arguments.Goes args 0 (Parameter.asked name) (.ok (none : Option Operation))) :
    (ofDirective name aliases least usage directive).Heeds := by
  refine ⟨hlength, fun args henough => ?_⟩
  have hcheck : (ofDirective name aliases least usage directive).check args = .ok none :=
    if_neg (Nat.not_lt.mpr henough)
  rw [hcheck]
  exact h args henough

open Arguments

/-- **Every standard command does with its arguments what the manual says.** -/
theorem heeds_standard : ∀ c ∈ standard, c.Heeds := by
  simp only [standard, List.forall_mem_cons]
  refine ⟨
    heeds_transform rfl fun _ h => goes_one h _,  -- blur
    heeds_transform rfl fun _ h => goes_within h _ _ _,  -- brightness
    heeds_transform rfl fun _ h => goes_three h _,  -- colorbalance
    heeds_transform rfl fun _ h => goes_three h _,  -- colorize
    heeds_transform rfl fun _ h => goes_colorspace h,
    heeds_transform rfl fun _ h => goes_within h _ _ _,  -- contrast
    heeds_transform rfl fun _ h => goes_corners h,
    heeds_transform rfl fun _ h => goes_size h _,  -- cropsize
    heeds_transform rfl fun _ _ => .done,  -- edge
    heeds_transform rfl fun _ _ => .done,  -- emboss
    heeds_transform rfl fun _ _ => .done,  -- fliph
    heeds_transform rfl fun _ _ => .done,  -- flipv
    heeds_transform rfl fun _ h => goes_one h _,  -- gamma
    heeds_transform rfl fun _ _ => .done,  -- gray
    heeds_transform rfl fun _ h => goes_within h _ _ _,  -- hue
    heeds_transform rfl fun _ _ => .done,  -- invert
    heeds_transform rfl fun _ h => goes_neighbourhood h _,  -- max
    heeds_transform rfl fun _ h => goes_neighbourhood h _,  -- mean
    heeds_transform rfl fun _ h => goes_neighbourhood h _,  -- median
    heeds_transform rfl fun _ h => goes_neighbourhood h _,  -- min
    heeds_transform rfl fun _ h => goes_within h _ _ _,  -- opacity
    heeds_transform rfl fun _ h => goes_count h _,  -- pixelate
    heeds_transform rfl fun _ h => goes_size h _,  -- resize
    heeds_transform rfl fun _ h => goes_size h _,  -- resizefill
    heeds_transform rfl fun _ h => goes_size h _,  -- resizefit
    heeds_transform rfl fun _ h => goes_angle h,
    heeds_transform rfl fun _ h => goes_within h _ _ _,  -- saturation
    heeds_transform rfl fun _ h => goes_within h _ _ _,  -- sepia
    heeds_transform rfl fun _ h => goes_two h _,  -- sigmoid
    heeds_transform rfl fun _ _ => .done,  -- sobel
    heeds_transform rfl fun _ h => goes_within h _ _ _,  -- threshold
    heeds_transform rfl fun _ _ => .done,  -- transpose
    heeds_transform rfl fun _ _ => .done,  -- transverse
    heeds_transform rfl fun _ h => goes_three h _,  -- unsharp
    heeds_ofDirective rfl fun _ h => .taken (List.getElem?_eq_getElem h) trivial .done,  -- read
    heeds_ofDirective rfl fun _ _ => .done,  -- reset
    heeds_ofDirective rfl fun _ _ => .done,  -- help
    heeds_ofDirective rfl fun _ _ => .done,  -- show
    ?_⟩
  intro c hc
  cases hc

/--
The arguments of a standard command are all integers, or may all be anything, or there is only one.
-/
theorem parameters_standard : ∀ c ∈ standard,
    c.parameters.all Parameter.isInteger = true ∨ c.parameters.all Parameter.isAny = true
      ∨ c.minArgs = 1 := by
  decide +kernel

/-- Commands whose numbers have no range. -/
def unrestricted : List String :=
  ["blur", "colorbalance", "colorize", "gamma", "rotate", "sigmoid", "unsharp"]

theorem any_of_unrestricted :
    ∀ name ∈ unrestricted, (Parameter.asked name).all Parameter.isAny = true := by
  decide +kernel

section Heeds

variable {c : Command} {args : List String}

theorem Heeds.check_ok_iff (h : c.Heeds) (henough : c.minArgs ≤ args.length) :
    (∃ op, c.check args = .ok op) ↔ AllTaken c.parameters args := (h.goes args henough).ok_iff

theorem Heeds.check_error_iff (h : c.Heeds) (henough : c.minArgs ≤ args.length) {reason : Reason} :
    c.check args = .error reason ↔
      ∃ i p field, ComesTo c.parameters args i p field ∧ p.Refuses i field reason := by
  have hgoes : c.check args = .error reason ↔ _ := (h.goes args henough).error_iff
  simpa only [Nat.zero_add, List.drop_zero] using hgoes

/-- **Fields are counted before any of them is read.** -/
theorem check_few (h : args.length < c.minArgs) :
    c.check args = .error (.arity c.minArgs args.length) := if_pos h

theorem Heeds.error_cases (h : c.Heeds) {reason : Reason} (herror : c.check args = .error reason) :
    (args.length < c.minArgs ∧ reason = .arity c.minArgs args.length)
      ∨ ∃ i p field, ComesTo c.parameters args i p field ∧ p.Refuses i field reason := by
  by_cases hfew : args.length < c.minArgs
  · rw [check_few hfew] at herror
    exact .inl ⟨hfew, (Except.error.inj herror).symm⟩
  · exact .inr ((h.check_error_iff (Nat.not_lt.mp hfew)).mp herror)

theorem Heeds.check_arity_iff (h : c.Heeds) {least got : Nat} :
    c.check args = .error (.arity least got) ↔
      args.length < c.minArgs ∧ least = c.minArgs ∧ got = args.length := by
  constructor
  · intro herror
    obtain ⟨hfew, harity⟩ | ⟨_, _, _, _, hrefuses⟩ := h.error_cases herror
    · cases harity
      exact ⟨hfew, rfl, rfl⟩
    · cases hrefuses
  · rintro ⟨hfew, rfl, rfl⟩
    exact check_few hfew

/-- **No field is looked for that is not there.** -/
theorem Heeds.ne_missing (h : c.Heeds) {reason : Reason} (herror : c.check args = .error reason)
    (index : Nat) : reason ≠ .missing index := by
  rintro rfl
  obtain ⟨-, harity⟩ | ⟨_, _, _, _, hrefuses⟩ := h.error_cases herror
  · cases harity
  · cases hrefuses

theorem Heeds.accepts_iff (h : c.Heeds) :
    (∃ op, c.check args = .ok op) ↔ c.minArgs ≤ args.length ∧ AllTaken c.parameters args := by
  by_cases hfew : args.length < c.minArgs
  · rw [check_few hfew]
    exact ⟨fun hok => absurd hok (by simp), fun hok => absurd hok.1 (by omega)⟩
  · have henough : c.minArgs ≤ args.length := Nat.not_lt.mp hfew
    rw [h.check_ok_iff henough]
    exact ⟨fun hall => ⟨henough, hall⟩, And.right⟩

end Heeds

/-! ## The reasons -/

section Reasons

variable {c : Command} (hc : c ∈ standard) {args : List String} {index : Nat}
include hc

/-- A number in a range, a positive integer and a word are each the only argument. -/
theorem index_eq_zero {p : Parameter} (hp : c.parameters[index]? = some p)
    (hinteger : p.isInteger = false) (hany : p.isAny = false) : index = 0 := by
  have hmem := List.mem_of_getElem? hp
  obtain hall | hall | hone := parameters_standard c hc
  · rw [List.all_eq_true.mp hall p hmem] at hinteger
    cases hinteger
  · rw [List.all_eq_true.mp hall p hmem] at hany
    cases hany
  · have hlt := (List.getElem?_eq_some_iff.mp hp).1
    rw [(heeds_standard c hc).length] at hlt
    omega

theorem comesTo_iff_of_only {p : Parameter} {field : String} (hinteger : p.isInteger = false)
    (hany : p.isAny = false) :
    ComesTo c.parameters args index p field ↔
      c.parameters[index]? = some p ∧ args[index]? = some field := by
  refine ⟨fun h => ⟨h.parameter, h.field⟩, fun ⟨hp, hfield⟩ => ⟨hp, hfield, ?_⟩⟩
  rw [index_eq_zero hc hp hinteger hany]
  exact allTaken_nil

/-- What comes before an integer is an integer. -/
theorem integer_before {p : Parameter} (hp : c.parameters[index]? = some p)
    (hinteger : p = .integer ∨ p = .positive) {j : Nat} (hj : j < index) :
    c.parameters[j]? = some .integer := by
  have hlt := (List.getElem?_eq_some_iff.mp hp).1
  obtain hall | hall | hone := parameters_standard c hc
  · have hq := List.all_eq_true.mp hall _ (List.getElem_mem (hj.trans hlt))
    rw [List.getElem?_eq_getElem (hj.trans hlt)]
    cases hparam : c.parameters[j] with
    | integer => rfl
    | _ => rw [hparam] at hq; cases hq
  · have hany := List.all_eq_true.mp hall p (List.mem_of_getElem? hp)
    rcases hinteger with rfl | rfl <;> cases hany
  · rw [(heeds_standard c hc).length] at hlt
    omega

theorem comesTo_iff_of_integer {p : Parameter} {field : String}
    (hinteger : p = .integer ∨ p = .positive) :
    ComesTo c.parameters args index p field ↔
      c.parameters[index]? = some p ∧ args[index]? = some field
        ∧ ∀ j < index, ∃ earlier, args[j]? = some earlier ∧ Integer.IsInt32 earlier := by
  constructor
  · rintro ⟨hp, hfield, hearlier⟩
    refine ⟨hp, hfield, fun j hj => hearlier j .integer ?_⟩
    rw [List.getElem?_take_of_lt hj]
    exact integer_before hc hp hinteger hj
  · rintro ⟨hp, hfield, hearlier⟩
    refine ⟨hp, hfield, fun j q hq => ?_⟩
    have hj : j < index := by
      have hlt := (List.getElem?_eq_some_iff.mp hq).1
      rw [List.length_take] at hlt
      omega
    rw [List.getElem?_take_of_lt hj, integer_before hc hp hinteger hj] at hq
    obtain rfl := Option.some.inj hq
    exact hearlier j hj

/-- A command that takes anything only fails for the number of its fields. -/
theorem check_any (h : c.parameters.all Parameter.isAny = true)
    (henough : c.minArgs ≤ args.length) : ∃ op, c.check args = .ok op := by
  have hheeds := heeds_standard c hc
  rw [hheeds.check_ok_iff henough]
  intro i p hp
  have hi : i < args.length := by
    have hlt := (List.getElem?_eq_some_iff.mp hp).1
    rw [hheeds.length] at hlt
    omega
  have hany := List.all_eq_true.mp h p (List.mem_of_getElem? hp)
  cases p with
  | any => exact ⟨args[i], List.getElem?_eq_getElem hi, trivial⟩
  | _ => cases hany

variable (henough : c.minArgs ≤ args.length)
include henough

theorem check_notInteger_iff {field : String} :
    c.check args = .error (.notInteger index field) ↔
      (c.parameters[index]? = some .integer ∨ c.parameters[index]? = some .positive)
        ∧ args[index]? = some field ∧ ¬ Integer.IsInt32 field
        ∧ ∀ j < index, ∃ earlier, args[j]? = some earlier ∧ Integer.IsInt32 earlier := by
  rw [(heeds_standard c hc).check_error_iff henough]
  constructor
  · rintro ⟨i, p, text, hcomes, hrefuses⟩
    obtain ⟨rfl, rfl, hinteger, hbad⟩ := Parameter.refuses_notInteger_iff.mp hrefuses
    obtain ⟨hp, hfield, hearlier⟩ := (comesTo_iff_of_integer hc hinteger).mp hcomes
    refine ⟨?_, hfield, hbad, hearlier⟩
    rcases hinteger with rfl | rfl
    · exact .inl hp
    · exact .inr hp
  · rintro ⟨hp, hfield, hbad, hearlier⟩
    have hcomes : ∀ p : Parameter, p = .integer ∨ p = .positive → c.parameters[index]? = some p →
        ∃ i p text, ComesTo c.parameters args i p text
          ∧ p.Refuses i text (.notInteger index field) := fun p hinteger hp =>
      ⟨index, p, field, (comesTo_iff_of_integer hc hinteger).mpr ⟨hp, hfield, hearlier⟩,
        Parameter.refuses_notInteger_iff.mpr ⟨rfl, rfl, hinteger, hbad⟩⟩
    rcases hp with hp | hp
    · exact hcomes _ (.inl rfl) hp
    · exact hcomes _ (.inr rfl) hp

theorem check_range_iff {value : Float} :
    c.check args = .error (.range index value) ↔
      ∃ field, args[index]? = some field
        ∧ ((∃ lo hi, c.parameters[index]? = some (.between lo hi)
              ∧ ¬ Within (Single.ofText field) lo hi
              ∧ value = Single.widen (Single.ofText field))
          ∨ c.parameters[index]? = some .positive ∧ ∃ n : Int32,
              Integer.Spells field.toList n.toInt ∧ n.toInt < 1
              ∧ value = Double.ofRatio (n.toInt < 0) n.toInt.natAbs 1) := by
  rw [(heeds_standard c hc).check_error_iff henough]
  constructor
  · rintro ⟨i, p, text, ⟨hp, hfield, -⟩, hrefuses⟩
    obtain ⟨rfl, ⟨lo, hi, rfl, hbad⟩ | ⟨rfl, hbad⟩⟩ := Parameter.refuses_range_iff.mp hrefuses
    · exact ⟨text, hfield, .inl ⟨lo, hi, hp, hbad⟩⟩
    · exact ⟨text, hfield, .inr ⟨hp, hbad⟩⟩
  · rintro ⟨field, hfield, ⟨lo, hi, hp, hbad⟩ | ⟨hp, hbad⟩⟩
    · exact ⟨index, _, field, (comesTo_iff_of_only hc rfl rfl).mpr ⟨hp, hfield⟩,
        Parameter.refuses_range_iff.mpr ⟨rfl, .inl ⟨lo, hi, rfl, hbad⟩⟩⟩
    · exact ⟨index, _, field, (comesTo_iff_of_only hc rfl rfl).mpr ⟨hp, hfield⟩,
        Parameter.refuses_range_iff.mpr ⟨rfl, .inr ⟨rfl, hbad⟩⟩⟩

theorem check_invalidChoice_iff {field : String} :
    c.check args = .error (.invalidChoice index field) ↔
      args[index]? = some field
        ∧ ∃ words, c.parameters[index]? = some (.oneOf words) ∧ field ∉ words := by
  rw [(heeds_standard c hc).check_error_iff henough]
  constructor
  · rintro ⟨i, p, text, ⟨hp, hfield, -⟩, hrefuses⟩
    obtain ⟨rfl, rfl, words, rfl, hbad⟩ := Parameter.refuses_invalidChoice_iff.mp hrefuses
    exact ⟨hfield, words, hp, hbad⟩
  · rintro ⟨hfield, words, hp, hbad⟩
    exact ⟨index, _, field, (comesTo_iff_of_only hc rfl rfl).mpr ⟨hp, hfield⟩,
      Parameter.refuses_invalidChoice_iff.mpr ⟨rfl, rfl, words, rfl, hbad⟩⟩

end Reasons

/-! ## Reports -/

section Reports

variable {c : Command} {written : String} {args : List String} {line : Nat} {reason : Reason}

theorem validate_eq_invalid_iff :
    c.validate written args line = .error (.invalid line written c.usage reason) ↔
      c.check args = .error reason := by
  unfold validate
  cases c.check args with
  | ok op => simp
  | error found => simp

theorem validate_ok_iff :
    (∃ op, c.validate written args line = .ok op) ↔ ∃ op, c.check args = .ok op := by
  unfold validate
  cases c.check args with
  | ok op => simp
  | error found => simp

theorem validate_error {error : ScriptError} (h : c.validate written args line = .error error) :
    ∃ reason, error = .invalid line written c.usage reason ∧ c.check args = .error reason := by
  unfold validate at h
  cases hcheck : c.check args with
  | ok op => rw [hcheck] at h; cases h
  | error found => rw [hcheck] at h; cases h; exact ⟨found, rfl, rfl⟩

/-- A report of anything but the number of fields is one about fields. -/
theorem validate_iff_of_enough {P : Prop} (hne : ∀ least got, reason ≠ .arity least got)
    (h : c.minArgs ≤ args.length → (c.check args = .error reason ↔ P)) :
    c.validate written args line = .error (.invalid line written c.usage reason) ↔
      c.minArgs ≤ args.length ∧ P := by
  rw [validate_eq_invalid_iff]
  by_cases hfew : args.length < c.minArgs
  · rw [check_few hfew, Except.error.injEq]
    exact ⟨fun heq => absurd heq.symm (hne _ _), fun ⟨henough, _⟩ => by omega⟩
  · have henough : c.minArgs ≤ args.length := Nat.not_lt.mp hfew
    rw [h henough]
    exact ⟨fun hP => ⟨henough, hP⟩, And.right⟩

end Reports

/--
**A command reports the first thing that is wrong, and nothing else.** Let it be any
of the standard commands, with any fields behind it. If there are fewer fields than it
needs, that is what it reports. Otherwise it reports the first field that is not what
the manual asks for: one that is no integer, after integers only; one that is a number
and out of range; or one that is not among the words. If no field is of that kind, it
is carried out, and so are always those commands of which the manual asks nothing. A
field that is not there is never looked for.
-/
theorem first_refusal_reported {c : Command} (hc : c ∈ Registry.standard.commands)
    (written : String) (args : List String) (line : Nat) :
    let result := c.validate written args line
    let refused (reason : Reason) : Prop :=
      result = .error (.invalid line written c.usage reason)
    let asks (index : Nat) (p : Parameter) : Prop := c.parameters[index]? = some p
    (∀ error, result = .error error →
        ∃ reason, error = .invalid line written c.usage reason ∧ ∀ index, reason ≠ .missing index)
      ∧ (∀ least got, refused (.arity least got) ↔
          args.length < c.minArgs ∧ least = c.minArgs ∧ got = args.length)
      ∧ c.parameters.length = c.minArgs
      ∧ (∀ index field, refused (.notInteger index field) ↔
          c.minArgs ≤ args.length ∧ (asks index .integer ∨ asks index .positive)
            ∧ args[index]? = some field ∧ ¬ Integer.IsInt32 field
            ∧ ∀ j < index, ∃ earlier, args[j]? = some earlier ∧ Integer.IsInt32 earlier)
      ∧ (∀ index value, refused (.range index value) ↔
          c.minArgs ≤ args.length ∧ ∃ field, args[index]? = some field
            ∧ ((∃ lo hi, asks index (.between lo hi) ∧ ¬ Within (Single.ofText field) lo hi
                  ∧ value = Single.widen (Single.ofText field))
              ∨ asks index .positive ∧ ∃ n : Int32, Integer.Spells field.toList n.toInt
                  ∧ n.toInt < 1 ∧ value = Double.ofRatio (n.toInt < 0) n.toInt.natAbs 1))
      ∧ (∀ index field, refused (.invalidChoice index field) ↔
          c.minArgs ≤ args.length ∧ args[index]? = some field
            ∧ ∃ words, asks index (.oneOf words) ∧ field ∉ words)
      ∧ ((∃ op, result = .ok op) ↔ c.minArgs ≤ args.length ∧ AllTaken c.parameters args)
      ∧ (c.name ∈ unrestricted ∨ c.minArgs = 0 → c.minArgs ≤ args.length →
          ∃ op, result = .ok op) := by
  intro result refused asks
  rw [Registry.mem_standard] at hc
  have hheeds := heeds_standard c hc
  refine ⟨fun error herror => ?_, fun least got => ?_, hheeds.length,
    fun index field => validate_iff_of_enough (by simp) fun h => check_notInteger_iff hc h,
    fun index value => validate_iff_of_enough (by simp) fun h => check_range_iff hc h,
    fun index field => validate_iff_of_enough (by simp) fun h => check_invalidChoice_iff hc h,
    validate_ok_iff.trans hheeds.accepts_iff, fun hname henough => validate_ok_iff.mpr ?_⟩
  · obtain ⟨reason, rfl, hcheck⟩ := validate_error herror
    exact ⟨reason, rfl, hheeds.ne_missing hcheck⟩
  · exact validate_eq_invalid_iff.trans hheeds.check_arity_iff
  · refine check_any hc ?_ henough
    rcases hname with hname | hzero
    · exact any_of_unrestricted _ hname
    · rw [← hheeds.length, List.length_eq_zero_iff] at hzero
      rw [hzero]
      rfl

/-- Of two bad corners the first is reported, in a line that has both. -/
theorem first_refusal_reported_crop :
    let crop := transform "crop" [] 4 "x1 y1 x2 y2 (rectangle at (x1,y1) and (x2,y2))" corners
    crop ∈ Registry.standard.commands
      ∧ crop.validate "crop" ["0", "y", "10", "z"] 7
        = .error (.invalid 7 "crop" crop.usage (.notInteger 1 "y")) := by
  intro crop
  have hcrop : crop ∈ Registry.standard.commands :=
    (Registry.mem_standard _).mpr (by simp [standard, crop])
  obtain ⟨-, -, -, hnotInteger, -⟩ :=
    first_refusal_reported hcrop "crop" ["0", "y", "10", "z"] 7
  refine ⟨hcrop, (hnotInteger 1 "y").mpr ⟨by decide, .inl rfl, rfl, ?_, fun j hj => ?_⟩⟩
  · exact Integer.ofText?_eq_none_iff.mp (by decide +kernel)
  · obtain rfl : j = 0 := by omega
    exact ⟨"0", rfl, 0, Integer.ofText?_eq_some_iff.mp (by decide +kernel)⟩

end Command

end RasterScript
