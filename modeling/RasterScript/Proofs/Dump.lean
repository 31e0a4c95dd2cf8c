import RasterScript.Pipeline
import RasterScript.Proofs.JsonText

/-!
# Dumped pipelines

A pipeline is dumped as JSON and read back as what it was — except that JSON has
no infinities and no NaN. One such number anywhere, and the dump is not a
pipeline any more; it is never taken for a different one (`ofDump?_dump`).

What a dump is read as is a value of its own, `reread`: the same object with the
same members, but with each number as its text says. That it says the number that
was meant is a property of the two ends of the decimal conversion together,
**`ReadsBack`**, and the only thing that is assumed here. For any given number it
can be computed.
-/

namespace RasterScript

/-- Values that are taken back exactly if all of them are of some kind. -/
theorem mapM_guarded {α β : Type} {write : α → β} {read : β → Option α} {p : α → Bool}
    {xs : List α} (h : ∀ x ∈ xs, read (write x) = if p x = true then some x else none) :
    (xs.map write).mapM read = if xs.all p = true then some xs else none := by
  induction xs with
  | nil => rfl
  | cons x xs ih =>
      have hx := h x (by simp)
      have hxs := ih fun y hy => h y (by simp [hy])
      rw [List.map_cons, List.mapM_cons, hx, hxs]
      cases hpx : p x <;> cases hpxs : xs.all p <;> simp [hpx, hpxs]

namespace Json

/-! ## Numbers -/

/-- The text that a number is dumped as is read as that number. -/
def ReadsBack (x : Float32) : Prop :=
  (ofNumberText? (scalar (ofSingle x))).bind toSingle? = some x

instance (x : Float32) : Decidable (ReadsBack x) := inferInstanceAs (Decidable (_ = _))

/-- What a value without parts is read as: of a number, what its text says. -/
def reread : Json → Json
  | real value => (ofNumberText? (NumberStyle.pointed.chars value)).getD null
  | v => v

theorem isNumeric_chars (d : Decimal) :
    ∀ c ∈ NumberStyle.pointed.chars d, isNumeric c = true := by
  have hzero : ∀ c ∈ '0' :: (if NumberStyle.pointed.keepsPoint then ['.', '0'] else []),
      isNumeric c = true := by
    intro c hc
    obtain rfl | rfl | rfl := by simpa [NumberStyle.pointed] using hc
    all_goals rfl
  have hdigits : ∀ exponent, ∀ c ∈ NumberStyle.pointed.layOut
      (NumberStyle.trim (Nat.toDigits 10 d.digits)).1 exponent, isNumeric c = true := by
    intro exponent c hc
    obtain hc | rfl | ⟨-, rfl | rfl | rfl⟩ := NumberStyle.mem_layOut .pointed
      (NumberStyle.isDigit_trim (isDigit_toDigits d.digits)) exponent c hc
    · exact isNumeric_of_isDigit hc
    all_goals rfl
  have hbody := fun body : List Char => List.forall_mem_cons (p := fun c => isNumeric c = true)
    (a := '-') (l := body)
  unfold NumberStyle.chars
  dsimp only
  split
  · refine (hbody _).mpr ⟨rfl, ?_⟩
    split
    · exact hzero
    · exact hdigits _
  · split
    · exact hzero
    · exact hdigits _

theorem ofSingle_finite {x : Float32} (h : x.isFinite = true) :
    ofSingle x = real (Single.shortest .even x) := by
  rw [ofSingle, if_neg (Nat.not_le.mpr ((Single.isFinite_iff x).mp h))]

theorem ofSingle_infinite {x : Float32} (h : x.isFinite = false) : ofSingle x = null := by
  have hpattern := mt (Single.isFinite_iff x).mpr (by simp [h])
  rw [ofSingle, if_pos (Nat.not_lt.mp hpattern)]

/-- A finite number that reads back has a text with a value. -/
theorem ReadsBack.value {x : Float32} (h : ReadsBack x) (hx : x.isFinite = true) :
    ∃ v, ofNumberText? (NumberStyle.pointed.chars (Single.shortest .even x)) = some v
      ∧ v.toSingle? = some x ∧ (ofSingle x).reread = v := by
  rw [ReadsBack, ofSingle_finite hx] at h
  obtain ⟨v, hread, hv⟩ := Option.bind_eq_some_iff.mp h
  refine ⟨v, hread, hv, ?_⟩
  rw [ofSingle_finite hx]
  exact congrArg (fun r => Option.getD r null) hread

/-- A finite number is read as a value that stands for it, any other as none. -/
theorem toSingle?_reread {x : Float32} (h : x.isFinite = true → ReadsBack x) :
    (ofSingle x).reread.toSingle? = if x.isFinite = true then some x else none := by
  cases hx : x.isFinite with
  | true =>
      obtain ⟨v, -, hv, hreread⟩ := (h hx).value hx
      rw [hreread, hv]
      rfl
  | false =>
      rw [ofSingle_infinite hx]
      rfl

/-- A value is read as its rereading, however deep it is nested. -/
def Rereads (v : Json) : Prop := ∀ level, ReadsAs (pretty level v) v.reread

theorem rereads_single {x : Float32} (h : x.isFinite = true → ReadsBack x) :
    (ofSingle x).Rereads := by
  intro level
  cases hx : x.isFinite with
  | true =>
      obtain ⟨v, hread, -, hreread⟩ := (h hx).value hx
      rw [hreread, ofSingle_finite hx]
      exact readsAs_number (isNumeric_chars _) hread
  | false =>
      rw [ofSingle_infinite hx]
      exact readsAs_null

theorem rereads_string (s : String) : (string s).Rereads := fun _ => readsAs_string s

theorem rereads_integer (n : Int32) : (integer n.toInt).Rereads := by
  have hlow := n.le_toInt
  have hhigh := n.toInt_lt
  exact fun _ => readsAs_integer (by omega) (by omega)

end Json

/-! ## Operations -/

/-- The number that an argument is. -/
def Param.number? : Param → Option Float32
  | number value => some value
  | integer _ | word _ => none

namespace Operation

/-- The numbers that an operation holds. Quarter turns hold none, though they print one. -/
def numbers : Operation → List Float32
  | rotate90 | rotate180 | rotate270 => []
  | op => op.params.filterMap Param.number?

/-- What the dump of an operation is read as. -/
def reread (op : Operation) : Json :=
  .object (("op", .string op.dumped.1) :: op.dumped.2.map fun m => (m.1, m.2.reread))

/-- The numbers among some that are finite read back. -/
def FiniteReadBack (xs : List Float32) : Prop := ∀ x ∈ xs, x.isFinite = true → Json.ReadsBack x

theorem rereads_dumped {op : Operation} (h : FiniteReadBack op.numbers) :
    ∀ m ∈ op.dumped.2, m.2.Rereads := by
  have number : ∀ {x}, x ∈ op.numbers → (Json.ofSingle x).Rereads :=
    fun hx => Json.rereads_single (h _ hx)
  have integer := Json.rereads_integer
  cases op with
  | blur | brightness | contrast | gamma | hue | opacity | rotate | saturation | sepia
  | threshold => exact List.forall_mem_singleton.mpr (number (.head _))
  | sigmoid =>
      exact List.forall_mem_cons.mpr ⟨number (.head _),
        List.forall_mem_singleton.mpr (number (.tail _ (.head _)))⟩
  | colorBalance | colorize | unsharpMask =>
      exact List.forall_mem_cons.mpr ⟨number (.head _), List.forall_mem_cons.mpr
        ⟨number (.tail _ (.head _)),
          List.forall_mem_singleton.mpr (number (.tail _ (.tail _ (.head _))))⟩⟩
  | pixelate size => exact List.forall_mem_singleton.mpr (integer size)
  | cropToSize width height | resize width height | resizeToFill width height
  | resizeToFit width height =>
      exact List.forall_mem_cons.mpr ⟨integer width, List.forall_mem_singleton.mpr (integer height)⟩
  | crop x1 y1 x2 y2 =>
      exact List.forall_mem_cons.mpr ⟨integer x1, List.forall_mem_cons.mpr ⟨integer y1,
        List.forall_mem_cons.mpr ⟨integer x2, List.forall_mem_singleton.mpr (integer y2)⟩⟩⟩
  | neighbourhood statistic size =>
      exact List.forall_mem_cons.mpr
        ⟨Json.rereads_string _, List.forall_mem_singleton.mpr (integer size)⟩
  | colorspace conversion => exact List.forall_mem_singleton.mpr (Json.rereads_string _)
  | edge | emboss | flipHorizontal | flipVertical | grayscale | invert | rotate90 | rotate180
  | rotate270 | sobel | transpose | transverse => exact List.forall_mem_nil _

theorem readsAs_toJson (op : Operation) (h : FiniteReadBack op.numbers) {level : Nat} :
    Json.ReadsAs (Json.pretty level op.toJson) op.reread := by
  have hmembers : ∀ m ∈ ("op", Json.string op.dumped.1) :: op.dumped.2, m.2.Rereads :=
    List.forall_mem_cons.mpr ⟨Json.rereads_string _, rereads_dumped h⟩
  exact Json.readsAs_object (by simp) fun m hm => hmembers m hm (level + 1)

section Parameters

variable {source : Json}

theorem numbers?_eq {names : List String} {xs : List Float32} (h : FiniteReadBack xs)
    (hsource : parameters? source names = some (xs.map fun x => (Json.ofSingle x).reread)) :
    numbers? source names = if xs.all Float32.isFinite then some xs else none := by
  rw [numbers?, hsource]
  exact mapM_guarded fun x hx => Json.toSingle?_reread (h x hx)

theorem withNumber?_eq {name : String} {make : Float32 → Operation} {x : Float32}
    (h : FiniteReadBack [x])
    (hsource : parameters? source [name] = some [(Json.ofSingle x).reread]) :
    withNumber? source name make = if [x].all Float32.isFinite then some (make x) else none := by
  rw [withNumber?, numbers?_eq h hsource]
  cases [x].all Float32.isFinite <;> rfl

theorem withNumbers₂?_eq {first second : String} {make : Float32 → Float32 → Operation}
    {x y : Float32} (h : FiniteReadBack [x, y])
    (hsource : parameters? source [first, second] =
      some [(Json.ofSingle x).reread, (Json.ofSingle y).reread]) :
    withNumbers₂? source first second make =
      if [x, y].all Float32.isFinite then some (make x y) else none := by
  rw [withNumbers₂?, numbers?_eq h hsource]
  cases [x, y].all Float32.isFinite <;> rfl

theorem withNumbers₃?_eq {first second third : String}
    {make : Float32 → Float32 → Float32 → Operation} {x y z : Float32}
    (h : FiniteReadBack [x, y, z])
    (hsource : parameters? source [first, second, third] =
      some [(Json.ofSingle x).reread, (Json.ofSingle y).reread, (Json.ofSingle z).reread]) :
    withNumbers₃? source first second third make =
      if [x, y, z].all Float32.isFinite then some (make x y z) else none := by
  rw [withNumbers₃?, numbers?_eq h hsource]
  cases [x, y, z].all Float32.isFinite <;> rfl

theorem integers?_eq {names : List String} (ns : List Int32)
    (hsource : parameters? source names = some (ns.map fun n => Json.integer n.toInt)) :
    integers? source names = some ns := by
  rw [integers?, hsource]
  have hread : (ns.map fun n => Json.integer n.toInt).mapM Json.toInt32? =
      if ns.all (fun _ => true) = true then some ns else none :=
    mapM_guarded fun n _ => Integer.toInt32?_toInt n
  simpa using hread

theorem withSize?_eq {make : Int32 → Int32 → Operation} {width height : Int32}
    (hsource : parameters? source ["width", "height"] =
      some [.integer width.toInt, .integer height.toInt]) :
    withSize? source make = some (make width height) := by
  rw [withSize?, integers?_eq [width, height] hsource]

theorem ofDumped?_crop {x1 y1 x2 y2 : Int32}
    (hsource : parameters? source ["x1", "y1", "x2", "y2"] =
      some [.integer x1.toInt, .integer y1.toInt, .integer x2.toInt, .integer y2.toInt]) :
    ofDumped? "crop" source = some (crop x1 y1 x2 y2) := by
  rw [ofDumped?, integers?_eq [x1, y1, x2, y2] hsource]

theorem ofDumped?_pixelate {size : Int32}
    (hsource : parameters? source ["size"] = some [.integer size.toInt]) :
    ofDumped? "pixelate" source = some (pixelate size) := by
  rw [ofDumped?, integers?_eq [size] hsource]

theorem ofDumped?_local {statistic : Statistic} {size : Int32}
    (hsource : parameters? source ["stat", "size"] =
      some [.string statistic.symbol, .integer size.toInt]) :
    ofDumped? "local" source = some (neighbourhood statistic size) := by
  have hsize : (Json.integer size.toInt).toInt32? = some size := Integer.toInt32?_toInt size
  rw [ofDumped?, hsource]
  dsimp only
  rw [hsize]
  cases statistic <;> rfl

end Parameters

/-- An object whose other members have other names is an operation of the name it gives. -/
theorem ofJson?_members (tag : String) {members : List (String × Json)}
    (h : ∀ m ∈ members, m.1 ≠ "op") :
    ofJson? (.object (("op", .string tag) :: members)) =
      ofDumped? tag (.object (("op", .string tag) :: members)) := by
  have hop : Json.member? (.object (("op", .string tag) :: members)) "op" = some (.string tag) := by
    have hnone : members.reverse.find? (fun m => decide (m.1 = "op")) = none :=
      List.find?_eq_none.mpr fun m hm => by simpa using h m (List.mem_reverse.mp hm)
    rw [Json.member?, List.reverse_cons, List.find?_append, hnone]
    rfl
  rw [ofJson?, hop]

theorem dumped_names (op : Operation) : ∀ m ∈ op.dumped.2, m.1 ≠ "op" := by
  cases op <;> simp [dumped]

/-- **What an operation was dumped as is that operation, if all its numbers are finite.** -/
theorem ofJson?_reread {op : Operation} (h : FiniteReadBack op.numbers) :
    ofJson? op.reread = if op.numbers.all Float32.isFinite then some op else none := by
  rw [reread, ofJson?_members]
  rotate_left
  · intro m hm
    obtain ⟨n, hn, rfl⟩ := List.mem_map.mp hm
    exact op.dumped_names n hn
  -- the tag chooses the reader, and by `rfl` its names are those that the dump gave
  cases op with
  | blur | brightness | contrast | gamma | hue | opacity | rotate | saturation | sepia
  | threshold => exact withNumber?_eq h rfl
  | sigmoid => exact withNumbers₂?_eq h rfl
  | colorBalance | colorize | unsharpMask => exact withNumbers₃?_eq h rfl
  | cropToSize | resize | resizeToFill | resizeToFit => exact withSize?_eq rfl
  | colorspace conversion => cases conversion <;> rfl
  | crop => exact ofDumped?_crop rfl
  | pixelate => exact ofDumped?_pixelate rfl
  | neighbourhood => exact ofDumped?_local rfl
  | edge | emboss | flipHorizontal | flipVertical | grayscale | invert | rotate90 | rotate180
  | rotate270 | sobel | transpose | transverse => rfl

end Operation

/-! ## Pipelines -/

namespace Pipeline

/-- The numbers that the operations of a pipeline hold. -/
def numbers (p : Pipeline) : List Float32 := p.ops.flatMap Operation.numbers

/-- What a dump is read as. -/
theorem ofChars?_dump {p : Pipeline} (h : Operation.FiniteReadBack p.numbers) :
    Json.ofChars? p.dump.toList = some (.array (p.ops.map Operation.reread)) := by
  rw [dump, String.toList_ofList]
  by_cases hempty : p.ops = []
  · rw [hempty]
    rfl
  · exact (Json.readsAs_array hempty fun op hop =>
      op.readsAs_toJson fun x hx => h x (List.mem_flatMap.mpr ⟨op, hop, hx⟩)).ofChars?

/-- A dump is read back exactly if all numbers are finite. -/
theorem ofDump?_eq {p : Pipeline} (h : Operation.FiniteReadBack p.numbers) :
    ofDump? p.dump = if p.numbers.all Float32.isFinite then some p else none := by
  have hops : ∀ op ∈ p.ops, Operation.FiniteReadBack op.numbers := fun op hop x hx =>
    h x (List.mem_flatMap.mpr ⟨op, hop, hx⟩)
  have hitems := mapM_guarded (p := fun op : Operation => op.numbers.all Float32.isFinite)
    fun op hop => Operation.ofJson?_reread (hops op hop)
  have hall : (p.ops.all fun op => op.numbers.all Float32.isFinite) =
      p.numbers.all Float32.isFinite := by
    rw [numbers, List.all_flatMap]
  rw [ofDump?, ofChars?_dump h]
  simp only [hitems, hall]
  cases p.numbers.all Float32.isFinite <;> rfl

/--
**A dumped pipeline is read back unless it holds a number that is not finite.**
Let every finite number in it be read from its text as what it is. Then the dump
is read as the same pipeline if and only if all its numbers are finite; if one is
not, it is read as no pipeline; and in no case as another one.
-/
theorem ofDump?_dump (p : Pipeline)
    (h : ∀ x ∈ p.numbers, x.isFinite = true → Json.ReadsBack x) :
    (ofDump? p.dump = some p ↔ ∀ x ∈ p.numbers, x.isFinite = true)
      ∧ ((∃ x ∈ p.numbers, x.isFinite = false) → ofDump? p.dump = none)
      ∧ ∀ q, ofDump? p.dump = some q → q = p := by
  rw [ofDump?_eq h]
  cases hall : p.numbers.all Float32.isFinite with
  | true =>
      have hfinite := List.all_eq_true.mp hall
      refine ⟨iff_of_true rfl hfinite, ?_, ?_⟩
      · rintro ⟨x, hx, hxfinite⟩
        rw [hfinite x hx] at hxfinite
        cases hxfinite
      · intro q hq
        exact (Option.some.inj hq).symm
  | false =>
      obtain ⟨x, hx, hxfinite⟩ := List.all_eq_false.mp hall
      refine ⟨iff_of_false (by simp) fun hfinite => hxfinite (hfinite x hx), fun _ => rfl, ?_⟩
      intro q hq
      cases hq

/-- Numbers that are no short decimals are read back; a gamma that is not a number is not. -/
theorem ofDump?_dump_gamma :
    ofDump? (dump ⟨[.blur 0.3, .rotate 1e-7, .neighbourhood .median 3]⟩) =
        some ⟨[.blur 0.3, .rotate 1e-7, .neighbourhood .median 3]⟩
      ∧ ofDump? (dump ⟨[.blur 0.3, .gamma (0 / 0)]⟩) = none := by
  have hblur : Json.ReadsBack 0.3 ∧ (0.3 : Float32).isFinite = true := by decide +kernel
  have hrotate : Json.ReadsBack 1e-7 ∧ (1e-7 : Float32).isFinite = true := by decide +kernel
  have hgamma : (0 / 0 : Float32).isFinite = false := by decide +kernel
  refine ⟨?_, ?_⟩
  · have hnumbers : numbers ⟨[.blur 0.3, .rotate 1e-7, .neighbourhood .median 3]⟩ = [0.3, 1e-7] :=
      rfl
    refine (ofDump?_dump _ ?_).1.mpr ?_
    · rw [hnumbers]
      simp [hblur, hrotate]
    · rw [hnumbers]
      simp [hblur, hrotate]
  · have hnumbers : numbers ⟨[.blur 0.3, .gamma (0 / 0)]⟩ = [0.3, 0 / 0] := rfl
    refine (ofDump?_dump _ ?_).2.1 ⟨0 / 0, ?_, hgamma⟩
    · rw [hnumbers]
      simp [hblur, hgamma]
    · rw [hnumbers]
      simp

end Pipeline

end RasterScript
