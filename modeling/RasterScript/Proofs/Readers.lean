import RasterScript.Proofs.CommandTable

/-!
# What the readers of arguments make

The thirty-four readers of the standard table are of eleven kinds. `Reader` lists
them, each with the number of fields that it reads and with what is known of the
operations it makes, and `reads_standard` goes through the table once. What holds
of every standard command is then a case analysis over eleven kinds:

* the operations that a command makes are in their **documented range**, so no
  NaN and no number beyond the bounds gets past it (`Reads.makes`);
* a command does not look at fields beyond those that it asks for
  (`Reads.check_congr`).
-/

namespace RasterScript

/-- A number that is one, and is between two bounds. -/
structure Within (x lo hi : Float32) : Prop where
  isNumber : x.isNaN = false
  low : lo ≤ x
  high : x ≤ hi

/--
The documented range of an operation. A turn by a quarter, a half or three
quarters is an operation of its own and not a turn by some angle.
-/
def Operation.InRange : Operation → Prop
  | brightness percent | contrast percent => Within percent (-100) 100
  | saturation percent => Within percent (-100) 500
  | hue shift => Within shift (-180) 180
  | opacity percent | sepia percent | threshold percent => Within percent 0 100
  | neighbourhood _ size => 1 ≤ size.toInt
  | rotate degrees =>
    degrees.isNaN = false ∧ 0 < degrees ∧ degrees ≤ 360
      ∧ degrees != 90 ∧ degrees != 180 ∧ degrees != 270
  | _ => True

/-! ## The order of machine numbers -/

section Order

open Float.Model

theorem compare_swap (a b : UnpackedFloat) :
    b.compare a = (a.compare b).map Ordering.swap := by
  have hnat : ∀ m n : Nat, compare n m = (compare m n).swap := fun _ _ => Std.OrientedCmp.eq_swap
  have hint : ∀ m n : Int, compare n m = (compare m n).swap := fun _ _ => Std.OrientedCmp.eq_swap
  rcases a with (_ | _) | _ | _ | ⟨(_ | _), m, e, hm⟩ <;>
    rcases b with (_ | _) | _ | _ | ⟨(_ | _), n, f, hn⟩ <;> try rfl
  all_goals
    simp only [UnpackedFloat.compare, Option.map_some]
    rw [hnat m n, hint e f]
    simp [Ordering.swap_then]

theorem not_lt_of_le {a b : Float32} (h : a ≤ b) : ¬ b < a := by
  have hle : (a.toModel.unpack.compare b.toModel.unpack).any (·.isLE) = true :=
    of_decide_eq_true h
  intro hlt
  have hlt : (b.toModel.unpack.compare a.toModel.unpack == some .lt) = true :=
    of_decide_eq_true hlt
  rw [compare_swap] at hlt
  cases hc : a.toModel.unpack.compare b.toModel.unpack with
  | none => rw [hc] at hle; exact absurd hle (by simp)
  | some order =>
      rw [hc] at hle hlt
      cases order <;> simp at hle hlt

/-- What is compared with success is a number. -/
theorem isNaN_of_le {a b : Float32} (h : a ≤ b) : a.isNaN = false ∧ b.isNaN = false := by
  have hle : (a.toModel.unpack.compare b.toModel.unpack).any (·.isLE) = true :=
    of_decide_eq_true h
  show a.toModel.unpack.isNaN = false ∧ b.toModel.unpack.isNaN = false
  cases ha : a.toModel.unpack with
  | notANumber => rw [ha] at hle; cases hle
  | _ =>
      cases hb : b.toModel.unpack with
      | notANumber => rw [ha, hb] at hle; cases hle
      | _ => exact ⟨rfl, rfl⟩

theorem Within.of_le {x lo hi : Float32} (hlow : lo ≤ x) (hhigh : x ≤ hi) : Within x lo hi :=
  ⟨(isNaN_of_le hlow).2, hlow, hhigh⟩

end Order

/-! ## The kinds of readers -/

namespace Arguments

/--
How a reader of `least` fields is made, if all operations that it makes have a
property.
-/
inductive Reader (P : Operation → Prop) : (least : Nat) → ArgumentReader → Prop where
  | plain {op : Operation} : P op → Reader P 0 (plain op)
  | one {make : Float32 → Operation} : (∀ x, P (make x)) → Reader P 1 (one make)
  | two {make : Float32 → Float32 → Operation} : (∀ x y, P (make x y)) → Reader P 2 (two make)
  | three {make : Float32 → Float32 → Float32 → Operation} :
      (∀ x y z, P (make x y z)) → Reader P 3 (three make)
  | within {lo hi : Float32} {make : Float32 → Operation} :
      (∀ x, Within x lo hi → P (make x)) → Reader P 1 (within lo hi make)
  | count {make : Int32 → Operation} : (∀ n, P (make n)) → Reader P 1 (count make)
  | size {make : Int32 → Int32 → Operation} : (∀ n m, P (make n m)) → Reader P 2 (size make)
  | corners : (∀ x1 y1 x2 y2, P (.crop x1 y1 x2 y2)) → Reader P 4 corners
  | neighbourhood {statistic : Statistic} :
      (∀ n : Int32, 1 ≤ n.toInt → P (.neighbourhood statistic n)) →
      Reader P 1 (neighbourhood statistic)
  | colorspace : (∀ conversion, P (.colorspace conversion)) → Reader P 1 colorspace
  | angle : P .rotate90 → P .rotate180 → P .rotate270 →
      (∀ x, (Operation.rotate x).InRange → P (.rotate x)) → Reader P 1 angle

section Kinds

variable {P : Operation → Prop} {least : Nat} {reader : ArgumentReader}
variable {args args' : List String}

theorem ranged_within {index : Nat} {lo hi x : Float32}
    (h : ranged args index lo hi = .ok x) : Within x lo hi := by
  obtain ⟨value, -, hrange⟩ := bind_ok h
  split at hrange
  next hbounds =>
    cases hrange
    exact .of_le hbounds.1 hbounds.2
  next => cases hrange

theorem neighbourhood_ok {statistic : Statistic} {op : Operation}
    (h : neighbourhood statistic args = .ok (some op)) :
    ∃ n : Int32, 1 ≤ n.toInt ∧ op = .neighbourhood statistic n := by
  obtain ⟨n, -, hmade⟩ := bind_ok h
  split at hmade
  next => cases hmade
  next hpos =>
    cases hmade
    rw [Int32.le_iff_toInt_le, Int32.toInt_zero] at hpos
    exact ⟨n, by omega, rfl⟩

theorem colorspace_ok {op : Operation} (h : colorspace args = .ok (some op)) :
    ∃ conversion, op = .colorspace conversion := by
  obtain ⟨word, -, hmade⟩ := bind_ok h
  split at hmade
  next => cases hmade; exact ⟨_, rfl⟩
  split at hmade
  next => cases hmade; exact ⟨_, rfl⟩
  next => cases hmade

/-- A quarter, a half and three quarters are told apart from the other angles. -/
theorem angle_ok {op : Operation} (h : angle args = .ok (some op)) :
    op = .rotate90 ∨ op = .rotate180 ∨ op = .rotate270
      ∨ ∃ degrees, op = .rotate degrees ∧ op.InRange := by
  obtain ⟨degrees, -, hmade⟩ := bind_ok h
  split at hmade
  next hturn =>
    split at hmade
    next => cases hmade; exact .inl rfl
    next h90 =>
      split at hmade
      next => cases hmade; exact .inr (.inl rfl)
      next h180 =>
        split at hmade
        next => cases hmade; exact .inr (.inr (.inl rfl))
        next h270 =>
          cases hmade
          refine .inr (.inr (.inr ⟨degrees, rfl, ?_, hturn.1, hturn.2, ?_⟩))
          · exact (isNaN_of_le hturn.2).1
          · simp [bne, h90, h180, h270]
  next => cases hmade

/-- **A reader makes what its kind makes.** -/
theorem Reader.makes (h : Reader P least reader) {op : Operation}
    (hop : reader args = .ok (some op)) : P op := by
  cases h with
  | plain hmake => cases hop; exact hmake
  | one hmake =>
      obtain ⟨x, -, hop⟩ := bind_ok hop
      cases hop
      exact hmake x
  | two hmake =>
      obtain ⟨x, -, hop⟩ := bind_ok hop
      obtain ⟨y, -, hop⟩ := bind_ok hop
      cases hop
      exact hmake x y
  | three hmake =>
      obtain ⟨x, -, hop⟩ := bind_ok hop
      obtain ⟨y, -, hop⟩ := bind_ok hop
      obtain ⟨z, -, hop⟩ := bind_ok hop
      cases hop
      exact hmake x y z
  | within hmake =>
      obtain ⟨x, hx, hop⟩ := bind_ok hop
      cases hop
      exact hmake x (ranged_within hx)
  | count hmake =>
      obtain ⟨n, -, hop⟩ := bind_ok hop
      cases hop
      exact hmake n
  | size hmake =>
      obtain ⟨n, -, hop⟩ := bind_ok hop
      obtain ⟨m, -, hop⟩ := bind_ok hop
      cases hop
      exact hmake n m
  | corners hmake =>
      obtain ⟨x1, -, hop⟩ := bind_ok hop
      obtain ⟨y1, -, hop⟩ := bind_ok hop
      obtain ⟨x2, -, hop⟩ := bind_ok hop
      obtain ⟨y2, -, hop⟩ := bind_ok hop
      cases hop
      exact hmake x1 y1 x2 y2
  | neighbourhood hmake =>
      obtain ⟨n, hn, rfl⟩ := neighbourhood_ok hop
      exact hmake n hn
  | colorspace hmake =>
      obtain ⟨conversion, rfl⟩ := colorspace_ok hop
      exact hmake conversion
  | angle h90 h180 h270 hmake =>
      obtain rfl | rfl | rfl | ⟨degrees, rfl, hrange⟩ := angle_ok hop
      · exact h90
      · exact h180
      · exact h270
      · exact hmake degrees hrange

/-- The first fields of two lines are the same if each of the first fields is. -/
theorem field_congr (h : args'.take least = args.take least) {index : Nat} (hi : index < least) :
    field args' index = field args index := by
  have hget : args'[index]? = args[index]? := by
    rw [← List.getElem?_take_of_lt hi, h, List.getElem?_take_of_lt hi]
  rw [field, field, hget]

/-- **A reader looks at no more fields than its kind does.** -/
theorem Reader.congr (h : Reader P least reader) (hsame : args'.take least = args.take least) :
    reader args' = reader args := by
  have hfield : ∀ index, index < least → field args' index = field args index :=
    fun _ hi => field_congr hsame hi
  have hnumber : ∀ index, index < least → number args' index = number args index := by
    intro index hi
    rw [number, number, hfield index hi]
  have hinteger : ∀ index, index < least → integer args' index = integer args index := by
    intro index hi
    rw [integer, integer, hfield index hi]
  cases h with
  | plain => rfl
  | one => rw [Arguments.one, Arguments.one, hnumber 0 (by omega)]
  | two => rw [Arguments.two, Arguments.two, hnumber 0 (by omega), hnumber 1 (by omega)]
  | three =>
      rw [Arguments.three, Arguments.three, hnumber 0 (by omega), hnumber 1 (by omega),
        hnumber 2 (by omega)]
  | within => rw [Arguments.within, Arguments.within, ranged, ranged, hnumber 0 (by omega)]
  | count => rw [Arguments.count, Arguments.count, hinteger 0 (by omega)]
  | size => rw [Arguments.size, Arguments.size, hinteger 0 (by omega), hinteger 1 (by omega)]
  | corners =>
      rw [Arguments.corners, Arguments.corners, hinteger 0 (by omega), hinteger 1 (by omega),
        hinteger 2 (by omega), hinteger 3 (by omega)]
  | neighbourhood => rw [Arguments.neighbourhood, Arguments.neighbourhood, hinteger 0 (by omega)]
  | colorspace => rw [Arguments.colorspace, Arguments.colorspace, hfield 0 (by omega)]
  | angle => rw [Arguments.angle, Arguments.angle, hnumber 0 (by omega)]

end Kinds

end Arguments

/-! ## The table -/

namespace Command

/-- A command reads its arguments in one of these ways, or is a directive; a path is an argument. -/
def Reads (P : Operation → Prop) (c : Command) : Prop :=
  match c.action with
  | .transform reader => Arguments.Reader P c.minArgs reader
  | .directive directive => directive = .read → c.minArgs = 1

theorem reads_transform {P : Operation → Prop} {name usage : String} {aliases : List String}
    {least : Nat} {reader : ArgumentReader} (h : Arguments.Reader P least reader) :
    (transform name aliases least usage reader).Reads P := h

theorem reads_ofDirective {P : Operation → Prop} {name usage : String} {aliases : List String}
    {least : Nat} {directive : Directive} (h : directive = .read → least = 1) :
    (ofDirective name aliases least usage directive).Reads P := h

/-- Every standard command reads its arguments and makes operations in their range. -/
theorem reads_standard : ∀ c ∈ standard, c.Reads Operation.InRange := by
  simp only [standard, List.forall_mem_cons]
  refine ⟨
    reads_transform (.one fun _ => trivial),  -- blur
    reads_transform (.within fun _ => id),  -- brightness
    reads_transform (.three fun _ _ _ => trivial),  -- colorbalance
    reads_transform (.three fun _ _ _ => trivial),  -- colorize
    reads_transform (.colorspace fun _ => trivial),
    reads_transform (.within fun _ => id),  -- contrast
    reads_transform (.corners fun _ _ _ _ => trivial),
    reads_transform (.size fun _ _ => trivial),  -- cropsize
    reads_transform (.plain trivial),  -- edge
    reads_transform (.plain trivial),  -- emboss
    reads_transform (.plain trivial),  -- fliph
    reads_transform (.plain trivial),  -- flipv
    reads_transform (.one fun _ => trivial),  -- gamma
    reads_transform (.plain trivial),  -- gray
    reads_transform (.within fun _ => id),  -- hue
    reads_transform (.plain trivial),  -- invert
    reads_transform (.neighbourhood fun _ => id),  -- max
    reads_transform (.neighbourhood fun _ => id),  -- mean
    reads_transform (.neighbourhood fun _ => id),  -- median
    reads_transform (.neighbourhood fun _ => id),  -- min
    reads_transform (.within fun _ => id),  -- opacity
    reads_transform (.count fun _ => trivial),  -- pixelate
    reads_transform (.size fun _ _ => trivial),  -- resize
    reads_transform (.size fun _ _ => trivial),  -- resizefill
    reads_transform (.size fun _ _ => trivial),  -- resizefit
    reads_transform (.angle trivial trivial trivial fun _ => id),
    reads_transform (.within fun _ => id),  -- saturation
    reads_transform (.within fun _ => id),  -- sepia
    reads_transform (.two fun _ _ => trivial),  -- sigmoid
    reads_transform (.plain trivial),  -- sobel
    reads_transform (.within fun _ => id),  -- threshold
    reads_transform (.plain trivial),  -- transpose
    reads_transform (.plain trivial),  -- transverse
    reads_transform (.three fun _ _ _ => trivial),  -- unsharp
    reads_ofDirective fun _ => rfl,  -- read
    reads_ofDirective (by simp), reads_ofDirective (by simp), reads_ofDirective (by simp), ?_⟩
  intro c hc
  cases hc

section Reads

variable {P : Operation → Prop} {c : Command} {args args' : List String}

theorem Reads.makes (h : c.Reads P) {op : Operation} (hop : c.check args = .ok (some op)) :
    P op := by
  unfold check at hop
  unfold Reads at h
  split at hop
  next => cases hop
  next =>
    cases haction : c.action with
    | directive directive =>
        rw [haction] at hop
        cases hop
    | transform reader =>
        rw [haction] at hop h
        exact h.makes hop

/-- What a command makes of its arguments does not depend on those that it does not ask for. -/
theorem Reads.check_congr (h : c.Reads P) (hsame : args'.take c.minArgs = args.take c.minArgs) :
    c.check args' = c.check args := by
  unfold check
  unfold Reads at h
  -- too few arguments are the same arguments
  have hlength : min c.minArgs args'.length = min c.minArgs args.length := by
    rw [← List.length_take, ← List.length_take, hsame]
  by_cases hfew : args.length < c.minArgs
  · have hfew' : args'.length < c.minArgs := by omega
    rw [if_pos hfew, if_pos hfew', show args'.length = args.length by omega]
  · rw [if_neg hfew, if_neg (by omega)]
    cases haction : c.action with
    | directive directive => rfl
    | transform reader =>
        rw [haction] at h
        exact h.congr hsame

end Reads

end Command

/-- **Lines add operations in their documented range.** -/
theorem Registry.inRange_of_judge {text : String} {op : Operation}
    (h : standard.judge text = .append op) : op.InRange := by
  unfold judge at h
  split at h
  next => cases h
  next => cases h
  next name args hline =>
    split at h
    next => cases h
    next c hfound =>
      split at h
      next => cases h
      next op' hcheck =>
        cases h
        exact (Command.reads_standard c (mem_of_resolve?_standard hfound)).makes hcheck
      next => cases h
      next => cases h

end RasterScript
