import RasterScript.Proofs.LineText
import RasterScript.Proofs.Verdict

/-!
# What the standard commands read back

The table of commands and the texts of operations are written down apart from each
other: one says which arguments a name takes and what they make, the other how an
operation is printed. This file shows that they agree. Whatever operation a
standard command makes, from whatever arguments, the printed form of that
operation names the same command and gives it arguments that make the same
operation again (`judge_text`).

The agreement is a property of the readers of arguments, **`Echoes`**, and is
proved once for each kind of reader. Finding the command is a matter of names: no
two standard commands share one, so sorting the table cannot hide any of them.
-/

namespace RasterScript

/-! ## Readers that take back what they made -/

namespace Arguments

theorem bind_ok {α β : Type} {first : Except Reason α} {next : α → Except Reason β} {b : β}
    (h : (first >>= next) = .ok b) : ∃ a, first = .ok a ∧ next a = .ok b := by
  cases first with
  | error reason => cases h
  | ok a => exact ⟨a, rfl, h⟩

variable {args : List String} {index : Nat}

theorem number_text {x : Float32} (h : args[index]? = some (Single.text x)) :
    number args index = .ok x := by
  rw [number, field, h]
  exact congrArg Except.ok (Single.ofText_text x)

theorem integer_text {n : Int32} (h : args[index]? = some (Integer.text n.toInt)) :
    integer args index = .ok n := by
  simp only [integer, field, h, bind, Except.bind, Integer.ofText?_text]

theorem ranged_ok {lo hi x : Float32} (h : ranged args index lo hi = .ok x) :
    number args index = .ok x := by
  obtain ⟨value, hvalue, hrange⟩ := bind_ok h
  split at hrange
  next =>
    cases hrange
    exact hvalue
  next => cases hrange

/--
The operations that a reader makes are printed as the command `name` with at least `least`
arguments, and the reader takes these arguments for the same operation.
-/
def Echoes (name : String) (least : Nat) (reader : ArgumentReader) : Prop :=
  ∀ args op, reader args = .ok (some op) →
    op.kind.command = name ∧ least ≤ op.params.length ∧
      reader (op.params.map Param.text) = .ok (some op)

/-- An operation is listed as a command with some arguments. -/
def Prints (op : Operation) (name : String) (params : List Param) : Prop :=
  op.kind.command = name ∧ op.params = params

section Families

variable {name : String}

theorem echoes_plain {op : Operation} (h : Prints op name []) : Echoes name 0 (plain op) := by
  intro args made hmade
  cases hmade
  exact ⟨h.1, Nat.zero_le _, rfl⟩

theorem echoes_one {make : Float32 → Operation} (h : ∀ x, Prints (make x) name [.number x]) :
    Echoes name 1 (one make) := by
  intro args op hop
  obtain ⟨x, -, hx⟩ := bind_ok hop
  cases hx
  refine ⟨(h x).1, by simp [(h x).2], ?_⟩
  rw [(h x).2, one, number_text (x := x) rfl]
  rfl

theorem echoes_two {make : Float32 → Float32 → Operation}
    (h : ∀ x y, Prints (make x y) name [.number x, .number y]) : Echoes name 2 (two make) := by
  intro args op hop
  obtain ⟨x, -, hop⟩ := bind_ok hop
  obtain ⟨y, -, hop⟩ := bind_ok hop
  cases hop
  refine ⟨(h x y).1, by simp [(h x y).2], ?_⟩
  rw [(h x y).2, two, number_text (x := x) rfl, number_text (x := y) rfl]
  rfl

theorem echoes_three {make : Float32 → Float32 → Float32 → Operation}
    (h : ∀ x y z, Prints (make x y z) name [.number x, .number y, .number z]) :
    Echoes name 3 (three make) := by
  intro args op hop
  obtain ⟨x, -, hop⟩ := bind_ok hop
  obtain ⟨y, -, hop⟩ := bind_ok hop
  obtain ⟨z, -, hop⟩ := bind_ok hop
  cases hop
  refine ⟨(h x y z).1, by simp [(h x y z).2], ?_⟩
  rw [(h x y z).2, three, number_text (x := x) rfl, number_text (x := y) rfl,
    number_text (x := z) rfl]
  rfl

theorem echoes_within {lo hi : Float32} {make : Float32 → Operation}
    (h : ∀ x, Prints (make x) name [.number x]) : Echoes name 1 (within lo hi make) := by
  intro args op hop
  obtain ⟨x, hranged, hmade⟩ := bind_ok hop
  cases hmade
  -- the bounds were checked when the number was read, and are checked again
  have hagain : number ([Param.number x].map Param.text) 0 = number args 0 :=
    (number_text rfl).trans (ranged_ok hranged).symm
  refine ⟨(h x).1, by simp [(h x).2], ?_⟩
  rw [(h x).2, within, ranged, hagain]
  exact hop

theorem echoes_count {make : Int32 → Operation} (h : ∀ n, Prints (make n) name [.integer n]) :
    Echoes name 1 (count make) := by
  intro args op hop
  obtain ⟨n, -, hop⟩ := bind_ok hop
  cases hop
  refine ⟨(h n).1, by simp [(h n).2], ?_⟩
  rw [(h n).2, count, integer_text (n := n) rfl]
  rfl

theorem echoes_size {make : Int32 → Int32 → Operation}
    (h : ∀ n m, Prints (make n m) name [.integer n, .integer m]) : Echoes name 2 (size make) := by
  intro args op hop
  obtain ⟨n, -, hop⟩ := bind_ok hop
  obtain ⟨m, -, hop⟩ := bind_ok hop
  cases hop
  refine ⟨(h n m).1, by simp [(h n m).2], ?_⟩
  rw [(h n m).2, size, integer_text (n := n) rfl, integer_text (n := m) rfl]
  rfl

theorem echoes_corners : Echoes "crop" 4 corners := by
  intro args op hop
  obtain ⟨x1, -, hop⟩ := bind_ok hop
  obtain ⟨y1, -, hop⟩ := bind_ok hop
  obtain ⟨x2, -, hop⟩ := bind_ok hop
  obtain ⟨y2, -, hop⟩ := bind_ok hop
  cases hop
  refine ⟨rfl, Nat.le_refl 4, ?_⟩
  rw [corners, integer_text (n := x1) rfl, integer_text (n := y1) rfl,
    integer_text (n := x2) rfl, integer_text (n := y2) rfl]
  rfl

theorem echoes_neighbourhood (statistic : Statistic) :
    Echoes statistic.kind.command 1 (neighbourhood statistic) := by
  intro args op hop
  obtain ⟨n, hinteger, hmade⟩ := bind_ok hop
  split at hmade
  next => cases hmade
  next =>
    cases hmade
    have hagain : integer ([Param.integer n].map Param.text) 0 = integer args 0 :=
      (integer_text rfl).trans hinteger.symm
    refine ⟨rfl, Nat.le_refl 1, ?_⟩
    show neighbourhood statistic ([Param.integer n].map Param.text) = _
    rw [neighbourhood, hagain]
    exact hop

theorem echoes_colorspace : Echoes "colorspace" 1 colorspace := by
  intro args op hop
  obtain ⟨word, -, hop⟩ := bind_ok hop
  split at hop
  next => cases hop; exact ⟨rfl, Nat.le_refl 1, rfl⟩
  split at hop
  next => cases hop; exact ⟨rfl, Nat.le_refl 1, rfl⟩
  next => cases hop

theorem eq_of_beq_of_ne_zero {x y : Float32} (hy : y ≠ 0 ∧ y ≠ -0) (h : (x == y) = true) :
    x = y := by
  obtain ⟨-, -, heq | ⟨-, hzero⟩ | ⟨-, hzero⟩⟩ := Float32.beq_iff_ne_nan_and_eq.mp h
  · exact heq
  · exact absurd hzero hy.2
  · exact absurd hzero hy.1

theorem echoes_angle : Echoes "rotate" 1 angle := by
  intro args op hop
  obtain ⟨degrees, hnumber, hmade⟩ := bind_ok hop
  -- a quarter turn does not keep its angle, but it is printed with the one that was read
  have hprints : Prints op "rotate" [.number degrees] := by
    split at hmade
    next =>
      split at hmade
      next h90 =>
        cases hmade
        obtain rfl := eq_of_beq_of_ne_zero (by decide +kernel) h90
        exact ⟨rfl, rfl⟩
      split at hmade
      next h180 =>
        cases hmade
        obtain rfl := eq_of_beq_of_ne_zero (by decide +kernel) h180
        exact ⟨rfl, rfl⟩
      split at hmade
      next h270 =>
        cases hmade
        obtain rfl := eq_of_beq_of_ne_zero (by decide +kernel) h270
        exact ⟨rfl, rfl⟩
      next =>
        cases hmade
        exact ⟨rfl, rfl⟩
    next => cases hmade
  have hagain : number ([Param.number degrees].map Param.text) 0 = number args 0 :=
    (number_text rfl).trans hnumber.symm
  refine ⟨hprints.1, by simp [hprints.2], ?_⟩
  rw [hprints.2, angle, hagain]
  exact hop

end Families

end Arguments

/-! ## The table -/

namespace Command

open Arguments

/-- The operations that a command makes are printed as that command, and taken back by it. -/
def Echoes (c : Command) : Prop :=
  match c.action with
  | .transform reader => Arguments.Echoes c.name c.minArgs reader
  | .directive _ => True

theorem echoes_transform {name usage : String} {aliases : List String} {least : Nat}
    {reader : ArgumentReader} (h : Arguments.Echoes name least reader) :
    (transform name aliases least usage reader).Echoes := h

theorem echoes_ofDirective {name usage : String} {aliases : List String} {least : Nat}
    {directive : Directive} : (ofDirective name aliases least usage directive).Echoes := trivial

/-- Every standard command takes back what it makes. -/
theorem echoes_standard : ∀ c ∈ standard, c.Echoes := by
  have prints : ∀ {op : Operation}, Prints op op.kind.command op.params := ⟨rfl, rfl⟩
  simp only [standard, List.forall_mem_cons]
  refine ⟨
    echoes_transform (echoes_one fun _ => prints),  -- blur
    echoes_transform (echoes_within fun _ => prints),  -- brightness
    echoes_transform (echoes_three fun _ _ _ => prints),  -- colorbalance
    echoes_transform (echoes_three fun _ _ _ => prints),  -- colorize
    echoes_transform echoes_colorspace,
    echoes_transform (echoes_within fun _ => prints),  -- contrast
    echoes_transform echoes_corners,
    echoes_transform (echoes_size fun _ _ => prints),  -- cropsize
    echoes_transform (echoes_plain prints),  -- edge
    echoes_transform (echoes_plain prints),  -- emboss
    echoes_transform (echoes_plain prints),  -- fliph
    echoes_transform (echoes_plain prints),  -- flipv
    echoes_transform (echoes_one fun _ => prints),  -- gamma
    echoes_transform (echoes_plain prints),  -- gray
    echoes_transform (echoes_within fun _ => prints),  -- hue
    echoes_transform (echoes_plain prints),  -- invert
    echoes_transform (echoes_neighbourhood .maximum),
    echoes_transform (echoes_neighbourhood .mean),
    echoes_transform (echoes_neighbourhood .median),
    echoes_transform (echoes_neighbourhood .minimum),
    echoes_transform (echoes_within fun _ => prints),  -- opacity
    echoes_transform (echoes_count fun _ => prints),  -- pixelate
    echoes_transform (echoes_size fun _ _ => prints),  -- resize
    echoes_transform (echoes_size fun _ _ => prints),  -- resizefill
    echoes_transform (echoes_size fun _ _ => prints),  -- resizefit
    echoes_transform echoes_angle,
    echoes_transform (echoes_within fun _ => prints),  -- saturation
    echoes_transform (echoes_within fun _ => prints),  -- sepia
    echoes_transform (echoes_two fun _ _ => prints),  -- sigmoid
    echoes_transform (echoes_plain prints),  -- sobel
    echoes_transform (echoes_within fun _ => prints),  -- threshold
    echoes_transform (echoes_plain prints),  -- transpose
    echoes_transform (echoes_plain prints),  -- transverse
    echoes_transform (echoes_three fun _ _ _ => prints),  -- unsharp
    echoes_ofDirective, echoes_ofDirective, echoes_ofDirective, echoes_ofDirective, ?_⟩
  intro c hc
  cases hc

/-- What a standard command makes, it makes again from the printed arguments. -/
theorem check_params {c : Command} (hc : c ∈ standard) {args : List String} {op : Operation}
    (h : c.check args = .ok (some op)) :
    op.kind.command = c.name ∧ c.check (op.params.map Param.text) = .ok (some op) := by
  have hechoes := echoes_standard c hc
  unfold check at h ⊢
  unfold Echoes at hechoes
  split at h
  next => cases h
  next =>
    cases haction : c.action with
    | directive directive =>
        rw [haction] at h
        cases h
    | transform reader =>
        rw [haction] at h hechoes
        obtain ⟨hname, hleast, hread⟩ := hechoes args op h
        refine ⟨hname, ?_⟩
        rw [if_neg (by rw [List.length_map]; omega)]
        exact hread

end Command

/-! ## Finding a command -/

namespace RegistryBuilder

/-- Commands of different names are all kept, in order. -/
theorem extend_append {added : List Command} :
    ∀ {commands : List Command}, ((commands ++ added).map Command.name).Nodup →
      (RegistryBuilder.mk commands).extend added = ⟨commands ++ added⟩ := by
  induction added with
  | nil =>
      intro commands _
      rw [List.append_nil]
      rfl
  | cons c added ih =>
      intro commands hnodup
      rw [List.append_cons] at hnodup ⊢
      have hother : ∀ d ∈ commands, d.name ≠ c.name := by
        intro d hd heq
        rw [List.map_append, List.map_append, List.append_assoc] at hnodup
        have := (List.nodup_append.mp hnodup).2.2 d.name (List.mem_map_of_mem hd) c.name (by simp)
        exact this heq
      -- a new name replaces nothing, so the command goes to the end
      have hinsert : (RegistryBuilder.mk commands).insert c = ⟨commands ++ [c]⟩ := by
        rw [insert, remove, List.filter_eq_self.mpr (by simpa using hother)]
      show ((RegistryBuilder.mk commands).insert c).extend added = _
      rw [hinsert]
      exact ih hnodup

end RegistryBuilder

namespace Registry

theorem nodup_names : (Command.standard.flatMap Command.names).Nodup := by decide +kernel

theorem mem_standard (c : Command) : c ∈ standard.commands ↔ c ∈ Command.standard := by
  have hnames : (Command.standard.map Command.name).Nodup := by decide +kernel
  have hextend : (RegistryBuilder.mk []).extend Command.standard = ⟨[] ++ Command.standard⟩ :=
    RegistryBuilder.extend_append hnames
  rw [standard, show RegistryBuilder.empty = ⟨[]⟩ from rfl, hextend]
  exact (List.mergeSort_perm ..).mem_iff

/-- A standard command is found under each of its names. -/
theorem resolve?_standard {c : Command} (hc : c ∈ Command.standard) {name : String}
    (h : name ∈ c.names) : standard.resolve? name = some c := by
  have hanswers : c.answersTo name = true := by simpa [Command.answersTo] using h
  have hunique : ∀ d ∈ standard.commands, d.answersTo name = true → d = c := by
    intro d hd hname
    -- two commands that answer to one name would not have disjoint names
    by_contra hne
    have : Std.Symm (Function.onFun List.Disjoint Command.names) :=
      ⟨fun _ _ hab => List.Disjoint.symm hab⟩
    have hdisjoint := (List.nodup_flatMap.mp nodup_names).2.forall ((mem_standard d).mp hd) hc hne
    exact hdisjoint (by simpa [Command.answersTo] using hname) h
  unfold resolve?
  cases hfound : standard.commands.reverse.find? fun d => d.answersTo name with
  | none =>
      have hmem := List.mem_reverse.mpr ((mem_standard c).mpr hc)
      exact absurd hanswers (List.find?_eq_none.mp hfound c hmem)
  | some d =>
      have hmem := List.mem_reverse.mp (List.mem_of_find?_eq_some hfound)
      rw [hunique d hmem (by simpa using List.find?_some hfound)]

theorem resolve?_standard_none {name : String} (h : ∀ c ∈ Command.standard, name ∉ c.names) :
    standard.resolve? name = none := by
  refine List.find?_eq_none.mpr fun c hc hanswers => ?_
  exact h c ((mem_standard c).mp (List.mem_reverse.mp hc)) (by
    simpa [Command.answersTo] using hanswers)

theorem mem_of_resolve?_standard {name : String} {c : Command}
    (h : standard.resolve? name = some c) : c ∈ Command.standard :=
  (mem_standard c).mp (List.mem_reverse.mp (List.mem_of_find?_eq_some h))

/-- **Whatever a standard command makes is printed as a line that makes it again.** -/
theorem judge_text {c : Command} (hc : c ∈ Command.standard) {args : List String} {op : Operation}
    (h : c.check args = .ok (some op)) : standard.judge op.text = .append op := by
  obtain ⟨hname, hcheck⟩ := Command.check_params hc h
  have hfound : standard.resolve? op.kind.command = some c :=
    resolve?_standard hc (by simp [Command.names, hname])
  simp only [judge, Operation.ofText_text, hfound, hcheck]

/-- Lines add operations that are printed as lines that add them. -/
theorem judge_text_of_judge {text : String} {op : Operation}
    (h : standard.judge text = .append op) : standard.judge op.text = .append op := by
  unfold judge at h
  split at h
  next => cases h
  next => cases h
  next name args hline =>
    split at h
    next => cases h
    next c hfound =>
      split at h
      next => cases h
      next op' hcheck =>
        cases h
        exact judge_text (mem_of_resolve?_standard hfound) hcheck
      next => cases h
      next => cases h

end Registry

end RasterScript
