import Mathlib.Data.List.DropRight
import Mathlib.Data.List.Forall2
import RasterScript.Proofs.NameOrder

/-!
# The history of a command table

A table is built by inserting entries, one or many at a time, and removing them
again. What becomes of it is decided by the edits alone: an entry **survives** if
no later edit inserts or removes anything under its primary name (`Survives`).
Step by step the builder holds just the survivors, in the order in which they
were inserted (`mem_edited`, `edited_split`).

The finished table holds the same entries, sorted by name (`build_survivors`),
and from the sorting follows which of several entries a name stands for: the one
whose primary name is last (`resolve?_iff`). That need not be the one that was
inserted last, and `resolve?_inserted_last_iff` says when it is.
-/

namespace RasterScript

/-- A step in the construction of a command table. -/
inductive BuildStep where
  | insert (c : Command)
  | extend (commands : List Command)
  | remove (name : String)

/-- One change to a table under construction. -/
inductive Edit where
  | insert (c : Command)
  | remove (name : String)

namespace Edit

/-- The primary name whose entry is replaced or dropped. -/
def name : Edit → String
  | insert c => c.name
  | remove name => name

/-- The table under construction after an edit. -/
def on (b : RegistryBuilder) : Edit → RegistryBuilder
  | insert c => b.insert c
  | remove name => b.remove name

end Edit

namespace BuildStep

/-- The table under construction after a step. -/
def on (b : RegistryBuilder) : BuildStep → RegistryBuilder
  | insert c => b.insert c
  | extend commands => b.extend commands
  | remove name => b.remove name

/-- The edits that a step comes to. -/
def edits : BuildStep → List Edit
  | insert c => [.insert c]
  | extend commands => commands.map .insert
  | remove name => [.remove name]

theorem foldl_edits (b : RegistryBuilder) (step : BuildStep) :
    step.edits.foldl Edit.on b = step.on b := by
  cases step with
  | insert c => rfl
  | extend commands => exact List.foldl_map
  | remove name => rfl

end BuildStep

/-! ## What survives -/

/-- An entry that is inserted, with no later edit under its primary name. -/
def Survives (edits : List Edit) (c : Command) : Prop :=
  ∃ before after, edits = before ++ .insert c :: after ∧ ∀ e ∈ after, e.name ≠ c.name

/-- The survivor that was inserted last among those that carry a name. -/
def InsertedLast (edits : List Edit) (name : String) (c : Command) : Prop :=
  ∃ before after, edits = before ++ .insert c :: after ∧ (∀ e ∈ after, e.name ≠ c.name)
    ∧ name ∈ c.names ∧ ∀ d, Survives after d → name ∉ d.names

theorem survives_concat {edits : List Edit} {e : Edit} {c : Command} :
    Survives (edits ++ [e]) c ↔ e = .insert c ∨ Survives edits c ∧ e.name ≠ c.name := by
  constructor
  · rintro ⟨before, after, heq, hafter⟩
    rcases List.eq_nil_or_concat' after with rfl | ⟨after, last, rfl⟩
    · exact Or.inl (by simpa using (List.append_inj' heq rfl).2)
    · rw [← List.cons_append, ← List.append_assoc] at heq
      obtain ⟨hedits, hlast⟩ := List.append_inj' heq rfl
      obtain rfl : e = last := by simpa using hlast
      exact Or.inr ⟨⟨before, after, hedits, fun e he => hafter e (by simp [he])⟩,
        hafter e (by simp)⟩
  · rintro (rfl | ⟨⟨before, after, rfl, hafter⟩, hne⟩)
    · exact ⟨edits, [], rfl, by simp⟩
    · refine ⟨before, after ++ [e], by simp, fun d hd => ?_⟩
      rcases List.mem_append.mp hd with hd | hd
      · exact hafter d hd
      · rw [List.mem_singleton.mp hd]; exact hne

namespace RegistryBuilder

/-- The table under construction after some edits, from an empty one. -/
def edited (edits : List Edit) : RegistryBuilder := edits.foldl Edit.on empty

/-- The table under construction after some steps, from an empty one. -/
def built (steps : List BuildStep) : RegistryBuilder := steps.foldl BuildStep.on empty

theorem built_eq (steps : List BuildStep) :
    built steps = edited (steps.flatMap BuildStep.edits) := by
  unfold built edited
  generalize empty = b
  induction steps generalizing b with
  | nil => rfl
  | cons step steps ih =>
      rw [List.foldl_cons, List.flatMap_cons, List.foldl_append, BuildStep.foldl_edits]
      exact ih _

theorem edited_concat (edits : List Edit) (e : Edit) :
    edited (edits ++ [e]) = e.on (edited edits) := by
  unfold edited
  rw [List.foldl_append]
  rfl

theorem mem_on {b : RegistryBuilder} {e : Edit} {c : Command} :
    c ∈ (e.on b).commands ↔ e = .insert c ∨ c ∈ b.commands ∧ e.name ≠ c.name := by
  cases e with
  | insert d =>
      simp only [Edit.on, insert, remove, List.mem_append, List.mem_filter, List.mem_singleton,
        decide_eq_true_eq, Edit.insert.injEq, Edit.name]
      rw [or_comm, eq_comm, ne_comm]
  | remove name =>
      simp only [Edit.on, remove, List.mem_filter, decide_eq_true_eq, Edit.name, reduceCtorEq,
        false_or]
      rw [ne_comm]

/-- **The builder holds what survives.** -/
theorem mem_edited {edits : List Edit} {c : Command} :
    c ∈ (edited edits).commands ↔ Survives edits c := by
  induction edits using List.reverseRecOn with
  | nil => simp [edited, empty, Survives]
  | append_singleton edits e ih => rw [edited_concat, mem_on, survives_concat, ih]

/-- No two entries have the same primary name. -/
theorem nodup_edited (edits : List Edit) : ((edited edits).commands.map Command.name).Nodup := by
  induction edits using List.reverseRecOn with
  | nil => exact List.nodup_nil
  | append_singleton edits e ih =>
      have hkept : ∀ name, (((edited edits).remove name).commands.map Command.name).Nodup :=
        fun name => ih.sublist (List.filter_sublist.map _)
      rw [edited_concat]
      cases e with
      | remove name => exact hkept name
      | insert c =>
          show (((edited edits).remove c.name).commands ++ [c]).map Command.name |>.Nodup
          rw [List.map_append, List.nodup_append]
          refine ⟨hkept c.name, by simp, ?_⟩
          -- what is kept has another name than the new entry
          intro name hname other hother
          obtain ⟨d, hd, rfl⟩ := List.mem_map.mp hname
          rw [List.mem_singleton.mp hother]
          simpa [remove] using (List.mem_filter.mp hd).2

/-- Edits leave the first of some entries alone or drop them, whatever they make of the others. -/
theorem foldl_append_on (edits : List Edit) (first others : List Command) :
    ∃ kept, (edits.foldl Edit.on ⟨first ++ others⟩).commands =
        kept ++ (edits.foldl Edit.on ⟨others⟩).commands
      ∧ ((∀ c ∈ first, ∀ e ∈ edits, e.name ≠ c.name) → kept = first) := by
  induction edits generalizing first others with
  | nil => exact ⟨first, rfl, fun _ => rfl⟩
  | cons e edits ih =>
      have hon : ∃ more, e.on ⟨first ++ others⟩ =
            ⟨first.filter (fun c => c.name ≠ e.name) ++ more⟩
          ∧ e.on ⟨others⟩ = ⟨more⟩ := by
        cases e with
        | insert d =>
            refine ⟨others.filter (fun c => c.name ≠ d.name) ++ [d], ?_, rfl⟩
            rw [Edit.on, insert, remove, List.filter_append, List.append_assoc]
            rfl
        | remove name =>
            refine ⟨others.filter (fun c => c.name ≠ name), ?_, rfl⟩
            rw [Edit.on, remove, List.filter_append]
            rfl
      obtain ⟨more, hboth, hothers⟩ := hon
      obtain ⟨kept, hkept, hall⟩ := ih (first.filter fun c => c.name ≠ e.name) more
      refine ⟨kept, ?_, fun huntouched => ?_⟩
      · rw [List.foldl_cons, List.foldl_cons, hboth, hothers]
        exact hkept
      · have hfirst : first.filter (fun c => c.name ≠ e.name) = first :=
          List.filter_eq_self.mpr fun c hc =>
            decide_eq_true fun he => huntouched c hc e (by simp) he.symm
        rw [hfirst] at hall
        exact hall fun c hc d hd => huntouched c hc d (by simp [hd])

/-- **After a survivor the builder holds what survives of the edits after it.** -/
theorem edited_split {before after : List Edit} {c : Command}
    (h : ∀ e ∈ after, e.name ≠ c.name) :
    ∃ front, (edited (before ++ .insert c :: after)).commands =
      front ++ c :: (edited after).commands := by
  have hstart : edited (before ++ .insert c :: after) =
      after.foldl Edit.on ⟨((edited before).remove c.name).commands ++ [c]⟩ := by
    unfold edited
    rw [List.foldl_append]
    rfl
  obtain ⟨front, hfront, -⟩ :=
    foldl_append_on after ((edited before).remove c.name).commands [c]
  obtain ⟨kept, hkept, hall⟩ := foldl_append_on after [c] []
  obtain rfl : kept = [c] := hall fun d hd => by rw [List.mem_singleton.mp hd]; exact h
  refine ⟨front, ?_⟩
  rw [hstart, hfront]
  exact congrArg (front ++ ·) hkept

/-- **The builder's last entry of a name is the survivor that was inserted last.** -/
theorem insertedLast_iff {edits : List Edit} {name : String} {c : Command} :
    InsertedLast edits name c ↔
      (edited edits).commands.reverse.find? (·.answersTo name) = some c := by
  constructor
  · rintro ⟨before, after, rfl, huntouched, hname, hlater⟩
    obtain ⟨front, hfront⟩ := @edited_split before after c huntouched
    rw [hfront, List.find?_eq_some_iff_append]
    refine ⟨by simpa [Command.answersTo] using hname, (edited after).commands.reverse,
      front.reverse, by simp, fun d hd => ?_⟩
    simpa [Command.answersTo] using hlater d (mem_edited.mp (List.mem_reverse.mp hd))
  · intro hfound
    have hname : name ∈ c.names := by simpa [Command.answersTo] using List.find?_some hfound
    obtain ⟨before, after, rfl, huntouched⟩ :=
      mem_edited.mp (List.mem_reverse.mp (List.mem_of_find?_eq_some hfound))
    refine ⟨before, after, rfl, huntouched, hname, fun d hd hcarries => ?_⟩
    -- a later survivor with the name would have been found first, and `c` is not a later one
    obtain ⟨front, hfront⟩ := @edited_split before after c huntouched
    rw [hfront, List.reverse_append, List.reverse_cons, List.append_assoc,
      List.find?_append] at hfound
    cases hlate : (edited after).commands.reverse.find? (·.answersTo name) with
    | none =>
        have hmem := List.mem_reverse.mpr (mem_edited.mpr hd)
        exact absurd hcarries (by
          simpa [Command.answersTo] using List.find?_eq_none.mp hlate d hmem)
    | some g =>
        rw [hlate, Option.some_or] at hfound
        obtain rfl := Option.some.inj hfound
        have hmem := List.mem_reverse.mp (List.mem_of_find?_eq_some hlate)
        obtain ⟨first, rest, rfl, -⟩ := mem_edited.mp hmem
        exact huntouched (.insert g) (by simp) rfl

end RegistryBuilder

namespace Registry

/-! ## The finished table -/

/-- The finished table after some steps, from an empty one. -/
def ofSteps (steps : List BuildStep) : Registry := (RegistryBuilder.built steps).build

/-- Every entry comes before those after it, in the order of names. -/
def Sorted (r : Registry) : Prop := r.commands.Pairwise fun c d => Precedes c.name d.name

theorem build_perm (b : RegistryBuilder) : b.build.commands.Perm b.commands :=
  List.mergeSort_perm ..

theorem sorted_build {b : RegistryBuilder} (h : (b.commands.map Command.name).Nodup) :
    b.build.Sorted := by
  have hle : b.build.commands.Pairwise fun c d => notAfter c.name.toList d.name.toList = true := by
    refine List.pairwise_mergeSort (fun c d e hcd hde => ?_) (fun c d => ?_) _
    · rw [notAfter_names] at hcd hde ⊢
      exact List.le_trans hcd hde
    · rw [Bool.or_eq_true, notAfter_names, notAfter_names]
      exact List.le_total _ _
  have hne : b.build.commands.Pairwise fun c d => c.name ≠ d.name :=
    List.pairwise_map.mp (((build_perm b).map Command.name).nodup_iff.mpr h)
  exact (hle.and hne).imp fun hboth => precedes_of_notAfter hboth.1 hboth.2

theorem mem_ofSteps {steps : List BuildStep} {c : Command} :
    c ∈ (ofSteps steps).commands ↔ Survives (steps.flatMap BuildStep.edits) c := by
  rw [← RegistryBuilder.mem_edited, ← RegistryBuilder.built_eq]
  exact (build_perm _).mem_iff

theorem sorted_ofSteps (steps : List BuildStep) : (ofSteps steps).Sorted :=
  sorted_build (by rw [RegistryBuilder.built_eq]; exact RegistryBuilder.nodup_edited _)

/-- A name in a column of at least fifteen characters, a blank, and then the usage. -/
def IsRow (name usage line : String) : Prop :=
  ∃ blanks, line = name ++ blanks ++ usage ∧ (∀ c ∈ blanks.toList, c = ' ')
    ∧ (name ++ blanks).length = max 15 name.length + 1

theorem isRow_row (name usage : String) : IsRow name usage (row name usage) := by
  refine ⟨String.ofList (List.replicate (15 - name.length) ' ') ++ " ", ?_, ?_, ?_⟩
  · simp only [row, String.append_assoc]
  · intro c hc
    rw [String.toList_append, String.toList_ofList, List.mem_append] at hc
    rcases hc with hc | hc
    · exact List.eq_of_mem_replicate hc
    · exact List.mem_singleton.mp hc
  · have hblanks : (String.ofList (List.replicate (15 - name.length) ' ')).length =
        15 - name.length := by
      rw [String.length_ofList, List.length_replicate]
    rw [String.length_append, String.length_append, hblanks]
    change name.length + (15 - name.length + 1) = _
    omega

theorem rows_isRow (r : Registry) :
    List.Forall₂ (fun entry line => IsRow entry.1 entry.2 line)
      (("Command", "Parameters") :: r.commands.map fun c => (c.name, c.usage)) r.rows := by
  refine .cons (isRow_row ..) ?_
  rw [List.forall₂_map_left_iff, List.forall₂_map_right_iff, List.forall₂_same]
  exact fun c _ => isRow_row c.name c.usage

/-! ## Which entry a name stands for -/

/-- **A name stands for the entry that carries it and comes last.** -/
theorem resolve?_iff {r : Registry} (h : r.Sorted) {name : String} {c : Command} :
    r.resolve? name = some c ↔
      c ∈ r.commands ∧ name ∈ c.names
        ∧ ∀ d ∈ r.commands, name ∈ d.names → d = c ∨ Precedes d.name c.name := by
  have last : ∀ {g : Command}, r.resolve? name = some g →
      g ∈ r.commands ∧ name ∈ g.names
        ∧ ∀ d ∈ r.commands, name ∈ d.names → d = g ∨ Precedes d.name g.name := by
    intro g hg
    obtain ⟨hanswers, later, earlier, hsplit, hlater⟩ := List.find?_eq_some_iff_append.mp hg
    have hcommands : r.commands = earlier.reverse ++ g :: later.reverse := by
      rw [← List.reverse_reverse r.commands, hsplit]; simp
    refine ⟨by rw [hcommands]; simp, by simpa [Command.answersTo] using hanswers, ?_⟩
    intro d hd hname
    have hsorted := h
    rw [Sorted, hcommands, List.pairwise_append] at hsorted
    rw [hcommands, List.mem_append, List.mem_cons] at hd
    rcases hd with hd | rfl | hd
    · exact Or.inr (hsorted.2.2 d hd g (by simp))
    · exact Or.inl rfl
    · have := hlater d (List.mem_reverse.mp hd)
      exact absurd hname (by simpa [Command.answersTo] using this)
  refine ⟨last, ?_⟩
  rintro ⟨hc, hname, hlast⟩
  cases hg : r.resolve? name with
  | none =>
      have hnone := List.find?_eq_none.mp hg c (List.mem_reverse.mpr hc)
      exact absurd hname (by simpa [Command.answersTo] using hnone)
  | some g =>
      obtain ⟨hmem, hcarries, hgreatest⟩ := last hg
      -- each of the two would come before the other
      rcases hgreatest c hc hname with rfl | hcg
      · rfl
      rcases hlast g hmem hcarries with rfl | hgc
      · rfl
      · exact absurd hgc (Std.not_gt_of_lt hcg)

theorem resolve?_isSome_iff {r : Registry} {name : String} :
    (∃ c, r.resolve? name = some c) ↔ ∃ c ∈ r.commands, name ∈ c.names := by
  rw [← Option.isSome_iff_exists, resolve?, List.find?_isSome]
  simp [Command.answersTo]

/-! ## The index of names -/

/-- An index in which a name has a new place, instead of any that it had. -/
def enter (index : List (String × Nat)) (entry : String × Nat) : List (String × Nat) :=
  entry :: index.filter fun old => old.1 ≠ entry.1

/-- The names of all entries with the places of the entries, in the order of the table. -/
def places (commands : List Command) : List (String × Nat) :=
  commands.zipIdx.flatMap fun entry => entry.1.names.map fun name => (name, entry.2)

/-- The index of a table, into which the names of all entries are entered one after the other. -/
def index (r : Registry) : List (String × Nat) := (places r.commands).foldl enter []

theorem lookup_enter (index : List (String × Nat)) (entry : String × Nat) (name : String) :
    (enter index entry).lookup name =
      if entry.1 = name then some entry.2 else index.lookup name := by
  obtain ⟨key, place⟩ := entry
  by_cases h : key = name
  · rw [if_pos h, enter, h, List.lookup_cons_self]
  · rw [if_neg h, enter, List.lookup_cons, beq_false_of_ne (Ne.symm h)]
    dsimp only
    -- dropping another name leaves what is found
    induction index with
    | nil => rfl
    | cons old index ih =>
        obtain ⟨other, at'⟩ := old
        by_cases hk : other = key
        · rw [List.filter_cons_of_neg (by simpa using hk), ih, List.lookup_cons,
            beq_false_of_ne (by rw [hk]; exact Ne.symm h)]
        · rw [List.filter_cons_of_pos (by simpa using hk), List.lookup_cons, List.lookup_cons, ih]

/-- What is found in the index is what was entered last. -/
theorem lookup_foldl_enter (entries index : List (String × Nat)) (name : String) :
    (entries.foldl enter index).lookup name =
      ((entries.reverse.find? fun entry => entry.1 = name).map (·.2)).or (index.lookup name) := by
  induction entries generalizing index with
  | nil => rfl
  | cons entry entries ih =>
      rw [List.foldl_cons, ih, lookup_enter, List.reverse_cons, List.find?_append]
      cases entries.reverse.find? fun entry => entry.1 = name with
      | some last => rfl
      | none =>
          by_cases h : entry.1 = name
          · simp [h]
          · simp [h]

theorem places_concat (commands : List Command) (c : Command) :
    places (commands ++ [c]) =
      places commands ++ c.names.map fun name => (name, commands.length) := by
  unfold places
  rw [List.zipIdx_append, List.flatMap_append]
  simp

theorem find?_entered (names : List String) (place : Nat) (name : String) :
    ((names.map fun other => (other, place)).reverse.find? fun entry => entry.1 = name) =
      if name ∈ names then some (name, place) else none := by
  induction names with
  | nil => rfl
  | cons first names ih =>
      rw [List.map_cons, List.reverse_cons, List.find?_append, ih]
      by_cases hrest : name ∈ names
      · simp [hrest]
      · by_cases hfirst : first = name
        · simp [hrest, hfirst]
        · simp [hrest, hfirst, Ne.symm hfirst]

/-- What a name was entered for last is the last entry that carries it. -/
theorem find?_places (commands : List Command) (name : String) :
    ((places commands).reverse.find? fun entry => entry.1 = name).bind (commands[·.2]?) =
      commands.reverse.find? fun c => c.answersTo name := by
  induction commands using List.reverseRecOn with
  | nil => rfl
  | append_singleton commands c ih =>
      rw [places_concat, List.reverse_append, List.find?_append, find?_entered,
        List.reverse_append, List.reverse_singleton, List.singleton_append, List.find?_cons]
      by_cases hname : name ∈ c.names
      · have hanswers : c.answersTo name = true := by simpa [Command.answersTo] using hname
        simp [hname, hanswers]
      · have hanswers : c.answersTo name = false := by simpa [Command.answersTo] using hname
        rw [if_neg hname, Option.none_or, hanswers, ← ih]
        cases hfound : (places commands).reverse.find? fun entry => entry.1 = name with
        | none => rfl
        | some entry =>
            -- the place is one of the old table, which the new entry leaves alone
            have hmem := List.mem_reverse.mp (List.mem_of_find?_eq_some hfound)
            have hlt : entry.2 < commands.length := by
              simp only [places, List.mem_flatMap, List.mem_map] at hmem
              obtain ⟨⟨d, place⟩, hd, _, _, rfl⟩ := hmem
              exact (List.mem_zipIdx hd).2.1.trans_eq (by simp)
            exact List.getElem?_append_left hlt

/-- **The index leads to the entry that a name stands for.** -/
theorem resolve?_eq_index (r : Registry) (name : String) :
    r.resolve? name = (r.index.lookup name).bind (r.commands[·]?) := by
  rw [resolve?, ← find?_places, index, lookup_foldl_enter]
  cases (places r.commands).reverse.find? fun entry => entry.1 = name <;> rfl
/-! ## What the steps decide -/

/-- A sorted table has one entry under the primary name of any of its entries. -/
theorem filter_name {r : Registry} (h : r.Sorted) {c : Command} (hc : c ∈ r.commands) :
    r.commands.filter (·.name = c.name) = [c] := by
  obtain ⟨front, back, hsplit⟩ := List.append_of_mem hc
  have hne : r.commands.Pairwise fun d e => d.name ≠ e.name :=
    h.imp fun {d e} hlt he => by rw [Precedes, he] at hlt; exact Std.lt_irrefl hlt
  rw [hsplit, List.pairwise_append, List.pairwise_cons] at hne
  rw [hsplit, List.filter_append, List.filter_cons_of_pos (by simp),
    List.filter_eq_nil_iff.mpr fun d hd => by simpa using hne.2.2 d hd c (by simp),
    List.filter_eq_nil_iff.mpr fun d hd => by simpa using (hne.2.1.1 d hd).symm, List.nil_append]

/--
**A finished table holds what survives of its history.** Whatever is inserted and
removed, one by one or many at a time, the table has the entries that were
inserted with no later insertion or removal under their primary names, one for
each of these names, and they are strictly in the order of the bytes of the names.
A name stands for an entry exactly if some survivor carries it, and then for a
survivor that does, by the search as well as by the index; so the names of entries
that were replaced or removed are gone unless a survivor has them too. The help has
one line for the heading and one for each entry, in the same order, and in each the
name and, beginning in one column unless a name is too long, the usage.
-/
theorem build_survivors (steps : List BuildStep) :
    let edits := steps.flatMap BuildStep.edits
    let r := ofSteps steps
    (∀ c, c ∈ r.commands ↔ Survives edits c)
      ∧ (∀ c, Survives edits c → r.commands.filter (·.name = c.name) = [c])
      ∧ r.commands.Pairwise (fun c d => storedBytes c.name < storedBytes d.name)
      ∧ (∀ name, (∃ c, r.resolve? name = some c) ↔ ∃ c, Survives edits c ∧ name ∈ c.names)
      ∧ (∀ name c, r.resolve? name = some c → Survives edits c ∧ name ∈ c.names)
      ∧ (∀ name, (∀ c, Survives edits c → name ∉ c.names) → r.resolve? name = none)
      ∧ (∀ name, r.resolve? name = (r.index.lookup name).bind (r.commands[·]?))
      ∧ r.help = String.join (r.rows.map fun line => line ++ "\n")
      ∧ List.Forall₂ (fun entry line => IsRow entry.1 entry.2 line)
          (("Command", "Parameters") :: r.commands.map fun c => (c.name, c.usage)) r.rows := by
  intro edits r
  have hmem : ∀ c, c ∈ r.commands ↔ Survives edits c := fun c => mem_ofSteps
  have hsorted : r.Sorted := sorted_ofSteps steps
  have hsome : ∀ name, (∃ c, r.resolve? name = some c) ↔
      ∃ c, Survives edits c ∧ name ∈ c.names := by
    intro name
    rw [resolve?_isSome_iff]
    exact exists_congr fun c => and_congr_left fun _ => hmem c
  refine ⟨hmem, fun c hc => filter_name hsorted ((hmem c).mpr hc), hsorted, hsome, ?_, ?_,
    resolve?_eq_index r, rfl, rows_isRow r⟩
  · intro name c hfound
    obtain ⟨hc, hname, -⟩ := (resolve?_iff hsorted).mp hfound
    exact ⟨(hmem c).mp hc, hname⟩
  · intro name hnone
    by_contra hfound
    obtain ⟨c, hc, hname⟩ := (hsome name).mp (Option.ne_none_iff_exists'.mp hfound)
    exact hnone c hc hname

/--
**Which of several entries a name stands for.** If some survivor carries a name,
then there is one that was inserted last of all that do. The name stands for this
one exactly if its primary name is the last of theirs in the order of bytes, since
it is always the survivor with the last primary name that the name stands for.
-/
theorem resolve?_inserted_last_iff (steps : List BuildStep) (name : String)
    (h : ∃ c, Survives (steps.flatMap BuildStep.edits) c ∧ name ∈ c.names) :
    let edits := steps.flatMap BuildStep.edits
    let r := ofSteps steps
    (∃ c, InsertedLast edits name c ∧ (∀ d, InsertedLast edits name d → d = c)
        ∧ (r.resolve? name = some c ↔
          ∀ d, Survives edits d → name ∈ d.names →
            d = c ∨ storedBytes d.name < storedBytes c.name))
      ∧ ∃ g, r.resolve? name = some g ∧ Survives edits g ∧ name ∈ g.names
        ∧ ∀ d, Survives edits d → name ∈ d.names →
          d = g ∨ storedBytes d.name < storedBytes g.name := by
  intro edits r
  have hiff : ∀ {c}, r.resolve? name = some c ↔ Survives edits c ∧ name ∈ c.names
      ∧ ∀ d, Survives edits d → name ∈ d.names →
        d = c ∨ storedBytes d.name < storedBytes c.name := by
    intro c
    rw [resolve?_iff (sorted_ofSteps steps), mem_ofSteps]
    exact and_congr_right fun _ => and_congr_right fun _ =>
      forall_congr' fun d => imp_congr_left mem_ofSteps
  constructor
  · -- the builder has an entry with the name, and so a last one
    cases hlast : (RegistryBuilder.edited edits).commands.reverse.find? (·.answersTo name) with
    | none =>
        obtain ⟨c, hc, hname⟩ := h
        have hmem := List.mem_reverse.mpr (RegistryBuilder.mem_edited.mpr hc)
        exact absurd hname (by
          simpa [Command.answersTo] using List.find?_eq_none.mp hlast c hmem)
    | some c =>
        have hc := RegistryBuilder.insertedLast_iff.mpr hlast
        refine ⟨c, hc, fun d hd => ?_, ?_⟩
        · have hd' := RegistryBuilder.insertedLast_iff.mp hd
          exact Option.some.inj (hd'.symm.trans hlast)
        · obtain ⟨before, after, hsplit, huntouched, hname, -⟩ := hc
          rw [hiff]
          exact ⟨fun hfound => hfound.2.2,
            fun hgreatest => ⟨⟨before, after, hsplit, huntouched⟩, hname, hgreatest⟩⟩
  · have hcarried : ∃ c ∈ r.commands, name ∈ c.names := by
      obtain ⟨c, hc, hname⟩ := h
      exact ⟨c, mem_ofSteps.mpr hc, hname⟩
    obtain ⟨g, hg⟩ := resolve?_isSome_iff.mpr hcarried
    exact ⟨g, hg, hiff.mp hg⟩

/-- A command of a given name that is called `x` as well. -/
def sampleAlias (name : String) : Command :=
  ⟨name, ["x"], 0, "", .directive .help⟩

/-- Of `a` and `b` the later in the alphabet is found where it was inserted last. -/
theorem resolve?_inserted_last_iff_ordered :
    let steps : List BuildStep := [.insert (sampleAlias "a"), .insert (sampleAlias "b")]
    (∃ c, Survives (steps.flatMap BuildStep.edits) c ∧ "x" ∈ c.names)
      ∧ (ofSteps steps).resolve? "x" = some (sampleAlias "b") := by
  intro steps
  have hcarried : ∃ c, Survives (steps.flatMap BuildStep.edits) c ∧ "x" ∈ c.names :=
    ⟨sampleAlias "b", ⟨[.insert (sampleAlias "a")], [], rfl, by simp⟩,
      by simp [sampleAlias, Command.names]⟩
  refine ⟨hcarried, ?_⟩
  obtain ⟨⟨c, -, hunique, hiff⟩, -⟩ := resolve?_inserted_last_iff steps "x" hcarried
  have hlast : InsertedLast (steps.flatMap BuildStep.edits) "x" (sampleAlias "b") :=
    ⟨[.insert (sampleAlias "a")], [], rfl, by simp, by simp [sampleAlias, Command.names],
      fun d hd => absurd hd (by simp [Survives])⟩
  obtain rfl := hunique _ hlast
  refine hiff.mpr fun d hd _ => ?_
  have hheld : d ∈ [sampleAlias "a", sampleAlias "b"] := RegistryBuilder.mem_edited.mpr hd
  rcases List.mem_cons.mp hheld with rfl | hd
  · exact Or.inr (by decide)
  · exact Or.inl (List.mem_singleton.mp hd)

/-- Inserted the other way round, the one that was inserted last is not found. -/
theorem earlier_entry_found :
    let steps : List BuildStep := [.insert (sampleAlias "b"), .insert (sampleAlias "a")]
    InsertedLast (steps.flatMap BuildStep.edits) "x" (sampleAlias "a")
      ∧ (ofSteps steps).resolve? "x" = some (sampleAlias "b")
      ∧ sampleAlias "b" ≠ sampleAlias "a" := by
  intro steps
  have hlast : InsertedLast (steps.flatMap BuildStep.edits) "x" (sampleAlias "a") :=
    ⟨[.insert (sampleAlias "b")], [], rfl, by simp, by simp [sampleAlias, Command.names],
      fun d hd => absurd hd (by simp [Survives])⟩
  refine ⟨hlast, ?_, fun h => absurd (congrArg Command.name h) (by decide)⟩
  have hheld : ∀ d, d ∈ (ofSteps steps).commands ↔ d ∈ [sampleAlias "b", sampleAlias "a"] :=
    fun d => mem_ofSteps.trans RegistryBuilder.mem_edited.symm
  rw [resolve?_iff (sorted_ofSteps steps), hheld]
  refine ⟨List.mem_cons_self .., by simp [sampleAlias, Command.names], fun d hd _ => ?_⟩
  rcases List.mem_cons.mp ((hheld d).mp hd) with rfl | hd
  · exact Or.inl rfl
  · rw [List.mem_singleton.mp hd]
    exact Or.inr (show storedBytes "a" < storedBytes "b" by decide)

end Registry

end RasterScript
