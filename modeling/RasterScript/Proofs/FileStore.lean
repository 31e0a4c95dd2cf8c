import RasterScript.Session

/-!
# Reading after writing

A write fills the place that its path leads to. What follows needs every path to be
followed again in the new tree:

* what was written is read back at the same path (`read_write`);
* every other file that could be read still can, with what it held, however often
  the one path is written (`Rewritten.read`);
* the paths that can be written stay the same, and so after writes to a few paths
  only the files that these lead to can have changed (`Confined.read`).

The reason is the same for all. Following a path only ever passes through
directories, and the place of a write never is one; so the walk does not see the
difference. `AgreeBut` says that two trees differ at most in one such place.
-/

namespace RasterScript.FileStore

/-! ## Looking up what was put -/

theorem node?_put_self (store : FileStore) {place : Place} (node : Node) (h : place ≠ []) :
    (store.put place node).node? place = some node := by
  cases place with
  | nil => exact absurd rfl h
  | cons name names => simp [node?, put]

theorem node?_put_of_ne (store : FileStore) {place q : Place} (node : Node) (h : q ≠ place) :
    (store.put place node).node? q = store.node? q := by
  cases q with
  | nil => rfl
  | cons name names =>
      have hne : ¬ place = name :: names := fun he => h he.symm
      simp only [node?, put, List.find?_cons, hne, decide_false]
      rw [List.find?_filter]
      congr 2
      funext entry
      by_cases he : entry.1 = name :: names
      · simp [he, h]
      · simp [he]

/-! ## Following a path, name by name -/

/-- Where one name of a path leads. -/
def hop (store : FileStore) (place : Place) (name : String) : Except FileError Place :=
  match store.node? place with
  | some .directory =>
    if name = "" ∨ name = "." then .ok place
    else if name = ".." then .ok place.dropLast
    else if maxName < name.utf8ByteSize then .error .nameTooLong
    else
      match store.node? (place ++ [name]) with
      | some _ => .ok (place ++ [name])
      | none => .error .noEntry
  | _ => .error .notDirectory

theorem follow_cons (store : FileStore) (place : Place) (name : String) (ns : List String) :
    store.follow place (name :: ns) = (store.hop place name).bind (store.follow · ns) := by
  rw [follow, hop]
  cases store.node? place with
  | none => rfl
  | some node =>
      cases node with
      | file contents => rfl
      | directory =>
          dsimp only
          by_cases hc : name = "" ∨ name = "."
          · rw [if_pos hc, if_pos hc]; rfl
          rw [if_neg hc, if_neg hc]
          by_cases hu : name = ".."
          · rw [if_pos hu, if_pos hu]; rfl
          rw [if_neg hu, if_neg hu]
          by_cases hl : maxName < name.utf8ByteSize
          · rw [if_pos hl, if_pos hl]; rfl
          rw [if_neg hl, if_neg hl]
          cases store.node? (place ++ [name]) <;> rfl

theorem follow_append (store : FileStore) (ns ms : List String) :
    ∀ place, store.follow place (ns ++ ms) =
      (store.follow place ns).bind (store.follow · ms) := by
  induction ns with
  | nil => intro place; rfl
  | cons name ns ih =>
      intro place
      rw [List.cons_append, follow_cons, follow_cons]
      cases store.hop place name with
      | error error => rfl
      | ok next => exact ih next

/-- Names are only followed from directories. -/
theorem hop_directory {store : FileStore} {p q : Place} {name : String}
    (h : store.hop p name = .ok q) : store.node? p = some .directory := by
  rw [hop] at h
  split at h
  · assumption
  · exact absurd h (by simp)

/-- The first of some names leads somewhere if they all do. -/
theorem follow_hop {store : FileStore} {p d : Place} {name : String} {ns : List String}
    (h : store.follow p (name :: ns) = .ok d) :
    ∃ q, store.hop p name = .ok q ∧ store.follow q ns = .ok d := by
  rw [follow_cons] at h
  cases hq : store.hop p name with
  | error error => rw [hq] at h; exact absurd h (by simp [Except.bind])
  | ok q => rw [hq] at h; exact ⟨q, rfl, h⟩

/-- A path that leads nowhere fails for what is missing, never for what is a directory. -/
theorem follow_ne_isDirectory {store : FileStore} {ns : List String} :
    ∀ {p : Place}, store.follow p ns ≠ .error .isDirectory := by
  induction ns with
  | nil => intro p h; exact absurd h (by simp [follow])
  | cons name ns ih =>
      intro p h
      rw [follow_cons] at h
      cases hq : store.hop p name with
      | ok q => rw [hq] at h; exact ih h
      | error error =>
          rw [hq] at h
          obtain rfl : error = .isDirectory := Except.error.inj h
          rw [hop] at hq
          repeat' split at hq
          all_goals exact absurd hq (by simp)

theorem resolve_ne_isDirectory {store : FileStore} {path : String} :
    store.resolve path ≠ .error .isDirectory := by
  intro h
  unfold resolve at h
  split at h
  · rename_i error hfault
    obtain rfl : error = .isDirectory := Except.error.inj h
    unfold pathFault? at hfault
    repeat' split at hfault
    all_goals exact absurd hfault (by simp)
  · exact follow_ne_isDirectory h

/-! ## Trees that differ in one file -/

/-- Two trees that agree everywhere but at one place, which is a directory in neither. -/
structure AgreeBut (place : Place) (F G : FileStore) : Prop where
  current : G.current = F.current
  elsewhere : ∀ q, q ≠ place → G.node? q = F.node? q
  left : F.node? place ≠ some .directory
  right : G.node? place ≠ some .directory

theorem AgreeBut.refl {place : Place} {F : FileStore} (h : F.node? place ≠ some .directory) :
    AgreeBut place F F :=
  ⟨rfl, fun _ _ => rfl, h, h⟩

theorem AgreeBut.symm {place : Place} {F G : FileStore} (h : AgreeBut place F G) :
    AgreeBut place G F :=
  ⟨h.current.symm, fun q hq => (h.elsewhere q hq).symm, h.right, h.left⟩

/-- The root is a directory in every tree. -/
theorem AgreeBut.ne_root {place : Place} {F G : FileStore} (h : AgreeBut place F G) :
    place ≠ [] := fun he => h.left (by rw [he]; rfl)

/-- Putting a file at the place keeps the trees in agreement. -/
theorem AgreeBut.put {place : Place} {F G : FileStore} (h : AgreeBut place F G)
    (contents : Contents) : AgreeBut place F (G.put place (.file contents)) where
  current := h.current
  elsewhere q hq := (node?_put_of_ne G _ hq).trans (h.elsewhere q hq)
  left := h.left
  right := by
    rw [node?_put_self G _ h.ne_root]
    simp

theorem hop_agree {place : Place} {F G : FileStore} (h : AgreeBut place F G) {p q : Place}
    {name : String} (hf : F.hop p name = .ok q) (hq : q = place → G.node? place ≠ none) :
    G.hop p name = .ok q := by
  have hp := hop_directory hf
  have hpne : p ≠ place := fun he => h.left (he ▸ hp)
  -- the hop is decided by what is at `p`, and for a new name by what is at `q`
  rw [hop] at hf ⊢
  rw [h.elsewhere p hpne]
  rw [hp] at hf ⊢
  dsimp only at hf ⊢
  split at hf
  · rename_i hc; rw [if_pos hc]; exact hf
  · rename_i hc
    rw [if_neg hc]
    split at hf
    · rename_i hu; rw [if_pos hu]; exact hf
    · rename_i hu
      rw [if_neg hu]
      split at hf
      · exact absurd hf (by simp)
      · rename_i hl
        rw [if_neg hl]
        split at hf
        · rename_i node hn
          have hthere : G.node? (p ++ [name]) ≠ none := by
            by_cases he : p ++ [name] = place
            · rw [he]; exact hq ((Except.ok.inj hf).symm.trans he)
            · rw [h.elsewhere _ he, hn]; simp
          obtain ⟨_, hthere⟩ := Option.ne_none_iff_exists'.mp hthere
          rw [hthere]
          exact hf
        · exact absurd hf (by simp)

/-- **What a path leads to, it leads to in the other tree,** if only something is there. -/
theorem follow_agree {place : Place} {F G : FileStore} (h : AgreeBut place F G)
    {ns : List String} :
    ∀ {p d : Place}, F.follow p ns = .ok d → (d = place → G.node? place ≠ none) →
      G.follow p ns = .ok d := by
  induction ns with
  | nil => intro p d hf _; exact hf
  | cons name ns ih =>
      intro p d hf hd
      obtain ⟨q, hq, hrest⟩ := follow_hop hf
      -- where the walk steps onto the place it ends there, since it could not go on
      have hthere : q = place → G.node? place ≠ none := by
        intro he
        subst he
        cases ns with
        | nil => rw [follow] at hrest; exact hd (Except.ok.inj hrest).symm
        | cons next rest =>
            obtain ⟨_, hnext, _⟩ := follow_hop hrest
            exact absurd (hop_directory hnext) h.left
      rw [follow_cons, hop_agree h hq hthere]
      exact ih hrest hd

theorem startOf_agree {place : Place} {F G : FileStore} (h : AgreeBut place F G)
    (path : String) : G.startOf path = F.startOf path := by
  unfold startOf; rw [h.current]

theorem resolve_agree {place q : Place} {F G : FileStore} (h : AgreeBut place F G)
    {path : String} (hr : F.resolve path = .ok q) (hq : q = place → G.node? place ≠ none) :
    G.resolve path = .ok q := by
  unfold resolve at hr ⊢
  split at hr
  · exact absurd hr (by simp)
  · rw [startOf_agree h]; exact follow_agree h hr hq

/-- **A file elsewhere holds the same in both trees.** -/
theorem read_agree {place : Place} {F G : FileStore} (h : AgreeBut place F G)
    {path : String} {contents : Contents} (hr : F.read path = .ok contents)
    (hne : F.resolve path ≠ .ok place) : G.read path = .ok contents := by
  unfold read at hr ⊢
  cases hq : F.resolve path with
  | error error => rw [hq] at hr; exact absurd hr (by simp)
  | ok q =>
      have hqne : q ≠ place := fun he => hne (by rw [hq, he])
      rw [hq] at hr
      rw [resolve_agree h hq fun he => absurd he hqne]
      dsimp only at hr ⊢
      rw [h.elsewhere q hqne]
      exact hr

/-! ## The place that a write fills -/

/-- The last run of a text that does not end in a separator is not empty. -/
theorem splitRuns_getLast {separates : Char → Bool} {text : List Char} :
    ∀ {c : Char}, text.getLast? = some c → separates c = false →
      ∃ runs run, splitRuns separates text = runs ++ [run] ∧ run ≠ [] := by
  induction text with
  | nil => intro c h; exact absurd h (by simp)
  | cons first rest ih =>
      intro c hlast hc
      cases rest with
      | nil =>
          have he : first = c := by simpa using hlast
          subst he
          exact ⟨[], [first], by simp [splitRuns, hc, attach], by simp⟩
      | cons next rest =>
          obtain ⟨runs, run, hruns, hne⟩ := ih (by simpa using hlast) hc
          rw [splitRuns, hruns]
          cases separates first with
          | true => exact ⟨[] :: runs, run, rfl, hne⟩
          | false =>
              cases runs with
              | nil => exact ⟨[], first :: run, rfl, by simp⟩
              | cons r rs => exact ⟨(first :: r) :: rs, run, rfl, hne⟩

/-- A path that does not end in a slash ends in a name. -/
theorem names_of_no_slash {path : String} (hf : pathFault? path = none)
    (hs : path.toList.getLast? ≠ some '/') :
    ∃ above name, names path = above ++ [name] ∧ name ≠ "" := by
  have hne : path ≠ "" := by
    rintro rfl
    exact absurd hf (by simp [pathFault?])
  cases hl : path.toList.getLast? with
  | none => exact absurd (String.toList_eq_nil_iff.mp (List.getLast?_eq_none_iff.mp hl)) hne
  | some c =>
      have hc : decide (c = '/') = false := by
        rw [hl] at hs; simpa using hs
      obtain ⟨runs, run, hruns, hrun⟩ :=
        @splitRuns_getLast (fun c => decide (c = '/')) path.toList c hl hc
      refine ⟨runs.map String.ofList, String.ofList run, ?_, ?_⟩
      · unfold names; rw [hruns, List.map_append]; rfl
      · intro he; exact hrun (by simpa using congrArg String.toList he)

/-- A file of a given name in a directory, which a path leads to, can be written. -/
structure Fillable (store : FileStore) (path : String) (above : List String) (dir : Place)
    (name : String) : Prop where
  fault : pathFault? path = none
  slash : path.toList.getLast? ≠ some '/'
  names : names path = above ++ [name]
  named : name ≠ ""
  follow : store.follow (store.startOf path) above = .ok dir
  directory : store.node? dir = some .directory
  proper : ¬ (name = "." ∨ name = "..")
  short : ¬ maxName < name.utf8ByteSize
  free : store.node? (dir ++ [name]) ≠ some .directory

theorem writable_iff {store : FileStore} {path : String} {place : Place} :
    store.writable path = .ok place ↔
      ∃ above dir name, place = dir ++ [name] ∧ Fillable store path above dir name := by
  constructor
  · intro h
    unfold writable at h
    split at h
    · exact absurd h (by simp)
    rename_i hfault
    split at h
    · exact absurd h (by simp)
    rename_i name above hdrop
    split at h
    · exact absurd h (by simp)
    rename_i dir hfollow
    split at h
    · rename_i hdir
      split at h
      · exact absurd h (by simp)
      rename_i hslash
      obtain ⟨front, last, hnames, hlast⟩ := names_of_no_slash hfault hslash
      rw [hnames, List.reverse_append, List.reverse_singleton, List.singleton_append,
        List.dropWhile_cons_of_neg (by simpa using hlast)] at hdrop
      obtain ⟨rfl, rfl⟩ := List.cons.inj hdrop
      rw [List.reverse_reverse] at hfollow
      unfold fileIn at h
      split at h
      · exact absurd h (by simp)
      rename_i hproper
      split at h
      · exact absurd h (by simp)
      rename_i hshort
      split at h
      · exact absurd h (by simp)
      rename_i hfree
      exact ⟨front, dir, last, (Except.ok.inj h).symm, hfault, hslash, hnames, hlast, hfollow,
        hdir, hproper, hshort, hfree⟩
    · exact absurd h (by simp)
  · rintro ⟨above, dir, name, rfl, h⟩
    unfold writable
    rw [h.fault, h.names, List.reverse_append, List.reverse_singleton, List.singleton_append,
      List.dropWhile_cons_of_neg (by simpa using h.named)]
    dsimp only
    rw [List.reverse_reverse, h.follow]
    dsimp only
    rw [h.directory]
    dsimp only
    rw [if_neg h.slash]
    unfold fileIn
    rw [if_neg h.proper, if_neg h.short]
    split
    · rename_i hd; exact absurd hd h.free
    · rfl

/-- The same place can be written in both trees, whether they differ there or elsewhere. -/
theorem Fillable.agree {F G : FileStore} {path : String} {above : List String} {dir place : Place}
    {name : String} (h : Fillable F path above dir name) (hg : AgreeBut place F G) :
    Fillable G path above dir name :=
  have hne : dir ≠ place := fun he => hg.left (he ▸ h.directory)
  { h with
    follow := by rw [startOf_agree hg]; exact follow_agree hg h.follow fun he => absurd he hne
    directory := (hg.elsewhere dir hne).trans h.directory
    free := by
      by_cases he : dir ++ [name] = place
      · rw [he]; exact hg.right
      · rw [hg.elsewhere _ he]; exact h.free }

theorem writable_agree {place filled : Place} {F G : FileStore} (h : AgreeBut place F G)
    {path : String} (hw : F.writable path = .ok filled) : G.writable path = .ok filled := by
  obtain ⟨above, dir, name, rfl, hf⟩ := writable_iff.mp hw
  exact writable_iff.mpr ⟨above, dir, name, rfl, hf.agree h⟩

theorem agreeBut_writable {store : FileStore} {path : String} {place : Place}
    (h : store.writable path = .ok place) : AgreeBut place store store := by
  obtain ⟨_, _, _, rfl, hf⟩ := writable_iff.mp h
  exact AgreeBut.refl hf.free

/-- A write puts the contents at the place that its path leads to. -/
theorem write_ok {store store' : FileStore} {path : String} {contents : Contents}
    (h : store.write path contents = .ok store') :
    ∃ place, store.writable path = .ok place ∧ store' = store.put place (.file contents) := by
  unfold write at h
  cases hw : store.writable path with
  | error error => rw [hw] at h; exact absurd h (by simp [Except.map])
  | ok place => rw [hw] at h; exact ⟨place, rfl, (Except.ok.inj h).symm⟩

/-- **What is there at a path is still there after a write,** if perhaps with other contents. -/
theorem resolve_write {store store' : FileStore} {path other : String} {place : Place}
    {contents : Contents} (h : store.write path contents = .ok store')
    (hr : store.resolve other = .ok place) : store'.resolve other = .ok place := by
  obtain ⟨filled, hw, rfl⟩ := write_ok h
  have hagree := (agreeBut_writable hw).put contents
  refine resolve_agree hagree hr fun _ => ?_
  rw [node?_put_self store _ hagree.ne_root]
  simp

/-- **What is read at a path that can be written** is what is at the place, if there is a file. -/
theorem read_writable {store : FileStore} {path : String} {place : Place}
    (h : store.writable path = .ok place) :
    store.read path =
      match store.node? place with
      | some (.file contents) => .ok contents
      | _ => .error .noEntry := by
  obtain ⟨above, dir, name, rfl, hf⟩ := writable_iff.mp h
  have hhop : store.hop dir name =
      match store.node? (dir ++ [name]) with
      | some _ => .ok (dir ++ [name])
      | none => .error .noEntry := by
    rw [hop, hf.directory]
    dsimp only
    rw [if_neg (fun he => he.elim hf.named fun hd => hf.proper (Or.inl hd)),
      if_neg (fun hu => hf.proper (Or.inr hu)), if_neg hf.short]
  have hresolve : store.resolve path = store.hop dir name := by
    unfold resolve
    rw [hf.fault]
    dsimp only
    rw [hf.names, follow_append, hf.follow]
    show store.follow dir [name] = _
    rw [follow_cons]
    cases store.hop dir name <;> rfl
  rw [read, hresolve, hhop]
  -- a directory is not what can be written
  cases hn : store.node? (dir ++ [name]) with
  | none => rfl
  | some node =>
      dsimp only
      rw [hn]
      cases node with
      | file contents => rfl
      | directory => exact absurd hn hf.free

/-- **What was written is read back.** -/
theorem read_write {store store' : FileStore} {path : String} {contents : Contents}
    (h : store.write path contents = .ok store') : store'.read path = .ok contents := by
  obtain ⟨place, hw, rfl⟩ := write_ok h
  have hagree := (agreeBut_writable hw).put contents
  rw [read_writable (writable_agree hagree hw), node?_put_self store _ hagree.ne_root]

/-! ## One file written again and again -/

/-- Reading one path would read the very file that writing to the other fills. -/
def Shares (store : FileStore) (target path : String) : Prop :=
  ∃ place, store.writable target = .ok place ∧ store.resolve path = .ok place

/-- What a tree becomes when nothing but one path is written to. -/
inductive Rewritten (target : String) (F : FileStore) : FileStore → Prop where
  | refl : Rewritten target F F
  | write {G H : FileStore} {contents : Contents} :
      Rewritten target F G → G.write target contents = .ok H → Rewritten target F H

/-- However often it is written, it is always the same place that the path leads to. -/
theorem Rewritten.agree {target : String} {F G : FileStore} (h : Rewritten target F G) :
    G = F ∨ ∃ place, F.writable target = .ok place ∧ AgreeBut place F G := by
  induction h with
  | refl => exact Or.inl rfl
  | @write G H contents _ hw ih =>
      obtain ⟨place, hp, rfl⟩ := write_ok hw
      right
      rcases ih with rfl | ⟨first, hfirst, ha⟩
      · exact ⟨place, hp, (agreeBut_writable hp).put contents⟩
      · have he : place = first := Except.ok.inj (hp.symm.trans (writable_agree ha hfirst))
        exact ⟨first, hfirst, he ▸ ha.put contents⟩

/-- **Writing to one path leaves what is read at any other.** -/
theorem Rewritten.read {target path : String} {F G : FileStore} {contents : Contents}
    (h : Rewritten target F G) (hr : F.read path = .ok contents) (hne : ¬ F.Shares target path) :
    G.read path = .ok contents := by
  rcases h.agree with rfl | ⟨place, hp, ha⟩
  · exact hr
  · exact read_agree ha hr fun hq => hne ⟨place, hp, hq⟩

/-! ## Writes to a few files -/

/-- Two paths of which either fills, when it is written to, the same place as the other. -/
def Collide (store : FileStore) (p q : String) : Prop :=
  ∃ place, store.writable p = .ok place ∧ store.writable q = .ok place

/--
A tree that another has become without changes but in the files that some paths
lead to. No file is taken away and no directory made, so the paths that can be
written stay the same.
-/
structure Confined (paths : List String) (F G : FileStore) : Prop where
  writable : ∀ path place, G.writable path = .ok place ↔ F.writable path = .ok place
  elsewhere : ∀ place, (∀ path ∈ paths, F.writable path ≠ .ok place) →
    G.node? place = F.node? place

theorem Confined.refl (paths : List String) (F : FileStore) : Confined paths F F :=
  ⟨fun _ _ => Iff.rfl, fun _ _ => rfl⟩

theorem Confined.trans {paths more : List String} {F G H : FileStore} (h : Confined paths F G)
    (k : Confined more G H) : Confined (paths ++ more) F H where
  writable path place := (k.writable path place).trans (h.writable path place)
  elsewhere place hne := by
    have hlater : ∀ path ∈ more, G.writable path ≠ .ok place := fun path hm hw =>
      hne path (List.mem_append_right _ hm) ((h.writable path place).mp hw)
    rw [k.elsewhere place hlater,
      h.elsewhere place fun path hm => hne path (List.mem_append_left _ hm)]

theorem Confined.mono {paths more : List String} {F G : FileStore} (h : Confined paths F G)
    (hm : ∀ path ∈ paths, path ∈ more) : Confined more F G :=
  ⟨h.writable, fun place hne => h.elsewhere place fun path hp => hne path (hm path hp)⟩

theorem AgreeBut.confined {path : String} {place : Place} {F G : FileStore}
    (h : AgreeBut place F G) (hw : F.writable path = .ok place) : Confined [path] F G where
  writable _ _ := ⟨writable_agree h.symm, writable_agree h⟩
  elsewhere q hne := h.elsewhere q fun he => hne path (List.mem_singleton.mpr rfl) (he ▸ hw)

theorem write_confined {store store' : FileStore} {path : String} {contents : Contents}
    (h : store.write path contents = .ok store') : Confined [path] store store' := by
  obtain ⟨place, hw, rfl⟩ := write_ok h
  exact ((agreeBut_writable hw).put contents).confined hw

theorem Rewritten.confined {target : String} {F G : FileStore} (h : Rewritten target F G) :
    Confined [target] F G := by
  rcases h.agree with rfl | ⟨place, hw, ha⟩
  · exact .refl _ _
  · exact ha.confined hw

/-- **A file that is not among those holds what it held,** and is there only if it was. -/
theorem Confined.read {paths : List String} {path : String} {place : Place} {F G : FileStore}
    (h : Confined paths F G) (hw : F.writable path = .ok place)
    (hne : ∀ other ∈ paths, ¬ F.Collide path other) : G.read path = F.read path := by
  have hnode := h.elsewhere place fun other ho he => hne other ho ⟨place, hw, he⟩
  rw [read_writable ((h.writable path place).mpr hw), read_writable hw, hnode]

/-- Of two paths that collide the one is read as the other. -/
theorem Collide.read {store : FileStore} {p q : String} (h : store.Collide p q) :
    store.read p = store.read q := by
  obtain ⟨place, hp, hq⟩ := h
  rw [read_writable hp, read_writable hq]

/-- Paths collide in the one tree just if they do in the other. -/
theorem Confined.collide {paths : List String} {F G : FileStore} (h : Confined paths F G)
    (p q : String) : G.Collide p q ↔ F.Collide p q :=
  exists_congr fun place => and_congr (h.writable p place) (h.writable q place)

/-- Whether later writes can reach a file is already settled before the first of them. -/
theorem Confined.read_later {paths more : List String} {path : String} {place : Place}
    {F G H : FileStore} (h : Confined paths F G) (k : Confined more G H)
    (hw : F.writable path = .ok place) (hne : ∀ other ∈ more, ¬ F.Collide path other) :
    H.read path = G.read path :=
  k.read ((h.writable path place).mpr hw) fun other ho hc =>
    hne other ho ((h.collide path other).mp hc)

/-- What can be written in the one tree can be written in the other. -/
theorem Confined.write {paths : List String} {path : String} {place : Place} {F G : FileStore}
    (h : Confined paths F G) (hw : F.writable path = .ok place) (contents : Contents) :
    ∃ H, G.write path contents = .ok H := by
  unfold FileStore.write
  rw [(h.writable path place).mpr hw]
  exact ⟨_, rfl⟩

end RasterScript.FileStore
