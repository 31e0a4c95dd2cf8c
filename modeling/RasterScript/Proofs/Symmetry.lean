import Mathlib.GroupTheory.SpecificGroups.Dihedral
import RasterScript.Proofs.Composition

/-!
# The symmetries of the square

Flips, quarter turns and the two transpositions only move pixels. Each of them is
a `Placement`: it may exchange columns and rows, and it may read either of them
from the far end. One placement after another is a placement again
(`place_place`), whatever the size of the image, so how the operations combine
has nothing to do with pixels any more and is a matter of three bits.

Those three bits are the dihedral group of the square (`placement_mul`). `r i`
stands for `i` quarter turns, counter-clockwise, and `sr i` for an exchange of
left and right followed by `i` quarter turns; the product of two elements does
the first and then the second. So rendering two operations is rendering one, the
one that the group table gives (`symmetries_compose`), and no smaller group would
do (`symmetries_faithful`).
-/

namespace RasterScript

/-! ## Placements -/

/-- A way of putting the pixels of an image back into a rectangle. -/
structure Placement where
  /-- Whether columns and rows are exchanged. -/
  swaps : Bool
  /-- Whether the columns of the source are taken from the last to the first. -/
  mirrorsX : Bool
  /-- Whether the rows of the source are taken from the last to the first. -/
  mirrorsY : Bool
deriving DecidableEq

/-- The place counted from the far end of `n`, or left as it is. -/
def mirror (reversed : Bool) (n k : Nat) : Nat := if reversed then n - 1 - k else k

theorem mirror_lt {n k : Nat} (h : k < n) (reversed : Bool) : mirror reversed n k < n := by
  cases reversed <;> simp only [mirror] <;> grind

theorem mirror_mirror {n k : Nat} (h : k < n) (a b : Bool) :
    mirror a n (mirror b n k) = mirror (a ^^ b) n k := by
  cases a <;> cases b <;> simp only [mirror] <;> grind

namespace Placement

/-- The size of an image that has been placed. -/
def bounds (p : Placement) (b : Bounds) : Bounds := if p.swaps then b.swapped else b

def place (p : Placement) (image : Image) : Image :=
  Image.generate (p.bounds image.bounds) fun x y =>
    image.pixel (mirror p.mirrorsX image.width (if p.swaps then y else x))
      (mirror p.mirrorsY image.height (if p.swaps then x else y))

/-- One placement after another. An exchange of columns and rows exchanges what mirrors them. -/
def andThen (p q : Placement) : Placement where
  swaps := p.swaps ^^ q.swaps
  mirrorsX := p.mirrorsX ^^ (if p.swaps then q.mirrorsY else q.mirrorsX)
  mirrorsY := p.mirrorsY ^^ (if p.swaps then q.mirrorsX else q.mirrorsY)

@[simp] theorem bounds_place (p : Placement) (image : Image) :
    (p.place image).bounds = p.bounds image.bounds := rfl

theorem bounds_bounds (p q : Placement) (b : Bounds) :
    q.bounds (p.bounds b) = (p.andThen q).bounds b := by
  unfold bounds andThen
  cases p.swaps <;> cases q.swaps <;> rfl

/-- Reading a placed image is reading the image somewhere else. -/
theorem pixel_place (p : Placement) (image : Image) {x y : Nat}
    (hx : x < (p.bounds image.bounds).width) (hy : y < (p.bounds image.bounds).height) :
    (p.place image).pixel x y =
      image.pixel (mirror p.mirrorsX image.width (if p.swaps then y else x))
        (mirror p.mirrorsY image.height (if p.swaps then x else y)) :=
  Image.pixel_generate hx hy

/-- **One placement after another is a single one.** -/
theorem place_place (p q : Placement) (image : Image) :
    q.place (p.place image) = (p.andThen q).place image := by
  refine Image.ext_pixel (bounds_bounds p q image.bounds) fun x y hx hy => ?_
  have hx' : x < (q.bounds (p.bounds image.bounds)).width := hx
  have hy' : y < (q.bounds (p.bounds image.bounds)).height := hy
  have hu : (if q.swaps then y else x) < (p.bounds image.bounds).width := by
    cases hq : q.swaps <;> simp [bounds, hq, Bounds.swapped] at hx' hy' ⊢ <;> assumption
  have hv : (if q.swaps then x else y) < (p.bounds image.bounds).height := by
    cases hq : q.swaps <;> simp [bounds, hq, Bounds.swapped] at hx' hy' ⊢ <;> assumption
  have houter := pixel_place q (p.place image) hx' hy'
  have hinner := pixel_place p image (mirror_lt hu q.mirrorsX) (mirror_lt hv q.mirrorsY)
  have hboth := pixel_place (p.andThen q) image (bounds_bounds p q _ ▸ hx')
    (bounds_bounds p q _ ▸ hy')
  rw [houter, hboth]
  refine hinner.trans ?_
  -- what mirrors the columns of the middle image mirrors the rows of the first, if `p` swaps
  cases hp : p.swaps with
  | false =>
      simp only [bounds, hp, Bool.false_eq_true, if_false] at hu hv ⊢
      rw [Image.width, Image.height, mirror_mirror hu, mirror_mirror hv]
      simp [andThen, hp]
  | true =>
      simp only [bounds, hp, if_true, Bounds.swapped] at hu hv ⊢
      rw [Image.width, Image.height, mirror_mirror hv, mirror_mirror hu]
      cases hq : q.swaps <;> simp [andThen, hp, hq]

end Placement

/-! ## Operations that only move pixels -/

/-- Operations that do to every image what a placement does. -/
def Lays (ops : List Operation) (p : Placement) : Prop :=
  ∀ (index : Nat) (image : Image), image.bounds.isAllocatable = true →
    (Render.steps Engine.plain index image ops ()).1 = .ok (p.place image)

theorem Placement.isAllocatable_bounds (p : Placement) (b : Bounds) :
    (p.bounds b).isAllocatable = b.isAllocatable := by
  unfold Placement.bounds
  cases p.swaps with
  | false => rfl
  | true =>
      have harea : b.swapped.area = b.area := Nat.mul_comm b.height b.width
      simp only [if_true, Bounds.isAllocatable, harea]

theorem lays_nil : Lays [] ⟨false, false, false⟩ := by
  intro index image _
  refine congrArg Except.ok (Image.ext_pixel rfl fun x y hx hy => ?_)
  exact (Placement.pixel_place ⟨false, false, false⟩ image hx hy).symm

theorem lays_append {ops more : List Operation} {p q : Placement} (h : Lays ops p)
    (k : Lays more q) : Lays (ops ++ more) (p.andThen q) := by
  intro index image ha
  have ha' : (p.place image).bounds.isAllocatable = true := by
    rw [Placement.bounds_place, Placement.isAllocatable_bounds, ha]
  have hfirst := h index image ha
  rw [steps_append, ← Placement.place_place]
  generalize Render.steps Engine.plain index image ops () = done at hfirst ⊢
  obtain ⟨result, st⟩ := done
  dsimp only at hfirst ⊢
  rw [hfirst]
  exact k _ _ ha'

/-- One operation with the size and the pixels of a placement. Without pixels the size is enough. -/
theorem lays_single {op : Operation} {p : Placement} (hb : ∀ b, op.bounds b = p.bounds b)
    (ht : ∀ image, op.transform image (p.bounds image.bounds) = .ok (p.place image)) :
    Lays [op] p := by
  intro index image ha
  have happly : op.apply image (op.bounds image.bounds) = .ok (p.place image) :=
    apply_of_transform (hb _).symm (by rw [hb]; exact ht image)
  rw [steps_plain_cons, happly, if_pos (by rw [hb, Placement.isAllocatable_bounds, ha])]
  rfl

/-! ## The dihedral group -/

/-- The operations of an element: quarter turns, or a flip of the columns and then quarter turns. -/
def symmetryOps : DihedralGroup 4 → List Operation
  | .r i =>
    match i.val with
    | 0 => []
    | 1 => [.rotate90]
    | 2 => [.rotate180]
    | _ => [.rotate270]
  | .sr i =>
    match i.val with
    | 0 => [.flipHorizontal]
    | 1 => [.transpose]
    | 2 => [.flipVertical]
    | _ => [.transverse]

/-- The placement of an element. -/
def placement : DihedralGroup 4 → Placement
  | .r i =>
    match i.val with
    | 0 => ⟨false, false, false⟩
    | 1 => ⟨true, true, false⟩
    | 2 => ⟨false, true, true⟩
    | _ => ⟨true, false, true⟩
  | .sr i =>
    match i.val with
    | 0 => ⟨false, true, false⟩
    | 1 => ⟨true, false, false⟩
    | 2 => ⟨false, false, true⟩
    | _ => ⟨true, true, true⟩

/-- **Placements multiply as the elements of the group do.** -/
theorem placement_mul : ∀ g h, placement (g * h) = (placement g).andThen (placement h) := by
  decide

/-- No two elements place an image in the same way. -/
theorem placement_injective : Function.Injective placement := by
  decide

theorem lays_rotate90 : Lays [.rotate90] (placement (.r 1)) :=
  lays_single (fun _ => rfl) fun _ => if_pos rfl

theorem lays_symmetryOps (g : DihedralGroup 4) : Lays (symmetryOps g) (placement g) := by
  cases g with
  | r i =>
      fin_cases i
      · exact lays_nil
      · exact lays_rotate90
      · exact lays_single (fun _ => rfl) fun _ => if_pos rfl
      · exact lays_single (fun _ => rfl) fun _ => if_pos rfl
  | sr i =>
      fin_cases i
      · exact lays_single (fun _ => rfl) fun _ => if_pos rfl
      · exact lays_single (fun _ => rfl) fun _ => rfl
      · exact lays_single (fun _ => rfl) fun _ => if_pos rfl
      · exact lays_single (fun _ => rfl) fun _ => rfl

/-- As many quarter turns, one after the other, are the element `r turns`. -/
theorem lays_replicate (turns : Nat) :
    Lays (List.replicate turns .rotate90) (placement (.r turns)) := by
  induction turns with
  | zero => exact lays_nil
  | succ turns ih =>
      have hmul : (.r ((turns + 1 : Nat) : ZMod 4) : DihedralGroup 4) =
          .r 1 * .r (turns : ZMod 4) := by
        rw [DihedralGroup.r_mul_r, Nat.cast_add, Nat.cast_one, add_comm]
      rw [hmul, placement_mul]
      exact lays_append lays_rotate90 ih

/-- A turn by an angle that comes to quarters. -/
theorem lays_rotate {degrees : Float32} {turns : Nat} (h : Turn.quarters? degrees = some turns) :
    Lays [.rotate degrees] (placement (.r turns)) := by
  have hlt := Turn.quarters?_lt h
  refine lays_single (fun b => ?_) fun image => ?_
  · simp only [Operation.bounds, h]
    match turns, hlt with
    | 0, _ => rfl
    | 1, _ => rfl
    | 2, _ => rfl
    | 3, _ => rfl
  · simp only [Operation.transform, h]
    match turns, hlt with
    | 0, _ =>
        refine congrArg Except.ok (Image.ext_pixel rfl fun x y hx hy => ?_)
        exact (Placement.pixel_place ⟨false, false, false⟩ image hx hy).symm
    | 1, _ => exact if_pos rfl
    | 2, _ => exact if_pos rfl
    | 3, _ => exact if_pos rfl

/-! ## Rendering -/

theorem image_lays {ops : List Operation} {p : Placement} (h : Lays ops p) {image : Image}
    (ha : image.bounds.isAllocatable = true) :
    (Render.image Engine.plain image ops ()).1 = .ok (p.place image) :=
  (image_eq_steps Engine.plain_isPure Engine.plain_keepsSize image ops () ()).trans (h 0 image ha)

/-- Three columns and two rows with a mark in the first corner. -/
def markedImage : Image :=
  .generate ⟨3, 2, by decide, by decide⟩ fun x y => if x = 0 ∧ y = 0 then .white else .clear

/-- Where the mark has gone tells a placement. -/
theorem place_marked_injective : Function.Injective fun p : Placement => p.place markedImage := by
  intro p q h
  have hwidth : (p.bounds markedImage.bounds).width = (q.bounds markedImage.bounds).width :=
    congrArg Image.width h
  have hpixel : ∀ x y, (p.place markedImage).pixel x y = (q.place markedImage).pixel x y :=
    fun x y => congrArg (fun image => image.pixel x y) h
  -- three corners of either shape; if the mark is in none of them, it is in the fourth
  have hfirst := hpixel 0 0
  have hright := hpixel 2 0
  have hbelow := hpixel 0 1
  have hrightSwapped := hpixel 1 0
  have hbelowSwapped := hpixel 0 2
  clear hpixel h
  obtain ⟨swaps, mirrorsX, mirrorsY⟩ := p
  obtain ⟨swaps', mirrorsX', mirrorsY'⟩ := q
  revert swaps mirrorsX mirrorsY swaps' mirrorsX' mirrorsY'
  decide

/-- **No two elements are rendered alike.** One image is enough to tell them all apart. -/
theorem symmetries_faithful :
    Function.Injective fun g => (Render.image Engine.plain markedImage (symmetryOps g) ()).1 := by
  intro g h heq
  have hrendered : ∀ g, (Render.image Engine.plain markedImage (symmetryOps g) ()).1 =
      .ok ((placement g).place markedImage) := fun g => image_lays (lays_symmetryOps g) rfl
  dsimp only at heq
  rw [hrendered, hrendered] at heq
  exact placement_injective (place_marked_injective (Except.ok.inj heq))

/--
**Flips and turns are the symmetries of the square.** On every image that may be
made, pixels or none, rendering the operations of two elements of the dihedral
group is rendering those of their product: the same size, and every pixel where
the product puts it. So a transposition is a flip and a quarter turn, and a turn by
an angle that comes to quarters is as many quarter turns.
-/
theorem symmetries_compose (image : Image) (ha : image.bounds.isAllocatable = true) :
    let rendered (ops : List Operation) := (Render.image Engine.plain image ops ()).1
    (∀ g h : DihedralGroup 4,
        rendered (symmetryOps g ++ symmetryOps h) = rendered (symmetryOps (g * h))
          ∧ rendered (symmetryOps (g * h)) = .ok ((placement (g * h)).place image))
      ∧ rendered [.transpose] = rendered [.flipHorizontal, .rotate90]
      ∧ rendered [.transverse] = rendered [.flipVertical, .rotate90]
      ∧ ∀ degrees turns, Turn.quarters? degrees = some turns →
          rendered [.rotate degrees] = rendered (List.replicate turns .rotate90) := by
  intro rendered
  have hone : ∀ g, rendered (symmetryOps g) = .ok ((placement g).place image) :=
    fun g => image_lays (lays_symmetryOps g) ha
  have htwo : ∀ g h,
      rendered (symmetryOps g ++ symmetryOps h) = rendered (symmetryOps (g * h)) := by
    intro g h
    rw [hone, placement_mul]
    exact image_lays (lays_append (lays_symmetryOps g) (lays_symmetryOps h)) ha
  refine ⟨fun g h => ⟨htwo g h, hone _⟩, ?_, ?_, fun degrees turns hq => ?_⟩
  · exact (htwo (.sr 0) (.r 1)).symm
  · exact (htwo (.sr 2) (.r 1)).symm
  · exact (image_lays (lays_rotate hq) ha).trans (image_lays (lays_replicate turns) ha).symm

/-- An image of two columns, turned by 450 degrees and by 90. -/
theorem symmetries_compose_quarter :
    let image := Image.generate ⟨2, 1, by decide, by decide⟩ fun x _ =>
      if x = 0 then Pixel.white else Pixel.clear
    image.bounds.isAllocatable = true ∧ Turn.quarters? 450 = some 1
      ∧ (Render.image Engine.plain image [.rotate 450] ()).1 =
        (Render.image Engine.plain image [.rotate90] ()).1
      ∧ (Render.image Engine.plain image [.flipVertical, .transpose] ()).1 =
        (Render.image Engine.plain image [.rotate270] ()).1 := by
  have hq : Turn.quarters? 450 = some 1 := by decide +kernel
  intro image
  obtain ⟨hmul, _, _, hrotate⟩ := symmetries_compose image rfl
  exact ⟨rfl, hq, hrotate 450 1 hq, (hmul (.sr 2) (.sr 1)).1⟩

end RasterScript
