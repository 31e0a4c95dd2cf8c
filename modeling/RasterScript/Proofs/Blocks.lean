import Mathlib.Algebra.BigOperators.Intervals
import Mathlib.Algebra.Order.BigOperators.Group.Finset
import RasterScript.Filter.Region
import RasterScript.Proofs.Pixels
import RasterScript.Proofs.Sizes

/-!
# Blocks

A block is what places with the same quotients by the side of a block have in common
(`block`); along the right and the lower border the image cuts blocks short. An
average is taken over corners and lengths, and these come to the block itself
(`block_eq_product`). So a pixel of a pixelated image is the rounded average of the
block that it is in, and since all pixels of a block are then the same, averaging
them again changes nothing.

The averages can also be written one place after the other, block by block in rows
of blocks. That order visits every place exactly once, and so it does not matter what
the destination held before (`pixelate_averages`).
-/

namespace RasterScript

/-! ## Writing pixel by pixel -/

namespace Image

/-- The image with another pixel at one place. -/
def put (image : Image) (place : Nat × Nat) (p : Pixel) : Image :=
  generate image.bounds fun x y => if (x, y) = place then p else image.pixel x y

theorem pixel_put {image : Image} {x y : Nat} (hx : x < image.width) (hy : y < image.height)
    (place : Nat × Nat) (p : Pixel) :
    (image.put place p).pixel x y = if (x, y) = place then p else image.pixel x y :=
  pixel_generate hx hy

/-- The image after some pixels have been written, one after the other. -/
def written (image : Image) (writes : List ((Nat × Nat) × Pixel)) : Image :=
  writes.foldl (fun image write => image.put write.1 write.2) image

theorem bounds_written (image : Image) (writes : List ((Nat × Nat) × Pixel)) :
    (image.written writes).bounds = image.bounds := by
  induction writes generalizing image with
  | nil => rfl
  | cons write writes ih => exact ih (image.put write.1 write.2)

/-- A place that is not written keeps its pixel. -/
theorem pixel_written_of_not_mem {image : Image} {writes : List ((Nat × Nat) × Pixel)} {x y : Nat}
    (hx : x < image.width) (hy : y < image.height) (h : (x, y) ∉ writes.map Prod.fst) :
    (image.written writes).pixel x y = image.pixel x y := by
  induction writes generalizing image with
  | nil => rfl
  | cons write writes ih =>
      rw [List.map_cons, List.mem_cons, not_or] at h
      have hrest : ((image.put write.1 write.2).written writes).pixel x y = _ := ih hx hy h.2
      exact hrest.trans ((pixel_put hx hy _ _).trans (if_neg h.1))

/-- **A place that is written once holds what was written.** -/
theorem pixel_written {image : Image} {writes : List ((Nat × Nat) × Pixel)}
    (honce : (writes.map Prod.fst).Nodup) {x y : Nat} (hx : x < image.width)
    (hy : y < image.height) {p : Pixel} (h : ((x, y), p) ∈ writes) :
    (image.written writes).pixel x y = p := by
  induction writes generalizing image with
  | nil => exact absurd h List.not_mem_nil
  | cons write writes ih =>
      obtain ⟨hnew, honce⟩ := List.nodup_cons.mp honce
      rcases List.mem_cons.mp h with rfl | h
      · have hrest : ((image.put (x, y) p).written writes).pixel x y = _ :=
          pixel_written_of_not_mem hx hy hnew
        exact hrest.trans ((pixel_put hx hy _ _).trans (if_pos rfl))
      · have hrest : ((image.put write.1 write.2).written writes).pixel x y = p :=
          ih honce hx hy h
        exact hrest

end Image

namespace Block

/-! ## The places of a block -/

section Along

variable {length size : Nat} (hsize : 0 < size)
include hsize

/-- The block along a side with number `i`, by its first place and its length. -/
theorem quotient_iff {i k : Nat} :
    (k < length ∧ k / size = i) ↔
      i * size ≤ k ∧ k < i * size + min size (length - i * size) := by
  have hquotient := Nat.div_add_mod k size
  have hrest := Nat.mod_lt k hsize
  rw [Nat.mul_comm size] at hquotient
  constructor
  · intro h
    obtain ⟨hk, rfl⟩ := h
    omega
  · intro h
    obtain ⟨hlow, hhigh⟩ := h
    refine ⟨by omega, Nat.div_eq_of_lt_le hlow ?_⟩
    rw [Nat.add_mul]
    omega

/-- There are as many blocks along a side as it takes to cover it. -/
theorem quotient_lt {k : Nat} (hk : k < length) : k / size < (length + size - 1) / size := by
  have hlast : k / size ≤ (length - 1) / size := Nat.div_le_div_right (by omega)
  have hcount : (length + size - 1) / size = (length - 1) / size + 1 := by
    rw [← Nat.add_div_right _ hsize]
    congr 1
    omega
  omega

theorem count_le : (length + size - 1) / size ≤ length := by
  have hlength : length ≤ length * size := Nat.le_mul_of_pos_right length hsize
  rw [← Nat.lt_succ_iff, Nat.div_lt_iff_lt_mul hsize, Nat.succ_mul]
  omega

end Along

/-- The places with the same quotients as `(x, y)`. -/
def block (b : Bounds) (size x y : Nat) : Finset (Nat × Nat) :=
  b.grid.filter fun p => p.1 / size = x / size ∧ p.2 / size = y / size

theorem mem_block {b : Bounds} {size x y : Nat} {p : Nat × Nat} :
    p ∈ block b size x y ↔
      (p.1 < b.width ∧ p.1 / size = x / size) ∧ p.2 < b.height ∧ p.2 / size = y / size := by
  rw [block, Finset.mem_filter, Bounds.mem_grid]
  exact and_and_and_comm

/-- The first place of a block along a side. -/
def start (size k : Nat) : Nat := k / size * size

/-- The length of a block along a side, which the end of the side may cut short. -/
def extent (length size k : Nat) : Nat := min size (length - start size k)

/-- A block is a rectangle. -/
theorem block_eq_product {size : Nat} (hsize : 0 < size) (b : Bounds) (x y : Nat) :
    block b size x y =
      Finset.Ico (start size x) (start size x + extent b.width size x) ×ˢ
        Finset.Ico (start size y) (start size y + extent b.height size y) := by
  refine Finset.ext fun p => ?_
  rw [mem_block, quotient_iff hsize, quotient_iff hsize, Finset.mem_product, Finset.mem_Ico,
    Finset.mem_Ico]
  rfl

/-! ## Averages -/

theorem sumTo_eq (n : Nat) (f : Nat → Nat) : sumTo n f = ∑ i ∈ Finset.range n, f i := by
  induction n with
  | zero => rfl
  | succ n ih =>
      rw [Finset.sum_range_succ, ← ih, sumTo, sumTo, List.range_succ, List.foldl_append]
      rfl

/-- The sum of one channel over a block. -/
def blockSum (image : Image) (size x y : Nat) (c : Channel) : Nat :=
  ∑ p ∈ block image.bounds size x y, ((image.pixel p.1 p.2).get c).toNat

/-- The sum of one channel over a block, with half the number of its pixels added. -/
def rounded (image : Image) (size x y : Nat) (c : Channel) : Nat :=
  blockSum image size x y c + (block image.bounds size x y).card / 2

theorem get_average (image : Image) (size i j : Nat) (c : Channel) :
    (average image size i j).get c =
      averageChannel image (i * size) (j * size) (min size (image.width - i * size))
        (min size (image.height - j * size)) fun p => p.get c := by
  cases c <;> rfl

/-- **The average of a block is taken over all of it.** -/
theorem get_average_block {size : Nat} (hsize : 0 < size) (image : Image) (x y : Nat)
    (c : Channel) :
    (average image size (x / size) (y / size)).get c =
      UInt8.ofNat (rounded image size x y c / (block image.bounds size x y).card) := by
  have hrows : ∀ g : Nat × Nat → Nat, ∑ p ∈ block image.bounds size x y, g p =
      sumTo (extent image.height size y) fun j =>
        sumTo (extent image.width size x) fun i => g (start size x + i, start size y + j) := by
    intro g
    rw [block_eq_product hsize, Finset.sum_product_right, Finset.sum_Ico_eq_sum_range,
      Nat.add_sub_cancel_left, sumTo_eq]
    refine Finset.sum_congr rfl fun j _ => ?_
    rw [Finset.sum_Ico_eq_sum_range, Nat.add_sub_cancel_left, sumTo_eq]
    rfl
  have hcard : (block image.bounds size x y).card =
      extent image.width size x * extent image.height size y := by
    rw [block_eq_product hsize, Finset.card_product, Nat.card_Ico, Nat.card_Ico,
      Nat.add_sub_cancel_left, Nat.add_sub_cancel_left]
    rfl
  rw [get_average, rounded, blockSum, hrows, hcard]
  rfl

theorem blockSum_le (image : Image) (size x y : Nat) (c : Channel) :
    blockSum image size x y c ≤ (block image.bounds size x y).card * 255 :=
  Finset.sum_le_card_nsmul _ _ _ fun _ _ => Nat.le_of_lt_succ (UInt8.toNat_lt _)

theorem card_block_le (b : Bounds) (size x y : Nat) : (block b size x y).card ≤ b.area :=
  (Finset.card_le_card (Finset.filter_subset _ _)).trans_eq b.card_grid

section Inside

variable {image : Image} {x y : Nat} (hx : x < image.width) (hy : y < image.height)
  (size : Nat)
include hx hy

/-- No block is empty. -/
theorem card_block_pos : 0 < (block image.bounds size x y).card :=
  Finset.card_pos.mpr ⟨(x, y), mem_block.mpr ⟨⟨hx, rfl⟩, hy, rfl⟩⟩

/-- A block of one value averages to it. -/
theorem quotient_rounded_eq {c : Channel} {value : UInt8}
    (h : ∀ p ∈ block image.bounds size x y, (image.pixel p.1 p.2).get c = value) :
    rounded image size x y c / (block image.bounds size x y).card = value.toNat := by
  have hsum : blockSum image size x y c = (block image.bounds size x y).card * value.toNat :=
    Finset.sum_const_nat fun p hp => congrArg UInt8.toNat (h p hp)
  rw [rounded, hsum]
  exact average_const (card_block_pos hx hy size) value.toNat

end Inside

/-! ## The order of writing -/

/-- The places of the block with numbers `i` and `j`, row by row. -/
def placesOf (b : Bounds) (size i j : Nat) : List (Nat × Nat) :=
  (List.range' (j * size) (min size (b.height - j * size))).flatMap fun y =>
    (List.range' (i * size) (min size (b.width - i * size))).map fun x => (x, y)

/-- All places, block by block in rows of blocks. -/
def visits (b : Bounds) (size : Nat) : List (Nat × Nat) :=
  (List.range ((b.height + size - 1) / size)).flatMap fun j =>
    (List.range ((b.width + size - 1) / size)).flatMap fun i => placesOf b size i j

/-- What is written where, in that order: to each place of a block the average of the block. -/
def writes (image : Image) (size : Nat) : List ((Nat × Nat) × Pixel) :=
  (List.range ((image.height + size - 1) / size)).flatMap fun j =>
    (List.range ((image.width + size - 1) / size)).flatMap fun i =>
      (placesOf image.bounds size i j).map fun p => (p, average image size i j)

theorem map_writes (image : Image) (size : Nat) :
    (writes image size).map Prod.fst = visits image.bounds size := by
  unfold writes visits
  simp only [List.map_flatMap, List.map_map, Function.comp_def, List.map_id_fun', id]
  rfl

section Visits

variable {b : Bounds} {size : Nat} (hsize : 0 < size)
include hsize

theorem mem_placesOf {i j : Nat} {p : Nat × Nat} :
    p ∈ placesOf b size i j ↔
      (p.1 < b.width ∧ p.1 / size = i) ∧ p.2 < b.height ∧ p.2 / size = j := by
  rw [quotient_iff hsize, quotient_iff hsize, placesOf, List.mem_flatMap]
  constructor
  · intro h
    obtain ⟨y, hy, hp⟩ := h
    obtain ⟨x, hx, rfl⟩ := List.mem_map.mp hp
    exact ⟨List.mem_range'_1.mp hx, List.mem_range'_1.mp hy⟩
  · intro h
    exact ⟨p.2, List.mem_range'_1.mpr h.2,
      List.mem_map.mpr ⟨p.1, List.mem_range'_1.mpr h.1, rfl⟩⟩

omit hsize in
theorem nodup_placesOf (i j : Nat) : (placesOf b size i j).Nodup := by
  have hrange : ∀ first count : Nat, (List.range' first count).Nodup :=
    fun _ _ => List.nodup_range'
  refine List.nodup_flatMap.mpr ⟨fun y _ => ?_, ?_⟩
  · refine List.Nodup.map ?_ (hrange _ _)
    intro x x' h
    exact (Prod.mk.inj h).1
  · refine (hrange _ _).imp fun {y y'} hne => ?_
    intro p hp hp'
    obtain ⟨_, _, rfl⟩ := List.mem_map.mp hp
    obtain ⟨_, _, heq⟩ := List.mem_map.mp hp'
    exact hne (Prod.mk.inj heq).2.symm

theorem mem_visits {p : Nat × Nat} : p ∈ visits b size ↔ p.1 < b.width ∧ p.2 < b.height := by
  rw [visits, List.mem_flatMap]
  constructor
  · intro h
    obtain ⟨j, _, hp⟩ := h
    obtain ⟨i, _, hp⟩ := List.mem_flatMap.mp hp
    obtain ⟨⟨hx, _⟩, hy, _⟩ := (mem_placesOf hsize).mp hp
    exact ⟨hx, hy⟩
  · intro h
    obtain ⟨hx, hy⟩ := h
    refine ⟨p.2 / size, List.mem_range.mpr (quotient_lt hsize hy), ?_⟩
    refine List.mem_flatMap.mpr ⟨p.1 / size, List.mem_range.mpr (quotient_lt hsize hx), ?_⟩
    exact (mem_placesOf hsize).mpr ⟨⟨hx, rfl⟩, hy, rfl⟩

/-- **No place is visited twice.** -/
theorem nodup_visits : (visits b size).Nodup := by
  refine List.nodup_flatMap.mpr ⟨fun j _ => List.nodup_flatMap.mpr ⟨fun i _ => ?_, ?_⟩, ?_⟩
  · exact nodup_placesOf i j
  · -- blocks of one row of blocks differ in the quotients of their columns
    refine List.nodup_range.imp fun {i i'} hne => ?_
    intro p hp hp'
    exact hne (((mem_placesOf hsize).mp hp).1.2.symm.trans ((mem_placesOf hsize).mp hp').1.2)
  · refine List.nodup_range.imp fun {j j'} hne => ?_
    intro p hp hp'
    obtain ⟨i, _, hp⟩ := List.mem_flatMap.mp hp
    obtain ⟨i', _, hp'⟩ := List.mem_flatMap.mp hp'
    exact hne (((mem_placesOf hsize).mp hp).2.2.symm.trans ((mem_placesOf hsize).mp hp').2.2)

theorem mem_writes {image : Image} {x y : Nat} (hx : x < image.width) (hy : y < image.height) :
    ((x, y), average image size (x / size) (y / size)) ∈ writes image size := by
  refine List.mem_flatMap.mpr ⟨y / size, List.mem_range.mpr (quotient_lt hsize hy), ?_⟩
  refine List.mem_flatMap.mpr ⟨x / size, List.mem_range.mpr (quotient_lt hsize hx), ?_⟩
  exact List.mem_map.mpr ⟨(x, y), (mem_placesOf hsize).mpr ⟨⟨hx, rfl⟩, hy, rfl⟩, rfl⟩

end Visits

/-! ## Pixelated images -/

theorem pixel_averages {size : Nat} (hsize : 0 < size) {image : Image} {x y : Nat}
    (hx : x < image.width) (hy : y < image.height) :
    (averages image size).pixel (x / size) (y / size) =
      average image size (x / size) (y / size) := by
  have hside : ∀ length, length ≤ maxSide →
      Bounds.clampSide ((length + size - 1) / size : Nat) = (length + size - 1) / size := by
    intro length hlength
    exact Bounds.clampSide_natCast ((count_le hsize).trans hlength)
  refine Image.pixel_generate ?_ ?_
  · exact (quotient_lt hsize hx).trans_eq (hside _ image.bounds.width_le).symm
  · exact (quotient_lt hsize hy).trans_eq (hside _ image.bounds.height_le).symm

/-- The side of the blocks of a size that has blocks. -/
theorem side_pos {size : Int32} (hsize : 2 ≤ size) : ¬ size ≤ 1 ∧ 0 < size.toInt.toNat := by
  have hint : 2 ≤ size.toInt := Int32.le_iff_toInt_le.mp hsize
  refine ⟨fun h => ?_, by omega⟩
  have hone : size.toInt ≤ 1 := Int32.le_iff_toInt_le.mp h
  omega

theorem bounds_pixelate (image : Image) (size : Int32) :
    (pixelate image size).bounds = image.bounds := by
  unfold pixelate
  split <;> rfl

section Pixelate

variable {size : Int32} (hsize : 2 ≤ size)
include hsize

theorem pixel_pixelate {image : Image} {x y : Nat} (hx : x < image.width)
    (hy : y < image.height) :
    (pixelate image size).pixel x y =
      average image size.toInt.toNat (x / size.toInt.toNat) (y / size.toInt.toNat) := by
  obtain ⟨hblocks, hside⟩ := side_pos hsize
  rw [pixelate, if_neg hblocks]
  exact (Image.pixel_generate hx hy).trans (pixel_averages hside hx hy)

theorem toNat_pixelate {image : Image} {x y : Nat} (hx : x < image.width)
    (hy : y < image.height) (c : Channel) :
    (((pixelate image size).pixel x y).get c).toNat =
      rounded image size.toInt.toNat x y c /
        (block image.bounds size.toInt.toNat x y).card := by
  rw [pixel_pixelate hsize hx hy, get_average_block (side_pos hsize).2]
  exact UInt8.toNat_ofNat_of_lt (average_lt (card_block_pos hx hy _) (blockSum_le image _ x y c))

/-- **Writing the averages out block by block pixelates,** whatever was there before. -/
theorem written_writes {image dst : Image} (h : dst.bounds = image.bounds) :
    dst.written (writes image size.toInt.toNat) = pixelate image size := by
  obtain ⟨_, hside⟩ := side_pos hsize
  have hbounds : (dst.written (writes image size.toInt.toNat)).bounds = image.bounds := by
    rw [Image.bounds_written, h]
  refine Image.ext_pixel (hbounds.trans (bounds_pixelate image size).symm) fun x y hx hy => ?_
  rw [Image.width_congr hbounds] at hx
  rw [Image.height_congr hbounds] at hy
  have honce : ((writes image size.toInt.toNat).map Prod.fst).Nodup := by
    rw [map_writes]
    exact nodup_visits hside
  rw [pixel_pixelate hsize hx hy]
  exact Image.pixel_written honce (Image.width_congr h ▸ hx) (Image.height_congr h ▸ hy)
    (mem_writes hside hx hy)

/-- **Blocks of one colour stay as they are.** -/
theorem pixelate_pixelate (image : Image) :
    pixelate (pixelate image size) size = pixelate image size := by
  have hbounds := bounds_pixelate image size
  refine Image.ext_pixel (bounds_pixelate _ _) fun x y hx hy => Pixel.ext_get fun c => ?_
  rw [Image.width_congr (bounds_pixelate _ _)] at hx
  rw [Image.height_congr (bounds_pixelate _ _)] at hy
  refine UInt8.toNat_inj.mp ((toNat_pixelate hsize hx hy c).trans ?_)
  refine quotient_rounded_eq hx hy _ fun p hp => ?_
  rw [hbounds] at hp
  obtain ⟨⟨hpx, hcolumn⟩, hpy, hrow⟩ := mem_block.mp hp
  rw [Image.width_congr hbounds] at hx
  rw [Image.height_congr hbounds] at hy
  rw [pixel_pixelate hsize hpx hpy, pixel_pixelate hsize hx hy, hcolumn, hrow]

end Pixelate

/--
**Pixelating replaces every block by its average.** For every image and every size of at
least two:

- the places that are written, in the order in which they are, are all places of the
  image, each exactly once, and what they are written over does not matter;
- each channel of a pixel is the sum over its block and half the number of pixels in the
  block, divided by that number, which is never zero; these sums are below `2 ^ 64` on
  every image of up to `2 ^ 56` pixels, which is more than any memory holds (a step of a
  render may make `2 ^ 28`);
- pixelating again with the same size changes nothing.
-/
theorem pixelate_averages {size : Int32} (hsize : 2 ≤ size) (image : Image) :
    let side := size.toInt.toNat
    let places := (writes image side).map Prod.fst
    ((∀ p ∈ places, p.1 < image.width ∧ p.2 < image.height)
        ∧ ∀ x y, x < image.width → y < image.height → places.count (x, y) = 1)
      ∧ (∀ dst : Image, dst.bounds = image.bounds →
          dst.written (writes image side) = pixelate image size)
      ∧ (∀ x y, x < image.width → y < image.height → ∀ c,
          let pixels := block image.bounds side x y
          let sum := ∑ p ∈ pixels, ((image.pixel p.1 p.2).get c).toNat
          0 < pixels.card
            ∧ (((pixelate image size).pixel x y).get c).toNat =
              (sum + pixels.card / 2) / pixels.card
            ∧ (image.bounds.area ≤ 2 ^ 56 → sum + pixels.card / 2 < 2 ^ 64))
      ∧ (pixelate image size).bounds = image.bounds
      ∧ pixelate (pixelate image size) size = pixelate image size := by
  intro side places
  obtain ⟨_, hside⟩ := side_pos hsize
  have hplaces : places = visits image.bounds side := map_writes image side
  refine ⟨⟨fun p hp => ?_, fun x y hx hy => ?_⟩, fun dst h => written_writes hsize h,
    fun x y hx hy c => ?_, bounds_pixelate image size, pixelate_pixelate hsize image⟩
  · rw [hplaces] at hp
    exact (mem_visits hside).mp hp
  · rw [hplaces]
    exact List.count_eq_one_of_mem (nodup_visits hside) ((mem_visits hside).mpr ⟨hx, hy⟩)
  · refine ⟨card_block_pos hx hy side, toNat_pixelate hsize hx hy c, fun harea => ?_⟩
    have hsum := blockSum_le image side x y c
    have hcard := card_block_le image.bounds side x y
    unfold blockSum at hsum
    omega

/-- Three pixels in blocks of two: the last block is a single pixel. -/
theorem pixelate_averages_cut :
    let image := Image.generate ⟨3, 1, by decide, by decide⟩ fun x _ =>
      if x = 1 then Pixel.white else Pixel.clear
    (2 : Int32) ≤ 2 ∧ (((pixelate image 2).pixel 0 0).get .red).toNat = 128
      ∧ (((pixelate image 2).pixel 2 0).get .red).toNat = 0
      ∧ ((writes image 2).map Prod.fst).count (2, 0) = 1
      ∧ pixelate (pixelate image 2) 2 = pixelate image 2 := by
  intro image
  have hsize : (2 : Int32) ≤ 2 := by decide
  obtain ⟨⟨_, honce⟩, _, hpixel, _, htwice⟩ := pixelate_averages hsize image
  refine ⟨hsize, ?_, ?_, honce 2 0 (by decide) (by decide), htwice⟩
  · exact (hpixel 0 0 (by decide) (by decide) .red).2.1.trans (by decide)
  · exact (hpixel 2 0 (by decide) (by decide) .red).2.1.trans (by decide)

end Block

end RasterScript
