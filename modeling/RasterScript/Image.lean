import RasterScript.Bounds

/-!
# Images

An image is an array of pixels in row order, as many as its bounds call for. It is read through
`Image.pixel` and built by `Image.generate`, which fills every place from a function of the
coordinates; the lemmas below tie the two together, and nothing else needs to know the layout.
-/

namespace RasterScript

/-- Red, green, blue and alpha; colours are not multiplied by alpha. -/
structure Pixel where
  red : UInt8
  green : UInt8
  blue : UInt8
  alpha : UInt8
deriving DecidableEq

namespace Pixel

/-- Transparent black, which a fresh image is filled with. -/
def clear : Pixel := ⟨0, 0, 0, 0⟩

/-- Opaque white. -/
def white : Pixel := ⟨255, 255, 255, 255⟩

end Pixel

/-- Pixels in row order. -/
structure Image where
  bounds : Bounds
  pixels : Array Pixel
  size_pixels : pixels.size = bounds.area

namespace Image

/-- The image whose pixel at `(x, y)` is `f x y`. -/
def generate (bounds : Bounds) (f : Nat → Nat → Pixel) : Image where
  bounds := bounds
  pixels := Array.ofFn (n := bounds.area) fun i => f (i.val % bounds.width) (i.val / bounds.width)
  size_pixels := Array.size_ofFn

/-- The number of columns. -/
def width (image : Image) : Nat := image.bounds.width

/-- The number of rows. -/
def height (image : Image) : Nat := image.bounds.height

/-- The pixel at `(x, y)`; transparent black past the last one. -/
def pixel (image : Image) (x y : Nat) : Pixel :=
  image.pixels.getD (y * image.width + x) Pixel.clear

/-- An image of the given size with every pixel transparent black. -/
def blank (bounds : Bounds) : Image := generate bounds fun _ _ => Pixel.clear

/-- The same function on every pixel. -/
def map (image : Image) (f : Pixel → Pixel) : Image :=
  generate image.bounds fun x y => f (image.pixel x y)

@[simp] theorem bounds_generate (bounds : Bounds) (f : Nat → Nat → Pixel) :
    (generate bounds f).bounds = bounds := rfl

@[simp] theorem width_generate (bounds : Bounds) (f : Nat → Nat → Pixel) :
    (generate bounds f).width = bounds.width := rfl

@[simp] theorem height_generate (bounds : Bounds) (f : Nat → Nat → Pixel) :
    (generate bounds f).height = bounds.height := rfl

theorem index_lt {width height x y : Nat} (hx : x < width) (hy : y < height) :
    y * width + x < width * height := by
  have : (y + 1) * width ≤ height * width := Nat.mul_le_mul_right _ hy
  rw [Nat.add_mul, Nat.one_mul] at this
  rw [Nat.mul_comm width height]
  omega

/-- A generated image holds what its function says. -/
@[simp] theorem pixel_generate {bounds : Bounds} {f : Nat → Nat → Pixel} {x y : Nat}
    (hx : x < bounds.width) (hy : y < bounds.height) :
    (generate bounds f).pixel x y = f x y := by
  have hpos : 0 < bounds.width := by omega
  have hmod : (y * bounds.width + x) % bounds.width = x := by
    rw [Nat.mul_comm, Nat.mul_add_mod, Nat.mod_eq_of_lt hx]
  have hdiv : (y * bounds.width + x) / bounds.width = y := by
    rw [Nat.mul_comm, Nat.mul_add_div hpos, Nat.div_eq_of_lt hx, Nat.add_zero]
  have hi := index_lt hx hy
  simp only [pixel, width, generate, Array.getD_eq_getD_getElem?]
  rw [Array.getElem?_ofFn]
  simp [Bounds.area, hi, hmod, hdiv]

theorem pixel_map (image : Image) (f : Pixel → Pixel) {x y : Nat} (hx : x < image.width)
    (hy : y < image.height) : (image.map f).pixel x y = f (image.pixel x y) :=
  pixel_generate hx hy

/-- Images of one size with the same pixels are the same. -/
theorem ext_pixel {a b : Image} (hb : a.bounds = b.bounds)
    (h : ∀ x y, x < a.width → y < a.height → a.pixel x y = b.pixel x y) : a = b := by
  obtain ⟨ba, pa, ha⟩ := a
  obtain ⟨bb, pb, hb'⟩ := b
  cases hb
  congr 1
  have hsize : pa.size = ba.width * ba.height := ha
  apply Array.ext (ha.trans hb'.symm)
  intro i hi hi'
  have hlt : i < ba.width * ba.height := hsize ▸ hi
  have hpos : 0 < ba.width := Nat.pos_of_ne_zero fun hw => by simp [hw] at hlt
  have hx : i % ba.width < ba.width := Nat.mod_lt _ hpos
  have hy : i / ba.width < ba.height := by
    rwa [Nat.div_lt_iff_lt_mul hpos, Nat.mul_comm]
  have := h (i % ba.width) (i / ba.width) hx hy
  have hsplit : i / ba.width * ba.width + i % ba.width = i := by
    rw [Nat.mul_comm]; exact Nat.div_add_mod i ba.width
  simp only [pixel, width, hsplit, Array.getD_eq_getD_getElem?] at this
  simpa [hi, hi'] using this

end Image

end RasterScript
