import Mathlib.Algebra.Order.BigOperators.Group.List
import Mathlib.Data.List.Forall2
import RasterScript.Proofs.Means
import RasterScript.Proofs.Morphology

/-!
# Statistics keep the order of images

An image that is nowhere less than another one stays so when both are replaced by
their local statistics. The two are sampled at the same places, so the samples of the
one are at most those of the other, one by one (`samples_le`), and what is left is a
fact about each statistic of lists (`Rising`).

The median is the one that takes an argument, because sorting two lists may move
values that stood side by side to different places. What sorting leaves alone is how
many values are at most a bound, and that number decides where the median is
(`median_le_iff`).

Means are taken in numbers of any size here (`exactMeans`). That is the image the
filter makes as long as 32 bits hold its sums, which `Means` is about; when they do
not, white can turn black and no order is kept.
-/

namespace RasterScript

namespace Neighbourhood

/-! ## Values one by one -/

/-- The values of one list are at most those of another, one by one. -/
def Below : List UInt8 → List UInt8 → Prop := List.Forall₂ (· ≤ ·)

/-- What is in the one list has a counterpart in the other. -/
theorem exists_counterpart {R : UInt8 → UInt8 → Prop} {as bs : List UInt8}
    (h : List.Forall₂ R as bs) : ∀ a ∈ as, ∃ b ∈ bs, R a b := by
  induction h with
  | nil => exact fun a ha => absurd ha List.not_mem_nil
  | cons hab _ ih =>
      rintro a (_ | ⟨_, ha⟩)
      · exact ⟨_, List.mem_cons_self, hab⟩
      · obtain ⟨b, hb, hrel⟩ := ih a ha
        exact ⟨b, List.mem_cons_of_mem _ hb, hrel⟩

theorem Below.total_le {as bs : List UInt8} (h : Below as bs) : total as ≤ total bs := by
  refine List.Forall₂.sum_le_sum ?_
  rw [List.forall₂_map_left_iff, List.forall₂_map_right_iff]
  exact List.Forall₂.imp (fun _ _ => UInt8.le_iff_toNat_le.mp) h

/-- Fewer of the greater values are at most a bound. -/
theorem Below.countP_le {as bs : List UInt8} (h : Below as bs) (bound : UInt8) :
    bs.countP (· ≤ bound) ≤ as.countP (· ≤ bound) := by
  induction h with
  | nil => exact Nat.le_refl _
  | @cons a b _ _ hab _ ih =>
      rw [List.countP_cons, List.countP_cons]
      by_cases hb : b ≤ bound
      · have ha : a ≤ bound := UInt8.le_trans hab hb
        simpa [ha, hb] using ih
      · simp only [hb, decide_false, Bool.false_eq_true, if_false]
        omega

/-- A statistic that does not become less when none of its values does. -/
def Rising (f : List UInt8 → UInt8) : Prop :=
  ∀ {as bs : List UInt8}, as ≠ [] → Below as bs → f as ≤ f bs

theorem Below.ne_nil {as bs : List UInt8} (h : Below as bs) (hne : as ≠ []) : bs ≠ [] := by
  intro hbs
  subst hbs
  exact hne (List.forall₂_nil_right_iff.mp h)

theorem rising_least : Rising least := by
  intro as bs hne h
  refine (le_least_iff (h.ne_nil hne)).mpr fun b hb => ?_
  obtain ⟨a, ha, hle⟩ := exists_counterpart (R := (· ≥ ·)) (List.Forall₂.flip h) b hb
  exact UInt8.le_trans ((least_spec hne).2 a ha) hle

theorem rising_greatest : Rising greatest := by
  intro as bs hne h
  refine (greatest_le_iff hne).mpr fun a ha => ?_
  obtain ⟨b, hb, hle⟩ := exists_counterpart h a ha
  exact UInt8.le_trans hle ((greatest_spec (h.ne_nil hne)).2 b hb)

/-! ## Medians -/

/-- In order, a value is at most a bound just if more values than come before it are. -/
theorem getElem_le_iff {values : List UInt8} (h : values.Pairwise (· ≤ ·)) (bound : UInt8) {i : Nat}
    (hi : i < values.length) : values[i] ≤ bound ↔ i < values.countP (· ≤ bound) := by
  induction values generalizing i with
  | nil => exact absurd hi (Nat.not_lt_zero i)
  | cons first rest ih =>
      obtain ⟨hfirst, hrest⟩ := List.pairwise_cons.mp h
      by_cases hbound : first ≤ bound
      · rw [List.countP_cons_of_pos (p := fun v => decide (v ≤ bound)) (decide_eq_true hbound)]
        cases i with
        | zero => exact iff_of_true hbound (Nat.succ_pos _)
        | succ i =>
            rw [List.getElem_cons_succ, ih hrest, Nat.add_lt_add_iff_right]
      · -- nothing that comes later is at most the bound either
        have hnone : (first :: rest).countP (· ≤ bound) = 0 := by
          refine List.countP_eq_zero.mpr fun v hv hle => hbound ?_
          rcases List.mem_cons.mp hv with rfl | hv
          · exact of_decide_eq_true hle
          · exact UInt8.le_trans (hfirst v hv) (of_decide_eq_true hle)
        rw [hnone]
        refine iff_of_false (fun hle => hbound ?_) (Nat.not_lt_zero i)
        rcases List.mem_cons.mp (List.getElem_mem hi) with heq | hmem
        · exact heq ▸ hle
        · exact UInt8.le_trans (hfirst _ hmem) hle

/-- **The median is at most a bound just if more than half of the values are.** -/
theorem median_le_iff {values : List UInt8} (hne : values ≠ []) (bound : UInt8) :
    median values ≤ bound ↔ values.length / 2 < values.countP (· ≤ bound) := by
  obtain ⟨hlt, hmedian⟩ := List.getElem?_eq_some_iff.mp (median_spec hne)
  rw [← hmedian, getElem_le_iff (pairwise_sorted values) bound hlt, (sorted_perm values).countP_eq]

theorem median_mem {values : List UInt8} (hne : values ≠ []) : median values ∈ values :=
  (sorted_perm values).mem_iff.mp (List.mem_of_getElem? (median_spec hne))

theorem rising_median : Rising median := by
  intro as bs hne h
  have hmiddle : as.length / 2 < bs.countP (· ≤ median bs) := by
    rw [List.Forall₂.length_eq h]
    exact (median_le_iff (h.ne_nil hne) _).mp (UInt8.le_refl _)
  exact (median_le_iff hne _).mpr (Nat.lt_of_lt_of_le hmiddle (h.countP_le _))

/-! ## Means without a limit -/

/-- The average of some values, a half going up, in numbers of any size. -/
def exactMean (values : List UInt8) : UInt8 :=
  UInt8.ofNat ((total values + values.length / 2) / values.length)

theorem toNat_exactMean {values : List UInt8} (hne : values ≠ []) :
    (exactMean values).toNat = (total values + values.length / 2) / values.length :=
  UInt8.toNat_ofNat_of_lt' (average_lt (List.length_pos_iff.mpr hne) (total_le values))

theorem rising_exactMean : Rising exactMean := by
  intro as bs hne h
  have htotal := h.total_le
  rw [UInt8.le_iff_toNat_le, toNat_exactMean hne, toNat_exactMean (h.ne_nil hne),
    ← List.Forall₂.length_eq h]
  exact Nat.div_le_div_right (by omega)

theorem exactMean_replicate {count : Nat} (hpos : 0 < count) (value : UInt8) :
    exactMean (List.replicate count value) = value := by
  refine UInt8.toNat_inj.mp ((toNat_exactMean (by simpa using hpos.ne')).trans ?_)
  rw [total_replicate, List.length_replicate, average_const hpos]

section Bounded

variable {values : List UInt8} (hne : values ≠ [])
include hne

/-- The mean of values that are at least a bound is at least the bound. -/
theorem le_exactMean {bound : UInt8} (h : ∀ v ∈ values, bound ≤ v) : bound ≤ exactMean values := by
  have hpos := List.length_pos_iff.mpr hne
  rw [← exactMean_replicate hpos bound]
  refine rising_exactMean (by simpa using hpos.ne') ?_
  refine List.forall₂_iff_get.mpr ⟨List.length_replicate, fun i _ hi => ?_⟩
  simpa using h _ (List.getElem_mem hi)

theorem exactMean_le {bound : UInt8} (h : ∀ v ∈ values, v ≤ bound) : exactMean values ≤ bound := by
  have hpos := List.length_pos_iff.mpr hne
  rw [← exactMean_replicate hpos bound]
  refine rising_exactMean hne ?_
  refine List.forall₂_iff_get.mpr ⟨List.length_replicate.symm, fun i hi _ => ?_⟩
  simpa using h _ (List.getElem_mem hi)

end Bounded

/-! ## Images of statistics -/

/-- The image whose channels are a statistic of their samples. -/
def summarized (f : List UInt8 → UInt8) (image : Image) (size : Int32) : Image :=
  Image.generate image.bounds fun x y =>
    let channel (c : Channel) : UInt8 := f (samples image size x y c)
    ⟨channel .red, channel .green, channel .blue, channel .alpha⟩

theorem get_summarized (f : List UInt8 → UInt8) {image : Image} (size : Int32) {x y : Nat}
    (hx : x < image.width) (hy : y < image.height) (c : Channel) :
    ((summarized f image size).pixel x y).get c = f (samples image size x y c) := by
  rw [summarized, Image.pixel_generate hx hy]
  cases c <;> rfl

theorem filter_eq_summarized (image : Image) (statistic : Statistic) (size : Int32) :
    filter image statistic size = summarized (reduce statistic) image size := by
  refine Image.ext_pixel (bounds_filter image statistic size) fun x y hx hy =>
    Pixel.ext_get fun c => ?_
  rw [Image.width_congr (bounds_filter image statistic size)] at hx
  rw [Image.height_congr (bounds_filter image statistic size)] at hy
  rw [get_filter hx hy, get_summarized _ size hx hy]

/-- The samples of a lesser image are less, one by one. -/
theorem samples_le {a b : Image} (h : a ≤ b) (size : Int32) (x y : Nat) (c : Channel)
    (hx : x < a.width) (hy : y < a.height) :
    Below (samples a size x y c) (samples b size x y c) := by
  obtain ⟨hbounds, hle⟩ := h
  unfold Below samples
  rw [← hbounds, List.forall₂_map_left_iff, List.forall₂_map_right_iff, List.forall₂_same]
  intro p hp
  obtain ⟨hpx, hpy, _⟩ := (mem_places hx hy).mp hp
  exact hle p.1 p.2 hpx hpy c

/-- **Images of statistics are in order if the statistics of their samples are.** -/
theorem summarized_le {f g : List UInt8 → UInt8} {a b : Image} (hab : a ≤ b)
    (h : ∀ {as bs}, as ≠ [] → Below as bs → f as ≤ g bs) (size : Int32) :
    summarized f a size ≤ summarized g b size := by
  refine Image.le_def.mpr ⟨hab.1, fun x y hx hy c => ?_⟩
  have hx : x < a.width := hx
  have hy : y < a.height := hy
  have hx' : x < b.width := Image.width_congr hab.1 ▸ hx
  have hy' : y < b.height := Image.height_congr hab.1 ▸ hy
  rw [get_summarized f size hx hy, get_summarized g size hx' hy']
  exact h (samples_ne_nil hx hy size c) (samples_le hab size x y c hx hy)

/-- If the one statistic is at most the other on the same values, so are their images. -/
theorem summarized_le_self {f g : List UInt8 → UInt8} (hg : Rising g)
    (h : ∀ {values}, values ≠ [] → f values ≤ g values) (image : Image) (size : Int32) :
    summarized f image size ≤ summarized g image size :=
  summarized_le (le_refl image) (fun hne hbelow => UInt8.le_trans (h hne) (hg hne hbelow)) size

/-- The image of local means in numbers of any size. -/
def exactMeans (image : Image) (size : Int32) : Image := summarized exactMean image size

/-- These are the means that the filter makes as long as each of them is exact. -/
theorem exactMeans_eq_iff (image : Image) (size : Int32) :
    exactMeans image size = filter image .mean size ↔
      ∀ x y, x < image.width → y < image.height → ∀ c, MeanIsExact image size x y c := by
  have hbounds := bounds_filter image .mean size
  have hmean : ∀ x y, x < image.width → y < image.height → ∀ c,
      (MeanIsExact image size x y c ↔
        ((exactMeans image size).pixel x y).get c =
          ((filter image .mean size).pixel x y).get c) := by
    intro x y hx hy c
    rw [MeanIsExact, exactMeans, get_summarized _ size hx hy, ← UInt8.toNat_inj,
      toNat_exactMean (samples_ne_nil hx hy size c)]
    exact eq_comm
  constructor
  · intro heq x y hx hy c
    rw [hmean x y hx hy c, heq]
  · intro hall
    exact Image.ext_pixel hbounds.symm fun x y hx hy => Pixel.ext_get fun c =>
      (hmean x y hx hy c).mp (hall x y hx hy c)

/--
**Local statistics keep the order of images.** For every size:

- if one image is at most another one, then so are their images of minima, of maxima, of
  medians, and of means in numbers of any size;
- the minima of an image are at most its medians and its means, and both of these are at
  most its maxima;
- the means in numbers of any size are the ones that the filter makes just if all of those
  are exact.
-/
theorem statistics_keep_order (size : Int32) :
    (∀ a b : Image, a ≤ b →
        (∀ statistic, statistic ≠ .mean → filter a statistic size ≤ filter b statistic size)
          ∧ exactMeans a size ≤ exactMeans b size)
      ∧ (∀ a : Image,
          (filter a .minimum size ≤ filter a .median size
              ∧ filter a .median size ≤ filter a .maximum size)
            ∧ filter a .minimum size ≤ exactMeans a size
            ∧ exactMeans a size ≤ filter a .maximum size)
      ∧ ∀ a : Image, exactMeans a size = filter a .mean size ↔
          ∀ x y, x < a.width → y < a.height → ∀ c, MeanIsExact a size x y c := by
  refine ⟨fun a b hab => ⟨fun statistic hmean => ?_, summarized_le hab rising_exactMean size⟩,
    fun a => ?_, fun a => exactMeans_eq_iff a size⟩
  · rw [filter_eq_summarized, filter_eq_summarized]
    cases statistic with
    | minimum => exact summarized_le hab rising_least size
    | maximum => exact summarized_le hab rising_greatest size
    | mean => exact absurd rfl hmean
    | median => exact summarized_le hab rising_median size
  · rw [filter_eq_summarized, filter_eq_summarized, filter_eq_summarized]
    refine ⟨⟨?_, ?_⟩, ?_, ?_⟩
    · exact summarized_le_self rising_median
        (fun hne => (least_spec hne).2 _ (median_mem hne)) a size
    · exact summarized_le_self rising_greatest
        (fun hne => (greatest_spec hne).2 _ (median_mem hne)) a size
    · exact summarized_le_self rising_exactMean
        (fun hne => le_exactMean hne (least_spec hne).2) a size
    · exact summarized_le_self rising_greatest
        (fun hne => exactMean_le hne (greatest_spec hne).2) a size

/--
A row of three pixels, of which first one and then two are white. In the middle that moves
the median from black to white.
-/
theorem statistics_keep_order_row :
    let row (isWhite : Nat → Bool) := Image.generate ⟨3, 1, by decide, by decide⟩ fun x _ =>
      if isWhite x then Pixel.white else Pixel.clear
    let one := row fun x => x == 1
    let two := row fun x => x != 2
    (one ≤ two ∧ Statistic.median ≠ .mean)
      ∧ filter one .median 3 ≤ filter two .median 3
      ∧ exactMeans one 3 ≤ exactMeans two 3
      ∧ filter one .minimum 3 ≤ filter one .median 3 := by
  intro row one two
  have hpixels : ∀ x, x < 3 → ∀ y, y < 1 →
      ∀ c, (one.pixel x y).get c ≤ (two.pixel x y).get c := by
    intro x hx y hy c
    dsimp only [one, two, row]
    rw [Image.pixel_generate hx hy, Image.pixel_generate hx hy]
    cases c <;> decide +revert
  have hle : one ≤ two := Image.le_def.mpr ⟨rfl, fun x y hx hy => hpixels x hx y hy⟩
  have hmedian : Statistic.median ≠ .mean := by decide
  obtain ⟨hkeep, hwithin, _⟩ := statistics_keep_order 3
  obtain ⟨hfilter, hmeans⟩ := hkeep one two hle
  exact ⟨⟨hle, hmedian⟩, hfilter .median hmedian, hmeans, (hwithin one).1.1⟩

end Neighbourhood

end RasterScript
