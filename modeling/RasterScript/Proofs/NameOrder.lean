import Mathlib.Tactic.SplitIfs
import RasterScript.Script.Command

/-!
# The order of names

A command table is sorted by comparing names character by character. This file
shows that the order is the one of the bytes that the names are stored in: UTF-8
encodes a character with a greater code by bytes that are greater already where
they first differ (`encodeChar_lt`). So bytes compare as characters do
(`notAfter_iff`), and what is known of the order of bytes is known of the order
of names.
-/

namespace RasterScript

/-- The bytes that a text is stored in. -/
def storedBytes (text : String) : List UInt8 := text.toUTF8.data.toList

/-- One text comes before another in the order of their bytes. -/
def Precedes (a b : String) : Prop := storedBytes a < storedBytes b

theorem storedBytes_eq (text : String) :
    storedBytes text = text.toList.flatMap String.utf8EncodeChar := by
  have h : text.toUTF8 = (text.toList.flatMap String.utf8EncodeChar).toByteArray := by
    rw [← List.utf8Encode, ← String.toByteArray_ofList, String.ofList_toList]
    rfl
  rw [storedBytes, h, List.toList_data_toByteArray]

theorem storedBytes_inj {a b : String} : storedBytes a = storedBytes b ↔ a = b := by
  constructor
  · intro h
    refine String.toByteArray_inj.mp (ByteArray.ext (Array.toList_inj.mp h))
  · rintro rfl
    rfl

/--
**A greater character has greater bytes,** whatever comes after it. Of encodings
of different lengths the longer one begins with the greater byte; of the same
length, the first digit in base 64 that differs decides.
-/
theorem encodeChar_lt {a b : Char} (h : a.toNat < b.toNat) (x y : List UInt8) :
    String.utf8EncodeChar a ++ x < String.utf8EncodeChar b ++ y := by
  have hmax : b.toNat < 0x110000 :=
    b.valid.elim (fun hlow => Nat.lt_trans hlow (by decide)) (fun hhigh => hhigh.2)
  have htwice : ∀ k : Nat, k / 4096 = k / 64 / 64 := by omega
  have hthrice : ∀ k : Nat, k / 262144 = k / 64 / 64 / 64 := by omega
  unfold String.utf8EncodeChar
  simp only [Char.toNat_val, htwice, hthrice]
  generalize a.toNat = m at *
  generalize b.toNat = n at *
  -- one case for each pair of lengths, of which those that `m < n` rules out are empty
  split_ifs <;>
    simp only [List.cons_append, List.nil_append, List.cons_lt_cons_iff,
      UInt8.lt_iff_toNat_lt, ← UInt8.toNat_inj, UInt8.toNat_ofNat'] <;>
    omega

theorem append_le_iff (first : List UInt8) {x y : List UInt8} :
    first ++ x ≤ first ++ y ↔ x ≤ y := by
  induction first with
  | nil => rfl
  | cons byte first ih =>
      rw [List.cons_append, List.cons_append, List.cons_le_cons_iff, ih]
      simp

/-- **Names are compared as their bytes are.** -/
theorem notAfter_iff {s t : List Char} :
    notAfter s t = true ↔
      s.flatMap String.utf8EncodeChar ≤ t.flatMap String.utf8EncodeChar := by
  induction s generalizing t with
  | nil => simp [notAfter]
  | cons a s ih =>
      cases t with
      | nil =>
          rw [List.flatMap_nil, List.flatMap_cons]
          simp [notAfter]
      | cons b t =>
          rw [notAfter, List.flatMap_cons, List.flatMap_cons]
          rcases Nat.lt_trichotomy a.toNat b.toNat with h | h | h
          · have hlt := encodeChar_lt h (s.flatMap String.utf8EncodeChar)
              (t.flatMap String.utf8EncodeChar)
            simp [h, List.le_of_lt hlt]
          · -- the first characters agree, and the rest decides
            obtain rfl : a = b := Char.toNat_inj.mp h
            rw [append_le_iff, ← ih]
            simp
          · have hlt := encodeChar_lt h (t.flatMap String.utf8EncodeChar)
              (s.flatMap String.utf8EncodeChar)
            have hle : ¬ String.utf8EncodeChar a ++ s.flatMap String.utf8EncodeChar ≤
                String.utf8EncodeChar b ++ t.flatMap String.utf8EncodeChar :=
              fun hle => hle hlt
            simp [hle, Nat.not_lt.mpr (Nat.le_of_lt h), Nat.ne_of_gt h]

theorem notAfter_names {a b : String} :
    notAfter a.toList b.toList = true ↔ storedBytes a ≤ storedBytes b := by
  rw [notAfter_iff, storedBytes_eq, storedBytes_eq]

theorem precedes_of_notAfter {a b : String} (h : notAfter a.toList b.toList = true)
    (hne : a ≠ b) : Precedes a b :=
  Std.lt_of_le_of_ne (notAfter_names.mp h) fun he => hne (storedBytes_inj.mp he)

end RasterScript
