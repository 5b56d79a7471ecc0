import Mathlib.Algebra.Order.Ring.Nat
import Mathlib.Algebra.Order.Group.Nat
import Wireform.Bytes.LittleEndian
import Wireform.Schema.Primitive

/-!
# Numbers that come back

The bytes of a number in a format stand for the number wrapped to the format, and a number that the
format holds wraps to itself.  The other way round, bytes of the width of a format are those of the
number that they stand for, and the format holds it.
-/
namespace Wireform

/-- The bytes of a number are those that stand for it. -/
theorem littleEndian_ofLittleEndian (bytes : List UInt8) :
    littleEndian bytes.length (ofLittleEndian bytes) = bytes := by
  induction bytes with
  | nil => rfl
  | cons b rest ih =>
    have hb : b.toNat < 256 := b.toNat_lt
    have hlow : UInt8.ofNat (b.toNat + 256 * ofLittleEndian rest) = b := by
      rw [← UInt8.toNat_inj, UInt8.toNat_ofNat']
      omega
    have hrest : (b.toNat + 256 * ofLittleEndian rest) / 256 = ofLittleEndian rest := by omega
    rw [List.length_cons, ofLittleEndian, littleEndian, hlow, hrest, ih]

theorem littleEndian_and (width a b : Nat) : littleEndian width (a &&& b) =
    List.zipWith (· &&& ·) (littleEndian width a) (littleEndian width b) := by
  induction width generalizing a b with
  | zero => rfl
  | succ width ih =>
    have hbyte : UInt8.ofNat (a &&& b) = UInt8.ofNat a &&& UInt8.ofNat b := by
      rw [← UInt8.toNat_inj, UInt8.toNat_and]
      simp only [UInt8.toNat_ofNat']
      exact Nat.and_mod_two_pow
    have hrest : (a &&& b) / 256 = a / 256 &&& b / 256 := Nat.and_div_two_pow (n := 8)
    rw [littleEndian, littleEndian, littleEndian, List.zipWith_cons_cons, hbyte, hrest, ih]

/-- Setting a bit of a number sets a bit in one of its bytes. -/
theorem littleEndian_or_two_pow {width i : Nat} (n : Nat) (h : i < 8 * width) : ∃ byte,
    (littleEndian width n)[i / 8]? = some byte ∧ byte.toNat.testBit (i % 8) = n.testBit i ∧
      littleEndian width (n ||| 2 ^ i) =
        (littleEndian width n).set (i / 8) (byte ||| UInt8.ofNat (2 ^ (i % 8))) := by
  induction width generalizing n i with
  | zero => omega
  | succ width ih =>
    have hlow : ∀ a, UInt8.ofNat (n ||| a) = UInt8.ofNat n ||| UInt8.ofNat a := by
      intro a
      rw [← UInt8.toNat_inj, UInt8.toNat_or]
      simp only [UInt8.toNat_ofNat']
      exact Nat.or_mod_two_pow
    have hhigh : (n ||| 2 ^ i) / 256 = n / 256 ||| 2 ^ i / 256 := Nat.or_div_two_pow (n := 8)
    rcases Nat.lt_or_ge i 8 with hbyte | hbyte
    · have hdiv : i / 8 = 0 := by omega
      have hmod : i % 8 = i := by omega
      have hnone : 2 ^ i / 256 = 0 :=
        Nat.div_eq_of_lt (Nat.pow_lt_pow_right (m := i) (n := 8) (by decide) hbyte)
      refine ⟨UInt8.ofNat n, by rw [hdiv]; rfl, ?_, ?_⟩
      · rw [hmod, UInt8.toNat_ofNat', Nat.testBit_mod_two_pow]
        simp [hbyte]
      · rw [hdiv, hmod, littleEndian, littleEndian, hlow, hhigh, hnone, Nat.or_zero]
        rfl
    · obtain ⟨i, rfl⟩ : ∃ rest, i = rest + 8 := ⟨i - 8, by omega⟩
      have hdiv : (i + 8) / 8 = i / 8 + 1 := by omega
      have hmod : (i + 8) % 8 = i % 8 := by omega
      have hpow : 2 ^ (i + 8) / 256 = 2 ^ i := by
        rw [Nat.pow_add]
        exact Nat.mul_div_cancel _ (by decide)
      have hzero : UInt8.ofNat (2 ^ (i + 8)) = 0 := by
        rw [← UInt8.toNat_inj, UInt8.toNat_ofNat', Nat.pow_add]
        exact Nat.mul_mod_left _ _
      obtain ⟨byte, hget, hbit, hset⟩ := ih (n / 256) (show i < 8 * width by omega)
      refine ⟨byte, by rw [hdiv]; exact hget, ?_, ?_⟩
      · rw [hmod, hbit]
        have hshift : (n / 2 ^ 8).testBit i = n.testBit (i + 8) := Nat.testBit_div_two_pow n i
        exact hshift
      · rw [hdiv, hmod, littleEndian, littleEndian, hlow, hhigh, hzero, hpow, hset,
          List.set_cons_succ]
        congr 1
        exact UInt8.or_zero

namespace IntFormat

/-- **Bytes stand for the wrapped number.** -/
theorem decode_encode (format : IntFormat) (n : Int) :
    format.decode (format.encode n) = format.wrap n := by
  have hpos : 0 < format.modulus := Nat.pow_pos (by decide)
  have hnonneg : 0 ≤ n % (format.modulus : Int) := Int.emod_nonneg _ (by omega)
  have hlt : n % (format.modulus : Int) < format.modulus := Int.emod_lt_of_pos _ (by omega)
  have hback : ((n % (format.modulus : Int)).toNat % Nat.pow 256 format.width : Nat) =
      (n % (format.modulus : Int)).toNat :=
    Nat.mod_eq_of_lt (by
      have hmodulus : format.modulus = Nat.pow 256 format.width := rfl
      omega)
  unfold decode encode
  rw [ofLittleEndian_littleEndian, hback, Int.toNat_of_nonneg hnonneg]
  unfold wrap
  split
  · exact Int.emod_bmod n format.modulus
  · exact Int.emod_emod_of_dvd n (dvd_refl _)

/-- **A number that the format holds wraps to itself.** -/
theorem wrap_of_contains {format : IntFormat} {n : Int} (h : format.contains n = true) :
    format.wrap n = n := by
  simp only [contains, Bool.and_eq_true, decide_eq_true_eq] at h
  obtain ⟨hleast, hgreatest⟩ := h
  unfold least at hleast
  unfold greatest at hgreatest
  unfold wrap
  split
  · next hsigned =>
    simp only [hsigned, if_true] at hleast hgreatest
    exact Int.bmod_eq_of_le (by omega) (by omega)
  · next hsigned =>
    simp only [hsigned, Bool.false_eq_true, if_false] at hleast hgreatest
    exact Int.emod_eq_of_lt hleast (by omega)

/-- A number wrapped twice is wrapped once. -/
theorem wrap_wrap (format : IntFormat) (n : Int) : format.wrap (format.wrap n) = format.wrap n := by
  unfold wrap
  split
  · exact Int.bmod_bmod
  · exact Int.emod_emod_of_dvd n (dvd_refl _)

/-- A number and its wrapped form agree modulo the format's modulus. -/
theorem wrap_emod (format : IntFormat) (n : Int) :
    format.wrap n % (format.modulus : Int) = n % (format.modulus : Int) := by
  unfold wrap
  split
  · exact Int.bmod_emod
  · exact Int.emod_emod_of_dvd n (dvd_refl _)

/-- A number wrapped to a wider format first is wrapped once. -/
theorem wrap_wrap_of_le {format wide : IntFormat} (h : format.width ≤ wide.width) (n : Int) :
    format.wrap (wide.wrap n) = format.wrap n := by
  have hdvd : (format.modulus : Int) ∣ wide.modulus :=
    Int.natCast_dvd_natCast.mpr (pow_dvd_pow 256 h)
  have hsame : wide.wrap n % (format.modulus : Int) = n % (format.modulus : Int) := by
    rw [← Int.emod_emod_of_dvd (wide.wrap n) hdvd, wrap_emod, Int.emod_emod_of_dvd n hdvd]
  have hbmod : (wide.wrap n).bmod format.modulus = n.bmod format.modulus := by
    rw [← Int.emod_bmod, hsame, Int.emod_bmod]
  unfold wrap at hsame hbmod ⊢
  split
  · exact hbmod
  · exact hsame

/-- A wrapped number is one that the format holds. -/
theorem contains_wrap {format : IntFormat} (hwidth : 0 < format.width) (n : Int) :
    format.contains (format.wrap n) = true := by
  have hmodulus : format.modulus = 256 * Nat.pow 256 (format.width - 1) := by
    obtain ⟨width, signed⟩ := format
    obtain ⟨w, rfl⟩ : ∃ w, width = w + 1 := ⟨width - 1, by simp at hwidth; omega⟩
    exact Nat.pow_succ'
  have hpos : 0 < Nat.pow 256 (format.width - 1) := Nat.pow_pos (by decide)
  rw [contains, Bool.and_eq_true, decide_eq_true_eq, decide_eq_true_eq]
  unfold least greatest wrap
  cases hsigned : format.signed with
  | true =>
    simp only [if_true]
    have hle := @Int.le_bmod n format.modulus (by omega)
    have hlt := @Int.bmod_lt n format.modulus (by omega)
    omega
  | false =>
    simp only [Bool.false_eq_true, if_false]
    have hnonneg : 0 ≤ n % (format.modulus : Int) := Int.emod_nonneg _ (by omega)
    have hlt : n % (format.modulus : Int) < format.modulus := Int.emod_lt_of_pos _ (by omega)
    omega

/-- **The bytes that stand for a number are those of the number.** -/
theorem encode_decode {format : IntFormat} {bytes : List UInt8}
    (hlength : bytes.length = format.width) : format.encode (format.decode bytes) = bytes := by
  have hpos : 0 < format.modulus := Nat.pow_pos (by decide)
  have hlt : ofLittleEndian bytes < format.modulus := by
    have hbound := ofLittleEndian_lt bytes
    rwa [hlength] at hbound
  have hmod : format.wrap (ofLittleEndian bytes) % (format.modulus : Int) = ofLittleEndian bytes := by
    rw [wrap_emod]
    exact Int.emod_eq_of_lt (by omega) (by omega)
  unfold encode decode
  rw [hmod, Int.toNat_natCast, ← hlength, littleEndian_ofLittleEndian]

/-- A bit pattern of the width is a number that the unsigned format holds. -/
theorem contains_natCast {width n : Nat} (h : n < Nat.pow 256 width) :
    IntFormat.contains ⟨width, false⟩ n = true := by
  simp only [contains, least, greatest, modulus, Bool.false_eq_true, if_false, Bool.and_eq_true,
    decide_eq_true_eq]
  omega

end IntFormat

/-- Every width of an enumeration takes at least one byte. -/
theorem Schema.IntRepr.size_pos (repr : Schema.IntRepr) : 0 < repr.size := by
  cases repr <;> decide

end Wireform
