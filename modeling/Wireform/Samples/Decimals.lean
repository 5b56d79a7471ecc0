import Wireform.Codec.Scalar

/-!
# A byte form of decimal numbers

Four bytes are a word of flags, which has the sign and the scale, and the other twelve are the
mantissa.  All other bits of the word are ignored, and places beyond the 28th are dropped.
-/
namespace Wireform.Samples

/-- The word of flags: the sign in bit 31, the scale in bits 16 to 20. -/
def decimalFlags (d : Decimal) : Nat :=
  (if d.negative then 2147483648 else 0) + d.scale * 65536

/-- The word of flags, then the mantissa. -/
def decimalBytes (d : Decimal) : List UInt8 :=
  littleEndian 4 (decimalFlags d) ++ littleEndian 12 d.mantissa

/-- The decimal of a word of flags and a mantissa. -/
def decimalOf (flags mantissa : Nat) : Decimal where
  negative := flags / 2147483648 % 2 = 1
  scale := min (flags / 65536 % 32) 28
  mantissa := mantissa / Nat.pow 10 (flags / 65536 % 32 - 28) % Nat.pow 256 12
  scale_le := Nat.min_le_right _ _
  mantissa_lt := Nat.mod_lt _ (Nat.pow_pos (by decide))

theorem decimalOf_flags (d : Decimal) : decimalOf (decimalFlags d) d.mantissa = d := by
  obtain ⟨negative, scale, mantissa, hscale, hmantissa⟩ := d
  have hsign : (decimalFlags ⟨negative, scale, mantissa, hscale, hmantissa⟩) / 2147483648 % 2 =
      if negative then 1 else 0 := by
    unfold decimalFlags
    cases negative <;> simp only [Bool.false_eq_true, if_true, if_false] <;> omega
  have hplaces : (decimalFlags ⟨negative, scale, mantissa, hscale, hmantissa⟩) / 65536 % 32 =
      scale := by
    unfold decimalFlags
    cases negative <;> simp only [Bool.false_eq_true, if_true, if_false] <;> omega
  have hdigits : mantissa / Nat.pow 10 (scale - 28) % Nat.pow 256 12 = mantissa := by
    rw [Nat.sub_eq_zero_of_le hscale]
    exact (Nat.mod_eq_of_lt ((Nat.div_one mantissa).symm ▸ hmantissa)).trans (Nat.div_one mantissa)
  rw [decimalOf, Decimal.mk.injEq]
  refine ⟨?_, ?_, ?_⟩
  · rw [hsign]
    cases negative <;> rfl
  · rw [hplaces]
    exact Nat.min_eq_left hscale
  · rw [hplaces]
    exact hdigits

theorem decimalFlags_lt (d : Decimal) : decimalFlags d < Nat.pow 256 4 := by
  have hscale := d.scale_le
  show decimalFlags d < 4294967296
  unfold decimalFlags
  split <;> omega

instance : DecimalForm where
  toBytes := decimalBytes
  ofBytes bytes := decimalOf (ofLittleEndian (bytes.take 4)) (ofLittleEndian (bytes.drop 4))
  length_toBytes d := by
    rw [decimalBytes, List.length_append, length_littleEndian, length_littleEndian]
  ofBytes_toBytes d := by
    have hfour : (littleEndian 4 (decimalFlags d)).length = 4 := length_littleEndian 4 _
    rw [decimalBytes, List.take_left' hfour, List.drop_left' hfour, ofLittleEndian_littleEndian,
      ofLittleEndian_littleEndian, Nat.mod_eq_of_lt (decimalFlags_lt d),
      Nat.mod_eq_of_lt d.mantissa_lt]
    exact decimalOf_flags d

end Wireform.Samples
