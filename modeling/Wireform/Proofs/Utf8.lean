import Wireform.Text.Utf8

/-!
# Texts that come back

Decoding the UTF-8 form of a text gives the text.  A character has one of four forms, after the
number of its bytes, and `Utf8.decodeFrom` takes each of them back.  And it takes nothing else: the
ranges of a lead byte's second byte leave just the forms of characters, so bytes that are decoded
are the form of what they are decoded to.
-/
namespace Wireform.Utf8

variable {index low high : Nat} {a b c d : UInt8} {rest : List UInt8}

/-! ## 1. One step of decoding, by the number of bytes -/

theorem decodeFrom_one (hlead : lead? a.toNat = some .single) :
    decodeFrom index (a :: rest) =
      (Char.ofNat a.toNat :: ·) <$> decodeFrom (index + 1) rest := by
  simp [decodeFrom, hlead]

theorem decodeFrom_two (hlead : lead? a.toNat = some (.multi 1 low high))
    (hb : ¬(b.toNat < low ∨ high < b.toNat)) :
    decodeFrom index (a :: b :: rest) =
      (Char.ofNat (push (a.toNat % 32) b.toNat) :: ·) <$> decodeFrom (index + 2) rest := by
  simp [decodeFrom, hlead, hb]

theorem decodeFrom_three (hlead : lead? a.toNat = some (.multi 2 low high))
    (hb : ¬(b.toNat < low ∨ high < b.toNat)) (hc : isContinuation c.toNat = true) :
    decodeFrom index (a :: b :: c :: rest) =
      (Char.ofNat (push (push (a.toNat % 16) b.toNat) c.toNat) :: ·) <$>
        decodeFrom (index + 3) rest := by
  simp [decodeFrom, hlead, hb, hc]

theorem decodeFrom_four (hlead : lead? a.toNat = some (.multi 3 low high))
    (hb : ¬(b.toNat < low ∨ high < b.toNat)) (hc : isContinuation c.toNat = true)
    (hd : isContinuation d.toNat = true) :
    decodeFrom index (a :: b :: c :: d :: rest) =
      (Char.ofNat (push (push (push (a.toNat % 8) b.toNat) c.toNat) d.toNat) :: ·) <$>
        decodeFrom (index + 4) rest := by
  simp [decodeFrom, hlead, hb, hc, hd]

/-! ## 2. Characters -/

theorem toNat_ofNat_of_lt {n : Nat} (h : n < 256) : (UInt8.ofNat n).toNat = n := by
  rw [UInt8.toNat_ofNat']
  exact Nat.mod_eq_of_lt h

theorem isContinuation_low (v : Nat) : isContinuation (v % 64 + 128) = true := by
  simp only [isContinuation, Bool.and_eq_true, decide_eq_true_eq]
  omega

/-- The lead byte of three admits the second byte of every character but a surrogate. -/
theorem lead_three {v : Nat} (hlow : 0x7ff < v) (hhigh : v ≤ 0xffff)
    (hscalar : v < 0xD800 ∨ 0xDFFF < v) :
    ∃ low high, lead? (v / 4096 % 16 + 224) = some (.multi 2 low high) ∧
      ¬(v / 64 % 64 + 128 < low ∨ high < v / 64 % 64 + 128) := by
  unfold lead?
  rw [if_neg (by omega), if_neg (by omega), if_neg (by omega)]
  split
  · exact ⟨_, _, rfl, by omega⟩
  · split
    · exact ⟨_, _, rfl, by omega⟩
    · rw [if_pos (by omega)]
      exact ⟨_, _, rfl, by omega⟩

/-- The lead byte of four admits the second byte of every character up to `10FFFF`. -/
theorem lead_four {v : Nat} (hlow : 0xffff < v) (hhigh : v < 0x110000) :
    ∃ low high, lead? (v / 262144 % 8 + 240) = some (.multi 3 low high) ∧
      ¬(v / 4096 % 64 + 128 < low ∨ high < v / 4096 % 64 + 128) := by
  unfold lead?
  rw [if_neg (by omega), if_neg (by omega), if_neg (by omega), if_neg (by omega),
    if_neg (by omega), if_neg (by omega)]
  split
  · exact ⟨_, _, rfl, by omega⟩
  · split
    · exact ⟨_, _, rfl, by omega⟩
    · rw [if_pos (by omega)]
      exact ⟨_, _, rfl, by omega⟩

/-- **The form of a character is taken back as the character**, whatever stands behind it. -/
theorem decodeFrom_character (index : Nat) (c : Char) (rest : List UInt8) :
    decodeFrom index (String.utf8EncodeChar c ++ rest) =
      (c :: ·) <$> decodeFrom (index + (String.utf8EncodeChar c).length) rest := by
  have hscalar : c.val.toNat < 0xD800 ∨ (0xDFFF < c.val.toNat ∧ c.val.toNat < 0x110000) := c.valid
  have hback : Char.ofNat c.val.toNat = c := Char.ofNat_toNat c
  generalize hv : c.val.toNat = v at hscalar hback
  unfold String.utf8EncodeChar
  simp only [hv]
  have hlast := toNat_ofNat_of_lt (show v % 64 + 128 < 256 by omega)
  have hmiddle := toNat_ofNat_of_lt (show v / 64 % 64 + 128 < 256 by omega)
  by_cases hone : v ≤ 0x7f
  · have ha := toNat_ofNat_of_lt (show v < 256 by omega)
    have hlead : lead? v = some .single := if_pos (by omega)
    rw [if_pos hone, List.singleton_append, decodeFrom_one (by rw [ha]; exact hlead), ha, hback]
    rfl
  rw [if_neg hone]
  by_cases htwo : v ≤ 0x7ff
  · have ha := toNat_ofNat_of_lt (show v / 64 % 32 + 192 < 256 by omega)
    have hlead : lead? (v / 64 % 32 + 192) = some (.multi 1 0x80 0xBF) := by
      unfold lead?
      rw [if_neg (by omega), if_neg (by omega), if_pos (by omega)]
    have hvalue : push ((v / 64 % 32 + 192) % 32) (v % 64 + 128) = v := by
      unfold push
      omega
    rw [if_pos htwo, List.cons_append, List.singleton_append,
      decodeFrom_two (by rw [ha]; exact hlead) (by rw [hlast]; omega), ha, hlast, hvalue, hback]
    rfl
  rw [if_neg htwo]
  by_cases hthree : v ≤ 0xffff
  · have ha := toNat_ofNat_of_lt (show v / 4096 % 16 + 224 < 256 by omega)
    obtain ⟨low, high, hlead, hrange⟩ := lead_three (by omega) hthree (by omega)
    have hvalue : push (push ((v / 4096 % 16 + 224) % 16) (v / 64 % 64 + 128)) (v % 64 + 128) =
        v := by
      unfold push
      omega
    rw [if_pos hthree, List.cons_append, List.cons_append, List.singleton_append,
      decodeFrom_three (by rw [ha]; exact hlead) (by rw [hmiddle]; exact hrange)
        (by rw [hlast]; exact isContinuation_low v), ha, hmiddle, hlast, hvalue, hback]
    rfl
  · have ha := toNat_ofNat_of_lt (show v / 262144 % 8 + 240 < 256 by omega)
    have hb := toNat_ofNat_of_lt (show v / 4096 % 64 + 128 < 256 by omega)
    obtain ⟨low, high, hlead, hrange⟩ := lead_four (v := v) (by omega) (by omega)
    have hvalue : push (push (push ((v / 262144 % 8 + 240) % 8) (v / 4096 % 64 + 128))
        (v / 64 % 64 + 128)) (v % 64 + 128) = v := by
      unfold push
      omega
    rw [if_neg hthree, List.cons_append, List.cons_append, List.cons_append,
      List.singleton_append,
      decodeFrom_four (by rw [ha]; exact hlead) (by rw [hb]; exact hrange)
        (by rw [hmiddle]; exact isContinuation_low (v / 64))
        (by rw [hlast]; exact isContinuation_low v), ha, hb, hmiddle, hlast, hvalue, hback]
    rfl

/-! ## 3. Texts -/

theorem decodeFrom_encode (index : Nat) (text : List Char) :
    decodeFrom index (encode text) = .ok text := by
  induction text generalizing index with
  | nil => rfl
  | cons c text ih =>
    have hform : encode (c :: text) = String.utf8EncodeChar c ++ encode text := rfl
    rw [hform, decodeFrom_character, ih]
    rfl

/-- **The form of a text is taken back as the text.** -/
theorem decode_encode (text : List Char) : decode (encode text) = .ok text :=
  decodeFrom_encode 0 text

/-! ## 4. Bytes that stand for a text -/

/-- What a lead byte of several announces: one, two or three continuation bytes, the first of them in
a range that leaves out overlong forms, surrogates and values beyond `10FFFF`. -/
theorem lead_multi {n more : Nat} (h : lead? n = some (.multi more low high)) :
    0x80 ≤ low ∧ high ≤ 0xBF ∧
      ((more = 1 ∧ 0xC2 ≤ n ∧ n < 0xE0) ∨
        (more = 2 ∧ 0xE0 ≤ n ∧ n < 0xF0 ∧ (n = 0xE0 → 0xA0 ≤ low) ∧ (n = 0xED → high ≤ 0x9F)) ∨
        (more = 3 ∧ 0xF0 ≤ n ∧ n < 0xF5 ∧ (n = 0xF0 → 0x90 ≤ low) ∧ (n = 0xF4 → high ≤ 0x8F))) := by
  unfold lead? at h
  repeat' split at h
  all_goals cases h
  all_goals omega

theorem lead_single {n : Nat} (h : lead? n = some .single) : n < 0x80 := by
  unfold lead? at h
  repeat' split at h
  all_goals first
    | assumption
    | cases h

theorem isContinuation_range {n : Nat} (h : isContinuation n = true) : 0x80 ≤ n ∧ n ≤ 0xBF := by
  simpa [isContinuation] using h

/-- A number that is no surrogate is the scalar value of its character. -/
theorem val_ofNat {v : Nat} (h : v < 0xD800 ∨ (0xDFFF < v ∧ v < 0x110000)) :
    (Char.ofNat v).val.toNat = v := by
  have hvalid : v.isValidChar := h
  unfold Char.ofNat
  rw [dif_pos hvalid]
  rfl

theorem ofNat_eq {n : Nat} (h : n = a.toNat) : UInt8.ofNat n = a := by
  rw [h, UInt8.ofNat_toNat]

theorem encodeChar_one (ha : a.toNat < 0x80) :
    String.utf8EncodeChar (Char.ofNat a.toNat) = [a] := by
  have hval := @val_ofNat a.toNat (by omega)
  unfold String.utf8EncodeChar
  simp only [hval]
  rw [if_pos (by omega), ofNat_eq rfl]

theorem encodeChar_two (ha : 0xC2 ≤ a.toNat ∧ a.toNat < 0xE0)
    (hb : 0x80 ≤ b.toNat ∧ b.toNat ≤ 0xBF) :
    String.utf8EncodeChar (Char.ofNat (push (a.toNat % 32) b.toNat)) = [a, b] := by
  have hpush : push (a.toNat % 32) b.toNat = (a.toNat - 0xC0) * 64 + (b.toNat - 0x80) := by
    unfold push
    omega
  rw [hpush]
  generalize hv : (a.toNat - 0xC0) * 64 + (b.toNat - 0x80) = v
  have hval := @val_ofNat v (by omega)
  unfold String.utf8EncodeChar
  simp only [hval]
  rw [if_neg (by omega), if_pos (by omega), ofNat_eq (a := a) (by omega),
    ofNat_eq (a := b) (by omega)]

theorem encodeChar_three (ha : 0xE0 ≤ a.toNat ∧ a.toNat < 0xF0)
    (hb : 0x80 ≤ b.toNat ∧ b.toNat ≤ 0xBF) (hc : 0x80 ≤ c.toNat ∧ c.toNat ≤ 0xBF)
    (hleast : a.toNat = 0xE0 → 0xA0 ≤ b.toNat) (hsurrogate : a.toNat = 0xED → b.toNat ≤ 0x9F) :
    String.utf8EncodeChar (Char.ofNat (push (push (a.toNat % 16) b.toNat) c.toNat)) =
      [a, b, c] := by
  have hpush : push (push (a.toNat % 16) b.toNat) c.toNat =
      (a.toNat - 0xE0) * 4096 + (b.toNat - 0x80) * 64 + (c.toNat - 0x80) := by
    unfold push
    omega
  rw [hpush]
  generalize hv : (a.toNat - 0xE0) * 4096 + (b.toNat - 0x80) * 64 + (c.toNat - 0x80) = v
  have hval := @val_ofNat v (by omega)
  unfold String.utf8EncodeChar
  simp only [hval]
  rw [if_neg (by omega), if_neg (by omega), if_pos (by omega), ofNat_eq (a := a) (by omega),
    ofNat_eq (a := b) (by omega), ofNat_eq (a := c) (by omega)]

theorem encodeChar_four (ha : 0xF0 ≤ a.toNat ∧ a.toNat < 0xF5)
    (hb : 0x80 ≤ b.toNat ∧ b.toNat ≤ 0xBF) (hc : 0x80 ≤ c.toNat ∧ c.toNat ≤ 0xBF)
    (hd : 0x80 ≤ d.toNat ∧ d.toNat ≤ 0xBF)
    (hleast : a.toNat = 0xF0 → 0x90 ≤ b.toNat) (hgreatest : a.toNat = 0xF4 → b.toNat ≤ 0x8F) :
    String.utf8EncodeChar
      (Char.ofNat (push (push (push (a.toNat % 8) b.toNat) c.toNat) d.toNat)) = [a, b, c, d] := by
  have hpush : push (push (push (a.toNat % 8) b.toNat) c.toNat) d.toNat =
      (a.toNat - 0xF0) * 262144 + (b.toNat - 0x80) * 4096 + (c.toNat - 0x80) * 64 +
        (d.toNat - 0x80) := by
    unfold push
    omega
  rw [hpush]
  generalize hv : (a.toNat - 0xF0) * 262144 + (b.toNat - 0x80) * 4096 + (c.toNat - 0x80) * 64 +
    (d.toNat - 0x80) = v
  have hval := @val_ofNat v (by omega)
  unfold String.utf8EncodeChar
  simp only [hval]
  rw [if_neg (by omega), if_neg (by omega), if_neg (by omega), ofNat_eq (a := a) (by omega),
    ofNat_eq (a := b) (by omega), ofNat_eq (a := c) (by omega), ofNat_eq (a := d) (by omega)]

/-- Behind a character that has the form of its bytes stands the rest of the text. -/
theorem encode_cons_of_ok {result : Except Fault (List Char)} {character : Char}
    {form rest : List UInt8} {text : List Char}
    (h : (do let text ← result; pure (character :: text)) = Except.ok text)
    (hform : String.utf8EncodeChar character = form)
    (hrest : ∀ {text}, result = .ok text → encode text = rest) : encode text = form ++ rest := by
  cases result with
  | error fault => cases h
  | ok tail =>
    cases h
    rw [← hform, ← hrest rfl]
    rfl

/-- **Bytes that stand for a text are the form of the text.** -/
theorem encode_of_decodeFrom {index : Nat} {bytes : List UInt8} {text : List Char}
    (h : decodeFrom index bytes = .ok text) : encode text = bytes := by
  fun_induction decodeFrom index bytes generalizing text with
  | case1 =>
    cases h
    rfl
  | case3 index a rest hlead ih => exact encode_cons_of_ok h (encodeChar_one (lead_single hlead)) ih
  | case6 index a low high b rest hb hlead ih =>
    have hrange := lead_multi hlead
    exact encode_cons_of_ok h (encodeChar_two (by omega) (by omega)) ih
  | case9 index a low high b hb c rest hc hlead _ ih =>
    have hrange := lead_multi hlead
    have hc' := isContinuation_range (by simpa using hc)
    exact encode_cons_of_ok h (encodeChar_three (by omega) (by omega) hc' (by omega) (by omega)) ih
  | case12 index a more low high hlead b hb hmore c hc hmore' d rest hd ih =>
    have hrange := lead_multi hlead
    have hc' := isContinuation_range (by simpa using hc)
    have hd' := isContinuation_range (by simpa using hd)
    exact encode_cons_of_ok h
      (encodeChar_four (by omega) (by omega) hc' hd' (by omega) (by omega)) ih
  | _ => cases h

/-- **Bytes that stand for a text are the form of the text.** -/
theorem encode_of_decode {bytes : List UInt8} {text : List Char} (h : decode bytes = .ok text) :
    encode text = bytes :=
  encode_of_decodeFrom h

end Wireform.Utf8
