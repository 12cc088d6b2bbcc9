import LineBasic.Text.Glyph

/-!
# Writing and reading UTF-8

Reading takes the bytes written for a character as one glyph, whatever follows
them.  So text that was written as UTF-8 is read as it was (`decode_encode`).

A sequence is only read in the form in which its character is written: longer
forms are refused, and so are surrogates.  So text without stray bytes is what
is written for its characters (`encode_decode`).
-/

namespace LineBasic.Text

/-! ### Reading what was written -/

theorem glyphOf?_toNat (c : Char) (bs : Bytes) : glyphOf? c.toNat bs = some ⟨c, bs⟩ := by
  have h : c.toNat.isValidChar := c.valid
  simp [glyphOf?, h]

theorem toNat_lt (c : Char) : c.toNat < 0x110000 := by
  have h : c.toNat.isValidChar := c.valid
  simp only [Nat.isValidChar] at h
  omega

theorem toNat_ofNat_of_valid {n : Nat} (h : n.isValidChar) : (Char.ofNat n).toNat = n := by
  rw [Char.ofNat, dif_pos h]
  rfl

theorem toNat_ofNat_byte {k : Nat} (h : k < 256) : (UInt8.ofNat k).toNat = k := by
  simpa using h

theorem isContinuation_iff {b : UInt8} :
    isContinuation b = true ↔ 0x80 ≤ b.toNat ∧ b.toNat ≤ 0xBF := by
  simp [isContinuation, UInt8.le_iff_toNat_le]

theorem firstGlyph_one {c : Char} {a : UInt8} (ha : a.toNat < 0x80) (hn : a.toNat = c.toNat)
    (s : Bytes) : firstGlyph a s = ⟨c, [a]⟩ := by
  simp [firstGlyph, oneByte?, UInt8.lt_iff_toNat_lt, ha, hn ▸ glyphOf?_toNat c]

theorem oneByte?_eq_none {a : UInt8} (h : 0x80 ≤ a.toNat) : oneByte? a = none := by
  rw [oneByte?, if_neg]
  simp [UInt8.lt_iff_toNat_lt]
  omega

theorem twoBytes?_eq_none {a : UInt8} (h : 0xE0 ≤ a.toNat) (s : Bytes) :
    twoBytes? a s = none := by
  unfold twoBytes?
  split
  · rw [if_neg]
    simp only [UInt8.le_iff_toNat_le, Bool.and_eq_true, decide_eq_true_eq]
    have : (0xDF : UInt8).toNat = 0xDF := rfl
    omega
  · rfl

theorem threeBytes?_eq_none {a : UInt8} (h : 0xF0 ≤ a.toNat) (s : Bytes) :
    threeBytes? a s = none := by
  unfold threeBytes?
  split
  · dsimp only
    rw [if_neg]
    simp only [UInt8.le_iff_toNat_le, Bool.and_eq_true, decide_eq_true_eq]
    have : (0xEF : UInt8).toNat = 0xEF := rfl
    omega
  · rfl

theorem firstGlyph_two {c : Char} {a b : UInt8} (ha : 0xC2 ≤ a.toNat ∧ a.toNat ≤ 0xDF)
    (hb : isContinuation b = true) (hn : a.toNat % 32 * 64 + payload b = c.toNat) (s : Bytes) :
    firstGlyph a (b :: s) = ⟨c, [a, b]⟩ := by
  rw [firstGlyph, oneByte?_eq_none (by omega)]
  simp [twoBytes?, UInt8.le_iff_toNat_le, ha, hb, hn, glyphOf?_toNat]

theorem firstGlyph_three {c : Char} {a b d : UInt8} (ha : 0xE0 ≤ a.toNat ∧ a.toNat ≤ 0xEF)
    (hb : isContinuation b = true) (hd : isContinuation d = true)
    (hn : a.toNat % 16 * 4096 + payload b * 64 + payload d = c.toNat) (hc : 0x800 ≤ c.toNat)
    (s : Bytes) : firstGlyph a (b :: d :: s) = ⟨c, [a, b, d]⟩ := by
  rw [firstGlyph, oneByte?_eq_none (by omega), twoBytes?_eq_none (by omega)]
  simp [threeBytes?, UInt8.le_iff_toNat_le, ha, hb, hd, hn, hc, glyphOf?_toNat]

theorem firstGlyph_four {c : Char} {a b d e : UInt8} (ha : 0xF0 ≤ a.toNat ∧ a.toNat ≤ 0xF7)
    (hb : isContinuation b = true) (hd : isContinuation d = true) (he : isContinuation e = true)
    (hn : a.toNat % 8 * 262144 + payload b * 4096 + payload d * 64 + payload e = c.toNat)
    (hc : 0x10000 ≤ c.toNat) (s : Bytes) :
    firstGlyph a (b :: d :: e :: s) = ⟨c, [a, b, d, e]⟩ := by
  rw [firstGlyph, oneByte?_eq_none (by omega), twoBytes?_eq_none (by omega),
    threeBytes?_eq_none (by omega)]
  simp [fourBytes?, UInt8.le_iff_toNat_le, ha, hb, hd, he, hn, hc, glyphOf?_toNat]

/-- Reading the UTF-8 form of a character gives it back. -/
theorem glyphs_encodeChar_append (c : Char) (s : Bytes) :
    glyphs (encodeChar c ++ s) = ⟨c, encodeChar c⟩ :: glyphs s := by
  have hlt := toNat_lt c
  have hbyte (k : Nat) (h : k < 256) := toNat_ofNat_byte h
  have hcont (k : Nat) : isContinuation (.ofNat (0x80 + k % 64)) = true := by
    rw [isContinuation_iff, hbyte _ (by omega)]
    omega
  have hpay (k : Nat) : payload (.ofNat (0x80 + k % 64)) = k % 64 := by
    rw [payload, hbyte _ (by omega)]
    omega
  unfold encodeChar
  dsimp only
  split
  · rw [List.singleton_append, glyphs_cons, firstGlyph_one (c := c)]
    · simp
    · rw [hbyte _ (by omega)]; omega
    · rw [hbyte _ (by omega)]
  split
  · rw [List.cons_append, glyphs_cons, List.singleton_append, firstGlyph_two (c := c)]
    · simp
    · rw [hbyte _ (by omega)]; omega
    · exact hcont _
    · rw [hbyte _ (by omega), hpay]; omega
  split
  · rw [List.cons_append, glyphs_cons, List.cons_append, List.singleton_append,
      firstGlyph_three (c := c)]
    · simp
    · rw [hbyte _ (by omega)]; omega
    · exact hcont _
    · exact hcont _
    · rw [hbyte _ (by omega), hpay, hpay]; omega
    · omega
  · rw [List.cons_append, glyphs_cons, List.cons_append, List.cons_append, List.singleton_append,
      firstGlyph_four (c := c)]
    · simp
    · rw [hbyte _ (by omega)]; omega
    · exact hcont _
    · exact hcont _
    · exact hcont _
    · rw [hbyte _ (by omega), hpay, hpay, hpay]; omega
    · omega

/-- Writing characters as UTF-8 and reading them gives them back. -/
theorem decode_encode (cs : List Char) : decode (encode cs) = cs := by
  unfold decode
  induction cs with
  | nil => simp [encode]
  | cons c cs ih => rw [encode_cons, glyphs_encodeChar_append, List.map_cons, ih]

/-! ### Writing what was read -/

theorem toNat_of_glyphOf? {n : Nat} {bs : Bytes} {g : Glyph} (h : glyphOf? n bs = some g) :
    g.char.toNat = n := by
  unfold glyphOf? at h
  split at h
  case isTrue hvalid =>
    cases h
    exact toNat_ofNat_of_valid hvalid
  case isFalse => cases h

theorem ofNat_eq_of_toNat {b : UInt8} {k : Nat} (h : b.toNat = k) : UInt8.ofNat k = b := by
  rw [← h, UInt8.ofNat_toNat]

theorem toNat_of_isContinuation {b : UInt8} (h : isContinuation b = true) :
    b.toNat = 0x80 + payload b ∧ payload b < 64 := by
  rw [isContinuation_iff] at h
  rw [payload]
  omega

theorem encodeChar_ascii {c : Char} (h : c.toNat < 0x80) : encodeChar c = [.ofNat c.toNat] := by
  simp [encodeChar, h]

theorem encodeChar_of_oneByte? {a : UInt8} {g : Glyph} (h : oneByte? a = some g) :
    encodeChar g.char = g.bytes := by
  unfold oneByte? at h
  split at h
  case isTrue ha =>
    have hn := toNat_of_glyphOf? h
    have ha : a.toNat < 0x80 := UInt8.lt_iff_toNat_lt.1 ha
    rw [encodeChar_ascii (hn ▸ ha), hn, UInt8.ofNat_toNat, bytes_of_glyphOf? h]
  case isFalse => cases h

theorem encodeChar_of_twoBytes? {a : UInt8} {s : Bytes} {g : Glyph} (h : twoBytes? a s = some g) :
    encodeChar g.char = g.bytes := by
  unfold twoBytes? at h
  split at h
  case h_1 b s =>
    split at h
    case isTrue hform =>
      simp only [Bool.and_eq_true, decide_eq_true_eq] at hform
      obtain ⟨⟨hlow, hhigh⟩, hb⟩ := hform
      have hlow : 0xC2 ≤ a.toNat := UInt8.le_iff_toNat_le.1 hlow
      have hhigh : a.toNat ≤ 0xDF := UInt8.le_iff_toNat_le.1 hhigh
      have hb := toNat_of_isContinuation hb
      simp only [encodeChar, toNat_of_glyphOf? h, bytes_of_glyphOf? h]
      rw [if_neg (by omega), if_pos (by omega), ofNat_eq_of_toNat (b := a) (by omega),
        ofNat_eq_of_toNat (b := b) (by omega)]
    case isFalse => cases h
  case h_2 => cases h

theorem encodeChar_of_threeBytes? {a : UInt8} {s : Bytes} {g : Glyph}
    (h : threeBytes? a s = some g) : encodeChar g.char = g.bytes := by
  unfold threeBytes? at h
  split at h
  case h_1 b c s =>
    dsimp only at h
    split at h
    case isTrue hform =>
      simp only [Bool.and_eq_true, decide_eq_true_eq] at hform
      obtain ⟨⟨⟨⟨hlow, hhigh⟩, hb⟩, hc⟩, hlarge⟩ := hform
      have hlow : 0xE0 ≤ a.toNat := UInt8.le_iff_toNat_le.1 hlow
      have hhigh : a.toNat ≤ 0xEF := UInt8.le_iff_toNat_le.1 hhigh
      have hb := toNat_of_isContinuation hb
      have hc := toNat_of_isContinuation hc
      simp only [encodeChar, toNat_of_glyphOf? h, bytes_of_glyphOf? h]
      rw [if_neg (by omega), if_neg (by omega), if_pos (by omega),
        ofNat_eq_of_toNat (b := a) (by omega), ofNat_eq_of_toNat (b := b) (by omega),
        ofNat_eq_of_toNat (b := c) (by omega)]
    case isFalse => cases h
  case h_2 => cases h

theorem encodeChar_of_fourBytes? {a : UInt8} {s : Bytes} {g : Glyph}
    (h : fourBytes? a s = some g) : encodeChar g.char = g.bytes := by
  unfold fourBytes? at h
  split at h
  case h_1 b c d s =>
    dsimp only at h
    split at h
    case isTrue hform =>
      simp only [Bool.and_eq_true, decide_eq_true_eq] at hform
      obtain ⟨⟨⟨⟨⟨hlow, hhigh⟩, hb⟩, hc⟩, hd⟩, hlarge⟩ := hform
      have hlow : 0xF0 ≤ a.toNat := UInt8.le_iff_toNat_le.1 hlow
      have hhigh : a.toNat ≤ 0xF7 := UInt8.le_iff_toNat_le.1 hhigh
      have hb := toNat_of_isContinuation hb
      have hc := toNat_of_isContinuation hc
      have hd := toNat_of_isContinuation hd
      simp only [encodeChar, toNat_of_glyphOf? h, bytes_of_glyphOf? h]
      rw [if_neg (by omega), if_neg (by omega), if_neg (by omega),
        ofNat_eq_of_toNat (b := a) (by omega), ofNat_eq_of_toNat (b := b) (by omega),
        ofNat_eq_of_toNat (b := c) (by omega), ofNat_eq_of_toNat (b := d) (by omega)]
    case isFalse => cases h
  case h_2 => cases h

/-- A glyph that does not stand for a stray byte is written as it was read. -/
theorem encodeChar_firstGlyph {a : UInt8} {s : Bytes} (h : (firstGlyph a s).char ≠ replacement) :
    encodeChar (firstGlyph a s).char = (firstGlyph a s).bytes := by
  unfold firstGlyph at h ⊢
  cases hg : (oneByte? a).or ((twoBytes? a s).or ((threeBytes? a s).or (fourBytes? a s))) with
  | none =>
      rw [hg] at h
      exact absurd rfl h
  | some g =>
      simp only [Option.or_eq_some_iff] at hg
      rcases hg with hg | ⟨-, hg | ⟨-, hg | ⟨-, hg⟩⟩⟩
      · exact encodeChar_of_oneByte? hg
      · exact encodeChar_of_twoBytes? hg
      · exact encodeChar_of_threeBytes? hg
      · exact encodeChar_of_fourBytes? hg

/-- Bytes that can all be read are what is written for the characters read. -/
theorem encode_decode {s : Bytes} (h : replacement ∉ decode s) : encode (decode s) = s := by
  unfold decode at h ⊢
  fun_induction glyphs s with
  | case1 => rfl
  | case2 a s g ih =>
      rw [List.map_cons, List.mem_cons, not_or] at h
      rw [List.map_cons, encode_cons, encodeChar_firstGlyph (Ne.symm h.1), ih h.2, firstGlyph_bytes]

end LineBasic.Text
