import LineBasic.Proofs.Text.Glyph
import LineBasic.Token
import Mathlib.Data.List.TakeWhile

/-!
# Squeezed lines

Squeezing a line keeps its words, glyph by glyph (`words_squeeze`), and so it
is done after one time (`squeeze_squeeze`).  No token reaches over a blank, and
every token lies in a word; so a squeezed line has the tokens of the line it
comes from (`Token.ofLine_squeeze`).
-/

namespace LineBasic

namespace Text

/-! ### Words -/

section Words

variable {w : List Glyph} {gs : List Glyph}

/-- A word has a glyph and no blank, and stands in the line as it is. -/
theorem mem_words (h : w ∈ words gs) :
    w ≠ [] ∧ (∀ g ∈ w, isBlank g.char = false) ∧ w <:+: gs := by
  fun_induction words gs with
  | case1 => simp at h
  | case2 g gs hblank ih =>
      obtain ⟨hne, hclear, hin⟩ := ih h
      exact ⟨hne, hclear, hin.trans (List.suffix_cons g gs).isInfix⟩
  | case3 g gs hblank ih =>
      rcases List.mem_cons.1 h with rfl | h
      · refine ⟨by simp, ?_, ?_⟩
        · intro k hk
          rcases List.mem_cons.1 hk with rfl | hk
          · simpa using hblank
          · simpa using List.mem_takeWhile_imp hk
        · exact (List.prefix_cons_inj g).2 (List.takeWhile_prefix _) |>.isInfix
      · obtain ⟨hne, hclear, hin⟩ := ih h
        exact ⟨hne, hclear, hin.trans
          ((List.dropWhile_suffix _).trans (List.suffix_cons g gs)).isInfix⟩

theorem words_append_blank (hne : w ≠ []) (hw : ∀ g ∈ w, isBlank g.char = false) {k : Glyph}
    (hk : isBlank k.char = true) (gs : List Glyph) : words (w ++ k :: gs) = w :: words gs := by
  obtain ⟨g, w, rfl⟩ := List.exists_cons_of_ne_nil hne
  rw [List.forall_mem_cons] at hw
  have hclear : ∀ g ∈ w, (!isBlank g.char) = true := by simpa using hw.2
  rw [List.cons_append, words_cons_of_not_blank hw.1, List.takeWhile_append_of_pos hclear,
    List.dropWhile_append_of_pos hclear]
  simp [hk, words_cons_of_blank hk]

theorem words_of_not_blank (hne : w ≠ []) (hw : ∀ g ∈ w, isBlank g.char = false) :
    words w = [w] := by
  obtain ⟨g, w, rfl⟩ := List.exists_cons_of_ne_nil hne
  rw [List.forall_mem_cons] at hw
  have hclear : ∀ g ∈ w, (!isBlank g.char) = true := by simpa using hw.2
  rw [words_cons_of_not_blank hw.1, List.takeWhile_eq_self_iff.2 hclear,
    List.dropWhile_eq_nil_iff.2 hclear, words_nil]

end Words

def blankGlyph : Glyph := ⟨' ', [blank]⟩

/-- Words with a space between each two are the words of what they make. -/
theorem words_intercalate {ws : List (List Glyph)}
    (h : ∀ w ∈ ws, w ≠ [] ∧ ∀ g ∈ w, isBlank g.char = false) :
    words ([blankGlyph].intercalate ws) = ws := by
  induction ws with
  | nil => simp
  | cons w ws ih =>
      obtain ⟨⟨hne, hw⟩, hws⟩ := List.forall_mem_cons.1 h
      cases ws with
      | nil => simpa using words_of_not_blank hne hw
      | cons v ws =>
          rw [List.intercalate_cons_cons, List.append_assoc, List.singleton_append,
            words_append_blank hne hw isBlank_space, ih hws]

theorem glyphs_intercalate {ws : List (List Glyph)} (h : ∀ w ∈ ws, Readable w) :
    glyphs ([blank].intercalate (ws.map (·.flatMap Glyph.bytes))) =
      [blankGlyph].intercalate ws := by
  induction ws with
  | nil => simp
  | cons w ws ih =>
      obtain ⟨hw, hws⟩ := List.forall_mem_cons.1 h
      cases ws with
      | nil => simpa using hw [] breaks_nil
      | cons v ws =>
          rw [List.map_cons, List.map_cons, List.intercalate_cons_cons, ← List.map_cons,
            List.append_assoc, List.singleton_append, hw _ (breaks_cons (by decide) _),
            glyphs_cons_ascii (by decide), ih hws, List.intercalate_cons_cons]
          have hblank : (⟨Char.ofNat blank.toNat, [blank]⟩ : Glyph) = blankGlyph := by decide
          simp [hblank]

theorem glyphs_squeeze (s : Bytes) :
    glyphs (squeeze s) = [blankGlyph].intercalate (words (glyphs s)) := by
  apply glyphs_intercalate
  intro w hw
  exact readable_of_infix (mem_words hw).2.2

/-- Squeezing a line keeps its words. -/
theorem words_squeeze (s : Bytes) : words (glyphs (squeeze s)) = words (glyphs s) := by
  rw [glyphs_squeeze]
  apply words_intercalate
  intro w hw
  exact ⟨(mem_words hw).1, (mem_words hw).2.1⟩

theorem squeeze_squeeze (s : Bytes) : squeeze (squeeze s) = squeeze s := by
  rw [squeeze, words_squeeze]
  rfl

theorem mem_of_mem_intercalate {α : Type*} {sep : List α} {ls : List (List α)} {a : α}
    (h : a ∈ sep.intercalate ls) : a ∈ sep ∨ ∃ l ∈ ls, a ∈ l := by
  induction ls with
  | nil => simp at h
  | cons l ls ih =>
      cases ls with
      | nil => exact .inr ⟨l, by simp, by simpa using h⟩
      | cons k ls =>
          rw [List.intercalate_cons_cons, List.mem_append, List.mem_append] at h
          rcases h with (h | h) | h
          · exact .inr ⟨l, by simp, h⟩
          · exact .inl h
          · rcases ih h with h | ⟨m, hm, h⟩
            · exact .inl h
            · exact .inr ⟨m, List.mem_cons_of_mem _ hm, h⟩

/-- Of the blanks below `0x80` a squeezed line has only the space. -/
theorem not_mem_squeeze {b : UInt8} (hlt : b.toNat < 0x80)
    (hblank : isBlank (Char.ofNat b.toNat) = true) (hb : b ≠ blank) (s : Bytes) :
    b ∉ squeeze s := by
  intro hmem
  rcases mem_of_mem_intercalate hmem with hmem | ⟨bs, hbs, hmem⟩
  · exact hb (List.mem_singleton.1 hmem)
  · obtain ⟨w, hw, rfl⟩ := List.mem_map.1 hbs
    obtain ⟨g, hg, hmem⟩ := List.mem_flatMap.1 hmem
    obtain ⟨-, hclear, hin⟩ := mem_words hw
    have hchar := hclear g hg
    rw [eq_of_mem_glyphs_of_ascii (hin.subset hg) hmem hlt, hblank] at hchar
    cases hchar

theorem newline_not_mem_squeeze (s : Bytes) : newline ∉ squeeze s :=
  not_mem_squeeze (by decide) (by decide) (by decide) s

theorem carriageReturn_not_mem_squeeze (s : Bytes) : carriageReturn ∉ squeeze s :=
  not_mem_squeeze (by decide) (by decide) (by decide) s

/-! ### Letters and blanks -/

theorem isBlank_iff {c : Char} :
    isBlank c = true ↔ ∃ r ∈ blankRanges, r.first ≤ c.toNat ∧ c.toNat ≤ r.last := by
  simp [isBlank, CodeRange.has_iff]

/-- The ranges of the letters and those of the blanks have nothing in common. -/
theorem letterRanges_disjoint_blankRanges :
    ∀ r ∈ letterRanges, ∀ b ∈ blankRanges, r.last < b.first ∨ b.last < r.first := by
  decide +kernel

theorem blankRanges_outside_graphic :
    ∀ r ∈ blankRanges, r.last ≤ 0x20 ∨ 0x85 ≤ r.first := by
  decide

/-- Between the space and U+0085 there is no blank. -/
theorem toNat_of_isBlank {c : Char} (h : isBlank c = true) : c.toNat ≤ 0x20 ∨ 0x85 ≤ c.toNat := by
  obtain ⟨r, hr, hfirst, hlast⟩ := isBlank_iff.1 h
  have := blankRanges_outside_graphic r hr
  omega

theorem isAlpha_iff {c : Char} :
    c.isAlpha = true ↔ 65 ≤ c.toNat ∧ c.toNat ≤ 90 ∨ 97 ≤ c.toNat ∧ c.toNat ≤ 122 := by
  have halpha : c.isAlpha = (decide (65 ≤ c.toNat ∧ c.toNat ≤ 90) ||
      (decide (97 ≤ c.toNat) && decide (c.toNat ≤ 122))) := rfl
  simp [halpha]

theorem toNat_of_isAlpha {c : Char} (h : c.isAlpha = true) : 0x20 < c.toNat ∧ c.toNat < 0x85 := by
  rw [isAlpha_iff] at h
  omega

theorem toNat_of_isDigit {c : Char} (h : c.isDigit = true) : 0x20 < c.toNat ∧ c.toNat < 0x85 := by
  simp [Char.isDigit, UInt32.le_iff_toNat_le] at h
  omega

theorem isLetter_of_isBlank {c : Char} (h : isBlank c = true) : isLetter c = false := by
  rw [Bool.eq_false_iff]
  intro hletter
  rw [isLetter, Bool.or_eq_true, Bool.and_eq_true, List.any_eq_true] at hletter
  rcases hletter with halpha | ⟨-, r, hr, hhas⟩
  · have := toNat_of_isBlank h
    have := toNat_of_isAlpha halpha
    omega
  · obtain ⟨b, hb, hfirst, hlast⟩ := isBlank_iff.1 h
    have := letterRanges_disjoint_blankRanges r hr b hb
    rw [CodeRange.has_iff] at hhas
    omega

theorem isDigit_of_isBlank {c : Char} (h : isBlank c = true) : c.isDigit = false := by
  rw [Bool.eq_false_iff]
  intro hdigit
  have := toNat_of_isBlank h
  have := toNat_of_isDigit hdigit
  omega

end Text

namespace Token

open Text

theorem isWordChar_of_isBlank {d : Char} (h : isBlank d = true) : isWordChar d = false := by
  have hscore : d ≠ '_' := by
    rintro rfl
    revert h
    decide
  simp [isWordChar, isLetter_of_isBlank h, isDigit_of_isBlank h, hscore]

/-- No token goes on with a character that is none of a word. -/
theorem tailClass_of_not_isWordChar {d : Char} (h : isWordChar d = false) (c : Char) :
    tailClass c d = false := by
  have hdigit : d.isDigit = false := by
    rw [isWordChar, Bool.or_eq_false_iff, Bool.or_eq_false_iff] at h
    exact h.1.2
  unfold tailClass
  split
  · exact h
  · split
    · exact hdigit
    · rfl

/-- A stretch that cannot go on into `v` is the same in front of `v`. -/
theorem takeWhile_append_of_head? {α : Type*} {p : α → Bool} {v : List α}
    (hv : ∀ c, v.head? = some c → p c = false) (u : List α) :
    (u ++ v).takeWhile p = u.takeWhile p ∧ (u ++ v).dropWhile p = u.dropWhile p ++ v := by
  induction u with
  | nil =>
      cases v with
      | nil => simp
      | cons c v => simp [hv c rfl]
  | cons c u ih => cases hc : p c <;> simp [hc, ih]

/-- What is scanned up to a character that is none of a word does not depend on
what comes after it. -/
theorem scan_append {u v : List Char} (hv : ∀ d, v.head? = some d → isWordChar d = false) :
    scan (u ++ v) = scan u ++ scan v := by
  fun_induction scan u with
  | case1 => rfl
  | case2 c cs hblank ih => rw [List.cons_append, scan_cons_of_blank hblank, ih]
  | case3 c cs hblank ih =>
      have hstop : ∀ d, v.head? = some d → tailClass c d = false :=
        fun d hd => tailClass_of_not_isWordChar (hv d hd) c
      obtain ⟨htake, hdrop⟩ := takeWhile_append_of_head? hstop cs
      rw [List.cons_append, scan_cons_of_not_blank (by simpa using hblank), htake, hdrop, ih,
        List.cons_append]

/-- Each word of a line is scanned by itself. -/
theorem scan_eq_flatMap_words (gs : List Glyph) :
    scan (gs.map Glyph.char) = (words gs).flatMap fun w => scan (w.map Glyph.char) := by
  fun_induction words gs with
  | case1 => simp
  | case2 g gs hblank ih => rw [List.map_cons, scan_cons_of_blank hblank, ih]
  | case3 g gs hblank ih =>
      -- behind a word there is a blank or the end of the line
      have hnext : ∀ c, ((gs.dropWhile (!isBlank ·.char)).map Glyph.char).head? = some c →
          isWordChar c = false := by
        intro c hc
        rw [List.head?_map, Option.map_eq_some_iff] at hc
        obtain ⟨k, hk, rfl⟩ := hc
        have hstop := List.head?_dropWhile_not (!isBlank ·.char) gs
        rw [hk] at hstop
        exact isWordChar_of_isBlank (by simpa using hstop)
      rw [List.flatMap_cons, ← ih, ← scan_append hnext, ← List.map_append, List.cons_append,
        List.takeWhile_append_dropWhile]

/-- A squeezed line has the tokens of the line it comes from. -/
theorem ofLine_squeeze (s : Bytes) : ofLine (squeeze s) = ofLine s := by
  rw [ofLine, ofLine, decode, decode, scan_eq_flatMap_words, words_squeeze,
    ← scan_eq_flatMap_words]

end Token

end LineBasic
