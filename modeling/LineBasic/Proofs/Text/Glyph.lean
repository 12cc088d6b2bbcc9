import LineBasic.Proofs.Text.Encoding
import Mathlib.Tactic.ByContra

/-!
# Reading a stretch of glyphs again

How the bytes of a line fall into glyphs depends on what follows only where a
sequence could go on.  So a stretch of the glyphs of a line is read as the same
glyphs wherever its bytes stand before something that goes on with no sequence
(`readable_of_infix`), also if some of its bytes form no UTF-8.
-/

namespace LineBasic.Text

/-- The bytes do not begin with one that could go on with a sequence. -/
def Breaks (w : Bytes) : Prop :=
  ∀ b, w.head? = some b → isContinuation b = false

theorem breaks_nil : Breaks [] := by
  simp [Breaks]

theorem breaks_cons {b : UInt8} (h : isContinuation b = false) (w : Bytes) : Breaks (b :: w) := by
  simpa [Breaks] using h

theorem twoBytes?_of_breaks {w : Bytes} (h : Breaks w) (a : UInt8) : twoBytes? a w = none := by
  cases w with
  | nil => rfl
  | cons b w => simp [twoBytes?, h b rfl]

theorem threeBytes?_of_breaks {w : Bytes} (h : Breaks w) (a b : UInt8) :
    threeBytes? a w = none ∧ threeBytes? a (b :: w) = none := by
  cases w with
  | nil => exact ⟨rfl, rfl⟩
  | cons c w =>
      refine ⟨?_, by simp [threeBytes?, h c rfl]⟩
      cases w with
      | nil => rfl
      | cons d w => simp [threeBytes?, h c rfl]

theorem fourBytes?_of_breaks {w : Bytes} (h : Breaks w) (a b c : UInt8) :
    fourBytes? a w = none ∧ fourBytes? a (b :: w) = none ∧ fourBytes? a (b :: c :: w) = none := by
  cases w with
  | nil => exact ⟨rfl, rfl, rfl⟩
  | cons d w =>
      refine ⟨?_, ?_, by simp [fourBytes?, h d rfl]⟩
      · cases w with
        | nil => rfl
        | cons e w =>
            cases w with
            | nil => rfl
            | cons f w => simp [fourBytes?, h d rfl]
      · cases w with
        | nil => rfl
        | cons e w => simp [fourBytes?, h d rfl]

theorem firstGlyph_bytes_eq_cons (a : UInt8) (s : Bytes) :
    ∃ bs, (firstGlyph a s).bytes = a :: bs ∧ bs ++ s.drop bs.length = s := by
  have h := firstGlyph_bytes a s
  cases hb : (firstGlyph a s).bytes with
  | nil =>
      rw [hb] at h
      have hlen := congrArg List.length h
      simp at hlen
  | cons b bs =>
      rw [hb, List.cons_append, List.cons.injEq] at h
      obtain ⟨rfl, hbs⟩ := h
      exact ⟨bs, rfl, by simpa using hbs⟩

theorem length_of_twoBytes? {a : UInt8} {s : Bytes} {g : Glyph} (h : twoBytes? a s = some g) :
    g.bytes.length = 2 := by
  obtain ⟨b, t, -, hg⟩ := twoBytes?_bytes h
  rw [hg]
  rfl

theorem length_of_threeBytes? {a : UInt8} {s : Bytes} {g : Glyph}
    (h : threeBytes? a s = some g) : g.bytes.length = 3 := by
  obtain ⟨b, c, t, -, hg⟩ := threeBytes?_bytes h
  rw [hg]
  rfl

theorem length_of_fourBytes? {a : UInt8} {s : Bytes} {g : Glyph} (h : fourBytes? a s = some g) :
    g.bytes.length = 4 := by
  obtain ⟨b, c, d, t, -, hg⟩ := fourBytes?_bytes h
  rw [hg]
  rfl

/-- If a glyph is short, the longer forms need not have been tried. -/
theorem getD_or_of_length_le {x y : Option Glyph} {g : Glyph} {k : Nat}
    (hy : ∀ f, y = some f → k < f.bytes.length) (h : ((x.or y).getD g).bytes.length ≤ k) :
    (x.or y).getD g = x.getD g := by
  cases x with
  | some f => rfl
  | none =>
      cases y with
      | none => rfl
      | some f => exact absurd (hy f rfl) (Nat.not_lt.2 h)

/-- A front glyph that ends before `v` is the same with anything else in the
place of `v` that goes on with no sequence. -/
theorem firstGlyph_append_of_breaks {a : UInt8} {u v w : Bytes} (hw : Breaks w)
    (hlen : (firstGlyph a (u ++ v)).bytes.length ≤ u.length + 1) :
    firstGlyph a (u ++ w) = firstGlyph a (u ++ v) := by
  -- either `u` holds all the bytes that a form looks at, or `w` does not allow that form
  unfold firstGlyph at hlen ⊢
  match u with
  | b :: c :: d :: u => rfl
  | [] =>
      have hlong : ∀ f, (twoBytes? a ([] ++ v)).or ((threeBytes? a ([] ++ v)).or
          (fourBytes? a ([] ++ v))) = some f → 1 < f.bytes.length := by
        intro f hf
        simp only [Option.or_eq_some_iff] at hf
        rcases hf with hf | ⟨-, hf | ⟨-, hf⟩⟩
        · simp [length_of_twoBytes? hf]
        · simp [length_of_threeBytes? hf]
        · simp [length_of_fourBytes? hf]
      rw [getD_or_of_length_le hlong hlen, List.nil_append, twoBytes?_of_breaks hw,
        (threeBytes?_of_breaks hw a a).1, (fourBytes?_of_breaks hw a a a).1]
      simp
  | [b] =>
      have hlong : ∀ f, (threeBytes? a ([b] ++ v)).or (fourBytes? a ([b] ++ v)) = some f →
          2 < f.bytes.length := by
        intro f hf
        rw [Option.or_eq_some_iff] at hf
        rcases hf with hf | ⟨-, hf⟩
        · simp [length_of_threeBytes? hf]
        · simp [length_of_fourBytes? hf]
      rw [← Option.or_assoc] at hlen
      have hshort := getD_or_of_length_le hlong hlen
      rw [Option.or_assoc] at hshort
      rw [hshort, List.singleton_append, (threeBytes?_of_breaks hw a b).2,
        (fourBytes?_of_breaks hw a b b).2.1]
      simp only [Option.or_none]
      rfl
  | [b, c] =>
      have hlong : ∀ f, fourBytes? a ([b, c] ++ v) = some f → 3 < f.bytes.length := by
        intro f hf
        simp [length_of_fourBytes? hf]
      simp only [← Option.or_assoc] at hlen ⊢
      rw [getD_or_of_length_le hlong hlen, List.cons_append, List.singleton_append,
        (fourBytes?_of_breaks hw a b c).2.2]
      simp only [Option.or_none]
      rfl

/-- The glyphs are read from their bytes again, whatever follows that goes on
with no sequence. -/
def Readable (gs : List Glyph) : Prop :=
  ∀ w, Breaks w → glyphs (gs.flatMap Glyph.bytes ++ w) = gs ++ glyphs w

theorem readable_of_glyphs_eq_append {s : Bytes} {gs hs : List Glyph}
    (h : glyphs s = gs ++ hs) : Readable gs := by
  intro w hw
  induction gs generalizing s with
  | nil => rfl
  | cons g gs ih =>
      cases s with
      | nil => simp at h
      | cons a s =>
          rw [glyphs_cons, List.cons_append, List.cons.injEq] at h
          obtain ⟨hg, hrest⟩ := h
          obtain ⟨bs, hbs, hs'⟩ := firstGlyph_bytes_eq_cons a s
          rw [hbs, List.length_cons, Nat.add_sub_cancel] at hrest
          -- the line is the front glyph, the other glyphs of the stretch, and the rest
          have hs : s = (bs ++ gs.flatMap Glyph.bytes) ++ hs.flatMap Glyph.bytes := by
            rw [List.append_assoc, ← List.flatMap_append, ← hrest, bytes_glyphs, hs']
          have hsame : firstGlyph a ((bs ++ gs.flatMap Glyph.bytes) ++ w) = g := by
            rw [firstGlyph_append_of_breaks hw, ← hs, hg]
            rw [← hs, hbs]
            simp
          have hgb : g.bytes = a :: bs := by rw [← hg, hbs]
          rw [List.flatMap_cons, hgb, List.cons_append, List.cons_append, glyphs_cons, hsame, hgb,
            List.length_cons, Nat.add_sub_cancel, List.append_assoc, List.drop_left, ih hrest,
            List.cons_append]

theorem exists_glyphs_eq_of_append {s : Bytes} {gs hs : List Glyph} (h : glyphs s = gs ++ hs) :
    ∃ t, glyphs t = hs := by
  induction gs generalizing s with
  | nil => exact ⟨s, h⟩
  | cons g gs ih =>
      cases s with
      | nil => simp at h
      | cons a s =>
          rw [glyphs_cons, List.cons_append, List.cons.injEq] at h
          exact ih h.2

/-- Any stretch of the glyphs of a line can be read again. -/
theorem readable_of_infix {s : Bytes} {gs : List Glyph} (h : gs <:+: glyphs s) : Readable gs := by
  obtain ⟨fs, hs, h⟩ := h
  rw [List.append_assoc] at h
  obtain ⟨t, ht⟩ := exists_glyphs_eq_of_append h.symm
  exact readable_of_glyphs_eq_append ht

/-! ### Bytes below `0x80` -/

/-- No glyph reaches into bytes that go on with no sequence. -/
theorem length_firstGlyph_le_of_breaks {w : Bytes} (hw : Breaks w) (a : UInt8) (u : Bytes) :
    (firstGlyph a (u ++ w)).bytes.length ≤ u.length + 1 := by
  unfold firstGlyph
  cases h : (oneByte? a).or ((twoBytes? a (u ++ w)).or
      ((threeBytes? a (u ++ w)).or (fourBytes? a (u ++ w)))) with
  | none => simp
  | some g =>
      rw [Option.getD_some]
      simp only [Option.or_eq_some_iff] at h
      -- a form of `k` bytes is refused where `u` has fewer than `k - 1`
      rcases h with h | ⟨-, h | ⟨-, h | ⟨-, h⟩⟩⟩
      · simp [oneByte?_bytes h]
      · obtain ⟨b, t, -, hg⟩ := twoBytes?_bytes h
        match u with
        | [] => simp [twoBytes?_of_breaks hw] at h
        | _ :: u => simp [hg]
      · obtain ⟨b, c, t, -, hg⟩ := threeBytes?_bytes h
        match u with
        | [] => simp [(threeBytes?_of_breaks hw a a).1] at h
        | [b] => simp [(threeBytes?_of_breaks hw a b).2] at h
        | _ :: _ :: u => simp [hg]
      · obtain ⟨b, c, d, t, -, hg⟩ := fourBytes?_bytes h
        match u with
        | [] => simp [(fourBytes?_of_breaks hw a a a).1] at h
        | [b] => simp [(fourBytes?_of_breaks hw a b b).2.1] at h
        | [b, c] => simp [(fourBytes?_of_breaks hw a b c).2.2] at h
        | _ :: _ :: _ :: u => simp [hg]

/-- The bytes of a glyph after its first one all go on with its sequence. -/
theorem isContinuation_of_mem_firstGlyph {a b : UInt8} {s bs : Bytes}
    (h : (firstGlyph a s).bytes = a :: bs) (hb : b ∈ bs) : isContinuation b = true := by
  obtain ⟨p, q, rfl⟩ := List.append_of_mem hb
  have hs := firstGlyph_bytes a s
  rw [h, List.cons_append, List.cons.injEq] at hs
  by_contra hnot
  have hbreaks := breaks_cons (Bool.not_eq_true _ ▸ hnot)
  have hle := length_firstGlyph_le_of_breaks (hbreaks (q ++ s.drop (p.length + q.length + 1))) a p
  have hsplit : p ++ b :: (q ++ s.drop (p.length + q.length + 1)) = s := by
    simpa [Nat.add_assoc] using hs.2
  rw [hsplit, h] at hle
  simp only [List.length_cons, List.length_append] at hle
  omega

theorem not_isContinuation_of_ascii {b : UInt8} (hb : b.toNat < 0x80) :
    isContinuation b = false := by
  rw [Bool.eq_false_iff, Ne, isContinuation_iff]
  omega

theorem firstGlyph_ascii {a : UInt8} (ha : a.toNat < 0x80) (s : Bytes) :
    firstGlyph a s = ⟨Char.ofNat a.toNat, [a]⟩ := by
  have hvalid : a.toNat.isValidChar := by
    simp only [Nat.isValidChar]
    omega
  exact firstGlyph_one ha (toNat_ofNat_of_valid hvalid).symm s

theorem glyphs_cons_ascii {a : UInt8} (ha : a.toNat < 0x80) (s : Bytes) :
    glyphs (a :: s) = ⟨Char.ofNat a.toNat, [a]⟩ :: glyphs s := by
  rw [glyphs_cons, firstGlyph_ascii ha]
  rfl

/-- A byte below `0x80` stands for itself, wherever it is found. -/
theorem eq_of_mem_glyphs_of_ascii {s : Bytes} {g : Glyph} {b : UInt8} (hg : g ∈ glyphs s)
    (hb : b ∈ g.bytes) (hlt : b.toNat < 0x80) : g = ⟨Char.ofNat b.toNat, [b]⟩ := by
  fun_induction glyphs s with
  | case1 => simp at hg
  | case2 a s front ih =>
      rcases List.mem_cons.1 hg with rfl | hg
      · obtain ⟨bs, hbs, -⟩ := firstGlyph_bytes_eq_cons a s
        rw [hbs, List.mem_cons] at hb
        rcases hb with rfl | hb
        · exact firstGlyph_ascii hlt s
        · have hcont := isContinuation_of_mem_firstGlyph hbs hb
          rw [not_isContinuation_of_ascii hlt] at hcont
          cases hcont
      · exact ih hg

end LineBasic.Text
