import LineBasic.Proofs.Text.Squeeze
import LineBasic.Text.Lines
import Mathlib.Data.List.Basic
import Mathlib.Data.List.Induction

/-!
# Lines and the carriage returns at their ends

A text that ends with a newline, or is empty, can be cut into lines apart from
what follows it (`lines_append`).  Newlines divide every text in one way
(`existsUnique_division`), into the lines that they end and a rest, and these
are the lines into which it is cut (`Division.lines_text`).

A line of a file loses one carriage return at its end and a typed one loses all
of them, but carriage returns there are blanks, and squeezing takes no notice of
either (`squeeze_dropReturn`, `squeeze_dropReturns`).
-/

namespace LineBasic.Text

/-! ### Cutting -/

theorem lines_ne_nil {s : Bytes} (h : s ≠ []) : lines s ≠ [] := by
  cases s with
  | nil => exact absurd rfl h
  | cons b s =>
      rw [lines]
      split_ifs
      · simp
      · split <;> simp

theorem lines_append {f : Bytes} (h : f = [] ∨ f.getLast? = some newline) (s : Bytes) :
    lines (f ++ s) = lines f ++ lines s := by
  induction f with
  | nil => rfl
  | cons b f ih =>
      have hf : f = [] ∨ f.getLast? = some newline := by
        cases f with
        | nil => exact .inl rfl
        | cons c f => simpa using h
      rw [List.cons_append, lines, lines, ih hf]
      split_ifs with hb
      · rfl
      · -- the line of `b` goes on, so it ends within the text
        have hne : f ≠ [] := by
          rintro rfl
          exact hb (by simpa using h)
        obtain ⟨l, ls, hl⟩ := List.exists_cons_of_ne_nil (lines_ne_nil hne)
        rw [hl]
        rfl

theorem typedLines_append {f : Bytes} (h : f = [] ∨ f.getLast? = some newline) (s : Bytes) :
    typedLines (f ++ s) = typedLines f ++ typedLines s := by
  rw [typedLines, lines_append h, List.map_append]
  rfl

theorem fileLines_of_short {f : Bytes} (h : ∀ l ∈ lines f, l.length < longestLine) :
    fileLines f = ((lines f).map dropReturn, false) := by
  have hall : (lines f).takeWhile (·.length < longestLine) = lines f :=
    List.takeWhile_eq_self_iff.2 (by simpa using h)
  simp [fileLines, hall]

/-! ### Divisions -/

/-- Lines that have a newline behind them, and what stands behind the last
newline. -/
@[ext]
structure Division where
  ended : List Bytes
  rest : Bytes
  newline_not_mem_ended : ∀ l ∈ ended, newline ∉ l
  newline_not_mem_rest : newline ∉ rest

namespace Division

def text (d : Division) : Bytes :=
  d.ended.flatMap (· ++ [newline]) ++ d.rest

/-- The rest is a line too, unless it is empty. -/
def lines (d : Division) : List Bytes :=
  if d.rest = [] then d.ended else d.ended ++ [d.rest]

end Division

theorem flatMap_newline_append (ls : List Bytes) (l : Bytes) :
    ls.flatMap (· ++ [newline]) ++ l = [newline].intercalate (ls ++ [l]) := by
  induction ls with
  | nil => simp
  | cons k ls ih =>
      rw [List.flatMap_cons, List.append_assoc, ih, List.cons_append,
        List.intercalate_cons_of_ne_nil (by simp)]

theorem Division.splitOn_text (d : Division) : d.text.splitOn newline = d.ended ++ [d.rest] := by
  rw [text, flatMap_newline_append, List.splitOn_intercalate]
  · simpa [or_imp, forall_and] using ⟨d.newline_not_mem_ended, d.newline_not_mem_rest⟩
  · simp

theorem Division.text_injective : Function.Injective Division.text := by
  intro d e h
  have hsplit := d.splitOn_text
  rw [h, e.splitOn_text] at hsplit
  obtain ⟨hended, hrest⟩ := List.append_inj' hsplit rfl
  exact Division.ext hended.symm (List.singleton_inj.1 hrest).symm

theorem exists_division (s : Bytes) : ∃ d : Division, d.text = s := by
  induction s with
  | nil => exact ⟨⟨[], [], by simp, by simp⟩, rfl⟩
  | cons b s ih =>
      obtain ⟨⟨ended, rest, hended, hrest⟩, rfl⟩ := ih
      by_cases hb : b = newline
      · exact ⟨⟨[] :: ended, rest, by simpa using hended, hrest⟩, by simp [Division.text, hb]⟩
      · -- the byte goes to the first line, which is the rest if no line is ended
        cases ended with
        | nil => exact ⟨⟨[], b :: rest, by simp, by simp [Ne.symm hb, hrest]⟩, rfl⟩
        | cons l ls =>
            obtain ⟨hl, hls⟩ := List.forall_mem_cons.1 hended
            exact ⟨⟨(b :: l) :: ls, rest,
              List.forall_mem_cons.2 ⟨by simp [Ne.symm hb, hl], hls⟩, hrest⟩, rfl⟩

/-- Newlines divide a text in one way. -/
theorem existsUnique_division (s : Bytes) : ∃! d : Division, d.text = s := by
  obtain ⟨d, hd⟩ := exists_division s
  exact ⟨d, hd, fun e he => Division.text_injective (he.trans hd.symm)⟩

theorem lines_flatMap_newline_append {ls : List Bytes} (h : ∀ l ∈ ls, newline ∉ l) (s : Bytes) :
    lines (ls.flatMap (· ++ [newline]) ++ s) = ls ++ lines s := by
  induction ls with
  | nil => rfl
  | cons l ls ih =>
      obtain ⟨hl, hls⟩ := List.forall_mem_cons.1 h
      rw [List.flatMap_cons, List.append_assoc, List.append_assoc, List.singleton_append,
        lines_append_newline hl, ih hls, List.cons_append]

theorem lines_of_newline_not_mem {l : Bytes} (h : newline ∉ l) :
    lines l = if l = [] then [] else [l] := by
  induction l with
  | nil => rfl
  | cons b l ih =>
      simp only [List.mem_cons, not_or] at h
      rw [lines, if_neg (Ne.symm h.1), ih h.2]
      cases l <;> rfl

theorem Division.lines_text (d : Division) : Text.lines d.text = d.lines := by
  rw [text, lines_flatMap_newline_append d.newline_not_mem_ended,
    lines_of_newline_not_mem d.newline_not_mem_rest, lines]
  split_ifs <;> simp

/-! ### Carriage returns at the end -/

/-- `line` is what is left of `l` without the carriage returns at its end. -/
structure Stripped (l line : Bytes) : Prop where
  exists_returns : ∃ k, l = line ++ List.replicate k carriageReturn
  last_ne_return : line.getLast? ≠ some carriageReturn

theorem dropReturns_concat_return (l : Bytes) :
    dropReturns (l ++ [carriageReturn]) = dropReturns l := by
  simp [dropReturns]

theorem dropReturns_of_last {l : Bytes} (h : l.getLast? ≠ some carriageReturn) :
    dropReturns l = l := by
  induction l using List.reverseRecOn with
  | nil => rfl
  | append_singleton l b _ =>
      have hb : b ≠ carriageReturn := by simpa using h
      simp [dropReturns, hb]

theorem stripped_dropReturns (l : Bytes) : Stripped l (dropReturns l) := by
  induction l using List.reverseRecOn with
  | nil => exact ⟨⟨0, rfl⟩, by simp [dropReturns]⟩
  | append_singleton l b ih =>
      by_cases hb : b = carriageReturn
      · obtain ⟨k, hk⟩ := ih.exists_returns
        rw [hb, dropReturns_concat_return]
        refine ⟨⟨k + 1, ?_⟩, ih.last_ne_return⟩
        rw [List.replicate_succ', ← List.append_assoc, ← hk]
      · have hlast : (l ++ [b]).getLast? ≠ some carriageReturn := by simpa using hb
        rw [dropReturns_of_last hlast]
        exact ⟨⟨0, by simp⟩, hlast⟩

theorem typedLines_nil : typedLines [] = [] := rfl

/-- Lines that are typed as they are come back from the text they make. -/
theorem typedLines_flatMap_newline_append {ls : List Bytes}
    (h : ∀ l ∈ ls, newline ∉ l ∧ l.getLast? ≠ some carriageReturn) (s : Bytes) :
    typedLines (ls.flatMap (· ++ [newline]) ++ s) = ls ++ typedLines s := by
  have hdrop : ls.map dropReturns = ls :=
    (List.map_congr_left fun l hl => dropReturns_of_last (h l hl).2).trans (List.map_id ls)
  rw [typedLines, lines_flatMap_newline_append fun l hl => (h l hl).1, List.map_append, hdrop]
  rfl

/-! ### Blanks at the end -/

theorem words_concat_blank {k : Glyph} (hk : isBlank k.char = true) (gs : List Glyph) :
    words (gs ++ [k]) = words gs := by
  fun_induction words gs with
  | case1 => rw [List.nil_append, words_cons_of_blank hk, words_nil]
  | case2 g gs hblank ih => rw [List.cons_append, words_cons_of_blank hblank, ih]
  | case3 g gs hblank ih =>
      obtain ⟨htake, hdrop⟩ := Token.takeWhile_append_of_head? (p := (!isBlank ·.char))
        (v := [k]) (by simpa using hk) gs
      rw [List.cons_append, words_cons_of_not_blank (by simpa using hblank), htake, hdrop, ih]

/-- The glyphs of a line are read apart from a byte below `0x80` behind it. -/
theorem glyphs_concat_ascii {b : UInt8} (hb : b.toNat < 0x80) (l : Bytes) :
    glyphs (l ++ [b]) = glyphs l ++ [⟨Char.ofNat b.toNat, [b]⟩] := by
  have hall : glyphs l = glyphs l ++ [] := (List.append_nil _).symm
  have hread := readable_of_glyphs_eq_append hall [b] (breaks_cons (not_isContinuation_of_ascii hb) [])
  rwa [bytes_glyphs, glyphs_cons_ascii hb, glyphs_nil] at hread

theorem squeeze_concat_return (l : Bytes) : squeeze (l ++ [carriageReturn]) = squeeze l := by
  rw [squeeze, glyphs_concat_ascii (by decide), words_concat_blank (by decide)]
  rfl

theorem squeeze_dropReturn (l : Bytes) : squeeze (dropReturn l) = squeeze l := by
  rw [dropReturn]
  split_ifs with h
  · rw [← squeeze_concat_return, List.dropLast_append_getLast? _ h]
  · rfl

theorem squeeze_dropReturns (l : Bytes) : squeeze (dropReturns l) = squeeze l := by
  induction l using List.reverseRecOn with
  | nil => rfl
  | append_singleton l b ih =>
      by_cases hb : b = carriageReturn
      · rw [hb, dropReturns_concat_return, ih, squeeze_concat_return]
      · rw [dropReturns_of_last (by simpa using hb)]

end LineBasic.Text
