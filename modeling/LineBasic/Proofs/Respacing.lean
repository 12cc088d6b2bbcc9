import LineBasic.Proofs.Session.Request
import LineBasic.Proofs.Session.Run

/-!
# Blanks do not matter

A squeezed line has no blanks but single spaces between its words
(`Text.tidy_squeeze`).  It asks for the same as the line it comes from, down to
the source that is stored (`Request.ofLine_squeeze`), so no session tells the
two apart.
-/

namespace LineBasic

namespace Text

/-- Every blank is a space, with a glyph on either side that is no blank. -/
def Tidy (gs : List Glyph) : Prop :=
  ∀ u g v, gs = u ++ g :: v → isBlank g.char = true →
    g = blankGlyph ∧ (∃ a, u.getLast? = some a ∧ isBlank a.char = false) ∧
      ∃ b, v.head? = some b ∧ isBlank b.char = false

section Words

variable {w : List Glyph} {ws : List (List Glyph)}

theorem exists_head?_intercalate (hne : w ≠ []) (hw : ∀ g ∈ w, isBlank g.char = false)
    (ws : List (List Glyph)) :
    ∃ b, ([blankGlyph].intercalate (w :: ws)).head? = some b ∧ isBlank b.char = false := by
  obtain ⟨b, w, rfl⟩ := List.exists_cons_of_ne_nil hne
  refine ⟨b, ?_, hw b (by simp)⟩
  cases ws with
  | nil => simp
  | cons w' ws => simp [List.intercalate_cons_cons]

/-- Words with a space between each two are tidy. -/
theorem tidy_intercalate (h : ∀ w ∈ ws, w ≠ [] ∧ ∀ g ∈ w, isBlank g.char = false) :
    Tidy ([blankGlyph].intercalate ws) := by
  induction ws with
  | nil =>
      intro u g v hsplit
      simp at hsplit
  | cons w ws ih =>
      obtain ⟨⟨hne, hw⟩, hws⟩ := List.forall_mem_cons.1 h
      have hclear {g : Glyph} (hg : isBlank g.char = true) : g ∉ w := by
        intro hmem
        simp [hw g hmem] at hg
      intro u g v hsplit hg
      cases ws with
      | nil =>
          rw [List.intercalate_singleton] at hsplit
          exact absurd (by simp [hsplit]) (hclear hg)
      | cons w' ws =>
          have hlast : ∃ a, w.getLast? = some a ∧ isBlank a.char = false :=
            ⟨w.getLast hne, List.getLast?_eq_some_getLast hne, hw _ (List.getLast_mem hne)⟩
          obtain ⟨hne', hw'⟩ := hws w' (by simp)
          have hhead := exists_head?_intercalate hne' hw' ws
          rw [List.intercalate_cons_cons, List.append_assoc, List.singleton_append,
            List.append_eq_append_iff] at hsplit
          -- the blank is the space behind the first word, or it comes after that
          rcases hsplit with ⟨a, rfl, ha⟩ | ⟨c, rfl, hc⟩
          · cases a with
            | nil =>
                obtain ⟨rfl, rfl⟩ := List.cons.inj ha
                exact ⟨rfl, by simpa using hlast, hhead⟩
            | cons k a =>
                obtain ⟨-, ha⟩ := List.cons.inj ha
                obtain ⟨hspace, ⟨b, hb, hclearb⟩, hnext⟩ := ih hws a g v ha hg
                refine ⟨hspace, ⟨b, ?_, hclearb⟩, hnext⟩
                simp [List.getLast?_cons, hb]
          · cases c with
            | nil =>
                obtain ⟨rfl, rfl⟩ := List.cons.inj hc
                exact ⟨rfl, by simpa using hlast, hhead⟩
            | cons k c =>
                obtain ⟨rfl, -⟩ := List.cons.inj hc
                exact absurd (by simp) (hclear hg)

end Words

theorem tidy_squeeze (s : Bytes) : Tidy (glyphs (squeeze s)) := by
  rw [glyphs_squeeze]
  apply tidy_intercalate
  intro w hw
  exact ⟨(mem_words hw).1, (mem_words hw).2.1⟩

end Text

/-- A squeezed line asks for what the line asks for. -/
theorem Request.ofLine_squeeze (text : Bytes) : ofLine (Text.squeeze text) = ofLine text := by
  have hnumbered : ofNumbered (Text.squeeze text) = ofNumbered text := by
    funext numeral tail
    rw [ofNumbered, ofNumbered, Text.squeeze_squeeze]
  rw [ofLine, ofLine, Token.ofLine_squeeze, hnumbered]

namespace Session

theorem submit_squeeze (s : Session) (text : Bytes) :
    s.submit (Text.squeeze text) = s.submit text := by
  rw [submit_eq_answer, submit_eq_answer, Request.ofLine_squeeze]

/-- Squeezing a line is done after one time, keeps its tokens, and leaves single
spaces between words for its only blanks.  In any session the squeezed line does
what the line does, at once and through all the passes of a run that it
begins. -/
theorem squeezing_is_invisible (text : Bytes) :
    Text.squeeze (Text.squeeze text) = Text.squeeze text ∧
      Token.ofLine (Text.squeeze text) = Token.ofLine text ∧
      Text.Tidy (Text.glyphs (Text.squeeze text)) ∧
      ∀ (s : Session) (n : Nat),
        (s.submit (Text.squeeze text)).after n = (s.submit text).after n := by
  refine ⟨Text.squeeze_squeeze text, Token.ofLine_squeeze text, Text.tidy_squeeze text, ?_⟩
  intro s n
  rw [submit_squeeze]

end Session

end LineBasic
