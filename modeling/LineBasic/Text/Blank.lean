import LineBasic.Text.CharClass
import LineBasic.Text.Glyph

/-!
# White space

The blanks are the characters with the Unicode property `White_Space`.  A byte
outside every UTF-8 sequence is read as the replacement character, which is not
one of them.

`words` cuts a line at its blanks and `squeeze` puts the words together again,
one space between each two.
-/

namespace LineBasic.Text

def blankRanges : List CodeRange :=
  [⟨0x0009, 0x000D⟩, ⟨0x0020, 0x0020⟩, ⟨0x0085, 0x0085⟩, ⟨0x00A0, 0x00A0⟩, ⟨0x1680, 0x1680⟩,
   ⟨0x2000, 0x200A⟩, ⟨0x2028, 0x2029⟩, ⟨0x202F, 0x202F⟩, ⟨0x205F, 0x205F⟩, ⟨0x3000, 0x3000⟩]

def isBlank (c : Char) : Bool :=
  blankRanges.any (·.has c.toNat)

theorem isBlank_space : isBlank ' ' = true := by decide

/-- The maximal stretches of characters that are not blanks. -/
def words : List Glyph → List (List Glyph)
  | [] => []
  | g :: gs =>
    if isBlank g.char then words gs
    else
      (g :: gs.takeWhile (!isBlank ·.char)) :: words (gs.dropWhile (!isBlank ·.char))
termination_by gs => gs.length
decreasing_by
  · simp
  · have := (List.dropWhile_sublist (l := gs) (!isBlank ·.char)).length_le
    simp only [List.length_cons]
    omega

/-- The words of a line, with their own bytes, one space between each two. -/
def squeeze (s : Bytes) : Bytes :=
  [blank].intercalate ((words (glyphs s)).map (·.flatMap Glyph.bytes))

/-- The characters of a line without the blanks at either end. -/
def trim (cs : List Char) : List Char :=
  ((cs.dropWhile isBlank).reverse.dropWhile isBlank).reverse

@[simp]
theorem words_nil : words [] = [] := by
  rw [words]

theorem words_cons_of_blank {g : Glyph} (h : isBlank g.char = true) (gs : List Glyph) :
    words (g :: gs) = words gs := by
  rw [words, if_pos h]

theorem words_cons_of_not_blank {g : Glyph} (h : isBlank g.char = false) (gs : List Glyph) :
    words (g :: gs) =
      (g :: gs.takeWhile (!isBlank ·.char)) :: words (gs.dropWhile (!isBlank ·.char)) := by
  rw [words, if_neg (by simp [h])]

end LineBasic.Text
