import LineBasic.Text.Bytes

/-!
# Glyphs

A glyph is a character of a line together with the bytes it was read from.
Bytes that form no UTF-8 sequence are read one at a time, each as the
replacement character.  So reading never fails, never skips a byte, and the
bytes of the glyphs put together are the line again (`bytes_glyphs`).
-/

namespace LineBasic

structure Glyph where
  char : Char
  bytes : Bytes
deriving DecidableEq, Repr

namespace Text

/-- Stands for a byte that belongs to no well-formed sequence. -/
def replacement : Char := '�'

def isContinuation (b : UInt8) : Bool :=
  0x80 ≤ b && b ≤ 0xBF

/-- The six bits a continuation byte adds to a code point. -/
def payload (b : UInt8) : Nat :=
  b.toNat % 64

def glyphOf? (n : Nat) (bytes : Bytes) : Option Glyph :=
  if n.isValidChar then some ⟨Char.ofNat n, bytes⟩ else none

def oneByte? (a : UInt8) : Option Glyph :=
  if a < 0x80 then glyphOf? a.toNat [a] else none

def twoBytes? (a : UInt8) : Bytes → Option Glyph
  | b :: _ =>
    if 0xC2 ≤ a && a ≤ 0xDF && isContinuation b then
      glyphOf? (a.toNat % 32 * 64 + payload b) [a, b]
    else none
  | _ => none

/-- Forms that would fit into two bytes are refused, as are surrogates. -/
def threeBytes? (a : UInt8) : Bytes → Option Glyph
  | b :: c :: _ =>
    let n := a.toNat % 16 * 4096 + payload b * 64 + payload c
    if 0xE0 ≤ a && a ≤ 0xEF && isContinuation b && isContinuation c && 0x800 ≤ n then
      glyphOf? n [a, b, c]
    else none
  | _ => none

/-- Forms that would fit into three bytes are refused, as are code points
above `0x10FFFF`. -/
def fourBytes? (a : UInt8) : Bytes → Option Glyph
  | b :: c :: d :: _ =>
    let n := a.toNat % 8 * 262144 + payload b * 4096 + payload c * 64 + payload d
    if 0xF0 ≤ a && a ≤ 0xF7 && isContinuation b && isContinuation c && isContinuation d &&
        0x10000 ≤ n then
      glyphOf? n [a, b, c, d]
    else none
  | _ => none

/-- The glyph at the front of `a :: s`. -/
def firstGlyph (a : UInt8) (s : Bytes) : Glyph :=
  ((oneByte? a).or ((twoBytes? a s).or ((threeBytes? a s).or (fourBytes? a s)))).getD
    ⟨replacement, [a]⟩

def glyphs : Bytes → List Glyph
  | [] => []
  | a :: s =>
    let g := firstGlyph a s
    g :: glyphs (s.drop (g.bytes.length - 1))
termination_by s => s.length
decreasing_by
  simp only [List.length_cons, List.length_drop]
  omega

/-- The characters of a line. -/
def decode (s : Bytes) : List Char :=
  (glyphs s).map Glyph.char

@[simp]
theorem glyphs_nil : glyphs [] = [] := by
  rw [glyphs]

theorem glyphs_cons (a : UInt8) (s : Bytes) :
    glyphs (a :: s) =
      firstGlyph a s :: glyphs (s.drop ((firstGlyph a s).bytes.length - 1)) := by
  rw [glyphs]

theorem bytes_of_glyphOf? {n : Nat} {bs : Bytes} {g : Glyph} (h : glyphOf? n bs = some g) :
    g.bytes = bs := by
  unfold glyphOf? at h
  split at h
  · cases h
    rfl
  · cases h

theorem oneByte?_bytes {a : UInt8} {g : Glyph} (h : oneByte? a = some g) : g.bytes = [a] := by
  unfold oneByte? at h
  split at h
  · exact bytes_of_glyphOf? h
  · cases h

theorem twoBytes?_bytes {a : UInt8} {s : Bytes} {g : Glyph} (h : twoBytes? a s = some g) :
    ∃ b t, s = b :: t ∧ g.bytes = [a, b] := by
  unfold twoBytes? at h
  split at h
  · split at h
    · exact ⟨_, _, rfl, bytes_of_glyphOf? h⟩
    · cases h
  · cases h

theorem threeBytes?_bytes {a : UInt8} {s : Bytes} {g : Glyph} (h : threeBytes? a s = some g) :
    ∃ b c t, s = b :: c :: t ∧ g.bytes = [a, b, c] := by
  unfold threeBytes? at h
  split at h
  · dsimp only at h
    split at h
    · exact ⟨_, _, _, rfl, bytes_of_glyphOf? h⟩
    · cases h
  · cases h

theorem fourBytes?_bytes {a : UInt8} {s : Bytes} {g : Glyph} (h : fourBytes? a s = some g) :
    ∃ b c d t, s = b :: c :: d :: t ∧ g.bytes = [a, b, c, d] := by
  unfold fourBytes? at h
  split at h
  · dsimp only at h
    split at h
    · exact ⟨_, _, _, _, rfl, bytes_of_glyphOf? h⟩
    · cases h
  · cases h

/-- The front glyph takes the first byte and a stretch of the bytes after it. -/
theorem firstGlyph_bytes (a : UInt8) (s : Bytes) :
    (firstGlyph a s).bytes ++ s.drop ((firstGlyph a s).bytes.length - 1) = a :: s := by
  unfold firstGlyph
  cases h : (oneByte? a).or ((twoBytes? a s).or ((threeBytes? a s).or (fourBytes? a s))) with
  | none => simp
  | some g =>
    simp only [Option.or_eq_some_iff] at h
    rcases h with h | ⟨_, h | ⟨_, h | ⟨_, h⟩⟩⟩
    · simp [oneByte?_bytes h]
    · obtain ⟨b, t, rfl, hg⟩ := twoBytes?_bytes h
      simp [hg]
    · obtain ⟨b, c, t, rfl, hg⟩ := threeBytes?_bytes h
      simp [hg]
    · obtain ⟨b, c, d, t, rfl, hg⟩ := fourBytes?_bytes h
      simp [hg]

/-- Reading a line as glyphs loses no byte. -/
theorem bytes_glyphs (s : Bytes) : (glyphs s).flatMap Glyph.bytes = s := by
  fun_induction glyphs s with
  | case1 => rfl
  | case2 a s g ih => rw [List.flatMap_cons, ih, firstGlyph_bytes]

end Text

end LineBasic
