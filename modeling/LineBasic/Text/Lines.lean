import LineBasic.Text.Bytes

/-!
# Lines

Two ways of cutting bytes into lines.  Typed text loses every carriage return
at the end of a line (`typedLines`).  A program file loses at most one, and
must not have lines of `longestLine` bytes or more (`fileLines`).
-/

namespace LineBasic.Text

/-- The stretches between newlines.  What follows the last newline counts only
if there is something. -/
def lines : Bytes → List Bytes
  | [] => []
  | b :: s =>
    if b = newline then [] :: lines s
    else
      match lines s with
      | [] => [[b]]
      | l :: ls => (b :: l) :: ls

/-- A line without the carriage returns at its end. -/
def dropReturns (l : Bytes) : Bytes :=
  (l.reverse.dropWhile (· == carriageReturn)).reverse

/-- A line without the carriage return at its end, if it has one. -/
def dropReturn (l : Bytes) : Bytes :=
  if l.getLast? = some carriageReturn then l.dropLast else l

def typedLines (s : Bytes) : List Bytes :=
  (lines s).map dropReturns

/-- Lines of a program file are shorter than this. -/
def longestLine : Nat := 65536

/-- The lines of a program file up to the first one that is too long, and
whether there is such a line. -/
def fileLines (s : Bytes) : List Bytes × Bool :=
  let short := (lines s).takeWhile (·.length < longestLine)
  (short.map dropReturn, short.length < (lines s).length)

@[simp]
theorem lines_nil : lines [] = [] := rfl

@[simp]
theorem lines_newline (s : Bytes) : lines (newline :: s) = [] :: lines s := by
  simp [lines]

/-- Text without newlines, ended by one, is one line. -/
theorem lines_append_newline {l : Bytes} (h : newline ∉ l) (s : Bytes) :
    lines (l ++ newline :: s) = l :: lines s := by
  induction l with
  | nil => simp
  | cons b l ih =>
    simp only [List.mem_cons, not_or] at h
    simp [lines, Ne.symm h.1, ih h.2]

end LineBasic.Text
