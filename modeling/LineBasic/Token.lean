import LineBasic.Text.Blank
import LineBasic.Text.Letter

/-!
# Tokens

A line is a sequence of words, numbers and operators with blanks anywhere
between them.  A word is a letter followed by letters, ASCII digits and
underscores; a number is a stretch of ASCII digits; every other character that
is not a blank is an operator by itself.
-/

namespace LineBasic

namespace Token

inductive Kind
  | word
  | number
  | operator
deriving DecidableEq, Repr

end Token

structure Token where
  kind : Token.Kind
  text : String
deriving DecidableEq, Repr

namespace Token

def isWordChar (c : Char) : Bool :=
  Text.isLetter c || c.isDigit || c == '_'

/-- The characters of the token that starts with `c`, besides `c` itself. -/
def tailClass (c : Char) : Char → Bool :=
  if Text.isLetter c then isWordChar
  else if c.isDigit then Char.isDigit
  else fun _ => false

def kindOf (c : Char) : Kind :=
  if Text.isLetter c then .word
  else if c.isDigit then .number
  else .operator

/-- The tokens of a line, each as long as possible. -/
def scan : List Char → List Token
  | [] => []
  | c :: cs =>
    if Text.isBlank c then scan cs
    else
      ⟨kindOf c, String.ofList (c :: cs.takeWhile (tailClass c))⟩ ::
        scan (cs.dropWhile (tailClass c))
termination_by cs => cs.length
decreasing_by
  · simp
  · have := (List.dropWhile_sublist (l := cs) (tailClass c)).length_le
    simp only [List.length_cons]
    omega

def ofLine (s : Bytes) : List Token :=
  scan (Text.decode s)

@[simp]
theorem scan_nil : scan [] = [] := by
  rw [scan]

theorem scan_cons_of_blank {c : Char} (h : Text.isBlank c = true) (cs : List Char) :
    scan (c :: cs) = scan cs := by
  rw [scan, if_pos h]

theorem scan_cons_of_not_blank {c : Char} (h : Text.isBlank c = false) (cs : List Char) :
    scan (c :: cs) =
      ⟨kindOf c, String.ofList (c :: cs.takeWhile (tailClass c))⟩ ::
        scan (cs.dropWhile (tailClass c)) := by
  rw [scan, if_neg (by simp [h])]

end Token

/-- A line with the tokens of it that are still to be read. -/
structure TokenQueue where
  line : Bytes
  pending : List Token
deriving DecidableEq, Repr

namespace TokenQueue

def ofLine (s : Bytes) : TokenQueue :=
  ⟨s, Token.ofLine s⟩

def peek? (q : TokenQueue) : Option Token :=
  q.pending.head?

/-- The front token and the queue behind it. -/
def pop (q : TokenQueue) : Option Token × TokenQueue :=
  (q.peek?, { q with pending := q.pending.tail })

/-- Puts what was taken back in front; the end of the line leaves nothing. -/
def putBack (q : TokenQueue) (t : Option Token) : TokenQueue :=
  { q with pending := t.toList ++ q.pending }

def isEmpty (q : TokenQueue) : Bool :=
  q.pending.isEmpty

end TokenQueue

end LineBasic
