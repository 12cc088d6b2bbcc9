import LineBasic.Decimal
import LineBasic.Fault
import LineBasic.Text.Blank

/-!
# Values and line numbers

A value is a signed 32-bit integer, and arithmetic on values wraps around.  A
line number is a positive integer below `2 ^ 63`.
-/

namespace LineBasic

abbrev Value := Int32

namespace Value

def InRange (n : Int) : Prop :=
  -2147483648 ≤ n ∧ n ≤ 2147483647

instance (n : Int) : Decidable (InRange n) :=
  inferInstanceAs (Decidable (_ ∧ _))

/-- The value equal to `n`, when there is one. -/
def ofInt? (n : Int) : Option Value :=
  if InRange n then some (Int32.ofInt n) else none

/-- Reads a numeral that has to fit. -/
def ofNumeral? (cs : List Char) : Option Value :=
  (Decimal.parse? cs).bind ofInt?

/-- Reads a line that holds one numeral, with blanks around it or not. -/
def ofLine (s : Bytes) : Except Fault Value :=
  match ofNumeral? (Text.trim (Text.decode s)) with
  | some v => .ok v
  | none => .error .invalidNumber

def text (v : Value) : String :=
  Decimal.text v.toInt

end Value

abbrev LineNumber := Int

namespace LineNumber

def InRange (n : Int) : Prop :=
  1 ≤ n ∧ n ≤ 9223372036854775807

instance (n : Int) : Decidable (InRange n) :=
  inferInstanceAs (Decidable (_ ∧ _))

def ofNumeral (s : String) : Except Fault LineNumber :=
  match Decimal.parse? s.toList with
  | some n => if InRange n then .ok n else .error .lineNumber
  | none => .error .lineNumber

/-- The order of two numbers by its sign, as it is told to a tree of lines. -/
def compare (n k : LineNumber) : Int :=
  if n < k then -1 else if k < n then 1 else 0

/-- What is said of a number that was to be free and is not. -/
def takenMessage (n : LineNumber) : String :=
  "line " ++ Decimal.text n ++ " already in tree???"

end LineNumber

end LineBasic
