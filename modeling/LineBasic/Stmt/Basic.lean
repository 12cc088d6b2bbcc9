import LineBasic.Expr.Basic

/-!
# Statements

The seven statements, and `malformed` for a statement of no known form, which
can only be put into a program by hand.
-/

namespace LineBasic

inductive Comparison
  | less
  | greater
  | equal
  | other (symbol : String)
deriving DecidableEq, Repr

namespace Comparison

def ofSymbol : String → Comparison
  | "<" => less
  | ">" => greater
  | "=" => equal
  | s => other s

def symbol : Comparison → String
  | less => "<"
  | greater => ">"
  | equal => "="
  | other s => s

/-- Whether the comparison holds.  An unknown symbol compares nothing. -/
def holds? : Comparison → Value → Value → Option Bool
  | less, a, b => some (a < b)
  | greater, a, b => some (b < a)
  | equal, a, b => some (a = b)
  | other _, _, _ => none

theorem symbol_ofSymbol (s : String) : (ofSymbol s).symbol = s := by
  unfold ofSymbol
  split <;> rfl

end Comparison

inductive Stmt
  | remark
  | assign (e : Expr)
  | print (e : Expr)
  | input (name : String)
  | stop
  | jump (target : LineNumber)
  | branch (lhs : Expr) (cmp : Comparison) (rhs : Expr) (target : LineNumber)
  | malformed (tag : Int)
deriving DecidableEq, Repr

end LineBasic
