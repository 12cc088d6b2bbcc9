import LineBasic.Value

/-!
# Expressions

Constants, variables and binary operators.  Assignment is an operator like the
others, so `x = y = 3` is an expression with a value.  A tree put together by
hand may also hold operators without a meaning (`Op.other`) and nodes of no
known form (`Expr.malformed`); reading never makes either.
-/

namespace LineBasic

inductive Op
  | add
  | sub
  | mul
  | div
  | assign
  | other (symbol : String)
deriving DecidableEq, Repr

namespace Op

def ofSymbol : String → Op
  | "+" => add
  | "-" => sub
  | "*" => mul
  | "/" => div
  | "=" => assign
  | s => other s

def symbol : Op → String
  | add => "+"
  | sub => "-"
  | mul => "*"
  | div => "/"
  | assign => "="
  | other s => s

/-- How tightly the operator binds.  Zero is for symbols that cannot join two
expressions. -/
def precedence : Op → Nat
  | assign => 1
  | add | sub => 2
  | mul | div => 3
  | other _ => 0

theorem symbol_ofSymbol (s : String) : (ofSymbol s).symbol = s := by
  unfold ofSymbol
  split <;> rfl

end Op

inductive Expr
  | const (value : Value)
  | var (name : String)
  | binary (op : Op) (lhs rhs : Expr)
  | malformed (tag : Int)
deriving DecidableEq, Repr

namespace Expr

/-- The written form: each operator with its operands in parentheses. -/
def text : Expr → String
  | const v => v.text
  | var x => x
  | binary op l r => "(" ++ l.text ++ " " ++ op.symbol ++ " " ++ r.text ++ ")"
  | malformed _ => "?"

def isAssignment : Expr → Bool
  | binary .assign _ _ => true
  | _ => false

/-- Minus in front of an expression means taking it from zero. -/
def neg (e : Expr) : Expr :=
  binary .sub (const 0) e

end Expr

end LineBasic
