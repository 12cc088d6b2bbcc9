import LineBasic.Expr.Parser
import LineBasic.Stmt.Basic

/-!
# Reading statements

A statement begins with its word in capitals and takes the whole rest of the
line.  In a condition the comparison is the operator at which reading at
precedence one stops, so `=` compares there unless it stands in parentheses.
-/

namespace LineBasic.Stmt

/-- A jump goes to a number that ends the line.  Anything else is a syntax
error, and only then does the number have to be a line number. -/
def parseTarget : List Token → Except Fault LineNumber
  | [⟨.number, s⟩] => LineNumber.ofNumeral s
  | _ => .error .syntaxError

def parseThen (lhs : Expr) (cmp : Comparison) (ts : List Token) : Except Fault Stmt :=
  match Expr.read 1 ts with
  | (.ok rhs, ⟨.word, "THEN"⟩ :: ts) => (parseTarget ts).map (branch lhs cmp rhs)
  | (.ok _, _) => .error .syntaxError
  | (.error f, _) => .error f

def parseIf (ts : List Token) : Except Fault Stmt :=
  match Expr.read 1 ts with
  | (.ok lhs, ⟨.operator, s⟩ :: ts) => parseThen lhs (.ofSymbol s) ts
  | (.ok _, _) => .error .syntaxError
  | (.error f, _) => .error f

def parse : List Token → Except Fault Stmt
  | ⟨.word, "REM"⟩ :: _ => .ok remark
  | ⟨.word, "LET"⟩ :: ts => (Expr.parse ts).map assign
  | ⟨.word, "PRINT"⟩ :: ts => (Expr.parse ts).map print
  | [⟨.word, "INPUT"⟩, ⟨.word, x⟩] => .ok (input x)
  | [⟨.word, "END"⟩] => .ok stop
  | ⟨.word, "GOTO"⟩ :: ts => (parseTarget ts).map jump
  | ⟨.word, "IF"⟩ :: ts => parseIf ts
  | _ => .error .syntaxError

end LineBasic.Stmt
