import LineBasic.Stmt.Basic

/-!
# Dumps

The fields of a statement, one on each line, as shown when a line is entered
while dumping is on.  A statement has all the fields; those it does not use are
empty.

The layout is not the interpreter's own.  It hands the statement to a printer for
data of any kind (`Printers.dump`), and what is written down here is how such a
printer lays out this one record: its colours, its alignment, its marks for what is
absent.  No theorem about the interpreter depends on it.
-/

namespace LineBasic.Dump

def gray (s : String) : String := "\x1b[90m" ++ s ++ "\x1b[0m"

def yellow (s : String) : String := "\x1b[33m" ++ s ++ "\x1b[0m"

def blue (s : String) : String := "\x1b[38;5;38m" ++ s ++ "\x1b[0m"

def green (s : String) : String := "\x1b[38;5;113m" ++ s ++ "\x1b[0m"

/-- Text in which the escape character is spelled out. -/
def spelled (s : String) : String :=
  String.ofList (s.toList.flatMap fun c => if c = '\x1b' then ['\\', 'x', '1', 'b'] else [c])

def number (n : Int) : String :=
  blue (Decimal.text n)

def quoted (s : String) : String :=
  yellow "\"" ++ green (spelled s) ++ yellow "\""

def expr : Option Expr → String
  | some e => green e.text ++ gray " #*basic.Expression"
  | none => gray "*basic.Expression(nil)"

/-- A statement spread over all the fields that statements have. -/
structure Fields where
  kind : Int
  exp : Option Expr := none
  lhs : Option Expr := none
  rhs : Option Expr := none
  cmp : String := ""
  name : String := ""
  target : Int := 0

def Fields.ofStmt : Stmt → Fields
  | .remark => { kind := 0 }
  | .assign e => { kind := 1, exp := some e }
  | .print e => { kind := 2, exp := some e }
  | .input x => { kind := 3, name := x }
  | .stop => { kind := 4 }
  | .jump t => { kind := 5, target := t }
  | .branch l c r t => { kind := 6, lhs := some l, rhs := some r, cmp := c.symbol, target := t }
  | .malformed tag => { kind := tag }

def field (name content : String) : String :=
  "  " ++ yellow "-" ++ name ++ " => " ++ content ++ "\n"

/-- A statement as the data printer of the tool lays it out. -/
def text (s : Stmt) : String :=
  let f := Fields.ofStmt s
  "<#dump>\n" ++ gray "#basic.Statement" ++ " \n" ++
    field "stmtType" (number f.kind) ++ field "exp     " (expr f.exp) ++
    field "lhs     " (expr f.lhs) ++ field "rhs     " (expr f.rhs) ++
    field "cmp     " (quoted f.cmp) ++ field "variable" (quoted f.name) ++
    field "target  " (number f.target) ++ "\x7d\n"

end LineBasic.Dump
