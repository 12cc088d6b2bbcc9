import LineBasic.Console.Dump
import LineBasic.Console.Statistics
import LineBasic.Fault
import LineBasic.Text.Bytes

/-!
# Switches and printers

Four switches say what is shown besides values, faults and listings.  Two of the
texts are made by printers that are no part of the interpreter: a text in red, and
a statement with its fields laid out.
-/

namespace LineBasic

structure Config where
  color : Bool := false
  stats : Bool := false
  dump : Bool := false
  interactive : Bool := false
deriving DecidableEq, Repr

/-- The switches, with what the statistics say about the time used. -/
structure Display extends Config where
  usage : String := "*"
deriving DecidableEq, Repr

namespace Display

/-- A fault as it is shown.  In colour it stands between the two sequences that
terminals take for red and for plain text. -/
def faultLine (d : Display) (f : Fault) : String :=
  if d.color then "\x1b[31m" ++ f.message ++ "\x1b[0m\n" else f.message ++ "\n"

end Display

structure Printers where
  red : String → String
  dump : Stmt → String

namespace Printers

/-- What is assumed of the printer for red: the text comes between the sequences
that terminals take for red and for plain text. -/
def Escapes (p : Printers) : Prop :=
  ∀ s, p.red s = "\x1b[31m" ++ s ++ "\x1b[0m"

/-- The printers of the tool, as they are known by what they write. -/
def standard : Printers where
  red s := "\x1b[31m" ++ s ++ "\x1b[0m"
  dump := Dump.text

theorem escapes_standard : standard.Escapes := fun _ => rfl

end Printers

end LineBasic
