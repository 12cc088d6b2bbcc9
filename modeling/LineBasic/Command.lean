import LineBasic.Fault
import LineBasic.Token

/-!
# Commands

Words that act on the stored program as soon as they are typed.  A command
stands alone on its line.
-/

namespace LineBasic

inductive Command
  | run
  | list
  | clear
  | quit
  | help
  | unknown (code : Int)
deriving DecidableEq, Repr

namespace Command

def ofWord? : String → Option Command
  | "RUN" => some run
  | "LIST" => some list
  | "CLEAR" => some clear
  | "QUIT" => some quit
  | "HELP" => some help
  | _ => none

/-- Looks for a command at the front of the tokens, and gives the tokens left.
`none` means that there is none, and then nothing is taken. -/
def read : List Token → Option (Except Fault Command) × List Token
  | ⟨.word, w⟩ :: ts =>
    match ofWord? w with
    | some c => (some (if ts.isEmpty then .ok c else .error .syntaxError), ts)
    | none => (none, ⟨.word, w⟩ :: ts)
  | ts => (none, ts)

end Command

end LineBasic
