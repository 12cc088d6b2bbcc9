/-!
# Faults

What can go wrong while lines are read, stored and run.  A fault is a cause; its
wording is `Fault.message`.
-/

namespace LineBasic

inductive Fault
  | syntaxError
  | undefined
  | divideByZero
  | lineNumber
  | invalidNumber
  | interrupted
deriving DecidableEq, Repr

namespace Fault

def message : Fault → String
  | syntaxError => "SYNTAX ERROR"
  | undefined => "VARIABLE NOT DEFINED"
  | divideByZero => "DIVIDE BY ZERO"
  | lineNumber => "LINE NUMBER ERROR"
  | invalidNumber => "INVALID NUMBER"
  | interrupted => "INTERRUPTED"

end Fault

end LineBasic
