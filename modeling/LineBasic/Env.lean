import LineBasic.Table
import LineBasic.Value

/-!
# Variables

An environment gives values to names.  The words that begin statements and
commands, and `THEN`, are reserved and cannot be given a value.
-/

namespace LineBasic

def reservedWords : List String :=
  ["REM", "LET", "PRINT", "INPUT", "END", "GOTO", "IF", "THEN",
   "RUN", "LIST", "CLEAR", "QUIT", "HELP"]

def isReserved (name : String) : Bool :=
  reservedWords.contains name

structure Env where
  vars : Table String Value
deriving DecidableEq, Repr

namespace Env

def empty : Env := ⟨.empty⟩

def get? (env : Env) (name : String) : Option Value :=
  env.vars.get? name

/-- Gives `name` the value `v`, unless the word is reserved. -/
def bind? (env : Env) (name : String) (v : Value) : Option Env :=
  if isReserved name then none else some ⟨env.vars.set name v⟩

/-- The names with their values, in ascending order of the names. -/
def toList (env : Env) : List (String × Value) :=
  env.vars.entries

theorem bind?_of_reserved {name : String} (h : isReserved name = true) (env : Env) (v : Value) :
    env.bind? name v = none := by
  simp [bind?, h]

theorem bind?_of_not_reserved {name : String} (h : isReserved name = false) (env : Env)
    (v : Value) : env.bind? name v = some ⟨env.vars.set name v⟩ := by
  simp [bind?, h]

end Env

end LineBasic
