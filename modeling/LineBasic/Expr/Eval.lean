import LineBasic.Env
import LineBasic.Expr.Basic

/-!
# Evaluating expressions

Evaluation always yields a value.  What went wrong on the way is listed as
faults, and `ok` says whether the value can be relied on.  Both operands of an
arithmetic operator are evaluated, the left one first, also when one of them
fails; an assignment succeeds whether or not its right side did.
-/

namespace LineBasic

namespace Op

/-- The arithmetic operators, on values that wrap around.  Division goes toward
zero. -/
def apply : Op → Value → Value → Except Fault Value
  | add, a, b => .ok (a + b)
  | sub, a, b => .ok (a - b)
  | mul, a, b => .ok (a * b)
  | div, a, b => if b = 0 then .error .divideByZero else .ok (a / b)
  | assign, _, _ => .error .syntaxError
  | other _, _, _ => .error .syntaxError

end Op

structure Evaluation where
  value : Value
  ok : Bool
  env : Env
  faults : List Fault
deriving DecidableEq, Repr

namespace Evaluation

def success (v : Value) (env : Env) : Evaluation :=
  ⟨v, true, env, []⟩

def failure (f : Fault) (env : Env) : Evaluation :=
  ⟨0, false, env, [f]⟩

/-- Gives the value to a variable. -/
def assignTo (r : Evaluation) (name : String) : Evaluation :=
  match r.env.bind? name r.value with
  | some env => ⟨r.value, true, env, r.faults⟩
  | none => ⟨0, false, r.env, r.faults ++ [.syntaxError]⟩

/-- Joins the evaluations of two operands, `b` having started from where `a`
ended. -/
def combine (op : Op) (a b : Evaluation) : Evaluation :=
  match op.apply a.value b.value with
  | .ok v => ⟨v, a.ok && b.ok, b.env, a.faults ++ b.faults⟩
  | .error f => ⟨0, false, b.env, a.faults ++ b.faults ++ [f]⟩

end Evaluation

namespace Expr

def eval : Expr → Env → Evaluation
  | const v, env => .success v env
  | var x, env =>
    match env.get? x with
    | some v => .success v env
    | none => .failure .undefined env
  | binary .assign (var x) r, env => (r.eval env).assignTo x
  | binary .assign _ _, env => .failure .syntaxError env
  | binary op l r, env =>
    let a := l.eval env
    .combine op a (r.eval a.env)
  | malformed _, env => .failure .syntaxError env

end Expr

end LineBasic
