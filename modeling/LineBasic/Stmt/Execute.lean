import LineBasic.Console.Event
import LineBasic.Console.Input
import LineBasic.Expr.Eval

/-!
# Executing statements

Executing a statement changes variables, takes answers from the source, tells
events and says where to go on.  A fault does not stop a program; only the end
of the answers does.
-/

namespace LineBasic

/-- Where to go on. -/
inductive Action
  | next
  | jump (target : LineNumber)
  | halt
deriving DecidableEq, Repr

structure Execution where
  action : Action
  env : Env
  answers : Source
  events : List Event
deriving DecidableEq, Repr

/-- What asking for a number comes to: the number, if one was given, the answers
left, and what was said. -/
structure Inquiry where
  value : Option Value
  answers : Source
  events : List Event
deriving DecidableEq, Repr

namespace Inquiry

/-- One prompt and what followed it, before the rest of the inquiry. -/
def after (events : List Event) (q : Inquiry) : Inquiry :=
  { q with events := .inputPrompt :: events ++ q.events }

end Inquiry

/-- Asks until a line is a number or there is no line. -/
def Source.inquire : Source → Inquiry
  | [] => ⟨none, [], [.inputPrompt]⟩
  | .line s :: src =>
    match Value.ofLine s with
    | .ok v => ⟨some v, src, [.inputPrompt]⟩
    | .error f => (inquire src).after [.fault f]
  | .interrupted :: src => ⟨none, src, [.inputPrompt, .fault .interrupted]⟩
  | .endOfInput :: src => ⟨none, src, [.inputPrompt]⟩
  | .failed _ :: src => ⟨none, src, [.inputPrompt]⟩

namespace Stmt

def executeInput (name : String) (env : Env) (answers : Source) : Execution :=
  let q := answers.inquire
  match q.value with
  | none => ⟨.halt, env, q.answers, q.events⟩
  | some v =>
    match env.bind? name v with
    | some env => ⟨.next, env, q.answers, q.events⟩
    | none => ⟨.next, env, q.answers, q.events ++ [.fault .syntaxError]⟩

/-- A branch whose comparison means nothing goes on with the next line. -/
def branchAction (cmp : Comparison) (a b : Value) (target : LineNumber) : Action × List Event :=
  match cmp.holds? a b with
  | some true => (.jump target, [])
  | some false => (.next, [])
  | none => (.next, [.fault .syntaxError])

def execute (s : Stmt) (env : Env) (answers : Source) : Execution :=
  match s with
  | remark => ⟨.next, env, answers, []⟩
  | stop => ⟨.next, env, answers, []⟩
  | assign e =>
    let r := e.eval env
    let objection := if e.isAssignment then [] else [.fault .syntaxError]
    ⟨.next, r.env, answers, objection ++ r.faults.map .fault⟩
  | print e =>
    let r := e.eval env
    let shown := if r.ok then [.value r.value] else []
    ⟨.next, r.env, answers, r.faults.map .fault ++ shown⟩
  | input x => executeInput x env answers
  | jump t => ⟨.jump t, env, answers, []⟩
  | branch l cmp r t =>
    let a := l.eval env
    let b := r.eval a.env
    let (action, objection) := branchAction cmp a.value b.value t
    ⟨action, b.env, answers, (a.faults ++ b.faults).map .fault ++ objection⟩
  | malformed _ => ⟨.next, env, answers, [.fault .syntaxError]⟩

end Stmt

end LineBasic
