import LineBasic.Console.Display
import LineBasic.Console.Input
import LineBasic.Stmt.Execute

/-!
# The console

All output goes to the console and all input comes from it.  What is to be said
is written at once, in the middle of an evaluation too, so the console is handed
on together with the variables.

A fault is written in red or not, as the console was told when it was made.
-/

namespace LineBasic

/-- `crash` is the first message about an error that no user can make. -/
structure Console where
  printers : Printers
  color : Bool
  input : Input
  out : Bytes := []
  crash : Option String := none

namespace Console

def write (c : Console) (s : Bytes) : Console :=
  { c with out := c.out ++ s }

def say (c : Console) (s : String) : Console :=
  c.write (Text.ofString s)

/-- Writes a message on a line by itself. -/
def report (c : Console) (f : Fault) : Console :=
  c.say ((if c.color then c.printers.red f.message else f.message) ++ "\n")

def fatal (c : Console) (message : String) : Console :=
  { c with crash := c.crash.or (some message) }

def readCommand (c : Console) (prompt : String) : Reply × Console :=
  let c := c.say prompt
  let r := c.input.commands.next
  (r.1, { c with input := c.input.setCommands r.2 })

def readAnswer (c : Console) : Reply × Console :=
  let c := c.say " ? "
  let r := c.input.answers.next
  (r.1, { c with input := c.input.setAnswers r.2 })

end Console

/-- The variables, and the console to which their users speak. -/
structure Workspace where
  env : Env := .empty
  console : Console

namespace Workspace

def report (w : Workspace) (f : Fault) : Workspace :=
  { w with console := w.console.report f }

/-- Gives a variable a value, and says whether the name allowed it. -/
def setValue (w : Workspace) (name : String) (v : Value) : Bool × Workspace :=
  match w.env.bind? name v with
  | some env => (true, { w with env })
  | none => (false, w.report .syntaxError)

def readAnswer (w : Workspace) : Reply × Workspace :=
  let r := w.console.readAnswer
  (r.1, { w with console := r.2 })

end Workspace

/-! ### Expressions -/

/-- The value of an expression, and whether it can be relied on.  Every fault is
reported where it is met. -/
def Expr.compute : Expr → Workspace → (Value × Bool) × Workspace
  | const v, w => ((v, true), w)
  | var x, w =>
    match w.env.get? x with
    | some v => ((v, true), w)
    | none => ((0, false), w.report .undefined)
  | binary .assign (var x) r, w =>
    let a := r.compute w
    match a.2.setValue x a.1.1 with
    | (true, w) => ((a.1.1, true), w)
    | (false, w) => ((0, false), w)
  | binary .assign _ _, w => ((0, false), w.report .syntaxError)
  | binary op l r, w =>
    let a := l.compute w
    let b := r.compute a.2
    match op.apply a.1.1 b.1.1 with
    | .ok v => ((v, a.1.2 && b.1.2), b.2)
    | .error f => ((0, false), b.2.report f)
  | malformed _, w => ((0, false), w.report .syntaxError)

/-! ### Statements -/

/-- Asks until a line is a number or there is no line.  The answers are those of
the console, and only counted here. -/
def Workspace.inquire (name : String) : Source → Workspace → Action × Workspace
  | [], w => (.halt, w.readAnswer.2)
  | _ :: rest, w =>
    match w.readAnswer with
    | (.line s, w) =>
      match Value.ofLine s with
      | .ok v => (.next, (w.setValue name v).2)
      | .error f => inquire name rest (w.report f)
    | (.interrupted, w) => (.halt, w.report .interrupted)
    | (.endOfInput, w) => (.halt, w)
    | (.failed _, w) => (.halt, w)

namespace Stmt

/-- What is not an assignment is objected to, and computed nevertheless. -/
def performLet (e : Expr) (w : Workspace) : Workspace :=
  (e.compute (if e.isAssignment then w else w.report .syntaxError)).2

def performPrint (e : Expr) (w : Workspace) : Workspace :=
  match e.compute w with
  | ((v, true), w) => { w with console := w.console.say (v.text ++ "\n") }
  | ((_, false), w) => w

def performIf (l : Expr) (cmp : Comparison) (r : Expr) (target : LineNumber) (w : Workspace) :
    Action × Workspace :=
  let a := l.compute w
  let b := r.compute a.2
  match cmp.holds? a.1.1 b.1.1 with
  | some true => (.jump target, b.2)
  | some false => (.next, b.2)
  | none => (.next, b.2.report .syntaxError)

def perform (s : Stmt) (w : Workspace) : Action × Workspace :=
  match s with
  | remark => (.next, w)
  | stop => (.next, w)
  | assign e => (.next, performLet e w)
  | print e => (.next, performPrint e w)
  | input x => w.inquire x w.console.input.answers
  | jump t => (.jump t, w)
  | branch l cmp r t => performIf l cmp r t w
  | malformed _ => (.next, w.report .syntaxError)

end Stmt

end LineBasic
