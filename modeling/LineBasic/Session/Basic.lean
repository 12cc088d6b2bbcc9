import LineBasic.Command
import LineBasic.Console.Alarm
import LineBasic.Program
import LineBasic.Stmt.Execute
import LineBasic.Stmt.Parser
import LineBasic.Text.Blank

/-!
# Sessions

A session is everything that lasts from one line to the next: variables,
program, the input still to come, and the run under way.  Each operation gives
the session after it and the events it told.

Statements executed are counted as a natural number, without the bound of a
machine word.
-/

namespace LineBasic

structure Session where
  env : Env := .empty
  program : Program := .empty
  input : Input := .shared []
  running : Bool := false
  interrupted : Bool := false
  executed : Nat := 0
  alarm : Option Alarm := none
deriving DecidableEq, Repr

namespace Session

/-! ### Interrupts -/

/-- An interrupt counts only while a program runs; the answer is whether it
did. -/
def interrupt (s : Session) : Bool × Session :=
  (s.running, { s with interrupted := s.interrupted || s.running })

/-- Whether there has been an interrupt, which is forgotten by asking. -/
def takeInterrupt (s : Session) : Bool × Session :=
  (s.interrupted, { s with interrupted := false })

@[simp] theorem takeInterrupt_fst (s : Session) : s.takeInterrupt.1 = s.interrupted := rfl

/-- The alarm hears one event, and may interrupt. -/
def hear (s : Session) (e : Event) : Session :=
  match s.alarm with
  | none => s
  | some a =>
    let t := { s with alarm := (a.hear e).2 }
    if (a.hear e).1 then t.interrupt.2 else t

/-- Tells events. -/
def tell (s : Session) (events : List Event) : Session × List Event :=
  (events.foldl hear s, events)

theorem hear_of_alarm_none {s : Session} (h : s.alarm = none) (e : Event) : s.hear e = s := by
  simp [hear, h]

/-- Without an alarm, what is told does not change the session. -/
theorem tell_of_alarm_none {s : Session} (h : s.alarm = none) (events : List Event) :
    s.tell events = (s, events) := by
  unfold tell
  induction events with
  | nil => rfl
  | cons e es ih =>
    rw [List.foldl_cons, hear_of_alarm_none h]
    simpa using ih

/-! ### Single operations -/

/-- Gives a variable a value, and says whether the name allowed it. -/
def assign (s : Session) (name : String) (v : Value) : Bool × Session × List Event :=
  match s.env.bind? name v with
  | some env => (true, { s with env }.tell [])
  | none => (false, s.tell [.fault .syntaxError])

def evaluate (s : Session) (e : Expr) : Evaluation × Session × List Event :=
  let r := e.eval s.env
  (r, { s with env := r.env }.tell (r.faults.map .fault))

def execute (s : Session) (st : Stmt) : Action × Session × List Event :=
  let x := st.execute s.env s.input.answers
  (x.action, { s with env := x.env, input := s.input.setAnswers x.answers }.tell x.events)

/-- Adds a line whose number must be free, exactly as given. -/
def insertLine (s : Session) (n : LineNumber) (l : StoredLine) : Session × List Event :=
  match s.program.insert? n l with
  | some p => { s with program := p }.tell []
  | none => s.tell [.duplicate n]

/-- Enters a line under its number.  `tail` is what follows the number: without
it the line is removed; if it is no statement nothing changes; otherwise the
line is stored and the cursor goes to the first line, as it does also after a
line that should have been free and was not. -/
def enterLine (s : Session) (n : LineNumber) (text : Bytes) (tail : List Token) :
    Session × List Event :=
  if tail.isEmpty then { s with program := s.program.remove n }.tell []
  else
    match Stmt.parse tail with
    | .error f => s.tell [.fault f]
    | .ok st =>
      match s.program.store? n ⟨Text.squeeze text, some st⟩ with
      | some p => { s with program := p.rewind }.tell [.entered st]
      | none => { s with program := s.program.rewind }.tell [.entered st, .duplicate n]

/-- Forgets the program and the variables. -/
def forget (s : Session) : Session :=
  { s with program := .empty, env := .empty }

end Session

end LineBasic
