import LineBasic.Session.Basic

/-!
# Running a program

A run goes in passes, one for each line met: look for an interrupt, take the
line under the cursor and move the cursor on, then execute its statement.  The
run is over when there is no line, at `END`, when a statement halts it, and after
an interrupt.  At its end the cursor is on the first line again.

Comments and lines without a statement are passed over and do not count as
executed.
-/

namespace LineBasic

/-- Why a session is over. -/
inductive Ending
  | quit
  | endOfInput
  | failed (message : String)
  | overlongLine
deriving DecidableEq, Repr

/-- Whether a session waits for a line, is in the middle of a run, or is over. -/
inductive Stage
  | idle
  | running
  | ended (e : Ending)
deriving DecidableEq, Repr

/-- A session after something was done, what was told, and the stage reached. -/
structure Turn where
  session : Session
  events : List Event
  stage : Stage
deriving DecidableEq, Repr

namespace Session

def turn (s : Session) (stage : Stage) (events : List Event) : Turn :=
  ⟨(s.tell events).1, events, stage⟩

/-- Begins a run.  An empty program has none. -/
def beginRun (s : Session) : Turn :=
  match s.program.first? with
  | none => s.turn .idle []
  | some _ => { s with running := true, interrupted := false, executed := 0 }.turn .running []

/-- Ends a run.  The statistics still belong to it. -/
def endRun (s : Session) (events : List Event) : Turn :=
  let s := (s.tell events).1
  let s := { s with program := s.program.rewind }
  let s := (s.tell [.statistics s.executed]).1
  ⟨{ s with running := false }, events ++ [.statistics s.executed], .idle⟩

/-- The session with what a statement did to the variables and the answers, and
one more statement counted. -/
def absorb (s : Session) (x : Execution) : Session :=
  { s with
    env := x.env
    input := s.input.setAnswers x.answers
    executed := s.executed + 1 }

/-- Executes the statement of the line that was under the cursor. -/
def executeLine (s : Session) (st : Stmt) : Turn :=
  let x := st.execute s.env s.input.answers
  let s := s.absorb x
  match x.action with
  | .halt => s.endRun x.events
  | .jump t =>
    match s.program.moveTo? t with
    | some p => { s with program := p }.turn .running x.events
    | none => s.turn .running (x.events ++ [.fault .lineNumber])
  | .next => s.turn .running x.events

/-- One pass of a run. -/
def pass (s : Session) : Turn :=
  if s.takeInterrupt.1 then s.takeInterrupt.2.endRun [.fault .interrupted]
  else
    match s.program.advance with
    | (none, p) => { s with program := p }.endRun []
    | (some n, p) =>
      let s := { s with program := p }
      match p.stmt? n with
      | none => s.turn .running []
      | some .remark => s.turn .running []
      | some .stop => s.endRun []
      | some st => s.executeLine st

end Session

end LineBasic
