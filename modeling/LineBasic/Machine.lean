import LineBasic.Session.Submit

/-!
# The machine

A session with its stage and the lines of a program file that are still to be
entered.  The machine enters those first, as if they had been typed, and then
reads commands until it is told to quit or there are no more.

A step is one pass of a run or one line, so that a run without an end is a
machine that keeps stepping.
-/

namespace LineBasic

/-- Lines of a program file, and whether a line too long to be read follows
them. -/
structure ProgramFile where
  lines : List Bytes := []
  overlong : Bool := false
deriving DecidableEq, Repr

namespace ProgramFile

def ofBytes (s : Bytes) : ProgramFile :=
  ⟨(Text.fileLines s).1, (Text.fileLines s).2⟩

end ProgramFile

structure Machine where
  session : Session := {}
  stage : Stage := .idle
  file : ProgramFile := {}
deriving DecidableEq, Repr

namespace Machine

/-- The machine after a turn of its session. -/
def record (m : Machine) (t : Turn) : Machine × List Event :=
  ({ m with session := t.session, stage := t.stage }, t.events)

/-- Hands a line to the session. -/
def submit (m : Machine) (text : Bytes) : Machine × List Event :=
  m.record (m.session.submit text)

/-- Hands a command to the session. -/
def command (m : Machine) (c : Command) : Machine × List Event :=
  m.record (m.session.command c)

/-- Prompts for a command and does what the line says.  An interrupted line is
no line. -/
def readCommand (m : Machine) : Machine × List Event :=
  let s := (m.session.tell [.commandPrompt]).1
  let r := s.input.commands.next
  let m := { m with session := { s with input := s.input.setCommands r.2 } }
  match r.1 with
  | .line text =>
    let x := m.submit text
    (x.1, .commandPrompt :: x.2)
  | .interrupted => (m, [.commandPrompt])
  | .endOfInput => ({ m with stage := .ended .endOfInput }, [.commandPrompt])
  | .failed message => ({ m with stage := .ended (.failed message) }, [.commandPrompt])

def step (m : Machine) : Machine × List Event :=
  match m.stage with
  | .ended _ => (m, [])
  | .running => m.record m.session.pass
  | .idle =>
    match m.file.lines with
    | text :: rest => { m with file := { m.file with lines := rest } }.submit text
    | [] =>
      if m.file.overlong then ({ m with stage := .ended .overlongLine }, [])
      else m.readCommand

/-- At most `fuel` steps, and all that was told on the way. -/
def steps : Nat → Machine → Machine × List Event
  | 0, m => (m, [])
  | fuel + 1, m =>
    let x := m.step
    let y := steps fuel x.1
    (y.1, x.2 ++ y.2)

theorem steps_zero (m : Machine) : m.steps 0 = (m, []) := rfl

theorem steps_succ (fuel : Nat) (m : Machine) :
    m.steps (fuel + 1) =
      ((m.step.1.steps fuel).1, m.step.2 ++ (m.step.1.steps fuel).2) := rfl

/-- Steps taken together are those taken one stretch after the other. -/
theorem steps_add (i j : Nat) (m : Machine) :
    m.steps (i + j) =
      (((m.steps i).1.steps j).1, (m.steps i).2 ++ ((m.steps i).1.steps j).2) := by
  induction i generalizing m with
  | zero => simp [steps_zero]
  | succ i ih =>
    rw [Nat.succ_add, steps_succ, steps_succ, ih]
    simp

/-- A machine that has ended stays as it is. -/
theorem steps_of_ended {m : Machine} {e : Ending} (h : m.stage = .ended e) (fuel : Nat) :
    m.steps fuel = (m, []) := by
  induction fuel with
  | zero => rfl
  | succ fuel ih =>
    have hs : m.step = (m, []) := by simp [step, h]
    rw [steps_succ, hs, ih]
    rfl

end Machine

end LineBasic
