import LineBasic.Interpreter.Console
import LineBasic.Machine

/-!
# The interpreter

The interpreter does what its switches say in the places where it comes to them.
The console has been given the switch for colours, the store those for dumps and
statistics, and the loop that reads commands looks for prompts.

A step is one pass of a run or one line.  `usage` is what there would be to say
about the time used, were a run to end in the step.
-/

namespace LineBasic

/-- The program, with what is known of its runs. -/
structure Store where
  program : Program := .empty
  dump : Bool
  stats : Bool
  running : Bool := false
  interrupted : Bool := false
  executed : Nat := 0

structure Interpreter where
  config : Config
  work : Workspace
  store : Store
  stage : Stage := .idle
  file : ProgramFile := {}

namespace Interpreter

/-- A new interpreter.  The switches are handed to those who look at them. -/
def new (printers : Printers) (config : Config) (input : Input) (file : ProgramFile := {}) :
    Interpreter where
  config
  work := { console := { printers, color := config.color, input } }
  store := { dump := config.dump, stats := config.stats }
  file

/-- The interpreter once its output has been taken away. -/
def flushed (i : Interpreter) : Interpreter :=
  { i with work := { i.work with console := { i.work.console with out := [], crash := none } } }

/-! ### Single operations -/

def say (i : Interpreter) (s : String) : Interpreter :=
  { i with work := { i.work with console := i.work.console.say s } }

def report (i : Interpreter) (f : Fault) : Interpreter :=
  { i with work := i.work.report f }

def fatal (i : Interpreter) (message : String) : Interpreter :=
  { i with work := { i.work with console := i.work.console.fatal message } }

def withProgram (i : Interpreter) (p : Program) : Interpreter :=
  { i with store := { i.store with program := p } }

/-- Forgets the program and the variables. -/
def forget (i : Interpreter) : Interpreter :=
  { i.withProgram .empty with work := { i.work with env := .empty } }

/-- Whether there has been an interrupt, which is forgotten by asking. -/
def checkInterrupts (i : Interpreter) : Bool × Interpreter :=
  (i.store.interrupted, { i with store := { i.store with interrupted := false } })

/-- Shows the statement of a line, if lines are to be dumped. -/
def trace (i : Interpreter) (st : Stmt) : Interpreter :=
  if i.store.dump then i.say (i.work.console.printers.dump st) else i

/-- Enters a line under its number.  The dump is written before the line is looked
for, and the cursor goes to the first line whatever came of that. -/
def enterLine (i : Interpreter) (n : LineNumber) (text : Bytes) (tail : List Token) :
    Interpreter :=
  if tail.isEmpty then i.withProgram (i.store.program.remove n)
  else
    match Stmt.parse tail with
    | .error f => i.report f
    | .ok st =>
      let i := i.trace st
      match i.store.program.store? n ⟨Text.squeeze text, some st⟩ with
      | some p => i.withProgram p.rewind
      | none => (i.fatal n.takenMessage).withProgram i.store.program.rewind

/-! ### Running -/

def beginRun (i : Interpreter) : Interpreter :=
  match i.store.program.first? with
  | none => i
  | some _ =>
    { i with
      store := { i.store with running := true, interrupted := false, executed := 0 }
      stage := .running }

def printStatistics (i : Interpreter) (usage : String) : Interpreter :=
  if i.store.stats then i.say (Statistics.report usage i.store.executed) else i

def endRun (i : Interpreter) (usage : String) : Interpreter :=
  let i := (i.withProgram i.store.program.rewind).printStatistics usage
  { i with store := { i.store with running := false }, stage := .idle }

/-- Executes the statement of the line that was under the cursor. -/
def executeLine (i : Interpreter) (usage : String) (st : Stmt) : Interpreter :=
  let x := st.perform i.work
  let i := { i with work := x.2, store := { i.store with executed := i.store.executed + 1 } }
  match x.1 with
  | .halt => i.endRun usage
  | .jump t =>
    match i.store.program.moveTo? t with
    | some p => i.withProgram p
    | none => i.report .lineNumber
  | .next => i

/-- One pass of a run. -/
def pass (i : Interpreter) (usage : String) : Interpreter :=
  match i.checkInterrupts with
  | (true, i) => (i.report .interrupted).endRun usage
  | (false, i) =>
    match i.store.program.advance with
    | (none, p) => (i.withProgram p).endRun usage
    | (some n, p) =>
      let i := i.withProgram p
      match p.stmt? n with
      | none => i
      | some .remark => i
      | some .stop => i.endRun usage
      | some st => i.executeLine usage st

/-! ### Lines -/

/-- Writes the source of each line, on a line by itself. -/
def list (i : Interpreter) : Interpreter :=
  let shown := i.store.program.toList.flatMap fun l => l.2 ++ [Text.newline]
  { i with work := { i.work with console := i.work.console.write shown } }

def command (i : Interpreter) : Command → Interpreter
  | .run => i.beginRun
  | .list =>
    if i.store.program.isEmpty then i else i.list.withProgram i.store.program.park
  | .clear => i.forget
  | .quit => { i.forget with stage := .ended .quit }
  | .help => i.say Help.text
  | .unknown _ => i.report .syntaxError

def numberedLine (i : Interpreter) (text : Bytes) (numeral : String) (tail : List Token) :
    Interpreter :=
  match LineNumber.ofNumeral numeral with
  | .ok n => i.enterLine n text tail
  | .error f => i.report f

def immediate (i : Interpreter) (ts : List Token) : Interpreter :=
  match Stmt.parse ts with
  | .ok st => { i with work := (st.perform i.work).2 }
  | .error f => i.report f

def processLine (i : Interpreter) (text : Bytes) : Interpreter :=
  match Token.ofLine text with
  | [] => i
  | ⟨.number, numeral⟩ :: tail => i.numberedLine text numeral tail
  | t :: ts =>
    match (Command.read (t :: ts)).1 with
    | some (.ok c) => i.command c
    | some (.error f) => i.report f
    | none =>
      if t.kind = .word ∧ t.text ∈ Session.immediateWords then i.immediate (t :: ts)
      else i.report .syntaxError

/-! ### The loop -/

/-- Reads a command and does what the line says.  An interrupted line is no
line. -/
def readCommand (i : Interpreter) : Interpreter :=
  let r := i.work.console.readCommand (if i.config.interactive then "% " else "")
  let i := { i with work := { i.work with console := r.2 } }
  match r.1 with
  | .line text => i.processLine text
  | .interrupted => i
  | .endOfInput => { i with stage := .ended .endOfInput }
  | .failed message => { i with stage := .ended (.failed message) }

def step (i : Interpreter) (usage : String) : Interpreter :=
  match i.stage with
  | .ended _ => i
  | .running => i.pass usage
  | .idle =>
    match i.file.lines with
    | text :: rest => { i with file := { i.file with lines := rest } }.processLine text
    | [] =>
      if i.file.overlong then { i with stage := .ended .overlongLine } else i.readCommand

/-- The interpreter after so many steps.  `usage` says for each step what there
would be to say about the time used. -/
def steps (i : Interpreter) (usage : Nat → String) : Nat → Interpreter
  | 0 => i
  | n + 1 => (i.steps usage n).step (usage n)

end Interpreter

end LineBasic
