import LineBasic.CommandLine.Folder
import LineBasic.CommandLine.Options
import LineBasic.Interpreter.Basic

/-!
# The command line tool

The tool works out its command line, reads the program file if there is one, and
steps an interpreter until it ends.  Every step writes to standard output; standard
error gets at most one message, at the end.
-/

namespace LineBasic.CommandLine

/-- How the tool ends. -/
structure Exit where
  status : Nat
  stderr : Bytes
deriving DecidableEq, Inhabited, Repr

namespace Exit

def success : Exit := ⟨0, []⟩

def failure (message : Bytes) : Exit :=
  ⟨1, message ++ [Text.newline]⟩

/-- How the end of a session ends the tool.  `path` is the program file. -/
def ofEnding (path : Option Bytes) : Ending → Exit
  | .quit => success
  | .endOfInput => success
  | .failed message => failure (Text.ofString ("read error: " ++ message))
  | .overlongLine =>
    failure (Text.ofString "Unable to read " ++ path.getD [] ++
      Text.ofString " (bufio.Scanner: token too long)")

end Exit

structure Tool where
  path : Option Bytes
  interpreter : Interpreter

inductive Progress
  | working (tool : Tool)
  | finished (exit : Exit)

/-- The switches, with `terminal` saying whether standard output is a terminal.
Standard input is none, so there are no prompts. -/
def Options.config (o : Options) (terminal : Bool) : Config :=
  { color := terminal && !o.plain, stats := o.stats, dump := o.dump }

namespace Tool

def ofProgram (o : Options) (path : Option Bytes) (file : ProgramFile) (stdin : Bytes)
    (terminal : Bool := false) : Tool :=
  { path
    interpreter := .new .standard (o.config terminal) (.shared (.ofBytes stdin)) file }

/-- What the tool writes at once, and how it goes on.  `read` gives the content
of a file. -/
def start (read : Bytes → Except FileFault Bytes) (args : List Bytes) (stdin : Bytes)
    (terminal : Bool := false) : Bytes × Progress :=
  match Invocation.parse args with
  | .error r => ([], .finished (.failure (Text.ofString r.message)))
  | .ok .usage => (Text.ofString (CommandLine.usage ++ "\n"), .finished .success)
  | .ok (.session o none) => ([], .working (ofProgram o none {} stdin terminal))
  | .ok (.session o (some path)) =>
    match read path with
    | .ok content => ([], .working (ofProgram o (some path) (.ofBytes content) stdin terminal))
    | .error e => ([], .finished (.failure (e.message path)))

/-- One step of the interpreter: what it writes, and how the tool goes on. -/
def step (t : Tool) (usage : String := "*") : Bytes × Progress :=
  let i := t.interpreter.flushed.step usage
  let out := i.work.console.out
  match i.work.console.crash with
  | some message => (out, .finished (.failure (Text.ofString message)))
  | none =>
    match i.stage with
    | .ended e => (out, .finished (.ofEnding t.path e))
    | _ => (out, .working { t with interpreter := i })

/-- At most `fuel` steps, and all that was written.  `usage` says for each step what
there would be to say about the time used. -/
def steps (usage : Nat → String) : Nat → Tool → Bytes × Progress
  | 0, t => ([], .working t)
  | fuel + 1, t =>
    match t.step (usage 0) with
    | (out, .working t) =>
      let r := steps (fun k => usage (k + 1)) fuel t
      (out ++ r.1, r.2)
    | (out, .finished e) => (out, .finished e)

end Tool

end LineBasic.CommandLine
