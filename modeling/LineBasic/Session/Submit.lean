import LineBasic.Session.Run

/-!
# Lines

What a line does.  One that starts with a number edits the program, a command
acts on it, and `LET`, `PRINT` and `INPUT` are executed at once.  `RUN` only
begins a run here.
-/

namespace LineBasic.Session

/-- The lines of a program, as they are listed. -/
def listing (p : Program) : List Event :=
  p.toList.map fun l => .listing l.2

def command (s : Session) : Command → Turn
  | .run => s.beginRun
  | .list =>
    if s.program.isEmpty then s.turn .idle []
    else { s with program := s.program.park }.turn .idle (listing s.program)
  | .clear => s.forget.turn .idle []
  | .quit => s.forget.turn (.ended .quit) []
  | .help => s.turn .idle [.help]
  | .unknown _ => s.turn .idle [.fault .syntaxError]

def numberedLine (s : Session) (text : Bytes) (numeral : String) (tail : List Token) : Turn :=
  match LineNumber.ofNumeral numeral with
  | .ok n =>
    let r := s.enterLine n text tail
    ⟨r.1, r.2, .idle⟩
  | .error f => s.turn .idle [.fault f]

/-- The words of the statements that can be typed without a line number. -/
def immediateWords : List String :=
  ["LET", "PRINT", "INPUT"]

def immediate (s : Session) (ts : List Token) : Turn :=
  match Stmt.parse ts with
  | .ok st =>
    let r := (s.execute st).2
    ⟨r.1, r.2, .idle⟩
  | .error f => s.turn .idle [.fault f]

def submit (s : Session) (text : Bytes) : Turn :=
  match Token.ofLine text with
  | [] => s.turn .idle []
  | ⟨.number, numeral⟩ :: tail => s.numberedLine text numeral tail
  | t :: ts =>
    match (Command.read (t :: ts)).1 with
    | some (.ok c) => s.command c
    | some (.error f) => s.turn .idle [.fault f]
    | none =>
      if t.kind = .word ∧ t.text ∈ immediateWords then s.immediate (t :: ts)
      else s.turn .idle [.fault .syntaxError]

end LineBasic.Session
