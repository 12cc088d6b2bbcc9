import LineBasic.Stmt.Basic
import LineBasic.Table
import LineBasic.Text.Bytes

/-!
# Programs

A program holds lines under their numbers, each with its source and, unless it
was taken away by hand, its statement.  The lines are counted as they come and
go, and no line is looked for where none was counted.  The cursor marks the line
to be executed next; without one there is none.
-/

namespace LineBasic

structure StoredLine where
  source : Bytes
  stmt : Option Stmt
deriving DecidableEq, Repr

structure Program where
  lines : Table LineNumber StoredLine
  count : Nat
  cursor : Option LineNumber
deriving DecidableEq, Repr

namespace Program

def empty : Program := ⟨.empty, 0, none⟩

def size (p : Program) : Nat :=
  p.count

def isEmpty (p : Program) : Bool :=
  p.count == 0

def line? (p : Program) (n : LineNumber) : Option StoredLine :=
  if p.isEmpty then none else p.lines.get? n

def first? (p : Program) : Option LineNumber :=
  if p.isEmpty then none else p.lines.first?

/-- The first number above `n` on a walk along all the lines. -/
def search? (p : Program) (n : LineNumber) : Option LineNumber :=
  if p.isEmpty then none else p.lines.keys.find? (n < ·)

/-- The smallest number above `n`.  If there is a line `n`, it is the one listed
after it; otherwise it has to be searched for. -/
def next? (p : Program) (n : LineNumber) : Option LineNumber :=
  match p.line? n with
  | some _ => p.lines.after? n
  | none => p.search? n

/-- The source of a line, empty where there is no line. -/
def source (p : Program) (n : LineNumber) : Bytes :=
  ((p.line? n).map StoredLine.source).getD []

def stmt? (p : Program) (n : LineNumber) : Option Stmt :=
  (p.line? n).bind StoredLine.stmt

/-- The numbers of the lines with their sources. -/
def toList (p : Program) : List (LineNumber × Bytes) :=
  p.lines.entries.map fun e => (e.1, e.2.source)

/-! ### The cursor -/

/-- The cursor on the first line. -/
def rewind (p : Program) : Program :=
  { p with cursor := p.first? }

/-- The cursor on no line. -/
def park (p : Program) : Program :=
  { p with cursor := none }

def moveTo? (p : Program) (n : LineNumber) : Option Program :=
  (p.line? n).map fun _ => { p with cursor := some n }

/-- The line under the cursor, and the program with the cursor on the line
after it. -/
def advance (p : Program) : Option LineNumber × Program :=
  (p.cursor, { p with cursor := p.cursor.bind p.next? })

/-! ### Editing -/

/-- Adds a line under a number that is still free. -/
def insert? (p : Program) (n : LineNumber) (l : StoredLine) : Option Program :=
  (p.lines.add? n l).map fun t => { p with lines := t, count := p.count + 1 }

/-- Puts a line in the place of the one under its number, or adds it where there
is none. -/
def store? (p : Program) (n : LineNumber) (l : StoredLine) : Option Program :=
  match p.line? n with
  | some _ => some { p with lines := p.lines.set n l }
  | none => p.insert? n l

/-- Gives a line another statement, or none. -/
def setStmt? (p : Program) (n : LineNumber) (s : Option Stmt) : Option Program :=
  (p.line? n).map fun l => { p with lines := p.lines.set n { l with stmt := s } }

/-- Takes a line out, if there is one.  A cursor that was on it goes to the first
line. -/
def remove (p : Program) (n : LineNumber) : Program :=
  match p.line? n with
  | none => p
  | some _ =>
    let q : Program := { p with lines := p.lines.erase n, count := p.count - 1 }
    if p.cursor = some n then q.rewind else q

end Program

end LineBasic
