import LineBasic.Proofs.Session.Frame

/-!
# Operations on the stored program

Everything that can be done to the program of a session by hand, as data, and
what each operation does to the map of the lines (`Operation.effect`).  The map
knows neither an order nor a count nor a cursor; that the session follows it is
`perform_line?`.
-/

namespace LineBasic

inductive Operation
  | enter (n : LineNumber) (text : Bytes) (tail : List Token)
  | remove (n : LineNumber)
  | insert (n : LineNumber) (l : StoredLine)
  | setStmt (n : LineNumber) (stmt : Option Stmt)
  | erase
  | moveTo (n : LineNumber)
  | advance
  | park
  | rewind
deriving DecidableEq, Repr

/-- A session after an operation, what was told, and what the operation
reported to its caller. -/
structure Outcome where
  session : Session
  events : List Event := []
  fault : Option Fault := none
deriving DecidableEq, Repr

namespace Session

/-- What comes of changing the program, where that may fail for want of a line. -/
def replaced (s : Session) : Option Program → Outcome
  | some p => { session := { s with program := p } }
  | none => { session := s, fault := some .lineNumber }

def perform (s : Session) : Operation → Outcome
  | .enter n text tail => ⟨(s.enterLine n text tail).1, (s.enterLine n text tail).2, none⟩
  | .remove n => s.replaced (some (s.program.remove n))
  | .insert n l => ⟨(s.insertLine n l).1, (s.insertLine n l).2, none⟩
  | .setStmt n stmt => s.replaced (s.program.setStmt? n stmt)
  | .erase => s.replaced (some .empty)
  | .moveTo n => s.replaced (s.program.moveTo? n)
  | .advance => s.replaced (some s.program.advance.2)
  | .park => s.replaced (some s.program.park)
  | .rewind => s.replaced (some s.program.rewind)

def performAll (s : Session) (os : List Operation) : Session :=
  os.foldl (fun s o => (s.perform o).session) s

theorem performAll_cons (s : Session) (o : Operation) (os : List Operation) :
    s.performAll (o :: os) = (s.perform o).session.performAll os := rfl

end Session

/-! ### The map of the lines -/

namespace Operation

/-- What an operation does to the map of the lines.  A line that is entered
without a statement leaves the map, and one whose statement cannot be read
changes nothing. -/
def effect (m : LineNumber → Option StoredLine) : Operation → LineNumber → Option StoredLine
  | enter n _ [] => Function.update m n none
  | enter n text (t :: ts) =>
    match Stmt.parse (t :: ts) with
    | .ok st => Function.update m n (some ⟨Text.squeeze text, some st⟩)
    | .error _ => m
  | remove n => Function.update m n none
  | insert n l =>
    match m n with
    | none => Function.update m n (some l)
    | some _ => m
  | setStmt n stmt =>
    match m n with
    | none => m
    | some l => Function.update m n (some { l with stmt })
  | erase => fun _ => none
  | moveTo _ | advance | park | rewind => m

/-- The map that a sequence of operations leaves, from no lines at all. -/
def effects (os : List Operation) : LineNumber → Option StoredLine :=
  os.foldl effect fun _ => none

end Operation

namespace Session

variable {s : Session}

/-- Every operation keeps the program consistent and does to its lines what it
does to the map. -/
theorem perform_line? (h : s.program.Consistent) (o : Operation) :
    (s.perform o).session.program.Consistent ∧
      (s.perform o).session.program.line? = o.effect s.program.line? := by
  have hcursor (c : Option LineNumber) : { s.program with cursor := c }.Consistent :=
    h.of_lines_eq rfl rfl
  cases o with
  | enter n text tail =>
      cases tail with
      | nil =>
          simp only [perform, enterLine_nil, tell_program]
          exact ⟨h.remove n, h.remove_line? n⟩
      | cons t ts =>
          cases ht : Stmt.parse (t :: ts) with
          | error f =>
              simp only [perform, enterLine_error (by simp) ht, tell_program, Operation.effect, ht]
              exact ⟨h, trivial⟩
          | ok st =>
              obtain ⟨p, hcon, -, hline, he⟩ := enterLine_ok h ht n text
              simp only [perform, he, tell_program, Operation.effect, ht]
              exact ⟨hcon.of_lines_eq rfl rfl, hline⟩
  | remove n => exact ⟨h.remove n, h.remove_line? n⟩
  | insert n l =>
      cases hn : s.program.line? n with
      | some l' =>
          have hsome : (s.program.line? n).isSome := by simp [hn]
          simp only [perform, insertLine_of_some h hsome, tell_program, Operation.effect, hn]
          exact ⟨h, trivial⟩
      | none =>
          obtain ⟨p, hp, he⟩ := insertLine_of_none h (l := l) hn
          obtain ⟨hcon, hline, -⟩ := h.insert?_spec hp
          simp only [perform, he, tell_program, Operation.effect, hn]
          exact ⟨hcon, hline⟩
  | setStmt n stmt =>
      cases hn : s.program.line? n with
      | none =>
          simp only [perform, Program.setStmt?_eq_none_iff.2 hn, replaced, Operation.effect, hn]
          exact ⟨h, trivial⟩
      | some l =>
          obtain ⟨q, hq, hcon, hline, -⟩ := h.setStmt?_spec (s := stmt) hn
          simp only [perform, hq, replaced, Operation.effect, hn]
          exact ⟨hcon, hline⟩
  | erase => exact ⟨Program.consistent_empty, rfl⟩
  | moveTo n =>
      cases hn : s.program.line? n with
      | none =>
          simp only [perform, Program.moveTo?_eq_none_iff.2 hn, replaced]
          exact ⟨h, rfl⟩
      | some l =>
          simp only [perform, Program.moveTo?_eq_some (p := s.program) (n := n) (by simp [hn]),
            replaced]
          exact ⟨hcursor (some n), rfl⟩
  | advance => exact ⟨hcursor _, rfl⟩
  | park => exact ⟨hcursor _, rfl⟩
  | rewind => exact ⟨hcursor _, rfl⟩

/-- A whole sequence of operations follows the map. -/
theorem performAll_line? (h : s.program.Consistent) (os : List Operation) :
    (s.performAll os).program.Consistent ∧
      (s.performAll os).program.line? = os.foldl Operation.effect s.program.line? := by
  induction os generalizing s with
  | nil => exact ⟨h, rfl⟩
  | cons o os ih =>
      obtain ⟨hcon, hline⟩ := perform_line? h o
      obtain ⟨hcon', hline'⟩ := ih hcon
      refine ⟨hcon', ?_⟩
      rw [performAll_cons, hline', hline, List.foldl_cons]

end Session

end LineBasic
