import LineBasic.Proofs.Program
import LineBasic.Session.Submit

/-!
# What an operation leaves alone

Telling events reaches nothing but the alarm and the interrupt it may give
(`tell_eq`).  Entering and inserting a line change nothing else but the
program.
-/

namespace LineBasic.Session

variable {s : Session}

/-! ### Telling -/

theorem hear_eq (s : Session) (e : Event) :
    ∃ alarm interrupted, s.hear e = { s with alarm, interrupted } := by
  rw [hear]
  cases ha : s.alarm with
  | none => exact ⟨s.alarm, s.interrupted, rfl⟩
  | some a =>
      dsimp only
      split_ifs with hring
      · exact ⟨(a.hear e).2, s.interrupted || s.running, rfl⟩
      · exact ⟨(a.hear e).2, s.interrupted, rfl⟩

theorem tell_eq (s : Session) (events : List Event) :
    ∃ alarm interrupted, (s.tell events).1 = { s with alarm, interrupted } := by
  unfold tell
  induction events generalizing s with
  | nil => exact ⟨s.alarm, s.interrupted, rfl⟩
  | cons e es ih =>
      obtain ⟨a, i, he⟩ := hear_eq s e
      obtain ⟨a', i', hes⟩ := ih (s.hear e)
      refine ⟨a', i', ?_⟩
      rw [List.foldl_cons, hes, he]

/-- Neither the program nor the variables matter to an alarm. -/
theorem tell_with (s : Session) (program : Program) (env : Env) (events : List Event) :
    ({ s with program, env }.tell events).1 = { (s.tell events).1 with program, env } := by
  have hhear (s : Session) (e : Event) :
      { s with program, env }.hear e = { s.hear e with program, env } := by
    cases ha : s.alarm with
    | none => simp [hear, ha]
    | some a =>
        simp only [hear, ha]
        split_ifs <;> rfl
  exact List.foldl_hom (fun s : Session => { s with program, env }) hhear

@[simp] theorem tell_program (s : Session) (events : List Event) :
    (s.tell events).1.program = s.program := by
  obtain ⟨a, i, h⟩ := s.tell_eq events
  rw [h]

@[simp] theorem tell_env (s : Session) (events : List Event) :
    (s.tell events).1.env = s.env := by
  obtain ⟨a, i, h⟩ := s.tell_eq events
  rw [h]

@[simp] theorem tell_input (s : Session) (events : List Event) :
    (s.tell events).1.input = s.input := by
  obtain ⟨a, i, h⟩ := s.tell_eq events
  rw [h]

@[simp] theorem tell_executed (s : Session) (events : List Event) :
    (s.tell events).1.executed = s.executed := by
  obtain ⟨a, i, h⟩ := s.tell_eq events
  rw [h]

@[simp] theorem tell_running (s : Session) (events : List Event) :
    (s.tell events).1.running = s.running := by
  obtain ⟨a, i, h⟩ := s.tell_eq events
  rw [h]

@[simp] theorem tell_events (s : Session) (events : List Event) : (s.tell events).2 = events := rfl

@[simp] theorem turn_program (s : Session) (stage : Stage) (events : List Event) :
    (s.turn stage events).session.program = s.program :=
  s.tell_program events

/-! ### Editing by line -/

theorem insertLine_of_some (h : s.program.Consistent) {n : LineNumber}
    (hn : (s.program.line? n).isSome) (l : StoredLine) :
    s.insertLine n l = s.tell [.duplicate n] := by
  rw [insertLine, h.insert?_of_some hn]

theorem insertLine_of_none (h : s.program.Consistent) {n : LineNumber} {l : StoredLine}
    (hn : s.program.line? n = none) :
    ∃ p, s.program.insert? n l = some p ∧ s.insertLine n l = { s with program := p }.tell [] := by
  have hp := h.insert?_of_none hn l
  exact ⟨_, hp, by rw [insertLine, hp]⟩

theorem enterLine_nil (s : Session) (n : LineNumber) (text : Bytes) :
    s.enterLine n text [] = { s with program := s.program.remove n }.tell [] := rfl

theorem parse_nil : Stmt.parse [] = .error .syntaxError := rfl

theorem enterLine_error {tail : List Token} (hne : tail ≠ []) {f : Fault}
    (ht : Stmt.parse tail = .error f) (n : LineNumber) (text : Bytes) :
    s.enterLine n text tail = s.tell [.fault f] := by
  rw [enterLine, if_neg (by simpa using hne), ht]

/-- A line with a statement is stored, and the cursor goes to the first line. -/
theorem enterLine_ok (h : s.program.Consistent) {tail : List Token} {st : Stmt}
    (ht : Stmt.parse tail = .ok st) (n : LineNumber) (text : Bytes) :
    ∃ p : Program, p.Consistent ∧
      p.lines = s.program.lines.set n ⟨Text.squeeze text, some st⟩ ∧
      p.line? = Function.update s.program.line? n (some ⟨Text.squeeze text, some st⟩) ∧
      s.enterLine n text tail = { s with program := p.rewind }.tell [.entered st] := by
  obtain ⟨p, hp, hcon, hlines, hline⟩ := h.store?_spec n ⟨Text.squeeze text, some st⟩
  refine ⟨p, hcon, hlines, hline, ?_⟩
  have hne : tail ≠ [] := by
    rintro rfl
    rw [parse_nil] at ht
    cases ht
  rw [enterLine, if_neg (by simpa using hne), ht]
  dsimp only
  rw [hp]

end LineBasic.Session
