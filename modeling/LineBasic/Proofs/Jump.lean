import LineBasic.Proofs.Counter

/-!
# Jumps, and what can be seen of a run

A statement jumps nowhere but to the line it names (`Stmt.destination?_of_jump`),
so the numbers that matter to a run besides those of its lines are the
destinations of its program.

Which lines a run is at is hidden from a user, who sees how far it has come, what
it tells, the variables, the answers it has taken and the number of statements it
has counted (`Turn.SameView`).  Program counters that differ only in where they
are and have been show the same (`Counter.Shows.sameView`).
-/

namespace LineBasic

/-! ### Destinations -/

namespace Stmt

/-- The line that a statement may jump to. -/
def destination? : Stmt → Option LineNumber
  | jump t => some t
  | branch _ _ _ t => some t
  | _ => none

theorem executeInput_ne_jump (x : String) (env : Env) (answers : Source) (t : LineNumber) :
    (executeInput x env answers).action ≠ .jump t := by
  unfold executeInput
  dsimp only
  split
  · simp
  · split <;> simp

theorem eq_of_branchAction_jump {cmp : Comparison} {a b : Value} {t u : LineNumber}
    (h : (branchAction cmp a b t).1 = .jump u) : t = u := by
  unfold branchAction at h
  split at h
  · exact Action.jump.inj h
  · cases h
  · cases h

/-- A statement that jumps goes to its destination. -/
theorem destination?_of_jump {st : Stmt} {env : Env} {answers : Source} {t : LineNumber}
    (h : (st.execute env answers).action = .jump t) : st.destination? = some t := by
  cases st with
  | jump u => exact congrArg some (Action.jump.inj h)
  | branch l cmp r u => exact congrArg some (eq_of_branchAction_jump h)
  | input x => exact absurd h (executeInput_ne_jump x env answers t)
  | _ => cases h

end Stmt

namespace Program

variable {p : Program} {n : LineNumber}

/-- The lines that the statements of a program may jump to, stored or not. -/
def destinations (p : Program) : Set LineNumber :=
  {t | ∃ n st, p.stmt? n = some st ∧ st.destination? = some t}

theorem Consistent.stmt?_eq (h : p.Consistent) (n : LineNumber) :
    p.stmt? n = (p.lines.get? n).bind StoredLine.stmt := by
  rw [stmt?, h.line?_eq]

theorem Consistent.stmt?_eq_some_iff (h : p.Consistent) {st : Stmt} :
    p.stmt? n = some st ↔ ∃ l, (n, l) ∈ p.lines.entries ∧ l.stmt = some st := by
  simp only [h.stmt?_eq, Option.bind_eq_some_iff, h.ordered.mem_entries_iff]

theorem stmt?_eq_none (h : p.line? n = none) : p.stmt? n = none := by
  rw [stmt?, h, Option.bind_none]

theorem Consistent.contains_iff (h : p.Consistent) :
    p.lines.contains n = true ↔ (p.line? n).isSome := by
  rw [h.isSome_line?_iff, Table.contains_iff]

theorem Consistent.size_ne_zero_iff (h : p.Consistent) :
    p.size ≠ 0 ↔ ∃ n, (p.line? n).isSome := by
  constructor
  · intro hne
    obtain ⟨n, hn⟩ := Option.ne_none_iff_exists'.1 (h.first?_ne_none_iff.2 hne)
    exact ⟨n, h.isSome_line?_of_first? hn⟩
  · rintro ⟨n, hn⟩ hzero
    have hempty : p.isEmpty = true := by simpa [isEmpty, size] using hzero
    simp [line?, hempty] at hn

end Program

/-! ### What can be seen -/

/-- Turns between which a user sees no difference.  The lines and the cursor may
differ. -/
structure Turn.SameView (t t' : Turn) : Prop where
  stage : t.stage = t'.stage
  events : t.events = t'.events
  env : t.session.env = t'.session.env
  answers : t.session.input.answers = t'.session.input.answers
  executed : t.session.executed = t'.session.executed

namespace Counter

variable {s s' : Session} {t t' : Turn} {c : Counter}

theorem Shows.stage (h : Shows s t c) : t.stage = if c.stopped then .idle else .running := by
  cases hc : c.stopped with
  | false => exact h.running_iff.2 hc
  | true =>
      have hended : t.stage ≠ .running := by
        rw [Ne, h.running_iff, hc]
        simp
      exact (h.rewound hended).1

theorem Shows.answers (h : Shows s t c) : t.session.input.answers = c.answers := by
  rw [h.input, Input.answers_setAnswers]

/-- Where a machine is, and which lines it has executed, cannot be seen. -/
theorem Shows.sameView {line : Option LineNumber} {trace : List LineNumber} (h : Shows s t c)
    (h' : Shows s' t' { c with line, trace }) : t.SameView t' where
  stage := h.stage.trans h'.stage.symm
  events := h.events.trans h'.events.symm
  env := h.env.trans h'.env.symm
  answers := h.answers.trans h'.answers.symm
  executed := h.executed.trans h'.executed.symm

theorem run_shows (hcon : s.program.Consistent) (hne : s.program.size ≠ 0) (ha : s.alarm = none)
    (n : Nat) : Shows s (s.beginRun.after n) ((step s.program.lines)^[n] (ofSession s)) :=
  (run_agrees hcon (hcon.first?_ne_none_iff.2 hne) ha n).1.shows (hcon.first?_ne_none_iff.2 hne)

theorem run_trace (hcon : s.program.Consistent) (hne : s.program.size ≠ 0) (ha : s.alarm = none)
    (n : Nat) : s.beginRun.trace n = ((step s.program.lines)^[n] (ofSession s)).trace :=
  (run_agrees hcon (hcon.first?_ne_none_iff.2 hne) ha n).2

end Counter

end LineBasic
