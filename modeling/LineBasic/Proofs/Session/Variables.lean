import LineBasic.Proofs.Names
import LineBasic.Proofs.Session.Request
import LineBasic.Proofs.Session.Run

/-!
# The variables of a session

A pass writes to names that the program assigns or asks for, and to no others
(`pass_writes`); so does a whole run (`after_frame`).  A line writes only where
it is a statement executed at once, and only `CLEAR` and `QUIT` take variables
away (`submit_variables`).
-/

namespace LineBasic

namespace Program

variable {p q : Program}

/-- The names that occur in the statements of a program. -/
def names (p : Program) : Set String :=
  {x | ∃ n st, p.stmt? n = some st ∧ x ∈ st.names}

/-- The names that the statements of a program may give a value to. -/
def targets (p : Program) : Set String :=
  {x | ∃ n st, p.stmt? n = some st ∧ x ∈ st.targets}

theorem targets_subset_names : p.targets ⊆ p.names := by
  rintro x ⟨n, st, hst, hx⟩
  exact ⟨n, st, hst, st.targets_subset_names hx⟩

theorem mem_of_stmt?_eq_some {n : LineNumber} {st : Stmt} (h : p.stmt? n = some st) :
    ∃ e ∈ p.lines.entries, e.2.stmt = some st := by
  obtain ⟨l, hl, hst⟩ := Option.bind_eq_some_iff.1 h
  rw [line?] at hl
  split_ifs at hl
  obtain ⟨e, he, rfl⟩ := Option.map_eq_some_iff.1 hl
  exact ⟨e, List.mem_of_find?_eq_some he, hst⟩

theorem line?_eq_of_lines_eq (hl : q.lines = p.lines) (hc : q.count = p.count) :
    q.line? = p.line? := by
  obtain ⟨lines, count, cursor⟩ := p
  obtain ⟨lines', count', cursor'⟩ := q
  obtain rfl : lines' = lines := hl
  obtain rfl : count' = count := hc
  rfl

theorem stmt?_eq_of_lines_eq (hl : q.lines = p.lines) (hc : q.count = p.count) :
    q.stmt? = p.stmt? := by
  funext n
  rw [stmt?, stmt?, line?_eq_of_lines_eq hl hc]

theorem names_eq_of_lines_eq (hl : q.lines = p.lines) (hc : q.count = p.count) :
    q.names = p.names := by
  rw [names, names, stmt?_eq_of_lines_eq hl hc]

theorem targets_eq_of_lines_eq (hl : q.lines = p.lines) (hc : q.count = p.count) :
    q.targets = p.targets := by
  rw [targets, targets, stmt?_eq_of_lines_eq hl hc]

end Program

open Env (Writes)

namespace Session

variable {s : Session}

@[simp] theorem turn_env (s : Session) (stage : Stage) (events : List Event) :
    (s.turn stage events).session.env = s.env :=
  s.tell_env events

@[simp] theorem endRun_env (s : Session) (events : List Event) :
    (s.endRun events).session.env = s.env := by
  simp [endRun]

/-! ### Passes -/

theorem Passes.env {t : Turn} (h : s.Passes t) :
    t.session.env = s.env ∨
      ∃ n st, s.program.stmt? n = some st ∧ t.session.env = (s.execution st).env := by
  cases h with
  | runsOut _ => exact .inl (endRun_env _ _)
  | skips _ _ => exact .inl (turn_env _ _ _)
  | stops _ _ => exact .inl (endRun_env _ _)
  | @halts n st h _ => exact .inr ⟨n, st, h.stmt, endRun_env _ _⟩
  | @goesOn n st h _ => exact .inr ⟨n, st, h.stmt, turn_env _ _ _⟩
  | @jumps n t st h _ _ => exact .inr ⟨n, st, h.stmt, turn_env _ _ _⟩
  | @misses n t st h _ _ => exact .inr ⟨n, st, h.stmt, turn_env _ _ _⟩

/-- A pass leaves the variables to the statement it executes, if any. -/
theorem pass_env (s : Session) :
    s.pass.session.env = s.env ∨
      ∃ n st, s.program.stmt? n = some st ∧ s.pass.session.env = (s.execution st).env := by
  cases hi : s.interrupted with
  | true =>
      rw [pass_of_interrupted hi]
      exact .inl (endRun_env _ _)
  | false => exact (passes_pass hi).env

theorem pass_writes (s : Session) :
    ∃ ns, (∀ x ∈ ns, x ∈ s.program.targets) ∧ Writes ns s.env s.pass.session.env := by
  rcases pass_env s with henv | ⟨n, st, hst, henv⟩
  · exact ⟨[], by simp, henv ▸ .refl _ _⟩
  · exact ⟨st.targets, fun x hx => ⟨n, st, hst, hx⟩, henv ▸ st.writes_execute _ _⟩

/-! ### Lines -/

/-- What a line may do to the variables. -/
inductive Touches (s : Session) (text : Bytes) : Env → Prop
  | nothing : Touches s text s.env
  | execute {st : Stmt} : Asks text (.execute st) → Touches s text (s.execution st).env
  | clear : Asks text (.command .clear) → Touches s text .empty
  | quit : Asks text (.command .quit) → Touches s text .empty

theorem submit_variables (s : Session) (text : Bytes) :
    s.Touches text (s.submit text).session.env := by
  rw [submit_eq_answer]
  cases hq : Request.ofLine text with
  | error f =>
      rw [answer, turn_env]
      exact .nothing
  | ok q =>
      have hasks := Request.asks_of_ofLine hq
      rw [answer]
      cases q with
      | nothing =>
          rw [grant, turn_env]
          exact .nothing
      | remove n =>
          rw [grant, turn_env]
          exact .nothing
      | store n source st =>
          rw [grant]
          cases s.program.store? n ⟨source, some st⟩ with
          | none =>
              rw [turn_env]
              exact .nothing
          | some p =>
              rw [turn_env]
              exact .nothing
      | execute st =>
          rw [grant, turn_env]
          exact .execute hasks
      | command c =>
          cases c with
          | run =>
              rw [grant, command, beginRun]
              cases s.program.first? with
              | none =>
                  rw [turn_env]
                  exact .nothing
              | some n =>
                  rw [turn_env]
                  exact .nothing
          | list =>
              rw [grant, command]
              split_ifs
              · rw [turn_env]
                exact .nothing
              · rw [turn_env]
                exact .nothing
          | clear =>
              rw [grant, command, turn_env]
              exact .clear hasks
          | quit =>
              rw [grant, command, turn_env]
              exact .quit hasks
          | help =>
              rw [grant, command, turn_env]
              exact .nothing
          | unknown code =>
              rw [grant, command, turn_env]
              exact .nothing

end Session

namespace Turn

/-- A run leaves alone what its program neither assigns nor asks for. -/
theorem after_frame (t : Turn) (n : Nat) {x : String} (hx : x ∉ t.session.program.targets) :
    (t.after n).session.env.get? x = t.session.env.get? x := by
  induction n with
  | zero => rfl
  | succ n ih =>
      rw [after_succ]
      by_cases h : (t.after n).stage = .running
      · obtain ⟨hl, hc⟩ := t.after_lines n
        obtain ⟨ns, hns, hwrites⟩ := Session.pass_writes (t.after n).session
        rw [Program.targets_eq_of_lines_eq hl hc] at hns
        rw [onward_of_running h]
        exact (hwrites.frame x fun hmem => hx (hns x hmem)).trans ih
      · rw [onward_of_not_running h]
        exact ih

end Turn

end LineBasic
