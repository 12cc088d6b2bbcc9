import LineBasic.Proofs.Session.Pass
import Mathlib.Logic.Function.Iterate

/-!
# Runs

A run is a turn that goes on by passes for as long as it is running.  It need
not end, so it is followed step by step: `t.after n` is the turn after `n` passes
or where it ended before, and `t.trace n` are the lines whose statements were
executed on the way.

Without an alarm nothing is said about interrupts, and what a turn tells leaves
the session as it is.
-/

namespace LineBasic

/-- The line whose statement the next pass executes. -/
def Session.executing? (s : Session) : Option LineNumber :=
  if s.interrupted then none
  else s.program.cursor.filter fun n => (s.program.stmt? n).any Stmt.isCounted

namespace Turn

/-- The turn with one pass more, unless its run is over. -/
def onward (t : Turn) : Turn :=
  match t.stage with
  | .running =>
    ⟨t.session.pass.session, t.events ++ t.session.pass.events, t.session.pass.stage⟩
  | _ => t

/-- The turn after `n` passes, or as it was when its run ended. -/
def after (t : Turn) (n : Nat) : Turn :=
  onward^[n] t

/-- The line whose statement is executed next, unless the run is over. -/
def executing? (t : Turn) : Option LineNumber :=
  match t.stage with
  | .running => t.session.executing?
  | _ => none

/-- The lines whose statements are executed in the first `n` passes. -/
def trace (t : Turn) : Nat → List LineNumber
  | 0 => []
  | n + 1 => t.trace n ++ (t.after n).executing?.toList

theorem onward_of_running {t : Turn} (h : t.stage = .running) :
    t.onward =
      ⟨t.session.pass.session, t.events ++ t.session.pass.events, t.session.pass.stage⟩ := by
  rw [onward, h]

theorem onward_of_not_running {t : Turn} (h : t.stage ≠ .running) : t.onward = t := by
  rw [onward]
  split
  · contradiction
  · rfl

theorem after_zero (t : Turn) : t.after 0 = t := rfl

theorem after_succ (t : Turn) (n : Nat) : t.after (n + 1) = (t.after n).onward :=
  Function.iterate_succ_apply' onward n t

theorem executing?_of_running {t : Turn} (h : t.stage = .running) :
    t.executing? = t.session.executing? := by
  rw [executing?, h]

theorem executing?_of_not_running {t : Turn} (h : t.stage ≠ .running) : t.executing? = none := by
  rw [executing?]
  split
  · contradiction
  · rfl

/-- Over a whole run the lines and their count stay as they are. -/
theorem after_lines (t : Turn) (n : Nat) :
    (t.after n).session.program.lines = t.session.program.lines ∧
      (t.after n).session.program.count = t.session.program.count := by
  induction n with
  | zero => exact ⟨rfl, rfl⟩
  | succ n ih =>
      rw [after_succ]
      by_cases h : (t.after n).stage = .running
      · obtain ⟨c, hp, -⟩ := Session.pass_program (t.after n).session
        rw [onward_of_running h]
        dsimp only
        rw [hp]
        exact ih
      · rw [onward_of_not_running h]
        exact ih

end Turn

namespace Session

variable {s : Session}

theorem executing?_of_cursor_none (h : s.program.cursor = none) : s.executing? = none := by
  rw [executing?, h]
  split_ifs <;> rfl

theorem executing?_of_cursor_some (hi : s.interrupted = false) {n : LineNumber}
    (hc : s.program.cursor = some n) :
    s.executing? = if (s.program.stmt? n).any Stmt.isCounted then some n else none := by
  rw [executing?, if_neg (by simp [hi]), hc, Option.filter_some]

/-! ### Lines one after the other -/

/-- The session takes the lines one after the other, the next one only when a run
that the last one began has ended. -/
inductive Takes : Session → List Bytes → Session → Prop
  | nil (s : Session) : Takes s [] s
  | cons {s s' : Session} {text : Bytes} {texts : List Bytes} (n : Nat) :
      ((s.submit text).after n).stage ≠ .running →
        Takes ((s.submit text).after n).session texts s' → Takes s (text :: texts) s'

/-! ### Without an alarm -/

theorem turn_of_quiet (h : s.alarm = none) (stage : Stage) (events : List Event) :
    s.turn stage events = ⟨s, events, stage⟩ := by
  rw [turn, tell_of_alarm_none h]

theorem endRun_of_quiet (h : s.alarm = none) (events : List Event) :
    s.endRun events =
      ⟨{ s with program := s.program.rewind, running := false },
        events ++ [.statistics s.executed], .idle⟩ := by
  have hs : { s with program := s.program.rewind }.alarm = none := h
  simp only [endRun, tell_of_alarm_none h, tell_of_alarm_none hs]

end Session

end LineBasic
