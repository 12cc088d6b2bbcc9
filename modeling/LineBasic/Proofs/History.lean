import LineBasic.Proofs.Reload
import LineBasic.Proofs.Session.Outcome

/-!
# Histories

All that can happen to a machine from outside, in any order: a line is typed, a
run makes a pass, an interrupt comes, now or when an alarm rings, and there is
other input to be read.  A line waits for the end of a run, and only a run makes
passes.

Whatever has happened, the session knows whether it is in a run
(`InStep.through`).  Each line of its program still reads as what is stored
(`legible_happen`).
-/

namespace LineBasic

inductive Happening
  | line (text : Bytes)
  | pass
  | interrupt
  | input (i : Input)
  | alarm (a : Option Alarm)
deriving DecidableEq, Repr

namespace Session

variable {s : Session}

theorem turn_running (s : Session) (stage : Stage) (events : List Event) :
    (s.turn stage events).session.running = s.running :=
  s.tell_running events

/-- A line that is typed outside of a run is in one afterwards just if it began
it. -/
theorem submit_running (hr : s.running = false) (text : Bytes) :
    (s.submit text).session.running = true ↔ (s.submit text).stage = .running := by
  rw [submit_eq_answer]
  rcases answer_forms s (Request.ofLine text) with ⟨hq, hf⟩ | ⟨s', stage, events, hs, hturn⟩
  · rw [hq, answer_run hf]
    simp
  · have hanswer : s.answer (Request.ofLine text) =
        ({ s' with alarm := s.alarm }.stale s.executed s.interrupted s.running).turn stage events :=
      hturn s.alarm s.executed s.interrupted s.running
    rw [hanswer, turn_running]
    simp [stale, hr, turn, hs]

theorem Passes.running_iff {t : Turn} (h : s.Passes t) (hr : s.running = true) :
    t.session.running = true ↔ t.stage = .running := by
  cases h with
  | runsOut | stops | halts => simp [endRun]
  | skips | goesOn | jumps | misses =>
      rw [turn_running]
      exact iff_of_true hr rfl

/-- A run that goes on is still a run, and one that is over is none. -/
theorem pass_running (hr : s.running = true) :
    s.pass.session.running = true ↔ s.pass.stage = .running := by
  cases hi : s.interrupted with
  | true =>
      rw [pass_of_interrupted hi]
      simp [endRun]
  | false => exact (passes_pass hi).running_iff hr

end Session

namespace Machine

variable {m : Machine}

def happen (m : Machine) : Happening → Machine
  | .line text => if m.stage = .running then m else (m.submit text).1
  | .pass => if m.stage = .running then (m.record m.session.pass).1 else m
  | .interrupt => { m with session := m.session.interrupt.2 }
  | .input input => { m with session := { m.session with input } }
  | .alarm alarm => { m with session := { m.session with alarm } }

/-- The machine after one thing and another has happened to it. -/
def through (m : Machine) (hs : List Happening) : Machine :=
  hs.foldl happen m

/-- The session is in a run just when the machine is. -/
def InStep (m : Machine) : Prop :=
  m.session.running = true ↔ m.stage = .running

theorem InStep.happen (h : m.InStep) (e : Happening) : (m.happen e).InStep := by
  cases e with
  | line text =>
      rw [Machine.happen]
      split_ifs with hs
      · exact h
      · have hr : m.session.running = false := by simpa using fun hr => hs (h.1 hr)
        exact Session.submit_running hr text
  | pass =>
      rw [Machine.happen]
      split_ifs with hs
      · exact Session.pass_running (h.2 hs)
      · exact h
  | interrupt => exact h
  | input i => exact h
  | alarm a => exact h

/-- From the start on, the session knows whether it is in a run. -/
theorem InStep.through (h : m.InStep) (hs : List Happening) : (m.through hs).InStep :=
  List.foldlRecOn hs Machine.happen h fun _ hm e _ => hm.happen e

/-- A line that is typed reaches the program.  All else leaves its lines alone. -/
theorem happen_program (m : Machine) (e : Happening) :
    ((m.happen e).session.program.lines = m.session.program.lines ∧
        (m.happen e).session.program.count = m.session.program.count) ∨
      ∃ text, e = .line text ∧ (m.happen e).session = (m.session.submit text).session := by
  cases e with
  | line text =>
      rw [happen]
      split_ifs
      · exact .inl ⟨rfl, rfl⟩
      · exact .inr ⟨text, rfl, rfl⟩
  | pass =>
      rw [happen]
      split_ifs
      · obtain ⟨c, hp, -⟩ := m.session.pass_program
        exact .inl ⟨by rw [record, hp], by rw [record, hp]⟩
      · exact .inl ⟨rfl, rfl⟩
  | interrupt => exact .inl ⟨rfl, rfl⟩
  | input i => exact .inl ⟨rfl, rfl⟩
  | alarm a => exact .inl ⟨rfl, rfl⟩

theorem legible_happen (h : m.session.program.Legible) (e : Happening) :
    (m.happen e).session.program.Legible := by
  rcases m.happen_program e with ⟨hlines, hcount⟩ | ⟨text, -, hsubmit⟩
  · exact h.of_lines_eq hlines hcount
  · rw [hsubmit]
    exact Session.submit_legible h text

end Machine

end LineBasic
