import LineBasic.Machine
import LineBasic.Proofs.Cursor

/-!
# Steps of the machine

A step of a machine without a program file makes a pass or reads a command.  The
program stays sound, whatever is read (`steps_sound`).
-/

namespace LineBasic.Machine

variable {m : Machine}

/-! ### Reading -/

/-- The machine after it has read a reply. -/
def taken (m : Machine) : Machine :=
  { m with
    session := { m.session with
      input := m.session.input.setCommands m.session.input.commands.next.2 } }

/-- The machine after it has prompted for a reply and read it. -/
def prompted (m : Machine) : Machine :=
  { m.taken with
    session := { (m.session.tell [.commandPrompt]).1 with input := m.taken.session.input } }

theorem prompted_of_quiet (h : m.session.alarm = none) : m.prompted = m.taken := by
  rw [prompted, Session.tell_of_alarm_none h]
  rfl

/-- A prompt reaches only the alarm and the interrupt it may give. -/
theorem prompted_eq (m : Machine) :
    ∃ alarm interrupted,
      m.prompted = { m.taken with session := { m.taken.session with alarm, interrupted } } := by
  obtain ⟨alarm, interrupted, h⟩ := m.session.tell_eq [.commandPrompt]
  refine ⟨alarm, interrupted, ?_⟩
  rw [prompted, h]
  rfl

theorem prompted_program (m : Machine) : m.prompted.session.program = m.session.program := by
  obtain ⟨alarm, interrupted, h⟩ := m.prompted_eq
  rw [h]
  rfl

theorem readCommand_eq (m : Machine) :
    m.readCommand =
      match m.session.input.commands.next.1 with
      | .line text => ((m.prompted.submit text).1, .commandPrompt :: (m.prompted.submit text).2)
      | .interrupted => (m.prompted, [.commandPrompt])
      | .endOfInput => ({ m.prompted with stage := .ended .endOfInput }, [.commandPrompt])
      | .failed message =>
        ({ m.prompted with stage := .ended (.failed message) }, [.commandPrompt]) := by
  simp only [readCommand, Session.tell_input]
  rfl

/-! ### Stepping -/

theorem steps_succ_eq (m : Machine) (n : Nat) :
    (m.steps (n + 1)).1 = (m.steps n).1.step.1 := by
  rw [steps_add, steps_succ, steps_zero]

theorem step_of_ended {e : Ending} (h : m.stage = .ended e) : m.step = (m, []) := by
  rw [step, h]

theorem step_of_running (h : m.stage = .running) : m.step = m.record m.session.pass := by
  rw [step, h]

theorem step_of_idle (h : m.stage = .idle) (hfile : m.file = {}) : m.step = m.readCommand := by
  rw [step, h, hfile]
  rfl

theorem readCommand_file (m : Machine) : m.readCommand.1.file = m.file := by
  rw [readCommand_eq]
  cases m.session.input.commands.next.1 <;> rfl

theorem step_file (hfile : m.file = {}) : m.step.1.file = {} := by
  cases h : m.stage with
  | ended e => rw [step_of_ended h, hfile]
  | running =>
      rw [step_of_running h]
      exact hfile
  | idle => rw [step_of_idle h hfile, readCommand_file, hfile]

theorem steps_file (hfile : m.file = {}) (n : Nat) : (m.steps n).1.file = {} := by
  induction n generalizing m with
  | zero => exact hfile
  | succ n ih => exact ih (step_file hfile)

theorem readCommand_sound (h : m.session.program.Sound) :
    m.readCommand.1.session.program.Sound := by
  have hp : m.prompted.session.program.Sound := m.prompted_program ▸ h
  rw [readCommand_eq]
  cases m.session.input.commands.next.1 with
  | line text => exact Session.submit_sound hp text
  | interrupted => exact hp
  | endOfInput => exact hp
  | failed message => exact hp

theorem step_sound (hfile : m.file = {}) (h : m.session.program.Sound) :
    m.step.1.session.program.Sound := by
  cases hm : m.stage with
  | ended e => rwa [step_of_ended hm]
  | running =>
      rw [step_of_running hm]
      exact Session.pass_sound h
  | idle =>
      rw [step_of_idle hm hfile]
      exact readCommand_sound h

theorem steps_sound (hfile : m.file = {}) (h : m.session.program.Sound) (n : Nat) :
    (m.steps n).1.session.program.Sound := by
  induction n generalizing m with
  | zero => exact h
  | succ n ih => exact ih (step_file hfile) (step_sound hfile h)

end LineBasic.Machine
