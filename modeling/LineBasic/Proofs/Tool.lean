import LineBasic.CommandLine.Tool
import LineBasic.Proofs.Interpreter

/-!
# Steps of the tool

The tool steps an interpreter, and so it follows the machine of that interpreter:
in a step it writes the events that the machine tells, and it finishes if one of
them is one to give up for or if the machine ends (`Tool.step_eq`).
-/

namespace LineBasic.CommandLine.Tool

variable {t : Tool} {usage : String}

def machine (t : Tool) : Machine :=
  t.interpreter.machine

def display (t : Tool) (usage : String) : Display :=
  t.interpreter.display usage

/-- The tool prints with its own printers. -/
def Standard (t : Tool) : Prop :=
  t.interpreter.work.console.printers = .standard

/-- The tool after a step, if it goes on. -/
def onward (t : Tool) (usage : String) : Tool :=
  { t with interpreter := t.interpreter.flushed.step usage }

theorem Standard.escapes (h : t.Standard) :
    t.interpreter.flushed.work.console.printers.Escapes := by
  have hp : t.interpreter.flushed.work.console.printers = .standard := h
  rw [hp]
  exact Printers.escapes_standard

theorem Standard.onward_eq (h : t.Standard) (usage : String) :
    (t.onward usage).interpreter = t.interpreter.flushed.reach usage t.machine.step :=
  Interpreter.step_eq h.escapes usage

theorem Standard.onward (h : t.Standard) (usage : String) : (t.onward usage).Standard := by
  rw [Standard, h.onward_eq]
  exact h

theorem Standard.onward_machine (h : t.Standard) (usage : String) :
    (t.onward usage).machine = t.machine.step.1 :=
  Interpreter.machine_step h.escapes usage

theorem Standard.onward_display (h : t.Standard) (usage s : String) :
    (t.onward usage).display s = t.display s := by
  rw [display, h.onward_eq]
  rfl

/-- What the tool writes in a step, and how it goes on. -/
theorem step_eq (h : t.Standard) (usage : String) :
    t.step usage =
      (Event.renderAll (t.display usage) t.machine.step.2,
        match t.machine.step.2.findSome? Event.crash? with
        | some message => .finished (.failure (Text.ofString message))
        | none =>
          match t.machine.step.1.stage with
          | .ended e => .finished (.ofEnding t.path e)
          | _ => .working (t.onward usage)) := by
  have hstep : t.interpreter.flushed.step usage = (t.onward usage).interpreter := rfl
  have hout : (t.onward usage).interpreter.work.console.out =
      Event.renderAll (t.display usage) t.machine.step.2 := by
    have hprinters : t.interpreter.work.console.printers = .standard := h
    rw [h.onward_eq]
    change [] ++ Event.renderAllWith t.interpreter.work.console.printers.dump _ _ = _
    rw [hprinters]
    rfl
  have hcrash : (t.onward usage).interpreter.work.console.crash =
      t.machine.step.2.findSome? Event.crash? := by
    rw [h.onward_eq]
    exact Option.none_or
  have hstage : (t.onward usage).interpreter.stage = t.machine.step.1.stage := by
    rw [h.onward_eq]
    rfl
  rw [step, hstep, hout, hcrash, hstage]
  cases t.machine.step.2.findSome? Event.crash? with
  | some message => rfl
  | none => cases t.machine.step.1.stage <;> rfl

/-! ### From the start -/

/-- All that the tool has written after some steps, and how it goes on.  `terminal`
says whether standard output is a terminal. -/
def run (read : Bytes → Except FileFault Bytes) (args : List Bytes) (stdin : Bytes)
    (terminal : Bool) (usage : Nat → String) (n : Nat) : Bytes × Progress :=
  match start read args stdin terminal with
  | (out, .working t) => (out ++ (t.steps usage n).1, (t.steps usage n).2)
  | (out, .finished e) => (out, .finished e)

/-- The tool ends, having written `out`. -/
def Ends (read : Bytes → Except FileFault Bytes) (args : List Bytes) (stdin : Bytes)
    (terminal : Bool) (usage : Nat → String) (out : Bytes) (exit : Exit) : Prop :=
  ∃ n, run read args stdin terminal usage n = (out, .finished exit)

section

variable {read : Bytes → Except FileFault Bytes} {args : List Bytes} {o : Options}
  {terminal : Bool} {usage : Nat → String}

theorem run_of_help {rest : List Bytes} (hargs : Options.parse {} args = .ok (o, rest))
    (ho : o.help = true) (stdin : Bytes) (n : Nat) :
    run read args stdin terminal usage n =
      (Text.ofString (CommandLine.usage ++ "\n"), .finished .success) := by
  simp only [run, start, Invocation.parse, hargs, ho, if_true]

theorem run_of_no_file (hargs : Options.parse {} args = .ok (o, [])) (ho : o.help = false)
    (stdin : Bytes) (n : Nat) :
    run read args stdin terminal usage n = (ofProgram o none {} stdin terminal).steps usage n := by
  simp [run, start, Invocation.parse, hargs, ho]

theorem run_of_file {path F : Bytes} (hargs : Options.parse {} args = .ok (o, [path]))
    (ho : o.help = false) (hread : read path = .ok F) (stdin : Bytes) (n : Nat) :
    run read args stdin terminal usage n =
      (ofProgram o (some path) (.ofBytes F) stdin terminal).steps usage n := by
  simp [run, start, Invocation.parse, hargs, ho, hread]

end

end LineBasic.CommandLine.Tool
