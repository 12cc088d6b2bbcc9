import LineBasic.Interpreter.Basic
import LineBasic.Proofs.Machine
import LineBasic.Proofs.Session.Outcome

/-!
# The interpreter and its machine

An interpreter without its switches, its console and what is written there is a
machine (`Interpreter.machine`), and it follows that machine: in a step it comes
to where the machine comes to, and it writes the events that the machine tells, as
they look under its switches (`step_eq`).  The step of the machine does not know
of any switch.

Each function is followed in turn, from reporting a fault to reading a command.
A function of the interpreter writes in the middle of what it does; the function
of the session that it follows says afterwards what it would have told.
-/

namespace LineBasic

/-! ### Showing events on a console -/

namespace Console

variable {c : Console} {d : Display}

/-- The console after events have been shown on it. -/
def shown (c : Console) (d : Display) (events : List Event) : Console :=
  { c with
    out := c.out ++ Event.renderAllWith c.printers.dump d events
    crash := c.crash.or (events.findSome? Event.crash?) }

/-- The display colours as the console does, and red looks as it should. -/
structure Fits (c : Console) (d : Display) : Prop where
  escapes : c.printers.Escapes
  color : d.color = c.color

theorem shown_nil (c : Console) (d : Display) : c.shown d [] = c := by
  simp [shown, Event.renderAllWith]

theorem shown_append (c : Console) (d : Display) (es fs : List Event) :
    c.shown d (es ++ fs) = (c.shown d es).shown d fs := by
  simp [shown, Event.renderAllWith, List.findSome?_append, Option.or_assoc]

/-- What an event looks like is written, if it is not one the tool gives up for. -/
theorem write_eq {e : Event} (h : e.crash? = none) :
    c.write (e.renderWith c.printers.dump d) = c.shown d [e] := by
  simp [write, shown, Event.renderAllWith, h]

theorem report_eq (h : c.Fits d) (f : Fault) : c.report f = c.shown d [.fault f] := by
  have hline : (if c.color then c.printers.red f.message else f.message) ++ "\n" =
      d.faultLine f := by
    rw [Display.faultLine, h.color, h.escapes]
    split_ifs
    · exact String.append_assoc
    · rfl
  rw [report, hline]
  exact write_eq (e := .fault f) rfl

end Console

/-! ### Workspaces -/

namespace Workspace

variable {w : Workspace} {d : Display} {env env' : Env} {as bs : Source} {es fs : List Event}

def answers (w : Workspace) : Source :=
  w.console.input.answers

/-- Other values, other answers left, and events shown on the console. -/
def after (w : Workspace) (d : Display) (env : Env) (answers : Source) (events : List Event) :
    Workspace :=
  ⟨env, { w.console.shown d events with input := w.console.input.setAnswers answers }⟩

@[simp] theorem after_env : (w.after d env as es).env = env := rfl

@[simp] theorem after_answers : (w.after d env as es).answers = as :=
  Input.answers_setAnswers _ _

theorem fits_after (h : w.console.Fits d) : (w.after d env as es).console.Fits d :=
  ⟨h.escapes, h.color⟩

@[simp] theorem after_after :
    (w.after d env as es).after d env' bs fs = w.after d env' bs (es ++ fs) := by
  rw [after, after, after, Console.shown_append]
  simp only [Input.setAnswers_setAnswers]
  rfl

/-- Where no answer is taken, events are shown and that is all. -/
theorem after_of_answers (w : Workspace) (d : Display) (env : Env) (events : List Event) :
    w.after d env w.answers events = ⟨env, w.console.shown d events⟩ := by
  rw [after, answers, Input.setAnswers_answers]
  rfl

theorem after_nil (w : Workspace) (d : Display) (env : Env) :
    w.after d env w.answers [] = { w with env } := by
  rw [after_of_answers, Console.shown_nil]

theorem report_eq (h : w.console.Fits d) (f : Fault) :
    w.report f = w.after d w.env w.answers [.fault f] := by
  rw [after_of_answers, report, Console.report_eq h]

theorem setValue_eq (h : w.console.Fits d) (name : String) (v : Value) :
    w.setValue name v =
      match w.env.bind? name v with
      | some env => (true, w.after d env w.answers [])
      | none => (false, w.after d w.env w.answers [.fault .syntaxError]) := by
  rw [setValue, report_eq h]
  cases w.env.bind? name v with
  | some env => simp only [after_nil]
  | none => rfl

theorem say_eq (d : Display) (v : Value) :
    { w with console := w.console.say (v.text ++ "\n") } =
      w.after d w.env w.answers [.value v] := by
  rw [after_of_answers, ← Console.write_eq rfl]
  rfl

theorem readAnswer_eq (d : Display) {r : Reply} {rest : Source}
    (h : w.answers.next = (r, rest)) :
    w.readAnswer = (r, w.after d w.env rest [.inputPrompt]) := by
  have hnext : (w.console.say " ? ").input.answers.next = (r, rest) := h
  rw [after, ← Console.write_eq rfl, readAnswer, Console.readAnswer, hnext]
  rfl

end Workspace

/-! ### Expressions -/

namespace Evaluation

variable {w : Workspace} {d : Display}

/-- An evaluation, with its faults reported on the console. -/
def on (r : Evaluation) (w : Workspace) (d : Display) : (Value × Bool) × Workspace :=
  ((r.value, r.ok), w.after d r.env w.answers (r.faults.map .fault))

theorem on_success (v : Value) (w : Workspace) (d : Display) :
    (success v w.env).on w d = ((v, true), w) := by
  simp [on, success, Workspace.after_nil]

theorem on_failure (f : Fault) (h : w.console.Fits d) :
    (failure f w.env).on w d = ((0, false), w.report f) := by
  simp [on, failure, Workspace.report_eq h]

theorem on_assignTo (r : Evaluation) (name : String) (h : w.console.Fits d) :
    (r.assignTo name).on w d =
      match (r.on w d).2.setValue name (r.on w d).1.1 with
      | (true, w') => (((r.on w d).1.1, true), w')
      | (false, w') => ((0, false), w') := by
  have hfits : (r.on w d).2.console.Fits d := Workspace.fits_after h
  rw [Workspace.setValue_eq hfits, assignTo]
  simp only [on, Workspace.after_env, Workspace.after_answers, Workspace.after_after]
  cases r.env.bind? name r.value with
  | some env => simp
  | none => simp

theorem on_combine (op : Op) (a b : Evaluation) (h : w.console.Fits d) :
    (combine op a b).on w d =
      match op.apply a.value b.value with
      | .ok v => ((v, a.ok && b.ok), (b.on (a.on w d).2 d).2)
      | .error f => ((0, false), (b.on (a.on w d).2 d).2.report f) := by
  have hfits : (b.on (a.on w d).2 d).2.console.Fits d :=
    Workspace.fits_after (Workspace.fits_after h)
  rw [combine]
  cases op.apply a.value b.value with
  | ok v => simp [on]
  | error f =>
      dsimp only
      rw [Workspace.report_eq hfits]
      simp [on]

end Evaluation

namespace Expr

variable {w : Workspace} {d : Display}

/-- An expression is evaluated, and each fault is reported where it is met. -/
theorem compute_eq (e : Expr) (h : w.console.Fits d) :
    e.compute w = (e.eval w.env).on w d := by
  fun_induction Expr.compute e w with
  | case1 v w => rw [eval, Evaluation.on_success]
  | case2 x w v hx => rw [eval, hx, Evaluation.on_success]
  | case3 x w hx => rw [eval, hx, Evaluation.on_failure _ h]
  | case4 x r w a w' hset ih =>
      have ha : a = (r.eval w.env).on w d := ih h
      rw [ha] at hset ⊢
      rw [eval, Evaluation.on_assignTo _ _ h, hset]
  | case5 x r w a w' hset ih =>
      have ha : a = (r.eval w.env).on w d := ih h
      rw [ha] at hset
      rw [eval, Evaluation.on_assignTo _ _ h, hset]
  | case6 l r w hl =>
      rw [eval, Evaluation.on_failure _ h]
      exact hl
  | case7 op l r w hvar hop a b v hv ihl ihr =>
      have ha : a = (l.eval w.env).on w d := ihl h
      have hb : b = (r.eval a.2.env).on a.2 d := ihr (ha ▸ Workspace.fits_after h)
      rw [hb, ha] at hv ⊢
      have hv : op.apply (l.eval w.env).value (r.eval (l.eval w.env).env).value = .ok v := hv
      rw [eval, Evaluation.on_combine _ _ _ h, hv]
      · rfl
      · exact hvar
      · exact hop
  | case8 op l r w hvar hop a b f hf ihl ihr =>
      have ha : a = (l.eval w.env).on w d := ihl h
      have hb : b = (r.eval a.2.env).on a.2 d := ihr (ha ▸ Workspace.fits_after h)
      rw [hb, ha] at hf ⊢
      have hf : op.apply (l.eval w.env).value (r.eval (l.eval w.env).env).value = .error f := hf
      rw [eval, Evaluation.on_combine _ _ _ h, hf]
      · rfl
      · exact hvar
      · exact hop
  | case9 tag w => rw [eval, Evaluation.on_failure _ h]

end Expr

/-! ### Statements -/

/-- An execution, with its events shown on the console. -/
def Execution.on (x : Execution) (w : Workspace) (d : Display) : Action × Workspace :=
  (x.action, w.after d x.env x.answers x.events)

namespace Stmt

variable {w : Workspace} {d : Display}

/-- A line that is no number costs a prompt and a complaint. -/
theorem executeInput_of_refused {s : Bytes} {f : Fault} (h : Value.ofLine s = .error f)
    (name : String) (env : Env) (rest : Source) :
    executeInput name env (.line s :: rest) =
      { executeInput name env rest with
        events := [.inputPrompt, .fault f] ++ (executeInput name env rest).events } := by
  simp only [executeInput, Source.inquire, h, Inquiry.after]
  cases rest.inquire.value with
  | none => rfl
  | some v =>
      dsimp only
      cases env.bind? name v <;> simp

theorem inquire_eq (name : String) {src : Source} (h : w.console.Fits d)
    (hsrc : w.answers = src) :
    w.inquire name src = (executeInput name w.env src).on w d := by
  induction src generalizing w with
  | nil =>
      have hnext : w.answers.next = (.endOfInput, []) := by rw [hsrc]; rfl
      rw [Workspace.inquire, Workspace.readAnswer_eq d hnext]
      rfl
  | cons r rest ih =>
      have hnext : w.answers.next = (r, rest) := by rw [hsrc]; rfl
      have hfits : (w.after d w.env rest [.inputPrompt]).console.Fits d := Workspace.fits_after h
      rw [Workspace.inquire, Workspace.readAnswer_eq d hnext]
      cases r with
      | line s =>
          dsimp only
          cases hs : Value.ofLine s with
          | ok v =>
              dsimp only
              rw [Workspace.setValue_eq hfits]
              simp only [executeInput, Source.inquire, hs, Workspace.after_env]
              cases w.env.bind? name v with
              | some env => simp [Execution.on]
              | none => simp [Execution.on]
          | error f =>
              dsimp only
              rw [Workspace.report_eq hfits, ih (Workspace.fits_after hfits) (by simp),
                executeInput_of_refused hs]
              simp [Execution.on]
      | interrupted =>
          dsimp only
          rw [Workspace.report_eq hfits]
          simp [Execution.on, executeInput, Source.inquire]
      | endOfInput => rfl
      | failed message => rfl

theorem performLet_eq (e : Expr) (h : w.console.Fits d) :
    (.next, performLet e w) = ((assign e).execute w.env w.answers).on w d := by
  rw [performLet]
  cases hassign : e.isAssignment with
  | true => simp [hassign, execute, e.compute_eq h, Evaluation.on, Execution.on]
  | false =>
      have hobject : (w.report .syntaxError).console.Fits d := ⟨h.escapes, h.color⟩
      rw [if_neg (by simp), e.compute_eq hobject, Workspace.report_eq h]
      simp [execute, hassign, Evaluation.on, Execution.on]

theorem performPrint_eq (e : Expr) (h : w.console.Fits d) :
    (.next, performPrint e w) = ((print e).execute w.env w.answers).on w d := by
  rw [performPrint, e.compute_eq h, Evaluation.on]
  cases hok : (e.eval w.env).ok with
  | true =>
      dsimp only
      rw [Workspace.say_eq d]
      simp [execute, hok, Execution.on]
  | false => simp [execute, hok, Execution.on]

theorem performIf_eq (l : Expr) (cmp : Comparison) (r : Expr) (t : LineNumber)
    (h : w.console.Fits d) :
    performIf l cmp r t w = ((branch l cmp r t).execute w.env w.answers).on w d := by
  have hl : ((l.eval w.env).on w d).2.console.Fits d := Workspace.fits_after h
  rw [performIf, l.compute_eq h, r.compute_eq hl]
  simp only [Evaluation.on, Workspace.after_env, Workspace.after_answers, Workspace.after_after,
    execute, branchAction]
  cases cmp.holds? (l.eval w.env).value (r.eval (l.eval w.env).env).value with
  | none =>
      dsimp only
      rw [Workspace.report_eq (Workspace.fits_after h)]
      simp [Execution.on]
  | some holds => cases holds <;> simp [Execution.on]

/-- A statement is executed, and what it tells is written as it goes. -/
theorem perform_eq (st : Stmt) (h : w.console.Fits d) :
    st.perform w = (st.execute w.env w.answers).on w d := by
  cases st with
  | remark => exact congrArg _ (w.after_nil d w.env).symm
  | stop => exact congrArg _ (w.after_nil d w.env).symm
  | jump t => exact congrArg _ (w.after_nil d w.env).symm
  | malformed tag => exact congrArg _ (w.report_eq h .syntaxError)
  | assign e => exact performLet_eq e h
  | print e => exact performPrint_eq e h
  | input x => exact inquire_eq x h rfl
  | branch l cmp r t => exact performIf_eq l cmp r t h

end Stmt

/-! ### Machines without an alarm -/

namespace Machine

variable {m : Machine}

theorem readCommand_alarm (h : m.session.alarm = none) :
    m.readCommand.1.session.alarm = none := by
  rw [readCommand_eq, prompted_of_quiet h]
  cases m.session.input.commands.next.1 with
  | line text => exact Session.submit_alarm (s := m.taken.session) h text
  | interrupted => exact h
  | endOfInput => exact h
  | failed message => exact h

theorem step_alarm (h : m.session.alarm = none) : m.step.1.session.alarm = none := by
  rw [step]
  cases m.stage with
  | ended e => exact h
  | running => exact Session.pass_alarm h
  | idle =>
      dsimp only
      cases m.file.lines with
      | cons text rest => exact Session.submit_alarm h text
      | nil =>
          dsimp only
          split_ifs
          · exact h
          · exact readCommand_alarm h

end Machine

/-! ### The machine of an interpreter -/

namespace Interpreter

variable {i : Interpreter} {m : Machine} {usage : String}

def session (i : Interpreter) : Session where
  env := i.work.env
  program := i.store.program
  input := i.work.console.input
  running := i.store.running
  interrupted := i.store.interrupted
  executed := i.store.executed

/-- All of an interpreter but its switches and its output. -/
def machine (i : Interpreter) : Machine :=
  ⟨i.session, i.stage, i.file⟩

/-- What the interpreter shows, by the switches where they are looked at. -/
def display (i : Interpreter) (usage : String) : Display where
  color := i.work.console.color
  stats := i.store.stats
  dump := i.store.dump
  interactive := i.config.interactive
  usage

/-- The interpreter, come to where a machine is and having shown events. -/
def reach (i : Interpreter) (usage : String) (x : Machine × List Event) : Interpreter where
  config := i.config
  work := ⟨x.1.session.env,
    { i.work.console.shown (i.display usage) x.2 with input := x.1.session.input }⟩
  store := { i.store with
    program := x.1.session.program
    running := x.1.session.running
    interrupted := x.1.session.interrupted
    executed := x.1.session.executed }
  stage := x.1.stage
  file := x.1.file

theorem reach_self (i : Interpreter) (usage : String) : i.reach usage (i.machine, []) = i := by
  rw [reach, Console.shown_nil]
  rfl

theorem reach_reach (i : Interpreter) (usage : String) (x y : Machine × List Event) :
    (i.reach usage x).reach usage y = i.reach usage (y.1, x.2 ++ y.2) := by
  simp only [reach, Console.shown_append]
  rfl

theorem machine_reach (h : m.session.alarm = none) (events : List Event) :
    (i.reach usage (m, events)).machine = m := by
  obtain ⟨⟨env, program, input, running, interrupted, executed, alarm⟩, stage, file⟩ := m
  obtain rfl : alarm = none := h
  rfl

/-! ### Single operations -/

/-- A text is said that is how an event looks. -/
theorem say_eq {e : Event} {s : String} (hc : e.crash? = none)
    (hs : e.renderWith i.work.console.printers.dump (i.display usage) = Text.ofString s) :
    i.say s = i.reach usage (i.machine, [e]) := by
  rw [say, Console.say, ← hs, Console.write_eq hc]
  rfl

/-- An event that is not shown leaves the interpreter as it is. -/
theorem reach_unseen {e : Event} (hc : e.crash? = none)
    (hs : e.renderWith i.work.console.printers.dump (i.display usage) = []) :
    i.reach usage (i.machine, [e]) = i := by
  have hshown : i.work.console.shown (i.display usage) [e] = i.work.console := by
    simp [Console.shown, Event.renderAllWith, hs, hc]
  rw [reach, hshown]
  rfl

theorem report_eq (h : i.work.console.printers.Escapes) (usage : String) (f : Fault) :
    i.report f = i.reach usage (i.machine, [.fault f]) := by
  have hfits : i.work.console.Fits (i.display usage) := ⟨h, rfl⟩
  rw [report, Workspace.report, Console.report_eq hfits]
  rfl

theorem fatal_eq (i : Interpreter) (usage : String) (n : LineNumber) :
    i.fatal n.takenMessage = i.reach usage (i.machine, [.duplicate n]) := by
  simp [fatal, Console.fatal, reach, Console.shown, Event.renderAllWith, Event.renderWith,
    Event.crash?, machine, session]

theorem trace_eq (i : Interpreter) (usage : String) (st : Stmt) :
    i.trace st = i.reach usage (i.machine, [.entered st]) := by
  rw [trace]
  split_ifs with hd
  · exact say_eq rfl (if_pos hd)
  · symm
    exact reach_unseen rfl (if_neg hd)

theorem printStatistics_eq (i : Interpreter) (usage : String) :
    i.printStatistics usage = i.reach usage (i.machine, [.statistics i.store.executed]) := by
  rw [printStatistics]
  split_ifs with hd
  · exact say_eq rfl (if_pos hd)
  · symm
    exact reach_unseen rfl (if_neg hd)

theorem withProgram_eq (i : Interpreter) (usage : String) (p : Program) :
    i.withProgram p =
      i.reach usage ({ i.machine with session := { i.session with program := p } }, []) := by
  rw [reach, Console.shown_nil]
  rfl

theorem reach_withProgram (x : Machine × List Event) (p : Program) :
    (i.reach usage x).withProgram p =
      i.reach usage ({ x.1 with session := { x.1.session with program := p } }, x.2) := rfl

theorem enterLine_eq (h : i.work.console.printers.Escapes) (usage : String) (n : LineNumber)
    (text : Bytes) (tail : List Token) :
    i.enterLine n text tail =
      i.reach usage ({ i.machine with session := (i.session.enterLine n text tail).1 },
        (i.session.enterLine n text tail).2) := by
  rw [enterLine, Session.enterLine]
  split_ifs with htail
  · rw [Session.tell_of_alarm_none rfl]
    exact withProgram_eq i usage _
  · cases Stmt.parse tail with
    | error f =>
        dsimp only
        rw [Session.tell_of_alarm_none rfl]
        exact report_eq h usage f
    | ok st =>
        have hprogram : (i.trace st).store.program = i.session.program := by
          rw [trace_eq i usage]
          rfl
        dsimp only
        rw [hprogram]
        cases i.session.program.store? n ⟨Text.squeeze text, some st⟩ with
        | some p =>
            dsimp only
            rw [Session.tell_of_alarm_none rfl, trace_eq i usage, reach_withProgram]
            rfl
        | none =>
            dsimp only
            rw [Session.tell_of_alarm_none rfl, fatal_eq _ usage, trace_eq i usage, reach_reach,
              reach_withProgram]
            rfl

/-- A turn that leaves the stage as it is. -/
theorem record_turn {s : Session} {stage : Stage} (hm : m.stage = stage) (h : s.alarm = none)
    (events : List Event) :
    m.record (s.turn stage events) = ({ m with session := s }, events) := by
  rw [Session.turn_of_quiet h, Machine.record, ← hm]

/-- A line is refused with a report. -/
theorem report_eq_record (h : i.work.console.printers.Escapes) (hs : i.stage = .idle)
    (usage : String) (f : Fault) :
    i.report f = i.reach usage (i.machine.record (i.session.turn .idle [.fault f])) := by
  rw [record_turn hs rfl]
  exact report_eq h usage f

/-! ### Running -/

theorem beginRun_eq (hs : i.stage = .idle) (usage : String) :
    i.beginRun = i.reach usage (i.machine.record i.session.beginRun) := by
  rw [beginRun, Session.beginRun]
  have hprogram : i.session.program = i.store.program := rfl
  rw [hprogram]
  cases i.store.program.first? with
  | none =>
      dsimp only
      rw [record_turn hs rfl]
      exact (i.reach_self usage).symm
  | some n =>
      dsimp only
      rw [Session.turn_of_quiet rfl, Machine.record, reach, Console.shown_nil]
      rfl

/-- The end of a run after events that have been shown. -/
theorem reach_endRun (hm : m.session.alarm = none) (events : List Event) :
    (i.reach usage (m, events)).endRun usage =
      i.reach usage (m.record (m.session.endRun events)) := by
  rw [endRun, Session.endRun_of_quiet hm, reach_withProgram, printStatistics_eq, reach_reach]
  rfl

theorem executeLine_eq (h : i.work.console.printers.Escapes) (hs : i.stage = .running)
    (usage : String) (st : Stmt) :
    i.executeLine usage st = i.reach usage (i.machine.record (i.session.executeLine st)) := by
  have hfits : i.work.console.Fits (i.display usage) := ⟨h, rfl⟩
  let x := i.session.execution st
  let absorbed : Machine := { i.machine with session := i.session.absorb x }
  have hdone : { i with
      work := (st.perform i.work).2
      store := { i.store with executed := i.store.executed + 1 } } =
        i.reach usage (absorbed, x.events) := by
    rw [st.perform_eq hfits]
    rfl
  have haction : (st.perform i.work).1 = x.action := by
    rw [st.perform_eq hfits]
    rfl
  simp only [executeLine, haction, hdone]
  cases hx : x.action with
  | halt =>
      rw [Session.executeLine_of_halt hx]
      exact reach_endRun rfl x.events
  | next =>
      rw [Session.executeLine_of_next hx, record_turn hs rfl]
  | jump t =>
      cases ht : i.store.program.line? t with
      | some l =>
          have hsome : (i.store.program.line? t).isSome := by simp [ht]
          rw [Session.executeLine_of_jump hx hsome, record_turn hs rfl]
          simp only [Program.moveTo?_eq_some hsome]
          rfl
      | none =>
          rw [Session.executeLine_of_jump_missing hx ht, record_turn hs rfl]
          simp only [Program.moveTo?_eq_none_iff.2 ht]
          rw [report_eq (i := i.reach usage (absorbed, x.events)) h usage, reach_reach]
          rfl

theorem pass_eq (h : i.work.console.printers.Escapes) (hs : i.stage = .running)
    (usage : String) : i.pass usage = i.reach usage (i.machine.record i.session.pass) := by
  rw [pass]
  cases hi : i.store.interrupted with
  | true =>
      have hcheck : i.checkInterrupts = (true, i.checkInterrupts.2) := by
        rw [← hi]
        rfl
      rw [hcheck, Session.pass_of_interrupted hi]
      dsimp only
      rw [report_eq (i := i.checkInterrupts.2) h usage]
      exact reach_endRun (i := i.checkInterrupts.2) rfl [.fault .interrupted]
  | false =>
      have hcheck : i.checkInterrupts = (false, i) := by
        rw [checkInterrupts, ← hi]
      let j := i.withProgram i.store.program.advance.2
      have hj : j = i.reach usage ({ i.machine with session := i.session.advanced }, []) :=
        withProgram_eq i usage _
      have hend : j.endRun usage =
          i.reach usage (i.machine.record (i.session.advanced.endRun [])) := by
        rw [hj]
        exact reach_endRun rfl []
      have honward :
          j = i.reach usage (i.machine.record (i.session.advanced.turn .running [])) := by
        rw [hj, record_turn hs rfl]
      rw [hcheck]
      cases hc : i.store.program.cursor with
      | none =>
          have hadvance : i.store.program.advance = (none, i.store.program.advance.2) := by
            rw [Program.advance, hc]
          rw [Session.pass_of_cursor_none hi hc, ← hend]
          dsimp only
          rw [hadvance]
      | some n =>
          have hadvance : i.store.program.advance = (some n, i.store.program.advance.2) := by
            rw [Program.advance, hc]
          have hstmt : i.store.program.advance.2.stmt? n = i.session.program.stmt? n := rfl
          rw [Session.pass_of_cursor_some hi hc]
          dsimp only
          rw [hadvance]
          dsimp only
          rw [hstmt]
          cases i.session.program.stmt? n with
          | none => exact honward
          | some st =>
              cases st with
              | remark => exact honward
              | stop => exact hend
              | _ => exact executeLine_eq (i := j) h hs usage _

/-! ### Lines -/

theorem list_eq (i : Interpreter) (usage : String) :
    i.list = i.reach usage (i.machine, Session.listing i.store.program) := by
  have hcrash : (Session.listing i.store.program).findSome? Event.crash? = none := by
    rw [List.findSome?_eq_none_iff]
    intro e he
    obtain ⟨l, -, rfl⟩ := List.mem_map.1 he
    rfl
  have hshown : i.work.console.shown (i.display usage) (Session.listing i.store.program) =
      i.work.console.write (i.store.program.toList.flatMap fun l => l.2 ++ [Text.newline]) := by
    rw [Console.shown, hcrash]
    simp [Console.write, Event.renderAllWith, Session.listing, List.flatMap_map, Event.renderWith]
  rw [reach, hshown]
  rfl

theorem command_eq (h : i.work.console.printers.Escapes) (hs : i.stage = .idle)
    (usage : String) (c : Command) :
    i.command c = i.reach usage (i.machine.record (i.session.command c)) := by
  cases c with
  | run => exact beginRun_eq hs usage
  | list =>
      have hempty : i.session.program.isEmpty = i.store.program.isEmpty := rfl
      rw [command, Session.command, hempty]
      split_ifs
      · rw [record_turn hs rfl]
        exact (i.reach_self usage).symm
      · rw [record_turn hs rfl, list_eq i usage]
        rfl
  | clear =>
      rw [Session.command, record_turn hs rfl, reach, Console.shown_nil]
      rfl
  | quit =>
      rw [Session.command, Session.turn_of_quiet rfl, Machine.record, reach, Console.shown_nil]
      rfl
  | help =>
      rw [Session.command, record_turn hs rfl]
      exact say_eq rfl rfl
  | unknown code => exact report_eq_record h hs usage .syntaxError

theorem numberedLine_eq (h : i.work.console.printers.Escapes) (hs : i.stage = .idle)
    (usage : String) (text : Bytes) (numeral : String) (tail : List Token) :
    i.numberedLine text numeral tail =
      i.reach usage (i.machine.record (i.session.numberedLine text numeral tail)) := by
  rw [numberedLine, Session.numberedLine]
  cases LineNumber.ofNumeral numeral with
  | ok n =>
      dsimp only
      rw [enterLine_eq h usage, Machine.record, ← hs]
      rfl
  | error f => exact report_eq_record h hs usage f

theorem immediate_eq (h : i.work.console.printers.Escapes) (hs : i.stage = .idle)
    (usage : String) (ts : List Token) :
    i.immediate ts = i.reach usage (i.machine.record (i.session.immediate ts)) := by
  rw [immediate, Session.immediate]
  cases Stmt.parse ts with
  | ok st =>
      have hfits : i.work.console.Fits (i.display usage) := ⟨h, rfl⟩
      dsimp only
      rw [st.perform_eq hfits, Session.execute, Session.tell_of_alarm_none rfl, Machine.record,
        ← hs]
      rfl
  | error f => exact report_eq_record h hs usage f

/-- A line without a number is taken by the interpreter as by its session. -/
theorem unnumbered_eq (h : i.work.console.printers.Escapes) (hs : i.stage = .idle)
    (usage : String) (t : Token) (ts : List Token) :
    (match (Command.read (t :: ts)).1 with
      | some (.ok c) => i.command c
      | some (.error f) => i.report f
      | none =>
        if t.kind = .word ∧ t.text ∈ Session.immediateWords then i.immediate (t :: ts)
        else i.report .syntaxError) =
      i.reach usage (i.machine.record (i.session.answer (Request.ofUnnumbered t ts))) := by
  rw [← Session.unnumbered_eq_answer]
  cases (Command.read (t :: ts)).1 with
  | none =>
      dsimp only
      split_ifs
      · exact immediate_eq h hs usage _
      · exact report_eq_record h hs usage _
  | some c =>
      cases c with
      | error f => exact report_eq_record h hs usage f
      | ok c => exact command_eq h hs usage c

theorem processLine_eq (h : i.work.console.printers.Escapes) (hs : i.stage = .idle)
    (usage : String) (text : Bytes) :
    i.processLine text = i.reach usage (i.machine.submit text) := by
  rw [processLine, Machine.submit, Session.submit_eq_answer, Request.ofLine]
  cases Token.ofLine text with
  | nil =>
      dsimp only
      rw [Session.answer, Session.grant, record_turn hs rfl]
      exact (i.reach_self usage).symm
  | cons t ts =>
      obtain ⟨kind, w⟩ := t
      cases kind with
      | number =>
          dsimp only
          rw [numberedLine_eq h hs usage, Session.numberedLine_eq_answer]
          rfl
      | word => exact unnumbered_eq h hs usage ⟨.word, w⟩ ts
      | operator => exact unnumbered_eq h hs usage ⟨.operator, w⟩ ts

/-! ### The loop -/

/-- The prompt is written or not, and the reply is taken. -/
theorem console_readCommand_eq (i : Interpreter) (usage : String) :
    i.work.console.readCommand (if i.config.interactive then "% " else "") =
      (i.session.input.commands.next.1,
        (i.reach usage (i.machine.taken, [.commandPrompt])).work.console) := by
  have hprompt : i.work.console.say (if i.config.interactive then "% " else "") =
      i.work.console.shown (i.display usage) [.commandPrompt] := by
    have hempty : Text.ofString "" = [] := rfl
    rw [← Console.write_eq rfl, Console.say, Event.renderWith]
    cases hi : i.config.interactive with
    | true => simp [display, hi]
    | false => simp [display, hi, hempty]
  rw [Console.readCommand, hprompt]
  rfl

theorem readCommand_eq (h : i.work.console.printers.Escapes) (hs : i.stage = .idle)
    (usage : String) : i.readCommand = i.reach usage i.machine.readCommand := by
  let j := i.reach usage (i.machine.taken, [.commandPrompt])
  have hnext : i.machine.session.input.commands.next = i.session.input.commands.next := rfl
  have hj : { i with work := { i.work with console := j.work.console } } = j := rfl
  rw [readCommand, console_readCommand_eq i usage, Machine.readCommand_eq,
    Machine.prompted_of_quiet rfl, hnext]
  dsimp only
  rw [hj]
  cases i.session.input.commands.next.1 with
  | line text =>
      have hline := processLine_eq (i := j) h hs usage text
      rw [machine_reach rfl, reach_reach] at hline
      exact hline
  | interrupted => rfl
  | endOfInput => rfl
  | failed message => rfl

/-- The interpreter comes to where its machine comes to, and writes what its
machine tells. -/
theorem step_eq (h : i.work.console.printers.Escapes) (usage : String) :
    i.step usage = i.reach usage i.machine.step := by
  rw [step, Machine.step]
  have hstage : i.machine.stage = i.stage := rfl
  have hfile : i.machine.file = i.file := rfl
  rw [hstage, hfile]
  cases hs : i.stage with
  | ended e => exact (i.reach_self usage).symm
  | running => exact pass_eq h hs usage
  | idle =>
      dsimp only
      cases hl : i.file.lines with
      | cons text rest =>
          let j : Interpreter := { i with stage := .idle, file := { i.file with lines := rest } }
          exact processLine_eq (i := j) h rfl usage text
      | nil =>
          dsimp only
          split_ifs
          · rw [reach, Console.shown_nil]
            rfl
          · exact readCommand_eq h hs usage

theorem machine_step (h : i.work.console.printers.Escapes) (usage : String) :
    (i.step usage).machine = i.machine.step.1 := by
  rw [step_eq h]
  exact machine_reach (Machine.step_alarm rfl) _

/-- All that the interpreter has come to after so many steps, it has come to with its
machine, and nothing but what is shown depends on the switches. -/
theorem steps_eq (h : i.work.console.printers.Escapes) (usage : Nat → String) (n : Nat) :
    (i.steps usage n).machine = (i.machine.steps n).1 ∧
      (i.steps usage n).work.console.printers = i.work.console.printers ∧
      (∀ s, (i.steps usage n).display s = i.display s) ∧
      (i.steps usage n).work.console.out = i.work.console.out ++
        (List.range n).flatMap fun k =>
          Event.renderAllWith i.work.console.printers.dump (i.display (usage k))
            (i.machine.steps k).1.step.2 := by
  induction n with
  | zero => exact ⟨rfl, rfl, fun _ => rfl, by simp [steps]⟩
  | succ n ih =>
      obtain ⟨hmachine, hprinters, hdisplay, hout⟩ := ih
      have hescapes : (i.steps usage n).work.console.printers.Escapes := hprinters ▸ h
      have hstep : i.steps usage (n + 1) =
          (i.steps usage n).reach (usage n) (i.machine.steps n).1.step := by
        rw [steps, step_eq hescapes, hmachine]
      refine ⟨?_, ?_, ?_, ?_⟩
      · rw [steps, machine_step hescapes, hmachine, Machine.steps_succ_eq]
      · rw [hstep]
        exact hprinters
      · intro s
        rw [hstep]
        exact hdisplay s
      · rw [hstep, List.range_succ, List.flatMap_append, List.flatMap_singleton,
          ← List.append_assoc, ← hout, ← hprinters, ← hdisplay]
        rfl

/-- As long as nothing is told that the tool gives up for, there is no message about
it. -/
theorem steps_crash (h : i.work.console.printers.Escapes) (usage : Nat → String)
    (hcalm : ∀ k, Event.Calm (i.machine.steps k).1.step.2) (n : Nat) :
    (i.steps usage n).work.console.crash = i.work.console.crash := by
  induction n with
  | zero => rfl
  | succ n ih =>
      obtain ⟨hmachine, hprinters, -⟩ := steps_eq h usage n
      have hescapes : (i.steps usage n).work.console.printers.Escapes := hprinters ▸ h
      have hcrash : (i.steps usage n).work.console.crash.or none = i.work.console.crash := by
        rw [Option.or_none, ih]
      rw [steps, step_eq hescapes, hmachine, ← hcrash, ← (hcalm n).findSome?]
      rfl

end Interpreter

end LineBasic
