import LineBasic.Proofs.Interpreter

/-!
# Switches

The switches of an interpreter decide what is shown of a session and in which
colour, and nothing else.  Interpreters that differ in their switches go in
lockstep with one machine, and so with each other, and what they have written are
the events of that machine, each as the switches say.

Under all switches the same is shown, faults being coloured or not, but for three
kinds of events, which have their places (`Shows`): the prompt before each command,
the dump of each statement that is stored and the statistics after each run.
-/

namespace LineBasic

namespace Machine

variable {m : Machine}

/-! ### Without an interrupt -/

theorem step_interrupted (hfile : m.file = {}) (ha : m.session.alarm = none)
    (hi : m.session.interrupted = false) : m.step.1.session.interrupted = false := by
  cases hm : m.stage with
  | ended e =>
      rw [step_of_ended hm]
      exact hi
  | running =>
      rw [step_of_running hm]
      exact (Session.pass_quiet ha hi).2
  | idle =>
      rw [step_of_idle hm hfile, readCommand_eq, prompted_of_quiet ha]
      cases m.session.input.commands.next.1 with
      | line text => exact Session.submit_interrupted (s := m.taken.session) ha hi text
      | interrupted => exact hi
      | endOfInput => exact hi
      | failed message => exact hi

/-- Where there is no alarm there is no interrupt. -/
theorem steps_interrupted (hfile : m.file = {}) (ha : m.session.alarm = none)
    (hi : m.session.interrupted = false) (n : Nat) :
    (m.steps n).1.session.interrupted = false := by
  induction n generalizing m with
  | zero => exact hi
  | succ n ih => exact ih (step_file hfile) (step_alarm ha) (step_interrupted hfile ha hi)

/-! ### Places on the display -/

/-- The machine is about to read a command, and this is the reply. -/
structure Reads (m : Machine) (r : Reply) : Prop where
  stage : m.stage = .idle
  file : m.file = {}
  reply : m.session.input.commands.next.1 = r

/-- Without an alarm, a line that is read is answered after the prompt. -/
theorem Reads.step {text : Bytes} (h : m.Reads (.line text)) (ha : m.session.alarm = none) :
    let t := m.taken.session.answer (Request.ofLine text)
    m.step = ({ m.taken with session := t.session, stage := t.stage },
      .commandPrompt :: t.events) := by
  rw [step_of_idle h.stage h.file, readCommand_eq, h.reply, prompted_of_quiet ha]
  dsimp only
  rw [submit, Session.submit_eq_answer, record]

/-- A line that begins a run: there is a program to be run. -/
def Starts (m : Machine) (text : Bytes) : Prop :=
  Asks text (.command .run) ∧ m.session.program.size ≠ 0

/-- What a step tells, by what the machine is about to do: a prompt before every
command; then the statement, if the command is a line to be stored; and the
statistics, where a run ends.  All the rest is said. -/
inductive Shows : Machine → Machine → List Event → Prop
  | ended {m : Machine} {e : Ending} : m.stage = .ended e → Shows m m []
  | noLine {m m' : Machine} {r : Reply} : m.Reads r → (∀ text, r ≠ .line text) →
      m'.stage ≠ .running → Shows m m' [.commandPrompt]
  | stored {m m' : Machine} {text source : Bytes} {n : LineNumber} {st : Stmt} :
      m.Reads (.line text) → Asks text (.store n source st) → m'.stage ≠ .running →
        Shows m m' [.commandPrompt, .entered st]
  | begun {m m' : Machine} {text : Bytes} : m.Reads (.line text) → m.Starts text →
      m'.stage = .running → Shows m m' [.commandPrompt]
  | answered {m m' : Machine} {text : Bytes} {said : List Event} : m.Reads (.line text) →
      (∀ n source st, ¬ Asks text (.store n source st)) → ¬ m.Starts text →
      m'.stage ≠ .running → Event.Said said → Shows m m' (.commandPrompt :: said)
  | passed {m m' : Machine} {said : List Event} : m.stage = .running → m'.stage = .running →
      Event.Said said → Shows m m' said
  | finished {m m' : Machine} {said : List Event} : m.stage = .running → m'.stage = .idle →
      Event.Said said → Shows m m' (said ++ [.statistics m'.session.executed])

theorem starts_iff (h : m.session.program.Consistent) {text : Bytes} :
    m.Starts text ↔
      Request.ofLine text = .ok (.command .run) ∧ m.session.program.first? ≠ none := by
  rw [Starts, Request.ofLine_eq_ok_iff, h.first?_ne_none_iff]

theorem shows_line {text : Bytes} (h : m.session.program.Consistent)
    (hr : m.Reads (.line text)) : m.Shows m.readCommand.1 m.readCommand.2 := by
  have hprogram := m.prompted_program
  have hread : m.readCommand =
      ((m.prompted.submit text).1, .commandPrompt :: (m.prompted.submit text).2) := by
    rw [readCommand_eq, hr.reply]
  rw [hread, submit, Session.submit_eq_answer, record]
  dsimp only
  rcases Session.answer_forms m.prompted.session (Request.ofLine text) with
    ⟨hq, hf⟩ | ⟨s', stage, events, hstage, hturn⟩
  · have hstarts : m.Starts text := (starts_iff h).2 ⟨hq, hprogram ▸ hf⟩
    rw [hq, Session.answer_run hf]
    exact .begun hr hstarts rfl
  · have hanswer : m.prompted.session.answer (Request.ofLine text) = _ := hturn _ _ _ _
    have hidle : (m.prompted.session.answer (Request.ofLine text)).stage ≠ .running := by
      rw [hanswer]
      exact hstage
    rcases Session.answer_events (hprogram ▸ h) (Request.ofLine text) with
      ⟨n, source, st, hq, hevents⟩ | ⟨hq, hsaid⟩
    · rw [hevents]
      exact .stored hr (Request.asks_of_ofLine hq) hidle
    · refine .answered hr ?_ ?_ hidle hsaid
      · intro n source st hasks
        exact hq n source st (Request.ofLine_of_asks hasks)
      · intro hstarts
        obtain ⟨hrun, hf⟩ := (starts_iff h).1 hstarts
        rw [hrun, Session.answer_run (hprogram ▸ hf)] at hidle
        exact hidle rfl

theorem shows_readCommand (hfile : m.file = {}) (h : m.session.program.Consistent)
    (hs : m.stage = .idle) : m.Shows m.readCommand.1 m.readCommand.2 := by
  have hprompted : m.prompted.stage = .idle := hs
  cases hr : m.session.input.commands.next.1 with
  | line text => exact shows_line h ⟨hs, hfile, hr⟩
  | interrupted =>
      rw [readCommand_eq, hr]
      exact .noLine ⟨hs, hfile, hr⟩ (by simp) (by simp [hprompted])
  | endOfInput =>
      rw [readCommand_eq, hr]
      exact .noLine ⟨hs, hfile, hr⟩ (by simp) (by simp)
  | failed message =>
      rw [readCommand_eq, hr]
      exact .noLine ⟨hs, hfile, hr⟩ (by simp) (by simp)

/-- Every step without an interrupt tells what it should. -/
theorem shows_step (hfile : m.file = {}) (h : m.session.program.Consistent)
    (hi : m.session.interrupted = false) : m.Shows m.step.1 m.step.2 := by
  cases hm : m.stage with
  | ended e =>
      rw [step_of_ended hm]
      exact .ended hm
  | idle =>
      rw [step_of_idle hm hfile]
      exact shows_readCommand hfile h hm
  | running =>
      rw [step_of_running hm]
      cases Session.passing_pass hi with
      | ends s events _ hsaid hpass =>
          have hp : m.session.pass = { s with alarm := m.session.alarm }.endRun events := hpass _
          rw [hp]
          exact .finished hm rfl hsaid
      | onward s events _ hsaid hpass =>
          have hp : m.session.pass = { s with alarm := m.session.alarm }.turn .running events :=
            hpass _
          rw [hp]
          exact .passed hm rfl hsaid

/-- Nothing that the tool gives up for has a place. -/
theorem Shows.calm {m' : Machine} {events : List Event} (h : m.Shows m' events) :
    Event.Calm events := by
  cases h with
  | ended _ => exact Event.calm_nil
  | noLine _ _ _ => simp [Event.Calm, Event.crash?]
  | stored _ _ _ => simp [Event.Calm, Event.crash?]
  | begun _ _ _ => simp [Event.Calm, Event.crash?]
  | answered _ _ _ _ hsaid => simpa [Event.Calm, Event.crash?] using hsaid.calm
  | passed _ _ hsaid => exact hsaid.calm
  | finished _ _ hsaid => exact hsaid.calm.append (by simp [Event.Calm, Event.crash?])

end Machine

/-! ### Two configurations -/

namespace Interpreter

/-- Take any printers of which the one for red writes the escape sequences, any two
configurations, whatever there is to say about the time used, and the same input
for both.  After every step the two interpreters are in the same stage, ended in the
same way or not at all, and in the same state: variables, lines with their
statements, cursor, count and input left; and it is the state of the machine, which
knows of no switches.  The machine tells a prompt for each command, a statement for
each line stored, statistics at the end of each run, and what is said; and each
output is these events one after the other, as they look under the configuration. -/
theorem switches_are_cosmetic {p : Printers} (hp : p.Escapes) (input : Input) (c c' : Config)
    (usage usage' : Nat → String) (n : Nat) :
    let x := (new p c input).steps usage n
    let y := (new p c' input).steps usage' n
    let m (k : Nat) : Machine := (({ session := { input } } : Machine).steps k).1
    x.machine = y.machine ∧ x.machine = m n ∧
      (∀ k, (m k).Shows (m (k + 1)) (m k).step.2) ∧
      x.work.console.crash = none ∧ y.work.console.crash = none ∧
      x.work.console.out = ((List.range n).flatMap fun k =>
        Event.renderAllWith p.dump { c with usage := usage k } (m k).step.2) ∧
      y.work.console.out = ((List.range n).flatMap fun k =>
        Event.renderAllWith p.dump { c' with usage := usage' k } (m k).step.2) := by
  intro x y m
  have hshows (k : Nat) : (m k).Shows (m (k + 1)) (m k).step.2 := by
    have hsound : (m k).session.program.Sound := Machine.steps_sound rfl Program.sound_empty k
    have hnext : m (k + 1) = (m k).step.1 := Machine.steps_succ_eq _ k
    rw [hnext]
    exact Machine.shows_step (Machine.steps_file rfl k) hsound.consistent
      (Machine.steps_interrupted rfl rfl rfl k)
  have hcalm (k : Nat) : Event.Calm (m k).step.2 := (hshows k).calm
  obtain ⟨hx, -, -, hxout⟩ := steps_eq (i := new p c input) hp usage n
  obtain ⟨hy, -, -, hyout⟩ := steps_eq (i := new p c' input) hp usage' n
  exact ⟨hx.trans hy.symm, hx, hshows, steps_crash (i := new p c input) hp usage hcalm n,
    steps_crash (i := new p c' input) hp usage' hcalm n, hxout, hyout⟩

set_option maxRecDepth 8000 in
/-- A line that is stored, a run of it and a line that is no command, with all
switches off and with all on. -/
theorem switches_are_cosmetic_run :
    let st : Stmt := .print (.const 7)
    let input : Input := .shared
      [.line (Text.ofString "10 PRINT 7"), .line (Text.ofString "RUN"), .line (Text.ofString "X")]
    let all : Config := { color := true, stats := true, dump := true, interactive := true }
    let x := (new .standard {} input).steps (fun _ => "soon") 6
    let y := (new .standard all input).steps (fun _ => "late") 6
    Printers.standard.Escapes ∧ x.machine = y.machine ∧ y.stage = .ended .endOfInput ∧
      y.store.executed = 1 ∧ y.store.program.size = 1 ∧
      x.work.console.out = Text.ofString "7\nSYNTAX ERROR\n" ∧
      y.work.console.out = Text.ofString ("% " ++ Dump.text st ++ "% " ++ "7\n" ++
        Statistics.report "late" 1 ++ "% " ++ "\x1b[31mSYNTAX ERROR\x1b[0m\n" ++ "% ") := by
  intro st input all x y
  let line : StoredLine := ⟨Text.squeeze (Text.ofString "10 PRINT 7"), some st⟩
  let program (cursor : Option LineNumber) : Program := ⟨⟨[(10, line)]⟩, 1, cursor⟩
  have hstore : Request.ofLine (Text.ofString "10 PRINT 7") = .ok (.store 10 line.source st) := by
    have htokens : Token.ofLine (Text.ofString "10 PRINT 7") =
        [⟨.number, "10"⟩, ⟨.word, "PRINT"⟩, ⟨.number, "7"⟩] :=
      Token.ofLine_spaced (by decide) (by decide)
    have hparse : Stmt.parse [⟨.word, "PRINT"⟩, ⟨.number, "7"⟩] = .ok st := by decide +kernel
    exact Request.ofLine_of_asks (.store htokens (by decide) hparse)
  have hrun : Request.ofLine (Text.ofString "RUN") = .ok (.command .run) := by
    have htokens : Token.ofLine (Text.ofString "RUN") = [⟨.word, "RUN"⟩] :=
      Token.ofLine_spaced (by decide) (by decide)
    exact Request.ofLine_of_asks (.command htokens (by decide))
  have hword : Request.ofLine (Text.ofString "X") = .error .syntaxError := by
    have htokens : Token.ofLine (Text.ofString "X") = [⟨.word, "X"⟩] :=
      Token.ofLine_spaced (by decide) (by decide)
    rw [Request.ofLine, htokens]
    rfl
  -- the session between the commands, with the replies that are left
  let s (left : Source) : Session := { program := program (some 10), input := .shared left }
  let replies : Source := [.line (Text.ofString "RUN"), .line (Text.ofString "X")]
  let m₀ : Machine := { session := { input } }
  let m₁ : Machine := { session := s replies }
  let m₂ : Machine := { session := { s replies.tail with running := true }, stage := .running }
  let m₃ : Machine :=
    { m₂ with session := { m₂.session with program := program none, executed := 1 } }
  let m₄ : Machine := { session := { s replies.tail with executed := 1 } }
  let m₅ : Machine := { session := { s [] with executed := 1 } }
  have h₀ : m₀.step = (m₁, [.commandPrompt, .entered st]) := by
    have hreads : m₀.Reads (.line (Text.ofString "10 PRINT 7")) := ⟨rfl, rfl, rfl⟩
    rw [hreads.step rfl, hstore]
    rfl
  have h₁ : m₁.step = (m₂, [.commandPrompt]) := by
    have hreads : m₁.Reads (.line (Text.ofString "RUN")) := ⟨rfl, rfl, rfl⟩
    rw [hreads.step rfl, hrun]
    rfl
  have h₂ : m₂.step = (m₃, [.value 7]) := rfl
  have h₃ : m₃.step = (m₄, [.statistics 1]) := rfl
  have h₄ : m₄.step = (m₅, [.commandPrompt, .fault .syntaxError]) := by
    have hreads : m₄.Reads (.line (Text.ofString "X")) := ⟨rfl, rfl, rfl⟩
    rw [hreads.step rfl, hword]
    rfl
  have h₅ : m₅.step = ({ m₅ with stage := .ended .endOfInput }, [.commandPrompt]) := rfl
  have hend : (m₀.steps 6).1 = { m₅ with stage := .ended .endOfInput } := by
    simp only [Machine.steps_succ, Machine.steps_zero, h₀, h₁, h₂, h₃, h₄, h₅]
  have htold (shown : List Event → Bytes) :
      ((List.range 6).flatMap fun k => shown (m₀.steps k).1.step.2) =
        [[.commandPrompt, .entered st], [.commandPrompt], [.value 7], [.statistics 1],
          [.commandPrompt, .fault .syntaxError], [.commandPrompt]].flatMap shown := by
    have hrange : List.range 6 = [0, 1, 2, 3, 4, 5] := rfl
    simp only [hrange, List.flatMap_cons, List.flatMap_nil, Machine.steps_succ, Machine.steps_zero,
      h₀, h₁, h₂, h₃, h₄, h₅]
  obtain ⟨hsame, hmachine, -, -, -, hx, hy⟩ := switches_are_cosmetic Printers.escapes_standard
    input {} all (fun _ => "soon") (fun _ => "late") 6
  have hmachine : y.machine = _ := hsame.symm.trans (hmachine.trans hend)
  have hvalue : (7 : Value).text = "7" := by decide +kernel
  refine ⟨Printers.escapes_standard, hsame, congrArg Machine.stage hmachine,
    congrArg (·.session.executed) hmachine, congrArg (·.session.program.size) hmachine, ?_, ?_⟩
  · rw [hx, htold]
    simp only [List.flatMap_cons, List.flatMap_nil, Event.renderAllWith, Event.renderWith,
      Display.faultLine, hvalue]
    decide
  · have hred : "\x1b[31m" ++ Fault.syntaxError.message ++ "\x1b[0m\n" =
        "\x1b[31mSYNTAX ERROR\x1b[0m\n" := by decide
    have hline : "7" ++ "\n" = "7\n" := by decide
    rw [hy, htold]
    simp only [List.flatMap_cons, List.flatMap_nil, Event.renderAllWith, Event.renderWith,
      Display.faultLine, hvalue, hred, hline, all, if_true, Text.ofString_append,
      List.append_assoc, List.append_nil]
    rfl

end Interpreter

end LineBasic
