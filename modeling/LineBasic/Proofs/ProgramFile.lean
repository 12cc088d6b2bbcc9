import LineBasic.CommandLine.Tool
import LineBasic.Proofs.Counter
import LineBasic.Proofs.Display
import LineBasic.Proofs.Tool
import LineBasic.Proofs.Text.Lines

/-!
# Program files

A program file is entered as if it had been typed before everything else.  The
machine that enters the file and the one that reads the same lines as commands go
in step, one line or pass at a time (`Machine.Abreast`): the second one prompts
for each line, which is not shown where the output is no terminal, and it has the
rest of the file in front of its input.  That could be seen only by `INPUT`, so
none may be executed before the file has been read to its end.

A line of the file may keep carriage returns that a typed one loses, but both ask
for the same.
-/

namespace LineBasic

/-! ### Lines of a file and typed lines -/

namespace Request

theorem ofLine_eq_of_squeeze_eq {l k : Bytes} (h : Text.squeeze l = Text.squeeze k) :
    ofLine l = ofLine k := by
  have ht : Token.ofLine l = Token.ofLine k := by
    rw [← Token.ofLine_squeeze l, h, Token.ofLine_squeeze]
  simp only [ofLine, ofNumbered, ht, h]

/-- A line of a file asks for what it asks for when it is typed. -/
theorem ofLine_dropReturn (l : Bytes) :
    ofLine (Text.dropReturn l) = ofLine (Text.dropReturns l) :=
  ofLine_eq_of_squeeze_eq (by rw [Text.squeeze_dropReturn, Text.squeeze_dropReturns])

end Request

/-! ### Input that is not asked for -/

/-- The session with other input. -/
def Session.withInput (s : Session) (input : Input) : Session :=
  { s with input }

/-- The turn with other input. -/
def Turn.withInput (t : Turn) (input : Input) : Turn :=
  { t with session := t.session.withInput input }

def Stmt.isInput : Stmt → Bool
  | input _ => true
  | _ => false

/-- Only `INPUT` looks at the answers. -/
theorem Stmt.execute_answers {st : Stmt} (h : ∀ x, st ≠ .input x) (env : Env)
    (answers answers' : Source) :
    st.execute env answers' = { st.execute env answers with answers := answers' } := by
  cases st with
  | input x => exact absurd rfl (h x)
  | _ => rfl

namespace Session

variable {s : Session} {st : Stmt} {input : Input}

theorem turn_withInput (hq : s.alarm = none) (input : Input) (stage : Stage)
    (events : List Event) :
    (s.withInput input).turn stage events = (s.turn stage events).withInput input := by
  rw [turn_of_quiet hq, turn_of_quiet (s := s.withInput input) hq]
  rfl

theorem endRun_withInput (hq : s.alarm = none) (input : Input) (events : List Event) :
    (s.withInput input).endRun events = (s.endRun events).withInput input := by
  rw [endRun_of_quiet hq, endRun_of_quiet (s := s.withInput input) hq]
  rfl

theorem execution_withInput (h : ∀ x, st ≠ .input x) (input : Input) :
    (s.withInput input).execution st = { s.execution st with answers := input.answers } :=
  Stmt.execute_answers h s.env s.input.answers input.answers

theorem absorb_withInput (x : Execution) (input : Input) :
    (s.withInput input).absorb { x with answers := input.answers } =
      (s.absorb x).withInput input := by
  have hinput : (s.withInput input).input.setAnswers input.answers = input :=
    input.setAnswers_answers
  rw [absorb, hinput]
  rfl

/-- A pass that executes no `INPUT` does not look at the input. -/
theorem pass_withInput (hi : s.interrupted = false) (hq : s.alarm = none)
    (hno : ∀ n x, ¬ s.Executes n (.input x)) (input : Input) :
    (s.withInput input).pass = s.pass.withInput input := by
  let R (u u' : Session) : Prop := u' = u.withInput input ∧ u.alarm = none
  have hp : (s.withInput input).program = s.program := rfl
  have hR : R s (s.withInput input) := ⟨rfl, hq⟩
  obtain ⟨t', hpass, ht'⟩ :=
    (passes_pass hi).lockstep (Q := fun t t' => t' = t.withInput input) hp hR
      (fun n st hx => by
        have hst : ∀ x, st ≠ .input x := by
          rintro x rfl
          exact hno n x hx
        rw [execution_withInput hst]
        exact ⟨rfl, rfl, absorb_withInput _ _, hq⟩)
      (fun u u' program events h => by
        obtain ⟨rfl, hq⟩ := h
        exact turn_withInput (s := { u with program }) hq input .running events)
      (fun u u' program events h => by
        obtain ⟨rfl, hq⟩ := h
        exact endRun_withInput (s := { u with program }) hq input events)
  rw [hpass.pass_eq hi, ht']

theorem command_withInput (hq : s.alarm = none) (c : Command) (input : Input) :
    (s.withInput input).command c = (s.command c).withInput input := by
  have hprogram : (s.withInput input).program = s.program := rfl
  cases c with
  | run =>
      rw [command, command, beginRun, beginRun, hprogram]
      cases s.program.first? with
      | none => exact turn_withInput hq input _ _
      | some n =>
          exact turn_withInput (s := { s with running := true, interrupted := false, executed := 0 })
            hq input _ _
  | list =>
      rw [command, command, hprogram]
      split_ifs
      · exact turn_withInput hq input _ _
      · exact turn_withInput (s := { s with program := s.program.park }) hq input _ _
  | clear => exact turn_withInput (s := s.forget) hq input _ _
  | quit => exact turn_withInput (s := s.forget) hq input _ _
  | help => exact turn_withInput hq input _ _
  | unknown code => exact turn_withInput hq input _ _

/-- A pass that executes no `INPUT` leaves the input as it is. -/
theorem pass_input (hi : s.interrupted = false) (hq : s.alarm = none)
    (hno : ∀ n x, ¬ s.Executes n (.input x)) : s.pass.session.input = s.input := by
  have hself : s.pass = s.pass.withInput s.input := pass_withInput hi hq hno s.input
  rw [hself]
  rfl

/-- A line that is no `INPUT` does not look at the input. -/
theorem answer_withInput (hq : s.alarm = none) {q : Except Fault Request}
    (hno : ∀ x, q ≠ .ok (.execute (.input x))) (input : Input) :
    (s.withInput input).answer q = (s.answer q).withInput input := by
  have hprogram : (s.withInput input).program = s.program := rfl
  cases q with
  | error f => exact turn_withInput hq input _ _
  | ok q =>
      cases q with
      | nothing => exact turn_withInput hq input _ _
      | remove n =>
          exact turn_withInput (s := { s with program := s.program.remove n }) hq input _ _
      | store n source st =>
          rw [answer, answer, grant, grant, hprogram]
          cases s.program.store? n ⟨source, some st⟩ with
          | none =>
              exact turn_withInput (s := { s with program := s.program.rewind }) hq input _ _
          | some p => exact turn_withInput (s := { s with program := p.rewind }) hq input _ _
      | command c => exact command_withInput hq c input
      | execute st =>
          have hst : ∀ x, st ≠ .input x := by
            rintro x rfl
            exact hno x rfl
          have hinput : (s.withInput input).input.setAnswers input.answers = input :=
            input.setAnswers_answers
          rw [answer, answer, grant, grant, execution_withInput hst]
          dsimp only
          rw [hinput]
          exact turn_withInput
            (s := { s with
              env := (s.execution st).env
              input := s.input.setAnswers (s.execution st).answers }) hq input _ _

theorem submit_withInput (hq : s.alarm = none) {l k : Bytes}
    (hlk : Request.ofLine l = Request.ofLine k) (hno : ∀ x, ¬ Asks l (.execute (.input x)))
    (input : Input) : (s.withInput input).submit k = (s.submit l).withInput input := by
  rw [submit_eq_answer, submit_eq_answer, ← hlk]
  exact answer_withInput hq (fun x hx => hno x (Request.asks_of_ofLine hx)) input

theorem submit_input (hq : s.alarm = none) {l : Bytes}
    (hno : ∀ x, ¬ Asks l (.execute (.input x))) : (s.submit l).session.input = s.input := by
  have hself : s.submit l = (s.submit l).withInput s.input := submit_withInput hq rfl hno s.input
  rw [hself]
  rfl

end Session

/-! ### The file and the typed lines, side by side -/

namespace Machine

variable {m m' : Machine}

/-- Whether the next step executes `INPUT`, in a run or as a line of the file. -/
def inquires (m : Machine) : Bool :=
  match m.stage with
  | .running => (m.session.program.cursor.bind m.session.program.stmt?).any Stmt.isInput
  | .idle =>
    m.file.lines.head?.any fun l =>
      match Request.ofLine l with
      | .ok (.execute st) => st.isInput
      | _ => false
  | .ended _ => false

theorem not_executes_input (h : m.inquires = false) (hs : m.stage = .running) (n : LineNumber)
    (x : String) : ¬ m.session.Executes n (.input x) := by
  intro hx
  rw [inquires, hs] at h
  simp [hx.cursor, hx.stmt, Stmt.isInput] at h

theorem not_asks_input (h : m.inquires = false) (hs : m.stage = .idle) {l : Bytes}
    {ls : List Bytes} (hl : m.file.lines = l :: ls) (x : String) :
    ¬ Asks l (.execute (.input x)) := by
  intro hx
  rw [inquires, hs, hl] at h
  simp [Request.ofLine_of_asks hx, Stmt.isInput] at h

/-- The machine with the lines in front of its input and no file. -/
def typing (m : Machine) (ls : List Bytes) (src : Source) : Machine :=
  { m with
    session := m.session.withInput (.shared (ls.map (fun l => .line (Text.dropReturns l)) ++ src))
    file := {} }

/-- Two machines without an alarm, one of which has still to enter lines of a file
that the other one has still to read; or the same machine, when there are no such
lines. -/
inductive Abreast : Machine → Machine → Prop
  | same {m : Machine} : m.file = {} → Abreast m m
  | apart {m : Machine} {l : Bytes} {ls : List Bytes} {src : Source} :
      m.session.alarm = none → m.session.interrupted = false → m.session.input = .shared src →
      m.file = ⟨(l :: ls).map Text.dropReturn, false⟩ → Abreast m (m.typing (l :: ls) src)

/-- The two are one machine as soon as the file has been read to its end. -/
theorem abreast_typing {ls : List Bytes} {src : Source} (hq : m.session.alarm = none)
    (hi : m.session.interrupted = false) (hinput : m.session.input = .shared src)
    (hfile : m.file = ⟨ls.map Text.dropReturn, false⟩) : Abreast m (m.typing ls src) := by
  cases ls with
  | cons l ls => exact .apart hq hi hinput hfile
  | nil =>
      have hnone : m.file = {} := hfile
      have hsame : m.typing [] src = m := by
        rw [typing, Session.withInput, List.map_nil, List.nil_append, ← hinput, ← hnone]
      rw [hsame]
      exact .same hnone

/-- A pass of both machines. -/
theorem abreast_pass {ls : List Bytes} {src : Source} (hs : m.stage = .running)
    (hq : m.session.alarm = none) (hi : m.session.interrupted = false)
    (hinput : m.session.input = .shared src) (hfile : m.file = ⟨ls.map Text.dropReturn, false⟩)
    (hno : m.inquires = false) :
    Abreast m.step.1 (m.typing ls src).step.1 ∧ (m.typing ls src).step.2 = m.step.2 := by
  have hpass (input : Input) := Session.pass_withInput hi hq (not_executes_input hno hs) input
  have hkept := Session.pass_input hi hq (not_executes_input hno hs)
  obtain ⟨hq', hi'⟩ := Session.pass_quiet hq hi
  have hs' : (m.typing ls src).stage = .running := hs
  have htyped : (m.typing ls src).session.pass = _ := hpass _
  rw [step_of_running hs, step_of_running hs', htyped]
  exact ⟨abreast_typing (m := (m.record m.session.pass).1) hq' hi' (hkept.trans hinput) hfile, rfl⟩

theorem step_of_line {l : Bytes} {ls : List Bytes} (hs : m.stage = .idle)
    (hl : m.file.lines = l :: ls) :
    m.step = { m with file := { m.file with lines := ls } }.submit l := by
  obtain ⟨session, stage, lines, overlong⟩ := m
  obtain rfl : stage = .idle := hs
  obtain rfl : lines = l :: ls := hl
  rfl

/-- A line that one machine enters from the file and the other one reads. -/
theorem abreast_line {l : Bytes} {ls : List Bytes} {src : Source} (hs : m.stage = .idle)
    (hq : m.session.alarm = none) (hi : m.session.interrupted = false)
    (hinput : m.session.input = .shared src)
    (hfile : m.file = ⟨(l :: ls).map Text.dropReturn, false⟩) (hno : m.inquires = false) :
    Abreast m.step.1 (m.typing (l :: ls) src).step.1 ∧
      (m.typing (l :: ls) src).step.2 = .commandPrompt :: m.step.2 := by
  let n : Machine := { m with file := ⟨ls.map Text.dropReturn, false⟩ }
  have hlines : m.file.lines = Text.dropReturn l :: ls.map Text.dropReturn := by rw [hfile]; rfl
  have hask := not_asks_input hno hs hlines
  have hsubmit (input : Input) := Session.submit_withInput hq (Request.ofLine_dropReturn l) hask input
  have hkept := Session.submit_input hq hask
  have hstep : m.step = n.submit (Text.dropReturn l) := by
    rw [step_of_line hs hlines, hfile]
  have hread : (m.typing (l :: ls) src).step =
      (((n.typing ls src).submit (Text.dropReturns l)).1,
        .commandPrompt :: ((n.typing ls src).submit (Text.dropReturns l)).2) := by
    rw [step_of_idle (m := m.typing (l :: ls) src) hs rfl, readCommand_eq,
      prompted_of_quiet (m := m.typing (l :: ls) src) hq]
    rfl
  have htyped : (n.typing ls src).session.submit (Text.dropReturns l) = _ := hsubmit _
  rw [hstep, hread, submit, submit, htyped]
  exact ⟨abreast_typing (m := (n.record (m.session.submit (Text.dropReturn l))).1)
    (Session.submit_alarm hq _) (Session.submit_interrupted hq hi _) (hkept.trans hinput) rfl, rfl⟩

theorem Abreast.step (h : Abreast m m') (hno : m.file.lines ≠ [] → m.inquires = false) :
    Abreast m.step.1 m'.step.1 ∧
      (m'.step.2 = m.step.2 ∨ m'.step.2 = .commandPrompt :: m.step.2) := by
  cases h with
  | same hfile => exact ⟨.same (step_file hfile), .inl rfl⟩
  | @apart l ls src hq hi hinput hfile =>
      have hno := hno (by simp [hfile])
      cases hs : m.stage with
      | ended e =>
          have hs' : (m.typing (l :: ls) src).stage = .ended e := hs
          rw [step_of_ended hs, step_of_ended hs']
          exact ⟨.apart hq hi hinput hfile, .inl rfl⟩
      | running =>
          obtain ⟨habreast, hevents⟩ := abreast_pass hs hq hi hinput hfile hno
          exact ⟨habreast, .inl hevents⟩
      | idle =>
          obtain ⟨habreast, hevents⟩ := abreast_line hs hq hi hinput hfile hno
          exact ⟨habreast, .inr hevents⟩

theorem Abreast.stage_eq (h : Abreast m m') : m'.stage = m.stage := by
  cases h with
  | same => rfl
  | apart => rfl

theorem Abreast.overlong (h : Abreast m m') : m.file.overlong = false := by
  cases h with
  | same hfile => rw [hfile]
  | apart _ _ _ hfile => rw [hfile]

end Machine

/-! ### No line is too long -/

/-- Only `QUIT` ends a session. -/
theorem Session.answer_ended_iff {s : Session} {q : Except Fault Request} {e : Ending} :
    (s.answer q).stage = .ended e ↔ q = .ok (.command .quit) ∧ e = .quit := by
  have hturn (s : Session) (events : List Event) : (s.turn .idle events).stage ≠ .ended e := by
    simp [turn]
  constructor
  · intro h
    cases q with
    | error f => exact absurd h (hturn _ _)
    | ok q =>
        cases q with
        | nothing => exact absurd h (hturn _ _)
        | remove n => exact absurd h (hturn _ _)
        | execute st => exact absurd h (hturn _ _)
        | store n source st =>
            rw [answer, grant] at h
            cases hp : s.program.store? n ⟨source, some st⟩ with
            | none => exact absurd (hp ▸ h) (hturn _ _)
            | some p => exact absurd (hp ▸ h) (hturn _ _)
        | command c =>
            cases c with
            | run =>
                rw [answer, grant, command, beginRun] at h
                cases hf : s.program.first? with
                | none => exact absurd (hf ▸ h) (hturn _ _)
                | some n =>
                    rw [hf] at h
                    simp [turn] at h
            | list =>
                rw [answer, grant, command] at h
                split_ifs at h
                · exact absurd h (hturn _ _)
                · exact absurd h (hturn _ _)
            | quit => exact ⟨rfl, (Stage.ended.inj h).symm⟩
            | clear => exact absurd h (hturn _ _)
            | help => exact absurd h (hturn _ _)
            | unknown code => exact absurd h (hturn _ _)
  · rintro ⟨rfl, rfl⟩
    rfl

theorem Machine.step_stage {m : Machine} (hfile : m.file.overlong = false)
    (hs : m.stage ≠ .ended .overlongLine) : m.step.1.stage ≠ .ended .overlongLine := by
  have hsubmit (m : Machine) (l : Bytes) : (m.submit l).1.stage ≠ .ended .overlongLine := by
    rw [submit, Session.submit_eq_answer]
    intro h
    obtain ⟨-, he⟩ := Session.answer_ended_iff.1 h
    cases he
  cases hstage : m.stage with
  | ended e =>
      rw [step_of_ended hstage]
      exact hs
  | running =>
      rw [step_of_running hstage]
      have hrecord : (m.record m.session.pass).1.stage = m.session.pass.stage := rfl
      rcases m.session.pass_stage with hpass | hpass <;> simp [hrecord, hpass]
  | idle =>
      cases hl : m.file.lines with
      | cons l ls =>
          rw [step_of_line hstage hl]
          exact hsubmit _ _
      | nil =>
          have hnone : m.file = {} := by
            obtain ⟨session, stage, lines, overlong⟩ := m
            obtain rfl : lines = [] := hl
            obtain rfl : overlong = false := hfile
            rfl
          rw [step_of_idle hstage hnone, readCommand_eq]
          cases m.session.input.commands.next.1 with
          | line l => exact hsubmit _ _
          | interrupted => exact hs
          | endOfInput => simp
          | failed message => simp

/-! ### The tool -/

namespace CommandLine

theorem Exit.ofEnding_path {e : Ending} (h : e ≠ .overlongLine) (path path' : Option Bytes) :
    ofEnding path e = ofEnding path' e := by
  cases e with
  | overlongLine => exact absurd rfl h
  | _ => rfl

namespace Tool

variable {t t' : Tool}

/-- Two tools with the same switches, and no prompts among them, with machines that
are abreast of each other. -/
structure Abreast (t t' : Tool) : Prop where
  standard : t.Standard
  standard' : t'.Standard
  display : ∀ usage, t'.display usage = t.display usage
  plain : ∀ usage, (t.display usage).interactive = false
  machine : t.machine.Abreast t'.machine
  stage : t.machine.stage ≠ .ended .overlongLine

theorem renderAll_prompt {d : Display} (h : d.interactive = false) (events : List Event) :
    Event.renderAll d (.commandPrompt :: events) = Event.renderAll d events := by
  simp [Event.renderAll, Event.render, Event.renderWith, h]

/-- In a step both tools write the same, and both end in the same way or neither
does. -/
theorem Abreast.step (h : t.Abreast t')
    (hno : t.machine.file.lines ≠ [] → t.machine.inquires = false) (usage : String) :
    (∃ out e, t.step usage = (out, .finished e) ∧ t'.step usage = (out, .finished e)) ∨
      ∃ out u u', t.step usage = (out, .working u) ∧ t'.step usage = (out, .working u') ∧
        u.Abreast u' ∧ u.machine = t.machine.step.1 := by
  obtain ⟨hmachine, hevents⟩ := h.machine.step hno
  have hstage := Machine.step_stage h.machine.overlong h.stage
  have hout : Event.renderAll (t'.display usage) t'.machine.step.2 =
      Event.renderAll (t.display usage) t.machine.step.2 := by
    rw [h.display]
    rcases hevents with he | he
    · rw [he]
    · rw [he, renderAll_prompt (h.plain usage)]
  have hcrash : t'.machine.step.2.findSome? Event.crash? =
      t.machine.step.2.findSome? Event.crash? := by
    rcases hevents with he | he
    · rw [he]
    · rw [he]
      rfl
  have honward : (t.onward usage).Abreast (t'.onward usage) :=
    { standard := h.standard.onward usage
      standard' := h.standard'.onward usage
      display := fun s => by rw [h.standard.onward_display, h.standard'.onward_display, h.display]
      plain := fun s => by rw [h.standard.onward_display, h.plain]
      machine := by rwa [h.standard.onward_machine, h.standard'.onward_machine]
      stage := by rwa [h.standard.onward_machine] }
  rw [step_eq h.standard, step_eq h.standard', hout, hcrash, hmachine.stage_eq]
  cases t.machine.step.2.findSome? Event.crash? with
  | some message => exact .inl ⟨_, _, rfl, rfl⟩
  | none =>
      dsimp only
      cases hend : t.machine.step.1.stage with
      | ended e =>
          have hpath := Exit.ofEnding_path (e := e) (fun he => hstage (he ▸ hend)) t'.path t.path
          exact .inl ⟨_, _, rfl, by dsimp only; rw [hpath]⟩
      | idle =>
          exact .inr ⟨_, _, _, rfl, rfl, honward, h.standard.onward_machine usage⟩
      | running =>
          exact .inr ⟨_, _, _, rfl, rfl, honward, h.standard.onward_machine usage⟩

theorem Abreast.steps (h : t.Abreast t')
    (hno : ∀ n, (t.machine.steps n).1.file.lines ≠ [] → (t.machine.steps n).1.inquires = false)
    (usage : Nat → String) (n : Nat) :
    (t'.steps usage n).1 = (t.steps usage n).1 ∧
      ∀ e, (t'.steps usage n).2 = .finished e ↔ (t.steps usage n).2 = .finished e := by
  induction n generalizing t t' usage with
  | zero => exact ⟨rfl, by simp [Tool.steps]⟩
  | succ n ih =>
      let later (k : Nat) : String := usage (k + 1)
      rcases h.step (hno 0) (usage 0) with ⟨out, e, ht, ht'⟩ | ⟨out, u, u', ht, ht', hu, hum⟩
      · have hs : t.steps usage (n + 1) = (out, .finished e) := by simp only [Tool.steps, ht]
        have hs' : t'.steps usage (n + 1) = (out, .finished e) := by simp only [Tool.steps, ht']
        rw [hs, hs']
        exact ⟨rfl, fun _ => Iff.rfl⟩
      · have hs : t.steps usage (n + 1) = (out ++ (u.steps later n).1, (u.steps later n).2) := by
          simp only [Tool.steps, ht, later]
        have hs' : t'.steps usage (n + 1) =
            (out ++ (u'.steps later n).1, (u'.steps later n).2) := by
          simp only [Tool.steps, ht', later]
        obtain ⟨hout, hends⟩ := ih hu (fun k => by rw [hum]; exact hno (k + 1)) later
        rw [hs, hs', hout]
        exact ⟨rfl, hends⟩

/-- At the start the one tool has the whole file to enter, and the other one has it
in front of its input. -/
theorem abreast_ofProgram {F : Bytes} (hF : F = [] ∨ F.getLast? = some Text.newline)
    (hshort : ∀ l ∈ Text.lines F, l.length < 65536) (o : Options) (path S : Bytes)
    (terminal : Bool) :
    (ofProgram o (some path) (.ofBytes F) S terminal).Abreast
      (ofProgram o none {} (F ++ S) terminal) := by
  have hfile : ProgramFile.ofBytes F = ⟨(Text.lines F).map Text.dropReturn, false⟩ := by
    rw [ProgramFile.ofBytes, Text.fileLines_of_short hshort]
  have htyped : (ofProgram o none {} (F ++ S) terminal).machine =
      (ofProgram o (some path) (.ofBytes F) S terminal).machine.typing (Text.lines F)
        (.ofBytes S) := by
    simp only [ofProgram, machine, Interpreter.machine, Interpreter.session, Interpreter.new,
      Machine.typing, Session.withInput, Source.ofBytes, Text.typedLines_append hF,
      List.map_append]
    simp [Text.typedLines]
  refine ⟨rfl, rfl, fun _ => rfl, fun _ => rfl, ?_, Stage.noConfusion⟩
  rw [htyped]
  exact Machine.abreast_typing rfl rfl rfl hfile

/-- A program file that is empty or ends with a newline, has no line of 65536
bytes or more, and makes no `INPUT` to be executed while there are lines of it
left.  With any options, whether or not standard output is a terminal and whatever
there is to say about the time used, the tool that is given the file writes the same,
step for step, as the tool that is given no file but has the file in front of its
standard input; and when one of them ends so does the other one, with the same
status. -/
theorem program_file_like_typed {read : Bytes → Except FileFault Bytes} {args args' : List Bytes}
    {o : Options} {path F S : Bytes} (hargs : Options.parse {} args = .ok (o, [path]))
    (hargs' : Options.parse {} args' = .ok (o, [])) (hread : read path = .ok F)
    (hF : F = [] ∨ F.getLast? = some Text.newline)
    (hshort : ∀ l ∈ Text.lines F, l.length < 65536)
    (hno : ∀ n,
      let m := ((ofProgram o (some path) (.ofBytes F) S).machine.steps n).1
      m.file.lines ≠ [] → m.inquires = false)
    (terminal : Bool) (usage : Nat → String) :
    (∀ n, (run read args S terminal usage n).1 = (run read args' (F ++ S) terminal usage n).1) ∧
      ∀ out exit, Ends read args S terminal usage out exit ↔
        Ends read args' (F ++ S) terminal usage out exit := by
  have hrun (n : Nat) :
      (run read args S terminal usage n).1 = (run read args' (F ++ S) terminal usage n).1 ∧
        ∀ e, (run read args S terminal usage n).2 = .finished e ↔
          (run read args' (F ++ S) terminal usage n).2 = .finished e := by
    cases ho : o.help with
    | true =>
        rw [run_of_help hargs ho, run_of_help hargs' ho]
        exact ⟨rfl, fun _ => Iff.rfl⟩
    | false =>
        have habreast := abreast_ofProgram hF hshort o path S terminal
        obtain ⟨hout, hends⟩ := habreast.steps hno usage n
        rw [run_of_file hargs ho hread, run_of_no_file hargs' ho]
        exact ⟨hout.symm, fun e => (hends e).symm⟩
  refine ⟨fun n => (hrun n).1, fun out exit => ⟨?_, ?_⟩⟩
  · rintro ⟨n, hn⟩
    obtain ⟨hout, hends⟩ := hrun n
    rw [hn] at hout hends
    exact ⟨n, Prod.ext hout.symm ((hends exit).1 rfl)⟩
  · rintro ⟨n, hn⟩
    obtain ⟨hout, hends⟩ := hrun n
    rw [hn] at hout hends
    exact ⟨n, Prod.ext hout ((hends exit).2 rfl)⟩

set_option maxRecDepth 8000 in
/-- A file with two carriage returns at the end of a line, and with `QUIT`, so that
what is typed is never read. -/
theorem program_file_like_typed_quit :
    let path := Text.ofString "p"
    let F := Text.ofString "PRINT 7\r\r\nQUIT\n"
    let S := Text.ofString "PRINT 9\n"
    let read : Bytes → Except FileFault Bytes := fun _ => .ok F
    Ends read [path] S true (fun _ => "late") (Text.ofString "7\n") .success ∧
      Ends read [] (F ++ S) true (fun _ => "late") (Text.ofString "7\n") .success := by
  intro path F S read
  let l := Text.ofString "PRINT 7\r"
  let k := Text.ofString "QUIT"
  let s : Session := { input := .shared (.ofBytes S) }
  have hfile : ProgramFile.ofBytes F = ⟨[l, k], false⟩ := by decide
  have htokens : Token.ofLine l = [⟨.word, "PRINT"⟩, ⟨.number, "7"⟩] := by
    have hl : l = Text.ofString "PRINT 7" ++ [Text.carriageReturn] := by decide
    rw [hl, ← Token.ofLine_squeeze, Text.squeeze_concat_return, Token.ofLine_squeeze]
    exact Token.ofLine_spaced (by decide) (by decide)
  have hparse : Stmt.parse [⟨.word, "PRINT"⟩, ⟨.number, "7"⟩] = .ok (.print (.const 7)) := by
    decide +kernel
  have hprint : Request.ofLine l = .ok (.execute (.print (.const 7))) :=
    Request.ofLine_of_asks (.execute htokens (by decide) hparse)
  have hword : Token.ofLine k = [⟨.word, "QUIT"⟩] := Token.ofLine_spaced (by decide) (by decide)
  have hquit : Request.ofLine k = .ok (.command .quit) :=
    Request.ofLine_of_asks (.command hword (by decide))
  have hfirst : ({ session := s, file := ⟨[l, k], false⟩ } : Machine).step =
      ({ session := s, file := ⟨[k], false⟩ }, [.value 7]) := by
    rw [Machine.step_of_line rfl rfl, Machine.submit, Session.submit_eq_answer, hprint]
    rfl
  have hsecond : ({ session := s, file := ⟨[k], false⟩ } : Machine).step =
      ({ session := s, stage := .ended .quit }, []) := by
    rw [Machine.step_of_line rfl rfl, Machine.submit, Session.submit_eq_answer, hquit]
    rfl
  have hno (n : Nat) :
      let m := (({ session := s, file := .ofBytes F } : Machine).steps n).1
      m.file.lines ≠ [] → m.inquires = false := by
    rw [hfile]
    rcases n with _ | _ | n
    · simp [Machine.steps_zero, Machine.inquires, hprint, Stmt.isInput]
    · simp [Machine.steps_succ, Machine.steps_zero, hfirst, Machine.inquires, hquit]
    · simp [Machine.steps_succ, hfirst, hsecond, Machine.steps_of_ended]
  have hargs : Options.parse {} [path] = .ok ({}, [path]) := by decide +kernel
  have hargs' : Options.parse {} [] = .ok ({}, []) := rfl
  have hread : read path = .ok F := rfl
  have hends : Ends read [path] S true (fun _ => "late") (Text.ofString "7\n") .success := by
    let t : Tool := ofProgram {} (some path) (.ofBytes F) S true
    have ht : t.Standard := rfl
    have hmachine : t.machine = { session := s, file := ⟨[l, k], false⟩ } := by
      rw [← hfile]
      rfl
    have hnext : (t.onward "late").machine = { session := s, file := ⟨[k], false⟩ } := by
      rw [ht.onward_machine, hmachine, hfirst]
    have hvalue : (7 : Value).text ++ "\n" = "7\n" := by decide +kernel
    have hshown (d : Display) : Event.renderAll d [.value 7] = Text.ofString "7\n" :=
      (List.append_nil _).trans (congrArg Text.ofString hvalue)
    have hprinted : t.step "late" = (Text.ofString "7\n", .working (t.onward "late")) := by
      rw [step_eq ht, hmachine, hfirst, hshown]
      rfl
    have hended : (t.onward "late").step "late" = ([], .finished .success) := by
      rw [step_eq (ht.onward "late"), hnext, hsecond]
      rfl
    refine ⟨2, ?_⟩
    rw [run_of_file hargs rfl hread]
    simp only [Tool.steps, t, hprinted, hended, List.append_nil]
  refine ⟨hends, ?_⟩
  have htyped := program_file_like_typed hargs hargs' hread (.inr (by decide)) (by decide) hno true
    (fun _ => "late")
  exact (htyped.2 _ _).1 hends

end Tool

end CommandLine

end LineBasic
