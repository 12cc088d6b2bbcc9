import LineBasic.Proofs.ProgramFile

/-!
# How sessions end

A session gives up when a line is put where there is one already, and only there
(`Event.crash?`).  Lines that are entered are looked up before they are put
anywhere, and the lookup is right as long as the store is consistent.  So nothing
that a user can do tells an event that ends the tool (`Session.Told.calm`).

What is left are the two ends that are no failures.  The input is only ever used
up from its front, by the command loop and by `INPUT`, so that a machine that
reads standard input meets lines and then the end (`Machine.Typed.step_ended`).
-/

namespace LineBasic

open Event (Calm calm_nil)

namespace Session

variable {s : Session}

/-! ### What is told -/

theorem calm_answer (h : s.program.Consistent) (q : Except Fault Request) :
    Calm (s.answer q).events := by
  rcases answer_events h q with ⟨n, source, st, -, he⟩ | ⟨-, hsaid⟩
  · rw [he]
    simp [Calm, Event.crash?]
  · exact hsaid.calm

theorem calm_submit (h : s.program.Consistent) (text : Bytes) : Calm (s.submit text).events := by
  rw [submit_eq_answer]
  exact calm_answer h _

theorem calm_endRun (s : Session) {events : List Event} (h : Calm events) :
    Calm (s.endRun events).events := by
  refine h.append ?_
  simp [Calm, Event.crash?]

theorem calm_pass (s : Session) : Calm s.pass.events := by
  cases hi : s.interrupted with
  | true =>
      rw [pass_of_interrupted hi]
      exact calm_endRun _ (Event.said_fault _).calm
  | false =>
      cases passing_pass hi with
      | ends s' events _ hsaid hpass =>
          have hp : s.pass = { s' with alarm := s.alarm }.endRun events := hpass s.alarm
          rw [hp]
          exact calm_endRun _ hsaid.calm
      | onward s' events _ hsaid hpass =>
          have hp : s.pass = { s' with alarm := s.alarm }.turn .running events := hpass s.alarm
          rw [hp]
          exact hsaid.calm

/-- Of all operations on the program, only one puts a line without looking. -/
theorem calm_perform (h : s.program.Consistent) {o : Operation} (ho : ∀ n l, o ≠ .insert n l) :
    Calm (s.perform o).events := by
  have hreplaced (p : Option Program) : Calm (s.replaced p).events := by
    cases p with
    | none => exact calm_nil
    | some p => exact calm_nil
  cases o with
  | insert n l => exact absurd rfl (ho n l)
  | enter n text tail =>
      cases tail with
      | nil =>
          rw [perform, enterLine_nil]
          exact calm_nil
      | cons t ts =>
          cases ht : Stmt.parse (t :: ts) with
          | error f =>
              rw [perform, enterLine_error (by simp) ht]
              exact (Event.said_fault f).calm
          | ok st =>
              obtain ⟨p, -, -, -, he⟩ := enterLine_ok h ht n text
              rw [perform, he]
              simp [Calm, Event.crash?]
  | remove n => exact hreplaced _
  | setStmt n stmt => exact hreplaced _
  | erase => exact hreplaced _
  | moveTo n => exact hreplaced _
  | advance => exact hreplaced _
  | park => exact hreplaced _
  | rewind => exact hreplaced _

/-- What has been told in a session since it was new, by lines, commands, passes
and operations on the program that look before they put a line.  In between all
but the program may change in any way: an interrupt comes, a variable is set, the
input is another one. -/
inductive Told : Session → Stage → List Event → Prop
  | start (s : Session) : Told { s with program := .empty } .idle []
  | perform {s : Session} {stage : Stage} {events : List Event} (o : Operation) :
      Told s stage events → stage ≠ .running → (∀ n l, o ≠ .insert n l) →
        Told (s.perform o).session stage (events ++ (s.perform o).events)
  | command {s : Session} {stage : Stage} {events : List Event} (c : Command) :
      Told s stage events → stage ≠ .running →
        Told (s.command c).session (s.command c).stage (events ++ (s.command c).events)
  | submit {s : Session} {stage : Stage} {events : List Event} (text : Bytes) :
      Told s stage events → stage ≠ .running →
        Told (s.submit text).session (s.submit text).stage (events ++ (s.submit text).events)
  | pass {s : Session} {events : List Event} : Told s .running events →
      Told s.pass.session s.pass.stage (events ++ s.pass.events)
  | aside {s s' : Session} {stage : Stage} {events : List Event} : Told s stage events →
      s'.program = s.program → Told s' stage events

theorem Told.sound {stage : Stage} {events : List Event} (h : Told s stage events) :
    s.program.Sound := by
  induction h with
  | start s => exact Program.sound_empty
  | perform o _ _ _ ih => exact perform_sound ih o
  | command c _ _ ih => exact command_sound ih c
  | submit text _ _ ih => exact submit_sound ih text
  | pass _ ih => exact pass_sound ih
  | aside _ hp ih => exact hp ▸ ih

theorem Told.calm {stage : Stage} {events : List Event} (h : Told s stage events) :
    Calm events := by
  induction h with
  | start s => exact calm_nil
  | perform o htold _ ho ih => exact ih.append (calm_perform htold.sound.consistent ho)
  | command c _ _ ih => exact ih.append (said_command _ c).calm
  | submit text htold _ ih => exact ih.append (calm_submit htold.sound.consistent text)
  | pass _ ih => exact ih.append (calm_pass _)
  | aside _ _ ih => exact ih

end Session

/-! ### Using up the input -/

theorem Source.inquire_answers_suffix (src : Source) : src.inquire.answers <:+ src := by
  fun_induction Source.inquire src with
  | case1 => exact List.suffix_rfl
  | case3 s src f _ ih => exact ih.trans (List.suffix_cons _ _)
  | _ => exact List.suffix_cons _ _

/-- A statement takes answers from the front. -/
theorem Stmt.execute_answers_suffix (st : Stmt) (env : Env) (answers : Source) :
    (st.execute env answers).answers <:+ answers := by
  cases st with
  | input x =>
      have hq := answers.inquire_answers_suffix
      rw [execute, executeInput]
      split
      · exact hq
      · split
        · exact hq
        · exact hq
  | _ => exact List.suffix_rfl

namespace Session

variable {s : Session} {src : Source}

theorem turn_input (s : Session) (stage : Stage) (events : List Event) :
    (s.turn stage events).session.input = s.input := by simp [turn]

theorem endRun_input (s : Session) (events : List Event) :
    (s.endRun events).session.input = s.input := by simp [endRun]

/-- The session reads from one source, and what is left there is at the end of
`src`. -/
def ReadsFrom (s : Session) (src : Source) : Prop :=
  ∃ rest, s.input = .shared rest ∧ rest <:+ src

theorem ReadsFrom.of_input_eq {s' : Session} (h : s.ReadsFrom src) (hi : s'.input = s.input) :
    s'.ReadsFrom src := by
  obtain ⟨rest, hs, hrest⟩ := h
  exact ⟨rest, hi.trans hs, hrest⟩

theorem ReadsFrom.turn (h : s.ReadsFrom src) (stage : Stage) (events : List Event) :
    (s.turn stage events).session.ReadsFrom src :=
  h.of_input_eq (turn_input s stage events)

/-- What a statement leaves of the answers comes after what was there. -/
theorem ReadsFrom.setAnswers {s' : Session} (h : s.ReadsFrom src) (st : Stmt)
    (hi : s'.input = s.input.setAnswers (s.execution st).answers) : s'.ReadsFrom src := by
  obtain ⟨rest, hs, hrest⟩ := h
  have hleft := st.execute_answers_suffix s.env s.input.answers
  rw [hs] at hi hleft
  refine ⟨(s.execution st).answers, hi, ?_⟩
  rw [execution, hs]
  exact hleft.trans hrest

theorem ReadsFrom.answer (h : s.ReadsFrom src) (q : Except Fault Request) :
    (s.answer q).session.ReadsFrom src := by
  cases q with
  | error f => exact h.turn _ _
  | ok q =>
      cases q with
      | nothing => exact h.turn _ _
      | remove n => exact h.of_input_eq (turn_input _ _ _)
      | store n source st =>
          rw [Session.answer, grant]
          cases s.program.store? n ⟨source, some st⟩ with
          | none => exact h.of_input_eq (turn_input _ _ _)
          | some p => exact h.of_input_eq (turn_input _ _ _)
      | execute st => exact h.setAnswers st (turn_input _ _ _)
      | command c =>
          cases c with
          | run =>
              rw [Session.answer, grant, command, beginRun]
              cases s.program.first? with
              | none => exact h.turn _ _
              | some n => exact h.of_input_eq (turn_input _ _ _)
          | list =>
              rw [Session.answer, grant, command]
              split_ifs
              · exact h.turn _ _
              · exact h.of_input_eq (turn_input _ _ _)
          | clear => exact h.of_input_eq (turn_input _ _ _)
          | quit => exact h.of_input_eq (turn_input _ _ _)
          | help => exact h.turn _ _
          | unknown code => exact h.turn _ _

theorem ReadsFrom.pass (h : s.ReadsFrom src) : s.pass.session.ReadsFrom src := by
  cases hi : s.interrupted with
  | true =>
      rw [pass_of_interrupted hi]
      exact h.of_input_eq (endRun_input _ _)
  | false =>
      have hpass := passes_pass hi
      generalize s.pass = t at hpass
      cases hpass with
      | runsOut _ => exact h.of_input_eq (endRun_input _ _)
      | skips _ _ => exact h.of_input_eq (turn_input _ _ _)
      | stops _ _ => exact h.of_input_eq (endRun_input _ _)
      | @halts n st _ _ => exact h.setAnswers st (endRun_input _ _)
      | @goesOn n st _ _ => exact h.setAnswers st (turn_input _ _ _)
      | @jumps n t st _ _ _ => exact h.setAnswers st (turn_input _ _ _)
      | @misses n t st _ _ _ => exact h.setAnswers st (turn_input _ _ _)

end Session

/-! ### The end of a machine -/

theorem asks_quit_iff {text : Bytes} :
    Asks text (.command .quit) ↔ Token.ofLine text = [⟨.word, "QUIT"⟩] := by
  constructor
  · intro h
    cases h with
    | @command w c ht hw =>
        have hword : w = "QUIT" := by simpa [Command.words] using hw
        rw [ht, hword]
  · intro h
    exact .command h (by decide)

namespace Machine

variable {m : Machine} {src : Source}

/-- The machine has no program file, its program is sound, and it reads from
`src`. -/
structure Typed (src : Source) (m : Machine) : Prop where
  file : m.file = {}
  sound : m.session.program.Sound
  reads : m.session.ReadsFrom src

theorem prompted_input {rest : Source} (h : m.session.input = .shared rest) :
    m.prompted.session.input = .shared rest.next.2 := by
  rw [prompted, taken]
  dsimp only
  rw [h]
  rfl

theorem prompted_readsFrom (h : m.session.ReadsFrom src) : m.prompted.session.ReadsFrom src := by
  obtain ⟨rest, hs, hrest⟩ := h
  refine ⟨rest.next.2, prompted_input hs, ?_⟩
  cases rest with
  | nil => exact hrest
  | cons r rest => exact (List.suffix_cons r rest).trans hrest

theorem Typed.step (h : m.Typed src) : m.step.1.Typed src := by
  refine ⟨step_file h.file, step_sound h.file h.sound, ?_⟩
  cases hm : m.stage with
  | ended e =>
      rw [step_of_ended hm]
      exact h.reads
  | running =>
      rw [step_of_running hm]
      exact h.reads.pass
  | idle =>
      have hp := prompted_readsFrom h.reads
      rw [step_of_idle hm h.file, readCommand_eq]
      cases m.session.input.commands.next.1 with
      | line text =>
          dsimp only [submit, record]
          rw [Session.submit_eq_answer]
          exact hp.answer _
      | interrupted => exact hp
      | endOfInput => exact hp
      | failed message => exact hp

theorem Typed.steps (h : m.Typed src) (n : Nat) : (m.steps n).1.Typed src := by
  induction n generalizing m with
  | zero => exact h
  | succ n ih => exact ih h.step

theorem calm_step (hfile : m.file = {}) (h : m.session.program.Consistent) : Calm m.step.2 := by
  have hprompt : Calm [.commandPrompt] := by simp [Calm, Event.crash?]
  cases hm : m.stage with
  | ended e =>
      rw [step_of_ended hm]
      exact calm_nil
  | running =>
      rw [step_of_running hm]
      exact Session.calm_pass _
  | idle =>
      have hprogram : m.prompted.session.program.Consistent := m.prompted_program ▸ h
      rw [step_of_idle hm hfile, readCommand_eq]
      cases m.session.input.commands.next.1 with
      | line text => exact hprompt.append (Session.calm_submit hprogram text)
      | interrupted => exact hprompt
      | endOfInput => exact hprompt
      | failed message => exact hprompt

/-- The next step reads a line with the command to quit. -/
def Quits (m : Machine) : Prop :=
  ∃ text, m.Reads (.line text) ∧ Token.ofLine text = [⟨.word, "QUIT"⟩]

theorem Quits.step (h : m.Quits) : m.step.1.stage = .ended .quit := by
  obtain ⟨text, hr, ht⟩ := h
  rw [step_of_idle hr.stage hr.file, readCommand_eq, hr.reply]
  dsimp only [submit, record]
  rw [Session.submit_eq_answer, Session.answer_ended_iff]
  exact ⟨Request.ofLine_of_asks (asks_quit_iff.2 ht), rfl⟩

/-- If a machine that reads lines ends in a step, then because it has read the
command to quit, or because it has met the end of its input. -/
theorem Typed.step_ended (h : m.Typed src) (hsrc : ∀ r ∈ src, ∃ text, r = .line text)
    (hm : ∀ e, m.stage ≠ .ended e) {e : Ending} (he : m.step.1.stage = .ended e) :
    (e = .quit ∧ m.Quits) ∨ (e = .endOfInput ∧ m.step.1.session.input.commands = []) := by
  cases hstage : m.stage with
  | ended e => exact absurd hstage (hm e)
  | running =>
      -- a run that is over leaves the machine waiting, so only reading can end it
      rw [step_of_running hstage] at he
      have hrecord : (m.record m.session.pass).1.stage = m.session.pass.stage := rfl
      rcases m.session.pass_stage with hpass | hpass <;> rw [hrecord, hpass] at he <;> cases he
  | idle =>
      obtain ⟨rest, hs, hrest⟩ := h.reads
      rw [step_of_idle hstage h.file, readCommand_eq, hs] at he ⊢
      cases rest with
      | nil =>
          have hend : Stage.ended .endOfInput = .ended e := he
          have hleft : m.prompted.session.input = .shared [] := prompted_input hs
          exact .inr ⟨(Stage.ended.inj hend).symm, congrArg Input.commands hleft⟩
      | cons r rest =>
          obtain ⟨text, rfl⟩ := hsrc r (hrest.mem List.mem_cons_self)
          have hsubmit : (m.prompted.session.submit text).stage = .ended e := he
          rw [Session.submit_eq_answer, Session.answer_ended_iff] at hsubmit
          obtain ⟨hq, hquit⟩ := hsubmit
          exact .inl ⟨hquit, text, ⟨hstage, h.file, by rw [hs]; rfl⟩,
            asks_quit_iff.1 (Request.asks_of_ofLine hq)⟩

theorem stage_of_quits {i n : Nat} (hi : i < n) (h : (m.steps i).1.Quits) :
    (m.steps n).1.stage = .ended .quit := by
  have hended : (m.steps (i + 1)).1.stage = .ended .quit := by
    rw [steps_succ_eq]
    exact h.step
  obtain ⟨j, rfl⟩ := Nat.exists_eq_add_of_le (Nat.succ_le_of_lt hi)
  rw [steps_add, steps_of_ended hended]
  exact hended

/-- Over a whole run, the machine has read the command to quit, or it has come to
the end of its input. -/
theorem Typed.steps_ended (h : m.Typed src) (hsrc : ∀ r ∈ src, ∃ text, r = .line text)
    (hm : ∀ e, m.stage ≠ .ended e) {n : Nat} {e : Ending}
    (he : (m.steps n).1.stage = .ended e) :
    (e = .quit ∧ ∃ i < n, (m.steps i).1.Quits) ∨
      (e = .endOfInput ∧ (m.steps n).1.session.input.commands = []) := by
  induction n with
  | zero => exact absurd he (hm e)
  | succ n ih =>
      rw [steps_succ_eq] at he ⊢
      by_cases hn : ∃ e', (m.steps n).1.stage = .ended e'
      · obtain ⟨e', hn⟩ := hn
        rw [step_of_ended hn] at he ⊢
        rcases ih he with ⟨hquit, i, hi, hq⟩ | hend
        · exact .inl ⟨hquit, i, Nat.lt_succ_of_lt hi, hq⟩
        · exact .inr hend
      · rcases (h.steps n).step_ended hsrc (not_exists.1 hn) he with ⟨hquit, hq⟩ | hend
        · exact .inl ⟨hquit, n, Nat.lt_succ_self n, hq⟩
        · exact .inr hend

theorem Typed.quit_iff (h : m.Typed src) (hsrc : ∀ r ∈ src, ∃ text, r = .line text)
    (hm : ∀ e, m.stage ≠ .ended e) (n : Nat) :
    (m.steps n).1.stage = .ended .quit ↔ ∃ i < n, (m.steps i).1.Quits := by
  constructor
  · intro hn
    rcases h.steps_ended hsrc hm hn with ⟨-, hread⟩ | ⟨he, -⟩
    · exact hread
    · cases he
  · rintro ⟨i, hi, hq⟩
    exact stage_of_quits hi hq

end Machine

/-! ### The end of the tool -/

theorem Source.exists_line_of_mem_ofBytes {s : Bytes} {r : Reply} (h : r ∈ Source.ofBytes s) :
    ∃ text, r = .line text := by
  obtain ⟨text, -, rfl⟩ := List.mem_map.1 h
  exact ⟨text, rfl⟩

namespace CommandLine.Tool

variable {t : Tool}

/-- Unless a step tells what the tool gives up for, the tool finishes as its
machine ends, or goes on with it. -/
theorem Standard.step_of_calm (ht : t.Standard) (h : Calm t.machine.step.2) (usage : String) :
    (∃ out e, t.machine.step.1.stage = .ended e ∧
        t.step usage = (out, .finished (.ofEnding t.path e))) ∨
      ∃ out, t.step usage = (out, .working (t.onward usage)) := by
  rw [step_eq ht, h.findSome?]
  dsimp only
  cases t.machine.step.1.stage with
  | ended e => exact .inl ⟨_, e, rfl, rfl⟩
  | idle => exact .inr ⟨_, rfl⟩
  | running => exact .inr ⟨_, rfl⟩

theorem Standard.steps_finished (ht : t.Standard)
    (hcalm : ∀ n, Calm (t.machine.steps n).1.step.2) {usage : Nat → String} {n : Nat} {exit : Exit}
    (h : (t.steps usage n).2 = .finished exit) :
    ∃ e, (t.machine.steps n).1.stage = .ended e ∧ exit = .ofEnding t.path e := by
  induction n generalizing t usage with
  | zero => cases h
  | succ n ih =>
      rw [Machine.steps_succ]
      rcases ht.step_of_calm (hcalm 0) (usage 0) with ⟨out, e, he, hs⟩ | ⟨out, hs⟩
      · refine ⟨e, ?_, ?_⟩
        · dsimp only
          rw [Machine.steps_of_ended he, he]
        · simp only [steps, hs] at h
          exact (Progress.finished.inj h).symm
      · simp only [steps, hs] at h
        have hnext := ht.onward_machine (usage 0)
        obtain ⟨e, he, hexit⟩ := ih (ht.onward (usage 0))
          (fun k => by rw [hnext]; exact hcalm (k + 1)) h
        rw [hnext] at he
        exact ⟨e, he, hexit⟩

theorem typed_ofProgram (o : Options) (path : Option Bytes) (stdin : Bytes) (terminal : Bool) :
    (ofProgram o path {} stdin terminal).machine.Typed (.ofBytes stdin) :=
  ⟨rfl, Program.sound_empty, _, rfl, List.suffix_rfl⟩

/-- Whatever is done in a new session, short of putting a line without looking,
nothing is told that the tool gives up for.  So without a program file, and unless
it is asked for help, the tool ends with status 0 and nothing on standard error,
if it ends: by `QUIT` if and only if the command loop has read that command, and
otherwise at the end of the input, with nothing of it left. -/
theorem user_input_never_crashes :
    (∀ s stage events, Session.Told s stage events → ∀ e ∈ events, e.crash? = none) ∧
      ∀ (read : Bytes → Except FileFault Bytes) (args : List Bytes) (o : Options)
        (stdin : Bytes) (terminal : Bool) (usage : Nat → String) (out : Bytes) (exit : Exit)
        (n : Nat),
        Options.parse {} args = .ok (o, []) → o.help = false →
        run read args stdin terminal usage n = (out, .finished exit) →
          let m := (ofProgram o none {} stdin terminal).machine
          exit.status = 0 ∧ exit.stderr = [] ∧
            ((m.steps n).1.stage = .ended .quit ↔ ∃ i < n, (m.steps i).1.Quits) ∧
            ((m.steps n).1.stage = .ended .endOfInput ↔ ¬ ∃ i < n, (m.steps i).1.Quits) ∧
            ((m.steps n).1.stage = .ended .endOfInput →
              (m.steps n).1.session.input.commands = []) := by
  refine ⟨fun s stage events h => h.calm, ?_⟩
  intro read args o stdin terminal usage out exit n hargs hhelp hrun m
  have htyped : m.Typed (.ofBytes stdin) := typed_ofProgram o none stdin terminal
  have hcalm (i : Nat) : Calm (m.steps i).1.step.2 :=
    Machine.calm_step (htyped.steps i).file (htyped.steps i).sound.consistent
  have hstandard : (ofProgram o none {} stdin terminal).Standard := rfl
  rw [run_of_no_file hargs hhelp] at hrun
  obtain ⟨e, he, hexit⟩ := hstandard.steps_finished hcalm (congrArg Prod.snd hrun)
  have hlines : ∀ r ∈ Source.ofBytes stdin, ∃ text, r = .line text :=
    fun r => Source.exists_line_of_mem_ofBytes
  have hopen : ∀ e, m.stage ≠ .ended e := fun _ => Stage.noConfusion
  have hend : (m.steps n).1.stage = .ended e := he
  rw [← htyped.quit_iff hlines hopen n, hend, hexit]
  rcases htyped.steps_ended hlines hopen he with ⟨rfl, -⟩ | ⟨rfl, hleft⟩
  · exact ⟨rfl, rfl, Iff.rfl, by simp, by simp⟩
  · exact ⟨rfl, rfl, Iff.rfl, by simp, fun _ => hleft⟩

set_option maxRecDepth 8000 in
/-- A line that is entered, entered again, removed and entered once more; and two
runs of the tool, which quits with input left or meets the end at once. -/
theorem user_input_never_crashes_replaced :
    let o : Operation := .enter 10 (Text.ofString "10 END") [⟨.word, "END"⟩]
    let events := [Event.entered .stop, .entered .stop, .entered .stop]
    let read : Bytes → Except FileFault Bytes := fun _ => .ok []
    let args := [Text.ofString "-s"]
    let stdin := Text.ofString "QUIT\nLIST\n"
    let usage : Nat → String := fun _ => "late"
    let m (stdin : Bytes) := (ofProgram { stats := true } none {} stdin true).machine
    (∃ s : Session, Session.Told (s.perform o).session .idle events) ∧
      (∀ e ∈ events, e.crash? = none) ∧
      Ends read args stdin true usage [] .success ∧ (∃ i < 1, ((m stdin).steps i).1.Quits) ∧
      Ends read args [] true usage [] .success ∧ ¬ ∃ i < 1, ((m []).steps i).1.Quits := by
  intro o events read args stdin usage m
  let s₁ := (({} : Session).perform o).session
  let s₂ := (s₁.perform o).session
  let s₃ := (s₂.perform (.remove 10)).session
  have htold : Session.Told (s₃.perform o).session .idle events := by
    have hentered : Session.Told s₁ .idle [.entered .stop] :=
      .perform o (.start {}) (by decide) (by simp [o])
    have hreplaced : Session.Told s₂ .idle [.entered .stop, .entered .stop] :=
      .perform o hentered (by decide) (by simp [o])
    have hremoved : Session.Told s₃ .idle [.entered .stop, .entered .stop] :=
      .perform (.remove 10) hreplaced (by decide) (by simp)
    exact .perform o hremoved (by decide) (by simp [o])
  have hargs : Options.parse {} args = .ok ({ stats := true }, []) := by decide +kernel
  let line := Text.ofString "QUIT"
  have hreads : (m stdin).Reads (.line line) := ⟨rfl, rfl, by decide⟩
  have htokens : Token.ofLine line = [⟨.word, "QUIT"⟩] :=
    Token.ofLine_spaced (by decide) (by decide)
  have hasked : Request.ofLine line = .ok (.command .quit) :=
    Request.ofLine_of_asks (asks_quit_iff.2 htokens)
  have hquits : (m stdin).Quits := ⟨line, hreads, htokens⟩
  have hrun : run read args stdin true usage 1 = ([], .finished .success) := by
    let t := ofProgram { stats := true } none {} stdin true
    have ht : t.Standard := rfl
    have hstep : t.machine.step =
        ({ (m stdin).prompted with stage := .ended .quit }, [.commandPrompt]) := by
      rw [Machine.step_of_idle rfl rfl, Machine.readCommand_eq, hreads.reply]
      dsimp only [Machine.submit, Machine.record]
      rw [Session.submit_eq_answer, hasked]
      rfl
    have hquit : t.step "late" = ([], .finished .success) := by
      rw [step_eq ht, hstep]
      rfl
    rw [run_of_no_file hargs rfl]
    simp only [steps, usage, t, hquit]
  have hrunEnd : run read args [] true usage 1 = ([], .finished .success) := by
    rw [run_of_no_file hargs rfl]
    rfl
  obtain ⟨hcalm, hends⟩ := user_input_never_crashes
  obtain ⟨-, -, hquit, -⟩ := hends read args _ stdin true usage [] .success 1 hargs rfl hrun
  obtain ⟨-, -, -, hend, -⟩ := hends read args _ [] true usage [] .success 1 hargs rfl hrunEnd
  exact ⟨⟨s₃, htold⟩, hcalm _ _ _ htold, ⟨1, hrun⟩, hquit.1 hquits.step, ⟨1, hrunEnd⟩, hend.1 rfl⟩

end CommandLine.Tool

end LineBasic
