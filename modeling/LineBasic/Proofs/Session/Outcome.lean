import LineBasic.Proofs.Session.Request
import LineBasic.Proofs.Session.Run

/-!
# What a line or a pass comes to

A line that does not begin a run comes to a turn, and neither the session it is a
turn of nor what it tells depends on the records of runs: the alarm, the count,
the interrupt and whether a program runs (`answer_forms`).  A pass that is not
interrupted says something, and then ends the run or goes on with it, and that
does not depend on the alarm (`passing_pass`).

What a run or a statement says is shown on every display.  The rest, which a
display may leave out, has its place in the turn: a line that is stored comes
with its statement (`answer_events`), and a run that ends with its statistics.
-/

namespace LineBasic

namespace Event

/-- Events that every display shows. -/
def isSaid : Event → Bool
  | inputPrompt | value _ | fault _ | listing _ | help => true
  | commandPrompt | entered _ | statistics _ | duplicate _ => false

def Said (events : List Event) : Prop :=
  ∀ e ∈ events, e.isSaid = true

theorem said_nil : Said [] := by simp [Said]

theorem said_fault (f : Fault) : Said [.fault f] := by simp [Said, isSaid]

theorem said_faults (fs : List Fault) : Said (fs.map .fault) := by
  intro e he
  obtain ⟨f, -, rfl⟩ := List.mem_map.1 he
  rfl

theorem Said.append {es fs : List Event} (h : Said es) (h' : Said fs) : Said (es ++ fs) := by
  intro e he
  rcases List.mem_append.1 he with he | he
  · exact h e he
  · exact h' e he

/-- None of the events is one that the tool gives up for. -/
def Calm (events : List Event) : Prop :=
  ∀ e ∈ events, e.crash? = none

theorem calm_nil : Calm [] := by simp [Calm]

theorem Calm.append {es fs : List Event} (h : Calm es) (h' : Calm fs) : Calm (es ++ fs) := by
  intro e he
  rcases List.mem_append.1 he with he | he
  · exact h e he
  · exact h' e he

theorem Said.calm {events : List Event} (h : Said events) : Calm events := by
  intro e he
  have hsaid := h e he
  cases e with
  | duplicate n => simp [isSaid] at hsaid
  | _ => rfl

theorem Calm.findSome? {events : List Event} (h : Calm events) :
    events.findSome? crash? = none :=
  List.findSome?_eq_none_iff.2 h

end Event

open Event (Said said_nil said_fault said_faults)

/-! ### What statements say -/

theorem Source.said_inquire (src : Source) : Said src.inquire.events := by
  fun_induction Source.inquire src with
  | case3 s src f _ ih =>
      have hsaid : Said [.inputPrompt, .fault f] := by simp [Said, Event.isSaid]
      exact hsaid.append ih
  | _ => simp [Said, Event.isSaid]

theorem Stmt.said_executeInput (name : String) (env : Env) (answers : Source) :
    Said (executeInput name env answers).events := by
  have hsaid := answers.said_inquire
  unfold executeInput
  dsimp only
  split
  · exact hsaid
  · split
    · exact hsaid
    · exact hsaid.append (said_fault _)

theorem Stmt.said_branchAction (cmp : Comparison) (a b : Value) (t : LineNumber) :
    Said (branchAction cmp a b t).2 := by
  unfold branchAction
  split
  · exact said_nil
  · exact said_nil
  · exact said_fault _

theorem Stmt.said_execute (st : Stmt) (env : Env) (answers : Source) :
    Said (st.execute env answers).events := by
  cases st with
  | remark => exact said_nil
  | stop => exact said_nil
  | jump t => exact said_nil
  | malformed tag => exact said_fault _
  | input x => exact said_executeInput x env answers
  | branch l cmp r t => exact (said_faults _).append (said_branchAction _ _ _ _)
  | assign x =>
      refine Said.append ?_ (said_faults _)
      split_ifs
      · exact said_nil
      · exact said_fault _
  | print x =>
      refine (said_faults _).append ?_
      split_ifs
      · simp [Said, Event.isSaid]
      · exact said_nil

/-! ### Lines -/

/-- The session with what another run has left. -/
def Session.stale (s : Session) (executed : Nat) (interrupted running : Bool) : Session :=
  { s with executed, interrupted, running }

namespace Session

variable {s : Session}

/-- A line begins a run, or it comes to a turn that is not about runs. -/
theorem answer_forms (s : Session) (q : Except Fault Request) :
    (q = .ok (.command .run) ∧ s.program.first? ≠ none) ∨
      ∃ (s' : Session) (stage : Stage) (events : List Event), stage ≠ .running ∧ ∀ a e i r,
        ({ s with alarm := a }.stale e i r).answer q =
          ({ s' with alarm := a }.stale e i r).turn stage events := by
  cases q with
  | error f => exact .inr ⟨s, .idle, _, by decide, fun _ _ _ _ => rfl⟩
  | ok q =>
      cases q with
      | nothing => exact .inr ⟨s, .idle, _, by decide, fun _ _ _ _ => rfl⟩
      | remove n =>
          exact .inr ⟨{ s with program := s.program.remove n }, .idle, _, by decide,
            fun _ _ _ _ => rfl⟩
      | store n source st =>
          simp only [answer, grant, stale]
          cases s.program.store? n ⟨source, some st⟩ with
          | none =>
              exact .inr ⟨{ s with program := s.program.rewind }, .idle, _, by decide,
                fun _ _ _ _ => rfl⟩
          | some p =>
              exact .inr ⟨{ s with program := p.rewind }, .idle, _, by decide,
                fun _ _ _ _ => rfl⟩
      | execute st =>
          let x := s.execution st
          exact .inr ⟨{ s with env := x.env, input := s.input.setAnswers x.answers }, .idle,
            x.events, by decide, fun _ _ _ _ => rfl⟩
      | command c =>
          cases c with
          | run =>
              -- the only line whose session depends on no record of runs that was there before
              cases hf : s.program.first? with
              | some n => exact .inl ⟨rfl, by simp⟩
              | none =>
                  refine .inr ⟨s, .idle, [], by decide, fun a e i r => ?_⟩
                  simp only [answer, grant, command, beginRun, stale, hf]
          | list =>
              by_cases he : s.program.isEmpty = true
              · exact .inr ⟨s, .idle, [], by decide, fun _ _ _ _ => if_pos he⟩
              · exact .inr ⟨{ s with program := s.program.park }, .idle, listing s.program,
                  by decide, fun _ _ _ _ => if_neg he⟩
          | clear => exact .inr ⟨s.forget, .idle, _, by decide, fun _ _ _ _ => rfl⟩
          | quit => exact .inr ⟨s.forget, .ended .quit, _, by decide, fun _ _ _ _ => rfl⟩
          | help => exact .inr ⟨s, .idle, _, by decide, fun _ _ _ _ => rfl⟩
          | unknown code => exact .inr ⟨s, .idle, _, by decide, fun _ _ _ _ => rfl⟩

/-- The line that begins a run sets the records of it anew. -/
theorem answer_run (hf : s.program.first? ≠ none) :
    s.answer (.ok (.command .run)) =
      ⟨{ s with running := true, interrupted := false, executed := 0 }, [], .running⟩ :=
  beginRun_of_first?_ne hf

/-- Without an alarm, a line that does not begin a run leaves to the session what
another run has left. -/
theorem submit_forms (h : s.alarm = none) (text : Bytes) :
    (Request.ofLine text = .ok (.command .run) ∧ s.program.first? ≠ none) ∨
      ∃ (s' : Session) (stage : Stage) (events : List Event), s'.alarm = none ∧
        stage ≠ .running ∧
        ∀ e i r, (s.stale e i r).submit text = ⟨s'.stale e i r, events, stage⟩ := by
  rcases answer_forms s (Request.ofLine text) with hrun | ⟨s', stage, events, hs, hturn⟩
  · exact .inl hrun
  · refine .inr ⟨{ s' with alarm := none }, stage, events, rfl, hs, fun e i r => ?_⟩
    have hquiet : { s with alarm := none } = s := by rw [← h]
    rw [submit_eq_answer, ← hquiet, hturn none e i r]
    exact turn_of_quiet rfl stage events

theorem submit_alarm (h : s.alarm = none) (text : Bytes) :
    (s.submit text).session.alarm = none := by
  rcases submit_forms h text with ⟨hq, hf⟩ | ⟨s', stage, events, hs', -, hturn⟩
  · rw [submit_eq_answer, hq, answer_run hf]
    exact h
  · have hsubmit : s.submit text = ⟨_, events, stage⟩ := hturn s.executed s.interrupted s.running
    rw [hsubmit]
    exact hs'

theorem said_command (s : Session) (c : Command) : Said (s.command c).events := by
  cases c with
  | run =>
      rw [command, beginRun]
      cases s.program.first? with
      | none => exact said_nil
      | some n => exact said_nil
  | list =>
      rw [command]
      split_ifs
      · exact said_nil
      · intro e he
        obtain ⟨l, -, rfl⟩ := List.mem_map.1 he
        rfl
  | clear => exact said_nil
  | quit => exact said_nil
  | help => simp [command, turn, Said, Event.isSaid]
  | unknown code => exact said_fault _

/-- A line that is stored comes with its statement; all others say something. -/
theorem answer_events (h : s.program.Consistent) (q : Except Fault Request) :
    (∃ n source st, q = .ok (.store n source st) ∧ (s.answer q).events = [.entered st]) ∨
      (∀ n source st, q ≠ .ok (.store n source st)) ∧
        Said (s.answer q).events := by
  cases q with
  | error f => exact .inr ⟨by simp, said_fault f⟩
  | ok q =>
      cases q with
      | nothing => exact .inr ⟨by simp, said_nil⟩
      | remove n => exact .inr ⟨by simp, said_nil⟩
      | store n source st =>
          obtain ⟨p, hp, -⟩ := h.store?_spec n ⟨source, some st⟩
          refine .inl ⟨n, source, st, rfl, ?_⟩
          simp only [answer, grant, hp]
          rfl
      | command c => exact .inr ⟨by simp, said_command s c⟩
      | execute st => exact .inr ⟨by simp, st.said_execute _ _⟩

/-! ### Passes -/

/-- A turn, for each alarm there may be, that says something and then ends the
run or goes on with it. -/
inductive Passing (t : Option Alarm → Turn) : Prop
  | ends (s : Session) (events : List Event) : s.interrupted = false → Said events →
      (∀ a, t a = { s with alarm := a }.endRun events) → Passing t
  | onward (s : Session) (events : List Event) : s.interrupted = false → Said events →
      (∀ a, t a = { s with alarm := a }.turn .running events) → Passing t

theorem passing_executeLine (hi : s.interrupted = false) (st : Stmt) :
    Passing fun a => { s with alarm := a }.executeLine st := by
  let x := s.execution st
  have hsaid : Said x.events := st.said_execute _ _
  cases ha : x.action with
  | halt => exact .ends (s.absorb x) x.events hi hsaid fun a => executeLine_of_halt ha
  | next => exact .onward (s.absorb x) x.events hi hsaid fun a => executeLine_of_next ha
  | jump t =>
      cases ht : s.program.line? t with
      | none =>
          exact .onward (s.absorb x) (x.events ++ [Event.fault .lineNumber]) hi
            (hsaid.append (said_fault _))
            fun a => executeLine_of_jump_missing ha ht
      | some l =>
          exact .onward { s.absorb x with program := { s.program with cursor := some t } } x.events
            hi hsaid fun a => executeLine_of_jump ha (by simp [ht])

theorem passing_pass (hi : s.interrupted = false) :
    Passing fun a => { s with alarm := a }.pass := by
  cases hc : s.program.cursor with
  | none => exact .ends s.advanced [] hi said_nil fun a => pass_of_cursor_none hi hc
  | some n =>
      have hpass (a : Option Alarm) := pass_of_cursor_some (s := { s with alarm := a }) hi hc
      cases hst : s.program.stmt? n with
      | none =>
          refine .onward s.advanced [] hi said_nil fun a => ?_
          rw [hpass, hst]
          rfl
      | some st =>
          cases st with
          | remark =>
              refine .onward s.advanced [] hi said_nil fun a => ?_
              rw [hpass, hst]
              rfl
          | stop =>
              refine .ends s.advanced [] hi said_nil fun a => ?_
              rw [hpass, hst]
              rfl
          | _ =>
              simp only [hpass, hst]
              exact passing_executeLine (s := s.advanced) hi _

/-! ### Without an alarm -/

/-- Where there is no alarm there is no interrupt. -/
theorem pass_quiet (ha : s.alarm = none) (hi : s.interrupted = false) :
    s.pass.session.alarm = none ∧ s.pass.session.interrupted = false := by
  have hs : { s with alarm := none } = s := by rw [← ha]
  cases passing_pass hi with
  | ends s' events hi' _ hpass =>
      have hp : s.pass = { s' with alarm := none }.endRun events := by rw [← hpass none, hs]
      rw [hp, endRun_of_quiet rfl]
      exact ⟨rfl, hi'⟩
  | onward s' events hi' _ hpass =>
      have hp : s.pass = { s' with alarm := none }.turn .running events := by rw [← hpass none, hs]
      rw [hp, turn_of_quiet rfl]
      exact ⟨rfl, hi'⟩

theorem pass_alarm (h : s.alarm = none) : s.pass.session.alarm = none := by
  cases hi : s.interrupted with
  | false => exact (pass_quiet h hi).1
  | true =>
      rw [pass_of_interrupted hi, endRun_of_quiet (s := { s with interrupted := false }) h]
      exact h

theorem submit_interrupted (ha : s.alarm = none) (hi : s.interrupted = false) (text : Bytes) :
    (s.submit text).session.interrupted = false := by
  rcases submit_forms ha text with ⟨hq, hf⟩ | ⟨s', stage, events, -, -, hturn⟩
  · rw [submit_eq_answer, hq, answer_run hf]
  · have hsubmit : s.submit text = ⟨_, events, stage⟩ := hturn s.executed s.interrupted s.running
    rw [hsubmit]
    exact hi

end Session

end LineBasic
