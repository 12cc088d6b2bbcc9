import LineBasic.Proofs.Machine
import LineBasic.Proofs.Session.Outcome

/-!
# Clearing

`CLEAR` forgets the program and the variables.  It does not forget how many
statements the last run executed, nor an interrupt that came too late for it.
Nothing looks at these but a run, and a run begins by setting them itself, so
they cannot be told from those of a new session: a machine with such leftovers
goes in lockstep with the one without (`Alike`), until a run begins and the two
are one.
-/

namespace LineBasic

/-! ### Leftovers -/

/-- The turn with what another run has left, unless it has begun one itself. -/
def Turn.stale (t : Turn) (executed : Nat) (interrupted running : Bool) : Turn :=
  match t.stage with
  | .running => t
  | _ => { t with session := t.session.stale executed interrupted running }

theorem Turn.stale_of_running {t : Turn} (h : t.stage = .running) (e : Nat) (i r : Bool) :
    t.stale e i r = t := by
  rw [stale, h]

theorem Turn.stale_of_not_running {t : Turn} (h : t.stage ≠ .running) (e : Nat) (i r : Bool) :
    t.stale e i r = { t with session := t.session.stale e i r } := by
  rw [stale]
  split
  · contradiction
  · rfl

namespace Session

variable {s : Session}

/-- A line does the same whatever another run has left, and if it begins a run
nothing of that is left. -/
theorem submit_stale (h : s.alarm = none) (e : Nat) (i r : Bool) (text : Bytes) :
    (s.stale e i r).submit text = (s.submit text).stale e i r := by
  rcases submit_forms h text with ⟨hq, hf⟩ | ⟨s', stage, events, -, hs, hturn⟩
  · have hstale : (s.stale e i r).program.first? ≠ none := hf
    rw [submit_eq_answer, submit_eq_answer, hq, answer_run hf, answer_run hstale]
    rfl
  · have hsubmit : s.submit text = ⟨_, events, stage⟩ := hturn s.executed s.interrupted s.running
    rw [hsubmit, hturn e i r, Turn.stale_of_not_running hs]
    rfl

end Session

/-! ### Machines in lockstep -/

namespace Machine

variable {m m' : Machine}

/-- The machine with what another run has left. -/
def stale (m : Machine) (executed : Nat) (interrupted running : Bool) : Machine :=
  { m with session := m.session.stale executed interrupted running }

/-- The machines are the same, apart from what another run has left in the first
one while none is under way. -/
inductive Alike : Machine → Machine → Prop
  | same (m : Machine) : Alike m m
  | stale {m : Machine} (e : Nat) (i r : Bool) : m.stage ≠ .running → m.session.alarm = none →
      Alike (m.stale e i r) m

theorem alike_record_stale {t : Turn} (h : t.session.alarm = none) (e : Nat) (i r : Bool) :
    Alike (m.record (t.stale e i r)).1 (m.record t).1 ∧
      (m.record (t.stale e i r)).2 = (m.record t).2 := by
  by_cases ht : t.stage = .running
  · rw [Turn.stale_of_running ht]
    exact ⟨.same _, rfl⟩
  · rw [Turn.stale_of_not_running ht]
    exact ⟨.stale (m := (m.record t).1) e i r ht h, rfl⟩

theorem alike_submit_stale (h : m.session.alarm = none) (e : Nat) (i r : Bool) (text : Bytes) :
    Alike ((m.stale e i r).submit text).1 (m.submit text).1 ∧
      ((m.stale e i r).submit text).2 = (m.submit text).2 := by
  have hturn : (m.stale e i r).session.submit text = (m.session.submit text).stale e i r :=
    Session.submit_stale h e i r text
  rw [submit, submit, hturn]
  exact alike_record_stale (Session.submit_alarm h text) e i r

theorem alike_readCommand_stale (hstage : m.stage ≠ .running) (h : m.session.alarm = none)
    (e : Nat) (i r : Bool) :
    Alike (m.stale e i r).readCommand.1 m.readCommand.1 ∧
      (m.stale e i r).readCommand.2 = m.readCommand.2 := by
  have hstale : (m.stale e i r).session.alarm = none := h
  have hnext : (m.stale e i r).session.input.commands.next = m.session.input.commands.next := rfl
  rw [readCommand_eq, readCommand_eq, prompted_of_quiet h, prompted_of_quiet hstale, hnext]
  cases m.session.input.commands.next.1 with
  | line text =>
      obtain ⟨halike, hevents⟩ := alike_submit_stale (m := m.taken) h e i r text
      exact ⟨halike, congrArg (.commandPrompt :: ·) hevents⟩
  | interrupted => exact ⟨.stale (m := m.taken) e i r hstage h, rfl⟩
  | endOfInput =>
      exact ⟨.stale (m := { m.taken with stage := .ended .endOfInput }) e i r (by simp) h, rfl⟩
  | failed message =>
      exact ⟨.stale (m := { m.taken with stage := .ended (.failed message) }) e i r (by simp) h,
        rfl⟩

theorem alike_step_stale (hstage : m.stage ≠ .running) (h : m.session.alarm = none) (e : Nat)
    (i r : Bool) :
    Alike (m.stale e i r).step.1 m.step.1 ∧ (m.stale e i r).step.2 = m.step.2 := by
  have hs : (m.stale e i r).stage = m.stage := rfl
  have hfile : (m.stale e i r).file = m.file := rfl
  rw [step, step, hs, hfile]
  cases hm : m.stage with
  | running => exact absurd hm hstage
  | ended ending => exact ⟨.stale e i r hstage h, rfl⟩
  | idle =>
      dsimp only
      cases m.file.lines with
      | cons text rest =>
          exact alike_submit_stale (m := { m with file := { m.file with lines := rest } }) h e i r text
      | nil =>
          dsimp only
          split_ifs
          · exact ⟨.stale (m := { m with stage := .ended .overlongLine }) e i r (by simp) h, rfl⟩
          · exact alike_readCommand_stale hstage h e i r

/-- A step tells the same on both machines, and leaves them alike. -/
theorem Alike.step (h : Alike m m') : Alike m.step.1 m'.step.1 ∧ m.step.2 = m'.step.2 := by
  cases h with
  | same => exact ⟨.same _, rfl⟩
  | stale e i r hstage hquiet => exact alike_step_stale hstage hquiet e i r

theorem Alike.steps (h : Alike m m') (n : Nat) :
    Alike (m.steps n).1 (m'.steps n).1 ∧ (m.steps n).2 = (m'.steps n).2 := by
  induction n generalizing m m' with
  | zero => exact ⟨h, rfl⟩
  | succ n ih =>
      obtain ⟨hstep, hevents⟩ := h.step
      obtain ⟨hsteps, hrest⟩ := ih hstep
      rw [steps_succ, steps_succ]
      exact ⟨hsteps, by rw [hevents, hrest]⟩

theorem Alike.eq_of_running (h : Alike m m') (hs : m'.stage = .running) : m = m' := by
  cases h with
  | same => rfl
  | stale e i r hstage _ => exact absurd hs hstage

/-- Machines that are alike and in a run are the same from then on. -/
theorem Alike.steps_eq (h : Alike m m') {k n : Nat} (hk : (m'.steps k).1.stage = .running)
    (hkn : k ≤ n) : (m.steps n).1 = (m'.steps n).1 := by
  obtain ⟨j, rfl⟩ := Nat.exists_eq_add_of_le hkn
  rw [steps_add, steps_add, (h.steps k).1.eq_of_running hk]

/-- All that can be seen of a machine besides what it tells, but for the count of
the statements executed. -/
structure SameView (m m' : Machine) : Prop where
  stage : m.stage = m'.stage
  file : m.file = m'.file
  env : m.session.env = m'.session.env
  program : m.session.program = m'.session.program
  input : m.session.input = m'.session.input

theorem Alike.sameView (h : Alike m m') : SameView m m' := by
  cases h with
  | same => exact ⟨rfl, rfl, rfl, rfl, rfl⟩
  | stale e i r _ _ => exact ⟨rfl, rfl, rfl, rfl, rfl⟩

/-- The machines tell the same step for step and look the same, and they are the
same from the first run on. -/
def Indistinct (m m' : Machine) : Prop :=
  ∀ n, (m.steps n).2 = (m'.steps n).2 ∧ (m.steps n).1.SameView (m'.steps n).1 ∧
    ∀ k ≤ n, (m'.steps k).1.stage = .running → (m.steps n).1 = (m'.steps n).1

theorem Alike.indistinct (h : Alike m m') : m.Indistinct m' := by
  intro n
  obtain ⟨hsteps, hevents⟩ := h.steps n
  exact ⟨hevents, hsteps.sameView, fun k hk hrunning => h.steps_eq hrunning hk⟩

end Machine

namespace Session

variable {s : Session} {text : Bytes}

theorem submit_clear (h : s.alarm = none) (ht : Token.ofLine text = [⟨.word, "CLEAR"⟩]) :
    s.submit text = ⟨s.forget, [], .idle⟩ := by
  have hquiet : s.forget.alarm = none := h
  have hasks : Asks text (.command .clear) := .command ht (by decide)
  rw [submit_of_asks hasks]
  exact turn_of_quiet hquiet _ _

/-- In any session without an alarm to come, whatever its runs have left in it,
`CLEAR` says nothing, and then the session cannot be told from a new one with the
same input: whatever lines follow, from a file or typed, the two tell the same
step for step, with the same stage, variables, program and input; and as soon as
a run begins they are the same in all. -/
theorem clear_like_new (h : s.alarm = none) (ht : Token.ofLine text = [⟨.word, "CLEAR"⟩])
    (file : ProgramFile) :
    let t := s.submit text
    let m : Machine := { session := t.session, file }
    let m' : Machine := { session := { input := s.input }, file }
    t.events = [] ∧ t.stage = .idle ∧ m.Indistinct m' := by
  intro t m m'
  have hclear : t = ⟨s.forget, [], .idle⟩ := submit_clear h ht
  have hm : m = m'.stale s.executed s.interrupted s.running := by
    simp only [m, hclear, forget, Machine.stale, stale, m', h]
  have halike : Machine.Alike m m' := hm ▸ .stale _ _ _ (by simp [m']) rfl
  exact ⟨by rw [hclear], by rw [hclear], halike.indistinct⟩

set_option maxRecDepth 8000 in
/-- A run that was interrupted while it asked for a number, and ended for want of
one: the interrupt is still there. -/
theorem clear_like_new_after_interrupt :
    let input : Input := .separate [.line (Text.ofString "1 END"), .line (Text.ofString "RUN")] []
    let asking : Session :=
      { program := ⟨⟨[(10, ⟨[], some (.input "X")⟩)]⟩, 1, some 10⟩
        input
        running := true
        alarm := some ⟨1, .events⟩ }
    let s := asking.pass.session
    let m : Machine := { session := (s.submit (Text.ofString "CLEAR")).session }
    let m' : Machine := { session := { input } }
    s.alarm = none ∧ s.interrupted = true ∧ s.executed = 1 ∧ (m'.steps 2).1.stage = .running ∧
      (m.steps 3).2 = (m'.steps 3).2 ∧ (m.steps 3).1 = (m'.steps 3).1 := by
  intro input asking s m m'
  have hs : s.alarm = none ∧ s.interrupted = true ∧ s.executed = 1 := by decide
  have hrunning : (m'.steps 2).1.stage = .running := by
    decide +kernel
  have ht : Token.ofLine (Text.ofString "CLEAR") = [⟨.word, "CLEAR"⟩] :=
    Token.ofLine_spaced (by decide) (by decide)
  obtain ⟨htold, -, hsame⟩ := (clear_like_new hs.1 ht {}).2.2 3
  exact ⟨hs.1, hs.2.1, hs.2.2, hrunning, htold, hsame 2 (by decide) hrunning⟩

end Session

end LineBasic
