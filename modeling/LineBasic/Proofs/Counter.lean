import LineBasic.Proofs.Session.Run

/-!
# The program counter

A run moves the cursor on before it executes a statement, and a jump moves it
again.  The plain machine for such a program holds the line it is at, executes
that line, and then decides where to go (`Counter`).  The two go in lockstep:
after any number of steps they have executed the same lines and told the same,
with the same variables, answers and count, and both are over or neither is
(`run_agrees`).

Only what the run says at its very end, the statistics, is not the machine's.
-/

namespace LineBasic

/-- A machine at a line, with all it has executed and told so far. -/
structure Counter where
  line : Option LineNumber
  env : Env
  answers : Source
  executed : Nat := 0
  trace : List LineNumber := []
  output : List Event := []
  stopped : Bool := false
deriving DecidableEq, Repr

namespace Counter

variable (lines : Table LineNumber StoredLine)

/-- The smallest line number above `n`. -/
def above (n : LineNumber) : Option LineNumber :=
  (lines.keys.filter (n < ·)).min?

/-- Executes the statement of line `n`, counts it, and goes where it says. -/
def execute (c : Counter) (n : LineNumber) (st : Stmt) : Counter :=
  let x := st.execute c.env c.answers
  let c :=
    { c with
      env := x.env
      answers := x.answers
      executed := c.executed + 1
      trace := c.trace ++ [n]
      output := c.output ++ x.events }
  match x.action with
  | .next => { c with line := above lines n }
  | .jump t =>
    if lines.contains t then { c with line := some t }
    else { c with line := above lines n, output := c.output ++ [.fault .lineNumber] }
  | .halt => { c with stopped := true }

def step (c : Counter) : Counter :=
  if c.stopped then c
  else
    match c.line with
    | none => { c with stopped := true }
    | some n =>
      match (lines.get? n).bind StoredLine.stmt with
      | none => { c with line := above lines n }
      | some .remark => { c with line := above lines n }
      | some .stop => { c with stopped := true }
      | some st => c.execute lines n st

/-- The machine at the cursor of a session. -/
def ofSession (s : Session) : Counter :=
  { line := s.program.cursor, env := s.env, answers := s.input.answers }

variable {lines}

theorem step_of_stopped {c : Counter} (hc : c.stopped = true) : c.step lines = c := by
  rw [step, if_pos hc]

theorem step_of_line_none {c : Counter} (hc : c.stopped = false) (hl : c.line = none) :
    c.step lines = { c with stopped := true } := by
  rw [step, if_neg (by simp [hc])]
  split
  · rfl
  · simp_all

theorem step_of_line_some {c : Counter} {n : LineNumber} (hc : c.stopped = false)
    (hl : c.line = some n) :
    c.step lines =
      match (lines.get? n).bind StoredLine.stmt with
      | none => { c with line := above lines n }
      | some .remark => { c with line := above lines n }
      | some .stop => { c with stopped := true }
      | some st => c.execute lines n st := by
  rw [step, if_neg (by simp [hc])]
  split
  · simp_all
  · rename_i m hm
    obtain rfl : m = n := Option.some.inj (hm.symm.trans hl)
    rfl

theorem above_eq_some_iff {n k : LineNumber} :
    above lines n = some k ↔ IsLeast {j | j ∈ lines.keys ∧ n < j} k := by
  rw [above, List.min?_eq_some_iff, IsLeast, mem_lowerBounds]
  simp only [List.mem_filter, decide_eq_true_eq, Set.mem_ofPred_eq]

end Counter

/-- The next line is the smallest one above. -/
theorem Program.Consistent.next?_eq_above {p : Program} (h : p.Consistent) (n : LineNumber) :
    p.next? n = Counter.above p.lines n := by
  refine Option.ext fun k => ?_
  rw [h.next?_eq_find?, Table.find?_eq_some_iff h.ordered, Counter.above_eq_some_iff]

namespace Counter

variable {lines : Table LineNumber StoredLine} {i : Input} {s : Session} {c : Counter}
  {told events : List Event} {n : LineNumber} {st : Stmt}

/-- A session in the middle of a run without an alarm, and the machine, apart
from where they are. -/
structure Matches (lines : Table LineNumber StoredLine) (i : Input) (s : Session) (c : Counter) :
    Prop where
  consistent : s.program.Consistent
  lines_eq : s.program.lines = lines
  alarm : s.alarm = none
  interrupted : s.interrupted = false
  env : s.env = c.env
  input : s.input = i.setAnswers c.answers
  executed : s.executed = c.executed

/-- A run and the machine are at the same line and have told the same, or both
are over and the run has told its statistics. -/
inductive Agrees (lines : Table LineNumber StoredLine) (i : Input) (t : Turn) (c : Counter) : Prop
  | running : Matches lines i t.session c → t.stage = .running → c.stopped = false →
      t.session.program.cursor = c.line → t.events = c.output → Agrees lines i t c
  | ended : Matches lines i t.session c → t.stage = .idle → c.stopped = true →
      t.session.program.cursor = t.session.program.first? →
      t.events = c.output ++ [.statistics c.executed] → Agrees lines i t c

/-! ### What a pass may end with -/

theorem Matches.advanced (h : Matches lines i s c) : Matches lines i s.advanced c :=
  { h with consistent := h.consistent.of_lines_eq rfl rfl }

/-- Whether the machine has stopped, and where it is, is not part of matching. -/
theorem Matches.setLine (h : Matches lines i s c) (line : Option LineNumber) (stopped : Bool) :
    Matches lines i s { c with line, stopped } :=
  { h with }

theorem Matches.agrees_endRun (h : Matches lines i s c) (hc : c.stopped = true)
    (ho : c.output = told ++ events) :
    Agrees lines i
      ⟨(s.endRun events).session, told ++ (s.endRun events).events, (s.endRun events).stage⟩ c := by
  rw [Session.endRun_of_quiet h.alarm]
  refine .ended { h with consistent := h.consistent.of_lines_eq rfl rfl } rfl hc rfl ?_
  rw [ho, h.executed, List.append_assoc]

theorem Matches.agrees_turn (h : Matches lines i s c) (hc : c.stopped = false)
    (hl : s.program.cursor = c.line) (ho : c.output = told ++ events) :
    Agrees lines i
      ⟨(s.turn .running events).session, told ++ (s.turn .running events).events,
        (s.turn .running events).stage⟩ c := by
  rw [Session.turn_of_quiet h.alarm]
  exact .running h rfl hc hl ho.symm

/-- The statement of a line is what the machine finds there. -/
theorem Matches.stmt?_eq (h : Matches lines i s c) (n : LineNumber) :
    s.program.stmt? n = (lines.get? n).bind StoredLine.stmt := by
  rw [Program.stmt?, h.consistent.line?_eq, h.lines_eq]

theorem Matches.cursor_advanced (h : Matches lines i s c) (hn : s.program.cursor = some n) :
    s.advanced.program.cursor = above lines n := by
  have hnext := h.consistent.next?_eq_above n
  rw [h.lines_eq] at hnext
  simp only [Session.advanced, Program.advance, hn, Option.bind_some, hnext]

/-! ### One step -/

/-- The machine executes the statement as the session does. -/
theorem Matches.execute_eq (h : Matches lines i s c) :
    st.execute c.env c.answers = s.execution st := by
  rw [Session.execution, h.env, h.input, Input.answers_setAnswers]

theorem Matches.absorb (h : Matches lines i s c) (st : Stmt) (trace : List LineNumber)
    (output : List Event) :
    Matches lines i (s.absorb (s.execution st))
      { c with
        env := (s.execution st).env
        answers := (s.execution st).answers
        executed := c.executed + 1
        trace
        output } where
  consistent := h.consistent
  lines_eq := h.lines_eq
  alarm := h.alarm
  interrupted := h.interrupted
  env := rfl
  input := by
    simp only [Session.absorb]
    rw [h.input, Input.setAnswers_setAnswers]
  executed := congrArg (· + 1) h.executed

theorem Matches.agrees_executeLine (h : Matches lines i s c) (hc : c.stopped = false)
    (hl : s.program.cursor = above lines n) (ho : c.output = told) :
    Agrees lines i
      ⟨(s.executeLine st).session, told ++ (s.executeLine st).events, (s.executeLine st).stage⟩
      (c.execute lines n st) := by
  subst ho
  rw [execute, h.execute_eq]
  dsimp only
  cases ha : (s.execution st).action with
  | halt =>
      rw [Session.executeLine_of_halt ha]
      exact ((h.absorb st _ _).setLine c.line true).agrees_endRun rfl rfl
  | next =>
      rw [Session.executeLine_of_next ha]
      exact ((h.absorb st _ _).setLine (above lines n) c.stopped).agrees_turn hc hl rfl
  | jump t =>
      dsimp only
      have hstored : lines.contains t = true ↔ (s.program.line? t).isSome := by
        rw [h.consistent.isSome_line?_iff, h.lines_eq, Table.contains_iff]
      split_ifs with ht
      · rw [Session.executeLine_of_jump ha (hstored.1 ht)]
        have hm := (h.absorb st (c.trace ++ [n])
          (c.output ++ (s.execution st).events)).setLine (some t) c.stopped
        exact Matches.agrees_turn
          { hm with consistent := h.consistent.of_lines_eq rfl rfl } hc rfl rfl
      · have hnone : s.program.line? t = none := by
          rw [← Option.not_isSome_iff_eq_none, ← hstored]
          exact ht
        rw [Session.executeLine_of_jump_missing ha hnone]
        refine ((h.absorb st _ _).setLine (above lines n) c.stopped).agrees_turn hc hl ?_
        exact List.append_assoc _ _ _

theorem Matches.agrees_pass (h : Matches lines i s c) (hc : c.stopped = false)
    (hl : s.program.cursor = c.line) (ho : c.output = told) :
    Agrees lines i ⟨s.pass.session, told ++ s.pass.events, s.pass.stage⟩ (c.step lines) := by
  have hnil : c.output = told ++ [] := by rw [ho, List.append_nil]
  cases hn : s.program.cursor with
  | none =>
      rw [Session.pass_of_cursor_none h.interrupted hn, step_of_line_none hc (hl ▸ hn)]
      exact (h.advanced.setLine c.line true).agrees_endRun rfl hnil
  | some n =>
      have hcur := h.cursor_advanced hn
      rw [Session.pass_of_cursor_some h.interrupted hn, step_of_line_some hc (hl ▸ hn),
        ← h.stmt?_eq n]
      cases s.program.stmt? n with
      | none => exact (h.advanced.setLine _ c.stopped).agrees_turn hc hcur hnil
      | some st =>
          cases st with
          | remark => exact (h.advanced.setLine _ c.stopped).agrees_turn hc hcur hnil
          | stop => exact (h.advanced.setLine c.line true).agrees_endRun rfl hnil
          | _ => exact h.advanced.agrees_executeLine hc hcur ho

theorem Agrees.step {t : Turn} (h : Agrees lines i t c) : Agrees lines i t.onward (c.step lines) := by
  cases h with
  | running hm hs hc hl ho =>
      rw [Turn.onward_of_running hs]
      exact hm.agrees_pass hc hl ho.symm
  | ended hm hs hc hl ho =>
      rw [Turn.onward_of_not_running (by simp [hs]), step_of_stopped hc]
      exact .ended hm hs hc hl ho

theorem execute_trace (c : Counter) (n : LineNumber) (st : Stmt) :
    (c.execute lines n st).trace = c.trace ++ [n] := by
  rw [execute]
  dsimp only
  split
  · rfl
  · split_ifs <;> rfl
  · rfl

/-- The machine executes the line that the pass executes. -/
theorem Agrees.trace_step {t : Turn} (h : Agrees lines i t c) :
    (c.step lines).trace = c.trace ++ t.executing?.toList := by
  cases h with
  | running hm hs hc hl ho =>
      rw [Turn.executing?_of_running hs]
      cases hn : t.session.program.cursor with
      | none =>
          rw [Session.executing?_of_cursor_none hn, step_of_line_none hc (hl ▸ hn)]
          exact (List.append_nil _).symm
      | some n =>
          rw [Session.executing?_of_cursor_some hm.interrupted hn, step_of_line_some hc (hl ▸ hn),
            ← hm.stmt?_eq n]
          cases t.session.program.stmt? n with
          | none => exact (List.append_nil _).symm
          | some st =>
              cases st with
              | remark => exact (List.append_nil _).symm
              | stop => exact (List.append_nil _).symm
              | _ => exact execute_trace _ _ _
  | ended hm hs hc hl ho =>
      rw [Turn.executing?_of_not_running (by simp [hs]), step_of_stopped hc]
      exact (List.append_nil _).symm

/-! ### The whole run -/

theorem agrees_beginRun (hcon : s.program.Consistent) (hf : s.program.first? ≠ none)
    (ha : s.alarm = none) :
    Agrees s.program.lines s.input s.beginRun (ofSession s) := by
  rw [Session.beginRun_of_first?_ne hf]
  refine .running ⟨hcon, rfl, ha, rfl, rfl, ?_, rfl⟩ rfl rfl rfl rfl
  exact s.input.setAnswers_answers.symm

theorem run_agrees (hcon : s.program.Consistent) (hf : s.program.first? ≠ none)
    (ha : s.alarm = none) (n : Nat) :
    Agrees s.program.lines s.input (s.beginRun.after n)
        ((step s.program.lines)^[n] (ofSession s)) ∧
      s.beginRun.trace n = ((step s.program.lines)^[n] (ofSession s)).trace := by
  induction n with
  | zero => exact ⟨agrees_beginRun hcon hf ha, rfl⟩
  | succ n ih =>
      obtain ⟨hag, htr⟩ := ih
      rw [Turn.after_succ, Turn.trace, Function.iterate_succ_apply']
      exact ⟨hag.step, by rw [hag.trace_step, htr]⟩

/-- What can be seen of a run from `s` is what can be seen of the machine. -/
structure Shows (s : Session) (t : Turn) (c : Counter) : Prop where
  env : t.session.env = c.env
  input : t.session.input = s.input.setAnswers c.answers
  executed : t.session.executed = c.executed
  running_iff : t.stage = .running ↔ c.stopped = false
  events : t.events = c.output ++ if c.stopped then [.statistics c.executed] else []
  /-- Where no statistics are shown, the bytes written are the same. -/
  written : ∀ d : Display, d.stats = false →
    Event.renderAll d t.events = Event.renderAll d c.output
  /-- Until the end the cursor is at the line of the machine, and nothing else in
  the program has changed. -/
  program : t.stage = .running → t.session.program = { s.program with cursor := c.line }
  /-- At the end the cursor is at the lowest line. -/
  rewound : t.stage ≠ .running → t.stage = .idle ∧
    ∃ k, IsLeast {j | (s.program.line? j).isSome} k ∧
      t.session.program = { s.program with cursor := some k }

theorem program_after (s : Session) (n : Nat) :
    (s.beginRun.after n).session.program =
      { s.program with cursor := (s.beginRun.after n).session.program.cursor } := by
  obtain ⟨hlines, hcount⟩ := s.beginRun.after_lines n
  rw [Session.beginRun_program] at hlines hcount
  dsimp only
  rw [← hlines, ← hcount]

theorem Agrees.shows {n : Nat} (hf : s.program.first? ≠ none)
    (h : Agrees s.program.lines s.input (s.beginRun.after n) c) :
    Shows s (s.beginRun.after n) c := by
  have hp := program_after s n
  cases h with
  | running hm hs hc hl ho =>
      exact {
        env := hm.env
        input := hm.input
        executed := hm.executed
        running_iff := by simp [hs, hc]
        events := by simp [ho, hc]
        written := fun d _ => by rw [ho]
        program := fun _ => by rw [hp, hl]
        rewound := fun hne => absurd hs hne }
  | ended hm hs hc hl ho =>
      obtain ⟨k, hk⟩ := Option.ne_none_iff_exists'.1 hf
      have hfirst : (s.beginRun.after n).session.program.first? = some k := by
        rw [hp]
        exact hk
      have hcon : s.program.Consistent := by
        refine hm.consistent.of_lines_eq ?_ ?_ <;> rw [hp]
      exact {
        env := hm.env
        input := hm.input
        executed := hm.executed
        running_iff := by simp [hs, hc]
        events := by simp [ho, hc]
        written := fun d hd => by
          rw [ho, Event.renderAll_append]
          simp [Event.renderAll, Event.render, Event.renderWith, hd]
        program := fun hr => by simp [hs] at hr
        rewound := fun _ => ⟨hs, k, hcon.first?_eq_some_iff.1 hk, by rw [hp, hl, hfirst]⟩ }

/-- A run of a program that is not empty, without an alarm, is the machine at its
cursor: step for step the same, it ends if and only if the machine stops, and the
program is left as it was, with the cursor on the lowest line. -/
theorem run_shows_counter (hcon : s.program.Consistent) (hne : s.program.size ≠ 0)
    (ha : s.alarm = none) :
    (∀ n, s.beginRun.trace n = ((step s.program.lines)^[n] (ofSession s)).trace ∧
        Shows s (s.beginRun.after n) ((step s.program.lines)^[n] (ofSession s))) ∧
      ((∃ n, (s.beginRun.after n).stage ≠ .running) ↔
        ∃ n, ((step s.program.lines)^[n] (ofSession s)).stopped = true) := by
  have hf : s.program.first? ≠ none := hcon.first?_ne_none_iff.2 hne
  have hrun (n : Nat) := run_agrees hcon hf ha n
  have hshows (n : Nat) := (hrun n).1.shows hf
  refine ⟨fun n => ⟨(hrun n).2, hshows n⟩, exists_congr fun n => ?_⟩
  rw [Ne, (hshows n).running_iff, Bool.not_eq_false]

/-- Jumps to a line that is not there, the second one from the last line. -/
theorem run_shows_counter_missing_targets :
    let s : Session :=
      { program :=
          ⟨⟨[(10, ⟨[], some (.jump 99)⟩), (20, ⟨[], some .remark⟩), (30, ⟨[], some (.jump 5)⟩)]⟩,
            3, some 10⟩ }
    s.program.Consistent ∧ s.beginRun.trace 4 = [10, 30] ∧
      (s.beginRun.after 4).stage ≠ .running ∧
      (s.beginRun.after 4).events =
        [.fault .lineNumber, .fault .lineNumber, .statistics 2] := by
  intro s
  have hcon : s.program.Consistent := ⟨by simp [s, Table.Ordered, Table.keys], rfl⟩
  obtain ⟨htrace, hshows⟩ := (run_shows_counter hcon (by decide) rfl).1 4
  refine ⟨hcon, htrace.trans (by decide), ?_, hshows.events.trans (by decide)⟩
  rw [Ne, hshows.running_iff]
  decide

end Counter

end LineBasic
