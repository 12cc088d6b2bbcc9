import LineBasic.Proofs.Clear
import LineBasic.Proofs.Display
import LineBasic.Proofs.Expr.Printer
import LineBasic.Proofs.History

/-!
# Interrupts

An interrupt is heeded between two statements and nowhere else.  The run with an
alarm is compared with the run without one: until the alarm rings they are the
same, and the pass in which it rings differs only in the interrupt that is left
(`Turn.after_heardBy`).  If that pass goes on, the next one tells `INTERRUPTED`
and ends the run; if it ends the run, the interrupt is left to the session, where
nothing ever asks for it (`Machine.Alike`).

All that an alarm does is told by `Alarm.heard`: the alarm that remains after it
has heard some events, if it has not rung.
-/

namespace LineBasic

/-! ### Hearing -/

namespace Alarm

variable {a : Alarm} {e : Event} {es fs : List Event}

/-- The alarm that remains when it has heard the events without ringing. -/
def heard (a : Alarm) (events : List Event) : Option Alarm :=
  events.foldlM (fun a e => (a.hear e).2) a

/-- The alarm hears the events without ringing, and rings at the next one. -/
structure RingsAt (a : Alarm) (told : List Event) (e : Event) : Prop where
  quiet : (a.heard told).isSome
  rings : a.heard (told ++ [e]) = none

theorem heard_nil (a : Alarm) : a.heard [] = some a := rfl

theorem heard_cons (a : Alarm) (e : Event) (es : List Event) :
    a.heard (e :: es) = (a.hear e).2.bind fun b => b.heard es := rfl

theorem heard_append (a : Alarm) (es fs : List Event) :
    a.heard (es ++ fs) = (a.heard es).bind fun b => b.heard fs :=
  List.foldlM_append

theorem isSome_heard_of_append (h : (a.heard (es ++ fs)).isSome) : (a.heard es).isSome := by
  rw [heard_append] at h
  exact Option.isSome_of_isSome_bind h

theorem heard_append_eq_none (h : a.heard es = none) (fs : List Event) :
    a.heard (es ++ fs) = none := by
  rw [heard_append, h, Option.bind_none]

theorem hear_rings (a : Alarm) (e : Event) : (a.hear e).1 = (a.hear e).2.isNone := by
  rw [hear]
  split_ifs <;> rfl

/-- Any moment can be that of an alarm. -/
theorem ringsAt_next (told : List Event) (e : Event) :
    RingsAt ⟨told.length + 1, .events⟩ told e := by
  have hheard : heard ⟨told.length + 1, .events⟩ told = some ⟨1, .events⟩ := by
    induction told with
    | nil => rfl
    | cons d ds ih =>
        have hd : (hear ⟨(d :: ds).length + 1, .events⟩ d).2 = some ⟨ds.length + 1, .events⟩ := by
          simp [hear, Measure.amount]
        rw [heard_cons, hd]
        exact ih
  exact ⟨by simp [hheard], by rw [heard_append, hheard]; rfl⟩

end Alarm

namespace Session

variable {s : Session}

/-- The session with an alarm. -/
def armed (s : Session) (a : Alarm) : Session :=
  { s with alarm := some a }

/-- What an alarm comes to when it hears what is told in a run. -/
theorem tell_armed (hi : s.interrupted = false) (hr : s.running = true) (a : Alarm)
    (events : List Event) :
    ((s.armed a).tell events).1 =
      { s with alarm := a.heard events, interrupted := (a.heard events).isNone } := by
  induction events generalizing a with
  | nil => simp [tell, armed, Alarm.heard_nil, ← hi]
  | cons e es ih =>
      have hcons : ((s.armed a).tell (e :: es)).1 = (((s.armed a).hear e).tell es).1 := rfl
      rw [hcons, Alarm.heard_cons]
      cases ha : (a.hear e).2 with
      | some b =>
          have hhear : (s.armed a).hear e = s.armed b := by
            simp [hear, armed, a.hear_rings, ha]
          rw [hhear, ih b]
          rfl
      | none =>
          have hhear : (s.armed a).hear e = { s with alarm := none, interrupted := true } := by
            simp [hear, armed, a.hear_rings, ha, interrupt, hr]
          rw [hhear, tell_of_alarm_none rfl]
          rfl

/-- The session with the cursor on the first line. -/
def rewound (s : Session) : Session :=
  { s with program := s.program.rewind }

theorem tell_rewound (s : Session) (events : List Event) :
    (s.rewound.tell events).1 = (s.tell events).1.rewound :=
  calc (s.rewound.tell events).1
      = { (s.tell events).1 with program := s.program.rewind, env := s.env } :=
        s.tell_with s.program.rewind s.env events
    _ = (s.tell events).1.rewound := by simp [rewound]

/-- The end of a run tells the statistics along with the rest. -/
theorem endRun_eq (s : Session) (events : List Event) :
    s.endRun events =
      ⟨{ (s.rewound.tell (events ++ [.statistics s.executed])).1 with running := false },
        events ++ [.statistics s.executed], .idle⟩ := by
  let told : Session := (s.tell events).1.rewound
  have hunfold : s.endRun events =
      ⟨{ (told.tell [.statistics told.executed]).1 with running := false },
        events ++ [.statistics (told.tell [.statistics told.executed]).1.executed], .idle⟩ := rfl
  have hexecuted : told.executed = s.executed := tell_executed s events
  have htell : (told.tell [.statistics s.executed]).1 =
      (s.rewound.tell (events ++ [.statistics s.executed])).1 := by
    simp only [told, ← tell_rewound]
    simp only [tell, List.foldl_append]
  rw [hunfold, tell_executed, hexecuted, htell]

end Session

/-- The turn with an interrupt that is not heeded yet. -/
def Turn.rung (t : Turn) : Turn :=
  { t with session := { t.session with interrupted := true } }

/-- The turn as it is when an alarm has heard its events in a run. -/
def Turn.heardBy (t : Turn) (a : Alarm) : Turn :=
  { t with session :=
    { t.session with alarm := a.heard t.events, interrupted := (a.heard t.events).isNone } }

namespace Session

variable {s : Session}

theorem turn_heardBy (hi : s.interrupted = false) (ha : s.alarm = none) (hr : s.running = true)
    (a : Alarm) (stage : Stage) (events : List Event) :
    (s.armed a).turn stage events = (s.turn stage events).heardBy a := by
  rw [turn_of_quiet ha, turn, tell_armed hi hr]
  rfl

/-- The alarm hears the statistics as well, while the run is still on. -/
theorem endRun_heardBy (hi : s.interrupted = false) (ha : s.alarm = none) (hr : s.running = true)
    (a : Alarm) (events : List Event) :
    (s.armed a).endRun events = (s.endRun events).heardBy a := by
  have harmed : (s.armed a).rewound = s.rewound.armed a := rfl
  rw [endRun_of_quiet ha, endRun_eq, harmed, tell_armed (s := s.rewound) hi hr]
  rfl

/-- With an alarm a pass does what it does without one. -/
theorem pass_heardBy (hi : s.interrupted = false) (ha : s.alarm = none) (hr : s.running = true)
    (a : Alarm) : (s.armed a).pass = s.pass.heardBy a := by
  let R (u u' : Session) : Prop :=
    u' = u.armed a ∧ u.interrupted = false ∧ u.alarm = none ∧ u.running = true
  have hp : (s.armed a).program = s.program := rfl
  have hR : R s (s.armed a) := ⟨rfl, hi, ha, hr⟩
  obtain ⟨t', hpass, ht'⟩ := (passes_pass hi).lockstep (Q := fun t t' => t' = t.heardBy a) hp hR
    (fun n st _ => ⟨rfl, rfl, rfl, hi, ha, hr⟩)
    (fun u u' program events h => by
      obtain ⟨rfl, hi, ha, hr⟩ := h
      exact turn_heardBy (s := { u with program }) hi ha hr a .running events)
    (fun u u' program events h => by
      obtain ⟨rfl, hi, ha, hr⟩ := h
      exact endRun_heardBy (s := { u with program }) hi ha hr a events)
  rw [hpass.pass_eq hi, ht']

end Session

/-! ### Until the alarm rings -/

namespace Turn

variable {t u : Turn} {a : Alarm}

/-- There is no alarm and no interrupt, and the session knows whether it is in a
run. -/
structure Quiet (t : Turn) : Prop where
  alarm : t.session.alarm = none
  interrupted : t.session.interrupted = false
  running : t.session.running = true ↔ t.stage = .running

theorem Quiet.onward (h : t.Quiet) : t.onward.Quiet := by
  by_cases hs : t.stage = .running
  · obtain ⟨halarm, hinterrupted⟩ := Session.pass_quiet h.alarm h.interrupted
    rw [onward_of_running hs]
    exact ⟨halarm, hinterrupted, Session.pass_running (h.running.2 hs)⟩
  · rwa [onward_of_not_running hs]

theorem Quiet.after (h : t.Quiet) (n : Nat) : (t.after n).Quiet := by
  induction n with
  | zero => exact h
  | succ n ih =>
      rw [after_succ]
      exact ih.onward

theorem quiet_beginRun {s : Session} (ha : s.alarm = none) (hf : s.program.first? ≠ none) :
    s.beginRun.Quiet := by
  rw [Session.beginRun_of_first?_ne hf]
  exact ⟨ha, rfl, by simp⟩

theorem heardBy_eq_of_some (h : t.Quiet) {b : Alarm} (hb : a.heard t.events = some b) :
    t.heardBy a = { t with session := t.session.armed b } := by
  rw [heardBy, hb, Session.armed, h.interrupted]
  rfl

theorem heardBy_eq_of_none (h : t.Quiet) (hb : a.heard t.events = none) :
    t.heardBy a = t.rung := by
  have halarm : { t.session with interrupted := true } =
      { t.session with alarm := none, interrupted := true } := by rw [← h.alarm]
  rw [heardBy, hb, rung, halarm]
  rfl

/-- An alarm that has not rung yet goes through one more pass, and may ring in
it. -/
theorem onward_heardBy (h : t.Quiet) (hq : (a.heard t.events).isSome) :
    (t.heardBy a).onward = t.onward.heardBy a := by
  obtain ⟨b, hb⟩ := Option.isSome_iff_exists.1 hq
  by_cases hs : t.stage = .running
  · have hpass := Session.pass_heardBy h.interrupted h.alarm (h.running.2 hs) b
    have hs' : ({ t with session := t.session.armed b } : Turn).stage = .running := hs
    rw [heardBy_eq_of_some h hb, onward_of_running hs, onward_of_running hs', hpass]
    simp only [heardBy, Alarm.heard_append, hb, Option.bind_some]
  · have hs' : (t.heardBy a).stage ≠ .running := hs
    rw [onward_of_not_running hs, onward_of_not_running hs']

/-- The events of a run only grow. -/
theorem events_onward (t : Turn) : ∃ es, t.onward.events = t.events ++ es := by
  by_cases hs : t.stage = .running
  · exact ⟨_, by rw [onward_of_running hs]⟩
  · exact ⟨[], by rw [onward_of_not_running hs, List.append_nil]⟩

theorem isSome_heard_of_succ {n : Nat} (h : (a.heard (t.after (n + 1)).events).isSome) :
    (a.heard (t.after n).events).isSome := by
  obtain ⟨es, hes⟩ := (t.after n).events_onward
  rw [after_succ, hes] at h
  exact Alarm.isSome_heard_of_append h

/-- Up to the pass in which the alarm rings, and in that pass, the run is the one
without an alarm, but for what the alarm has heard. -/
theorem after_heardBy (h : t.Quiet) {n : Nat} (hq : (a.heard (t.after n).events).isSome) :
    (t.heardBy a).after n = (t.after n).heardBy a ∧
      (t.heardBy a).after (n + 1) = (t.after (n + 1)).heardBy a := by
  have hstep {n : Nat} (hn : (t.heardBy a).after n = (t.after n).heardBy a)
      (hq : (a.heard (t.after n).events).isSome) :
      (t.heardBy a).after (n + 1) = (t.after (n + 1)).heardBy a := by
    rw [after_succ, after_succ, hn, onward_heardBy (h.after n) hq]
  induction n with
  | zero => exact ⟨rfl, hstep rfl hq⟩
  | succ n ih =>
      have hn := (ih (isSome_heard_of_succ hq)).2
      exact ⟨hn, hstep hn hq⟩

theorem trace_succ (t : Turn) (n : Nat) :
    t.trace (n + 1) = t.trace n ++ (t.after n).executing?.toList := rfl

theorem executing?_heardBy (h : t.Quiet) (hq : (a.heard t.events).isSome) :
    (t.heardBy a).executing? = t.executing? := by
  obtain ⟨b, hb⟩ := Option.isSome_iff_exists.1 hq
  rw [heardBy_eq_of_some h hb]
  rfl

theorem trace_heardBy (h : t.Quiet) {n : Nat} (hq : (a.heard (t.after n).events).isSome) :
    (t.heardBy a).trace (n + 1) = t.trace (n + 1) := by
  induction n with
  | zero => rw [trace_succ, trace_succ, after_zero, after_zero, executing?_heardBy h hq]; rfl
  | succ n ih =>
      rw [trace_succ, trace_succ t, ih (isSome_heard_of_succ hq), (after_heardBy h hq).1,
        executing?_heardBy (h.after _) hq]

/-! ### The end of a run -/

theorem after_add_of_ended {m : Nat} (h : (t.after m).stage ≠ .running) (j : Nat) :
    t.after (m + j) = t.after m := by
  induction j with
  | zero => rfl
  | succ j ih => rw [← Nat.add_assoc, after_succ, ih, onward_of_not_running h]

theorem trace_add_of_ended {m : Nat} (h : (t.after m).stage ≠ .running) (j : Nat) :
    t.trace (m + j) = t.trace m := by
  induction j with
  | zero => rfl
  | succ j ih =>
      rw [← Nat.add_assoc, trace_succ, ih, after_add_of_ended h, executing?_of_not_running h]
      simp

end Turn

theorem Program.rewind_eq_of_lines_eq {p q : Program} (hl : q.lines = p.lines)
    (hc : q.count = p.count) : q.rewind = p.rewind := by
  obtain ⟨lines, count, cursor⟩ := p
  obtain ⟨lines', count', cursor'⟩ := q
  obtain rfl : lines' = lines := hl
  obtain rfl : count' = count := hc
  rfl

namespace Turn

variable {t : Turn}

/-- At the end of a run the cursor is on the first line. -/
theorem program_of_ended {n : Nat} (hn : (t.after n).stage = .running)
    (he : (t.after (n + 1)).stage ≠ .running) :
    (t.after (n + 1)).session.program = t.session.program.rewind := by
  rw [after_succ, onward_of_running hn] at he ⊢
  obtain ⟨hl, hc⟩ := t.after_lines n
  rw [Session.pass_ended he, Program.rewind_eq_of_lines_eq hl hc]

end Turn

/-! ### What is not told -/

theorem Op.apply_ne_interrupted {op : Op} {v w : Value} {f : Fault}
    (h : op.apply v w = .error f) : f ≠ .interrupted := by
  rintro rfl
  cases op with
  | div =>
      rw [apply] at h
      split_ifs at h
      cases h
  | _ => cases h

/-- No expression is at fault for an interrupt. -/
theorem Expr.interrupted_not_mem_faults (e : Expr) (env : Env) :
    .interrupted ∉ (e.eval env).faults := by
  induction e generalizing env with
  | const v => simp [eval, Evaluation.success]
  | malformed tag => simp [eval, Evaluation.failure]
  | var x =>
      rw [eval]
      cases env.get? x with
      | none => simp [Evaluation.failure]
      | some v => simp [Evaluation.success]
  | binary op l r ihl ihr =>
      by_cases hop : op = .assign
      · subst hop
        cases l with
        | var x =>
            rw [eval, Evaluation.assignTo]
            cases (r.eval env).env.bind? x (r.eval env).value with
            | none => simpa using ihr env
            | some env' => exact ihr env
        | _ => simp [eval, Evaluation.failure]
      · rw [Expr.eval_arithmetic hop, Evaluation.combine]
        cases happly : op.apply (l.eval env).value (r.eval (l.eval env).env).value with
        | ok v => simpa using ⟨ihl env, ihr _⟩
        | error f => simpa using ⟨ihl env, ihr _, (Op.apply_ne_interrupted happly).symm⟩

theorem Source.interrupted_not_mem_inquire {src : Source} (h : src.inquire.value.isSome) :
    .fault .interrupted ∉ src.inquire.events := by
  fun_induction Source.inquire src with
  | case2 s src v hv => simp
  | case3 s src f hf ih =>
      have hne : f ≠ .interrupted := by
        rintro rfl
        rw [Value.ofLine] at hf
        split at hf <;> cases hf
      simpa [Inquiry.after, hne.symm] using ih h
  | _ => cases h

/-- Only a statement that halts the run tells of an interrupt. -/
theorem Stmt.interrupted_not_mem_execute {st : Stmt} {env : Env} {answers : Source}
    (h : (st.execute env answers).action ≠ .halt) :
    .fault .interrupted ∉ (st.execute env answers).events := by
  cases st with
  | remark | stop | jump t => simp [execute]
  | malformed tag => simp [execute]
  | assign e =>
      have he := e.interrupted_not_mem_faults env
      simp only [execute]
      split_ifs <;> simpa using he
  | print e =>
      have he := e.interrupted_not_mem_faults env
      simp only [execute]
      split_ifs <;> simpa using he
  | branch l cmp r t =>
      have hl := l.interrupted_not_mem_faults env
      have hr := r.interrupted_not_mem_faults (l.eval env).env
      simp only [execute, branchAction]
      split <;> simpa using ⟨hl, hr⟩
  | input x =>
      simp only [execute, executeInput] at h ⊢
      cases hv : answers.inquire.value with
      | none => simp [hv] at h
      | some v =>
          have hinquire : .fault .interrupted ∉ answers.inquire.events :=
            Source.interrupted_not_mem_inquire (by simp [hv])
          dsimp only
          cases env.bind? x v with
          | none => simpa using hinquire
          | some env' => exact hinquire

theorem Session.Passes.interrupted_not_mem {s : Session} {t : Turn} (h : s.Passes t)
    (hs : t.stage = .running) : .fault .interrupted ∉ t.events := by
  cases h with
  | runsOut | stops | halts => cases hs
  | skips => simp [turn]
  | goesOn _ ha | jumps _ ha _ =>
      exact Stmt.interrupted_not_mem_execute (by rw [execution] at ha; simp [ha])
  | @misses n t st _ ha _ =>
      have hexecution : .fault .interrupted ∉ (s.execution st).events :=
        Stmt.interrupted_not_mem_execute (by rw [execution] at ha; simp [ha])
      simpa [turn] using hexecution

theorem Turn.Quiet.interrupted_not_mem {t : Turn} (h : t.Quiet) (ht : t.events = []) {n : Nat}
    (hn : (t.after n).stage = .running) : .fault .interrupted ∉ (t.after n).events := by
  induction n with
  | zero => simp [after_zero, ht]
  | succ n ih =>
      rw [after_succ] at hn ⊢
      by_cases hs : (t.after n).stage = .running
      · rw [onward_of_running hs] at hn ⊢
        have hpass := (Session.passes_pass (h.after n).interrupted).interrupted_not_mem hn
        simpa using ⟨ih hs, hpass⟩
      · rw [onward_of_not_running hs] at hn
        exact absurd hn hs

/-! ### Heeding an interrupt -/

namespace Session

variable {s : Session}

theorem pass_interrupted (ha : s.alarm = none) (hi : s.interrupted = false) :
    { s with interrupted := true }.pass =
      ⟨{ s with program := s.program.rewind, running := false },
        [.fault .interrupted, .statistics s.executed], .idle⟩ := by
  have hs : { s with interrupted := false } = s := by rw [← hi]
  calc { s with interrupted := true }.pass
      = { s with interrupted := false }.endRun [.fault .interrupted] := pass_of_interrupted rfl
    _ = s.endRun [.fault .interrupted] := by rw [hs]
    _ = _ := endRun_of_quiet ha _

theorem executeLine_executed (s : Session) (st : Stmt) :
    (s.executeLine st).session.executed = s.executed + 1 := by
  have hturn (s : Session) (events : List Event) :
      (s.turn .running events).session.executed = s.executed := tell_executed s events
  cases h : (s.execution st).action with
  | halt =>
      rw [executeLine_of_halt h, endRun_eq]
      exact tell_executed _ _
  | next =>
      rw [executeLine_of_next h, hturn]
      rfl
  | jump t =>
      cases ht : s.program.line? t with
      | none =>
          rw [executeLine_of_jump_missing h ht, hturn]
          rfl
      | some l =>
          rw [executeLine_of_jump h (by simp [ht]), hturn]
          rfl

theorem Executes.executing?_eq {k : LineNumber} {st : Stmt} (h : s.Executes k st)
    (hi : s.interrupted = false) : s.executing? = some k := by
  rw [executing?_of_cursor_some hi h.cursor, h.stmt]
  exact if_pos h.counted

theorem first?_ne_none_of_running {n : Nat} (h : (s.beginRun.after n).stage = .running) :
    s.program.first? ≠ none := by
  intro hf
  have hidle : (s.beginRun.after 0).stage ≠ .running := by
    rw [Turn.after_zero, beginRun, hf]
    simp [turn]
  rw [← Nat.zero_add n, Turn.after_add_of_ended hidle] at h
  exact hidle h

theorem beginRun_heardBy (hf : s.program.first? ≠ none) (a : Alarm) :
    (s.armed a).beginRun = s.beginRun.heardBy a := by
  have hf' : (s.armed a).program.first? ≠ none := hf
  rw [beginRun_of_first?_ne hf, beginRun_of_first?_ne hf']
  rfl

end Session

namespace Turn

variable {u : Turn} {a : Alarm} {n : Nat}

theorem stage_of_ended (hn : (u.after n).stage = .running)
    (hv : (u.after (n + 1)).stage ≠ .running) : (u.after (n + 1)).stage = .idle := by
  rw [after_succ, onward_of_running hn] at hv ⊢
  exact (u.after n).session.pass_stage.resolve_left hv

/-- The pass in which the alarm rings leaves an interrupt. -/
theorem after_rung (h : u.Quiet) (hquiet : (a.heard (u.after n).events).isSome)
    (hrings : a.heard (u.after (n + 1)).events = none) :
    (u.heardBy a).after (n + 1) = (u.after (n + 1)).rung := by
  rw [(after_heardBy h hquiet).2, heardBy_eq_of_none (h.after (n + 1)) hrings]

/-- Nothing is executed before an interrupt is heeded. -/
theorem executing?_rung (t : Turn) : t.rung.executing? = none := by
  rw [executing?]
  split
  · rfl
  · rfl

/-- A statement that is met is executed and counted. -/
theorem Quiet.executes (h : u.Quiet) (hn : (u.after n).stage = .running) {k : LineNumber}
    {st : Stmt} (hx : (u.after n).session.Executes k st) :
    u.trace (n + 1) = u.trace n ++ [k] ∧
      (u.after (n + 1)).session.executed = (u.after n).session.executed + 1 := by
  have hi := (h.after n).interrupted
  constructor
  · rw [trace_succ, executing?_of_running hn, hx.executing?_eq hi, Option.toList_some]
  · rw [after_succ, onward_of_running hn]
    dsimp only
    rw [hx.pass_eq hi, Session.executeLine_executed]
    rfl

/-- How a run ends after the pass in which the alarm rings. -/
theorem after_rung_add (h : u.Quiet) (hn : (u.after n).stage = .running)
    (hquiet : (a.heard (u.after n).events).isSome)
    (hrings : a.heard (u.after (n + 1)).events = none) (j : Nat) :
    let v := u.after (n + 1)
    (u.heardBy a).after (n + 2 + j) =
      ⟨{ v.session with
          program := u.session.program.rewind
          running := false
          interrupted := decide (v.stage ≠ .running) },
        v.events ++
          if v.stage = .running then [.fault .interrupted, .statistics v.session.executed] else [],
        .idle⟩ := by
  intro v
  have hv : v.Quiet := h.after (n + 1)
  have hrung : (u.heardBy a).after (n + 1) = v.rung := after_rung h hquiet hrings
  by_cases hs : v.stage = .running
  · obtain ⟨hl, hc⟩ := u.after_lines (n + 1)
    have hnext : (u.heardBy a).after (n + 2) =
        ⟨{ v.session with program := v.session.program.rewind, running := false },
          v.events ++ [.fault .interrupted, .statistics v.session.executed], .idle⟩ := by
      have hpass : v.rung.session.pass = _ := Session.pass_interrupted hv.alarm hv.interrupted
      have hs' : v.rung.stage = .running := hs
      rw [after_succ, hrung, onward_of_running hs', hpass]
      rfl
    have hidle : ((u.heardBy a).after (n + 2)).stage ≠ .running := by simp [hnext]
    rw [after_add_of_ended hidle, hnext, Program.rewind_eq_of_lines_eq hl hc]
    simp [hs, ← hv.interrupted]
  · have hended : ((u.heardBy a).after (n + 1)).stage ≠ .running := by rwa [hrung]
    have hrunning : v.session.running = false := by simpa using fun hr => hs (hv.running.1 hr)
    have hprogram : v.session.program = u.session.program.rewind := program_of_ended hn hs
    have hadd : n + 2 + j = n + 1 + (1 + j) := by omega
    rw [hadd, after_add_of_ended hended, hrung, ← hprogram]
    simp [rung, hrunning, v, stage_of_ended hn hs]

end Turn

namespace Session

variable {s : Session}

/-- A run begins without the interrupt that another one has left. -/
theorem beginRun_calm (hf : s.program.first? ≠ none) (alarm : Option Alarm) :
    { s with alarm }.beginRun = { s with alarm, interrupted := false }.beginRun := by
  rw [beginRun_of_first?_ne (s := { s with alarm }) hf,
    beginRun_of_first?_ne (s := { s with alarm, interrupted := false }) hf]

/-- No program runs, and the program is `p` with the cursor on the lowest line. -/
structure RestsOn (s : Session) (p : Program) : Prop where
  stopped : s.running = false
  program : s.program = { p with cursor := s.program.cursor }
  cursor : ∀ k, s.program.cursor = some k ↔ IsLeast {j | (p.line? j).isSome} k

end Session

/-! ### What is left of an interrupt -/

namespace Machine

/-- Outside of a run nothing asks for an interrupt. -/
theorem alike_calm {s : Session} (h : s.alarm = none) (file : ProgramFile) :
    Alike { session := s, file } { session := { s with interrupted := false }, file } :=
  .stale (m := { session := { s with interrupted := false }, file }) s.executed s.interrupted
    s.running (by simp) h

end Machine

/-- Outside of a run an interrupt is refused, and nothing changes. -/
theorem Session.interrupt_of_not_running {s : Session} (h : s.running = false) :
    s.interrupt = (false, s) := by
  have hor : (s.interrupted || s.running) = s.interrupted := by rw [h, Bool.or_false]
  rw [interrupt, hor]
  exact Prod.ext h rfl

namespace Session

variable {s : Session}

/-- A run without an alarm, and any event that is told in one of its passes, by a
statement, by the report of a missing line or by the statistics.  With an alarm
that rings at that event, the run goes through the same passes up to that one, and
in it does the same, so a statement is completed and counted; but an interrupt is
left.  No other statement is executed.  If the run would have gone on, the next
pass tells `INTERRUPTED`, for the only time, and the statistics, and that is the
end; if the run ended with that pass, it does so without a word about the
interrupt.  Either way no program runs then, and the program is as it was with the
cursor on the lowest line.  An interrupt that is left means nothing to the next
run, nor to anything before it.  And whatever has happened to a new machine,
outside of a run an interrupt is refused and changes nothing. -/
theorem interrupt_stops_run (hs : s.program.Consistent) (hq : s.alarm = none) {n : Nat}
    {before after : List Event} {e : Event} {a : Alarm}
    (hrunning : (s.beginRun.after n).stage = .running)
    (htells : (s.beginRun.after n).session.pass.events = before ++ e :: after)
    (hrings : a.RingsAt ((s.beginRun.after n).events ++ before) e) :
    let u := s.beginRun
    let t := (s.armed a).beginRun
    let v := u.after (n + 1)
    (t.after (n + 1) = v.rung ∧
      t.trace (n + 1) = u.trace (n + 1) ∧
      ∀ k st, (u.after n).session.Executes k st →
        u.trace (n + 1) = u.trace n ++ [k] ∧
          v.session.executed = (u.after n).session.executed + 1) ∧
    (∀ j,
      let f := t.after (n + 2 + j)
      t.trace (n + 2 + j) = t.trace (n + 1) ∧ f.stage = .idle ∧
      f.session =
        { v.session with
          program := s.program.rewind
          running := false
          interrupted := decide (v.stage ≠ .running) } ∧
      f.session.RestsOn s.program ∧
      (v.stage = .running →
        f.events = v.events ++ [.fault .interrupted, .statistics v.session.executed] ∧
          f.events.count (.fault .interrupted) = 1) ∧
      (v.stage ≠ .running → f.events = v.events) ∧
      (∀ alarm, { f.session with alarm }.beginRun =
        { f.session with alarm, interrupted := false }.beginRun) ∧
      ∀ file, Machine.Indistinct { session := f.session, file }
        { session := { f.session with interrupted := false }, file }) ∧
    ∀ hs : List Happening,
      let m := ({} : Machine).through hs
      m.stage ≠ .running → m.session.interrupt = (false, m.session) := by
  intro u t v
  have hf : s.program.first? ≠ none := first?_ne_none_of_running hrunning
  have hu : u.Quiet := Turn.quiet_beginRun hq hf
  have hprogram : u.session.program = s.program := beginRun_program s
  have hempty : u.events = [] := by simp only [u, beginRun_of_first?_ne hf]
  have ht : t = u.heardBy a := beginRun_heardBy hf a
  have hevents : v.events = (u.after n).events ++ before ++ [e] ++ after := by
    have hv : v = _ := (u.after_succ n).trans (Turn.onward_of_running hrunning)
    have hpass : (u.after n).session.pass.events = before ++ [e] ++ after := by simpa using htells
    rw [hv]
    dsimp only
    rw [hpass, ← List.append_assoc, ← List.append_assoc]
  have hquiet : (a.heard (u.after n).events).isSome :=
    Alarm.isSome_heard_of_append hrings.quiet
  have hrung : a.heard v.events = none := by
    rw [hevents]
    exact Alarm.heard_append_eq_none hrings.rings after
  have hafter : t.after (n + 1) = v.rung := by rw [ht, Turn.after_rung hu hquiet hrung]
  have htrace : t.trace (n + 1) = u.trace (n + 1) := by rw [ht, Turn.trace_heardBy hu hquiet]
  have hfinal (j : Nat) := Turn.after_rung_add hu hrunning hquiet hrung j
  simp only [← ht, hprogram] at hfinal
  refine ⟨⟨hafter, htrace, fun k st hx => hu.executes hrunning hx⟩, fun j => ?_, fun hs => ?_⟩
  · have hended : (t.after (n + 2)).stage ≠ .running := by simp [hfinal 0]
    refine ⟨?_, ?_, ?_, ?_, ?_, ?_, ?_, ?_⟩
    · rw [Turn.trace_add_of_ended hended, Turn.trace_succ, hafter, Turn.executing?_rung]
      simp
    · rw [hfinal j]
    · rw [hfinal j]
    · rw [hfinal j]
      exact ⟨rfl, rfl, fun k => hs.first?_eq_some_iff⟩
    · intro hv
      have hfresh : .fault .interrupted ∉ v.events := hu.interrupted_not_mem hempty hv
      rw [hfinal j, if_pos hv]
      refine ⟨rfl, ?_⟩
      rw [List.count_append, List.count_eq_zero.2 hfresh]
      rfl
    · intro hv
      rw [hfinal j, if_neg hv, List.append_nil]
    · exact beginRun_calm (by rw [hfinal j]; exact hf)
    · intro file
      exact (Machine.alike_calm (by rw [hfinal j]; exact (hu.after (n + 1)).alarm) file).indistinct
  · intro m hm
    have hnew : ({} : Machine).InStep := by simp [Machine.InStep]
    have hstep : m.InStep := hnew.through hs
    exact interrupt_of_not_running (by simpa using fun hr => hm (hstep.1 hr))

set_option maxRecDepth 8000 in
/-- An interrupt while `INPUT` says that an answer was no number: a number is asked
for again and taken, and then the run is over before it is printed. -/
theorem interrupt_stops_run_asking :
    let program : Program :=
      ⟨⟨[(10, ⟨[], some (.input "X")⟩), (20, ⟨[], some (.print (.var "X"))⟩)]⟩, 2, some 10⟩
    let s : Session :=
      { program, input := .separate [] [.line (Text.ofString "x"), .line (Text.ofString "5")] }
    let t := (s.armed ⟨2, .events⟩).beginRun
    (s.beginRun.after 0).session.pass.events =
        [.inputPrompt] ++ .fault .invalidNumber :: [.inputPrompt] ∧
      (t.after 2).events = [.inputPrompt, .fault .invalidNumber, .inputPrompt,
        .fault .interrupted, .statistics 1] ∧
      t.trace 2 = [10] ∧ (t.after 2).session.env.get? "X" = some 5 ∧
      (t.after 2).session.RestsOn program := by
  intro program s t
  have hs : program.Consistent := ⟨by simp [Table.Ordered, Table.keys, program], rfl⟩
  have htells : (s.beginRun.after 0).session.pass.events =
      [.inputPrompt] ++ .fault .invalidNumber :: [.inputPrompt] := by decide +kernel
  have hrunning : (s.beginRun.after 1).stage = .running := by decide +kernel
  have hevents : (s.beginRun.after 1).events =
      [.inputPrompt, .fault .invalidNumber, .inputPrompt] := by decide +kernel
  have hexecuted : (s.beginRun.after 1).session.executed = 1 := by decide +kernel
  have hx : (s.beginRun.after 1).session.env.get? "X" = some 5 := by decide +kernel
  have hrings : (⟨2, .events⟩ : Alarm).RingsAt ((s.beginRun.after 0).events ++ [.inputPrompt])
      (.fault .invalidNumber) := Alarm.ringsAt_next [.inputPrompt] _
  obtain ⟨⟨-, htrace, hexecutes⟩, hfinal, -⟩ :=
    interrupt_stops_run (s := s) hs rfl (n := 0) rfl htells hrings
  obtain ⟨hstill, -, hsession, hrests, hheeded, -⟩ := hfinal 0
  refine ⟨htells, ?_, ?_, ?_, hrests⟩
  · rw [(hheeded hrunning).1, hevents, hexecuted]
    rfl
  · rw [hstill, htrace, (hexecutes 10 (.input "X") ⟨rfl, rfl, rfl⟩).1]
    rfl
  · rw [hsession]
    exact hx

end Session

end LineBasic
