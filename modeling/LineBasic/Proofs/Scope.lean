import LineBasic.Proofs.Session.Variables

/-!
# The scope of a run

A run sees the variables that its program names and no others.  Two sessions
that differ only in other variables go through their runs in lockstep, with the
same events and the same answers taken (`SameOn.after`); and what the program
neither assigns nor asks for is as it was before (`Turn.after_frame`).
-/

namespace LineBasic

open Set (EqOn)

variable {S : Set String}

/-- The session with other variables. -/
def Session.withEnv (s : Session) (env : Env) : Session :=
  { s with env }

/-- The turn with other variables. -/
def Turn.withEnv (t : Turn) (env : Env) : Turn :=
  { t with session := t.session.withEnv env }

/-- Turns that cannot be told apart by the variables in `S`, nor by anything
else. -/
structure Turn.SameOn (S : Set String) (t t' : Turn) : Prop where
  eq : t' = t.withEnv t'.session.env
  env : EqOn t.session.env.get? t'.session.env.get? S

theorem Turn.sameOn_withEnv {t : Turn} {env : Env} (h : EqOn t.session.env.get? env.get? S) :
    t.SameOn S (t.withEnv env) :=
  ⟨rfl, h⟩

namespace Session

variable {s : Session} {env : Env}

/-! ### Telling does not look at variables -/

theorem tell_withEnv (s : Session) (env : Env) (events : List Event) :
    ((s.withEnv env).tell events).1 = (s.tell events).1.withEnv env :=
  calc ((s.withEnv env).tell events).1
      = { (s.tell events).1 with program := s.program, env } := s.tell_with s.program env events
    _ = (s.tell events).1.withEnv env := by simp [withEnv]

theorem turn_withEnv (s : Session) (env : Env) (stage : Stage) (events : List Event) :
    (s.withEnv env).turn stage events = (s.turn stage events).withEnv env := by
  rw [turn, turn, tell_withEnv]
  rfl

theorem endRun_withEnv (s : Session) (env : Env) (events : List Event) :
    (s.withEnv env).endRun events = (s.endRun events).withEnv env := by
  have htold (s : Session) :
      { s.withEnv env with program := (s.withEnv env).program.rewind } =
        { s with program := s.program.rewind }.withEnv env := rfl
  simp only [endRun, tell_withEnv, htold]
  rfl

/-! ### A pass in both sessions -/

/-- Sessions that cannot be told apart by the variables in `S`, nor by anything
else. -/
structure SameOn (S : Set String) (s s' : Session) : Prop where
  eq : s' = s.withEnv s'.env
  env : EqOn s.env.get? s'.env.get? S

theorem SameOn.turn {s' : Session} (h : s.SameOn S s') (program : Program) (stage : Stage)
    (events : List Event) :
    ({ s with program }.turn stage events).SameOn S ({ s' with program }.turn stage events) := by
  have hs' : { s' with program } = { s with program }.withEnv s'.env := by
    rw [h.eq]
    rfl
  rw [hs', turn_withEnv]
  exact Turn.sameOn_withEnv (by rw [turn_env]; exact h.env)

theorem SameOn.endRun {s' : Session} (h : s.SameOn S s') (program : Program)
    (events : List Event) :
    ({ s with program }.endRun events).SameOn S ({ s' with program }.endRun events) := by
  have hs' : { s' with program } = { s with program }.withEnv s'.env := by
    rw [h.eq]
    rfl
  rw [hs', endRun_withEnv]
  exact Turn.sameOn_withEnv (by rw [endRun_env]; exact h.env)

theorem sameOn_absorb {x x' : Execution} (h : x.SameOn S x') :
    (s.absorb x).SameOn S ((s.withEnv env).absorb x') := by
  refine ⟨?_, h.env⟩
  rw [absorb, ← h.answers]
  rfl

theorem execution_sameOn {n : LineNumber} {st : Stmt} (h : s.Executes n st)
    (hS : s.program.names ⊆ S) (henv : EqOn s.env.get? env.get? S) :
    (s.execution st).SameOn S ((s.withEnv env).execution st) :=
  Stmt.sameOn_execute (fun _ hx => hS ⟨n, st, h.stmt, hx⟩) henv _

theorem pass_sameOn (hS : s.program.names ⊆ S) (henv : EqOn s.env.get? env.get? S) :
    s.pass.SameOn S (s.withEnv env).pass := by
  cases hi : s.interrupted with
  | true =>
      have hpass : (s.withEnv env).pass = _ := pass_of_interrupted (s := s.withEnv env) hi
      have hcalm : { s.withEnv env with interrupted := false } =
          { s with interrupted := false }.withEnv env := rfl
      rw [pass_of_interrupted hi, hpass, hcalm, endRun_withEnv]
      exact Turn.sameOn_withEnv (by rwa [endRun_env])
  | false =>
      have hp : (s.withEnv env).program = s.program := rfl
      have hR : s.SameOn S (s.withEnv env) := ⟨rfl, henv⟩
      obtain ⟨t', hpass, hsame⟩ := (passes_pass hi).lockstep hp hR
        (fun n st hx =>
          have hsame := execution_sameOn hx hS henv
          ⟨hsame.action.symm, hsame.events.symm, sameOn_absorb hsame⟩)
        (fun u u' program events h => h.turn program .running events)
        (fun u u' program events h => h.endRun program events)
      rwa [hpass.pass_eq hi]

end Session

/-! ### Both runs -/

namespace Turn

variable {t t' : Turn}

theorem SameOn.onward (h : t.SameOn S t') (hS : t.session.program.names ⊆ S) :
    t.onward.SameOn S t'.onward := by
  rw [h.eq]
  by_cases hr : t.stage = .running
  · have hpass : t.session.pass.SameOn S (t.withEnv t'.session.env).session.pass :=
      Session.pass_sameOn hS h.env
    have hr' : (t.withEnv t'.session.env).stage = .running := hr
    rw [onward_of_running hr, onward_of_running hr']
    exact ⟨by rw [hpass.eq]; rfl, hpass.env⟩
  · have hr' : (t.withEnv t'.session.env).stage ≠ .running := hr
    rw [onward_of_not_running hr, onward_of_not_running hr', ← h.eq]
    exact h

theorem SameOn.after (h : t.SameOn S t') (hS : t.session.program.names ⊆ S) (n : Nat) :
    (t.after n).SameOn S (t'.after n) := by
  induction n with
  | zero => exact h
  | succ n ih =>
      obtain ⟨hl, hc⟩ := t.after_lines n
      rw [after_succ, after_succ]
      exact ih.onward (by rwa [Program.names_eq_of_lines_eq hl hc])

theorem SameOn.executing?_eq (h : t.SameOn S t') : t'.executing? = t.executing? := by
  rw [h.eq]
  rfl

theorem SameOn.trace_eq (h : t.SameOn S t') (hS : t.session.program.names ⊆ S) (n : Nat) :
    t'.trace n = t.trace n := by
  induction n with
  | zero => rfl
  | succ n ih => rw [trace, trace, ih, (h.after hS n).executing?_eq]

end Turn

namespace Session

variable {s s' : Session}

theorem beginRun_sameOn (hp : s'.program = s.program) (hin : s'.input = s.input)
    (ha : s'.alarm = s.alarm) (hf : s.program.first? ≠ none)
    (henv : EqOn s.env.get? s'.env.get? S) : s.beginRun.SameOn S s'.beginRun := by
  rw [beginRun_of_first?_ne hf, beginRun_of_first?_ne (s := s') (hp ▸ hf)]
  exact ⟨by simp only [Turn.withEnv, withEnv, hp, hin, ha], henv⟩

/-- Two sessions with the same program, which has lines, with the cursor at the
same place, the same input and the same alarm or none, that agree on the names in
the program: their runs end both or neither.  After any number of passes both are
at the same stage, have executed the same lines, told the same events, taken the
same answers and counted the same number of statements, and they still agree on
the names in the program.  In each of them a name that the program neither
assigns nor asks for is bound as it was before, or unbound as it was before. -/
theorem run_sees_its_names_only (hp : s'.program = s.program) (hin : s'.input = s.input)
    (ha : s'.alarm = s.alarm) (hf : s.program.first? ≠ none)
    (henv : EqOn s.env.get? s'.env.get? s.program.names) :
    let t := s.beginRun
    let t' := s'.beginRun
    ((∃ n, (t.after n).stage ≠ .running) ↔ ∃ n, (t'.after n).stage ≠ .running) ∧
      ∀ n, (t'.after n).stage = (t.after n).stage ∧
        (t'.after n).events = (t.after n).events ∧
        t'.trace n = t.trace n ∧
        (t'.after n).session.input = (t.after n).session.input ∧
        (t'.after n).session.executed = (t.after n).session.executed ∧
        EqOn (t.after n).session.env.get? (t'.after n).session.env.get? s.program.names ∧
        ∀ x ∉ s.program.targets,
          (t.after n).session.env.get? x = s.env.get? x ∧
            (t'.after n).session.env.get? x = s'.env.get? x := by
  intro t t'
  have hsame : t.SameOn s.program.names t' := beginRun_sameOn hp hin ha hf henv
  have hprogram : t.session.program = s.program := beginRun_program s
  have hprogram' : t'.session.program = s.program := (beginRun_program s').trans hp
  have hnames : t.session.program.names ⊆ s.program.names := by rw [hprogram]
  have hafter (n : Nat) : (t.after n).SameOn s.program.names (t'.after n) :=
    hsame.after hnames n
  have hstage (n : Nat) : (t'.after n).stage = (t.after n).stage := by rw [(hafter n).eq]; rfl
  refine ⟨by simp only [hstage], fun n => ⟨hstage n, ?_, hsame.trace_eq hnames n, ?_, ?_,
    (hafter n).env, fun x hx => ⟨?_, ?_⟩⟩⟩
  · rw [(hafter n).eq]
    rfl
  · rw [(hafter n).eq]
    rfl
  · rw [(hafter n).eq]
    rfl
  · rw [t.after_frame n (by rwa [hprogram])]
    simp only [t, beginRun_of_first?_ne hf]
  · rw [t'.after_frame n (by rwa [hprogram'])]
    simp only [t', beginRun_of_first?_ne (s := s') (hp ▸ hf)]

set_option maxRecDepth 8000 in
/-- `IF (A = X) < 5 THEN 30`, `END`, `PRINT A + Y`, once without `Z` and once with
it. -/
theorem run_sees_its_names_only_not_Z :
    let program : Program :=
      ⟨⟨[(10, ⟨[], some (.branch (.binary .assign (.var "A") (.var "X")) .less (.const 5) 30)⟩),
        (20, ⟨[], some .stop⟩),
        (30, ⟨[], some (.print (.binary .add (.var "A") (.var "Y")))⟩)]⟩, 3, some 10⟩
    let s : Session := { program, env := ⟨⟨[("X", 3), ("Y", 4)]⟩⟩ }
    let s' : Session := { program, env := ⟨⟨[("X", 3), ("Y", 4), ("Z", 7)]⟩⟩ }
    let t := s.beginRun.after 3
    let t' := s'.beginRun.after 3
    t.stage = .idle ∧ t.events = [.value 7, .statistics 2] ∧
      t'.stage = t.stage ∧ t'.events = t.events ∧
      t.session.env.get? "A" = t'.session.env.get? "A" ∧
      t.session.env.get? "Z" = none ∧ t'.session.env.get? "Z" = some 7 := by
  intro program s s' t t'
  have hfree (l) (hl : l ∈ program.lines.entries) : "Z" ∉ l.2.stmt.elim [] Stmt.names := by
    revert l
    decide
  have hnames (n : LineNumber) (st : Stmt) (hst : program.stmt? n = some st) :
      "Z" ∉ st.names := by
    obtain ⟨l, hl, hlst⟩ := Program.mem_of_stmt?_eq_some hst
    have hz := hfree l hl
    rwa [hlst] at hz
  have henv : EqOn s.env.get? s'.env.get? s.program.names := by
    rintro x ⟨n, st, hst, hx⟩
    have hne : "Z" ≠ x := by
      rintro rfl
      exact hnames n st hst hx
    simp [s, s', Env.get?, Table.get?_cons, hne]
  have hz : "Z" ∉ s.program.targets := by
    rintro ⟨n, st, hst, hx⟩
    exact hnames n st hst (st.targets_subset_names hx)
  have hprogram : s'.program = s.program := rfl
  obtain ⟨hstage, hevents, -, -, -, hsame, hframe⟩ :=
    (run_sees_its_names_only hprogram rfl rfl (by decide) henv).2 3
  have hA : "A" ∈ s.program.names := ⟨10, _, rfl, by decide⟩
  have hunbound : s.env.get? "Z" = none := by decide
  have hbound : s'.env.get? "Z" = some 7 := by decide
  refine ⟨by decide, by decide, hstage, hevents, ?_, ?_, ?_⟩
  · rw [hsame hA]
  · rw [(hframe "Z" hz).1, hunbound]
  · rw [(hframe "Z" hz).2, hbound]

end Session

end LineBasic
