import LineBasic.Proofs.Cursor
import LineBasic.Proofs.Interrupt
import LineBasic.Proofs.Jump
import LineBasic.Proofs.Session.Variables

/-!
# Programs that jump forward

Nothing bounds the passes of a run but its program.  If every jump to a line goes
to one further on, each pass leaves the cursor further on than it was
(`Session.pass_ascends`), whether it jumps, goes to the next line or misses its
destination.  So the run visits lines in ascending order, no line twice, and it is
over when there are no more.  A statement that asks for a number takes as many
passes as any other: it asks until there is a number or no answer is left, and
there are finitely many answers.

An interrupt can only end the run earlier.
-/

namespace LineBasic

namespace Program

variable {p q : Program}

/-- Every jump to a stored line goes to a line further on. -/
def Forward (p : Program) : Prop :=
  ∀ n st t, p.stmt? n = some st → st.destination? = some t → (p.line? t).isSome → n < t

theorem Forward.of_lines_eq (h : p.Forward) (hl : q.lines = p.lines) (hc : q.count = p.count) :
    q.Forward := by
  rw [Forward, line?_eq_of_lines_eq hl hc, stmt?_eq_of_lines_eq hl hc]
  exact h

/-- It is enough to look at the lines one by one. -/
theorem Consistent.forward (h : p.Consistent)
    (he : ∀ e ∈ p.lines.entries, ∀ t ∈ e.2.stmt.bind Stmt.destination?,
      t ∈ p.lines.keys → e.1 < t) :
    p.Forward := by
  intro n st t hst hd ht
  obtain ⟨l, hl, hlst⟩ := h.stmt?_eq_some_iff.1 hst
  refine he (n, l) hl t ?_ (h.isSome_line?_iff.1 ht)
  rw [hlst, Option.bind_some, hd, Option.mem_some]

end Program

/-! ### Visits -/

/-- The line that the next pass takes from under the cursor. -/
def Session.visiting? (s : Session) : Option LineNumber :=
  if s.interrupted then none else s.program.cursor

namespace Turn

/-- The line that is visited next, unless the run is over. -/
def visiting? (t : Turn) : Option LineNumber :=
  match t.stage with
  | .running => t.session.visiting?
  | _ => none

/-- The lines that are visited in the first `n` passes, whether their statements
are executed, passed over or end the run. -/
def visits (t : Turn) : Nat → List LineNumber
  | 0 => []
  | n + 1 => t.visits n ++ (t.after n).visiting?.toList

theorem visits_succ (t : Turn) (n : Nat) :
    t.visits (n + 1) = t.visits n ++ (t.after n).visiting?.toList := rfl

theorem visiting?_of_running {t : Turn} (h : t.stage = .running) :
    t.visiting? = t.session.visiting? := by
  rw [visiting?, h]

theorem visiting?_of_not_running {t : Turn} (h : t.stage ≠ .running) : t.visiting? = none := by
  rw [visiting?]
  split
  · contradiction
  · rfl

end Turn

namespace Session

variable {s : Session} {n : LineNumber}

theorem cursor_of_visiting? (h : s.visiting? = some n) : s.program.cursor = some n := by
  rw [visiting?] at h
  split_ifs at h
  exact h

theorem executing?_eq_filter (s : Session) :
    s.executing? = s.visiting?.filter fun n => (s.program.stmt? n).any Stmt.isCounted := by
  rw [executing?, visiting?]
  split_ifs <;> rfl

/-! ### One pass -/

theorem Passes.ascends {t : Turn} (h : s.Passes t) (hcon : s.program.Consistent)
    (hf : s.program.Forward) (hr : t.stage = .running) :
    ∃ n, s.program.cursor = some n ∧ ∀ k, t.session.program.cursor = some k → n < k := by
  have hnext {n : LineNumber} (hc : s.program.cursor = some n) (k : LineNumber)
      (hk : s.advanced.program.cursor = some k) : n < k := by
    have hk' : s.program.cursor.bind s.program.next? = some k := hk
    rw [hc, Option.bind_some] at hk'
    exact (hcon.next?_eq_some_iff.1 hk').1.2
  cases h with
  | runsOut _ => simp [endRun] at hr
  | stops _ _ => simp [endRun] at hr
  | halts _ _ => simp [endRun] at hr
  | @skips n hc _ => exact ⟨n, hc, by rw [turn_program]; exact hnext hc⟩
  | @goesOn n st hx _ => exact ⟨n, hx.cursor, by rw [turn_program]; exact hnext hx.cursor⟩
  | @misses n t st hx _ _ => exact ⟨n, hx.cursor, by rw [turn_program]; exact hnext hx.cursor⟩
  | @jumps n t st hx ha ht =>
      refine ⟨n, hx.cursor, fun k hk => ?_⟩
      rw [turn_program] at hk
      rw [← Option.some.inj hk]
      exact hf n st t hx.stmt (Stmt.destination?_of_jump ha) ht

/-- A pass after which the run goes on has visited a line, and leaves the cursor
further on. -/
theorem pass_ascends (hcon : s.program.Consistent) (hf : s.program.Forward)
    (hr : s.pass.stage = .running) :
    ∃ n, s.visiting? = some n ∧ ∀ k, s.pass.session.program.cursor = some k → n < k := by
  cases hi : s.interrupted with
  | true =>
      rw [pass_of_interrupted hi] at hr
      simp [endRun] at hr
  | false =>
      obtain ⟨n, hc, hlt⟩ := (passes_pass hi).ascends hcon hf hr
      exact ⟨n, by rw [visiting?, if_neg (by simp [hi]), hc], hlt⟩

theorem Passes.executed {t : Turn} (h : s.Passes t) (hi : s.interrupted = false) :
    t.session.executed = s.executed + s.executing?.toList.length := by
  have hturn (s : Session) (stage : Stage) (events : List Event) :
      (s.turn stage events).session.executed = s.executed := tell_executed s events
  have hend (s : Session) (events : List Event) :
      (s.endRun events).session.executed = s.executed := by simp [endRun]
  cases h with
  | runsOut hc =>
      rw [hend, executing?_of_cursor_none hc]
      rfl
  | skips hc hst =>
      have hnone : s.executing? = none := by
        rw [executing?_of_cursor_some hi hc]
        rcases hst with hst | hst <;> rw [hst] <;> rfl
      rw [hturn, hnone]
      rfl
  | stops hc hst =>
      have hnone : s.executing? = none := by
        rw [executing?_of_cursor_some hi hc, hst]
        rfl
      rw [hend, hnone]
      rfl
  | halts hx _ =>
      rw [hend, hx.executing?_eq hi]
      rfl
  | goesOn hx _ =>
      rw [hturn, hx.executing?_eq hi]
      rfl
  | jumps hx _ _ =>
      rw [hturn, hx.executing?_eq hi]
      rfl
  | misses hx _ _ =>
      rw [hturn, hx.executing?_eq hi]
      rfl

/-- A pass counts the statement that it executes. -/
theorem pass_executed (s : Session) :
    s.pass.session.executed = s.executed + s.executing?.toList.length := by
  cases hi : s.interrupted with
  | true =>
      have hnone : s.executing? = none := by rw [executing?, if_pos hi]
      rw [pass_of_interrupted hi, hnone]
      simp [endRun]
  | false => exact (passes_pass hi).executed hi

end Session

/-! ### The whole run -/

namespace Turn

variable {t : Turn}

theorem after_sound (h : t.session.program.Sound) (n : Nat) :
    (t.after n).session.program.Sound := by
  induction n with
  | zero => exact h
  | succ n ih =>
      rw [after_succ]
      by_cases hr : (t.after n).stage = .running
      · rw [onward_of_running hr]
        exact Session.pass_sound ih
      · rwa [onward_of_not_running hr]

theorem after_forward (h : t.session.program.Forward) (n : Nat) :
    (t.after n).session.program.Forward :=
  h.of_lines_eq (t.after_lines n).1 (t.after_lines n).2

/-- What has been visited ascends and is behind the cursor, and as long as the run
goes on every pass has visited a line. -/
structure Ascends (t : Turn) (n : Nat) : Prop where
  ascending : (t.visits n).Pairwise (· < ·)
  behind : (t.after n).stage = .running →
    ∀ k, (t.after n).session.program.cursor = some k → ∀ j ∈ t.visits n, j < k
  length : (t.after n).stage = .running → (t.visits n).length = n

theorem Ascends.succ_of_running {n : Nat} (h : t.Ascends n) (hr : (t.after n).stage = .running)
    (hs : t.session.program.Sound) (hf : t.session.program.Forward) : t.Ascends (n + 1) := by
  have hvisits : t.visits (n + 1) = t.visits n ++ (t.after n).session.visiting?.toList := by
    rw [visits_succ, visiting?_of_running hr]
  have hafter : t.after (n + 1) = ⟨(t.after n).session.pass.session,
      (t.after n).events ++ (t.after n).session.pass.events, (t.after n).session.pass.stage⟩ := by
    rw [after_succ, onward_of_running hr]
  -- the line visited now was under the cursor, ahead of all that were visited before
  have hlast {k : LineNumber} (hk : (t.after n).session.visiting? = some k) :
      ∀ j ∈ t.visits n, j < k :=
    h.behind hr k (Session.cursor_of_visiting? hk)
  have hpass (hr' : (t.after (n + 1)).stage = .running) :=
    Session.pass_ascends (after_sound hs n).consistent (after_forward hf n)
      (by rwa [hafter] at hr')
  constructor
  · rw [hvisits, List.pairwise_append]
    cases hk : (t.after n).session.visiting? with
    | none => simpa using h.ascending
    | some k => simpa using ⟨h.ascending, hlast hk⟩
  · intro hr' k hk j hj
    obtain ⟨m, hm, hlt⟩ := hpass hr'
    rw [hafter] at hk
    have hmk : m < k := hlt k hk
    rw [hvisits, hm, Option.toList_some, List.mem_append, List.mem_singleton] at hj
    rcases hj with hj | rfl
    · exact (hlast hm j hj).trans hmk
    · exact hmk
  · intro hr'
    obtain ⟨m, hm, -⟩ := hpass hr'
    rw [hvisits, hm, Option.toList_some, List.length_append, h.length hr]
    rfl

theorem Ascends.succ_of_ended {n : Nat} (h : t.Ascends n) (hr : (t.after n).stage ≠ .running) :
    t.Ascends (n + 1) := by
  have hafter : t.after (n + 1) = t.after n := by rw [after_succ, onward_of_not_running hr]
  have hvisits : t.visits (n + 1) = t.visits n := by
    rw [visits_succ, visiting?_of_not_running hr]
    simp
  refine ⟨hvisits ▸ h.ascending, fun hr' => ?_, fun hr' => ?_⟩ <;>
    exact absurd (hafter ▸ hr') hr

theorem ascends (hs : t.session.program.Sound) (hf : t.session.program.Forward) (n : Nat) :
    t.Ascends n := by
  induction n with
  | zero => exact ⟨.nil, by simp [visits], fun _ => rfl⟩
  | succ n ih =>
      by_cases hr : (t.after n).stage = .running
      · exact ih.succ_of_running hr hs hf
      · exact ih.succ_of_ended hr

theorem isSome_line?_of_mem_visits (hs : t.session.program.Sound) {n : Nat} {k : LineNumber}
    (hk : k ∈ t.visits n) : (t.session.program.line? k).isSome := by
  induction n with
  | zero => simp [visits] at hk
  | succ n ih =>
      rw [visits_succ, List.mem_append, Option.mem_toList] at hk
      rcases hk with hk | hk
      · exact ih hk
      · by_cases hr : (t.after n).stage = .running
        · rw [visiting?_of_running hr] at hk
          rw [← Program.line?_eq_of_lines_eq (t.after_lines n).1 (t.after_lines n).2]
          exact (after_sound hs n).stored k (Session.cursor_of_visiting? hk)
        · rw [visiting?_of_not_running hr] at hk
          cases hk

theorem executing?_eq_filter (t : Turn) :
    t.executing? = t.visiting?.filter fun n => (t.session.program.stmt? n).any Stmt.isCounted := by
  by_cases hr : t.stage = .running
  · rw [executing?_of_running hr, visiting?_of_running hr, Session.executing?_eq_filter]
  · rw [executing?_of_not_running hr, visiting?_of_not_running hr]
    rfl

/-- The executed lines are those of the visited ones whose statements count. -/
theorem trace_eq_filter (t : Turn) (n : Nat) :
    t.trace n = (t.visits n).filter fun k => (t.session.program.stmt? k).any Stmt.isCounted := by
  induction n with
  | zero => rfl
  | succ n ih =>
      have hstmt : (t.after n).session.program.stmt? = t.session.program.stmt? :=
        Program.stmt?_eq_of_lines_eq (t.after_lines n).1 (t.after_lines n).2
      rw [trace_succ, visits_succ, List.filter_append, ← ih, executing?_eq_filter, hstmt]
      cases hv : (t.after n).visiting? with
      | none => rfl
      | some k =>
          rw [Option.filter_some, Option.toList_some, List.filter_singleton]
          cases (t.session.program.stmt? k).any Stmt.isCounted <;> rfl

theorem after_executed (t : Turn) (n : Nat) :
    (t.after n).session.executed = t.session.executed + (t.trace n).length := by
  induction n with
  | zero => rfl
  | succ n ih =>
      rw [after_succ, trace_succ, List.length_append, ← Nat.add_assoc, ← ih]
      by_cases hr : (t.after n).stage = .running
      · rw [onward_of_running hr, executing?_of_running hr]
        exact Session.pass_executed _
      · rw [onward_of_not_running hr, executing?_of_not_running hr]
        rfl

end Turn

/-- There are no more numbers in a list without repetitions than in a finite set
that holds them all. -/
theorem length_le_ncard {ns : List LineNumber} {S : Set LineNumber} (hS : S.Finite)
    (h : ns.Nodup) (hns : ∀ n ∈ ns, n ∈ S) : ns.length ≤ S.ncard := by
  rw [← List.toFinset_card_of_nodup h, ← Set.ncard_coe_finset]
  exact Set.ncard_le_ncard (by simpa [Set.subset_def] using hns) hS

namespace Session

variable {s : Session}

/-- A run of a program that only jumps forward is over after one pass more than
there are lines, whatever is answered and whenever an interrupt comes.  It visits
stored lines in ascending order and executes those whose statements count, at most
as many as there are lines that hold neither a comment nor `END`. -/
theorem forward_run_ends (hs : s.program.Sound) (hne : s.program.size ≠ 0)
    (hf : s.program.Forward) :
    let t := s.beginRun
    (∃ n ≤ s.program.size + 1, (t.after n).stage ≠ .running) ∧
      ∀ n, (t.visits n).Pairwise (· < ·) ∧
        (∀ k ∈ t.visits n, (s.program.line? k).isSome) ∧
        t.trace n = (t.visits n).filter (fun k => (s.program.stmt? k).any Stmt.isCounted) ∧
        (t.after n).session.executed ≤ {k | (s.program.line? k).isSome ∧
          s.program.stmt? k ≠ some .remark ∧ s.program.stmt? k ≠ some .stop}.ncard := by
  intro t
  have hprogram : t.session.program = s.program := s.beginRun_program
  have hzero : t.session.executed = 0 := by
    change s.beginRun.session.executed = 0
    rw [beginRun_of_first?_ne (hs.consistent.first?_ne_none_iff.2 hne)]
  have hst : t.session.program.Sound := hprogram ▸ hs
  have hft : t.session.program.Forward := hprogram ▸ hf
  have hnodup (n : Nat) : (t.visits n).Nodup :=
    (Turn.ascends hst hft n).ascending.imp ne_of_lt
  have hstored (n : Nat) (k : LineNumber) (hk : k ∈ t.visits n) : (s.program.line? k).isSome :=
    hprogram ▸ Turn.isSome_line?_of_mem_visits hst hk
  have hfinite : {k | (s.program.line? k).isSome}.Finite := by
    simp only [hs.consistent.isSome_line?_iff]
    exact List.finite_toSet _
  have htrace (n : Nat) : t.trace n =
      (t.visits n).filter fun k => (s.program.stmt? k).any Stmt.isCounted := by
    rw [← hprogram, Turn.trace_eq_filter]
  refine ⟨⟨s.program.size + 1, le_rfl, fun hr => ?_⟩, fun n => ⟨?_, hstored n, htrace n, ?_⟩⟩
  · -- still running, it would have visited more lines than there are
    have hmany : (t.visits (s.program.size + 1)).length = s.program.size + 1 :=
      (Turn.ascends hst hft _).length hr
    have hfew := length_le_ncard hfinite (hnodup _) (hstored (s.program.size + 1))
    rw [hmany, ← hs.consistent.size_eq_ncard] at hfew
    exact absurd hfew (Nat.not_succ_le_self _)
  · exact (Turn.ascends hst hft n).ascending
  · rw [Turn.after_executed, hzero, Nat.zero_add, htrace n]
    refine length_le_ncard (hfinite.subset fun k hk => hk.1) ((hnodup n).filter _) fun k hk => ?_
    obtain ⟨hvisited, hcounted⟩ := List.mem_filter.1 hk
    refine ⟨hstored n k hvisited, ?_, ?_⟩ <;> intro h <;> rw [h] at hcounted <;> cases hcounted

/-- A number at the second answer, a branch that is taken over a line, and two
jumps back to lines that are not there, the last line's among them. -/
theorem forward_run_ends_over_missing_lines :
    let s : Session :=
      { program :=
          ⟨⟨[(10, ⟨[], some (.input "A")⟩),
            (20, ⟨[], some (.branch (.var "A") .greater (.const 3) 40)⟩),
            (30, ⟨[], some .stop⟩), (40, ⟨[], some (.jump 15)⟩), (50, ⟨[], some .remark⟩),
            (60, ⟨[], some (.jump 5)⟩)]⟩, 6, some 10⟩
        input := .shared [.line (Text.ofString "X"), .line (Text.ofString "7")] }
    let t := s.beginRun
    t.visits 7 = [10, 20, 40, 50, 60] ∧ (t.visits 7).Pairwise (· < ·) ∧
      t.trace 7 = [10, 20, 40, 60] ∧ (∃ n ≤ 7, (t.after n).stage ≠ .running) ∧
      (t.after 7).session.executed = 4 := by
  intro s t
  have hcon : s.program.Consistent := ⟨by simp [s, Table.Ordered, Table.keys], rfl⟩
  have hs : s.program.Sound := ⟨hcon, by decide⟩
  obtain ⟨hends, hrun⟩ := forward_run_ends hs (by decide) (hcon.forward (by decide))
  obtain ⟨hascending, -, htrace, -⟩ := hrun 7
  have hvisits : t.visits 7 = [10, 20, 40, 50, 60] := by decide +kernel
  refine ⟨hvisits, hascending, ?_, hends, by decide +kernel⟩
  rw [htrace, hvisits]
  decide

end Session

end LineBasic
