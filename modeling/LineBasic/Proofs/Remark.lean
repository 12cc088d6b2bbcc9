import LineBasic.Proofs.Interrupt
import LineBasic.Proofs.Jump

/-!
# Comments

A comment that is no destination can be taken out of a program, and nobody sees
the difference in a run.  The run with the comment makes a pass more each time it
comes by, so the two do not go in lockstep: the program counter without the
comment waits while the other one passes over it (`Counter.skip_step_at`), and
otherwise makes the same step (`Counter.skip_step`).  It never waits twice in a
row, for the next line is another one.
-/

namespace LineBasic

namespace Counter

variable {lines : Table LineNumber StoredLine} {c : Counter} {k m n b : LineNumber}
  {line : Option LineNumber} {st : Stmt}

/-! ### The lines without one of them -/

theorem above_eq_none_iff : above lines n = none ↔ ∀ j ∈ lines.keys, ¬ n < j := by
  simp [above, List.min?_eq_none_iff]

theorem above_ne_self : above lines k ≠ some k := by
  intro h
  exact lt_irrefl k (above_eq_some_iff.1 h).1.2

/-- The line to go on with when line `k` is passed over. -/
def beyond (lines : Table LineNumber StoredLine) (k : LineNumber) (line : Option LineNumber) :
    Option LineNumber :=
  if line = some k then above lines k else line

theorem beyond_self : beyond lines k (some k) = above lines k := if_pos rfl

theorem beyond_of_ne (h : line ≠ some k) : beyond lines k line = line := if_neg h

/-- Without line `k` the next line is the one beyond it. -/
theorem above_erase (lines : Table LineNumber StoredLine) (k n : LineNumber) :
    above (lines.erase k) n = beyond lines k (above lines n) := by
  cases hj : above lines n with
  | none =>
      rw [beyond_of_ne (by simp), above_eq_none_iff]
      intro j hmem
      exact above_eq_none_iff.1 hj j (Table.mem_keys_erase.1 hmem).2
  | some j =>
      obtain ⟨⟨hmem, hlt⟩, hleast⟩ := above_eq_some_iff.1 hj
      by_cases hjk : j = k
      · subst hjk
        have hset : {i | i ∈ (lines.erase j).keys ∧ n < i} = {i | i ∈ lines.keys ∧ j < i} := by
          ext i
          simp only [Set.mem_ofPred_eq, Table.mem_keys_erase]
          constructor
          · rintro ⟨⟨hne, hi⟩, hni⟩
            exact ⟨hi, lt_of_le_of_ne (hleast ⟨hi, hni⟩) (Ne.symm hne)⟩
          · rintro ⟨hi, hji⟩
            exact ⟨⟨ne_of_gt hji, hi⟩, hlt.trans hji⟩
        refine Option.ext fun i => ?_
        rw [beyond_self, above_eq_some_iff, above_eq_some_iff, hset]
      · rw [beyond_of_ne (by simpa using hjk), above_eq_some_iff]
        refine ⟨⟨Table.mem_keys_erase.2 ⟨hjk, hmem⟩, hlt⟩, ?_⟩
        rintro i ⟨hi, hni⟩
        exact hleast ⟨(Table.mem_keys_erase.1 hi).2, hni⟩

/-- The first line is the next one after a number below all lines. -/
theorem first?_eq_above (h : lines.Ordered) (hb : ∀ j ∈ lines.keys, b < j) :
    lines.first? = above lines b := by
  have hset : {j | j ∈ lines.keys} = {j | j ∈ lines.keys ∧ b < j} := by
    ext j
    exact ⟨fun hj => ⟨hj, hb j hj⟩, fun hj => hj.1⟩
  refine Option.ext fun j => ?_
  rw [Table.first?_eq_some_iff h, above_eq_some_iff, hset]

theorem exists_lt_keys (h : lines.Ordered) : ∃ b, ∀ j ∈ lines.keys, b < j := by
  cases hf : lines.first? with
  | none =>
      rw [Table.first?, List.head?_eq_none_iff] at hf
      exact ⟨0, by simp [hf]⟩
  | some j =>
      refine ⟨j - 1, fun i hi => ?_⟩
      exact (sub_one_lt j).trans_le (((Table.first?_eq_some_iff h).1 hf).2 hi)

/-- Without line `k` the first line is the first one beyond it. -/
theorem first?_erase (h : lines.Ordered) (k : LineNumber) :
    (lines.erase k).first? = beyond lines k lines.first? := by
  obtain ⟨b, hb⟩ := exists_lt_keys h
  have hb' : ∀ j ∈ (lines.erase k).keys, b < j := fun j hj => hb j (Table.mem_keys_erase.1 hj).2
  rw [first?_eq_above (h.erase k) hb', first?_eq_above h hb, above_erase]

/-! ### One step -/

/-- The machine where it is when line `k` is passed over. -/
def skip (lines : Table LineNumber StoredLine) (k : LineNumber) (c : Counter) : Counter :=
  { c with line := beyond lines k c.line }

theorem skip_of_ne (h : c.line ≠ some k) : c.skip lines k = c := by
  rw [skip, beyond_of_ne h]

/-- A machine at the comment goes to the next line, where the other one is
already. -/
theorem skip_step_at (hk : (lines.get? k).bind StoredLine.stmt = some .remark)
    (hs : c.stopped = false) (hl : c.line = some k) :
    (c.step lines).skip lines k = c.skip lines k ∧ (c.step lines).line ≠ some k := by
  rw [step_of_line_some hs hl, hk]
  dsimp only
  refine ⟨?_, above_ne_self⟩
  rw [skip_of_ne above_ne_self, skip, hl, beyond_self]

theorem skip_execute (hl : c.line ≠ some k) (hd : st.destination? ≠ some k) :
    (c.execute lines n st).skip lines k = c.execute (lines.erase k) n st := by
  rw [execute, execute]
  dsimp only
  cases ha : (st.execute c.env c.answers).action with
  | halt => exact skip_of_ne hl
  | next => simp only [skip, above_erase]
  | jump t =>
      have htk : t ≠ k := by
        rintro rfl
        exact hd (Stmt.destination?_of_jump ha)
      have hiff : (lines.erase k).contains t = true ↔ lines.contains t = true := by
        rw [Table.contains_iff, Table.contains_iff, Table.mem_keys_erase]
        exact and_iff_right htk
      simp only [hiff]
      split_ifs
      · exact skip_of_ne (by simpa using htk)
      · simp only [skip, above_erase]

/-- Elsewhere both machines make the same step. -/
theorem skip_step (hd : ∀ n st, (lines.get? n).bind StoredLine.stmt = some st →
      st.destination? ≠ some k)
    (h : c.stopped = true ∨ c.line ≠ some k) :
    (c.step lines).skip lines k = (c.skip lines k).step (lines.erase k) := by
  cases hs : c.stopped with
  | true =>
      have hs' : (c.skip lines k).stopped = true := hs
      rw [step_of_stopped hs, step_of_stopped hs']
  | false =>
      have hl : c.line ≠ some k := h.resolve_left (by simp [hs])
      rw [skip_of_ne hl]
      cases hn : c.line with
      | none =>
          rw [step_of_line_none hs hn, step_of_line_none hs hn]
          exact skip_of_ne hl
      | some n =>
          have hnk : n ≠ k := by
            rintro rfl
            exact hl hn
          rw [step_of_line_some hs hn, step_of_line_some hs hn, Table.get?_erase_of_ne _ hnk]
          cases hst : (lines.get? n).bind StoredLine.stmt with
          | none => simp only [skip, above_erase]
          | some st =>
              have hx : (c.execute lines n st).skip lines k = c.execute (lines.erase k) n st :=
                skip_execute hl (hd n st hst)
              cases st with
              | remark => simp only [skip, above_erase]
              | stop => exact skip_of_ne hl
              | _ => exact hx

/-! ### The whole run -/

section Run

variable (hk : (lines.get? k).bind StoredLine.stmt = some .remark)
  (hd : ∀ n st, (lines.get? n).bind StoredLine.stmt = some st → st.destination? ≠ some k)
include hk hd

/-- Whatever the machine has come to, the one without the comment comes to it in
no more steps. -/
theorem exists_iterate_erase (c : Counter) (n : Nat) :
    ∃ m ≤ n, (step (lines.erase k))^[m] (c.skip lines k) = ((step lines)^[n] c).skip lines k := by
  induction n with
  | zero => exact ⟨0, le_rfl, rfl⟩
  | succ n ih =>
      obtain ⟨m, hmn, hm⟩ := ih
      rw [Function.iterate_succ_apply']
      by_cases h : ((step lines)^[n] c).stopped = true ∨ ((step lines)^[n] c).line ≠ some k
      · refine ⟨m + 1, Nat.succ_le_succ hmn, ?_⟩
        rw [Function.iterate_succ_apply', hm, skip_step hd h]
      · rw [not_or, Bool.not_eq_true, not_not] at h
        exact ⟨m, hmn.trans n.le_succ, hm.trans (skip_step_at hk h.1 h.2).1.symm⟩

/-- Whatever the machine without the comment has come to, the one with it comes
to as well. -/
theorem exists_iterate (c : Counter) (m : Nat) :
    ∃ n ≥ m, (step (lines.erase k))^[m] (c.skip lines k) = ((step lines)^[n] c).skip lines k := by
  induction m with
  | zero => exact ⟨0, le_rfl, rfl⟩
  | succ m ih =>
      obtain ⟨n, hmn, hn⟩ := ih
      rw [Function.iterate_succ_apply', hn]
      by_cases h : ((step lines)^[n] c).stopped = true ∨ ((step lines)^[n] c).line ≠ some k
      · refine ⟨n + 1, Nat.succ_le_succ hmn, ?_⟩
        rw [Function.iterate_succ_apply', skip_step hd h]
      · -- first to the next line, where the other machine is waiting, and then on from there
        rw [not_or, Bool.not_eq_true, not_not] at h
        obtain ⟨hwait, hline⟩ := skip_step_at hk h.1 h.2
        refine ⟨n + 2, Nat.le_succ_of_le (Nat.succ_le_succ hmn), ?_⟩
        rw [Function.iterate_succ_apply', Function.iterate_succ_apply', ← hwait,
          skip_step hd (.inr hline)]

end Run

end Counter

namespace Turn

variable {t t' : Turn}

/-- After `n` passes of one run and `m` of the other they look the same and have
executed the same lines. -/
def SameAt (t t' : Turn) (n m : Nat) : Prop :=
  (t.after n).SameView (t'.after m) ∧ t'.trace m = t.trace n

/-- However many passes are counted after its end, a run is as it ended. -/
theorem eq_of_ended {n m : Nat} (hn : (t.after n).stage ≠ .running)
    (hm : (t.after m).stage ≠ .running) : t.after m = t.after n ∧ t.trace m = t.trace n := by
  rcases Nat.le_total n m with h | h
  · obtain ⟨j, rfl⟩ := Nat.exists_eq_add_of_le h
    exact ⟨after_add_of_ended hn j, trace_add_of_ended hn j⟩
  · obtain ⟨j, rfl⟩ := Nat.exists_eq_add_of_le h
    exact ⟨(after_add_of_ended hm j).symm, (trace_add_of_ended hm j).symm⟩

end Turn

namespace Session

variable {s : Session} {k : LineNumber}

/-- The session with the cursor on the lowest line of a program. -/
def atFirst (s : Session) (p : Program) : Session :=
  { s with program := p.rewind }

/-- The machine that runs the program without line `k` is the one that runs it
with the line, where that is passed over. -/
theorem ofSession_remove (hcon : s.program.Consistent) (hk : (s.program.line? k).isSome) :
    Counter.ofSession (s.atFirst (s.program.remove k)) =
      (Counter.ofSession (s.atFirst s.program)).skip s.program.lines k := by
  have hfirst : (s.program.remove k).first? =
      Counter.beyond s.program.lines k s.program.first? := by
    rw [(hcon.remove k).first?_eq, (Program.remove_lines hk).1, hcon.first?_eq,
      Counter.first?_erase hcon.ordered]
  simp only [Counter.ofSession, atFirst, Program.rewind, Counter.skip, hfirst]

theorem sameAt_of_skip (hcon : s.program.Consistent) (hsize : 2 ≤ s.program.size)
    (hk : (s.program.line? k).isSome) (ha : s.alarm = none) {n m : Nat}
    (h : (Counter.step (s.program.lines.erase k))^[m]
        ((Counter.ofSession (s.atFirst s.program)).skip s.program.lines k) =
      ((Counter.step s.program.lines)^[n] (Counter.ofSession (s.atFirst s.program))).skip
        s.program.lines k) :
    (s.atFirst s.program).beginRun.SameAt (s.atFirst (s.program.remove k)).beginRun n m := by
  obtain ⟨hlines, hcount⟩ := Program.remove_lines hk
  have hcon₁ : (s.atFirst s.program).program.Consistent := hcon.of_lines_eq rfl rfl
  have hcon₂ : (s.atFirst (s.program.remove k)).program.Consistent :=
    (hcon.remove k).of_lines_eq rfl rfl
  have hne₁ : (s.atFirst s.program).program.size ≠ 0 := by
    change s.program.size ≠ 0
    omega
  have hne₂ : (s.atFirst (s.program.remove k)).program.size ≠ 0 := by
    change (s.program.remove k).count ≠ 0
    rw [Program.size] at hsize
    omega
  have hlines₂ : (s.atFirst (s.program.remove k)).program.lines = s.program.lines.erase k := hlines
  have hshows := Counter.run_shows hcon₂ hne₂ ha m
  have htrace := Counter.run_trace hcon₂ hne₂ ha m
  rw [hlines₂, ofSession_remove hcon hk, h] at hshows htrace
  exact ⟨(Counter.run_shows hcon₁ hne₁ ha n).sameView hshows,
    htrace.trans (Counter.run_trace hcon₁ hne₁ ha n).symm⟩

/-- A program of at least two lines, one of them a comment that no statement jumps
to, in a session without an alarm.  Run from the lowest line, with the comment and
without it, the run ends in both cases or in neither, and at the end they look the
same and have executed the same lines.  Until then, whatever one of them has come
to, the other one comes to as well: without the comment in no more passes, and
with it in no fewer. -/
theorem remark_is_transparent (hcon : s.program.Consistent) (hsize : 2 ≤ s.program.size)
    (hk : s.program.stmt? k = some .remark) (hd : k ∉ s.program.destinations)
    (ha : s.alarm = none) :
    let t := { s with program := s.program.rewind }.beginRun
    let t' := { s with program := (s.program.remove k).rewind }.beginRun
    ((∃ n, (t.after n).stage ≠ .running) ↔ ∃ m, (t'.after m).stage ≠ .running) ∧
      (∀ n m, (t.after n).stage ≠ .running → (t'.after m).stage ≠ .running → t.SameAt t' n m) ∧
      (∀ n, ∃ m ≤ n, t.SameAt t' n m) ∧ ∀ m, ∃ n ≥ m, t.SameAt t' n m := by
  intro t t'
  have hline : (s.program.line? k).isSome := by
    rw [Option.isSome_iff_ne_none]
    intro hnone
    rw [Program.stmt?_eq_none hnone] at hk
    cases hk
  have hremark : (s.program.lines.get? k).bind StoredLine.stmt = some .remark := by
    rw [← hcon.stmt?_eq, hk]
  have hno (n : LineNumber) (st : Stmt)
      (hst : (s.program.lines.get? n).bind StoredLine.stmt = some st) :
      st.destination? ≠ some k := by
    intro hdest
    exact hd ⟨n, st, (hcon.stmt?_eq n).trans hst, hdest⟩
  have hsooner (n : Nat) : ∃ m ≤ n, t.SameAt t' n m := by
    obtain ⟨m, hmn, hm⟩ := Counter.exists_iterate_erase hremark hno
      (Counter.ofSession (s.atFirst s.program)) n
    exact ⟨m, hmn, sameAt_of_skip hcon hsize hline ha hm⟩
  have hlater (m : Nat) : ∃ n ≥ m, t.SameAt t' n m := by
    obtain ⟨n, hmn, hn⟩ := Counter.exists_iterate hremark hno
      (Counter.ofSession (s.atFirst s.program)) m
    exact ⟨n, hmn, sameAt_of_skip hcon hsize hline ha hn⟩
  refine ⟨⟨?_, ?_⟩, ?_, hsooner, hlater⟩
  · rintro ⟨n, hn⟩
    obtain ⟨m, -, hview, -⟩ := hsooner n
    exact ⟨m, hview.stage ▸ hn⟩
  · rintro ⟨m, hm⟩
    obtain ⟨n, -, hview, -⟩ := hlater m
    exact ⟨n, hview.stage ▸ hm⟩
  · intro n m hn hm
    obtain ⟨i, -, hview, htrace⟩ := hsooner n
    obtain ⟨heq, htrace'⟩ := Turn.eq_of_ended (n := i) (hview.stage ▸ hn) hm
    rw [Turn.SameAt, heq, htrace']
    exact ⟨hview, htrace⟩

/-- The comment is where the run goes on after a jump to a line that is not
there. -/
theorem remark_is_transparent_fall_through :
    let program : Program :=
      ⟨⟨[(10, ⟨[], some (.jump 15)⟩), (20, ⟨[], some .remark⟩),
        (30, ⟨[], some (.print (.const 7))⟩)]⟩, 3, none⟩
    let t := ({ program := program.rewind } : Session).beginRun
    let t' := ({ program := (program.remove 20).rewind } : Session).beginRun
    (t.after 3).stage = .running ∧ (t.after 4).stage = .idle ∧ (t'.after 3).stage = .idle ∧
      (t'.after 3).events = [.fault .lineNumber, .value 7, .statistics 2] ∧
      (t.after 4).events = [.fault .lineNumber, .value 7, .statistics 2] := by
  intro program t t'
  have hcon : program.Consistent := ⟨by simp [program, Table.Ordered, Table.keys], rfl⟩
  have hfree : ∀ e ∈ program.lines.entries, e.2.stmt.bind Stmt.destination? ≠ some 20 := by
    decide
  have hd : 20 ∉ program.destinations := by
    rintro ⟨n, st, hst, hdest⟩
    obtain ⟨l, hl, hlst⟩ := hcon.stmt?_eq_some_iff.1 hst
    exact hfree (n, l) hl (by rw [hlst, Option.bind_some, hdest])
  have hsame := remark_is_transparent (s := { program }) hcon (by decide) (k := 20) (by decide) hd
    rfl
  have hevents : (t'.after 3).events = [.fault .lineNumber, .value 7, .statistics 2] := by decide
  obtain ⟨hview, -⟩ := hsame.2.1 4 3 (by decide) (by decide)
  exact ⟨by decide, by decide, by decide, hevents, hview.events.trans hevents⟩

end Session

end LineBasic
