import LineBasic.Proofs.Jump
import Mathlib.Data.Int.ConditionallyCompleteOrder

/-!
# Renumbering

The lines of a program can be given other numbers.  As long as their order is
kept, and every jump is changed along with its destination, a run does the same:
it executes corresponding lines one after the other, and nothing that can be seen
of it changes.  A destination need not be a line; since the order is that of all
the numbers in the program, its new number is that of no line either.

The program counter goes in lockstep with the one at the new numbers
(`Counter.step_renumber`), from corresponding lines to corresponding lines.
-/

namespace LineBasic

variable {f : LineNumber → LineNumber}

/-! ### Statements -/

def Action.renumber (f : LineNumber → LineNumber) : Action → Action
  | next => next
  | jump t => jump (f t)
  | halt => halt

namespace Stmt

/-- The statement with its destination renumbered. -/
def renumber (f : LineNumber → LineNumber) : Stmt → Stmt
  | jump t => jump (f t)
  | branch l cmp r t => branch l cmp r (f t)
  | st => st

theorem branchAction_renumber (cmp : Comparison) (a b : Value) (t : LineNumber) :
    branchAction cmp a b (f t) =
      ((branchAction cmp a b t).1.renumber f, (branchAction cmp a b t).2) := by
  unfold branchAction
  cases cmp.holds? a b with
  | none => rfl
  | some holds => cases holds <;> rfl

theorem executeInput_renumber (x : String) (env : Env) (answers : Source) :
    (executeInput x env answers).action.renumber f = (executeInput x env answers).action := by
  cases h : (executeInput x env answers).action with
  | jump t => exact absurd h (executeInput_ne_jump x env answers t)
  | next => rfl
  | halt => rfl

/-- A renumbered statement does the same and jumps to the new number. -/
theorem execute_renumber (st : Stmt) (env : Env) (answers : Source) :
    (st.renumber f).execute env answers =
      { st.execute env answers with action := (st.execute env answers).action.renumber f } := by
  cases st with
  | branch l cmp r t =>
      simp only [renumber, execute, branchAction_renumber]
  | input x =>
      simp only [renumber, execute, executeInput_renumber]
  | _ => rfl

end Stmt

/-! ### Programs -/

namespace Program

variable {p q : Program} {n k : LineNumber}

/-- The numbers that occur in a program: of its lines, as destinations, and under
the cursor. -/
def numbers (p : Program) : Set LineNumber :=
  {n | (p.line? n).isSome ∨ n ∈ p.destinations ∨ p.cursor = some n}

/-- The program `q` holds the statements of `p` under the numbers that `f` gives
them, and the cursors correspond. -/
structure Renumbered (f : LineNumber → LineNumber) (p q : Program) : Prop where
  stored : ∀ k, (q.line? k).isSome ↔ ∃ n, (p.line? n).isSome ∧ f n = k
  stmt : ∀ n, (p.line? n).isSome → q.stmt? (f n) = (p.stmt? n).map (Stmt.renumber f)
  cursor : q.cursor = p.cursor.map f

theorem mem_numbers_of_line (h : (p.line? n).isSome) : n ∈ p.numbers := .inl h

/-- Numbers in a program are of lines before and after. -/
theorem Renumbered.isSome_line?_iff (h : p.Renumbered f q) (hf : StrictMonoOn f p.numbers)
    (hn : n ∈ p.numbers) : (q.line? (f n)).isSome ↔ (p.line? n).isSome := by
  rw [h.stored]
  constructor
  · rintro ⟨m, hm, hmn⟩
    rwa [← hf.injOn (mem_numbers_of_line hm) hn hmn]
  · intro hline
    exact ⟨n, hline, rfl⟩

theorem Renumbered.stmt?_eq (h : p.Renumbered f q) (hf : StrictMonoOn f p.numbers)
    (hn : n ∈ p.numbers) : q.stmt? (f n) = (p.stmt? n).map (Stmt.renumber f) := by
  cases hline : p.line? n with
  | some l => exact h.stmt n (by simp [hline])
  | none =>
      have hnone : q.line? (f n) = none := by
        rw [← Option.not_isSome_iff_eq_none, h.isSome_line?_iff hf hn, hline]
        simp
      rw [stmt?_eq_none hline, stmt?_eq_none hnone, Option.map_none]

/-- The next line after a renumbered one is the next line renumbered. -/
theorem Renumbered.next?_eq (h : p.Renumbered f q) (hf : StrictMonoOn f p.numbers)
    (hp : p.Consistent) (hq : q.Consistent) (hn : n ∈ p.numbers) :
    q.next? (f n) = (p.next? n).map f := by
  cases hk : p.next? n with
  | none =>
      rw [Option.map_none, hq.next?_eq_none_iff]
      intro j hj
      obtain ⟨m, hm, rfl⟩ := (h.stored j).1 hj
      have hle : m ≤ n := hp.next?_eq_none_iff.1 hk m hm
      exact (hf.le_iff_le (mem_numbers_of_line hm) hn).2 hle
  | some k =>
      obtain ⟨⟨hline, hlt⟩, hleast⟩ := hp.next?_eq_some_iff.1 hk
      rw [Option.map_some, hq.next?_eq_some_iff]
      refine ⟨⟨(h.stored (f k)).2 ⟨k, hline, rfl⟩, ?_⟩, ?_⟩
      · exact hf hn (mem_numbers_of_line hline) hlt
      · rintro j ⟨hj, hnj⟩
        obtain ⟨m, hm, rfl⟩ := (h.stored j).1 hj
        have hnm : n < m := (hf.lt_iff_lt hn (mem_numbers_of_line hm)).1 hnj
        have hle : k ≤ m := hleast ⟨hm, hnm⟩
        exact (hf.le_iff_le (mem_numbers_of_line hline) (mem_numbers_of_line hm)).2 hle

end Program

/-! ### The program counter -/

namespace Counter

variable {p q : Program} {lines : Table LineNumber StoredLine} {c : Counter} {n : LineNumber}
  {st : Stmt}

/-- The machine at the new number of its line. -/
def renumber (f : LineNumber → LineNumber) (c : Counter) : Counter :=
  { c with line := c.line.map f, trace := c.trace.map f }

theorem execute_renumber (hp : p.Consistent) (hq : q.Consistent)
    (habove : above q.lines (f n) = (above p.lines n).map f)
    (hstored : ∀ t, st.destination? = some t → ((q.line? (f t)).isSome ↔ (p.line? t).isSome)) :
    (c.renumber f).execute q.lines (f n) (st.renumber f) =
      (c.execute p.lines n st).renumber f := by
  have hx : (st.renumber f).execute (c.renumber f).env (c.renumber f).answers = _ :=
    st.execute_renumber c.env c.answers
  rw [execute, execute, hx]
  dsimp only
  cases ha : (st.execute c.env c.answers).action with
  | halt => simp [renumber, Action.renumber]
  | next => simp [renumber, Action.renumber, habove]
  | jump t =>
      have hiff : q.lines.contains (f t) = true ↔ p.lines.contains t = true := by
        rw [hq.contains_iff, hp.contains_iff]
        exact hstored t (Stmt.destination?_of_jump ha)
      simp only [Action.renumber, hiff]
      split_ifs
      · simp [renumber]
      · simp [renumber, habove]

/-- The machine at the new numbers makes the step that the machine makes. -/
theorem step_renumber (h : p.Renumbered f q) (hf : StrictMonoOn f p.numbers)
    (hp : p.Consistent) (hq : q.Consistent) (hc : ∀ n, c.line = some n → n ∈ p.numbers) :
    (c.renumber f).step q.lines = (c.step p.lines).renumber f := by
  cases hs : c.stopped with
  | true =>
      have hs' : (c.renumber f).stopped = true := hs
      rw [step_of_stopped hs, step_of_stopped hs']
  | false =>
      have hs' : (c.renumber f).stopped = false := hs
      cases hl : c.line with
      | none =>
          have hl' : (c.renumber f).line = none := by rw [renumber, hl]; rfl
          rw [step_of_line_none hs hl, step_of_line_none hs' hl']
          rfl
      | some n =>
          have hl' : (c.renumber f).line = some (f n) := by rw [renumber, hl]; rfl
          have hn := hc n hl
          have habove : above q.lines (f n) = (above p.lines n).map f := by
            rw [← hq.next?_eq_above, ← hp.next?_eq_above, h.next?_eq hf hp hq hn]
          rw [step_of_line_some hs hl, step_of_line_some hs' hl', ← hp.stmt?_eq, ← hq.stmt?_eq,
            h.stmt?_eq hf hn]
          cases hst : p.stmt? n with
          | none => simp [renumber, habove]
          | some st =>
              have hstored (t : LineNumber) (ht : st.destination? = some t) :=
                h.isSome_line?_iff hf (n := t) (.inr (.inl ⟨n, st, hst, ht⟩))
              have hx := execute_renumber (c := c) hp hq habove hstored
              cases st with
              | remark => simp [renumber, Stmt.renumber, habove]
              | stop => simp [renumber, Stmt.renumber]
              | _ => exact hx

/-! ### Where the machine can be -/

theorem execute_line (c : Counter) (lines : Table LineNumber StoredLine) (n : LineNumber)
    (st : Stmt) :
    (c.execute lines n st).line = c.line ∨ (c.execute lines n st).line = above lines n ∨
      ∃ t ∈ lines.keys, (c.execute lines n st).line = some t := by
  rw [execute]
  dsimp only
  cases (st.execute c.env c.answers).action with
  | halt => exact .inl rfl
  | next => exact .inr (.inl rfl)
  | jump t =>
      dsimp only
      split_ifs with ht
      · exact .inr (.inr ⟨t, Table.contains_iff.1 ht, rfl⟩)
      · exact .inr (.inl rfl)

/-- A step leaves the machine where it is or moves it to a line, if anywhere. -/
theorem step_line (c : Counter) (lines : Table LineNumber StoredLine) :
    (c.step lines).line = c.line ∨ ∀ n, (c.step lines).line = some n → n ∈ lines.keys := by
  have habove (n k : LineNumber) (h : above lines n = some k) : k ∈ lines.keys :=
    (above_eq_some_iff.1 h).1.1
  cases hs : c.stopped with
  | true => exact .inl (congrArg line (step_of_stopped hs))
  | false =>
      cases hl : c.line with
      | none =>
          rw [step_of_line_none hs hl]
          exact .inl hl
      | some n =>
          rw [step_of_line_some hs hl, ← hl]
          split
          · exact .inr (habove n)
          · exact .inr (habove n)
          · exact .inl rfl
          · rename_i st _ _ _
            rcases c.execute_line lines n st with h | h | ⟨t, ht, h⟩
            · exact .inl h
            · exact .inr (h ▸ habove n)
            · refine .inr fun k hk => ?_
              rwa [← Option.some.inj (h.symm.trans hk)]

theorem step_mem_numbers (hp : p.Consistent) (hc : ∀ n, c.line = some n → n ∈ p.numbers) :
    ∀ n, (c.step p.lines).line = some n → n ∈ p.numbers := by
  intro n hn
  rcases c.step_line p.lines with h | h
  · exact hc n (h ▸ hn)
  · exact Program.mem_numbers_of_line (hp.isSome_line?_iff.2 (h n hn))

/-- After any number of steps the machines are at corresponding lines. -/
theorem iterate_renumber (h : p.Renumbered f q) (hf : StrictMonoOn f p.numbers)
    (hp : p.Consistent) (hq : q.Consistent) (hc : ∀ n, c.line = some n → n ∈ p.numbers)
    (n : Nat) :
    (step q.lines)^[n] (c.renumber f) = ((step p.lines)^[n] c).renumber f := by
  induction n generalizing c with
  | zero => rfl
  | succ n ih =>
      rw [Function.iterate_succ_apply, Function.iterate_succ_apply, step_renumber h hf hp hq hc]
      exact ih (step_mem_numbers hp hc)

end Counter

/-! ### The whole run -/

namespace Program

variable {p : Program}

/-- The program with its lines, destinations and cursor renumbered.  The sources
are left as they are. -/
def renumber (f : LineNumber → LineNumber) (p : Program) : Program :=
  { p with
    lines := ⟨p.lines.entries.map fun e =>
      (f e.1, { e.2 with stmt := e.2.stmt.map (Stmt.renumber f) })⟩
    cursor := p.cursor.map f }

theorem keys_renumber (f : LineNumber → LineNumber) (p : Program) :
    (p.renumber f).lines.keys = p.lines.keys.map f := by
  simp [renumber, Table.keys]

theorem Consistent.renumber (h : p.Consistent) (hf : StrictMonoOn f p.numbers) :
    (p.renumber f).Consistent := by
  have hmem (n : LineNumber) (hn : n ∈ p.lines.keys) : n ∈ p.numbers :=
    mem_numbers_of_line (h.isSome_line?_iff.2 hn)
  constructor
  · rw [Table.Ordered, keys_renumber, List.pairwise_map]
    exact h.ordered.imp_of_mem fun ha hb hab => hf (hmem _ ha) (hmem _ hb) hab
  · rw [← Table.length_keys, keys_renumber, List.length_map, Table.length_keys]
    exact h.counted

/-- Every program can be renumbered. -/
theorem Consistent.renumbered (h : p.Consistent) (hf : StrictMonoOn f p.numbers) :
    p.Renumbered f (p.renumber f) := by
  have hq := h.renumber hf
  refine ⟨fun k => ?_, fun n hn => ?_, rfl⟩
  · rw [hq.isSome_line?_iff, keys_renumber, List.mem_map]
    simp only [h.isSome_line?_iff]
  · obtain ⟨l, hl⟩ := Option.isSome_iff_exists.1 hn
    have hget : p.lines.get? n = some l := by rw [← h.line?_eq, hl]
    have hmem : (n, l) ∈ p.lines.entries := h.ordered.mem_entries_iff.2 hget
    have hget' : (p.renumber f).lines.get? (f n) =
        some { l with stmt := l.stmt.map (Stmt.renumber f) } :=
      hq.ordered.get?_of_mem (List.mem_map_of_mem hmem)
    rw [hq.stmt?_eq, h.stmt?_eq, hget, hget']
    rfl

end Program

namespace Session

variable {s s' : Session}

/-- Two sessions without an alarm, with the same variables and answers, whose
programs are not empty and hold the same statements at corresponding lines: the
numbers of the second one are those of the first one under a map that keeps the
order of all the numbers in the program.  Their runs end both or neither.  After
any number of passes they look the same, and they have executed corresponding
lines. -/
theorem renumbered_run_looks_same (hcon : s.program.Consistent) (hcon' : s'.program.Consistent)
    (hne : s.program.size ≠ 0) (hf : StrictMonoOn f s.program.numbers)
    (hp : s.program.Renumbered f s'.program) (henv : s'.env = s.env)
    (hin : s'.input.answers = s.input.answers) (ha : s.alarm = none) (ha' : s'.alarm = none) :
    let t := s.beginRun
    let t' := s'.beginRun
    ((∃ n, (t.after n).stage ≠ .running) ↔ ∃ n, (t'.after n).stage ≠ .running) ∧
      ∀ n, (t.after n).SameView (t'.after n) ∧ t'.trace n = (t.trace n).map f := by
  intro t t'
  have hne' : s'.program.size ≠ 0 := by
    obtain ⟨n, hn⟩ := hcon.size_ne_zero_iff.1 hne
    exact hcon'.size_ne_zero_iff.2 ⟨f n, (hp.stored (f n)).2 ⟨n, hn, rfl⟩⟩
  have hstart : Counter.ofSession s' = (Counter.ofSession s).renumber f := by
    rw [Counter.ofSession, Counter.ofSession, Counter.renumber, hp.cursor, henv, hin]
    rfl
  have hcounter (n : Nat) := Counter.iterate_renumber hp hf hcon hcon'
    (c := Counter.ofSession s) (fun n hn => .inr (.inr hn)) n
  have hview (n : Nat) : (t.after n).SameView (t'.after n) := by
    have hshows := Counter.run_shows hcon hne ha n
    have hshows' := Counter.run_shows hcon' hne' ha' n
    rw [hstart, hcounter] at hshows'
    exact hshows.sameView hshows'
  refine ⟨exists_congr fun n => by rw [(hview n).stage], fun n => ⟨hview n, ?_⟩⟩
  rw [Counter.run_trace hcon hne ha, Counter.run_trace hcon' hne' ha', hstart, hcounter]
  rfl

/-- A jump to a line that is not there, a comment, and a jump over a line. -/
theorem renumbered_run_looks_same_spread :
    let program : Program :=
      ⟨⟨[(10, ⟨[], some (.jump 99)⟩), (20, ⟨[], some .remark⟩),
        (30, ⟨[], some (.branch (.const 1) .less (.const 2) 50)⟩),
        (40, ⟨[], some (.print (.const 4))⟩), (50, ⟨[], some (.print (.const 5))⟩)]⟩, 5, some 10⟩
    let f : LineNumber → LineNumber := fun n => 3 * n + 1
    let t := ({ program } : Session).beginRun
    let t' := ({ program := program.renumber f } : Session).beginRun
    program.Renumbered f (program.renumber f) ∧ t.trace 5 = [10, 30, 50] ∧
      t'.trace 5 = [31, 91, 151] ∧ (t'.after 5).stage = .idle ∧
      (t'.after 5).events = [.fault .lineNumber, .value 5, .statistics 3] := by
  intro program f t t'
  have hcon : program.Consistent := ⟨by simp [program, Table.Ordered, Table.keys], rfl⟩
  have hf : StrictMonoOn f program.numbers := by
    intro a _ b _ hab
    have hmul : 3 * a < 3 * b := Int.mul_lt_mul_of_pos_left hab (by decide)
    exact Int.add_lt_add_right hmul 1
  have hp := hcon.renumbered hf
  have hsame := @renumbered_run_looks_same f { program } { program := program.renumber f }
    hcon (hcon.renumber hf) (by decide) hf hp rfl rfl rfl rfl
  obtain ⟨hview, htrace⟩ := hsame.2 5
  have hran : t.trace 5 = [10, 30, 50] := by decide
  have hstage : (t.after 5).stage = .idle := by decide
  have hevents : (t.after 5).events = [.fault .lineNumber, .value 5, .statistics 3] := by decide
  refine ⟨hp, hran, ?_, hview.stage.symm.trans hstage, hview.events.symm.trans hevents⟩
  rw [htrace, hran]
  rfl

end Session

end LineBasic
