import LineBasic.Proofs.Session.Frame

/-!
# Passes

What one pass of a run comes to, by the state it starts in: an interrupt, no
line under the cursor, a line to be passed over, an end, or a statement to be
executed; and after a statement, by what it says about where to go on.

A pass changes nothing of the program but its cursor, which it leaves on the
first line, on the next line or on the target of a jump (`pass_program`); the
last pass leaves it on the first line (`pass_ended`).
-/

namespace LineBasic

/-- Statements that count when they are met; the others are passed over or end
the run. -/
def Stmt.isCounted : Stmt → Bool
  | remark | stop => false
  | _ => true

namespace Session

variable {s : Session} {n t : LineNumber} {st : Stmt}

/-! ### The ways of a pass -/

theorem pass_of_interrupted (h : s.interrupted = true) :
    s.pass = { s with interrupted := false }.endRun [.fault .interrupted] := by
  rw [pass, takeInterrupt_fst, if_pos h, takeInterrupt]

/-- The session with the cursor moved on to the next line. -/
def advanced (s : Session) : Session :=
  { s with program := s.program.advance.2 }

theorem pass_of_cursor_none (hi : s.interrupted = false) (hc : s.program.cursor = none) :
    s.pass = s.advanced.endRun [] := by
  rw [pass, if_neg (by simp [hi]), Program.advance, hc]
  simp only [advanced, Program.advance, hc]

theorem pass_of_cursor_some (hi : s.interrupted = false) (hc : s.program.cursor = some n) :
    s.pass =
      match s.program.stmt? n with
      | none => s.advanced.turn .running []
      | some .remark => s.advanced.turn .running []
      | some .stop => s.advanced.endRun []
      | some st => s.advanced.executeLine st := by
  rw [pass, if_neg (by simp [hi]), Program.advance, hc]
  simp only [advanced, Program.advance, hc]
  rfl

/-! ### The ways on from a statement -/

/-- What a statement does when it is executed in a session. -/
def execution (s : Session) (st : Stmt) : Execution :=
  st.execute s.env s.input.answers

theorem executeLine_of_halt (h : (s.execution st).action = .halt) :
    s.executeLine st = (s.absorb (s.execution st)).endRun (s.execution st).events := by
  rw [executeLine]
  simp only [execution] at h ⊢
  rw [h]

theorem executeLine_of_next (h : (s.execution st).action = .next) :
    s.executeLine st = (s.absorb (s.execution st)).turn .running (s.execution st).events := by
  rw [executeLine]
  simp only [execution] at h ⊢
  rw [h]

theorem executeLine_of_jump (h : (s.execution st).action = .jump t)
    (ht : (s.program.line? t).isSome) :
    s.executeLine st =
      { s.absorb (s.execution st) with program := { s.program with cursor := some t } }.turn
        .running (s.execution st).events := by
  have hm : (s.absorb (s.execution st)).program.moveTo? t =
      some { s.program with cursor := some t } := Program.moveTo?_eq_some ht
  rw [executeLine]
  simp only [execution] at h hm ⊢
  rw [h]
  dsimp only
  rw [hm]

theorem executeLine_of_jump_missing (h : (s.execution st).action = .jump t)
    (ht : s.program.line? t = none) :
    s.executeLine st =
      (s.absorb (s.execution st)).turn .running
        ((s.execution st).events ++ [.fault .lineNumber]) := by
  have hm : (s.absorb (s.execution st)).program.moveTo? t = none :=
    Program.moveTo?_eq_none_iff.2 ht
  rw [executeLine]
  simp only [execution] at h hm ⊢
  rw [h]
  dsimp only
  rw [hm]

/-! ### The program under a run -/

theorem beginRun_of_first?_ne (hf : s.program.first? ≠ none) :
    s.beginRun =
      ⟨{ s with running := true, interrupted := false, executed := 0 }, [], .running⟩ := by
  obtain ⟨n, hn⟩ := Option.ne_none_iff_exists'.1 hf
  rw [beginRun, hn]
  rfl

theorem beginRun_program (s : Session) : s.beginRun.session.program = s.program := by
  rw [beginRun]
  cases s.program.first? with
  | none => exact turn_program _ _ _
  | some n => exact turn_program _ _ _

@[simp] theorem endRun_program (s : Session) (events : List Event) :
    (s.endRun events).session.program = s.program.rewind := by
  simp [endRun]

@[simp] theorem absorb_program (s : Session) (x : Execution) :
    (s.absorb x).program = s.program := rfl

/-- Where a pass may leave the cursor. -/
def CursorAfter (p : Program) (c : Option LineNumber) : Prop :=
  c = p.first? ∨ c = p.cursor.bind p.next? ∨ ∃ t, c = some t ∧ (p.line? t).isSome

theorem executeLine_program (s : Session) (st : Stmt) :
    ∃ c, (s.executeLine st).session.program = { s.program with cursor := c } ∧
      (c = s.program.cursor ∨ c = s.program.first? ∨
        ∃ t, c = some t ∧ (s.program.line? t).isSome) := by
  cases h : (s.execution st).action with
  | halt =>
      refine ⟨s.program.first?, ?_, .inr (.inl rfl)⟩
      rw [executeLine_of_halt h, endRun_program]
      rfl
  | next =>
      refine ⟨s.program.cursor, ?_, .inl rfl⟩
      rw [executeLine_of_next h, turn_program, absorb_program]
  | jump t =>
      cases ht : s.program.line? t with
      | none =>
          refine ⟨s.program.cursor, ?_, .inl rfl⟩
          rw [executeLine_of_jump_missing h ht, turn_program, absorb_program]
      | some l =>
          have hsome : (s.program.line? t).isSome := by simp [ht]
          refine ⟨some t, ?_, .inr (.inr ⟨t, rfl, hsome⟩)⟩
          rw [executeLine_of_jump h hsome, turn_program]

/-- A pass changes nothing of the program but the cursor. -/
theorem pass_program (s : Session) :
    ∃ c, s.pass.session.program = { s.program with cursor := c } ∧ CursorAfter s.program c := by
  have hend (s : Session) (events : List Event) :
      (s.advanced.endRun events).session.program =
        { s.program with cursor := s.program.first? } := endRun_program _ _
  have hturn : (s.advanced.turn .running []).session.program =
      { s.program with cursor := s.program.cursor.bind s.program.next? } := turn_program _ _ _
  cases hi : s.interrupted with
  | true =>
      refine ⟨s.program.first?, ?_, .inl rfl⟩
      rw [pass_of_interrupted hi, endRun_program]
      rfl
  | false =>
      cases hc : s.program.cursor with
      | none => exact ⟨_, by rw [pass_of_cursor_none hi hc, hend], .inl rfl⟩
      | some n =>
          rw [pass_of_cursor_some hi hc]
          split
          · exact ⟨_, hturn, .inr (.inl rfl)⟩
          · exact ⟨_, hturn, .inr (.inl rfl)⟩
          · exact ⟨_, hend s [], .inl rfl⟩
          · rename_i st _ _ _
            obtain ⟨c, h, hc' | hc' | hc'⟩ := executeLine_program s.advanced st
            · exact ⟨c, h, .inr (.inl hc')⟩
            · exact ⟨c, h, .inl hc'⟩
            · exact ⟨c, h, .inr (.inr hc')⟩

/-! ### The end of a run -/

theorem executeLine_ended {s : Session} {st : Stmt} (h : (s.executeLine st).stage ≠ .running) :
    (s.executeLine st).session.program = s.program.rewind := by
  cases ha : (s.execution st).action with
  | halt => rw [executeLine_of_halt ha, endRun_program, absorb_program]
  | next =>
      rw [executeLine_of_next ha] at h
      exact absurd rfl h
  | jump t =>
      cases ht : s.program.line? t with
      | none =>
          rw [executeLine_of_jump_missing ha ht] at h
          exact absurd rfl h
      | some l =>
          rw [executeLine_of_jump ha (by simp [ht])] at h
          exact absurd rfl h

/-- The pass that ends a run puts the cursor on the first line. -/
theorem pass_ended {s : Session} (h : s.pass.stage ≠ .running) :
    s.pass.session.program = s.program.rewind := by
  have hend : (s.advanced.endRun []).session.program = s.program.rewind := endRun_program _ _
  cases hi : s.interrupted with
  | true => rw [pass_of_interrupted hi, endRun_program]
  | false =>
      cases hc : s.program.cursor with
      | none => rw [pass_of_cursor_none hi hc, hend]
      | some n =>
          rw [pass_of_cursor_some hi hc] at h ⊢
          split at h
          · exact absurd rfl h
          · exact absurd rfl h
          · exact hend
          · exact executeLine_ended h

/-! ### All the ways of a pass -/

/-- The line under the cursor has a statement that counts. -/
structure Executes (s : Session) (n : LineNumber) (st : Stmt) : Prop where
  cursor : s.program.cursor = some n
  stmt : s.program.stmt? n = some st
  counted : st.isCounted = true

/-- What a pass comes to that finds no interrupt. -/
inductive Passes (s : Session) : Turn → Prop
  | runsOut : s.program.cursor = none → Passes s (s.advanced.endRun [])
  | skips {n : LineNumber} : s.program.cursor = some n →
      s.program.stmt? n = none ∨ s.program.stmt? n = some .remark →
        Passes s (s.advanced.turn .running [])
  | stops {n : LineNumber} : s.program.cursor = some n → s.program.stmt? n = some .stop →
      Passes s (s.advanced.endRun [])
  | halts {n : LineNumber} {st : Stmt} : s.Executes n st → (s.execution st).action = .halt →
      Passes s ((s.advanced.absorb (s.execution st)).endRun (s.execution st).events)
  | goesOn {n : LineNumber} {st : Stmt} : s.Executes n st → (s.execution st).action = .next →
      Passes s ((s.advanced.absorb (s.execution st)).turn .running (s.execution st).events)
  | jumps {n t : LineNumber} {st : Stmt} : s.Executes n st →
      (s.execution st).action = .jump t → (s.program.line? t).isSome →
        Passes s
          ({ s.absorb (s.execution st) with program := { s.program with cursor := some t } }.turn
            .running (s.execution st).events)
  | misses {n t : LineNumber} {st : Stmt} : s.Executes n st →
      (s.execution st).action = .jump t → s.program.line? t = none →
        Passes s
          ((s.advanced.absorb (s.execution st)).turn .running
            ((s.execution st).events ++ [.fault .lineNumber]))

theorem Executes.pass_eq (h : s.Executes n st) (hi : s.interrupted = false) :
    s.pass = s.advanced.executeLine st := by
  rw [pass_of_cursor_some hi h.cursor, h.stmt]
  cases st with
  | remark => exact absurd h.counted (by decide)
  | stop => exact absurd h.counted (by decide)
  | _ => rfl

theorem Executes.passes (h : s.Executes n st) (hi : s.interrupted = false) : s.Passes s.pass := by
  rw [h.pass_eq hi]
  cases ha : (s.execution st).action with
  | halt =>
      rw [executeLine_of_halt (s := s.advanced) ha]
      exact .halts h ha
  | next =>
      rw [executeLine_of_next (s := s.advanced) ha]
      exact .goesOn h ha
  | jump t =>
      cases ht : s.program.line? t with
      | none =>
          rw [executeLine_of_jump_missing (s := s.advanced) ha ht]
          exact .misses h ha ht
      | some l =>
          have hsome : (s.program.line? t).isSome := by simp [ht]
          rw [executeLine_of_jump (s := s.advanced) ha hsome]
          exact .jumps h ha hsome

theorem passes_pass (hi : s.interrupted = false) : s.Passes s.pass := by
  cases hc : s.program.cursor with
  | none =>
      rw [pass_of_cursor_none hi hc]
      exact .runsOut hc
  | some n =>
      cases hst : s.program.stmt? n with
      | none =>
          rw [pass_of_cursor_some hi hc, hst]
          exact .skips hc (.inl hst)
      | some st =>
          cases st with
          | remark =>
              rw [pass_of_cursor_some hi hc, hst]
              exact .skips hc (.inr hst)
          | stop =>
              rw [pass_of_cursor_some hi hc, hst]
              exact .stops hc hst
          | _ => exact Executes.passes ⟨hc, hst, rfl⟩ hi

theorem Passes.pass_eq {t : Turn} (h : s.Passes t) (hi : s.interrupted = false) : s.pass = t := by
  cases h with
  | runsOut hc => exact pass_of_cursor_none hi hc
  | skips hc hst =>
      rw [pass_of_cursor_some hi hc]
      rcases hst with hst | hst <;> rw [hst]
  | stops hc hst => rw [pass_of_cursor_some hi hc, hst]
  | halts h ha => exact (h.pass_eq hi).trans (executeLine_of_halt ha)
  | goesOn h ha => exact (h.pass_eq hi).trans (executeLine_of_next ha)
  | jumps h ha ht => exact (h.pass_eq hi).trans (executeLine_of_jump ha ht)
  | misses h ha ht => exact (h.pass_eq hi).trans (executeLine_of_jump_missing ha ht)

/-- After a pass the run goes on or is over; no pass ends the session. -/
theorem pass_stage (s : Session) : s.pass.stage = .running ∨ s.pass.stage = .idle := by
  cases hi : s.interrupted with
  | true =>
      rw [pass_of_interrupted hi]
      exact .inr rfl
  | false =>
      have hpass := passes_pass hi
      generalize s.pass = t at hpass
      cases hpass with
      | runsOut | stops | halts => exact .inr rfl
      | skips | goesOn | jumps | misses => exact .inl rfl

/-! ### Two sessions in lockstep -/

/-- Two sessions with the same program, and a relation that holds of them before
and after the statement under the cursor.  If what is told in the same way from
related sessions is related too, then so are the turns that a pass comes to. -/
theorem Passes.lockstep {s s' : Session} {t : Turn} {R : Session → Session → Prop}
    {Q : Turn → Turn → Prop} (h : s.Passes t) (hp : s'.program = s.program) (hR : R s s')
    (hx : ∀ n st, s.Executes n st →
      (s'.execution st).action = (s.execution st).action ∧
        (s'.execution st).events = (s.execution st).events ∧
        R (s.absorb (s.execution st)) (s'.absorb (s'.execution st)))
    (hturn : ∀ u u' program events, R u u' →
      Q ({ u with program }.turn .running events) ({ u' with program }.turn .running events))
    (hend : ∀ u u' program events, R u u' →
      Q ({ u with program }.endRun events) ({ u' with program }.endRun events)) :
    ∃ t', s'.Passes t' ∧ Q t t' := by
  have hadvanced : s'.advanced = { s' with program := s.advanced.program } := by
    rw [advanced, hp]
    rfl
  have hexecutes {n : LineNumber} {st : Stmt} (hst : s.Executes n st) : s'.Executes n st :=
    ⟨hp ▸ hst.cursor, hp ▸ hst.stmt, hst.counted⟩
  cases h with
  | runsOut hc =>
      refine ⟨_, .runsOut (hp ▸ hc), ?_⟩
      rw [hadvanced]
      exact hend s s' _ _ hR
  | skips hc hst =>
      refine ⟨_, .skips (hp ▸ hc) (hp ▸ hst), ?_⟩
      rw [hadvanced]
      exact hturn s s' _ _ hR
  | stops hc hst =>
      refine ⟨_, .stops (hp ▸ hc) (hp ▸ hst), ?_⟩
      rw [hadvanced]
      exact hend s s' _ _ hR
  | halts hst ha =>
      obtain ⟨haction, hevents, hR⟩ := hx _ _ hst
      refine ⟨_, .halts (hexecutes hst) (haction.trans ha), ?_⟩
      rw [hadvanced, hevents]
      exact hend _ _ _ _ hR
  | goesOn hst ha =>
      obtain ⟨haction, hevents, hR⟩ := hx _ _ hst
      refine ⟨_, .goesOn (hexecutes hst) (haction.trans ha), ?_⟩
      rw [hadvanced, hevents]
      exact hturn _ _ _ _ hR
  | jumps hst ha ht =>
      obtain ⟨haction, hevents, hR⟩ := hx _ _ hst
      refine ⟨_, .jumps (hexecutes hst) (haction.trans ha) (hp ▸ ht), ?_⟩
      rw [hevents, hp]
      exact hturn _ _ _ _ hR
  | misses hst ha ht =>
      obtain ⟨haction, hevents, hR⟩ := hx _ _ hst
      refine ⟨_, .misses (hexecutes hst) (haction.trans ha) (hp ▸ ht), ?_⟩
      rw [hadvanced, hevents]
      exact hturn _ _ _ _ hR

end Session

end LineBasic
