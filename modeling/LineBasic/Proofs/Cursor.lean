import LineBasic.Proofs.Session.Operation
import LineBasic.Proofs.Session.Submit

/-!
# The cursor stays on a line

The cursor is on a stored line or on none, whatever has been done to the program
and at every pass of a run.  `Sound` is the invariant: together with being
consistent it is kept by every operation, every command, every line and every
pass, and so it holds in every reachable state (`Reachable.sound`).
-/

namespace LineBasic

namespace Program

variable {p : Program} {n : LineNumber}

/-- The program is consistent and its cursor is on a stored line or on none. -/
structure Sound (p : Program) : Prop where
  consistent : p.Consistent
  stored : ∀ n, p.cursor = some n → (p.line? n).isSome

theorem sound_empty : Program.empty.Sound :=
  ⟨consistent_empty, by simp [Program.empty]⟩

/-- The cursor of a sound program may be put on any stored line. -/
theorem Sound.setCursor (h : p.Sound) {c : Option LineNumber}
    (hc : ∀ n, c = some n → (p.line? n).isSome) : { p with cursor := c }.Sound :=
  ⟨h.consistent.of_lines_eq rfl rfl, hc⟩

theorem Consistent.sound_rewind (h : p.Consistent) : p.rewind.Sound :=
  ⟨h.of_lines_eq rfl rfl, fun _ hn => h.isSome_line?_of_first? hn⟩

theorem Sound.park (h : p.Sound) : p.park.Sound :=
  h.setCursor (by simp)

theorem Sound.advance (h : p.Sound) : p.advance.2.Sound := by
  refine h.setCursor ?_
  intro n hn
  obtain ⟨m, -, hm⟩ := Option.bind_eq_some_iff.1 hn
  exact h.consistent.isSome_line?_of_next? hm

/-- A cursor that was not on the removed line is still on a line. -/
theorem Sound.remove (h : p.Sound) (n : LineNumber) : (p.remove n).Sound := by
  have hcon := h.consistent.remove n
  refine ⟨hcon, ?_⟩
  intro k hk
  by_cases hc : p.cursor = some n
  · rw [remove_cursor_self (h.stored n hc) hc] at hk
    exact hcon.isSome_line?_of_first? hk
  · rw [remove_cursor_of_ne hc] at hk
    have hkn : k ≠ n := by
      rintro rfl
      exact hc hk
    rw [h.consistent.remove_line? n, Function.update_of_ne hkn]
    exact h.stored k hk

/-- Changing a line, or adding one, takes none away. -/
theorem Sound.of_update {q : Program} (h : p.Sound) (hcon : q.Consistent) {l : StoredLine}
    (hline : q.line? = Function.update p.line? n (some l)) (hcur : q.cursor = p.cursor) :
    q.Sound := by
  refine ⟨hcon, ?_⟩
  intro k hk
  rw [hline]
  by_cases hkn : k = n
  · subst hkn
    simp
  · rw [Function.update_of_ne hkn]
    exact h.stored k (hcur ▸ hk)

end Program

namespace Session

variable {s : Session}

/-! ### One step -/

theorem enterLine_sound (h : s.program.Sound) (n : LineNumber) (text : Bytes)
    (tail : List Token) : (s.enterLine n text tail).1.program.Sound := by
  cases tail with
  | nil =>
      rw [enterLine_nil, tell_program]
      exact h.remove n
  | cons t ts =>
      cases ht : Stmt.parse (t :: ts) with
      | error f =>
          rw [enterLine_error (by simp) ht, tell_program]
          exact h
      | ok st =>
          obtain ⟨p, hcon, -, -, he⟩ := enterLine_ok h.consistent ht n text
          rw [he, tell_program]
          exact hcon.sound_rewind

theorem perform_sound (h : s.program.Sound) (o : Operation) :
    (s.perform o).session.program.Sound := by
  cases o with
  | enter n text tail => exact enterLine_sound h n text tail
  | remove n => exact h.remove n
  | insert n l =>
      rw [perform]
      cases hn : s.program.line? n with
      | some l' =>
          rw [insertLine_of_some h.consistent (by simp [hn]), tell_program]
          exact h
      | none =>
          obtain ⟨p, hp, he⟩ := insertLine_of_none h.consistent (l := l) hn
          obtain ⟨hcon, hline, hcur⟩ := h.consistent.insert?_spec hp
          rw [he, tell_program]
          exact h.of_update hcon hline hcur
  | setStmt n stmt =>
      cases hn : s.program.line? n with
      | none =>
          simp only [perform, Program.setStmt?_eq_none_iff.2 hn, replaced]
          exact h
      | some l =>
          obtain ⟨q, hq, hcon, hline, hcur⟩ := h.consistent.setStmt?_spec (s := stmt) hn
          simp only [perform, hq, replaced]
          exact h.of_update hcon hline hcur
  | erase => exact Program.sound_empty
  | moveTo n =>
      cases hn : s.program.line? n with
      | none =>
          simp only [perform, Program.moveTo?_eq_none_iff.2 hn, replaced]
          exact h
      | some l =>
          have hsome : (s.program.line? n).isSome := by simp [hn]
          simp only [perform, Program.moveTo?_eq_some hsome, replaced]
          refine h.setCursor ?_
          rintro k hk
          exact Option.some.inj hk ▸ hsome
  | advance => exact h.advance
  | park => exact h.park
  | rewind => exact h.consistent.sound_rewind

theorem command_sound (h : s.program.Sound) (c : Command) :
    (s.command c).session.program.Sound := by
  rcases command_program s c with hp | hp | hp
  · exact hp ▸ h
  · exact hp ▸ h.park
  · exact hp ▸ Program.sound_empty

theorem submit_sound (h : s.program.Sound) (text : Bytes) :
    (s.submit text).session.program.Sound := by
  rcases submit_cases s text with ⟨numeral, tail, n, -, -, hs⟩ | ⟨-, c, -, -, hs⟩ | ⟨⟨hp, -⟩, -⟩
  · rw [hs]
    exact enterLine_sound h n text tail
  · rw [hs]
    exact command_sound h c
  · exact hp ▸ h

theorem pass_sound (h : s.program.Sound) : s.pass.session.program.Sound := by
  obtain ⟨c, hp, hc⟩ := pass_program s
  rw [hp]
  rcases hc with rfl | rfl | ⟨t, rfl, ht⟩
  · exact h.consistent.sound_rewind
  · exact h.advance
  · refine h.setCursor ?_
    intro n hn
    exact Option.some.inj hn ▸ ht

/-! ### All steps -/

/-- The states that a session with a new program comes to.  While a program runs
there are only the passes of the run; the state at stage `running` is the one in
which the next pass begins. -/
inductive Reachable : Session → Stage → Prop
  | start (s : Session) : Reachable { s with program := .empty } .idle
  | perform {s : Session} {stage : Stage} (o : Operation) :
      Reachable s stage → stage ≠ .running → Reachable (s.perform o).session stage
  | command {s : Session} {stage : Stage} (c : Command) :
      Reachable s stage → stage ≠ .running →
        Reachable (s.command c).session (s.command c).stage
  | submit {s : Session} {stage : Stage} (text : Bytes) :
      Reachable s stage → stage ≠ .running →
        Reachable (s.submit text).session (s.submit text).stage
  | pass {s : Session} : Reachable s .running → Reachable s.pass.session s.pass.stage

theorem Reachable.sound {stage : Stage} (h : Reachable s stage) : s.program.Sound := by
  induction h with
  | start s => exact Program.sound_empty
  | perform o _ _ ih => exact perform_sound ih o
  | command c _ _ ih => exact command_sound ih c
  | submit text _ _ ih => exact submit_sound ih text
  | pass _ ih => exact pass_sound ih

/-- In every reachable state the cursor is on a stored line or on none; moving it
to a line that is not there, or giving such a line a statement, changes nothing;
and removing a line moves the cursor only if it was on that line, and then to the
lowest line that is left. -/
theorem cursor_stored_of_reachable {stage : Stage} (h : Reachable s stage) :
    (∀ n, s.program.cursor = some n → (s.program.line? n).isSome) ∧
      (∀ n, s.program.line? n = none →
        s.perform (.moveTo n) = { session := s, fault := some .lineNumber }) ∧
      (∀ n stmt, s.program.line? n = none →
        s.perform (.setStmt n stmt) = { session := s, fault := some .lineNumber }) ∧
      (∀ n stmt, (s.program.line? n).isSome →
        (s.perform (.moveTo n)).fault = none ∧ (s.perform (.setStmt n stmt)).fault = none) ∧
      (∀ n, s.program.cursor = some n →
        (∀ k, (s.perform (.remove n)).session.program.cursor = some k ↔
          IsLeast {j | j ≠ n ∧ (s.program.line? j).isSome} k) ∧
        ((s.perform (.remove n)).session.program.cursor = none ↔
          ∀ j, j ≠ n → s.program.line? j = none)) ∧
      (∀ n, s.program.cursor ≠ some n →
        (s.perform (.remove n)).session.program.cursor = s.program.cursor) := by
  have hs := h.sound
  refine ⟨hs.stored, ?_, ?_, ?_, ?_, ?_⟩
  · intro n hn
    rw [perform, Program.moveTo?_eq_none_iff.2 hn, replaced]
  · intro n stmt hn
    rw [perform, Program.setStmt?_eq_none_iff.2 hn, replaced]
  · intro n stmt hn
    obtain ⟨l, hl⟩ := Option.isSome_iff_exists.1 hn
    obtain ⟨q, hq, -⟩ := hs.consistent.setStmt?_spec (s := stmt) hl
    rw [perform, perform, Program.moveTo?_eq_some hn, hq]
    exact ⟨rfl, rfl⟩
  · intro n hn
    have hcon := hs.consistent.remove n
    have hline := hs.consistent.remove_line? n
    have hstored : {j | ((s.program.remove n).line? j).isSome} =
        {j | j ≠ n ∧ (s.program.line? j).isSome} := by
      ext j
      rw [hline]
      by_cases hj : j = n <;> simp [hj]
    have hcur : (s.perform (.remove n)).session.program.cursor = (s.program.remove n).first? :=
      Program.remove_cursor_self (hs.stored n hn) hn
    rw [hcur]
    constructor
    · intro k
      rw [hcon.first?_eq_some_iff, hstored]
    · rw [hcon.first?_eq_none_iff, hline]
      refine forall_congr' fun j => ?_
      by_cases hj : j = n <;> simp [hj]
  · intro n hn
    exact Program.remove_cursor_of_ne hn

/-- The jump of a one-line program to itself, after one pass. -/
theorem cursor_stored_after_jump :
    let s : Session := (({} : Session).perform (.insert 10 ⟨[], some (.jump 10)⟩)).session
    let t : Session := ((s.perform .rewind).session.command .run).session.pass.session
    Reachable t .running ∧ t.program.cursor = some 10 ∧ (t.program.line? 10).isSome := by
  intro s t
  have hrun : Reachable ((s.perform .rewind).session.command .run).session .running :=
    .command .run (.perform .rewind (.perform _ (.start {}) (by decide)) (by decide)) (by decide)
  have ht : Reachable t .running := .pass hrun
  have hc : t.program.cursor = some 10 := by decide
  exact ⟨ht, hc, (cursor_stored_of_reachable ht).1 10 hc⟩

end Session

end LineBasic
