import LineBasic.Proofs.Session.Pass

/-!
# What a line comes to

A line is empty, enters or removes a line of the program, is a command, is
executed at once, or is refused (`submit_cases`).  Only the second and the third
kind reach the program.
-/

namespace LineBasic

namespace Command

/-- A command stands alone on its line. -/
theorem read_word {w : String} {c : Command} (h : ofWord? w = some c) :
    (read [⟨.word, w⟩]).1 = some (.ok c) := by
  simp [read, h]

theorem exists_word_of_read {ts : List Token} {c : Command} (h : (read ts).1 = some (.ok c)) :
    ∃ w, ts = [⟨.word, w⟩] ∧ ofWord? w = some c := by
  unfold read at h
  split at h
  · rename_i w ts
    cases hw : ofWord? w with
    | none => simp [hw] at h
    | some c' =>
        cases ts with
        | nil => exact ⟨w, rfl, by simpa [hw] using h⟩
        | cons t ts => simp [hw] at h
  · simp at h

theorem fault_of_read {ts : List Token} {f : Fault} (h : (read ts).1 = some (.error f)) :
    f = .syntaxError := by
  unfold read at h
  split at h
  · rename_i w ts
    cases hw : ofWord? w with
    | none => simp [hw] at h
    | some c =>
        cases ts with
        | nil => simp [hw] at h
        | cons t ts => simpa [hw, eq_comm] using h
  · simp at h

end Command

namespace Session

/-- A line that is only told about, or executed at once: it leaves the program
as it was. -/
def Immediate (s : Session) (t : Turn) : Prop :=
  t.session.program = s.program ∧ t.stage = .idle

theorem immediate_turn (s : Session) (events : List Event) :
    s.Immediate (s.turn .idle events) :=
  ⟨turn_program _ _ _, rfl⟩

theorem immediate_immediate (s : Session) (ts : List Token) : s.Immediate (s.immediate ts) := by
  rw [immediate]
  cases Stmt.parse ts with
  | error f => exact immediate_turn s _
  | ok st =>
      refine ⟨?_, rfl⟩
      simp [execute]

/-- A line that begins with a line number is entered under it. -/
theorem submit_of_numeral {s : Session} {text : Bytes} {numeral : String} {tail : List Token}
    {n : LineNumber} (ht : Token.ofLine text = ⟨.number, numeral⟩ :: tail)
    (hn : LineNumber.ofNumeral numeral = .ok n) :
    s.submit text = ⟨(s.enterLine n text tail).1, (s.enterLine n text tail).2, .idle⟩ := by
  rw [submit, ht]
  dsimp only
  rw [numberedLine, hn]

/-- What becomes of a line, by its tokens. -/
theorem submit_cases (s : Session) (text : Bytes) :
    (∃ numeral tail n, Token.ofLine text = ⟨.number, numeral⟩ :: tail ∧
        LineNumber.ofNumeral numeral = .ok n ∧
        s.submit text =
          ⟨(s.enterLine n text tail).1, (s.enterLine n text tail).2, .idle⟩) ∨
      (∃ w c, Token.ofLine text = [⟨.word, w⟩] ∧ Command.ofWord? w = some c ∧
        s.submit text = s.command c) ∨
      (s.Immediate (s.submit text) ∧
        (∀ numeral tail n, Token.ofLine text = ⟨.number, numeral⟩ :: tail →
          LineNumber.ofNumeral numeral ≠ .ok n) ∧
        ∀ w c, Token.ofLine text = [⟨.word, w⟩] → Command.ofWord? w ≠ some c) := by
  rw [submit]
  split
  · rename_i htokens
    exact .inr (.inr ⟨immediate_turn s _, by simp [htokens], by simp [htokens]⟩)
  · rename_i numeral tail htokens
    rw [numberedLine]
    cases hn : LineNumber.ofNumeral numeral with
    | error f =>
        refine .inr (.inr ⟨immediate_turn s _, ?_, by simp [htokens]⟩)
        intro numeral' tail' n htokens'
        obtain ⟨⟨⟩, -⟩ := List.cons.inj (htokens.symm.trans htokens')
        simp [hn]
    | ok n => exact .inl ⟨numeral, tail, n, htokens, hn, rfl⟩
  · rename_i t ts hnumber htokens
    have hunnumbered : ∀ numeral tail n, Token.ofLine text = ⟨.number, numeral⟩ :: tail →
        LineNumber.ofNumeral numeral ≠ .ok n :=
      fun numeral tail n h =>
        absurd (List.cons.inj (htokens.symm.trans h)).1 (by simpa using hnumber numeral)
    have hother (h : ∀ c, (Command.read (t :: ts)).1 ≠ some (.ok c)) (w : String) (c : Command)
        (hw : Token.ofLine text = [⟨.word, w⟩]) : Command.ofWord? w ≠ some c := by
      intro hc
      apply h c
      rw [← htokens, hw, Command.read_word hc]
    split
    · rename_i c hc
      obtain ⟨w, hw, hword⟩ := Command.exists_word_of_read hc
      exact .inr (.inl ⟨w, c, htokens.trans hw, hword, rfl⟩)
    · rename_i f hf
      exact .inr (.inr ⟨immediate_turn s _, hunnumbered, hother (by simp [hf])⟩)
    · rename_i hnone
      have hword := hother (by simp [hnone])
      split_ifs
      · exact .inr (.inr ⟨immediate_immediate s _, hunnumbered, hword⟩)
      · exact .inr (.inr ⟨immediate_turn s _, hunnumbered, hword⟩)

/-- A command leaves the program, or its lines at least, or nothing of it. -/
theorem command_program (s : Session) (c : Command) :
    (s.command c).session.program = s.program ∨
      (s.command c).session.program = s.program.park ∨
      (s.command c).session.program = .empty := by
  cases c with
  | run => exact .inl (beginRun_program s)
  | list =>
      rw [command]
      split_ifs with he
      · exact .inl (turn_program _ _ _)
      · exact .inr (.inl (turn_program _ _ _))
  | clear => exact .inr (.inr (turn_program _ _ _))
  | quit => exact .inr (.inr (turn_program _ _ _))
  | help => exact .inl (turn_program _ _ _)
  | unknown code => exact .inl (turn_program _ _ _)

end Session

end LineBasic
