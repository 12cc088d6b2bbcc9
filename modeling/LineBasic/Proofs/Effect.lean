import LineBasic.Proofs.History
import LineBasic.Proofs.ProgramFile
import LineBasic.Proofs.Refusal
import LineBasic.Proofs.Session.Variables

/-!
# What a line changes

Each kind of line has its own part of the session and leaves the others alone.  What a
request makes of the program is `Request.edit`.  Where nothing else happens than that
something is told, only an alarm takes notice (`Session.ToldOnly`).  A run moves the
cursor, however long it is (`Session.after_run_program`).

So a stored line stays until a line is typed that deletes it, whatever else happens
(`Machine.stored_through`).
-/

namespace LineBasic

/-! ### Editing the program -/

namespace Program

variable {p q : Program} {n m : LineNumber} {l : StoredLine}

theorem get?_remove_of_ne (h : m ≠ n) : (p.remove n).lines.get? m = p.lines.get? m := by
  cases hn : p.line? n with
  | none => rw [remove_of_none hn]
  | some l =>
      obtain ⟨hlines, -⟩ := remove_lines (p := p) (n := n) (by simp [hn])
      rw [hlines, Table.get?_erase_of_ne _ h]

theorem lines_of_store? (hq : p.store? n l = some q) : q.lines = p.lines.set n l := by
  rw [store?] at hq
  cases hn : p.line? n with
  | some l' =>
      rw [hn] at hq
      cases hq
      rfl
  | none =>
      rw [hn, insert?, Table.add?] at hq
      split_ifs at hq with hc
      · cases hq
      · cases hq
        rfl

end Program

namespace Request

variable {p : Program} {r : Request} {n m : LineNumber}

/-- The number of the line that is entered or removed. -/
def number? : Request → Option LineNumber
  | remove n => some n
  | store n _ _ => some n
  | _ => none

/-- What a request makes of a program. -/
def edit (p : Program) : Request → Program
  | remove n => p.remove n
  | store n source st => ((p.store? n ⟨source, some st⟩).getD p).rewind
  | command .list => if p.isEmpty then p else p.park
  | command .clear => .empty
  | command .quit => .empty
  | _ => p

/-- The line `n` is to go: by its bare number, or with all the others. -/
def Deletes (n : LineNumber) (r : Request) : Prop :=
  r = remove n ∨ r = command .clear ∨ r = command .quit

/-- The other lines stay as they are. -/
theorem get?_edit_of_ne (hr : r.number? = some n) (h : m ≠ n) (p : Program) :
    (r.edit p).lines.get? m = p.lines.get? m := by
  cases r with
  | remove k =>
      obtain rfl : k = n := Option.some.inj hr
      exact Program.get?_remove_of_ne h
  | store k source st =>
      obtain rfl : k = n := Option.some.inj hr
      rw [edit]
      cases hq : p.store? k ⟨source, some st⟩ with
      | none => rfl
      | some q =>
          have hlines : q.lines = p.lines.set k ⟨source, some st⟩ := Program.lines_of_store? hq
          rw [Option.getD_some, Program.rewind, hlines, Table.get?_set_of_ne _ h]
  | _ => cases hr

theorem consistent_edit (h : p.Consistent) (r : Request) : (r.edit p).Consistent := by
  cases r with
  | remove k => exact h.remove k
  | store k source st =>
      obtain ⟨q, hq, hcon, -⟩ := h.store?_spec k ⟨source, some st⟩
      rw [edit, hq]
      exact hcon.of_lines_eq rfl rfl
  | command c =>
      cases c with
      | list =>
          rw [edit]
          split_ifs
          · exact h
          · exact h.of_lines_eq rfl rfl
      | clear | quit => exact Program.consistent_empty
      | _ => exact h
  | _ => exact h

theorem line?_edit_of_ne (h : p.Consistent) (hr : r.number? = some n) (hm : m ≠ n) :
    (r.edit p).line? m = p.line? m := by
  rw [(consistent_edit h r).line?_eq, h.line?_eq, get?_edit_of_ne hr hm]

/-- A line is there until it is deleted. -/
theorem isSome_get?_edit (h : (p.lines.get? n).isSome) (hr : ¬ r.Deletes n) :
    ((r.edit p).lines.get? n).isSome := by
  cases r with
  | remove k =>
      have hk : n ≠ k := fun hk => hr (.inl (hk ▸ rfl))
      rwa [get?_edit_of_ne rfl hk]
  | store k source st =>
      by_cases hk : n = k
      · subst hk
        rw [edit]
        cases hq : p.store? n ⟨source, some st⟩ with
        | none => exact h
        | some q =>
            rw [Option.getD_some, Program.rewind, Program.lines_of_store? hq, Table.get?_set_self,
              Option.isSome_some]
      · rwa [get?_edit_of_ne rfl hk]
  | command c =>
      cases c with
      | list =>
          rw [edit]
          split_ifs
          · exact h
          · exact h
      | clear => exact absurd (.inr (.inl rfl)) hr
      | quit => exact absurd (.inr (.inr rfl)) hr
      | _ => exact h
  | _ => exact h

end Request

/-! ### Granting a request -/

namespace Session

variable {s : Session} {text : Bytes} {r : Request} {n : LineNumber}

theorem grant_program (s : Session) (r : Request) :
    (s.grant r).session.program = r.edit s.program := by
  cases r with
  | store k source st =>
      rw [grant, Request.edit]
      cases s.program.store? k ⟨source, some st⟩ with
      | none => exact turn_program _ _ _
      | some q => exact turn_program _ _ _
  | command c =>
      cases c with
      | run => exact beginRun_program s
      | list =>
          rw [grant, command, Request.edit]
          split_ifs
          · exact turn_program _ _ _
          · exact turn_program _ _ _
      | _ => exact turn_program _ _ _
  | _ => exact turn_program _ _ _

/-- A numbered line reaches the program and nothing else. -/
theorem grant_numbered (hr : r.number? = some n) :
    ∃ events, s.grant r = { s with program := r.edit s.program }.turn .idle events := by
  cases r with
  | remove k => exact ⟨[], rfl⟩
  | store k source st =>
      rw [grant, Request.edit]
      cases s.program.store? k ⟨source, some st⟩ with
      | none => exact ⟨_, rfl⟩
      | some q => exact ⟨_, rfl⟩
  | _ => cases hr

/-- Only `RUN` begins a run. -/
theorem grant_stage (hr : r ≠ .command .run) : (s.grant r).stage ≠ .running := by
  rcases answer_forms s (.ok r) with ⟨hrun, -⟩ | ⟨s', stage, events, hs, hturn⟩
  · exact absurd (Except.ok.inj hrun) hr
  · have hgrant : s.grant r = _ := hturn s.alarm s.executed s.interrupted s.running
    rw [hgrant]
    exact hs

theorem after_of_asks (h : Asks text r) (hr : r ≠ .command .run) (k : Nat) :
    (s.submit text).after k = s.grant r := by
  rw [submit_of_asks h]
  exact Function.iterate_fixed (Turn.onward_of_not_running (grant_stage hr)) k

/-- A line edits the program as it asks, or it is refused and does nothing to it. -/
theorem submit_program (s : Session) (text : Bytes) :
    (s.submit text).session.program = s.program ∨
      ∃ r, Asks text r ∧ (s.submit text).session.program = r.edit s.program := by
  cases hline : Request.ofLine text with
  | error f =>
      rw [submit_eq_answer, hline]
      exact .inl (turn_program _ _ _)
  | ok r =>
      have hasks := Request.asks_of_ofLine hline
      exact .inr ⟨r, hasks, by rw [submit_of_asks hasks, grant_program]⟩

/-- A run moves the cursor, and that is all it does to the program. -/
theorem after_run_program (h : Asks text (.command .run)) (k : Nat) :
    ∃ c, ((s.submit text).after k).session.program = { s.program with cursor := c } := by
  obtain ⟨hlines, hcount⟩ := (s.submit text).after_lines k
  have hprogram : (s.submit text).session.program = s.program := by
    rw [submit_of_asks h, grant_program]
    rfl
  refine ⟨((s.submit text).after k).session.program.cursor, ?_⟩
  rw [hprogram] at hlines hcount
  dsimp only
  rw [← hlines, ← hcount]

end Session

/-! ### Lines that stay -/

namespace Machine

variable {m : Machine} {n : LineNumber}

/-- Only a line that is typed edits the program. -/
theorem happen_edit (m : Machine) (e : Happening) :
    ((m.happen e).session.program.lines = m.session.program.lines ∧
        (m.happen e).session.program.count = m.session.program.count) ∨
      ∃ text r, e = .line text ∧ Asks text r ∧
        (m.happen e).session.program = r.edit m.session.program := by
  rcases m.happen_program e with hsame | ⟨text, he, hsubmit⟩
  · exact .inl hsame
  · rw [hsubmit]
    rcases m.session.submit_program text with hsame | ⟨r, hasks, hedit⟩
    · rw [hsame]
      exact .inl ⟨rfl, rfl⟩
    · exact .inr ⟨text, r, he, hasks, hedit⟩

theorem consistent_happen (h : m.session.program.Consistent) (e : Happening) :
    (m.happen e).session.program.Consistent := by
  rcases m.happen_edit e with ⟨hlines, hcount⟩ | ⟨text, r, -, -, hedit⟩
  · exact h.of_lines_eq hlines hcount
  · rw [hedit]
    exact Request.consistent_edit h r

theorem consistent_through (h : m.session.program.Consistent) (hs : List Happening) :
    (m.through hs).session.program.Consistent :=
  List.foldlRecOn (motive := fun m => m.session.program.Consistent) hs happen h
    fun _ hm e _ => consistent_happen hm e

theorem stored_happen (h : (m.session.program.lines.get? n).isSome) {e : Happening}
    (hdel : ∀ text r, e = .line text → Asks text r → ¬ r.Deletes n) :
    ((m.happen e).session.program.lines.get? n).isSome := by
  rcases m.happen_edit e with ⟨hlines, -⟩ | ⟨text, r, he, hasks, hedit⟩
  · rwa [hlines]
  · rw [hedit]
    exact Request.isSome_get?_edit h (hdel text r he hasks)

theorem stored_through (h : (m.session.program.lines.get? n).isSome) {hs : List Happening}
    (hdel : ∀ text r, .line text ∈ hs → Asks text r → ¬ r.Deletes n) :
    ((m.through hs).session.program.lines.get? n).isSome :=
  List.foldlRecOn (motive := fun m => (m.session.program.lines.get? n).isSome) hs happen h
    fun _ hm _ he => stored_happen hm fun text r heq => hdel text r (heq ▸ he)

/-- What has been lost from the program was deleted by a line. -/
theorem exists_deletes {hs : List Happening} (h : (m.session.program.lines.get? n).isSome)
    (hnone : (m.through hs).session.program.lines.get? n = none) :
    ∃ text r, .line text ∈ hs ∧ Asks text r ∧ r.Deletes n := by
  by_contra! hdel
  have hstored := stored_through h hdel
  simp [hnone] at hstored

end Machine

namespace Session

/-- A numbered line changes the program, at its own number; a statement changes the
variables, and the input if it asks for a value; `RUN` and `LIST` move the cursor and
`HELP` does nothing.  So a stored line is there until a line is typed that deletes it. -/
theorem line_changes_its_part :
    (∀ (s : Session) (text : Bytes) (k : Nat),
      let s' := ((s.submit text).after k).session
      (∀ r n, Asks text r → r.number? = some n →
        { s with program := s'.program }.ToldOnly s' ∧
          (∀ m ≠ n, s'.program.lines.get? m = s.program.lines.get? m) ∧
          (s.program.Consistent → ∀ m ≠ n, s'.program.line? m = s.program.line? m)) ∧
      (∀ st, Asks text (.execute st) →
        { s with env := s'.env, input := s'.input }.ToldOnly s' ∧
          ((∀ x, st ≠ .input x) → s'.input = s.input)) ∧
      (Asks text (.command .run) → ∃ c, s'.program = { s.program with cursor := c }) ∧
      (Asks text (.command .list) →
        ∃ c, { s with program := { s.program with cursor := c } }.ToldOnly s') ∧
      (Asks text (.command .help) → s.ToldOnly s')) ∧
    ∀ (m : Machine) (hs : List Happening) (n : LineNumber),
      let p := m.session.program
      let p' := (m.through hs).session.program
      ((p.lines.get? n).isSome → p'.lines.get? n = none →
        ∃ text r, .line text ∈ hs ∧ Asks text r ∧ r.Deletes n) ∧
      (p.Consistent → (p.line? n).isSome → p'.line? n = none →
        ∃ text r, .line text ∈ hs ∧ Asks text r ∧ r.Deletes n) := by
  refine ⟨fun s text k => ⟨?_, ?_, after_run_program (k := k), ?_, ?_⟩, ?_⟩
  · intro r n hasks hr
    have hne : r ≠ .command .run := by
      rintro rfl
      cases hr
    rw [after_of_asks hasks hne, grant_program]
    obtain ⟨events, hgrant⟩ := grant_numbered (s := s) hr
    rw [hgrant]
    exact ⟨toldOnly_turn _ _ _, fun m hm => Request.get?_edit_of_ne hr hm _,
      fun hcon m hm => Request.line?_edit_of_ne hcon hr hm⟩
  · intro st hasks
    rw [after_of_asks hasks (by simp)]
    have henv : (s.grant (.execute st)).session.env = (s.execution st).env := turn_env _ _ _
    have hinput : (s.grant (.execute st)).session.input =
        s.input.setAnswers (s.execution st).answers := tell_input _ _
    rw [henv, hinput]
    refine ⟨toldOnly_turn _ _ _, fun hst => ?_⟩
    have hanswers : (s.execution st).answers = s.input.answers :=
      congrArg Execution.answers (execution_withInput hst s.input)
    rw [hanswers, Input.setAnswers_answers]
  · intro hasks
    rw [after_of_asks hasks (by simp), grant, command]
    split_ifs
    · exact ⟨s.program.cursor, toldOnly_turn s _ _⟩
    · exact ⟨none, toldOnly_turn _ _ _⟩
  · intro hasks
    rw [after_of_asks hasks (by simp), grant, command]
    exact toldOnly_turn _ _ _
  · intro m hs n p p'
    refine ⟨Machine.exists_deletes, fun hcon hn hnone => ?_⟩
    rw [hcon.line?_eq] at hn
    rw [(Machine.consistent_through hcon hs).line?_eq] at hnone
    exact Machine.exists_deletes hn hnone

/-- Line 10 is removed.  The other line stays, and so do the variable, the count and the
answer that is still to be read. -/
theorem line_changes_its_part_removal :
    let line : StoredLine := ⟨Text.ofString "20 END", some .stop⟩
    let s : Session :=
      { env := ⟨⟨[("X", 3)]⟩⟩
        program := ⟨⟨[(10, ⟨Text.ofString "10 REM", some .remark⟩), (20, line)]⟩, 2, some 10⟩
        input := .shared [.line (Text.ofString "7")]
        executed := 4 }
    let text : Bytes := Text.ofString "10"
    let s' := ((s.submit text).after 3).session
    let m : Machine := { session := s }
    s' = { s with program := s'.program } ∧ s'.program.line? 20 = some line ∧
      (m.through [.line text]).session.program.line? 10 = none ∧
      ∃ text' r, Happening.line text' ∈ [.line text] ∧ Asks text' r ∧ r.Deletes 10 := by
  intro line s text s' m
  have htokens : Token.ofLine text = [⟨.number, "10"⟩] :=
    Token.ofLine_spaced (by decide) (by decide)
  have hasks : Asks text (.remove 10) := .remove htokens (by decide)
  have hcon : s.program.Consistent := ⟨by simp [s, Table.Ordered, Table.keys], rfl⟩
  obtain ⟨hparts, hstays⟩ := line_changes_its_part
  obtain ⟨htold, -, hframe⟩ := (hparts s text 3).1 _ 10 hasks rfl
  have hgone : (m.through [.line text]).session.program.line? 10 = none := by
    have hsubmit : (m.through [.line text]).session = (s.submit text).session := rfl
    rw [hsubmit, submit_of_asks hasks]
    decide
  exact ⟨htold.quiet rfl, hframe hcon 20 (by decide), hgone,
    (hstays m _ 10).2 hcon rfl hgone⟩

end Session

end LineBasic
