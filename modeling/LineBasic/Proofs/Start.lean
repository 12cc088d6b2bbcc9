import LineBasic.Proofs.Session.Run
import LineBasic.Proofs.Session.Submit
import LineBasic.Proofs.Token

/-!
# Where a run begins

A run begins at the line under the cursor: at the lowest line, or at none after a
listing.  What decides is the last of three things that were done with lines in
the program: it was listed, it was run, or a line was entered (`Mark`).  Removed
lines, refused lines and statements executed at once leave no mark.

A run may end in any way, and an interrupt may come before any of its passes
(`EndsIn`); at its end the cursor is on the first line again.  `Placed` is the
invariant: it says where the cursor is after the last mark.  Every line keeps it
(`submit_placed`), and so it holds after any lines (`Typed.placed`).
-/

namespace LineBasic

/-! ### Runs to their end -/

namespace Session

variable {s : Session} {n : LineNumber}

/-- A pass at a given line: the cursor goes on to the next line, then the
statement of the line is executed. -/
def passAt (s : Session) (n : LineNumber) : Turn :=
  let s : Session := { s with program := { s.program with cursor := s.program.next? n } }
  match s.program.stmt? n with
  | none => s.turn .running []
  | some .remark => s.turn .running []
  | some .stop => s.endRun []
  | some st => s.executeLine st

theorem pass_eq_passAt (hi : s.interrupted = false) (hc : s.program.cursor = some n) :
    s.pass = s.passAt n := by
  have hadvanced : s.advanced =
      { s with program := { s.program with cursor := s.program.next? n } } := by
    rw [advanced, Program.advance, hc]
    rfl
  rw [pass_of_cursor_some hi hc, hadvanced]
  rfl

/-- Nothing was executed on the way from a session to another. -/
structure Unexecuted (s s' : Session) : Prop where
  executed : s'.executed = s.executed
  env : s'.env = s.env
  input : s'.input = s.input

theorem endRun_unexecuted (s : Session) (events : List Event) :
    s.Unexecuted (s.endRun events).session := by
  constructor <;> simp [endRun]

/-- Without a line under the cursor a run is over at once. -/
theorem pass_of_parked (hc : s.program.cursor = none) :
    s.pass.stage = .idle ∧ s.Unexecuted s.pass.session := by
  cases hi : s.interrupted with
  | true =>
      rw [pass_of_interrupted hi]
      obtain ⟨he, henv, hin⟩ := endRun_unexecuted { s with interrupted := false }
        [.fault .interrupted]
      exact ⟨rfl, he, henv, hin⟩
  | false =>
      rw [pass_of_cursor_none hi hc]
      obtain ⟨he, henv, hin⟩ := endRun_unexecuted s.advanced []
      exact ⟨rfl, he, henv, hin⟩

end Session

namespace Turn

/-- The run of a turn ends in another turn.  An interrupt may come before any of
its passes. -/
inductive EndsIn : Turn → Turn → Prop
  | ended {t : Turn} : t.stage ≠ .running → EndsIn t t
  | pass {t t' : Turn} : t.stage = .running → EndsIn t.onward t' → EndsIn t t'
  | interrupt {t t' : Turn} : t.stage = .running →
      EndsIn { t with session := t.session.interrupt.2 } t' → EndsIn t t'

/-- The run of a turn begins at a line. -/
def BeginsAt (t : Turn) (n : LineNumber) : Prop :=
  t.stage = .running ∧ t.session.pass = t.session.passAt n

variable {t t' : Turn}

theorem EndsIn.eq_of_not_running (h : t.EndsIn t') (ht : t.stage ≠ .running) : t' = t := by
  cases h with
  | ended _ => rfl
  | pass hr _ => exact absurd hr ht
  | interrupt hr _ => exact absurd hr ht

/-- However a run ends, the cursor is on the first line then. -/
theorem EndsIn.program_eq (h : t.EndsIn t') (ht : t.stage = .running) :
    t'.session.program = t.session.program.rewind := by
  induction h with
  | ended hr => exact absurd ht hr
  | @pass t t' hr h ih =>
      rw [onward_of_running hr] at h ih
      by_cases hs : t.session.pass.stage = .running
      · -- a pass moves the cursor only, so the first line is the same after it
        obtain ⟨c, hp, -⟩ := Session.pass_program t.session
        rw [ih hs, hp]
        rfl
      · rw [h.eq_of_not_running hs]
        exact Session.pass_ended hs
  | interrupt hr _ ih => exact ih hr

theorem EndsIn.unexecuted_of_parked (h : t.EndsIn t') (ht : t.stage = .running)
    (hc : t.session.program.cursor = none) : t.session.Unexecuted t'.session := by
  induction h with
  | ended hr => exact absurd ht hr
  | @pass t t' hr h _ =>
      obtain ⟨hstage, hun⟩ := Session.pass_of_parked hc
      rw [onward_of_running hr] at h
      rw [h.eq_of_not_running (by simp [hstage])]
      exact hun
  | interrupt hr _ ih =>
      obtain ⟨he, henv, hin⟩ := ih hr hc
      exact ⟨he, henv, hin⟩

theorem exists_endsIn_of_parked (ht : t.stage = .running)
    (hc : t.session.program.cursor = none) : ∃ t', t.EndsIn t' := by
  refine ⟨t.onward, .pass ht (.ended ?_)⟩
  rw [onward_of_running ht]
  simp [(Session.pass_of_parked hc).1]

end Turn

/-! ### Marks -/

/-- What decides where the cursor is. -/
inductive Mark
  | listed
  | ran
  | entered
deriving DecidableEq, Repr

/-- The mark that a line leaves, if any.  Listing or running a program without
lines leaves none. -/
def Session.mark? (s : Session) (text : Bytes) : Option Mark :=
  match Token.ofLine text with
  | [⟨.word, "LIST"⟩] => if s.program.isEmpty then none else some .listed
  | [⟨.word, "RUN"⟩] => if s.program.isEmpty then none else some .ran
  | ⟨.number, numeral⟩ :: tail =>
    match LineNumber.ofNumeral numeral, Stmt.parse tail with
    | .ok _, .ok _ => some .entered
    | _, _ => none
  | _ => none

/-- Lines typed one after the other, each when the run of the one before has
ended, with the marks they left, the latest first. -/
inductive Session.Typed (start : Session) : List Bytes → List Mark → Session → Prop
  | nil : Typed start [] [] start
  | snoc {texts : List Bytes} {marks : List Mark} {s : Session} {text : Bytes} {t : Turn} :
      Typed start texts marks s → (s.submit text).EndsIn t →
        Typed start (texts ++ [text]) ((s.mark? text).toList ++ marks) t.session

namespace Program

variable {p : Program} {last : Option Mark}

/-- The cursor is where the last mark has put it. -/
structure Placed (p : Program) (last : Option Mark) : Prop where
  consistent : p.Consistent
  cursor_eq : p.cursor = if last = some .listed then none else p.first?

theorem placed_empty (last : Option Mark) : Program.empty.Placed last :=
  ⟨consistent_empty, by split_ifs <;> rfl⟩

theorem Consistent.placed_park (h : p.Consistent) : p.park.Placed (some .listed) :=
  ⟨h.of_lines_eq rfl rfl, by rw [if_pos rfl]; rfl⟩

theorem Consistent.placed_rewind (h : p.Consistent) (hl : last ≠ some .listed) :
    p.rewind.Placed last :=
  ⟨h.of_lines_eq rfl rfl, by rw [if_neg hl]; rfl⟩

/-- A cursor on the line that goes was on the first line, and is so again. -/
theorem Placed.remove (h : p.Placed last) (n : LineNumber) : (p.remove n).Placed last := by
  refine ⟨h.consistent.remove n, ?_⟩
  have hcursor := h.cursor_eq
  split_ifs at hcursor ⊢ with hl
  · rw [remove_cursor_of_ne (by simp [hcursor]), hcursor]
  · by_cases hn : p.first? = some n
    · exact remove_cursor_self (h.consistent.isSome_line?_of_first? hn) (hcursor.trans hn)
    · rw [remove_cursor_of_ne (hcursor ▸ hn), hcursor, h.consistent.remove_first?_of_ne hn]

theorem Placed.cursor_eq_none_iff (h : p.Placed last) :
    p.cursor = none ↔ (∀ j, p.line? j = none) ∨ last = some .listed := by
  rw [h.cursor_eq, ← h.consistent.first?_eq_none_iff]
  split_ifs with hl <;> simp [hl]

end Program

namespace Session

variable {s : Session} {text : Bytes} {t : Turn} {last : Option Mark}

theorem submit_run (s : Session) (ht : Token.ofLine text = [⟨.word, "RUN"⟩]) :
    s.submit text = s.beginRun := by
  rw [submit, ht]
  rfl

/-! ### One line -/

theorem enterLine_placed (h : s.program.Placed last) {numeral : String} {tail : List Token}
    {n : LineNumber} (ht : Token.ofLine text = ⟨.number, numeral⟩ :: tail)
    (hn : LineNumber.ofNumeral numeral = .ok n) :
    (s.enterLine n text tail).1.program.Placed ((s.mark? text).or last) := by
  rw [mark?, ht]
  dsimp only
  rw [hn]
  cases tail with
  | nil =>
      rw [enterLine_nil, tell_program]
      exact h.remove n
  | cons t ts =>
      cases hst : Stmt.parse (t :: ts) with
      | error f =>
          rw [enterLine_error (by simp) hst, tell_program]
          exact h
      | ok st =>
          obtain ⟨p, hcon, -, -, he⟩ := enterLine_ok h.consistent hst n text
          rw [he, tell_program]
          exact hcon.placed_rewind (by simp)

theorem beginRun_placed (h : s.program.Placed last) (he : s.beginRun.EndsIn t) :
    t.session.program.Placed ((if s.program.isEmpty then none else some Mark.ran).or last) := by
  split_ifs with hempty
  · have hturn : s.beginRun = s.turn .idle [] := by
      rw [beginRun, h.consistent.isEmpty_iff.1 hempty]
    rw [hturn] at he
    rw [he.eq_of_not_running (by simp [turn]), turn_program]
    exact h
  · have hfirst : s.program.first? ≠ none := fun hf => hempty (h.consistent.isEmpty_iff.2 hf)
    rw [beginRun_of_first?_ne hfirst] at he
    rw [he.program_eq rfl]
    exact h.consistent.placed_rewind (by simp)

theorem command_placed (h : s.program.Placed last) {w : String} {c : Command}
    (ht : Token.ofLine text = [⟨.word, w⟩]) (hw : Command.ofWord? w = some c)
    (he : (s.command c).EndsIn t) : t.session.program.Placed ((s.mark? text).or last) := by
  rw [mark?, ht]
  unfold Command.ofWord? at hw
  split at hw
  · obtain rfl := Option.some.inj hw
    exact beginRun_placed h he
  · obtain rfl := Option.some.inj hw
    rw [command] at he
    split_ifs at he ⊢
    · rw [he.eq_of_not_running (by simp [turn]), turn_program]
      exact h
    · rw [he.eq_of_not_running (by simp [turn]), turn_program]
      exact h.consistent.placed_park
  · obtain rfl := Option.some.inj hw
    rw [he.eq_of_not_running (by simp [command, turn]), command, turn_program]
    exact Program.placed_empty _
  · obtain rfl := Option.some.inj hw
    rw [he.eq_of_not_running (by simp [command, turn]), command, turn_program]
    exact Program.placed_empty _
  · obtain rfl := Option.some.inj hw
    rw [he.eq_of_not_running (by simp [command, turn]), command, turn_program]
    exact h
  · cases hw

theorem mark?_eq_none
    (hnumber : ∀ numeral tail n, Token.ofLine text = ⟨.number, numeral⟩ :: tail →
      LineNumber.ofNumeral numeral ≠ .ok n)
    (hword : ∀ w c, Token.ofLine text = [⟨.word, w⟩] → Command.ofWord? w ≠ some c) :
    s.mark? text = none := by
  rw [mark?]
  split
  · rename_i ht
    exact absurd rfl (hword "LIST" .list ht)
  · rename_i ht
    exact absurd rfl (hword "RUN" .run ht)
  · rename_i numeral tail ht
    split
    · rename_i n _ hn _
      exact absurd hn (hnumber numeral tail n ht)
    · rfl
  · rfl

/-- A line leaves the cursor where the last mark puts it. -/
theorem submit_placed (h : s.program.Placed last) (he : (s.submit text).EndsIn t) :
    t.session.program.Placed ((s.mark? text).or last) := by
  rcases submit_cases s text with
    ⟨numeral, tail, n, ht, hn, hs⟩ | ⟨w, c, ht, hw, hs⟩ | ⟨⟨hp, hstage⟩, hnumber, hword⟩
  · rw [hs] at he
    rw [he.eq_of_not_running (by simp)]
    exact enterLine_placed h ht hn
  · rw [hs] at he
    exact command_placed h ht hw he
  · rw [he.eq_of_not_running (by simp [hstage]), hp, mark?_eq_none hnumber hword]
    exact h

/-! ### All lines -/

theorem Typed.placed {start : Session} {texts : List Bytes} {marks : List Mark}
    (h : start.Typed texts marks s) (hstart : start.program.Placed none) :
    s.program.Placed marks.head? := by
  induction h with
  | nil => exact hstart
  | snoc _ he ih =>
      rw [List.head?_append, Option.head?_toList]
      exact submit_placed ih he

/-- With the cursor on the first line a run begins there. -/
theorem beginsAt_of_cursor {k : LineNumber} (hf : s.program.first? = some k)
    (hc : s.program.cursor = some k) (ht : Token.ofLine text = [⟨.word, "RUN"⟩]) :
    (s.submit text).BeginsAt k := by
  rw [submit_run s ht, beginRun_of_first?_ne (by simp [hf])]
  exact ⟨rfl, pass_eq_passAt rfl hc⟩

/-- After any lines typed into a new session, with runs that ended in any way, the
cursor is on none or the lowest line, and on none just when there are no lines or
the last mark is a listing.  So a run begins at the lowest line, except that the
first one after a listing executes nothing and leaves the cursor so that the next
one begins there. -/
theorem run_begins_lowest {input : Input} {alarm : Option Alarm} {texts : List Bytes}
    {marks : List Mark} (h : Typed { input, alarm } texts marks s) :
    (s.program.cursor = none ∨
        ∃ k, s.program.cursor = some k ∧ IsLeast {j | (s.program.line? j).isSome} k) ∧
      (s.program.cursor = none ↔
        (∀ j, s.program.line? j = none) ∨ marks.head? = some .listed) ∧
      ∀ text, Token.ofLine text = [⟨.word, "RUN"⟩] → (∃ j, (s.program.line? j).isSome) →
        ∃ k, IsLeast {j | (s.program.line? j).isSome} k ∧
          (marks.head? ≠ some .listed → (s.submit text).BeginsAt k) ∧
          (marks.head? = some .listed →
            (∃ t, (s.submit text).EndsIn t) ∧
            ∀ t, (s.submit text).EndsIn t →
              t.session.executed = 0 ∧ t.session.env = s.env ∧ t.session.input = s.input ∧
              t.session.program.lines = s.program.lines ∧
              ∀ text', Token.ofLine text' = [⟨.word, "RUN"⟩] →
                (t.session.submit text').BeginsAt k) := by
  have hp : s.program.Placed marks.head? := h.placed (Program.placed_empty none)
  have hcon := hp.consistent
  have hcursor := hp.cursor_eq
  refine ⟨?_, hp.cursor_eq_none_iff, ?_⟩
  · cases hc : s.program.cursor with
    | none => exact .inl rfl
    | some k =>
        split_ifs at hcursor with hl
        · simp [hc] at hcursor
        · exact .inr ⟨k, rfl, hcon.first?_eq_some_iff.1 (hcursor.symm.trans hc)⟩
  · rintro text ht ⟨j, hj⟩
    have hfirst : s.program.first? ≠ none := by
      intro hf
      simp [hcon.first?_eq_none_iff.1 hf j] at hj
    obtain ⟨k, hk⟩ := Option.ne_none_iff_exists'.1 hfirst
    refine ⟨k, hcon.first?_eq_some_iff.1 hk, ?_, ?_⟩
    · intro hl
      rw [if_neg hl] at hcursor
      exact beginsAt_of_cursor hk (hcursor.trans hk) ht
    · intro hl
      rw [if_pos hl] at hcursor
      rw [submit_run s ht, beginRun_of_first?_ne hfirst]
      refine ⟨Turn.exists_endsIn_of_parked rfl hcursor, ?_⟩
      intro t he
      obtain ⟨hexec, henv, hinput⟩ := he.unexecuted_of_parked rfl hcursor
      have hprogram : t.session.program = s.program.rewind := he.program_eq rfl
      refine ⟨hexec, henv, hinput, by rw [hprogram]; rfl, ?_⟩
      intro text' ht'
      exact beginsAt_of_cursor (hprogram ▸ hk) (hprogram ▸ hk) ht'

/-- A line, a listing, and then two runs of which only the second finds the
line. -/
theorem run_begins_lowest_after_listing :
    let line : StoredLine := ⟨Text.squeeze (Text.ofString "10 END"), some .stop⟩
    let s : Session := { program := ⟨⟨[(10, line)]⟩, 1, none⟩ }
    Typed {} [Text.ofString "10 END", Text.ofString "LIST"] [.listed, .entered] s ∧
      s.program.cursor = none ∧
      ∃ k t, IsLeast {j | (s.program.line? j).isSome} k ∧
        (s.submit (Text.ofString "RUN")).EndsIn t ∧ t.session.executed = 0 ∧
        (t.session.submit (Text.ofString "RUN")).BeginsAt k := by
  intro line s
  have hentry : Token.ofLine (Text.ofString "10 END") = [⟨.number, "10"⟩, ⟨.word, "END"⟩] :=
    Token.ofLine_spaced (by decide) (by decide)
  have hlist : Token.ofLine (Text.ofString "LIST") = [⟨.word, "LIST"⟩] :=
    Token.ofLine_spaced (by decide) (by decide)
  have hrun : Token.ofLine (Text.ofString "RUN") = [⟨.word, "RUN"⟩] :=
    Token.ofLine_spaced (by decide) (by decide)
  have hfirst : Session.submit {} (Text.ofString "10 END") =
      ⟨{ program := ⟨⟨[(10, line)]⟩, 1, some 10⟩ }, [.entered .stop], .idle⟩ := by
    rw [submit_of_numeral (n := 10) hentry (by decide)]
    rfl
  have hsecond : Session.submit { program := ⟨⟨[(10, line)]⟩, 1, some 10⟩ }
      (Text.ofString "LIST") = ⟨s, [.listing line.source], .idle⟩ := by
    rw [submit, hlist]
    rfl
  have hentered : Typed {} [Text.ofString "10 END"] [.entered]
      { program := ⟨⟨[(10, line)]⟩, 1, some 10⟩ } := by
    have h := Typed.snoc .nil (Turn.EndsIn.ended (t := Session.submit {} (Text.ofString "10 END"))
      (by simp [hfirst]))
    rw [mark?, hentry, hfirst] at h
    exact h
  have h : Typed {} [Text.ofString "10 END", Text.ofString "LIST"] [.listed, .entered] s := by
    have h := hentered.snoc (Turn.EndsIn.ended (t := Session.submit _ (Text.ofString "LIST"))
      (by simp [hsecond]))
    rw [mark?, hlist, hsecond] at h
    exact h
  obtain ⟨-, hnone, hruns⟩ := run_begins_lowest h
  obtain ⟨k, hk, -, hparked⟩ := hruns (Text.ofString "RUN") hrun ⟨10, rfl⟩
  obtain ⟨⟨t, he⟩, hall⟩ := hparked rfl
  obtain ⟨hexec, -, -, -, hnext⟩ := hall t he
  exact ⟨h, hnone.2 (.inr rfl), k, t, hk, he, hexec, hnext _ hrun⟩

end Session

end LineBasic
