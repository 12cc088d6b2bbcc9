import LineBasic.Machine
import LineBasic.Proofs.Session.Run
import LineBasic.Proofs.Session.Submit
import LineBasic.Proofs.Text.Lines
import LineBasic.Proofs.Token

/-!
# Listing a program and loading it again

Whatever was typed, each line of the program is stored under the number that its
own source begins with, and with the statement that the rest of the source is
parsed to (`Legible`).  So a listing, typed into a new session, gives the same
program.

The listing is loaded line by line: `Loading m done todo` says that the machine
holds the lines `done` and will read the sources of the lines `todo`.
-/

namespace LineBasic

/-! ### Legible lines -/

/-- The source is one that was squeezed, and says which line it is and what is
to be done there. -/
structure StoredLine.ReadsAs (l : StoredLine) (n : LineNumber) : Prop where
  squeezed : Text.squeeze l.source = l.source
  scanned : ∃ numeral tail st, Token.ofLine l.source = ⟨.number, numeral⟩ :: tail ∧
    LineNumber.ofNumeral numeral = .ok n ∧ Stmt.parse tail = .ok st ∧ l.stmt = some st

theorem StoredLine.readsAs_squeeze {text : Bytes} {numeral : String} {tail : List Token}
    {n : LineNumber} {st : Stmt} (ht : Token.ofLine text = ⟨.number, numeral⟩ :: tail)
    (hn : LineNumber.ofNumeral numeral = .ok n) (hst : Stmt.parse tail = .ok st) :
    (⟨Text.squeeze text, some st⟩ : StoredLine).ReadsAs n where
  squeezed := Text.squeeze_squeeze text
  scanned := ⟨numeral, tail, st, by rw [Token.ofLine_squeeze, ht], hn, hst, rfl⟩

namespace Program

variable {p q : Program} {n : LineNumber}

/-- The program is consistent and each of its lines reads as what is stored. -/
structure Legible (p : Program) : Prop where
  consistent : p.Consistent
  readsAs : ∀ n l, p.line? n = some l → l.ReadsAs n

theorem legible_empty : Program.empty.Legible :=
  ⟨consistent_empty, by simp [line?, isEmpty, Program.empty]⟩

theorem Legible.of_lines_eq (h : p.Legible) (hl : q.lines = p.lines) (hc : q.count = p.count) :
    q.Legible := by
  have hq := h.consistent.of_lines_eq hl hc
  refine ⟨hq, ?_⟩
  rw [hq.line?_eq, hl, ← h.consistent.line?_eq]
  exact h.readsAs

theorem Legible.remove (h : p.Legible) (n : LineNumber) : (p.remove n).Legible := by
  refine ⟨h.consistent.remove n, ?_⟩
  intro k l hk
  rw [h.consistent.remove_line? n] at hk
  by_cases hkn : k = n
  · simp [hkn] at hk
  · rw [Function.update_of_ne hkn] at hk
    exact h.readsAs k l hk

theorem Legible.of_update (h : p.Legible) (hcon : q.Consistent) {l : StoredLine}
    (hl : l.ReadsAs n) (hline : q.line? = Function.update p.line? n (some l)) : q.Legible := by
  refine ⟨hcon, ?_⟩
  intro k j hk
  rw [hline] at hk
  by_cases hkn : k = n
  · subst hkn
    rw [Function.update_self, Option.some.injEq] at hk
    exact hk ▸ hl
  · rw [Function.update_of_ne hkn] at hk
    exact h.readsAs k j hk

end Program

namespace Session

variable {s : Session}

theorem enterLine_legible (h : s.program.Legible) {text : Bytes} {numeral : String}
    {tail : List Token} {n : LineNumber} (ht : Token.ofLine text = ⟨.number, numeral⟩ :: tail)
    (hn : LineNumber.ofNumeral numeral = .ok n) :
    (s.enterLine n text tail).1.program.Legible := by
  cases hst : Stmt.parse tail with
  | error f =>
      cases tail with
      | nil =>
          rw [enterLine_nil, tell_program]
          exact h.remove n
      | cons t ts =>
          rw [enterLine_error (by simp) hst, tell_program]
          exact h
  | ok st =>
      obtain ⟨p, hcon, -, hline, he⟩ := enterLine_ok h.consistent hst n text
      have hlegible := h.of_update hcon (StoredLine.readsAs_squeeze ht hn hst) hline
      rw [he, tell_program]
      exact hlegible.of_lines_eq rfl rfl

theorem command_legible (h : s.program.Legible) (c : Command) :
    (s.command c).session.program.Legible := by
  rcases command_program s c with hp | hp | hp
  · exact hp ▸ h
  · exact hp ▸ h.of_lines_eq rfl rfl
  · exact hp ▸ Program.legible_empty

theorem submit_legible (h : s.program.Legible) (text : Bytes) :
    (s.submit text).session.program.Legible := by
  rcases submit_cases s text with ⟨numeral, tail, n, ht, hn, hs⟩ | ⟨-, c, -, -, hs⟩ | ⟨⟨hp, -⟩, -⟩
  · rw [hs]
    exact enterLine_legible h ht hn
  · rw [hs]
    exact command_legible h c
  · exact hp ▸ h

/-- Every line is legible, whatever lines were taken. -/
theorem Takes.legible {texts : List Bytes} {s' : Session} (h : Takes s texts s')
    (hs : s.program.Legible) : s'.program.Legible := by
  induction h with
  | nil s => exact hs
  | @cons s s' text texts n _ _ ih =>
      obtain ⟨hl, hc⟩ := (s.submit text).after_lines n
      exact ih ((submit_legible hs text).of_lines_eq hl hc)

end Session

/-! ### The listing as typed lines -/

namespace Text

/-- Lines that are squeezed are typed as they are shown. -/
theorem typedLines_of_squeezed {ls : List Bytes} (h : ∀ l ∈ ls, squeeze l = l) :
    typedLines (ls.flatMap (· ++ [newline])) = ls := by
  have hclean : ∀ l ∈ ls, newline ∉ l ∧ l.getLast? ≠ some carriageReturn := by
    intro l hl
    rw [← h l hl]
    exact ⟨newline_not_mem_squeeze l,
      fun hlast => carriageReturn_not_mem_squeeze l (List.mem_of_getLast? hlast)⟩
  have hlines := typedLines_flatMap_newline_append hclean []
  rwa [List.append_nil, typedLines_nil, List.append_nil] at hlines

end Text

theorem Session.command_list_events {s : Session} (h : s.program.size ≠ 0) :
    (s.command .list).events = Session.listing s.program := by
  have he : ¬s.program.isEmpty = true := by
    simpa [Program.isEmpty, Program.size] using h
  rw [Session.command, if_neg he]
  rfl

theorem Event.renderAll_listing (d : Display) (p : Program) :
    Event.renderAll d (Session.listing p) =
      (p.lines.entries.map (·.2.source)).flatMap (· ++ [Text.newline]) := by
  simp [Event.renderAll, Session.listing, Program.toList, Event.render, Event.renderWith,
    List.flatMap_map]

theorem Program.Legible.readsAs_of_mem {p : Program} (h : p.Legible) {e : LineNumber × StoredLine}
    (he : e ∈ p.lines.entries) : e.2.ReadsAs e.1 := by
  apply h.readsAs
  rw [h.consistent.line?_eq]
  exact h.consistent.ordered.get?_of_mem he

/-- Typed again, a listing gives the sources of the lines. -/
theorem Program.Legible.ofBytes_listing {p : Program} (h : p.Legible) (d : Display) :
    Source.ofBytes (Event.renderAll d (Session.listing p)) =
      p.lines.entries.map fun e => .line e.2.source := by
  have hsqueezed : ∀ l ∈ p.lines.entries.map (·.2.source), Text.squeeze l = l := by
    intro l hl
    obtain ⟨e, he, rfl⟩ := List.mem_map.1 hl
    exact (h.readsAs_of_mem he).squeezed
  rw [Source.ofBytes, Event.renderAll_listing, Text.typedLines_of_squeezed hsqueezed, List.map_map]
  rfl

/-! ### Loading -/

/-- A line that reads as what is stored is entered as it is. -/
theorem Session.submit_readsAs {s : Session} {l : StoredLine} {n : LineNumber}
    (h : s.program.Consistent) (hl : l.ReadsAs n) :
    ∃ st p, p.Consistent ∧ p.lines = s.program.lines.set n l ∧
      s.submit l.source = ⟨({ s with program := p }.tell [.entered st]).1, [.entered st], .idle⟩ := by
  obtain ⟨numeral, tail, st, ht, hn, hst, hstmt⟩ := hl.scanned
  have hline : (⟨Text.squeeze l.source, some st⟩ : StoredLine) = l := by
    rw [hl.squeezed, ← hstmt]
  obtain ⟨p, hcon, hlines, -, he⟩ := enterLine_ok h hst n l.source
  rw [hline] at hlines
  refine ⟨st, p.rewind, hcon.of_lines_eq rfl rfl, hlines, ?_⟩
  rw [submit_of_numeral ht hn, he]
  rfl

theorem Input.commands_setCommands (i : Input) (src : Source) :
    (i.setCommands src).commands = src := by
  cases i <;> rfl

/-- The events of lines that are entered, and of the prompts before them. -/
def Event.isEntry : Event → Bool
  | commandPrompt | entered _ => true
  | _ => false

theorem Event.renderAll_of_isEntry {d : Display} {events : List Event}
    (h : ∀ e ∈ events, e.isEntry = true) (hd : d.dump = false) (hi : d.interactive = false) :
    Event.renderAll d events = [] := by
  rw [Event.renderAll, List.flatMap_eq_nil_iff]
  intro e he
  have hentry := h e he
  cases e with
  | commandPrompt => simp [Event.render, Event.renderWith, hi]
  | entered st => simp [Event.render, Event.renderWith, hd]
  | _ => simp [Event.isEntry] at hentry

theorem Event.crash?_of_isEntry {e : Event} (h : e.isEntry = true) : e.crash? = none := by
  cases e with
  | duplicate n => simp [Event.isEntry] at h
  | _ => rfl

namespace Machine

variable {m : Machine} {done todo : List (LineNumber × StoredLine)} {e : LineNumber × StoredLine}

/-- The machine holds the lines `done`, and the lines still to be typed are the
sources of `todo`. -/
structure Loading (m : Machine) (done todo : List (LineNumber × StoredLine)) : Prop where
  stage : m.stage = .idle
  file : m.file = {}
  consistent : m.session.program.Consistent
  entries : m.session.program.lines.entries = done
  commands : m.session.input.commands = todo.map fun e => .line e.2.source

theorem Loading.step_eq (h : Loading m done todo) : m.step = m.readCommand := by
  rw [step, h.stage, h.file]
  rfl

theorem readCommand_line {text : Bytes} {rest : Source}
    (h : m.session.input.commands = .line text :: rest) :
    ∃ s : Session, s.program = m.session.program ∧ s.input.commands = rest ∧
      m.readCommand =
        ({ m with session := (s.submit text).session, stage := (s.submit text).stage },
          .commandPrompt :: (s.submit text).events) := by
  refine ⟨{ (m.session.tell [.commandPrompt]).1 with input := m.session.input.setCommands rest },
    Session.tell_program _ _, Input.commands_setCommands _ _, ?_⟩
  rw [readCommand]
  simp only [Session.tell_input, h, Source.next]
  rfl

theorem readCommand_end (h : m.session.input.commands = []) :
    m.readCommand.1.stage = .ended .endOfInput ∧
      m.readCommand.1.session.program = m.session.program ∧
      m.readCommand.2 = [.commandPrompt] := by
  simp [readCommand, h, Source.next]

/-- A step types one line. -/
theorem Loading.step (h : Loading m done (e :: todo)) (hlt : ∀ j ∈ done.map Prod.fst, j < e.1)
    (he : e.2.ReadsAs e.1) :
    Loading m.step.1 (done ++ [e]) todo ∧ ∀ x ∈ m.step.2, x.isEntry = true := by
  obtain ⟨s, hprogram, hcommands, hread⟩ := readCommand_line h.commands
  obtain ⟨st, p, hcon, hlines, hsubmit⟩ :=
    Session.submit_readsAs (s := s) (hprogram ▸ h.consistent) he
  rw [h.step_eq, hread, hsubmit]
  have hentries : p.lines.entries = done ++ [e] := by
    rw [hlines, hprogram, Table.entries_set_of_lt, h.entries]
    rwa [Table.keys, h.entries]
  refine ⟨⟨rfl, h.file, ?_, ?_, ?_⟩, by simp [Event.isEntry]⟩
  · simpa using hcon
  · simpa using hentries
  · simpa using hcommands

/-- All lines are typed, and then the input ends. -/
theorem Loading.run (h : Loading m done todo)
    (hordered : (⟨done ++ todo⟩ : Table LineNumber StoredLine).Ordered)
    (hread : ∀ e ∈ todo, e.2.ReadsAs e.1) :
    (m.steps (todo.length + 1)).1.stage = .ended .endOfInput ∧
      (m.steps (todo.length + 1)).1.session.program.Consistent ∧
      (m.steps (todo.length + 1)).1.session.program.lines.entries = done ++ todo ∧
      ∀ x ∈ (m.steps (todo.length + 1)).2, x.isEntry = true := by
  induction todo generalizing m done with
  | nil =>
      obtain ⟨hstage, hprogram, hevents⟩ := readCommand_end h.commands
      rw [List.length_nil, steps_succ, steps_zero, h.step_eq, hevents]
      dsimp only
      rw [hprogram, List.append_nil]
      exact ⟨hstage, h.consistent, h.entries, by simp [Event.isEntry]⟩
  | cons e todo ih =>
      obtain ⟨he, hrest⟩ := List.forall_mem_cons.1 hread
      have hlt : ∀ j ∈ done.map Prod.fst, j < e.1 := by
        intro j hj
        rw [Table.Ordered, Table.keys, List.map_append, List.pairwise_append] at hordered
        exact hordered.2.2 j hj e.1 List.mem_cons_self
      obtain ⟨hstep, hentry⟩ := h.step hlt he
      obtain ⟨hstage, hcon, hentries, hevents⟩ :=
        ih hstep (by rwa [List.append_assoc, List.singleton_append]) hrest
      rw [List.length_cons, steps_succ]
      refine ⟨hstage, hcon, by rw [hentries, List.append_assoc, List.singleton_append], ?_⟩
      intro x hx
      rcases List.mem_append.1 hx with hx | hx
      · exact hentry x hx
      · exact hevents x hx

end Machine

/-- A machine whose input begins with the listing of a legible program is about
to load it. -/
theorem Program.Legible.loading {p : Program} (h : p.Legible) (d : Display) (input : Input)
    (alarm : Option Alarm) :
    Machine.Loading
      { session :=
          { input := input.setCommands (.ofBytes (Event.renderAll d (Session.listing p))), alarm } }
      [] p.lines.entries where
  stage := rfl
  file := rfl
  consistent := Program.consistent_empty
  entries := rfl
  commands := by rw [Input.commands_setCommands, h.ofBytes_listing]

namespace Session

/-- After any lines whose runs end, the listing of a program that is not empty,
typed into a new session, is taken without a word, gives the same lines, and is
their listing again; and the source of each line says what is stored. -/
theorem listing_reloads {input : Input} {alarm : Option Alarm} {texts : List Bytes} {s : Session}
    (h : Takes { input, alarm } texts s) (hne : s.program.size ≠ 0) (d : Display)
    (input' : Input) (alarm' : Option Alarm) :
    let shown := Event.renderAll d (s.command .list).events
    let m : Machine :=
      { session := { input := input'.setCommands (.ofBytes shown), alarm := alarm' } }
    let x := m.steps (s.program.size + 1)
    x.1.stage = .ended .endOfInput ∧
      (∀ d' : Display, d'.dump = false → d'.interactive = false →
        Event.renderAll d' x.2 = []) ∧
      (∀ e ∈ x.2, e.crash? = none) ∧
      x.1.session.program.lines = s.program.lines ∧
      x.1.session.program.size = s.program.size ∧
      (∀ d', Event.renderAll d' (x.1.session.command .list).events = shown) ∧
      ∀ n l, s.program.line? n = some l → l.ReadsAs n := by
  intro shown m x
  have hlegible := h.legible Program.legible_empty
  have hshown : shown = Event.renderAll d (listing s.program) := by
    rw [← command_list_events hne]
  have hsize : s.program.size = s.program.lines.entries.length := hlegible.consistent.counted
  have hm : m.Loading [] s.program.lines.entries := by
    simpa only [m, hshown] using hlegible.loading d input' alarm'
  have hx : x = m.steps (s.program.lines.entries.length + 1) := by
    rw [← hsize]
  obtain ⟨hstage, hcon, hentries, hevents⟩ :=
    hm.run hlegible.consistent.ordered fun e he => hlegible.readsAs_of_mem he
  rw [← hx] at hstage hcon hentries hevents
  have hlines : x.1.session.program.lines = s.program.lines := congrArg Table.mk hentries
  have hcount : x.1.session.program.size = s.program.size := by
    have hcounted := hcon.counted
    rw [hlines] at hcounted
    exact hcounted.trans hlegible.consistent.counted.symm
  refine ⟨hstage, ?_, ?_, hlines, hcount, ?_, hlegible.readsAs⟩
  · intro d' hdump hinter
    exact Event.renderAll_of_isEntry hevents hdump hinter
  · intro e he
    exact Event.crash?_of_isEntry (hevents e he)
  · intro d'
    rw [command_list_events (hcount ▸ hne), hshown, Event.renderAll_listing,
      Event.renderAll_listing, hlines]

set_option maxRecDepth 8000 in
/-- A line with a byte that forms no UTF-8, a line in front of it, and a run. -/
theorem listing_reloads_after_run :
    let texts : List Bytes :=
      [[0x20, 0x30, 0x32, 0x30, 0x09, 0x52, 0x45, 0x4D, 0x20, 0xFF], Text.ofString "10 END",
        Text.ofString "RUN"]
    let remark : StoredLine := ⟨Text.ofString "020 REM " ++ [0xFF], some .remark⟩
    let s : Session :=
      { program := ⟨⟨[(10, ⟨Text.ofString "10 END", some .stop⟩), (20, remark)]⟩, 2, some 10⟩ }
    let shown : Bytes := Text.ofString "10 END\n020 REM " ++ [0xFF, Text.newline]
    let x := Machine.steps 3 { session := { input := .shared (.ofBytes shown) } }
    Takes {} texts s ∧ s.program.size ≠ 0 ∧
      Event.renderAll {} (s.command .list).events = shown ∧
      x.1.stage = .ended .endOfInput ∧ Event.renderAll {} x.2 = [] ∧
      x.1.session.program.lines = s.program.lines := by
  intro texts remark s shown x
  have hfirst : Session.submit {} [0x20, 0x30, 0x32, 0x30, 0x09, 0x52, 0x45, 0x4D, 0x20, 0xFF] =
      ⟨{ program := ⟨⟨[(20, remark)]⟩, 1, some 20⟩ }, [.entered .remark], .idle⟩ := by
    decide +kernel
  have hsecond : Session.submit { program := ⟨⟨[(20, remark)]⟩, 1, some 20⟩ }
      (Text.ofString "10 END") = ⟨s, [.entered .stop], .idle⟩ := by
    decide +kernel
  have hrun : (s.submit (Text.ofString "RUN")).after 1 = ⟨s, [.statistics 0], .idle⟩ := by
    have htokens : Token.ofLine (Text.ofString "RUN") = [⟨.word, "RUN"⟩] :=
      Token.ofLine_spaced (by decide) (by decide)
    rw [submit, htokens]
    rfl
  have hshown : Event.renderAll {} (s.command .list).events = shown := by decide
  have htakes : Takes {} texts s := by
    refine .cons 0 ?_ (.cons 0 ?_ (.cons 1 ?_ ?_))
    all_goals simp only [Turn.after_zero, hfirst, hsecond, hrun]
    · decide
    · decide
    · decide
    · exact .nil s
  have hreload := listing_reloads htakes (by decide) {} (.shared []) none
  simp only [hshown] at hreload
  exact ⟨htakes, by decide, hshown, hreload.1, hreload.2.1 {} rfl rfl, hreload.2.2.2.1⟩

end Session

end LineBasic
