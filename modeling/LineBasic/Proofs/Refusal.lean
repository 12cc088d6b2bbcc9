import LineBasic.Proofs.Session.Request

/-!
# Refused lines

A line that asks for nothing it could be given is refused: one fault is told, and
the session is as it was.  The fault is about a line number if the line begins
with a number that is none, or if the target of its statement is none; otherwise
it is a syntax error (`Misnumbered`).
-/

namespace LineBasic

/-! ### Why a line is refused -/

/-- What is wrong with the tokens is a line number. -/
inductive Misnumbered : List Token → Prop
  | leading {numeral : String} (tail : List Token) :
      ¬ LineNumber.InRange (Decimal.value numeral.toList) →
        Misnumbered (⟨.number, numeral⟩ :: tail)
  | target (numeral : String) {tail : List Token} :
      Stmt.parse tail = .error .lineNumber → Misnumbered (⟨.number, numeral⟩ :: tail)

theorem Misnumbered.kind_eq {t : Token} {ts : List Token} (h : Misnumbered (t :: ts)) :
    t.kind = .number := by
  cases h with
  | leading _ _ => rfl
  | target _ _ => rfl

theorem Stmt.fault_of_parse {ts : List Token} {f : Fault} (hts : ∀ t ∈ ts, t.WellFormed)
    (h : Stmt.parse ts = .error f) : f = .lineNumber ∨ f = .syntaxError := by
  have hparses := parse_parses hts
  rw [h] at hparses
  cases hparses with
  | lineNumber _ _ => exact .inl rfl
  | syntaxError => exact .inr rfl

/-- A statement that can be typed without a number has no target. -/
theorem Stmt.fault_of_parse_immediate {w : String} {ts : List Token} {f : Fault}
    (hts : ∀ t ∈ (⟨.word, w⟩ :: ts : List Token), t.WellFormed) (hw : w ∈ Session.immediateWords)
    (h : Stmt.parse (⟨.word, w⟩ :: ts) = .error f) : f = .syntaxError := by
  have hparses := parse_parses hts
  rw [h] at hparses
  cases hparses with
  | lineNumber hform _ => cases hform <;> simp [Session.immediateWords] at hw
  | syntaxError => rfl

namespace Request

variable {text : Bytes} {f : Fault} {numeral : String} {tail ts : List Token} {t : Token}

theorem eq_error_of_map {α : Type} {x : Except Fault α} {g : α → Request}
    (h : x.map g = .error f) : x = .error f := by
  cases x with
  | error f => cases h; rfl
  | ok a => cases h

theorem fault_of_number (ht : Token.ofLine text = ⟨.number, numeral⟩ :: tail)
    (h : ofLine text = .error f) :
    (f = .lineNumber ∧ Misnumbered (⟨.number, numeral⟩ :: tail)) ∨
      (f = .syntaxError ∧ ¬ Misnumbered (⟨.number, numeral⟩ :: tail)) := by
  rw [ofLine_of_number ht] at h
  split_ifs at h with hrange hnil
  · have hparse := eq_error_of_map h
    have htail : ∀ t ∈ tail, t.WellFormed := fun t hmem =>
      Token.wellFormed_of_mem_ofLine (by rw [ht]; exact List.mem_cons_of_mem _ hmem)
    rcases Stmt.fault_of_parse htail hparse with rfl | rfl
    · exact .inl ⟨rfl, .target numeral hparse⟩
    · refine .inr ⟨rfl, ?_⟩
      intro hmis
      cases hmis with
      | leading _ hout => exact hout hrange
      | target _ htarget => simp [hparse] at htarget
  · cases h
    exact .inl ⟨rfl, .leading tail hrange⟩

theorem fault_of_unnumbered (hts : ∀ t' ∈ t :: ts, t'.WellFormed)
    (h : ofUnnumbered t ts = .error f) : f = .syntaxError := by
  rw [ofUnnumbered] at h
  cases hread : (Command.read (t :: ts)).1 with
  | some c =>
      rw [hread] at h
      obtain rfl := eq_error_of_map h
      exact Command.fault_of_read hread
  | none =>
      rw [hread] at h
      dsimp only at h
      split_ifs at h with hw
      · obtain ⟨kind, w⟩ := t
        obtain ⟨rfl, hw⟩ := hw
        exact Stmt.fault_of_parse_immediate hts hw (eq_error_of_map h)
      · cases h
        rfl

/-- The fault of a refused line is about a line number just when one is wrong. -/
theorem fault_of_ofLine (h : ofLine text = .error f) :
    (f = .lineNumber ∧ Misnumbered (Token.ofLine text)) ∨
      (f = .syntaxError ∧ ¬ Misnumbered (Token.ofLine text)) := by
  cases ht : Token.ofLine text with
  | nil =>
      rw [ofLine_of_nil ht] at h
      cases h
  | cons t ts =>
      by_cases hk : t.kind = .number
      · obtain ⟨kind, numeral⟩ := t
        obtain rfl := hk
        exact fault_of_number ht h
      · rw [ofLine_of_ne_number ht hk] at h
        have hts : ∀ t' ∈ t :: ts, t'.WellFormed := fun t' hmem =>
          Token.wellFormed_of_mem_ofLine (ht ▸ hmem)
        exact .inr ⟨fault_of_unnumbered hts h, fun hmis => hk hmis.kind_eq⟩

end Request

/-! ### What a refused line does -/

namespace Session

/-- While nothing runs, telling reaches the alarm only. -/
theorem tell_of_not_running {s : Session} (h : s.running = false) (events : List Event) :
    ∃ alarm, (s.tell events).1 = { s with alarm } := by
  unfold tell
  induction events generalizing s with
  | nil => exact ⟨s.alarm, rfl⟩
  | cons e es ih =>
      have hear_idle : ∃ alarm, s.hear e = { s with alarm } := by
        rw [hear]
        cases s.alarm with
        | none => exact ⟨s.alarm, rfl⟩
        | some a =>
            refine ⟨(a.hear e).2, ?_⟩
            dsimp only
            split_ifs
            · simp [interrupt, h]
            · rfl
      obtain ⟨a, he⟩ := hear_idle
      obtain ⟨a', hes⟩ := ih (s := s.hear e) (by rw [he]; exact h)
      refine ⟨a', ?_⟩
      rw [List.foldl_cons, hes, he]

/-- Something was told and nothing else has happened.  Only an alarm may have heard
it, and it interrupts nothing unless something runs. -/
structure ToldOnly (s s' : Session) : Prop where
  quiet : s.alarm = none → s' = s
  idle : s.running = false → ∃ alarm, s' = { s with alarm }
  always : ∃ alarm interrupted, s' = { s with alarm, interrupted }

theorem toldOnly_turn (s : Session) (stage : Stage) (events : List Event) :
    s.ToldOnly (s.turn stage events).session where
  quiet h := congrArg Prod.fst (tell_of_alarm_none h _)
  idle h := tell_of_not_running h _
  always := tell_eq s _

/-- One fault is told, and the session is as it was. -/
structure Refuses (s : Session) (f : Fault) (t : Turn) : Prop extends s.ToldOnly t.session where
  stage : t.stage = .idle
  events : t.events = [.fault f]
  written : ∀ d : Display, Event.renderAll d t.events = Text.ofString (d.faultLine f)

theorem refuses_turn (s : Session) (f : Fault) : s.Refuses f (s.turn .idle [.fault f]) where
  toToldOnly := s.toldOnly_turn _ _
  stage := rfl
  events := rfl
  written _ := List.append_nil _

/-- A line is accepted by its tokens, and then the session does what it asks for.
Any other line is refused, with a fault about a line number if one is wrong, and
for its syntax if not. -/
theorem granted_or_refused (s : Session) (text : Bytes) :
    (∀ r, Request.ofLine text = .ok r ↔ Asks text r) ∧
      (∀ r, Asks text r → s.submit text = s.grant r) ∧
      ((¬ ∃ r, Asks text r) → ∃ f, s.Refuses f (s.submit text) ∧
        ((f.message = "LINE NUMBER ERROR" ∧ Misnumbered (Token.ofLine text)) ∨
          (f.message = "SYNTAX ERROR" ∧ ¬ Misnumbered (Token.ofLine text)))) := by
  refine ⟨fun r => Request.ofLine_eq_ok_iff, fun r => submit_of_asks, ?_⟩
  intro hnone
  cases hline : Request.ofLine text with
  | ok r => exact absurd ⟨r, Request.asks_of_ofLine hline⟩ hnone
  | error f =>
      refine ⟨f, ?_, ?_⟩
      · rw [submit_eq_answer, hline]
        exact s.refuses_turn f
      · rcases Request.fault_of_ofLine hline with ⟨rfl, hmis⟩ | ⟨rfl, hmis⟩
        · exact .inl ⟨rfl, hmis⟩
        · exact .inr ⟨rfl, hmis⟩

/-- A line that would be replaced stays, if the new statement jumps nowhere. -/
theorem granted_or_refused_replacement :
    let line : StoredLine := ⟨Text.ofString "10 END", some .stop⟩
    let s : Session :=
      { program := ⟨⟨[(10, line)]⟩, 1, none⟩, executed := 3, interrupted := true }
    let text : Bytes := Text.ofString "10 GOTO 0"
    (¬ ∃ r, Asks text r) ∧ (s.submit text).session = s ∧
      Event.renderAll {} (s.submit text).events = Text.ofString "LINE NUMBER ERROR\n" ∧
      (s.submit text).stage = .idle := by
  intro line s text
  have htokens : Token.ofLine text = [⟨.number, "10"⟩, ⟨.word, "GOTO"⟩, ⟨.number, "0"⟩] :=
    Token.ofLine_spaced (by decide) (by decide)
  have hline : Request.ofLine text = .error .lineNumber := by
    rw [Request.ofLine_of_number htokens, if_pos (by decide)]
    rfl
  have hnone : ¬ ∃ r, Asks text r := by
    rintro ⟨r, hr⟩
    rw [Request.ofLine_of_asks hr] at hline
    cases hline
  obtain ⟨f, hrefuses, hfault⟩ := (granted_or_refused s text).2.2 hnone
  have hmis : Misnumbered (Token.ofLine text) := htokens ▸ .target "10" rfl
  have hf : f.message = "LINE NUMBER ERROR" := by
    rcases hfault with ⟨hf, -⟩ | ⟨-, hnot⟩
    · exact hf
    · exact absurd hmis hnot
  refine ⟨hnone, hrefuses.quiet rfl, ?_, hrefuses.stage⟩
  rw [hrefuses.written, Display.faultLine, hf]
  rfl

end Session

end LineBasic
