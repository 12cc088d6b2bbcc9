import LineBasic.Proofs.Session.Submit
import LineBasic.Proofs.Stmt.Parser

/-!
# What a line asks for

A line is read to its end before anything is done about it.  Read, it asks for
something or it is at fault (`Request.ofLine`); only then does the session do
what was asked, or tell the fault (`Session.answer`).  So a line is accepted or
not by its tokens alone, in whatever session it is typed (`Asks`).
-/

namespace LineBasic

inductive Request
  | nothing
  | remove (n : LineNumber)
  | store (n : LineNumber) (source : Bytes) (st : Stmt)
  | command (c : Command)
  | execute (st : Stmt)
deriving DecidableEq, Repr

namespace Request

def ofNumbered (text : Bytes) (numeral : String) (tail : List Token) : Except Fault Request :=
  match LineNumber.ofNumeral numeral with
  | .error f => .error f
  | .ok n =>
    if tail.isEmpty then .ok (remove n)
    else (Stmt.parse tail).map (store n (Text.squeeze text))

def ofUnnumbered (t : Token) (ts : List Token) : Except Fault Request :=
  match (Command.read (t :: ts)).1 with
  | some c => c.map command
  | none =>
    if t.kind = .word ∧ t.text ∈ Session.immediateWords then (Stmt.parse (t :: ts)).map execute
    else .error .syntaxError

/-- What a line asks for, or why it is refused. -/
def ofLine (text : Bytes) : Except Fault Request :=
  match Token.ofLine text with
  | [] => .ok nothing
  | ⟨.number, numeral⟩ :: tail => ofNumbered text numeral tail
  | t :: ts => ofUnnumbered t ts

end Request

namespace Session

/-- Does what is asked for. -/
def grant (s : Session) : Request → Turn
  | .nothing => s.turn .idle []
  | .remove n => { s with program := s.program.remove n }.turn .idle []
  | .store n source st =>
    match s.program.store? n ⟨source, some st⟩ with
    | some p => { s with program := p.rewind }.turn .idle [.entered st]
    | none => { s with program := s.program.rewind }.turn .idle [.entered st, .duplicate n]
  | .command c => s.command c
  | .execute st =>
    let x := s.execution st
    { s with env := x.env, input := s.input.setAnswers x.answers }.turn .idle x.events

def answer (s : Session) : Except Fault Request → Turn
  | .ok r => s.grant r
  | .error f => s.turn .idle [.fault f]

variable (s : Session)

theorem numberedLine_eq_answer (text : Bytes) (numeral : String) (tail : List Token) :
    s.numberedLine text numeral tail = s.answer (Request.ofNumbered text numeral tail) := by
  rw [numberedLine, Request.ofNumbered]
  cases LineNumber.ofNumeral numeral with
  | error f => rfl
  | ok n =>
      dsimp only
      rw [enterLine]
      split_ifs with htail
      · rfl
      · cases Stmt.parse tail with
        | error f => rfl
        | ok st =>
            simp only [Except.map, answer, grant]
            cases s.program.store? n ⟨Text.squeeze text, some st⟩ with
            | none => rfl
            | some p => rfl

theorem immediate_eq_answer (ts : List Token) :
    s.immediate ts = s.answer ((Stmt.parse ts).map .execute) := by
  rw [immediate]
  cases Stmt.parse ts with
  | error f => rfl
  | ok st => rfl

theorem unnumbered_eq_answer (t : Token) (ts : List Token) :
    (match (Command.read (t :: ts)).1 with
      | some (.ok c) => s.command c
      | some (.error f) => s.turn .idle [.fault f]
      | none =>
        if t.kind = .word ∧ t.text ∈ immediateWords then s.immediate (t :: ts)
        else s.turn .idle [.fault .syntaxError]) =
      s.answer (Request.ofUnnumbered t ts) := by
  rw [Request.ofUnnumbered]
  cases (Command.read (t :: ts)).1 with
  | none =>
      dsimp only
      split_ifs
      · exact immediate_eq_answer s _
      · rfl
  | some c =>
      cases c with
      | error f => rfl
      | ok c => rfl

/-- What a line does is to ask and be answered. -/
theorem submit_eq_answer (text : Bytes) : s.submit text = s.answer (Request.ofLine text) := by
  rw [submit, Request.ofLine]
  cases Token.ofLine text with
  | nil => rfl
  | cons t ts =>
      obtain ⟨kind, w⟩ := t
      cases kind with
      | number => exact numberedLine_eq_answer s text w ts
      | word => exact unnumbered_eq_answer s ⟨.word, w⟩ ts
      | operator => exact unnumbered_eq_answer s ⟨.operator, w⟩ ts

end Session

/-! ### The forms of requests -/

/-- The commands by their words. -/
def Command.words : List (String × Command) :=
  [("RUN", .run), ("LIST", .list), ("CLEAR", .clear), ("QUIT", .quit), ("HELP", .help)]

/-- The tokens of a line ask for something. -/
inductive Asks (text : Bytes) : Request → Prop
  | nothing : Token.ofLine text = [] → Asks text .nothing
  | remove {numeral : String} : Token.ofLine text = [⟨.number, numeral⟩] →
      LineNumber.InRange (Decimal.value numeral.toList) →
        Asks text (.remove (Decimal.value numeral.toList))
  | store {numeral : String} {tail : List Token} {st : Stmt} :
      Token.ofLine text = ⟨.number, numeral⟩ :: tail →
      LineNumber.InRange (Decimal.value numeral.toList) → Stmt.parse tail = .ok st →
        Asks text (.store (Decimal.value numeral.toList) (Text.squeeze text) st)
  | command {w : String} {c : Command} : Token.ofLine text = [⟨.word, w⟩] →
      (w, c) ∈ Command.words → Asks text (.command c)
  | execute {w : String} {ts : List Token} {st : Stmt} :
      Token.ofLine text = ⟨.word, w⟩ :: ts → w ∈ ["LET", "PRINT", "INPUT"] →
      Stmt.parse (⟨.word, w⟩ :: ts) = .ok st → Asks text (.execute st)

theorem Command.ofWord?_eq_some_iff {w : String} {c : Command} :
    ofWord? w = some c ↔ (w, c) ∈ words := by
  constructor
  · intro h
    unfold ofWord? at h
    split at h <;> cases h <;> decide
  · intro h
    simp only [words, List.mem_cons, List.not_mem_nil, or_false, Prod.mk.injEq] at h
    rcases h with ⟨rfl, rfl⟩ | ⟨rfl, rfl⟩ | ⟨rfl, rfl⟩ | ⟨rfl, rfl⟩ | ⟨rfl, rfl⟩ <;> rfl

/-- A word that begins a statement is no command. -/
theorem Command.read_immediate {w : String} (h : w ∈ Session.immediateWords) (ts : List Token) :
    (read (⟨.word, w⟩ :: ts)).1 = none := by
  have hw : ofWord? w = none := by
    simp only [Session.immediateWords, List.mem_cons, List.not_mem_nil, or_false] at h
    rcases h with rfl | rfl | rfl <;> rfl
  simp [read, hw]

namespace Request

variable {text : Bytes} {r : Request} {f : Fault} {numeral : String} {tail ts : List Token}
  {t : Token}

theorem ofLine_of_nil (ht : Token.ofLine text = []) : ofLine text = .ok .nothing := by
  rw [ofLine, ht]

theorem ofLine_of_number (ht : Token.ofLine text = ⟨.number, numeral⟩ :: tail) :
    ofLine text =
      if LineNumber.InRange (Decimal.value numeral.toList) then
        if tail.isEmpty then .ok (.remove (Decimal.value numeral.toList))
        else (Stmt.parse tail).map (store (Decimal.value numeral.toList) (Text.squeeze text))
      else .error .lineNumber := by
  have hwf : (⟨.number, numeral⟩ : Token).WellFormed :=
    Token.wellFormed_of_mem_ofLine (by rw [ht]; exact List.mem_cons_self)
  rw [ofLine, ht]
  dsimp only
  rw [ofNumbered, LineNumber.ofNumeral_of_isNatural hwf.isNatural]
  split_ifs <;> rfl

theorem ofLine_of_ne_number (ht : Token.ofLine text = t :: ts) (hk : t.kind ≠ .number) :
    ofLine text = ofUnnumbered t ts := by
  rw [ofLine, ht]
  split
  · contradiction
  · rename_i heq
    obtain ⟨rfl, -⟩ := List.cons.inj heq
    exact absurd rfl hk
  · rename_i heq
    obtain ⟨rfl, rfl⟩ := List.cons.inj heq
    rfl

/-- A line is read as what it asks for. -/
theorem ofLine_of_asks (h : Asks text r) : ofLine text = .ok r := by
  cases h with
  | nothing ht => exact ofLine_of_nil ht
  | remove ht hrange => rw [ofLine_of_number ht, if_pos hrange]; rfl
  | @store numeral tail st ht hrange hst =>
      have hne : ¬ tail.isEmpty = true := by
        intro hnil
        rw [List.isEmpty_iff.1 hnil, Session.parse_nil] at hst
        cases hst
      rw [ofLine_of_number ht, if_pos hrange, if_neg hne, hst]
      rfl
  | command ht hw =>
      rw [ofLine_of_ne_number ht (by simp), ofUnnumbered,
        Command.read_word (Command.ofWord?_eq_some_iff.2 hw)]
      rfl
  | execute ht hw hst =>
      rw [ofLine_of_ne_number ht (by simp), ofUnnumbered, Command.read_immediate hw]
      dsimp only
      rw [if_pos ⟨rfl, hw⟩, hst]
      rfl

theorem exists_of_map_eq_ok {α : Type} {x : Except Fault α} {g : α → Request}
    (h : x.map g = .ok r) : ∃ a, x = .ok a ∧ g a = r := by
  cases x with
  | error f => cases h
  | ok a =>
      cases h
      exact ⟨a, rfl, rfl⟩

theorem asks_of_ofLine (h : ofLine text = .ok r) : Asks text r := by
  cases ht : Token.ofLine text with
  | nil =>
      rw [ofLine_of_nil ht] at h
      cases h
      exact .nothing ht
  | cons t ts =>
      obtain ⟨kind, w⟩ := t
      by_cases hk : kind = .number
      · subst hk
        rw [ofLine_of_number ht] at h
        split_ifs at h with hrange hnil
        · cases h
          rw [List.isEmpty_iff.1 hnil] at ht
          exact .remove ht hrange
        · obtain ⟨st, hst, rfl⟩ := exists_of_map_eq_ok h
          exact .store ht hrange hst
      · rw [ofLine_of_ne_number ht hk, ofUnnumbered] at h
        cases hread : (Command.read (⟨kind, w⟩ :: ts)).1 with
        | some c =>
            rw [hread] at h
            obtain ⟨c, rfl, rfl⟩ := exists_of_map_eq_ok h
            obtain ⟨w', hts, hw⟩ := Command.exists_word_of_read hread
            exact .command (ht.trans hts) (Command.ofWord?_eq_some_iff.1 hw)
        | none =>
            rw [hread] at h
            dsimp only at h
            split_ifs at h with hw
            obtain ⟨rfl, hw⟩ := hw
            obtain ⟨st, hst, rfl⟩ := exists_of_map_eq_ok h
            exact .execute ht hw hst

/-- Lines are accepted by their tokens. -/
theorem ofLine_eq_ok_iff : ofLine text = .ok r ↔ Asks text r :=
  ⟨asks_of_ofLine, ofLine_of_asks⟩

end Request

theorem Session.submit_of_asks {s : Session} {text : Bytes} {r : Request} (h : Asks text r) :
    s.submit text = s.grant r := by
  rw [submit_eq_answer, Request.ofLine_of_asks h]
  rfl

end LineBasic
