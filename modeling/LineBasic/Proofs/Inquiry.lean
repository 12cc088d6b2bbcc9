import LineBasic.Proofs.Names

/-!
# Asking for a number

`INPUT` asks until it is given a line that is a number or there is no line.  The
answers fall apart accordingly: some lines that are refused, and then what
decides (`Source.exists_refused_append`).  A refused line costs a prompt and a
complaint and has no other effect (`Source.inquire_refused_append`).
-/

namespace LineBasic

/-- The line is no number, or none that fits. -/
def Value.Refused (line : Bytes) : Prop :=
  ∀ v, ofLine line ≠ .ok v

theorem Value.Refused.ofLine_eq {line : Bytes} (h : Refused line) :
    ofLine line = .error .invalidNumber := by
  unfold Refused at h
  unfold ofLine at h ⊢
  cases hv : ofNumeral? (Text.trim (Text.decode line)) with
  | none => rfl
  | some v => exact absurd (by rw [hv]) (h v)

namespace Source

/-- No line comes next: there is a failure, or nothing is left. -/
def NoLine (src : Source) : Prop :=
  ∀ line, src.head? ≠ some (.line line)

/-- Any answers are refused lines, then a number or no line. -/
theorem exists_refused_append (src : Source) :
    ∃ (refused : List Bytes) (rest : Source), src = refused.map Reply.line ++ rest ∧
      (∀ l ∈ refused, Value.Refused l) ∧
      ((∃ line v rest', rest = .line line :: rest' ∧ Value.ofLine line = .ok v) ∨
        rest.NoLine) := by
  induction src with
  | nil => exact ⟨[], [], rfl, by simp, .inr (by simp [NoLine])⟩
  | cons r src ih =>
      cases r with
      | line l =>
          cases hl : Value.ofLine l with
          | ok v => exact ⟨[], _, rfl, by simp, .inl ⟨l, v, src, rfl, hl⟩⟩
          | error f =>
              obtain ⟨refused, rest, rfl, hrefused, hrest⟩ := ih
              have hl' : Value.Refused l := by simp [Value.Refused, hl]
              exact ⟨l :: refused, rest, rfl, List.forall_mem_cons.2 ⟨hl', hrefused⟩, hrest⟩
      | _ => exact ⟨[], _, rfl, by simp, .inr (by simp [NoLine])⟩

/-- What is said about `k` refused lines. -/
def refusals (k : Nat) : List Event :=
  (List.replicate k [Event.inputPrompt, .fault .invalidNumber]).flatten

theorem refusals_succ (k : Nat) :
    refusals (k + 1) = [.inputPrompt, .fault .invalidNumber] ++ refusals k := rfl

/-- Refused lines are asked about one by one, and then the inquiry is that of
the rest. -/
theorem inquire_refused_append {refused : List Bytes} (h : ∀ l ∈ refused, Value.Refused l)
    (rest : Source) :
    inquire (refused.map Reply.line ++ rest) =
      { rest.inquire with events := refusals refused.length ++ rest.inquire.events } := by
  induction refused with
  | nil => rfl
  | cons l refused ih =>
      obtain ⟨hl, hrefused⟩ := List.forall_mem_cons.1 h
      rw [List.map_cons, List.cons_append, inquire, hl.ofLine_eq]
      dsimp only
      rw [ih hrefused, List.length_cons, refusals_succ]
      rfl

theorem inquire_of_number {line : Bytes} {v : Value} (h : Value.ofLine line = .ok v)
    (rest : Source) : inquire (.line line :: rest) = ⟨some v, rest, [.inputPrompt]⟩ := by
  rw [inquire, h]

theorem inquire_of_noLine {src : Source} (h : src.NoLine) :
    src.inquire = ⟨none, src.tail,
      .inputPrompt :: if src.head? = some .interrupted then [.fault .interrupted] else []⟩ := by
  cases src with
  | nil => rfl
  | cons r src =>
      cases r with
      | line l => exact absurd rfl (h l)
      | _ => rfl

end Source

/-- What a display shows of an inquiry in which `k` answers were refused, up to
the prompt after them. -/
def Display.asked (d : Display) (k : Nat) : Bytes :=
  (List.replicate k
    (Text.ofString " ? " ++ Text.ofString (d.faultLine .invalidNumber))).flatten ++
    Text.ofString " ? "

theorem Display.renderAll_refusals (d : Display) (k : Nat) :
    Event.renderAll d (Source.refusals k ++ [.inputPrompt]) = d.asked k := by
  induction k with
  | zero => simp [asked, Source.refusals, Event.renderAll, Event.render, Event.renderWith]
  | succ k ih =>
      rw [Source.refusals_succ, List.append_assoc, Event.renderAll_append, ih, asked, asked,
        List.replicate_succ, List.flatten_cons]
      simp [Event.renderAll, Event.render, Event.renderWith]

namespace Stmt

variable {x : String} {env env' : Env} {refused : List Bytes} {rest : Source} {line : Bytes}
  {v : Value}

theorem executeInput_of_noLine (hrefused : ∀ l ∈ refused, Value.Refused l) (h : rest.NoLine) :
    executeInput x env (refused.map Reply.line ++ rest) =
      ⟨.halt, env, rest.tail, (Source.refusals refused.length ++ [.inputPrompt]) ++
        if rest.head? = some .interrupted then [.fault .interrupted] else []⟩ := by
  rw [executeInput, Source.inquire_refused_append hrefused, Source.inquire_of_noLine h]
  simp

theorem executeInput_of_bind? (hrefused : ∀ l ∈ refused, Value.Refused l)
    (h : Value.ofLine line = .ok v) (hb : env.bind? x v = some env') :
    executeInput x env (refused.map Reply.line ++ .line line :: rest) =
      ⟨.next, env', rest, Source.refusals refused.length ++ [.inputPrompt]⟩ := by
  simp only [executeInput, Source.inquire_refused_append hrefused, Source.inquire_of_number h, hb]

theorem executeInput_of_reserved (hrefused : ∀ l ∈ refused, Value.Refused l)
    (h : Value.ofLine line = .ok v) (hx : isReserved x = true) :
    executeInput x env (refused.map Reply.line ++ .line line :: rest) =
      ⟨.next, env, rest, (Source.refusals refused.length ++ [.inputPrompt]) ++
        [.fault .syntaxError]⟩ := by
  simp only [executeInput, Source.inquire_refused_append hrefused, Source.inquire_of_number h,
    Env.bind?_of_reserved hx]

/-- The answers to `INPUT` are refused lines, then a number or no line.  A number
is taken with the lines before it and given to the name, unless that is reserved;
no other variable changes.  Without one the statement halts and leaves the
variables alone, and it is said that there was an interrupt if there was one. -/
theorem input_takes_first_number (x : String) (env : Env) (answers : Source) :
    (∃ (refused : List Bytes) (rest : Source), answers = refused.map Reply.line ++ rest ∧
      (∀ l ∈ refused, Value.Refused l) ∧
      ((∃ line v rest', rest = .line line :: rest' ∧ Value.ofLine line = .ok v) ∨
        rest.NoLine)) ∧
    ∀ (refused : List Bytes) (rest : Source), answers = refused.map Reply.line ++ rest →
      (∀ l ∈ refused, Value.Refused l) →
      let r := (input x).execute env answers
      let k := refused.length
      (∀ line v rest', rest = .line line :: rest' → Value.ofLine line = .ok v →
        r.action = .next ∧ r.answers = rest' ∧
        (isReserved x = false →
          r.env.get? x = some v ∧ (∀ y ≠ x, r.env.get? y = env.get? y) ∧
          ∀ d : Display, Event.renderAll d r.events = d.asked k) ∧
        (isReserved x = true →
          r.env = env ∧ ∀ d : Display, Event.renderAll d r.events =
            d.asked k ++ Text.ofString (d.faultLine .syntaxError))) ∧
      (rest.NoLine →
        r.action = .halt ∧ r.answers = rest.tail ∧ r.env = env ∧
        ∀ d : Display, Event.renderAll d r.events =
          d.asked k ++
            if rest.head? = some .interrupted then Text.ofString (d.faultLine .interrupted)
            else []) := by
  refine ⟨answers.exists_refused_append, ?_⟩
  rintro refused rest rfl hrefused r k
  have hr : r = executeInput x env (refused.map Reply.line ++ rest) := rfl
  constructor
  · rintro line v rest' rfl hline
    cases hx : isReserved x with
    | true =>
        rw [executeInput_of_reserved hrefused hline hx] at hr
        rw [hr]
        refine ⟨rfl, rfl, by simp, fun _ => ⟨rfl, fun d => ?_⟩⟩
        rw [Event.renderAll_append, d.renderAll_refusals]
        simp [k, Event.renderAll, Event.render, Event.renderWith]
    | false =>
        have hb := Env.bind?_of_not_reserved hx env v
        obtain ⟨-, hget⟩ := Env.of_bind?_eq_some hb
        rw [executeInput_of_bind? hrefused hline hb] at hr
        rw [hr]
        refine ⟨rfl, rfl, fun _ => ⟨?_, fun y hy => ?_, fun d => ?_⟩, by simp⟩
        · rw [hget, Function.update_self]
        · rw [hget, Function.update_of_ne hy]
        · rw [d.renderAll_refusals]
  · intro hrest
    rw [executeInput_of_noLine hrefused hrest] at hr
    rw [hr]
    refine ⟨rfl, rfl, rfl, fun d => ?_⟩
    rw [Event.renderAll_append, d.renderAll_refusals]
    split_ifs
    · simp [k, Event.renderAll, Event.render, Event.renderWith]
    · rfl

/-- A word and a number that does not fit are refused before the answer is taken, for a
name and for a reserved word; with an interrupt in its place there is no answer. -/
theorem input_takes_first_number_third :
    let wrong : List Reply := [.line (Text.ofString "X"), .line (Text.ofString "2147483648")]
    let answers := wrong ++ [.line (Text.ofString " +07"), .line (Text.ofString "9")]
    let r := (input "N").execute .empty answers
    let q := (input "LET").execute .empty answers
    let i := (input "N").execute .empty (wrong ++ [.interrupted, .line (Text.ofString "9")])
    let shown : String := " ? INVALID NUMBER\n ? INVALID NUMBER\n ? "
    (r.action = .next ∧ r.answers = [.line (Text.ofString "9")] ∧ r.env.get? "N" = some 7 ∧
      Event.renderAll {} r.events = Text.ofString shown) ∧
    (q.action = .next ∧ q.env = .empty ∧
      Event.renderAll {} q.events = Text.ofString (shown ++ "SYNTAX ERROR\n")) ∧
    (i.action = .halt ∧ i.env = .empty ∧
      Event.renderAll {} i.events = Text.ofString (shown ++ "INTERRUPTED\n")) := by
  intro wrong answers r q i shown
  let refused : List Bytes := [Text.ofString "X", Text.ofString "2147483648"]
  have hrefused : ∀ l ∈ refused, Value.Refused l := by
    have hword : Value.ofLine (Text.ofString "X") = .error .invalidNumber := by decide +kernel
    have hlarge : Value.ofLine (Text.ofString "2147483648") = .error .invalidNumber := by
      decide +kernel
    simp [refused, Value.Refused, hword, hlarge]
  have hnumber : Value.ofLine (Text.ofString " +07") = .ok 7 := by decide +kernel
  have htaken (x : String) :=
    ((input_takes_first_number x .empty answers).2 refused
      [.line (Text.ofString " +07"), .line (Text.ofString "9")] rfl hrefused).1 _ _ _ rfl hnumber
  have hhalt := ((input_takes_first_number "N" .empty
    (wrong ++ [.interrupted, .line (Text.ofString "9")])).2 refused
      [.interrupted, .line (Text.ofString "9")] rfl hrefused).2 (by simp [Source.NoLine])
  obtain ⟨hnext, hrest, hfree, -⟩ := htaken "N"
  obtain ⟨hN, -, hshown⟩ := hfree (by decide)
  obtain ⟨hnext', -, -, hreserved⟩ := htaken "LET"
  obtain ⟨henv, hshown'⟩ := hreserved (by decide)
  obtain ⟨haction, -, henv', hshown''⟩ := hhalt
  exact ⟨⟨hnext, hrest, hN, (hshown {}).trans (by decide)⟩,
    ⟨hnext', henv, (hshown' {}).trans (by decide)⟩,
    haction, henv', (hshown'' {}).trans (by decide)⟩

end Stmt

end LineBasic
