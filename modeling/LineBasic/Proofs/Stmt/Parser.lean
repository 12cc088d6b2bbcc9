import LineBasic.Proofs.Expr.Reader
import LineBasic.Stmt.Parser
import Mathlib.Algebra.Group.Nat.Defs

/-!
# The forms of statements

What a statement looks like (`Form`), and the two forms that end in the number
of a line (`JumpForm`).  Parsing accepts the forms and nothing else.  A jump whose
number is no line number is refused for that reason; everything else that is
refused is a syntax error.

In a branch the sum on the left stops at the first operator that cannot join two
terms, so the comparison is found without looking ahead.
-/

namespace LineBasic.Stmt

open LineBasic.Expr (Derives)

/-- The tokens are a jump or a branch.  The number they end with is `n`, and
`make` gives the statement for the line it goes to. -/
inductive JumpForm : List Token → Nat → (LineNumber → Stmt) → Prop
  | jump (s : String) :
      JumpForm [⟨.word, "GOTO"⟩, ⟨.number, s⟩] (Decimal.value s.toList) jump
  | branch {u v : List Token} {a b : Expr} {c : String} (s : String) :
      Derives .sum u a → Token.assignsInParens 0 u = true →
      c ∉ ["+", "-", "*", "/"] →
      Derives .sum v b → Token.assignsInParens 0 v = true →
        JumpForm
          (⟨.word, "IF"⟩ :: (u ++ ⟨.operator, c⟩ :: (v ++ [⟨.word, "THEN"⟩, ⟨.number, s⟩])))
          (Decimal.value s.toList) (branch a (.ofSymbol c) b)

inductive Form : List Token → Stmt → Prop
  | remark (ts : List Token) : Form (⟨.word, "REM"⟩ :: ts) remark
  | assign {u : List Token} {e : Expr} : Derives .assignment u e →
      Form (⟨.word, "LET"⟩ :: u) (assign e)
  | print {u : List Token} {e : Expr} : Derives .assignment u e →
      Form (⟨.word, "PRINT"⟩ :: u) (print e)
  | input (x : String) : Form [⟨.word, "INPUT"⟩, ⟨.word, x⟩] (input x)
  | stop : Form [⟨.word, "END"⟩] stop
  | target {ts : List Token} {n : Nat} {make : LineNumber → Stmt} : JumpForm ts n make →
      0 < n → n < 2 ^ 63 → Form ts (make n)

variable {ts : List Token} {st : Stmt} {n : Nat} {make : LineNumber → Stmt}

/-! ### Targets and comparisons -/

theorem parseTarget_number {s : String} (h : (⟨.number, s⟩ : Token).WellFormed) :
    parseTarget [⟨.number, s⟩] =
      if LineNumber.InRange (Decimal.value s.toList) then .ok (Decimal.value s.toList : Int)
      else .error .lineNumber :=
  LineNumber.ofNumeral_of_isNatural h.isNatural

theorem parseTarget_eq_error (h : ∀ s, ts ≠ [⟨.number, s⟩]) :
    parseTarget ts = .error .syntaxError := by
  unfold parseTarget
  split
  · exact absurd rfl (h _)
  · rfl

theorem inRange_natCast : LineNumber.InRange (n : Int) ↔ 0 < n ∧ n < 2 ^ 63 := by
  rw [LineNumber.InRange]
  omega

/-- The operators at which a sum stops. -/
theorem precedence_operator_le_one {c : String} :
    (⟨.operator, c⟩ : Token).precedence ≤ 1 ↔ c ∉ ["+", "-", "*", "/"] := by
  simp only [Token.precedence]
  unfold Op.ofSymbol
  split <;> simp_all [Op.precedence]

/-! ### What has a form is parsed -/

theorem JumpForm.parse_eq (h : JumpForm ts n make) (hts : ∀ t ∈ ts, t.WellFormed) :
    parse ts = if LineNumber.InRange n then .ok (make n) else .error .lineNumber := by
  cases h with
  | jump s =>
      have htarget := parseTarget_number (hts ⟨.number, s⟩ (by simp))
      rw [parse, htarget]
      split_ifs <;> rfl
  | @branch u v a b c s ha _ hc hb _ =>
      have htarget := parseTarget_number (hts ⟨.number, s⟩ (by simp))
      have hleft : Expr.read 1 (u ++ ⟨.operator, c⟩ :: (v ++ [⟨.word, "THEN"⟩, ⟨.number, s⟩])) =
          (.ok a, ⟨.operator, c⟩ :: (v ++ [⟨.word, "THEN"⟩, ⟨.number, s⟩])) := by
        refine (Expr.read_eq_ok_iff (l := .sum) (List.forall_mem_cons.1 hts).2).2 ⟨u, rfl, ha, ?_⟩
        rintro t ⟨⟩
        exact precedence_operator_le_one.2 hc
      have hright : Expr.read 1 (v ++ [⟨.word, "THEN"⟩, ⟨.number, s⟩]) =
          (.ok b, [⟨.word, "THEN"⟩, ⟨.number, s⟩]) := by
        refine (Expr.read_eq_ok_iff (l := .sum) fun t ht => hts t ?_).2 ⟨v, rfl, hb, ?_⟩
        · exact List.mem_cons_of_mem _ (List.mem_append_right _ (List.mem_cons_of_mem _ ht))
        · rintro t ⟨⟩
          decide
      rw [parse, parseIf, hleft]
      simp only [parseThen, hright, htarget]
      split_ifs <;> rfl

theorem Form.parse_eq (h : Form ts st) (hts : ∀ t ∈ ts, t.WellFormed) : parse ts = .ok st := by
  cases h with
  | remark ts => rfl
  | assign he =>
      rw [parse, (Expr.parse_eq_ok_iff (List.forall_mem_cons.1 hts).2).2 he]
      rfl
  | print he =>
      rw [parse, (Expr.parse_eq_ok_iff (List.forall_mem_cons.1 hts).2).2 he]
      rfl
  | input x => rfl
  | stop => rfl
  | target hform hpos hlt => rw [hform.parse_eq hts, if_pos (inRange_natCast.2 ⟨hpos, hlt⟩)]

/-! ### What is parsed has a form -/

/-- What parsing may give. -/
inductive Parses (ts : List Token) : Except Fault Stmt → Prop
  | ok {st : Stmt} : Form ts st → Parses ts (.ok st)
  | lineNumber {n : Nat} {make : LineNumber → Stmt} : JumpForm ts n make →
      ¬ LineNumber.InRange n → Parses ts (.error .lineNumber)
  | syntaxError : Parses ts (.error .syntaxError)

/-- A target at the end of the tokens, where `rest` is what stands in its place. -/
theorem parses_target {rest : List Token} (hrest : ∀ t ∈ rest, t.WellFormed)
    (hform : ∀ s, rest = [⟨.number, s⟩] → JumpForm ts (Decimal.value s.toList) make) :
    Parses ts ((parseTarget rest).map make) := by
  by_cases h : ∃ s, rest = [⟨.number, s⟩]
  · obtain ⟨s, rfl⟩ := h
    rw [parseTarget_number (hrest _ (by simp))]
    split_ifs with hrange
    · obtain ⟨hpos, hlt⟩ := inRange_natCast.1 hrange
      exact .ok (.target (hform s rfl) hpos hlt)
    · exact .lineNumber (hform s rfl) hrange
  · rw [parseTarget_eq_error fun s hs => h ⟨s, hs⟩]
    exact .syntaxError

theorem parses_expression {f : Expr → Stmt} {u : List Token} (hu : ∀ t ∈ u, t.WellFormed)
    (hform : ∀ e, Derives .assignment u e → Form ts (f e)) :
    Parses ts ((Expr.parse u).map f) := by
  by_cases h : ∃ e, Expr.parse u = .ok e
  · obtain ⟨e, he⟩ := h
    rw [he]
    exact .ok (hform e ((Expr.parse_eq_ok_iff hu).1 he))
  · rw [Expr.parse_eq_error fun e he => h ⟨e, he⟩]
    exact .syntaxError

theorem parses_parseThen {u us : List Token} {a : Expr} {c : String}
    (hus : ∀ t ∈ us, t.WellFormed) (ha : Derives .sum u a) (hc : c ∉ ["+", "-", "*", "/"]) :
    Parses (⟨.word, "IF"⟩ :: (u ++ ⟨.operator, c⟩ :: us)) (parseThen a (.ofSymbol c) us) := by
  unfold parseThen
  split
  · rename_i b rest hread
    obtain ⟨v, rfl, hb, -⟩ := (Expr.read_eq_ok_iff (l := .sum) hus).1 hread
    refine parses_target (fun t ht => hus t (by simp [ht])) ?_
    rintro s rfl
    exact .branch s ha ha.assignsInParens hc hb hb.assignsInParens
  · exact .syntaxError
  · rename_i f rest hread
    obtain rfl := Expr.fault_of_read (l := .sum) hus hread
    exact .syntaxError

theorem parses_parseIf {us : List Token} (hus : ∀ t ∈ us, t.WellFormed) :
    Parses (⟨.word, "IF"⟩ :: us) (parseIf us) := by
  unfold parseIf
  split
  · rename_i a c rest hread
    obtain ⟨u, rfl, ha, hstops⟩ := (Expr.read_eq_ok_iff (l := .sum) hus).1 hread
    have hc := precedence_operator_le_one.1 (hstops _ rfl)
    exact parses_parseThen (fun t ht => hus t (by simp [ht])) ha hc
  · exact .syntaxError
  · rename_i f rest hread
    obtain rfl := Expr.fault_of_read (l := .sum) hus hread
    exact .syntaxError

theorem parse_parses (hts : ∀ t ∈ ts, t.WellFormed) : Parses ts (parse ts) := by
  unfold parse
  split
  · exact .ok (.remark _)
  · exact parses_expression (List.forall_mem_cons.1 hts).2 fun e he => .assign he
  · exact parses_expression (List.forall_mem_cons.1 hts).2 fun e he => .print he
  · exact .ok (.input _)
  · exact .ok .stop
  · refine parses_target (List.forall_mem_cons.1 hts).2 ?_
    rintro s rfl
    exact .jump s
  · exact parses_parseIf (List.forall_mem_cons.1 hts).2
  · exact .syntaxError

/-! ### Parsing and forms -/

theorem parse_eq_ok_iff (hts : ∀ t ∈ ts, t.WellFormed) : parse ts = .ok st ↔ Form ts st := by
  refine ⟨fun h => ?_, fun h => h.parse_eq hts⟩
  have hparses := parse_parses hts
  rw [h] at hparses
  cases hparses with
  | ok hform => exact hform

theorem parse_eq_lineNumber_iff (hts : ∀ t ∈ ts, t.WellFormed) :
    parse ts = .error .lineNumber ↔ ∃ n make, JumpForm ts n make ∧ (n = 0 ∨ 2 ^ 63 ≤ n) := by
  constructor
  · intro h
    have hparses := parse_parses hts
    rw [h] at hparses
    cases hparses with
    | lineNumber hform hrange =>
        rw [inRange_natCast] at hrange
        exact ⟨_, _, hform, by omega⟩
  · rintro ⟨n, make, hform, hn⟩
    have hrange : ¬ LineNumber.InRange (n : Int) := by
      rw [inRange_natCast]
      omega
    rw [hform.parse_eq hts, if_neg hrange]

/-- On the tokens of any line, parsing gives a statement exactly when they have
its form, complains about the line number exactly when they are a jump or a branch
to zero or to `2 ^ 63` and above, and finds a syntax error in everything else. -/
theorem parsing_iff_form (line : Bytes) :
    (∀ st, parse (Token.ofLine line) = .ok st ↔ Form (Token.ofLine line) st) ∧
    (parse (Token.ofLine line) = .error .lineNumber ↔
      ∃ n make, JumpForm (Token.ofLine line) n make ∧ (n = 0 ∨ 2 ^ 63 ≤ n)) ∧
    (parse (Token.ofLine line) = .error .syntaxError ↔
      (∀ st, ¬ Form (Token.ofLine line) st) ∧
        ¬ ∃ n make, JumpForm (Token.ofLine line) n make ∧ (n = 0 ∨ 2 ^ 63 ≤ n)) := by
  have hts : ∀ t ∈ Token.ofLine line, t.WellFormed := fun t ht => Token.wellFormed_of_mem_ofLine ht
  refine ⟨fun st => parse_eq_ok_iff hts, parse_eq_lineNumber_iff hts, ?_⟩
  simp only [← parse_eq_ok_iff hts, ← parse_eq_lineNumber_iff hts]
  generalize hx : parse (Token.ofLine line) = x
  have hparses := parse_parses hts
  rw [hx] at hparses
  cases hparses with
  | ok hform => simp
  | lineNumber hform hrange => simp
  | syntaxError => simp

end LineBasic.Stmt
