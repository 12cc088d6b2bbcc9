import LineBasic.Expr.Eval
import LineBasic.Proofs.Expr.Reader
import LineBasic.Proofs.Text.Encoding

/-!
# Writing expressions and reading them again

The written form of a tree has the tokens `tokens`, with a minus sign of its own
for each negative constant.  They derive the tree in which such a constant is
taken from zero (`unsigned`), which means the same.  Only the lowest value cannot
be written so, since the number behind its minus sign does not fit.
-/

namespace LineBasic.Expr

open Token (leftParen rightParen)

/-- The tree can be written down: each name is a single word, and the operators
are those of a line. -/
def Writable : Expr → Prop
  | const _ => True
  | var x => Token.ofLine (Text.ofString x) = [⟨.word, x⟩]
  | binary op l r => op ∈ [.add, .sub, .mul, .div, .assign] ∧ l.Writable ∧ r.Writable
  | malformed _ => False

def constants : Expr → List Value
  | const v => [v]
  | var _ => []
  | binary _ l r => l.constants ++ r.constants
  | malformed _ => []

/-- The tree with each negative constant taken from zero. -/
def unsigned : Expr → Expr
  | const v => if v < 0 then neg (const (-v)) else const v
  | var x => var x
  | binary op l r => binary op l.unsigned r.unsigned
  | malformed tag => malformed tag

/-- The number of a constant, without its sign. -/
def numberToken (v : Value) : Token :=
  ⟨.number, String.ofList (Decimal.digits v.toInt.natAbs)⟩

/-- The tokens of the written form. -/
def tokens : Expr → List Token
  | const v => if v < 0 then [Op.sub.token, numberToken v] else [numberToken v]
  | var x => [⟨.word, x⟩]
  | binary op l r => leftParen :: (l.tokens ++ op.token :: r.tokens ++ [rightParen])
  | malformed _ => [⟨.operator, "?"⟩]

variable {e l r : Expr} {op : Op} {v : Value}

/-! ### Scanning the written form -/

theorem wellFormed_numberToken (v : Value) : (numberToken v).WellFormed := by
  apply Token.wellFormed_number
  simp [Decimal.isNatural, Decimal.digits_ne_nil, Decimal.all_isDigit_digits]

theorem scan_value (v : Value) : Token.scan v.text.toList = (const v).tokens := by
  have hdigits : Token.scan (Decimal.digits v.toInt.natAbs) = [numberToken v] := by
    simpa [numberToken] using (wellFormed_numberToken v).scan_text
  have hneg : v < 0 ↔ v.toInt < 0 := Int32.lt_iff_toInt_lt
  rw [Value.text, Decimal.text, String.toList_ofList, Decimal.numeral, tokens]
  simp only [hneg]
  split_ifs with hv
  · rw [Token.scan_cons_operator (by decide) (by decide), hdigits]
    rfl
  · exact hdigits

theorem scan_symbol (hop : op ∈ [.add, .sub, .mul, .div, .assign]) (cs : List Char) :
    Token.scan (op.symbol.toList ++ cs) = op.token :: Token.scan cs := by
  have hsingle (c : Char) (hblank : Text.isBlank c = false) (hword : Token.isWordChar c = false)
      (hc : op.symbol = String.ofList [c]) :
      Token.scan (op.symbol.toList ++ cs) = op.token :: Token.scan cs := by
    rw [Op.token, hc, String.toList_ofList, List.singleton_append,
      Token.scan_cons_operator hblank hword]
  simp only [List.mem_cons, List.not_mem_nil, or_false] at hop
  rcases hop with rfl | rfl | rfl | rfl | rfl
  · exact hsingle '+' (by decide) (by decide) (by decide)
  · exact hsingle '-' (by decide) (by decide) (by decide)
  · exact hsingle '*' (by decide) (by decide) (by decide)
  · exact hsingle '/' (by decide) (by decide) (by decide)
  · exact hsingle '=' (by decide) (by decide) (by decide)

theorem scan_text (h : e.Writable) : Token.scan e.text.toList = e.tokens := by
  induction e with
  | const v => exact scan_value v
  | var x =>
      rw [Writable, Token.ofLine, Text.ofString, Text.decode_encode] at h
      exact h
  | malformed tag => exact h.elim
  | binary op l r ihl ihr =>
      obtain ⟨hop, hl, hr⟩ := h
      have htext : (binary op l r).text.toList =
          '(' :: (l.text.toList ++
            ' ' :: (op.symbol.toList ++ ' ' :: (r.text.toList ++ [')']))) := by
        simp [text]
      have hblank (cs : List Char) : Token.scan (' ' :: cs) = Token.scan cs :=
        Token.scan_cons_of_blank (by decide) cs
      have hstop {c : Char} {cs : List Char} (hc : Token.isWordChar c = false) :
          ∀ d, (c :: cs).head? = some d → Token.isWordChar d = false := by
        rintro d ⟨⟩
        exact hc
      have hclose : Token.scan [')'] = [rightParen] := by
        rw [Token.scan_cons_operator (by decide) (by decide), Token.scan_nil]
        rfl
      rw [htext, Token.scan_cons_operator (by decide) (by decide),
        Token.scan_append (hstop (by decide)), hblank, scan_symbol hop, hblank,
        Token.scan_append (hstop (by decide)), hclose, ihl hl, ihr hr, tokens]
      simp [leftParen]

theorem ofLine_text (h : e.Writable) : Token.ofLine (Text.ofString e.text) = e.tokens := by
  rw [Token.ofLine, Text.ofString, Text.decode_encode, scan_text h]

/-! ### Deriving the written form -/

theorem value_numberToken (v : Value) :
    Decimal.value (numberToken v).text.toList = v.toInt.natAbs := by
  rw [numberToken, String.toList_ofList, Decimal.value_digits]

theorem derives_numberToken (h : v.toInt.natAbs ≤ 2147483647) :
    Derives .factor [numberToken v] (const (Int32.ofNat v.toInt.natAbs)) := by
  rw [← value_numberToken] at h ⊢
  exact .number h

theorem ofNat_natAbs_of_nonneg (h : ¬ v < 0) : Int32.ofNat v.toInt.natAbs = v := by
  have hv : 0 ≤ v.toInt := by
    rw [Int32.lt_iff_toInt_lt] at h
    simpa using h
  rw [← Int32.ofInt_eq_ofNat, Int.natAbs_of_nonneg hv, Int32.ofInt_toInt]

theorem ofNat_natAbs_of_neg (h : v < 0) : Int32.ofNat v.toInt.natAbs = -v := by
  have hv : v.toInt < 0 := Int32.lt_iff_toInt_lt.1 h
  rw [← Int32.ofInt_eq_ofNat, Int.ofNat_natAbs_of_nonpos hv.le, Int32.ofInt_neg, Int32.ofInt_toInt]

theorem natAbs_le_of_ne (h : v ≠ -2147483648) : v.toInt.natAbs ≤ 2147483647 := by
  have hne : v.toInt ≠ -2147483648 := by
    intro hv
    exact h (Int32.toInt_inj.1 hv)
  have hlow := v.le_toInt
  have hhigh := v.toInt_lt
  omega

theorem precedence_pos_iff : 0 < op.precedence ↔ op ∈ [.add, .sub, .mul, .div, .assign] := by
  cases op <;> simp [Op.precedence]

/-- The written form is a factor, unless it holds the lowest value. -/
theorem derives_tokens (h : e.Writable) (hmin : ∀ v ∈ e.constants, v ≠ -2147483648) :
    Derives .factor e.tokens e.unsigned := by
  induction e with
  | const v =>
      have hnumber := derives_numberToken (natAbs_le_of_ne (hmin v (by simp [constants])))
      rw [tokens, unsigned]
      split_ifs with hv
      · rw [ofNat_natAbs_of_neg hv] at hnumber
        exact .minus hnumber
      · rwa [ofNat_natAbs_of_nonneg hv] at hnumber
  | var x => exact .word x
  | malformed tag => exact h.elim
  | binary op l r ihl ihr =>
      obtain ⟨hop, hl, hr⟩ := h
      have hleft := ihl hl fun v hv => hmin v (List.mem_append_left _ hv)
      have hright := ihr hr fun v hv => hmin v (List.mem_append_right _ hv)
      have hpos := precedence_pos_iff.2 hop
      have hjoined := Derives.binary hpos (hleft.weaken op.left_le_factor)
        (hright.weaken (by cases op.right <;> decide))
      exact .paren (hjoined.weaken op.level.precedence_nonneg)

theorem numberToken_mem_tokens (h : v ∈ e.constants) : numberToken v ∈ e.tokens := by
  induction e with
  | const w =>
      obtain rfl : v = w := by simpa [constants] using h
      rw [tokens]
      split_ifs <;> simp
  | var x => simp [constants] at h
  | malformed tag => simp [constants] at h
  | binary op l r ihl ihr =>
      rcases List.mem_append.1 h with h | h
      · simp [tokens, ihl h]
      · simp [tokens, ihr h]

/-- The written form is no expression if it holds the lowest value. -/
theorem not_derives_tokens (h : -2147483648 ∈ e.constants) (t : Expr) :
    ¬ Derives .assignment e.tokens t := by
  intro hderives
  have hle : Decimal.value (numberToken (-2147483648)).text.toList ≤ 2147483647 :=
    hderives.value_le (numberToken_mem_tokens h)
  rw [value_numberToken] at hle
  exact absurd hle (by decide)

/-! ### Trees that were read -/

/-- The tree can be written down without a minus sign of its own. -/
structure Plain (e : Expr) : Prop where
  writable : e.Writable
  nonneg : ∀ v ∈ e.constants, 0 ≤ v

theorem plain_ofNat {n : Nat} (h : n ≤ 2147483647) : (const (Int32.ofNat n)).Plain := by
  refine ⟨trivial, ?_⟩
  intro v hv
  obtain rfl : v = Int32.ofNat n := by simpa [constants] using hv
  rw [Int32.le_iff_toInt_le, Int32.toInt_ofNat_of_lt (by omega)]
  exact Int.natCast_nonneg n

theorem Plain.binary (hop : 0 < op.precedence) (hl : l.Plain) (hr : r.Plain) :
    (Expr.binary op l r).Plain := by
  refine ⟨⟨precedence_pos_iff.1 hop, hl.writable, hr.writable⟩, ?_⟩
  intro v hv
  rcases List.mem_append.1 hv with hv | hv
  · exact hl.nonneg v hv
  · exact hr.nonneg v hv

/-- What is derived is plain: a minus sign in a line is the operator. -/
theorem Derives.plain {k : Level} {u : List Token} (h : Derives k u e)
    (hts : ∀ t ∈ u, t.WellFormed) : e.Plain := by
  induction h with
  | number hle => exact plain_ofNat hle
  | word x =>
      have hword := hts ⟨.word, x⟩ (by simp)
      exact ⟨hword.ofLine_text, by simp [constants]⟩
  | paren _ ih => exact ih fun t ht => hts t (by simp [ht])
  | minus _ ih =>
      have hzero : (const 0).Plain := plain_ofNat (n := 0) (by decide)
      exact hzero.binary (by decide) (ih fun t ht => hts t (by simp [ht]))
  | ofFactor _ ih => exact ih hts
  | ofTerm _ ih => exact ih hts
  | ofSum _ ih => exact ih hts
  | product hop _ _ ihu ihv =>
      obtain ⟨hus, hvs⟩ := forall_mem_join hts
      refine (ihu hus).binary ?_ (ihv hvs)
      rcases hop with rfl | rfl <;> decide
  | sum hop _ _ ihu ihv =>
      obtain ⟨hus, hvs⟩ := forall_mem_join hts
      refine (ihu hus).binary ?_ (ihv hvs)
      rcases hop with rfl | rfl <;> decide
  | assignment _ _ ihu ihv =>
      obtain ⟨hus, hvs⟩ := forall_mem_join hts
      exact (ihu hus).binary (by decide) (ihv hvs)

theorem unsigned_of_nonneg (h : ∀ v ∈ e.constants, 0 ≤ v) : e.unsigned = e := by
  induction e with
  | const v =>
      have hv : ¬ v < 0 := Int32.not_lt.2 (h v (by simp [constants]))
      rw [unsigned, if_neg hv]
  | var x => rfl
  | malformed tag => rfl
  | binary op l r ihl ihr =>
      rw [unsigned, ihl fun v hv => h v (List.mem_append_left _ hv),
        ihr fun v hv => h v (List.mem_append_right _ hv)]

/-! ### Evaluating -/

theorem eval_assign_of_ne_var (h : ∀ x, l ≠ var x) (r : Expr) (env : Env) :
    (binary .assign l r).eval env = .failure .syntaxError env := by
  cases l with
  | var x => exact absurd rfl (h x)
  | _ => rfl

theorem eval_arithmetic (h : op ≠ .assign) (l r : Expr) (env : Env) :
    (binary op l r).eval env = .combine op (l.eval env) (r.eval (l.eval env).env) := by
  cases op with
  | assign => exact absurd rfl h
  | _ => rfl

theorem unsigned_ne_var (h : ∀ x, e ≠ var x) : ∀ x, e.unsigned ≠ var x := by
  intro x
  cases e with
  | const v =>
      rw [unsigned]
      split_ifs <;> simp [neg]
  | var y => exact absurd rfl (h y)
  | binary op l r => simp [unsigned]
  | malformed tag => simp [unsigned]

theorem eval_neg_const (v : Value) (env : Env) :
    (neg (const v)).eval env = .success (-v) env := by
  have happly : Op.apply .sub 0 v = .ok (-v) := by rw [Op.apply, Int32.zero_sub]
  rw [neg, eval_arithmetic (by decide)]
  simp [eval, Evaluation.combine, Evaluation.success, happly]

/-- Taking negative constants from zero changes nothing that evaluation shows. -/
theorem eval_unsigned (e : Expr) (env : Env) : e.unsigned.eval env = e.eval env := by
  induction e generalizing env with
  | const v =>
      rw [unsigned]
      split_ifs with hv
      · rw [eval_neg_const, Int32.neg_neg]
        rfl
      · rfl
  | var x => rfl
  | malformed tag => rfl
  | binary op l r ihl ihr =>
      rw [unsigned]
      by_cases hop : op = .assign
      · subst hop
        by_cases hl : ∃ x, l = var x
        · obtain ⟨x, rfl⟩ := hl
          simp only [unsigned, eval, ihr]
        · have hne : ∀ x, l ≠ var x := fun x hx => hl ⟨x, hx⟩
          rw [eval_assign_of_ne_var hne, eval_assign_of_ne_var (unsigned_ne_var hne)]
      · rw [eval_arithmetic hop, eval_arithmetic hop, ihl, ihr]

/-! ### Writing and reading -/

theorem parse_text_eq_ok_iff (h : e.Writable) {t : Expr} :
    parse (Token.ofLine (Text.ofString e.text)) = .ok t ↔
      (∀ v ∈ e.constants, v ≠ -2147483648) ∧ t = e.unsigned := by
  have hparse {t : Expr} : parse (Token.ofLine (Text.ofString e.text)) = .ok t ↔
      Derives .assignment e.tokens t := by
    rw [parse_eq_ok_iff fun t ht => Token.wellFormed_of_mem_ofLine ht, ofLine_text h]
  have hwritten (hmin : ∀ v ∈ e.constants, v ≠ -2147483648) :
      parse (Token.ofLine (Text.ofString e.text)) = .ok e.unsigned :=
    hparse.2 ((derives_tokens h hmin).weaken (by decide))
  constructor
  · intro ht
    have hmin : ∀ v ∈ e.constants, v ≠ -2147483648 := by
      rintro v hv rfl
      exact not_derives_tokens hv t (hparse.1 ht)
    refine ⟨hmin, ?_⟩
    rw [hwritten hmin] at ht
    exact (Except.ok.inj ht).symm
  · rintro ⟨hmin, rfl⟩
    exact hwritten hmin

theorem parse_text_of_nonneg (h : e.Writable) (hpos : ∀ v ∈ e.constants, 0 ≤ v) :
    parse (Token.ofLine (Text.ofString e.text)) = .ok e := by
  refine (parse_text_eq_ok_iff h).2 ⟨?_, (unsigned_of_nonneg hpos).symm⟩
  rintro v hv rfl
  exact absurd (hpos _ hv) (by decide)

/-- The written form of a tree is read exactly when no constant is the lowest
value, and then as the tree with its negative constants taken from zero, which
evaluates to the same; so a tree without negative constants, as every tree that was
read is, is read as itself. -/
theorem written_reads_back :
    (∀ e : Expr, e.Writable →
      ((∃ t, parse (Token.ofLine (Text.ofString e.text)) = .ok t) ↔
        ∀ v ∈ e.constants, v ≠ -2147483648) ∧
      (∀ t, parse (Token.ofLine (Text.ofString e.text)) = .ok t →
        t = e.unsigned ∧ ∀ env, t.eval env = e.eval env) ∧
      ((∀ v ∈ e.constants, 0 ≤ v) →
        parse (Token.ofLine (Text.ofString e.text)) = .ok e)) ∧
    ∀ (line : Bytes) (t : Expr), parse (Token.ofLine line) = .ok t →
      t.Writable ∧ (∀ v ∈ t.constants, 0 ≤ v) ∧
        parse (Token.ofLine (Text.ofString t.text)) = .ok t := by
  constructor
  · intro e h
    refine ⟨by simp [parse_text_eq_ok_iff h], ?_, parse_text_of_nonneg h⟩
    intro t ht
    obtain ⟨-, rfl⟩ := (parse_text_eq_ok_iff h).1 ht
    exact ⟨rfl, eval_unsigned e⟩
  · intro line t ht
    have hts : ∀ t ∈ Token.ofLine line, t.WellFormed :=
      fun t ht => Token.wellFormed_of_mem_ofLine ht
    obtain ⟨hwritable, hpos⟩ := ((parse_eq_ok_iff hts).1 ht).plain hts
    exact ⟨hwritable, hpos, parse_text_of_nonneg hwritable hpos⟩

/-- A negative constant left of `=`, where reading leaves no constant. -/
theorem written_reads_back_negative :
    let e := binary .assign (const (-5)) (binary .div (var "x") (const 7))
    e.Writable ∧
      parse (Token.ofLine (Text.ofString e.text)) =
        .ok (binary .assign (neg (const 5)) (binary .div (var "x") (const 7))) := by
  intro e
  have hword : (⟨.word, "x"⟩ : Token).WellFormed := ⟨'x', [], by decide, by decide, by simp⟩
  have he : e.Writable := ⟨by decide, trivial, by decide, hword.ofLine_text, trivial⟩
  obtain ⟨hread, htree, -⟩ := written_reads_back.1 e he
  have hmin : ∀ v ∈ [-5, 7], v ≠ (-2147483648 : Value) := by simp
  obtain ⟨t, ht⟩ := hread.2 hmin
  refine ⟨he, ?_⟩
  rw [ht, (htree t ht).1]
  rfl

end LineBasic.Expr
