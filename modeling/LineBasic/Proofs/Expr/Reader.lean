import LineBasic.Proofs.Expr.Grammar
import Mathlib.Data.Int.Order.Basic
import Mathlib.Data.List.Basic

/-!
# Reading follows the grammar

Reading at the precedence of a level takes from the front of the tokens what
the level derives, as far as it goes, and gives the tree of the derivation; where
there is nothing of the kind it is a syntax error (`read_reads`).  Conversely,
what a level derives is read (`Derives.readAs`), so derivations are unique.

The loop along the operators holds a tree that is already derived from some
level.  Whatever operator comes next can have that tree as its left operand: it
binds no tighter than the operator before it allowed.
-/

namespace LineBasic

/-! ### Operators and levels -/

namespace Op

/-- The level of the left operand. -/
def left : Op → Expr.Level
  | mul | div => .term
  | _ => .sum

/-- The level of the right operand. -/
def right : Op → Expr.Level
  | mul | div => .factor
  | add | sub => .term
  | _ => .assignment

/-- The level of the operator with its operands. -/
def level : Op → Expr.Level
  | mul | div => .term
  | add | sub => .sum
  | _ => .assignment

variable {op : Op}

theorem ofSymbol_symbol (h : 0 < op.precedence) : ofSymbol op.symbol = op := by
  cases op with
  | other s => simp [precedence] at h
  | _ => rfl

theorem precedence_token (h : 0 < op.precedence) : op.token.precedence = op.precedence := by
  rw [Token.precedence, token, ofSymbol_symbol h]

theorem rightPrecedence_token (h : 0 < op.precedence) :
    op.token.rightPrecedence = op.right.precedence := by
  cases op with
  | other s => simp [precedence] at h
  | _ => rfl

/-- The operator binds one tighter than the level it makes. -/
theorem precedence_eq_level (h : 0 < op.precedence) :
    (op.precedence : Int) = op.level.precedence + 1 := by
  cases op with
  | other s => simp [precedence] at h
  | _ => rfl

theorem level_le_left (op : Op) : op.level.precedence ≤ op.left.precedence := by
  cases op <;> simp [level, left, Expr.Level.precedence]

theorem left_le_factor (op : Op) : op.left.precedence ≤ Expr.Level.factor.precedence := by
  cases op <;> simp [left, Expr.Level.precedence]

/-- An operator that may stand behind the right operand of another takes what
that one makes as its left operand. -/
theorem left_le_level {next : Op} (h : 0 < op.precedence) (hnext : 0 < next.precedence)
    (hle : (next.precedence : Int) ≤ op.right.precedence) :
    next.left.precedence ≤ op.level.precedence := by
  cases op <;> cases next <;> revert h hnext hle <;> simp [precedence, right, left, level,
    Expr.Level.precedence]

end Op

namespace Token

/-- A token that binds is one of the operators. -/
theorem exists_op_of_precedence_pos {t : Token} (h : 0 < t.precedence) :
    ∃ op : Op, t = op.token ∧ 0 < op.precedence := by
  obtain ⟨kind, text⟩ := t
  cases kind with
  | operator =>
      refine ⟨.ofSymbol text, ?_, by simpa [precedence] using h⟩
      rw [Op.token, Op.symbol_ofSymbol]
  | word => simp [precedence] at h
  | number => simp [precedence] at h

theorem precedence_le (t : Token) : t.precedence ≤ 3 := by
  unfold precedence
  split
  · cases Op.ofSymbol t.text <;> simp [Op.precedence]
  · decide

end Token

namespace Expr

open Token (leftParen rightParen)

variable {l k : Level} {u v w ts r : List Token} {e a b : Expr} {op : Op}

theorem Level.precedence_nonneg (l : Level) : 0 ≤ l.precedence := by
  cases l <;> decide

theorem Derives.binary (hop : 0 < op.precedence) (hu : Derives op.left u a)
    (hv : Derives op.right v b) : Derives op.level (u ++ op.token :: v) (.binary op a b) := by
  cases op with
  | add => exact .sum (.inl rfl) hu hv
  | sub => exact .sum (.inr rfl) hu hv
  | mul => exact .product (.inl rfl) hu hv
  | div => exact .product (.inr rfl) hu hv
  | assign => exact .assignment hu hv
  | other s => simp [Op.precedence] at hop

/-! ### The loop along the operators -/

theorem operators_of_stops (h : Stops l r) (e : Expr) :
    operators l.precedence e r = (.ok e, r) := by
  cases r with
  | nil =>
      have hend : Token.endPrecedence ≤ l.precedence := l.precedence_nonneg
      rw [operators_nil, if_pos hend]
  | cons t r => rw [operators_cons, if_pos (h t rfl)]

theorem operators_op (hop : 0 < op.precedence) (hl : l.precedence ≤ op.level.precedence)
    (a : Expr) (ts : List Token) :
    operators l.precedence a (op.token :: ts) =
      match read op.right.precedence ts with
      | (.ok b, rest) => operators l.precedence (.binary op a b) rest
      | (.error f, rest) => (.error f, rest) := by
  have hlt : ¬ op.token.precedence ≤ l.precedence := by
    rw [Op.precedence_token hop, Op.precedence_eq_level hop]
    omega
  rw [operators_cons, if_neg hlt, Op.rightPrecedence_token hop]
  match read op.right.precedence ts with
  | (.ok b, rest) => simp only [Op.token, Op.ofSymbol_symbol hop]
  | (.error f, rest) => rfl

theorem stops_factor (r : List Token) : Stops .factor r :=
  fun t _ => t.precedence_le

/-- A factor is what is read at the tightest level. -/
theorem read_factor (ts : List Token) : read Level.factor.precedence ts = factor ts := by
  rw [read_eq]
  match factor ts with
  | (.ok e, rest) => exact operators_of_stops (stops_factor rest) e
  | (.error f, rest) => rfl

/-! ### What is read is derived -/

theorem ofNumeral_of_wellFormed {s : String} (h : (⟨.number, s⟩ : Token).WellFormed) :
    ofNumeral s =
      if Decimal.value s.toList ≤ 2147483647 then
        .ok (const (Int32.ofNat (Decimal.value s.toList)))
      else .error .syntaxError := by
  rw [ofNumeral, Value.ofNumeral?_of_isNatural h.isNatural]
  split_ifs <;> rfl

/-- What a reading may give: a front part that the level derives, as far as it
goes, or a syntax error. -/
inductive Reads (l : Level) (ts : List Token) : Except Fault Expr × List Token → Prop
  | ok {u r : List Token} {e : Expr} : ts = u ++ r → Derives l u e → Stops l r →
      Reads l ts (.ok e, r)
  | error (r : List Token) : Reads l ts (.error .syntaxError, r)

/-- Fewer than `n` tokens are read by the grammar. -/
def ReadsBelow (n : Nat) : Prop :=
  ∀ ts : List Token, ts.length < n → (∀ t ∈ ts, t.WellFormed) →
    ∀ l : Level, Reads l ts (read l.precedence ts)

theorem ReadsBelow.mono {m n : Nat} (h : ReadsBelow n) (hm : m ≤ n) : ReadsBelow m :=
  fun ts hlt => h ts (by omega)

theorem factor_reads (hbelow : ReadsBelow ts.length) (hts : ∀ t ∈ ts, t.WellFormed) :
    Reads .factor ts (factor ts) := by
  cases ts with
  | nil =>
      rw [factor_nil]
      exact .error _
  | cons t ts =>
      obtain ⟨ht, hrest⟩ := List.forall_mem_cons.1 hts
      have hread := hbelow ts (by simp) hrest
      obtain ⟨kind, s⟩ := t
      cases kind with
      | number =>
          rw [factor_number, ofNumeral_of_wellFormed ht]
          split_ifs with hle
          · exact .ok rfl (.number hle) (stops_factor ts)
          · exact .error _
      | word =>
          rw [factor_word]
          exact .ok rfl (.word s) (stops_factor ts)
      | operator =>
          by_cases hparen : s = "("
          · subst hparen
            rw [factor_paren]
            have hinner : Reads .assignment ts (read 0 ts) := hread .assignment
            generalize read 0 ts = x at hinner
            cases hinner with
            | error r => exact .error _
            | @ok u r e hu he _ =>
                cases r with
                | nil => exact .error _
                | cons t r =>
                    dsimp only
                    split_ifs with htext
                    · have hmem : t ∈ ts := by simp [hu]
                      obtain rfl : t = rightParen :=
                        (hrest t hmem).eq_of_text Token.wellFormed_rightParen htext
                      refine .ok ?_ (.paren he) (stops_factor r)
                      rw [hu]
                      simp [leftParen]
                    · exact .error _
          by_cases hminus : s = "-"
          · subst hminus
            have hinner := hread .factor
            rw [read_factor] at hinner
            rw [factor_minus]
            generalize factor ts = x at hinner
            cases hinner with
            | error r => exact .error _
            | ok hu he _ =>
                refine .ok ?_ (.minus he) (stops_factor _)
                rw [hu]
                rfl
          · rw [factor_operator hparen hminus]
            exact .error _

/-- The loop with a tree of the level `k`, which the next operator can take as
its left operand. -/
theorem operators_reads (hbelow : ReadsBelow ts.length) (hts : ∀ t ∈ ts, t.WellFormed)
    (ha : Derives k w a) (hl : l.precedence ≤ k.precedence)
    (hnext : ∀ op : Op, ts.head? = some op.token → 0 < op.precedence →
      op.left.precedence ≤ k.precedence) :
    Reads l (w ++ ts) (operators l.precedence a ts) := by
  induction hn : ts.length using Nat.strong_induction_on generalizing ts w a k with
  | _ n ih =>
    by_cases hstops : Stops l ts
    · rw [operators_of_stops hstops]
      exact .ok rfl (ha.weaken hl) hstops
    · simp only [Stops, not_forall] at hstops
      obtain ⟨t, hhead, hlt⟩ := hstops
      obtain ⟨ts, rfl⟩ : ∃ ts', ts = t :: ts' := ⟨ts.tail, by
        rw [List.cons_head?_tail]
        exact hhead⟩
      have hpos : 0 < t.precedence := by
        have := l.precedence_nonneg
        omega
      obtain ⟨op, rfl, hop⟩ := Token.exists_op_of_precedence_pos hpos
      obtain ⟨-, hts⟩ := List.forall_mem_cons.1 hts
      rw [Op.precedence_token hop, Op.precedence_eq_level hop] at hlt
      rw [operators_op hop (by omega)]
      have hright := hbelow ts (by simp) hts op.right
      generalize read op.right.precedence ts = x at hright
      cases hright with
      | error r => exact .error _
      | @ok v r b hv hb hr =>
          have hlen : r.length < n := by
            rw [← hn, hv, List.length_cons, List.length_append]
            omega
          have hrest : ∀ t ∈ r, t.WellFormed :=
            fun t ht => hts t (hv ▸ List.mem_append_right _ ht)
          have hjoined := (ha.weaken (hnext op rfl hop)).binary hop hb
          -- the right operand ended here, so the next operator binds no tighter than it allowed
          have hnext' : ∀ next : Op, r.head? = some next.token → 0 < next.precedence →
              next.left.precedence ≤ op.level.precedence := by
            intro next hhead hpos
            have hle := hr _ hhead
            rw [Op.precedence_token hpos] at hle
            exact Op.left_le_level hop hpos hle
          have hreads := ih r.length hlen (hbelow.mono (by omega)) hrest hjoined (by omega) hnext' rfl
          rwa [List.append_assoc, List.cons_append, ← hv] at hreads

/-- Every reading of well-formed tokens follows the grammar. -/
theorem read_reads (hts : ∀ t ∈ ts, t.WellFormed) (l : Level) :
    Reads l ts (read l.precedence ts) := by
  induction hn : ts.length using Nat.strong_induction_on generalizing ts l with
  | _ n ih =>
    have hbelow : ReadsBelow ts.length :=
      fun ts' hlt hts' l' => ih ts'.length (hn ▸ hlt) hts' l' rfl
    rw [read_eq]
    have hfactor := factor_reads hbelow hts
    generalize factor ts = x at hfactor
    cases hfactor with
    | error r => exact .error _
    | @ok u r e hu he _ =>
        have hrest : ∀ t ∈ r, t.WellFormed :=
          fun t ht => hts t (hu ▸ List.mem_append_right _ ht)
        have hreads := operators_reads (l := l) (hbelow.mono (by simp [hu])) hrest he
          (by cases l <;> decide) (fun op _ _ => op.left_le_factor)
        rwa [← hu] at hreads

/-! ### What is derived is read -/

/-- How tightly an operator may bind behind what the level derives.  One that
binds tighter would take a part of it as its operand. -/
def Level.follow : Level → Int
  | assignment => 0
  | sum => 2
  | term | factor => 3

theorem Level.follow_le {l k : Level} (h : l.precedence ≤ k.precedence) : l.follow ≤ k.follow := by
  cases l <;> cases k <;> revert h <;> decide

theorem Level.precedence_le_follow (l : Level) : l.precedence ≤ l.follow := by
  cases l <;> decide

/-- The tokens `u` are read as `e` at the level `l` and at every looser one, and
then the operators behind them are looked at. -/
def ReadAs (l : Level) (u : List Token) (e : Expr) : Prop :=
  ∀ (k : Level) (r : List Token), k.precedence ≤ l.precedence →
    (∀ t, r.head? = some t → t.precedence ≤ l.follow) →
      read k.precedence (u ++ r) = operators k.precedence e r

theorem ReadAs.weaken (h : ReadAs k u e) (hl : l.precedence ≤ k.precedence) : ReadAs l u e := by
  intro j r hj hr
  have hfollow := Level.follow_le hl
  exact h j r (hj.trans hl) fun t ht => (hr t ht).trans hfollow

theorem ReadAs.read_append (h : ReadAs l u e) (hr : Stops l r) :
    read l.precedence (u ++ r) = (.ok e, r) := by
  rw [h l r le_rfl fun t ht => (hr t ht).trans l.precedence_le_follow, operators_of_stops hr]

theorem ReadAs.factor_append (h : ReadAs .factor u e) (r : List Token) :
    factor (u ++ r) = (.ok e, r) := by
  rw [← read_factor, h.read_append (stops_factor r)]

theorem readAs_of_factor (h : ∀ r, factor (u ++ r) = (.ok e, r)) : ReadAs .factor u e := by
  intro k r _ _
  rw [read_eq, h]

/-- Two operands that are read are read with the operator between them. -/
theorem ReadAs.binary (op : Op) (hop : 0 < op.precedence) (hu : ReadAs op.left u a)
    (hv : ReadAs op.right v b) : ReadAs op.level (u ++ op.token :: v) (.binary op a b) := by
  have hleft : (op.precedence : Int) ≤ op.left.follow := by
    cases op <;> simp [Op.precedence, Op.left, Level.follow]
  have hright : op.level.follow ≤ op.right.precedence := by
    cases op <;> simp [Op.level, Op.right, Level.follow, Level.precedence]
  intro k r hk hr
  have hstops : Stops op.right r := fun t ht => (hr t ht).trans hright
  have hnext : ∀ t, (op.token :: (v ++ r)).head? = some t → t.precedence ≤ op.left.follow := by
    rintro t ⟨⟩
    rwa [Op.precedence_token hop]
  rw [List.append_assoc, List.cons_append, hu k _ (hk.trans op.level_le_left) hnext,
    operators_op hop hk, hv.read_append hstops]

/-- What a level derives is read so. -/
theorem Derives.readAs (h : Derives l u e) (hts : ∀ t ∈ u, t.WellFormed) : ReadAs l u e := by
  induction h with
  | number hle =>
      refine readAs_of_factor fun r => ?_
      rw [List.singleton_append, factor_number, ofNumeral_of_wellFormed (hts _ (by simp)),
        if_pos hle]
  | word x => exact readAs_of_factor fun r => factor_word x r
  | @paren u e _ ih =>
      have hinner : ReadAs .assignment u e := ih fun t ht => hts t (by simp [ht])
      refine readAs_of_factor fun r => ?_
      have hstops : Stops .assignment (rightParen :: r) := by
        rintro t ⟨⟩
        decide
      rw [List.cons_append, List.append_assoc, List.singleton_append, leftParen, factor_paren]
      have hread : read 0 (u ++ rightParen :: r) = (.ok e, rightParen :: r) :=
        hinner.read_append hstops
      rw [hread]
      rfl
  | minus _ ih =>
      have hinner := ih fun t ht => hts t (by simp [ht])
      refine readAs_of_factor fun r => ?_
      rw [List.cons_append, Op.token, Op.symbol, factor_minus, hinner.factor_append]
      rfl
  | ofFactor _ ih => exact (ih hts).weaken (by decide)
  | ofTerm _ ih => exact (ih hts).weaken (by decide)
  | ofSum _ ih => exact (ih hts).weaken (by decide)
  | product hop _ _ ihu ihv =>
      obtain ⟨hus, hvs⟩ := forall_mem_join hts
      rcases hop with rfl | rfl
      · exact ReadAs.binary .mul (by decide) (ihu hus) (ihv hvs)
      · exact ReadAs.binary .div (by decide) (ihu hus) (ihv hvs)
  | sum hop _ _ ihu ihv =>
      obtain ⟨hus, hvs⟩ := forall_mem_join hts
      rcases hop with rfl | rfl
      · exact ReadAs.binary .add (by decide) (ihu hus) (ihv hvs)
      · exact ReadAs.binary .sub (by decide) (ihu hus) (ihv hvs)
  | assignment _ _ ihu ihv =>
      obtain ⟨hus, hvs⟩ := forall_mem_join hts
      exact ReadAs.binary .assign (by decide) (ihu hus) (ihv hvs)

/-! ### Reading and deriving -/

/-- Reading at the precedence of a level succeeds exactly on what the level
derives, as far as it goes. -/
theorem read_eq_ok_iff (hts : ∀ t ∈ ts, t.WellFormed) :
    read l.precedence ts = (.ok e, r) ↔ ∃ u, ts = u ++ r ∧ Derives l u e ∧ Stops l r := by
  constructor
  · intro h
    have hreads := read_reads hts l
    rw [h] at hreads
    cases hreads with
    | ok hu he hr => exact ⟨_, hu, he, hr⟩
  · rintro ⟨u, rfl, he, hr⟩
    exact (he.readAs fun t ht => hts t (List.mem_append_left _ ht)).read_append hr

theorem fault_of_read (hts : ∀ t ∈ ts, t.WellFormed) {f : Fault}
    (h : read l.precedence ts = (.error f, r)) : f = .syntaxError := by
  have hreads := read_reads hts l
  rw [h] at hreads
  cases hreads with
  | error => rfl

theorem stops_nil (l : Level) : Stops l [] := by
  simp [Stops]

theorem parse_eq_ok_iff (hts : ∀ t ∈ ts, t.WellFormed) :
    parse ts = .ok e ↔ Derives .assignment ts e := by
  have hread : read 0 ts = (.ok e, []) ↔ Derives .assignment ts e := by
    rw [show (0 : Int) = Level.assignment.precedence from rfl, read_eq_ok_iff hts]
    simp [stops_nil]
  rw [← hread, parse]
  split
  · rename_i h
    simp [h]
  · rename_i h
    simpa using fun hok => h _ hok

theorem parse_eq_error (h : ∀ e, parse ts ≠ .ok e) : parse ts = .error .syntaxError := by
  unfold parse at h ⊢
  split
  · rename_i hread
    exact absurd (by rw [hread]) (h _)
  · rfl

/-- On the tokens of any line, reading at a level succeeds exactly when the level
derives a front part behind which no operator could be taken in, and gives the
tree of the derivation and the tokens behind it; these are unique.  An expression
is parsed exactly when all the tokens are an assignment, and anything else is a
syntax error. -/
theorem reading_iff_derivation (line : Bytes) :
    (∀ (l : Level) (e : Expr) (r : List Token),
      read l.precedence (Token.ofLine line) = (.ok e, r) ↔
        ∃ u, Token.ofLine line = u ++ r ∧ Derives l u e ∧ Stops l r) ∧
    (∀ (l : Level) (u u' : List Token) (e e' : Expr) (r r' : List Token),
      Token.ofLine line = u ++ r → Derives l u e → Stops l r →
      Token.ofLine line = u' ++ r' → Derives l u' e' → Stops l r' →
        u = u' ∧ e = e' ∧ r = r') ∧
    (∀ e, parse (Token.ofLine line) = .ok e ↔ Derives .assignment (Token.ofLine line) e) ∧
    (parse (Token.ofLine line) = .error .syntaxError ↔
      ∀ e, ¬ Derives .assignment (Token.ofLine line) e) := by
  have hts : ∀ t ∈ Token.ofLine line, t.WellFormed := fun t ht => Token.wellFormed_of_mem_ofLine ht
  refine ⟨fun l e r => read_eq_ok_iff hts, ?_, fun e => parse_eq_ok_iff hts, ?_⟩
  · intro l u u' e e' r r' hu he hr hu' he' hr'
    have hread := (read_eq_ok_iff hts).2 ⟨u, hu, he, hr⟩
    have hread' := (read_eq_ok_iff hts).2 ⟨u', hu', he', hr'⟩
    rw [hread, Prod.mk.injEq, Except.ok.injEq] at hread'
    obtain ⟨rfl, rfl⟩ := hread'
    exact ⟨List.append_cancel_right (hu.symm.trans hu'), rfl, rfl⟩
  · simp only [← parse_eq_ok_iff hts]
    exact ⟨fun h e he => by simp [he] at h, parse_eq_error⟩

end Expr

end LineBasic
