import LineBasic.Proofs.Expr.Reader

/-!
# Reading from a queue

Whatever the tokens and the precedence, reading an expression takes tokens off
the front, at least one if there are any, and fails with a syntax error if at
all (`draws_read`).  Below zero it always fails, as nothing stops it before the
end of the tokens (`read_of_neg`).

`Yields` says what is done to a queue on the way: each token is popped, and the
one that ends an expression is put back; behind the last token there are only
ends.  A reading goes on for finitely many steps, and comes to what `read` says
(`yields_iff`).
-/

namespace LineBasic

theorem Token.precedence_nonneg (t : Token) : 0 ≤ t.precedence := by
  unfold precedence
  split
  · exact Int.natCast_nonneg _
  · exact le_rfl

namespace Expr

variable {ts : List Token}

/-! ### Tokens taken and left -/

/-- What is left after a reading of `ts` is a part of its end, without the first
token, and the only fault is a syntax error. -/
structure Draws (ts : List Token) (x : Except Fault Expr × List Token) : Prop where
  suffix : x.2 <:+ ts.tail
  fault : ∀ f, x.1 = .error f → f = .syntaxError

/-- Fewer than `n` tokens are drawn from the front. -/
def DrawsBelow (n : Nat) : Prop :=
  ∀ ts : List Token, ts.length < n → ∀ p, Draws ts (read p ts)

theorem fault_of_ofNumeral {s : String} {f : Fault} (h : ofNumeral s = .error f) :
    f = .syntaxError := by
  unfold ofNumeral at h
  split at h
  · cases h
  · cases h
    rfl

theorem draws_factor (hbelow : DrawsBelow ts.length) : Draws ts (factor ts) := by
  cases ts with
  | nil =>
      rw [factor_nil]
      exact ⟨List.suffix_rfl, by simp [eq_comm]⟩
  | cons t ts =>
      have hread (p : Int) : Draws ts (read p ts) := hbelow ts (by simp) p
      have htail : ts.tail <:+ ts := List.tail_suffix ts
      obtain ⟨kind, s⟩ := t
      cases kind with
      | number =>
          rw [factor_number]
          exact ⟨List.suffix_rfl, fun f => fault_of_ofNumeral⟩
      | word =>
          rw [factor_word]
          exact ⟨List.suffix_rfl, by simp⟩
      | operator =>
          by_cases hparen : s = "("
          · subst hparen
            rw [factor_paren]
            match read 0 ts, hread 0 with
            | (.ok e, []), _ => exact ⟨List.nil_suffix, by simp [eq_comm]⟩
            | (.ok e, t :: rest), hinner =>
                refine ⟨(List.suffix_cons t rest).trans (hinner.suffix.trans htail), ?_⟩
                dsimp only
                split_ifs
                · simp
                · simp [eq_comm]
            | (.error f, rest), hinner => exact ⟨hinner.suffix.trans htail, hinner.fault⟩
          by_cases hminus : s = "-"
          · subst hminus
            have hinner := hread Level.factor.precedence
            rw [read_factor] at hinner
            rw [factor_minus]
            match factor ts, hinner with
            | (.ok e, rest), hinner => exact ⟨hinner.suffix.trans htail, by simp⟩
            | (.error f, rest), hinner => exact ⟨hinner.suffix.trans htail, hinner.fault⟩
          · rw [factor_operator hparen hminus]
            exact ⟨List.suffix_rfl, by simp [eq_comm]⟩

/-- The loop along the operators may leave all the tokens. -/
theorem suffix_operators (p : Int) (lhs : Expr) (ts : List Token)
    (hbelow : DrawsBelow ts.length) :
    (operators p lhs ts).2 <:+ ts ∧
      ∀ f, (operators p lhs ts).1 = .error f → f = .syntaxError := by
  induction hn : ts.length using Nat.strong_induction_on generalizing ts lhs with
  | _ n ih =>
    cases ts with
    | nil =>
        rw [operators_nil]
        refine ⟨List.suffix_rfl, ?_⟩
        dsimp only
        split_ifs
        · simp
        · simp [eq_comm]
    | cons t ts =>
        have hright := hbelow ts (by simp) t.rightPrecedence
        rw [operators_cons]
        split_ifs
        · exact ⟨List.suffix_rfl, by simp⟩
        · match read t.rightPrecedence ts, hright with
          | (.error f, rest), hright =>
              exact ⟨(hright.suffix.trans (List.tail_suffix ts)).trans (List.suffix_cons t ts),
                hright.fault⟩
          | (.ok rhs, rest), hright =>
              have hrest : rest <:+ ts := hright.suffix.trans (List.tail_suffix ts)
              have hlen := hrest.length_le
              have hlt : rest.length < n := by
                rw [List.length_cons] at hn
                omega
              obtain ⟨hsuffix, hfault⟩ := ih rest.length hlt _ rest
                (fun us hus => hbelow us (by rw [List.length_cons]; omega)) rfl
              exact ⟨(hsuffix.trans hrest).trans (List.suffix_cons t ts), hfault⟩

/-- Reading takes tokens off the front, and the first one in any case. -/
theorem draws_read (p : Int) (ts : List Token) : Draws ts (read p ts) := by
  induction hn : ts.length using Nat.strong_induction_on generalizing ts p with
  | _ n ih =>
    have hbelow : DrawsBelow ts.length := fun us hus q => ih us.length (hn ▸ hus) q us rfl
    rw [read_eq]
    match factor ts, draws_factor hbelow with
    | (.error f, rest), hfactor => exact hfactor
    | (.ok e, rest), hfactor =>
        have hrest : rest <:+ ts := hfactor.suffix.trans (List.tail_suffix ts)
        have hlen := hrest.length_le
        obtain ⟨hsuffix, hfault⟩ :=
          suffix_operators p e rest fun us hus => hbelow us (by omega)
        exact ⟨hsuffix.trans hfactor.suffix, hfault⟩

theorem Draws.length_lt {x : Except Fault Expr × List Token} (h : Draws ts x) (hne : ts ≠ []) :
    x.2.length < ts.length := by
  have hle := h.suffix.length_le
  have hpos := List.length_pos_iff.2 hne
  rw [List.length_tail] at hle
  omega

/-! ### Below zero -/

/-- Below zero every token is taken for an operator, and so is the end. -/
theorem operators_of_neg {p : Int} (hp : p < 0) (lhs : Expr) (ts : List Token) :
    ∃ f, (operators p lhs ts).1 = .error f := by
  induction hn : ts.length using Nat.strong_induction_on generalizing ts lhs with
  | _ n ih =>
    cases ts with
    | nil =>
        rw [operators_nil, if_neg (by simpa [Token.endPrecedence] using hp)]
        exact ⟨_, rfl⟩
    | cons t ts =>
        have hprecedence := t.precedence_nonneg
        have hright := draws_read t.rightPrecedence ts
        rw [operators_cons, if_neg (by omega)]
        match read t.rightPrecedence ts, hright with
        | (.error f, rest), _ => exact ⟨f, rfl⟩
        | (.ok rhs, rest), hright =>
            have hlen : rest.length ≤ ts.length :=
              (hright.suffix.trans (List.tail_suffix ts)).length_le
            have hlt : rest.length < n := by
              rw [List.length_cons] at hn
              omega
            exact ih rest.length hlt _ rest rfl

theorem read_of_neg {p : Int} (hp : p < 0) (ts : List Token) :
    (read p ts).1 = .error .syntaxError := by
  have hfails : ∃ f, (read p ts).1 = .error f := by
    rw [read_eq]
    match factor ts with
    | (.error f, rest) => exact ⟨f, rfl⟩
    | (.ok e, rest) => exact operators_of_neg hp e rest
  obtain ⟨f, hf⟩ := hfails
  rw [hf, (draws_read p ts).fault f hf]

end Expr

/-! ### Token by token -/

theorem TokenQueue.pop_eq_some {q q' : TokenQueue} {t : Token} (h : q.pop = (some t, q')) :
    q = ⟨q'.line, t :: q'.pending⟩ := by
  obtain ⟨hpeek, rfl⟩ := Prod.mk.inj h
  rw [List.cons_head?_tail hpeek]

theorem TokenQueue.putBack_pop {q q' : TokenQueue} {t : Option Token} (h : q.pop = (t, q')) :
    q'.putBack t = q := by
  obtain ⟨rfl, rfl⟩ := Prod.mk.inj h
  obtain ⟨line, ts⟩ := q
  cases ts with
  | nil => rfl
  | cons t ts => rfl

namespace Token

/-- What is popped may be the end, which has no text. -/
def text? (t : Option Token) : String :=
  t.elim "" text

def precedence? (t : Option Token) : Int :=
  t.elim endPrecedence precedence

/-- The precedence at which to read on behind what was popped. -/
def rightPrecedence? (t : Option Token) : Int :=
  t.elim endPrecedence rightPrecedence

end Token

namespace Expr

open Token (text? precedence? rightPrecedence?)

/-- What is to be read: a factor, an expression, or the operators behind one. -/
inductive Task
  | factor
  | expression (p : Int)
  | operators (p : Int) (lhs : Expr)

/-- The task, given the queue, comes to a result and leaves the queue in the state
given last. -/
inductive Yields : Task → TokenQueue → Except Fault Expr → TokenQueue → Prop
  | exhausted {q q' : TokenQueue} : q.pop = (none, q') →
      Yields .factor q (.error .syntaxError) q'
  | number {q q' : TokenQueue} {s : String} : q.pop = (some ⟨.number, s⟩, q') →
      Yields .factor q (ofNumeral s) q'
  | word {q q' : TokenQueue} {s : String} : q.pop = (some ⟨.word, s⟩, q') →
      Yields .factor q (.ok (var s)) q'
  | paren {q q₁ q₂ q' : TokenQueue} {e : Expr} {t : Option Token} :
      q.pop = (some ⟨.operator, "("⟩, q₁) → Yields (.expression 0) q₁ (.ok e) q₂ →
      q₂.pop = (t, q') →
      Yields .factor q (if text? t = ")" then .ok e else .error .syntaxError) q'
  | parenFault {q q₁ q' : TokenQueue} {f : Fault} :
      q.pop = (some ⟨.operator, "("⟩, q₁) → Yields (.expression 0) q₁ (.error f) q' →
      Yields .factor q (.error f) q'
  | minus {q q₁ q' : TokenQueue} {e : Expr} :
      q.pop = (some ⟨.operator, "-"⟩, q₁) → Yields .factor q₁ (.ok e) q' →
      Yields .factor q (.ok e.neg) q'
  | minusFault {q q₁ q' : TokenQueue} {f : Fault} :
      q.pop = (some ⟨.operator, "-"⟩, q₁) → Yields .factor q₁ (.error f) q' →
      Yields .factor q (.error f) q'
  | misplaced {q q' : TokenQueue} {s : String} : q.pop = (some ⟨.operator, s⟩, q') →
      s ≠ "(" → s ≠ "-" → Yields .factor q (.error .syntaxError) q'
  | expression {q q₁ q' : TokenQueue} {p : Int} {e : Expr} {r : Except Fault Expr} :
      Yields .factor q (.ok e) q₁ → Yields (.operators p e) q₁ r q' →
      Yields (.expression p) q r q'
  | expressionFault {q q' : TokenQueue} {p : Int} {f : Fault} :
      Yields .factor q (.error f) q' → Yields (.expression p) q (.error f) q'
  | leave {q q₁ : TokenQueue} {p : Int} {lhs : Expr} {t : Option Token} : q.pop = (t, q₁) →
      precedence? t ≤ p → Yields (.operators p lhs) q (.ok lhs) (q₁.putBack t)
  | join {q q₁ q₂ q' : TokenQueue} {p : Int} {lhs rhs : Expr} {t : Option Token}
      {r : Except Fault Expr} : q.pop = (t, q₁) → ¬ precedence? t ≤ p →
      Yields (.expression (rightPrecedence? t)) q₁ (.ok rhs) q₂ →
      Yields (.operators p (binary (.ofSymbol (text? t)) lhs rhs)) q₂ r q' →
      Yields (.operators p lhs) q r q'
  | joinFault {q q₁ q' : TokenQueue} {p : Int} {lhs : Expr} {t : Option Token} {f : Fault} :
      q.pop = (t, q₁) → ¬ precedence? t ≤ p →
      Yields (.expression (rightPrecedence? t)) q₁ (.error f) q' →
      Yields (.operators p lhs) q (.error f) q'

/-- The result of a task on the pending tokens, and the tokens left. -/
def Task.outcome : Task → List Token → Except Fault Expr × List Token
  | factor => Expr.factor
  | expression p => read p
  | operators p lhs => Expr.operators p lhs

/-- The end is met like a token: there is nothing to read behind it. -/
theorem operators_eq (p : Int) (lhs : Expr) (ts : List Token) :
    operators p lhs ts =
      if precedence? ts.head? ≤ p then (.ok lhs, ts)
      else
        match read (rightPrecedence? ts.head?) ts.tail with
        | (.ok rhs, rest) => operators p (binary (.ofSymbol (text? ts.head?)) lhs rhs) rest
        | (.error f, rest) => (.error f, rest) := by
  cases ts with
  | nil =>
      rw [operators_nil, List.tail_nil, read_eq, factor_nil]
      by_cases hend : Token.endPrecedence ≤ p
      · rw [if_pos hend]
        exact (if_pos hend).symm
      · rw [if_neg hend]
        exact (if_neg hend).symm
  | cons t ts => exact operators_cons p lhs t ts

theorem factor_paren_eq (ts : List Token) :
    factor (⟨.operator, "("⟩ :: ts) =
      match read 0 ts with
      | (.ok e, rest) =>
        (if text? rest.head? = ")" then .ok e else .error .syntaxError, rest.tail)
      | (.error f, rest) => (.error f, rest) := by
  rw [factor_paren]
  match read 0 ts with
  | (.ok e, []) => rfl
  | (.ok e, t :: rest) => rfl
  | (.error f, rest) => rfl

variable {k : Task} {q q' : TokenQueue} {r : Except Fault Expr}

/-- A task that is finished has come to its outcome. -/
theorem Yields.outcome_eq (h : Yields k q r q') :
    k.outcome q.pending = (r, q'.pending) ∧ q'.line = q.line := by
  induction h with
  | @exhausted q q' hpop =>
      obtain ⟨hpeek, rfl⟩ := Prod.mk.inj hpop
      have hnil : q.pending = [] := List.head?_eq_none_iff.1 hpeek
      refine ⟨?_, rfl⟩
      rw [hnil]
      exact factor_nil
  | number hpop =>
      obtain rfl := TokenQueue.pop_eq_some hpop
      exact ⟨factor_number _ _, rfl⟩
  | word hpop =>
      obtain rfl := TokenQueue.pop_eq_some hpop
      exact ⟨factor_word _ _, rfl⟩
  | @paren q q₁ q₂ q' e t hpop _ hpop' ih =>
      obtain rfl := TokenQueue.pop_eq_some hpop
      obtain ⟨rfl, rfl⟩ := Prod.mk.inj hpop'
      refine ⟨(factor_paren_eq q₁.pending).trans ?_, ih.2⟩
      rw [show read 0 q₁.pending = _ from ih.1]
      rfl
  | @parenFault q q₁ q' f hpop _ ih =>
      obtain rfl := TokenQueue.pop_eq_some hpop
      refine ⟨(factor_paren_eq q₁.pending).trans ?_, ih.2⟩
      rw [show read 0 q₁.pending = _ from ih.1]
  | @minus q q₁ q' e hpop _ ih =>
      obtain rfl := TokenQueue.pop_eq_some hpop
      refine ⟨(factor_minus q₁.pending).trans ?_, ih.2⟩
      rw [show factor q₁.pending = _ from ih.1]
  | @minusFault q q₁ q' f hpop _ ih =>
      obtain rfl := TokenQueue.pop_eq_some hpop
      refine ⟨(factor_minus q₁.pending).trans ?_, ih.2⟩
      rw [show factor q₁.pending = _ from ih.1]
  | misplaced hpop hparen hminus =>
      obtain rfl := TokenQueue.pop_eq_some hpop
      exact ⟨factor_operator hparen hminus _, rfl⟩
  | @expression q q₁ q' p e r _ _ ih ih' =>
      refine ⟨(read_eq p q.pending).trans ?_, ih'.2.trans ih.2⟩
      rw [show factor q.pending = _ from ih.1]
      exact ih'.1
  | @expressionFault q q' p f _ ih =>
      refine ⟨(read_eq p q.pending).trans ?_, ih.2⟩
      rw [show factor q.pending = _ from ih.1]
  | @leave q q₁ p lhs t hpop hle =>
      rw [TokenQueue.putBack_pop hpop]
      obtain ⟨rfl, rfl⟩ := Prod.mk.inj hpop
      exact ⟨(operators_eq p lhs q.pending).trans (if_pos hle), rfl⟩
  | @join q q₁ q₂ q' p lhs rhs t r hpop hlt _ _ ih ih' =>
      obtain ⟨rfl, rfl⟩ := Prod.mk.inj hpop
      refine ⟨((operators_eq p lhs q.pending).trans (if_neg hlt)).trans ?_, ih'.2.trans ih.2⟩
      rw [show read (rightPrecedence? q.pending.head?) q.pending.tail = _ from ih.1]
      exact ih'.1
  | @joinFault q q₁ q' p lhs t f hpop hlt _ ih =>
      obtain ⟨rfl, rfl⟩ := Prod.mk.inj hpop
      refine ⟨((operators_eq p lhs q.pending).trans (if_neg hlt)).trans ?_, ih.2⟩
      rw [show read (rightPrecedence? q.pending.head?) q.pending.tail = _ from ih.1]

/-! ### Every reading ends -/

/-- Any task ends on a queue with fewer than `n` tokens. -/
def EndsBelow (n : Nat) : Prop :=
  ∀ q : TokenQueue, q.pending.length < n → ∀ k, ∃ r q', Yields k q r q'

theorem yields_expression_of_nil (h : q.pending = []) (p : Int) :
    Yields (.expression p) q (.error .syntaxError) q.pop.2 := by
  refine .expressionFault (.exhausted (Prod.ext ?_ rfl))
  exact List.head?_eq_none_iff.2 h

theorem exists_yields_factor (hbelow : EndsBelow q.pending.length) :
    ∃ r q', Yields .factor q r q' := by
  cases hpop : q.pop with
  | mk t q₁ =>
      cases t with
      | none => exact ⟨_, _, .exhausted hpop⟩
      | some t =>
          have hlt : q₁.pending.length < q.pending.length := by
            rw [TokenQueue.pop_eq_some hpop]
            simp
          obtain ⟨kind, s⟩ := t
          cases kind with
          | number => exact ⟨_, _, .number hpop⟩
          | word => exact ⟨_, _, .word hpop⟩
          | operator =>
              by_cases hparen : s = "("
              · subst hparen
                obtain ⟨r, q₂, hinner⟩ := hbelow q₁ hlt (.expression 0)
                cases r with
                | ok e => exact ⟨_, _, .paren hpop hinner rfl⟩
                | error f => exact ⟨_, _, .parenFault hpop hinner⟩
              by_cases hminus : s = "-"
              · subst hminus
                obtain ⟨r, q₂, hinner⟩ := hbelow q₁ hlt .factor
                cases r with
                | ok e => exact ⟨_, _, .minus hpop hinner⟩
                | error f => exact ⟨_, _, .minusFault hpop hinner⟩
              · exact ⟨_, _, .misplaced hpop hparen hminus⟩

theorem exists_yields_expression (hbelow : EndsBelow q.pending.length) (p : Int) :
    ∃ r q', Yields (.expression p) q r q' := by
  obtain ⟨r, q₁, hfactor⟩ := exists_yields_factor hbelow
  cases r with
  | error f => exact ⟨_, _, .expressionFault hfactor⟩
  | ok e =>
      by_cases hnil : q.pending = []
      · exact ⟨_, _, yields_expression_of_nil hnil p⟩
      · have hdraws := draws_factor fun ts (_ : ts.length < q.pending.length) p => draws_read p ts
        rw [show factor q.pending = _ from hfactor.outcome_eq.1] at hdraws
        obtain ⟨r, q', hoperators⟩ := hbelow q₁ (hdraws.length_lt hnil) (.operators p e)
        exact ⟨r, q', .expression hfactor hoperators⟩

theorem exists_yields_operators (hbelow : EndsBelow q.pending.length) (p : Int) (lhs : Expr) :
    ∃ r q', Yields (.operators p lhs) q r q' := by
  by_cases hle : precedence? q.pop.1 ≤ p
  · exact ⟨_, _, .leave rfl hle⟩
  by_cases hnil : q.pending = []
  · have hnil' : q.pop.2.pending = [] := by
      change q.pending.tail = []
      rw [hnil, List.tail_nil]
    exact ⟨_, _, .joinFault rfl hle (yields_expression_of_nil hnil' _)⟩
  · have hlt : q.pop.2.pending.length < q.pending.length := by
      change q.pending.tail.length < q.pending.length
      have hpos := List.length_pos_iff.2 hnil
      rw [List.length_tail]
      omega
    obtain ⟨r, q₂, hright⟩ := hbelow q.pop.2 hlt (.expression (rightPrecedence? q.pop.1))
    cases r with
    | error f => exact ⟨_, _, .joinFault rfl hle hright⟩
    | ok rhs =>
        have hdraws := draws_read (rightPrecedence? q.pop.1) q.pop.2.pending
        rw [show read _ q.pop.2.pending = _ from hright.outcome_eq.1] at hdraws
        have hle₂ : q₂.pending.length ≤ q.pop.2.pending.length :=
          (hdraws.suffix.trans (List.tail_suffix _)).length_le
        obtain ⟨r, q', hmore⟩ := hbelow q₂ (by omega)
          (.operators p (binary (.ofSymbol (text? q.pop.1)) lhs rhs))
        exact ⟨r, q', .join rfl hle hright hmore⟩

theorem exists_yields (k : Task) (q : TokenQueue) : ∃ r q', Yields k q r q' := by
  induction hn : q.pending.length using Nat.strong_induction_on generalizing k q with
  | _ n ih =>
    have hbelow : EndsBelow q.pending.length :=
      fun q' hlt k => ih q'.pending.length (hn ▸ hlt) k q' rfl
    cases k with
    | factor => exact exists_yields_factor hbelow
    | expression p => exact exists_yields_expression hbelow p
    | operators p lhs => exact exists_yields_operators hbelow p lhs

/-- Every task ends, in one way, and that is its outcome. -/
theorem yields_iff :
    Yields k q r q' ↔
      r = (k.outcome q.pending).1 ∧ q' = { q with pending := (k.outcome q.pending).2 } := by
  have heq {r : Except Fault Expr} {q' : TokenQueue} (h : Yields k q r q') :
      r = (k.outcome q.pending).1 ∧ q' = { q with pending := (k.outcome q.pending).2 } := by
    obtain ⟨houtcome, hline⟩ := h.outcome_eq
    rw [houtcome, ← hline]
    exact ⟨rfl, rfl⟩
  refine ⟨heq, ?_⟩
  rintro ⟨rfl, rfl⟩
  obtain ⟨r, q', h⟩ := exists_yields k q
  obtain ⟨rfl, rfl⟩ := heq h
  exact h

/-- For every queue and every precedence a reading, token by token, ends in one
way, with the result and the tokens that `read` gives, whether it succeeds or
not.  Those tokens are the end of the queue, without its first token at least,
and below precedence zero the result is a syntax error. -/
theorem reading_draws_from_front (p : Int) (q : TokenQueue) :
    let x := read p q.pending
    (∀ r q', Yields (.expression p) q r q' ↔ r = x.1 ∧ q' = { q with pending := x.2 }) ∧
      x.2 <:+ q.pending ∧ (q.pending ≠ [] → x.2.length < q.pending.length) ∧
      (p < 0 → x.1 = .error .syntaxError) := by
  intro x
  have hdraws : Draws q.pending x := draws_read p q.pending
  exact ⟨fun r q' => yields_iff, hdraws.suffix.trans (List.tail_suffix _), hdraws.length_lt,
    fun hp => read_of_neg hp q.pending⟩

/-- Below zero even an expression that takes all the tokens is refused, for the end
behind it is taken for an operator. -/
theorem reading_draws_from_front_below_zero :
    let q : TokenQueue := ⟨Text.ofString "X+1", [⟨.word, "X"⟩, ⟨.operator, "+"⟩, ⟨.number, "1"⟩]⟩
    ∃ q', Yields (.expression (-1)) q (.error .syntaxError) q' ∧ q'.line = q.line ∧
      q'.pending.length < 3 := by
  intro q
  obtain ⟨hyields, -, hshorter, hfails⟩ := reading_draws_from_front (-1) q
  exact ⟨_, (hyields _ _).2 ⟨(hfails (by decide)).symm, rfl⟩, rfl, hshorter (by simp [q])⟩

end Expr

end LineBasic
