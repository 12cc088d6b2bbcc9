import LineBasic.Expr.Parser
import LineBasic.Proofs.Token

/-!
# The grammar of expressions

Four levels, from the loosest to the tightest:

    assignment ::= sum | sum '=' assignment
    sum        ::= term | sum ('+' | '-') term
    term       ::= factor | term ('*' | '/') factor
    factor     ::= number | word | '(' assignment ')' | '-' factor

`Derives l u e` says that the tokens `u` are derived from the level `l`, with
the tree `e`.  The number of a level is the precedence at which it is read.
-/

namespace LineBasic

/-- The operator as it stands in a line. -/
def Op.token (op : Op) : Token :=
  ⟨.operator, op.symbol⟩

namespace Token

def leftParen : Token := ⟨.operator, "("⟩

def rightParen : Token := ⟨.operator, ")"⟩

theorem wellFormed_rightParen : rightParen.WellFormed :=
  ⟨')', [], by decide, by decide, by simp⟩

/-- Whether `=` stands in parentheses only, `depth` of them being open before
the tokens. -/
def assignsInParens (depth : Nat) : List Token → Bool
  | [] => true
  | t :: ts =>
    if t = leftParen then assignsInParens (depth + 1) ts
    else if t = rightParen then assignsInParens (depth - 1) ts
    else (t ≠ Op.assign.token || 0 < depth) && assignsInParens depth ts

end Token

namespace Expr

open Token (leftParen rightParen)

inductive Level
  | assignment
  | sum
  | term
  | factor
deriving DecidableEq, Repr

def Level.precedence : Level → Int
  | assignment => 0
  | sum => 1
  | term => 2
  | factor => 3

inductive Derives : Level → List Token → Expr → Prop
  | number {s : String} : Decimal.value s.toList ≤ 2147483647 →
      Derives .factor [⟨.number, s⟩] (const (Int32.ofNat (Decimal.value s.toList)))
  | word (x : String) : Derives .factor [⟨.word, x⟩] (var x)
  | paren {u : List Token} {e : Expr} : Derives .assignment u e →
      Derives .factor (leftParen :: (u ++ [rightParen])) e
  | minus {u : List Token} {e : Expr} : Derives .factor u e →
      Derives .factor (Op.sub.token :: u) (binary .sub (const 0) e)
  | ofFactor {u : List Token} {e : Expr} : Derives .factor u e → Derives .term u e
  | product {u v : List Token} {a b : Expr} {op : Op} : op = .mul ∨ op = .div →
      Derives .term u a → Derives .factor v b →
        Derives .term (u ++ op.token :: v) (binary op a b)
  | ofTerm {u : List Token} {e : Expr} : Derives .term u e → Derives .sum u e
  | sum {u v : List Token} {a b : Expr} {op : Op} : op = .add ∨ op = .sub →
      Derives .sum u a → Derives .term v b →
        Derives .sum (u ++ op.token :: v) (binary op a b)
  | ofSum {u : List Token} {e : Expr} : Derives .sum u e → Derives .assignment u e
  | assignment {u v : List Token} {a b : Expr} :
      Derives .sum u a → Derives .assignment v b →
        Derives .assignment (u ++ Op.assign.token :: v) (binary .assign a b)

/-- What follows does not begin with an operator that would be taken in at the
level. -/
def Stops (l : Level) (r : List Token) : Prop :=
  ∀ t, r.head? = some t → t.precedence ≤ l.precedence

variable {l k : Level} {u v w : List Token} {e a b : Expr}

/-- What a tighter level derives is derived from a looser one. -/
theorem Derives.weaken (h : Derives k u e) (hl : l.precedence ≤ k.precedence) :
    Derives l u e := by
  cases k with
  | assignment =>
      cases l with
      | assignment => exact h
      | _ => exact absurd hl (by decide)
  | sum =>
      cases l with
      | assignment => exact .ofSum h
      | sum => exact h
      | _ => exact absurd hl (by decide)
  | term =>
      cases l with
      | assignment => exact .ofSum (.ofTerm h)
      | sum => exact .ofTerm h
      | term => exact h
      | factor => exact absurd hl (by decide)
  | factor =>
      cases l with
      | assignment => exact .ofSum (.ofTerm (.ofFactor h))
      | sum => exact .ofTerm (.ofFactor h)
      | term => exact .ofFactor h
      | factor => exact h

/-! ### What derived tokens look like -/

theorem forall_mem_join {P : Token → Prop} {op : Op} (h : ∀ t ∈ u ++ op.token :: v, P t) :
    (∀ t ∈ u, P t) ∧ ∀ t ∈ v, P t :=
  ⟨fun t ht => h t (List.mem_append_left _ ht),
    fun t ht => h t (List.mem_append_right _ (List.mem_cons_of_mem _ ht))⟩

theorem number_mem_join {op : Op} {s : String} :
    (⟨.number, s⟩ : Token) ∈ u ++ op.token :: v ↔
      (⟨.number, s⟩ : Token) ∈ u ∨ (⟨.number, s⟩ : Token) ∈ v := by
  simp [Op.token]

/-- The numbers in what is derived fit. -/
theorem Derives.value_le (h : Derives l u e) {s : String} (hs : ⟨.number, s⟩ ∈ u) :
    Decimal.value s.toList ≤ 2147483647 := by
  induction h with
  | @number s' hle =>
      have hs' : s = s' := by simpa using hs
      exact hs' ▸ hle
  | word x => simp at hs
  | paren _ ih => exact ih (by simpa [leftParen, rightParen] using hs)
  | minus _ ih => exact ih (by simpa [Op.token] using hs)
  | ofFactor _ ih => exact ih hs
  | ofTerm _ ih => exact ih hs
  | ofSum _ ih => exact ih hs
  | product _ _ _ ihu ihv => exact (number_mem_join.1 hs).elim ihu ihv
  | sum _ _ _ ihu ihv => exact (number_mem_join.1 hs).elim ihu ihv
  | assignment _ _ ihu ihv => exact (number_mem_join.1 hs).elim ihu ihv

/-- An assignment is derived inside parentheses only, unless it is the whole. -/
theorem Derives.assignsInParens_append (h : Derives l u e) {d : Nat}
    (hd : l ≠ .assignment ∨ 0 < d) (r : List Token) :
    Token.assignsInParens d (u ++ r) = Token.assignsInParens d r := by
  induction h generalizing d r with
  | number hle => simp [Token.assignsInParens, leftParen, rightParen, Op.token]
  | word x => simp [Token.assignsInParens, leftParen, rightParen, Op.token]
  | paren _ ih =>
      rw [List.cons_append, List.append_assoc, List.singleton_append, Token.assignsInParens,
        if_pos rfl, ih (d := d + 1) (.inr (by omega)), Token.assignsInParens,
        if_neg (by decide), if_pos rfl, Nat.add_sub_cancel]
  | minus _ ih => simp [Token.assignsInParens, leftParen, rightParen, Op.token, Op.symbol, ih]
  | ofFactor _ ih => exact ih (.inl (by decide)) r
  | ofTerm _ ih => exact ih (.inl (by decide)) r
  | ofSum _ ih => exact ih (.inl (by decide)) r
  | product hop _ _ ihu ihv =>
      rw [List.append_assoc, ihu (.inl (by decide))]
      rcases hop with rfl | rfl <;>
        simp [Token.assignsInParens, leftParen, rightParen, Op.token, Op.symbol, ihv]
  | sum hop _ _ ihu ihv =>
      rw [List.append_assoc, ihu (.inl (by decide))]
      rcases hop with rfl | rfl <;>
        simp [Token.assignsInParens, leftParen, rightParen, Op.token, Op.symbol, ihv]
  | assignment _ _ ihu ihv =>
      have hpos : 0 < d := by simpa using hd
      rw [List.append_assoc, ihu (.inl (by decide))]
      simp [Token.assignsInParens, leftParen, rightParen, Op.token, Op.symbol, ihv, hpos]

theorem Derives.assignsInParens (h : Derives .sum u e) : Token.assignsInParens 0 u = true := by
  have happend := h.assignsInParens_append (d := 0) (.inl (by decide)) []
  rwa [List.append_nil] at happend

end Expr

end LineBasic
