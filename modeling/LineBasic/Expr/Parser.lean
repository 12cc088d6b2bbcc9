import LineBasic.Expr.Basic
import LineBasic.Token

/-!
# Reading expressions

An expression is a factor followed by operators and further operands.  Reading
at precedence `p` takes operators that bind more tightly than `p` and leaves the
first other token where it is.  The right operand of an operator is read at the
operator's own precedence, so that equal operators group to the left, except
for `=`, whose right operand may be an assignment itself.

A reading also says which tokens are left, whether it succeeds or not.
-/

namespace LineBasic

namespace Token

/-- The precedence of the token as an operator. -/
def precedence (t : Token) : Int :=
  match t.kind with
  | .operator => (Op.ofSymbol t.text).precedence
  | _ => 0

/-- The end of the line, taken for an operator, joins nothing. -/
def endPrecedence : Int := 0

/-- The precedence at which the operand to the right of the token is read. -/
def rightPrecedence (t : Token) : Int :=
  match Op.ofSymbol t.text with
  | .assign => t.precedence - 1
  | _ => t.precedence

end Token

namespace Expr

/-- What reading from the front of `ts` gives, and the tokens it leaves.  The
length bound is what makes the reader below terminate. -/
structure Reading (ts : List Token) where
  result : Except Fault Expr
  rest : List Token
  length_le : rest.length ≤ ts.length

/-- The value of a number in an expression, which has to fit. -/
def ofNumeral (s : String) : Except Fault Expr :=
  match Value.ofNumeral? s.toList with
  | some v => .ok (const v)
  | none => .error .syntaxError

mutual

/-- A number, a word, an expression in parentheses, or a factor behind a minus
sign. -/
def readFactor (ts : List Token) : Reading ts :=
  match ts with
  | [] => ⟨.error .syntaxError, [], Nat.le_refl _⟩
  | ⟨.number, s⟩ :: ts => ⟨ofNumeral s, ts, by simp⟩
  | ⟨.word, s⟩ :: ts => ⟨.ok (var s), ts, by simp⟩
  | ⟨.operator, s⟩ :: ts =>
    if s = "(" then
      match readAt 0 ts with
      | ⟨.ok _, [], h⟩ => ⟨.error .syntaxError, [], by simp⟩
      | ⟨.ok e, ⟨_, s⟩ :: rest, h⟩ =>
        ⟨if s = ")" then .ok e else .error .syntaxError, rest, by simp at h ⊢; omega⟩
      | ⟨.error f, rest, h⟩ => ⟨.error f, rest, by simp; omega⟩
    else if s = "-" then
      match readFactor ts with
      | ⟨.ok e, rest, h⟩ => ⟨.ok e.neg, rest, by simp; omega⟩
      | ⟨.error f, rest, h⟩ => ⟨.error f, rest, by simp; omega⟩
    else ⟨.error .syntaxError, ts, by simp⟩
termination_by 3 * ts.length
decreasing_by all_goals (simp only [List.length_cons]; omega)

/-- A factor and the operators behind it that bind more tightly than `p`. -/
def readAt (p : Int) (ts : List Token) : Reading ts :=
  match readFactor ts with
  | ⟨.ok e, rest, h⟩ =>
    match readOperators p e rest with
    | ⟨r, rest, h⟩ => ⟨r, rest, by omega⟩
  | ⟨.error f, rest, h⟩ => ⟨.error f, rest, h⟩
termination_by 3 * ts.length + 2
decreasing_by all_goals omega

/-- The operators behind `lhs` that bind more tightly than `p`, each with its
right operand. -/
def readOperators (p : Int) (lhs : Expr) (ts : List Token) : Reading ts :=
  match ts with
  | [] => ⟨if Token.endPrecedence ≤ p then .ok lhs else .error .syntaxError, [], Nat.le_refl _⟩
  | t :: ts =>
    if t.precedence ≤ p then ⟨.ok lhs, t :: ts, Nat.le_refl _⟩
    else
      match readAt t.rightPrecedence ts with
      | ⟨.ok rhs, rest, h⟩ =>
        match readOperators p (binary (Op.ofSymbol t.text) lhs rhs) rest with
        | ⟨r, rest, h⟩ => ⟨r, rest, by simp; omega⟩
      | ⟨.error f, rest, h⟩ => ⟨.error f, rest, by simp; omega⟩
termination_by 3 * ts.length + 1
decreasing_by all_goals (simp only [List.length_cons]; omega)

end

/-- Reads a factor. -/
def factor (ts : List Token) : Except Fault Expr × List Token :=
  ((readFactor ts).result, (readFactor ts).rest)

/-- Reads the operators behind `lhs` that bind more tightly than `p`. -/
def operators (p : Int) (lhs : Expr) (ts : List Token) : Except Fault Expr × List Token :=
  ((readOperators p lhs ts).result, (readOperators p lhs ts).rest)

/-- Reads an expression at precedence `p` from the front of the tokens. -/
def read (p : Int) (ts : List Token) : Except Fault Expr × List Token :=
  ((readAt p ts).result, (readAt p ts).rest)

/-- Reads an expression that takes all the tokens. -/
def parse (ts : List Token) : Except Fault Expr :=
  match read 0 ts with
  | (.ok e, []) => .ok e
  | _ => .error .syntaxError

/-! ### Equations

What each kind of front token does, in terms of the result and the tokens left
alone. -/

theorem read_eq (p : Int) (ts : List Token) :
    read p ts =
      match factor ts with
      | (.ok e, rest) => operators p e rest
      | (.error f, rest) => (.error f, rest) := by
  rw [read, readAt, factor]
  match readFactor ts with
  | ⟨.ok e, rest, h⟩ => rfl
  | ⟨.error f, rest, h⟩ => rfl

theorem factor_nil : factor [] = (.error .syntaxError, []) := by
  rw [factor, readFactor]

theorem factor_number (s : String) (ts : List Token) :
    factor (⟨.number, s⟩ :: ts) = (ofNumeral s, ts) := by
  rw [factor, readFactor]

theorem factor_word (s : String) (ts : List Token) :
    factor (⟨.word, s⟩ :: ts) = (.ok (var s), ts) := by
  rw [factor, readFactor]

theorem factor_paren (ts : List Token) :
    factor (⟨.operator, "("⟩ :: ts) =
      match read 0 ts with
      | (.ok _, []) => (.error .syntaxError, [])
      | (.ok e, t :: rest) => (if t.text = ")" then .ok e else .error .syntaxError, rest)
      | (.error f, rest) => (.error f, rest) := by
  rw [factor, readFactor, read, if_pos rfl]
  match readAt 0 ts with
  | ⟨.ok _, [], h⟩ => rfl
  | ⟨.ok e, t :: rest, h⟩ => rfl
  | ⟨.error f, rest, h⟩ => rfl

theorem factor_minus (ts : List Token) :
    factor (⟨.operator, "-"⟩ :: ts) =
      match factor ts with
      | (.ok e, rest) => (.ok e.neg, rest)
      | (.error f, rest) => (.error f, rest) := by
  rw [factor, readFactor, factor, if_neg (by decide), if_pos rfl]
  match readFactor ts with
  | ⟨.ok e, rest, h⟩ => rfl
  | ⟨.error f, rest, h⟩ => rfl

theorem factor_operator {s : String} (h : s ≠ "(") (h' : s ≠ "-") (ts : List Token) :
    factor (⟨.operator, s⟩ :: ts) = (.error .syntaxError, ts) := by
  rw [factor, readFactor, if_neg h, if_neg h']

theorem operators_nil (p : Int) (lhs : Expr) :
    operators p lhs [] =
      (if Token.endPrecedence ≤ p then .ok lhs else .error .syntaxError, []) := by
  rw [operators, readOperators]

theorem operators_cons (p : Int) (lhs : Expr) (t : Token) (ts : List Token) :
    operators p lhs (t :: ts) =
      if t.precedence ≤ p then (.ok lhs, t :: ts)
      else
        match read t.rightPrecedence ts with
        | (.ok rhs, rest) => operators p (binary (.ofSymbol t.text) lhs rhs) rest
        | (.error f, rest) => (.error f, rest) := by
  rw [operators, readOperators]
  split
  · rfl
  · rw [read]
    match readAt t.rightPrecedence ts with
    | ⟨.ok rhs, rest, h⟩ => rfl
    | ⟨.error f, rest, h⟩ => rfl

end Expr

end LineBasic
