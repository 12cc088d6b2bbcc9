import LineBasic.Proofs.Expr.Report

/-!
# The value of a failed evaluation

A node that is at fault itself gives zero.  An operator that is not goes on with the
values of its operands though one of them has failed (`Expr.GoesOn`), and the failure
is passed on but the zero is lost: `X + 5` comes to 5 where `X` has no value.  What
is then given to a variable, or compared, is 5.

So the value of an evaluation, failed or not, is what the expression comes to where
nothing can fail and each node that is at fault counts as zero (`Expr.reckon`).
-/

namespace LineBasic

/-- The values of the names, zero for those that have none. -/
def Env.orZero (env : Env) : String → Value :=
  fun x => (env.get? x).getD 0

/-- The operators on all values, zero where they have no meaning. -/
def Op.reckon : Op → Value → Value → Value
  | add, a, b => a + b
  | sub, a, b => a - b
  | mul, a, b => a * b
  | div, a, b => if b = 0 then 0 else a / b
  | assign, _, _ => 0
  | other _, _, _ => 0

theorem Evaluation.combine_value (op : Op) (a b : Evaluation) :
    (combine op a b).value = op.reckon a.value b.value := by
  cases op with
  | div =>
      rw [combine, Op.apply, Op.reckon]
      split_ifs <;> rfl
  | _ => rfl

namespace Expr

variable {e : Expr} {env : Env}

/-- What an expression comes to, and the values of the names afterwards, if nothing
can fail. -/
def reckon : Expr → (String → Value) → Value × (String → Value)
  | const v, σ => (v, σ)
  | var x, σ => (σ x, σ)
  | binary .assign (var x) r, σ =>
    let b := r.reckon σ
    if isReserved x then (0, b.2) else (b.1, Function.update b.2 x b.1)
  | binary .assign _ _, σ => (0, σ)
  | binary op l r, σ =>
    let a := l.reckon σ
    let b := r.reckon a.2
    (op.reckon a.1 b.1, b.2)
  | malformed _, σ => (0, σ)

/-- An operator is applied to the values of its operands, though one of them has
failed. -/
def GoesOn (env : Env) : Expr → Prop
  | binary op l r =>
    op.fault? (l.eval env).value (r.eval (l.eval env).env).value = none ∧
      ((l.eval env).ok = false ∨ (r.eval (l.eval env).env).ok = false)
  | _ => False

/-! ### Zero at the node that is at fault -/

theorem value_eq_zero_of_assignTo {r : Evaluation} {x : String} (h : (r.assignTo x).ok = false) :
    (r.assignTo x).value = 0 := by
  rw [Evaluation.assignTo] at h ⊢
  cases hb : r.env.bind? x r.value with
  | some env => simp [hb] at h
  | none => rfl

/-- A failed evaluation gives zero, unless an operator goes on with what has failed. -/
theorem value_eq_zero (hok : (e.eval env).ok = false) (hgoes : ¬ e.GoesOn env) :
    (e.eval env).value = 0 := by
  cases e with
  | const v => simp [eval, Evaluation.success] at hok
  | malformed tag => rfl
  | var x =>
      rw [eval] at hok ⊢
      cases hx : env.get? x with
      | none => rfl
      | some v => simp [hx, Evaluation.success] at hok
  | binary op l r =>
      by_cases hop : op = .assign
      · subst hop
        cases l with
        | var x => exact value_eq_zero_of_assignTo hok
        | _ => rfl
      · rw [eval_arithmetic hop] at hok ⊢
        cases happly : op.apply (l.eval env).value (r.eval (l.eval env).env).value with
        | error f => rw [Evaluation.combine, happly]
        | ok v =>
            refine absurd ⟨?_, ?_⟩ hgoes
            · rw [Op.fault?, happly]
            · simp only [Evaluation.combine, happly] at hok
              exact Bool.and_eq_false_iff.1 hok

/-! ### Reckoning -/

theorem orZero_assignTo (r : Evaluation) (x : String) :
    ((r.assignTo x).value, (r.assignTo x).env.orZero) =
      if isReserved x then (0, r.env.orZero)
      else (r.value, Function.update r.env.orZero x r.value) := by
  rw [Evaluation.assignTo]
  cases hx : isReserved x with
  | true =>
      rw [Env.bind?_of_reserved hx]
      rfl
  | false =>
      have hb := Env.bind?_of_not_reserved hx r.env r.value
      rw [hb, if_neg (by decide)]
      refine Prod.ext rfl (funext fun y => ?_)
      simp only [Env.orZero, (Env.of_bind?_eq_some hb).2]
      by_cases hy : y = x
      · simp [hy]
      · rw [Function.update_of_ne hy, Function.update_of_ne hy]
        rfl

/-- Evaluation comes to what is reckoned, with or without a failure on the way. -/
theorem reckon_orZero (e : Expr) (env : Env) :
    e.reckon env.orZero = ((e.eval env).value, (e.eval env).env.orZero) := by
  induction e generalizing env with
  | const v => rfl
  | malformed tag => rfl
  | var x =>
      rw [eval, reckon, Env.orZero]
      cases hx : env.get? x with
      | none => rfl
      | some v => rfl
  | binary op l r ihl ihr =>
      by_cases hop : op = .assign
      · subst hop
        cases l with
        | var x =>
            rw [reckon, eval, orZero_assignTo, ihr]
        | _ => rfl
      · have hreckon : (binary op l r).reckon env.orZero =
            (op.reckon (l.reckon env.orZero).1 (r.reckon (l.reckon env.orZero).2).1,
              (r.reckon (l.reckon env.orZero).2).2) := by
          cases op with
          | assign => exact absurd rfl hop
          | _ => rfl
        rw [hreckon, ihl, ihr, eval_arithmetic hop, Evaluation.combine_value,
          Evaluation.combine_env]

/-- A failed evaluation gives zero where no operator goes on with a failed operand,
and in any case what is reckoned.  The same is given to a variable by an assignment
whose right side has failed, and compared by a branch whose operands have. -/
theorem failed_value_is_reckoned (e : Expr) (env : Env) :
    ((e.eval env).ok = false → ¬ e.GoesOn env → (e.eval env).value = 0) ∧
      (e.eval env).value = (e.reckon env.orZero).1 ∧
      (∀ x, isReserved x = false →
        ((binary .assign (var x) e).eval env).env.get? x = some (e.reckon env.orZero).1) ∧
      ∀ cmp r t answers,
        ((Stmt.branch e cmp r t).execute env answers).action =
          (Stmt.branchAction cmp (e.reckon env.orZero).1
            (r.reckon (e.reckon env.orZero).2).1 t).1 := by
  refine ⟨value_eq_zero, by rw [reckon_orZero], fun x hx => ?_, fun cmp r t answers => ?_⟩
  · have hb := Env.bind?_of_not_reserved hx (e.eval env).env (e.eval env).value
    rw [reckon_orZero, eval, Evaluation.assignTo, hb]
    dsimp only
    rw [(Env.of_bind?_eq_some hb).2, Function.update_self]
  · rw [reckon_orZero, reckon_orZero]
    rfl

set_option maxRecDepth 8000 in
/-- `X / 0` and `X + 5` where `X` has no value. -/
theorem failed_value_is_reckoned_unbound :
    let e := binary .div (var "X") (const 0)
    let s := binary .add (var "X") (const 5)
    ((e.eval .empty).ok = false ∧ ¬ e.GoesOn .empty ∧ (e.eval .empty).value = 0) ∧
      (s.eval .empty).value = (s.reckon Env.empty.orZero).1 ∧
      ((binary .assign (var "A") s).eval .empty).env.get? "A" = some 5 := by
  intro e s
  have hok : (e.eval .empty).ok = false := by decide
  have hgoes : ¬ e.GoesOn .empty := fun h => absurd h.1 (by decide)
  have hvalue : (s.reckon Env.empty.orZero).1 = 5 := by decide
  obtain ⟨-, hreckon, hassign, -⟩ := failed_value_is_reckoned s .empty
  exact ⟨⟨hok, hgoes, (failed_value_is_reckoned e .empty).1 hok hgoes⟩, hreckon,
    hvalue ▸ hassign "A" (by decide)⟩

set_option maxRecDepth 8000 in
/-- A sum that fails comes to 5, and not to zero: `A = X + 5` gives `A` the value 5,
and `IF X + 5 < 1 THEN 30` does not jump. -/
theorem failed_sum_is_not_zero :
    let e := binary .add (var "X") (const 5)
    (e.eval .empty).ok = false ∧ (e.eval .empty).value = 5 ∧
      ((binary .assign (var "A") e).eval .empty).env.get? "A" = some 5 ∧
      ((Stmt.branch e .less (const 1) 30).execute .empty []).action = .next ∧
      ¬ ∀ (e : Expr) (env : Env), (e.eval env).ok = false → (e.eval env).value = 0 := by
  intro e
  have hok : (e.eval .empty).ok = false := by decide
  have hvalue : (e.eval .empty).value = 5 := by decide
  refine ⟨hok, hvalue, by decide, by decide, fun hzero => ?_⟩
  rw [hzero e .empty hok] at hvalue
  exact absurd hvalue (by decide)

end Expr

end LineBasic
