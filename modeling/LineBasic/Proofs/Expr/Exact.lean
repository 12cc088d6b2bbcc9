import LineBasic.Proofs.Expr.Report
import Mathlib.Data.Int.ModEq

/-!
# Exact values

`Expr.exact` is the value of an expression in the integers, where nothing wraps
around.  Values are integers modulo `2 ^ 32`, and addition, subtraction and
multiplication respect that: it makes no difference whether every node wraps or the
result does, once (`Op.apply_ofInt`).  Division does not respect it, so there the
operands have to be exact themselves (`Op.apply_ofInt_div`).

Either way one induction serves, which only asks that each operator be applied to
wrapped values as it is to exact ones (`eval_eq_success`).
-/

namespace LineBasic

/-! ### Operators -/

namespace Op

/-- The arithmetic operators on all integers.  Division goes toward zero. -/
def exact : Op → Int → Int → Int
  | add, a, b => a + b
  | sub, a, b => a - b
  | mul, a, b => a * b
  | div, a, b => a.tdiv b
  | assign, _, _ => 0
  | other _, _, _ => 0

/-- Wrapping around before adding, subtracting or multiplying makes no difference. -/
theorem apply_ofInt {op : Op} (h : op ∈ [add, sub, mul]) (a b : Int) :
    op.apply (.ofInt a) (.ofInt b) = .ok (.ofInt (op.exact a b)) := by
  simp only [List.mem_cons, List.not_mem_nil, or_false] at h
  rcases h with rfl | rfl | rfl
  · rw [apply, exact, Int32.ofInt_add]
  · rw [apply, exact, Int32.ofInt_sub]
  · rw [apply, exact, Int32.ofInt_mul]

/-- Division is exact on integers that are values. -/
theorem apply_ofInt_div {a b : Int} (ha : Value.InRange a) (hb : Value.InRange b) (h0 : b ≠ 0) :
    div.apply (.ofInt a) (.ofInt b) = .ok (.ofInt (div.exact a b)) := by
  have hne : Int32.ofInt b ≠ 0 := by
    intro hzero
    have hb' : (Int32.ofInt b).toInt = b := Int32.toInt_ofInt_of_le hb.1 (Int.lt_add_one_of_le hb.2)
    rw [hzero, Int32.toInt_zero] at hb'
    exact h0 hb'.symm
  rw [apply, if_neg hne, exact, Int32.ofInt_tdiv ha.1 ha.2 hb.1 hb.2]

end Op

/-! ### Expressions -/

namespace Expr

variable {e l r : Expr} {op : Op} {ops : List Op} {env : Env}

/-- The value in the integers, each name standing for what it is bound to. -/
def exact (env : Env) : Expr → Int
  | const v => v.toInt
  | var x => ((env.get? x).getD 0).toInt
  | binary op l r => op.exact (l.exact env) (r.exact env)
  | malformed _ => 0

theorem Over.mono {ops' : List Op} (h : e.Over ops) (hops : ops ⊆ ops') : e.Over ops' := by
  induction e with
  | const v => trivial
  | var x => trivial
  | malformed tag => exact h.elim
  | binary op l r ihl ihr => exact ⟨hops h.1, ihl h.2.1, ihr h.2.2⟩

theorem Over.op_mem (h : e.Over ops) (hmem : binary op l r ∈ e.postorder) : op ∈ ops := by
  induction e with
  | const v => simp [postorder] at hmem
  | var x => simp [postorder] at hmem
  | malformed tag => exact h.elim
  | binary op' l' r' ihl ihr =>
      obtain ⟨hop, hl, hr⟩ := h
      simp only [postorder, List.mem_append, List.mem_singleton] at hmem
      rcases hmem with (hmem | hmem) | hmem
      · exact ihl hl hmem
      · exact ihr hr hmem
      · cases hmem
        exact hop

theorem self_mem_postorder (e : Expr) : e ∈ e.postorder := by
  cases e <;> simp [postorder]

/-- The operands of a subtree are subtrees. -/
theorem operands_mem_postorder (h : binary op l r ∈ e.postorder) :
    l ∈ e.postorder ∧ r ∈ e.postorder := by
  induction e with
  | const v => simp [postorder] at h
  | var x => simp [postorder] at h
  | malformed tag => simp [postorder] at h
  | binary op' l' r' ihl ihr =>
      simp only [postorder, List.mem_append, List.mem_singleton] at h ⊢
      rcases h with (h | h) | h
      · exact ⟨.inl (.inl (ihl h).1), .inl (.inl (ihl h).2)⟩
      · exact ⟨.inl (.inr (ihr h).1), .inl (.inr (ihr h).2)⟩
      · cases h
        exact ⟨.inl (.inl (self_mem_postorder l)), .inl (.inr (self_mem_postorder r))⟩

/-- Where each operator does to wrapped operands what it does to exact ones, the
value is the exact one wrapped around. -/
theorem eval_eq_success (hover : e.Over [.add, .sub, .mul, .div])
    (hbound : ∀ x ∈ e.names, (env.get? x).isSome)
    (happly : ∀ op l r, binary op l r ∈ e.postorder →
      op.apply (.ofInt (l.exact env)) (.ofInt (r.exact env)) =
        .ok (.ofInt (op.exact (l.exact env) (r.exact env)))) :
    e.eval env = .success (.ofInt (e.exact env)) env := by
  induction e with
  | const v => rw [eval, exact, Int32.ofInt_toInt]
  | var x =>
      obtain ⟨v, hv⟩ := Option.isSome_iff_exists.1 (hbound x (by simp [names]))
      rw [eval, exact, hv, Option.getD_some, Int32.ofInt_toInt]
  | malformed tag => exact hover.elim
  | binary op l r ihl ihr =>
      obtain ⟨hop, hl, hr⟩ := hover
      have hleft : l.eval env = .success (.ofInt (l.exact env)) env :=
        ihl hl (fun x hx => hbound x (List.mem_append_left _ hx))
          fun op' l' r' hmem => happly op' l' r' (by simp [postorder, hmem])
      have hright : r.eval env = .success (.ofInt (r.exact env)) env :=
        ihr hr (fun x hx => hbound x (List.mem_append_right _ hx))
          fun op' l' r' hmem => happly op' l' r' (by simp [postorder, hmem])
      have hnode := happly op l r (self_mem_postorder _)
      rw [eval_arithmetic (Op.ne_assign_of_mem hop), hleft]
      simp only [Evaluation.success] at hright ⊢
      simp only [Evaluation.combine, hright, hnode, exact, Bool.and_self, List.append_nil]

/-- Without division the value wraps around once, whatever happens on the way. -/
theorem eval_eq_success_of_ring (hover : e.Over [.add, .sub, .mul])
    (hbound : ∀ x ∈ e.names, (env.get? x).isSome) :
    e.eval env = .success (.ofInt (e.exact env)) env := by
  refine eval_eq_success (hover.mono (by simp)) hbound ?_
  intro op l r hmem
  exact Op.apply_ofInt (hover.op_mem hmem) _ _

/-- With division the operands must not have wrapped around. -/
theorem eval_eq_success_of_inRange (hover : e.Over [.add, .sub, .mul, .div])
    (hbound : ∀ x ∈ e.names, (env.get? x).isSome)
    (hdiv : ∀ l r, binary .div l r ∈ e.postorder → r.exact env ≠ 0)
    (hrange : ∀ s ∈ e.postorder, Value.InRange (s.exact env)) :
    e.eval env = .success (.ofInt (e.exact env)) env := by
  refine eval_eq_success hover hbound ?_
  intro op l r hmem
  have hop := hover.op_mem hmem
  by_cases hd : op = .div
  · subst hd
    obtain ⟨hl, hr⟩ := operands_mem_postorder hmem
    exact Op.apply_ofInt_div (hrange l hl) (hrange r hr) (hdiv l r hmem)
  · exact Op.apply_ofInt (by simpa [hd] using hop) _ _

/-- An expression in constants, names that have values, `+`, `-` and `*` is
evaluated without a fault, to the value that is congruent to its exact value modulo
`2 ^ 32`.  If there is `/` in it too, no divisor is exactly zero and the exact value
of each subtree is in the range of values, it is evaluated without a fault to its
exact value. -/
theorem evaluation_is_exact (e : Expr) (env : Env)
    (hbound : ∀ x ∈ e.names, (env.get? x).isSome) :
    (e.Over [.add, .sub, .mul] →
      ∃ v, e.eval env = .success v env ∧ Value.InRange v.toInt ∧
        v.toInt ≡ e.exact env [ZMOD 2 ^ 32]) ∧
    (e.Over [.add, .sub, .mul, .div] →
      (∀ l r, binary .div l r ∈ e.postorder → r.exact env ≠ 0) →
      (∀ s ∈ e.postorder, Value.InRange (s.exact env)) →
      ∃ v, e.eval env = .success v env ∧ v.toInt = e.exact env) := by
  constructor
  · intro hover
    refine ⟨_, eval_eq_success_of_ring hover hbound, ⟨Int32.le_toInt _, ?_⟩, ?_⟩
    · exact Int.le_of_lt_add_one (Int32.toInt_lt _)
    · rw [Int32.toInt_ofInt]
      exact Int.bmod_emod
  · intro hover hdiv hrange
    refine ⟨_, eval_eq_success_of_inRange hover hbound hdiv hrange, ?_⟩
    obtain ⟨hlow, hhigh⟩ := hrange e e.self_mem_postorder
    exact Int32.toInt_ofInt_of_le hlow (Int.lt_add_one_of_le hhigh)

set_option maxRecDepth 8000 in
/-- `X * X - 5` wraps around in the middle, and `(0 - X) / 32769` rounds up. -/
theorem evaluation_is_exact_wrapped :
    let env : Env := ⟨⟨[("X", 65536)]⟩⟩
    let e := binary .sub (binary .mul (var "X") (var "X")) (const 5)
    let q := binary .div (binary .sub (const 0) (var "X")) (const 32769)
    e.exact env = 4294967291 ∧ (∃ v, e.eval env = .success v env ∧ v.toInt = -5) ∧
      q.exact env = -1 ∧ ∃ v, q.eval env = .success v env ∧ v.toInt = -1 := by
  intro env e q
  have hX : (env.get? "X").isSome := by decide
  have hboundE : ∀ x ∈ e.names, (env.get? x).isSome := by
    simpa [e, names] using hX
  have hboundQ : ∀ x ∈ q.names, (env.get? x).isSome := by
    simpa [q, names] using hX
  have hexactE : e.exact env = 4294967291 := by decide
  have hexactQ : q.exact env = -1 := by decide
  have hdiv : ∀ l r, binary .div l r ∈ q.postorder → r.exact env ≠ 0 := by
    intro l r hmem
    obtain ⟨-, rfl⟩ : l = binary .sub (const 0) (var "X") ∧ r = const 32769 := by
      simpa [q, postorder] using hmem
    decide
  obtain ⟨v, hv, ⟨hlow, hhigh⟩, hmod⟩ := (evaluation_is_exact e env hboundE).1 (by simp [e, Over])
  obtain ⟨w, hw, hexact⟩ :=
    (evaluation_is_exact q env hboundQ).2 (by simp [q, Over]) hdiv (by decide)
  rw [hexactE, Int.ModEq] at hmod
  exact ⟨hexactE, ⟨v, hv, by omega⟩, hexactQ, w, hw, hexact.trans hexactQ⟩

end Expr

end LineBasic
