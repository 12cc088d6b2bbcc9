import LineBasic.Proofs.Expr.Printer
import LineBasic.Stmt.Execute
import Mathlib.Data.Set.Function

/-!
# Names

An expression sees the values of the names that occur in it and no others, and
it gives values only to the names on the left of its `=`.  The same holds of a
statement, where `INPUT` adds a name that is given a value.

What is done to an environment on the way is told by `Writes`: bindings are put
in or replaced, none is taken out, and no reserved word is bound.
-/

namespace LineBasic

namespace Expr

/-- The names that occur in an expression. -/
def names : Expr → List String
  | const _ => []
  | var x => [x]
  | binary _ l r => l.names ++ r.names
  | malformed _ => []

/-- The names on the left of an `=`. -/
def targets : Expr → List String
  | binary .assign (var x) r => x :: r.targets
  | binary _ l r => l.targets ++ r.targets
  | _ => []

theorem targets_subset_names (e : Expr) : e.targets ⊆ e.names := by
  fun_induction targets e with
  | case1 x r ih => exact List.cons_subset_cons x ih
  | case2 op l r _ ihl ihr =>
      exact List.append_subset.2 ⟨List.Subset.trans ihl (List.subset_append_left _ _),
        List.Subset.trans ihr (List.subset_append_right _ _)⟩
  | case3 => exact List.nil_subset _

end Expr

namespace Stmt

def names : Stmt → List String
  | assign e => e.names
  | print e => e.names
  | input x => [x]
  | branch l _ r _ => l.names ++ r.names
  | _ => []

/-- The names that a statement may give a value to. -/
def targets : Stmt → List String
  | assign e => e.targets
  | print e => e.targets
  | input x => [x]
  | branch l _ r _ => l.targets ++ r.targets
  | _ => []

theorem targets_subset_names (st : Stmt) : st.targets ⊆ st.names := by
  cases st with
  | assign e => exact e.targets_subset_names
  | print e => exact e.targets_subset_names
  | branch l cmp r t =>
      exact List.append_subset.2
        ⟨List.Subset.trans l.targets_subset_names (List.subset_append_left _ _),
          List.Subset.trans r.targets_subset_names (List.subset_append_right _ _)⟩
  | _ => exact List.Subset.refl _

end Stmt

/-! ### What is written -/

namespace Env

variable {env env' env'' : Env} {ns ms : List String} {x : String} {v : Value}

/-- An environment comes from another one by giving values to some of the names
`ns`, of which the reserved words are passed over. -/
structure Writes (ns : List String) (env env' : Env) : Prop where
  frame : ∀ x ∉ ns, env'.get? x = env.get? x
  reserved : ∀ x, isReserved x = true → env'.get? x = env.get? x
  bound : ∀ x, (env.get? x).isSome → (env'.get? x).isSome

theorem Writes.refl (ns : List String) (env : Env) : Writes ns env env :=
  ⟨fun _ _ => rfl, fun _ _ => rfl, fun _ h => h⟩

theorem Writes.trans (h : Writes ns env env') (h' : Writes ns env' env'') :
    Writes ns env env'' where
  frame x hx := (h'.frame x hx).trans (h.frame x hx)
  reserved x hx := (h'.reserved x hx).trans (h.reserved x hx)
  bound x hx := h'.bound x (h.bound x hx)

theorem Writes.mono (h : Writes ns env env') (hs : ns ⊆ ms) : Writes ms env env' :=
  { h with frame := fun x hx => h.frame x fun hmem => hx (hs hmem) }

/-- A name that is bound afterwards was bound before, or has been written. -/
theorem Writes.isSome_get? (h : Writes ns env env') (hx : (env'.get? x).isSome) :
    (env.get? x).isSome ∨ x ∈ ns ∧ isReserved x = false := by
  by_cases hmem : x ∈ ns
  · cases hr : isReserved x with
    | false => exact .inr ⟨hmem, rfl⟩
    | true => exact .inl (h.reserved x hr ▸ hx)
  · exact .inl (h.frame x hmem ▸ hx)

theorem of_bind?_eq_some (h : env.bind? x v = some env') :
    isReserved x = false ∧ env'.get? = Function.update env.get? x (some v) := by
  rw [bind?] at h
  split_ifs at h with hr
  cases h
  refine ⟨by simpa using hr, funext fun y => ?_⟩
  by_cases hy : y = x
  · rw [hy, Function.update_self]
    exact Table.get?_set_self env.vars x v
  · rw [Function.update_of_ne hy]
    exact Table.get?_set_of_ne env.vars hy v

theorem writes_bind? (h : env.bind? x v = some env') : Writes [x] env env' := by
  obtain ⟨hr, hget⟩ := of_bind?_eq_some h
  have hne (y : String) (hy : y ≠ x) : env'.get? y = env.get? y := by
    rw [hget, Function.update_of_ne hy]
  refine ⟨fun y hy => hne y (by simpa using hy), fun y hy => hne y ?_, fun y hy => ?_⟩
  · rintro rfl
    simp [hr] at hy
  · by_cases hyx : y = x
    · simp [hget, hyx]
    · rwa [hne y hyx]

end Env

namespace Evaluation

theorem writes_assignTo (r : Evaluation) (x : String) : Env.Writes [x] r.env (r.assignTo x).env := by
  rw [assignTo]
  cases hb : r.env.bind? x r.value with
  | none => exact .refl _ _
  | some env => exact Env.writes_bind? hb

theorem combine_env (op : Op) (a b : Evaluation) : (combine op a b).env = b.env := by
  rw [combine]
  cases op.apply a.value b.value <;> rfl

end Evaluation

open Env (Writes)

/-- Evaluating an expression writes to the left of its `=` only. -/
theorem Expr.writes_eval (e : Expr) (env : Env) : Writes e.targets env (e.eval env).env := by
  fun_induction Expr.eval e env with
  | case1 v env => exact .refl _ _
  | case2 x env v hv => exact .refl _ _
  | case3 x env hv => exact .refl _ _
  | case4 x r env ih =>
      exact (ih.mono (List.subset_cons_self _ _)).trans
        ((Evaluation.writes_assignTo _ x).mono (by simp))
  | case5 => exact .refl _ _
  | case6 op l r env _ hop a ihl ihr =>
      have htargets : (binary op l r).targets = l.targets ++ r.targets := by
        cases op with
        | assign => exact absurd rfl hop
        | _ => rfl
      rw [Evaluation.combine_env, htargets]
      exact (ihl.mono (List.subset_append_left _ _)).trans
        (ihr.mono (List.subset_append_right _ _))
  | case7 => exact .refl _ _

theorem Stmt.writes_executeInput (x : String) (env : Env) (answers : Source) :
    Writes [x] env (executeInput x env answers).env := by
  unfold executeInput
  dsimp only
  split
  · exact .refl _ _
  · split
    · rename_i hb
      exact Env.writes_bind? hb
    · exact .refl _ _

theorem Stmt.writes_execute (st : Stmt) (env : Env) (answers : Source) :
    Writes st.targets env (st.execute env answers).env := by
  cases st with
  | assign e => exact e.writes_eval env
  | print e => exact e.writes_eval env
  | input x => exact writes_executeInput x env answers
  | branch l cmp r t =>
      exact ((l.writes_eval env).mono (List.subset_append_left _ _)).trans
        ((r.writes_eval _).mono (List.subset_append_right _ _))
  | _ => exact .refl _ _

/-! ### What is seen -/

section Seen

variable {S : Set String} {env env' : Env}

/-- Evaluations that cannot be told apart by the names in `S`. -/
structure Evaluation.SameOn (S : Set String) (r r' : Evaluation) : Prop where
  value : r.value = r'.value
  ok : r.ok = r'.ok
  faults : r.faults = r'.faults
  env : Set.EqOn r.env.get? r'.env.get? S

/-- Executions that cannot be told apart by the names in `S`. -/
structure Execution.SameOn (S : Set String) (x x' : Execution) : Prop where
  action : x.action = x'.action
  answers : x.answers = x'.answers
  events : x.events = x'.events
  env : Set.EqOn x.env.get? x'.env.get? S

/-- Both environments take a binding or neither does. -/
theorem Env.eqOn_bind? (h : Set.EqOn env.get? env'.get? S) (x : String) (v : Value) :
    (env.bind? x v = none ∧ env'.bind? x v = none) ∨
      ∃ e e', env.bind? x v = some e ∧ env'.bind? x v = some e' ∧
        Set.EqOn e.get? e'.get? S := by
  cases hr : isReserved x with
  | true => exact .inl ⟨bind?_of_reserved hr env v, bind?_of_reserved hr env' v⟩
  | false =>
      have hb := bind?_of_not_reserved hr env v
      have hb' := bind?_of_not_reserved hr env' v
      refine .inr ⟨_, _, hb, hb', ?_⟩
      rw [(of_bind?_eq_some hb).2, (of_bind?_eq_some hb').2]
      intro y hy
      by_cases hyx : y = x
      · simp [hyx]
      · rw [Function.update_of_ne hyx, Function.update_of_ne hyx, h hy]

theorem Evaluation.SameOn.assignTo {r r' : Evaluation} (h : r.SameOn S r') (x : String) :
    (r.assignTo x).SameOn S (r'.assignTo x) := by
  rw [Evaluation.assignTo, Evaluation.assignTo, ← h.value, ← h.faults]
  rcases Env.eqOn_bind? h.env x r.value with ⟨hb, hb'⟩ | ⟨e, e', hb, hb', he⟩
  · rw [hb, hb']
    exact ⟨rfl, rfl, rfl, h.env⟩
  · rw [hb, hb']
    exact ⟨rfl, rfl, rfl, he⟩

theorem Evaluation.SameOn.combine {a a' b b' : Evaluation} (ha : a.SameOn S a')
    (hb : b.SameOn S b') (op : Op) :
    (Evaluation.combine op a b).SameOn S (Evaluation.combine op a' b') := by
  rw [Evaluation.combine, Evaluation.combine, ← ha.value, ← hb.value, ← ha.ok, ← hb.ok,
    ← ha.faults, ← hb.faults]
  cases op.apply a.value b.value with
  | ok v => exact ⟨rfl, rfl, rfl, hb.env⟩
  | error f => exact ⟨rfl, rfl, rfl, hb.env⟩

/-- Evaluation depends on the names that occur only. -/
theorem Expr.sameOn_eval {e : Expr} (hS : ∀ x ∈ e.names, x ∈ S)
    (h : Set.EqOn env.get? env'.get? S) : (e.eval env).SameOn S (e.eval env') := by
  induction e generalizing env env' with
  | const v => exact ⟨rfl, rfl, rfl, h⟩
  | malformed tag => exact ⟨rfl, rfl, rfl, h⟩
  | var x =>
      have hx : env.get? x = env'.get? x := h (hS x (by simp [names]))
      rw [Expr.eval, Expr.eval, ← hx]
      cases env.get? x with
      | none => exact ⟨rfl, rfl, rfl, h⟩
      | some v => exact ⟨rfl, rfl, rfl, h⟩
  | binary op l r ihl ihr =>
      have hSl : ∀ x ∈ l.names, x ∈ S := fun x hx => hS x (List.mem_append_left _ hx)
      have hSr : ∀ x ∈ r.names, x ∈ S := fun x hx => hS x (List.mem_append_right _ hx)
      by_cases hop : op = .assign
      · subst hop
        -- only a name can stand on the left, and nothing else there is evaluated
        cases l with
        | var x => exact (ihr hSr h).assignTo x
        | _ => exact ⟨rfl, rfl, rfl, h⟩
      · have hl := ihl hSl h
        rw [eval_arithmetic hop, eval_arithmetic hop]
        exact hl.combine (ihr hSr hl.env) op

theorem Stmt.sameOn_executeInput (h : Set.EqOn env.get? env'.get? S) (x : String)
    (answers : Source) :
    (executeInput x env answers).SameOn S (executeInput x env' answers) := by
  unfold executeInput
  dsimp only
  cases answers.inquire.value with
  | none => exact ⟨rfl, rfl, rfl, h⟩
  | some v =>
      dsimp only
      rcases Env.eqOn_bind? h x v with ⟨hb, hb'⟩ | ⟨e, e', hb, hb', he⟩
      · rw [hb, hb']
        exact ⟨rfl, rfl, rfl, h⟩
      · rw [hb, hb']
        exact ⟨rfl, rfl, rfl, he⟩

/-- What a statement does depends on the names that occur in it only. -/
theorem Stmt.sameOn_execute {st : Stmt} (hS : ∀ x ∈ st.names, x ∈ S)
    (h : Set.EqOn env.get? env'.get? S) (answers : Source) :
    (st.execute env answers).SameOn S (st.execute env' answers) := by
  cases st with
  | assign e =>
      have he := Expr.sameOn_eval hS h
      exact ⟨rfl, rfl, by simp only [execute, he.faults], he.env⟩
  | print e =>
      have he := Expr.sameOn_eval hS h
      exact ⟨rfl, rfl, by simp only [execute, he.faults, he.ok, he.value], he.env⟩
  | input x => exact sameOn_executeInput h x answers
  | branch l cmp r t =>
      have hl := Expr.sameOn_eval (fun y hy => hS y (List.mem_append_left _ hy)) h
      have hr := Expr.sameOn_eval (fun y hy => hS y (List.mem_append_right _ hy)) hl.env
      exact ⟨by simp only [execute, hl.value, hr.value], rfl,
        by simp only [execute, hl.value, hr.value, hl.faults, hr.faults], hr.env⟩
  | _ => exact ⟨rfl, rfl, rfl, h⟩

end Seen

end LineBasic
