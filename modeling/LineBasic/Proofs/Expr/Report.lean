import LineBasic.Proofs.Names

/-!
# What evaluation reports

Where evaluation fails it has told a fault (`Expr.loud_eval`), and each fault is a
line of its own on the display.  So a `PRINT` always shows something: its value, or
why there is none.

Without `=` an expression tells nothing twice and leaves nothing out.  Every node
has a fault of its own or none (`Expr.ownFault`), and what is told are these, the
operands of a node before the node itself (`Expr.tells_eval`).  With `=` this is
lost, since an assignment succeeds also where its right side did not.
-/

namespace LineBasic

/-! ### Lines on the display -/

theorem Display.count_faultLine (d : Display) (f : Fault) :
    (Text.ofString (d.faultLine f)).count Text.newline = 1 := by
  rw [faultLine]
  split <;> cases f <;> decide

namespace Evaluation

/-- What evaluating puts on a display. -/
def written (r : Evaluation) (d : Display) : Bytes :=
  Event.renderAll d (r.faults.map .fault)

theorem written_eq (r : Evaluation) (d : Display) :
    r.written d = r.faults.flatMap fun f => Text.ofString (d.faultLine f) := by
  rw [written, Event.renderAll, List.flatMap_map]
  rfl

/-- Each fault is one line. -/
theorem count_written (r : Evaluation) (d : Display) :
    (r.written d).count Text.newline = r.faults.length := by
  rw [written_eq, List.count_flatMap]
  simp [Function.comp_def, Display.count_faultLine]

theorem written_eq_nil_iff {r : Evaluation} {d : Display} : r.written d = [] ↔ r.faults = [] := by
  constructor
  · intro h
    rw [← List.length_eq_zero_iff, ← r.count_written d, h, List.count_nil]
  · intro h
    rw [written_eq, h, List.flatMap_nil]

/-! ### No failure is silent -/

/-- If it failed, a fault was told. -/
def Loud (r : Evaluation) : Prop :=
  r.ok = false → r.faults ≠ []

theorem loud_assignTo (r : Evaluation) (x : String) : (r.assignTo x).Loud := by
  intro hok
  rw [assignTo] at hok ⊢
  cases hb : r.env.bind? x r.value with
  | some env => simp [hb] at hok
  | none => simp

theorem Loud.combine {a b : Evaluation} (ha : a.Loud) (hb : b.Loud) (op : Op) :
    (Evaluation.combine op a b).Loud := by
  intro hok
  rw [Evaluation.combine] at hok ⊢
  cases happly : op.apply a.value b.value with
  | error f => simp
  | ok v =>
      simp only [happly, Bool.and_eq_false_iff] at hok ⊢
      rcases hok with hok | hok
      · exact List.append_ne_nil_of_left_ne_nil (ha hok) _
      · exact List.append_ne_nil_of_right_ne_nil _ (hb hok)

end Evaluation

theorem Expr.loud_eval (e : Expr) (env : Env) : (e.eval env).Loud := by
  fun_induction Expr.eval e env with
  | case1 v env => simp [Evaluation.Loud, Evaluation.success]
  | case2 x env v hv => simp [Evaluation.Loud, Evaluation.success]
  | case3 x env hv => simp [Evaluation.Loud, Evaluation.failure]
  | case4 x r env ih => exact Evaluation.loud_assignTo _ x
  | case5 => simp [Evaluation.Loud, Evaluation.failure]
  | case6 op l r env _ _ a ihl ihr => exact ihl.combine ihr op
  | case7 => simp [Evaluation.Loud, Evaluation.failure]

/-- A `PRINT` shows its value or tells why there is none. -/
theorem Stmt.newline_mem_print (e : Expr) (env : Env) (answers : Source) (d : Display) :
    Text.newline ∈ Event.renderAll d ((print e).execute env answers).events := by
  have hevents : ((print e).execute env answers).events =
      (e.eval env).faults.map .fault ++
        if (e.eval env).ok then [.value (e.eval env).value] else [] := rfl
  rw [hevents, Event.renderAll_append, List.mem_append]
  cases hok : (e.eval env).ok with
  | true =>
      right
      have hvalue : Event.renderAll d [.value (e.eval env).value] =
          Text.ofString (e.eval env).value.text ++ Text.ofString "\n" := by
        simp [Event.renderAll, Event.render, Event.renderWith, Text.ofString, Text.encode_append]
      rw [if_pos rfl, hvalue]
      exact List.mem_append_right _ (by decide)
  | false =>
      left
      rw [← List.count_pos_iff]
      exact (Evaluation.count_written _ d).symm ▸ List.length_pos_of_ne_nil (e.loud_eval env hok)

/-! ### The nodes of a tree -/

namespace Expr

variable {e l r : Expr} {op : Op} {env : Env}

/-- All the subtrees: those of the left operand, those of the right one, then the
tree itself. -/
def postorder : Expr → List Expr
  | const v => [const v]
  | var x => [var x]
  | binary op l r => l.postorder ++ r.postorder ++ [binary op l r]
  | malformed tag => [malformed tag]

/-- The tree has no operators but those in `ops`, and each node has a form. -/
def Over (ops : List Op) : Expr → Prop
  | const _ => True
  | var _ => True
  | binary op l r => op ∈ ops ∧ l.Over ops ∧ r.Over ops
  | malformed _ => False

/-- What can be written down without `=` has arithmetic operators only. -/
theorem Writable.over_arithmetic (h : e.Writable)
    (hassign : ∀ l r, binary .assign l r ∉ e.postorder) : e.Over [.add, .sub, .mul, .div] := by
  induction e with
  | const v => trivial
  | var x => trivial
  | malformed tag => exact h.elim
  | binary op l r ihl ihr =>
      obtain ⟨hop, hl, hr⟩ := h
      have hne : op ≠ .assign := by
        rintro rfl
        exact hassign l r (by simp [postorder])
      refine ⟨?_, ihl hl fun l' r' hmem => hassign l' r' ?_,
        ihr hr fun l' r' hmem => hassign l' r' ?_⟩
      · simpa [hne] using hop
      · simp [postorder, hmem]
      · simp [postorder, hmem]

/-! ### Every fault once -/

/-- The fault of a node itself, once its operands have been evaluated: a name
without a value, or a division by what has come to zero. -/
def ownFault (env : Env) : Expr → Option Fault
  | var x => if env.get? x = none then some .undefined else none
  | binary .div _ r => if (r.eval env).value = 0 then some .divideByZero else none
  | _ => none

theorem message_of_ownFault {f : Fault} (h : ownFault env e = some f) :
    f.message ∈ ["VARIABLE NOT DEFINED", "DIVIDE BY ZERO"] := by
  unfold ownFault at h
  split at h
  · split_ifs at h
    cases h
    decide
  · split_ifs at h
    cases h
    decide
  · cases h

end Expr

namespace Op

/-- What an operator reports about the values of its operands. -/
def fault? (op : Op) (a b : Value) : Option Fault :=
  match op.apply a b with
  | .ok _ => none
  | .error f => some f

theorem ne_assign_of_mem {op : Op} (h : op ∈ [add, sub, mul, div]) : op ≠ assign := by
  rintro rfl
  simp at h

theorem fault?_of_mem {op : Op} (h : op ∈ [add, sub, mul, div]) (env : Env) (l r : Expr)
    (a : Value) : op.fault? a (r.eval env).value = Expr.ownFault env (.binary op l r) := by
  simp only [List.mem_cons, List.not_mem_nil, or_false] at h
  rcases h with rfl | rfl | rfl | rfl
  · rfl
  · rfl
  · rfl
  · simp only [fault?, apply, Expr.ownFault]
    split_ifs <;> rfl

end Op

namespace Evaluation

/-- The evaluation has left the variables alone, has told `fs`, and has succeeded
just if that is nothing. -/
structure Tells (r : Evaluation) (env : Env) (fs : List Fault) : Prop where
  env : r.env = env
  faults : r.faults = fs
  ok : r.ok = true ↔ fs = []

theorem Tells.combine {a b : Evaluation} {env : Env} {fs gs : List Fault} (ha : a.Tells env fs)
    (hb : b.Tells env gs) (op : Op) :
    (Evaluation.combine op a b).Tells env (fs ++ gs ++ (op.fault? a.value b.value).toList) := by
  rw [Evaluation.combine, Op.fault?]
  cases op.apply a.value b.value with
  | ok v => exact ⟨hb.env, by simp [ha.faults, hb.faults], by simp [ha.ok, hb.ok]⟩
  | error f => exact ⟨hb.env, by simp [ha.faults, hb.faults], by simp⟩

end Evaluation

namespace Expr

variable {e : Expr}

/-- An expression without `=` tells the faults of its nodes, each once and in their
order. -/
theorem tells_eval (h : e.Over [.add, .sub, .mul, .div]) (env : Env) :
    (e.eval env).Tells env (e.postorder.filterMap (ownFault env)) := by
  induction e with
  | const v => exact ⟨rfl, rfl, by simp [eval, Evaluation.success, postorder, ownFault]⟩
  | var x =>
      rw [eval]
      cases hx : env.get? x with
      | none => exact ⟨rfl, by simp [postorder, ownFault, hx, Evaluation.failure],
          by simp [postorder, ownFault, hx, Evaluation.failure]⟩
      | some v => exact ⟨rfl, by simp [postorder, ownFault, hx, Evaluation.success],
          by simp [postorder, ownFault, hx, Evaluation.success]⟩
  | malformed tag => exact h.elim
  | binary op l r ihl ihr =>
      obtain ⟨hop, hl, hr⟩ := h
      -- the right operand starts where the left one has changed nothing
      have htells := (ihl hl).combine (ihr hr) op
      have hnode : [binary op l r].filterMap (ownFault env) =
          (ownFault env (binary op l r)).toList := by
        rw [List.filterMap_cons]
        cases ownFault env (binary op l r) <;> rfl
      rw [eval_arithmetic (Op.ne_assign_of_mem hop), (ihl hl).env, postorder, List.filterMap_append,
        List.filterMap_append, hnode, ← Op.fault?_of_mem hop]
      exact htells

/-- A tree that was read and has no `=` in it can be evaluated for its faults. -/
theorem over_of_parse {ts : List Token} (hts : ∀ t ∈ ts, t.WellFormed) (h : parse ts = .ok e)
    (hassign : ∀ l r, binary .assign l r ∉ e.postorder) : e.Over [.add, .sub, .mul, .div] :=
  (((parse_eq_ok_iff hts).1 h).plain hts).writable.over_arithmetic hassign

/-- Evaluation that fails has put a line on the display, and `PRINT` always does.
An expression that was read and has no `=` changes no variable and tells a fault for
each name without a value and for each division by what has come to zero, once and in
the order of the nodes, and none else; it succeeds just if that is nothing. -/
theorem faults_are_reported :
    (∀ (e : Expr) (env : Env) (d : Display),
      ((e.eval env).ok = false →
        (e.eval env).faults ≠ [] ∧ 1 ≤ ((e.eval env).written d).count Text.newline) ∧
      ∀ answers, 1 ≤ (Event.renderAll d ((Stmt.print e).execute env answers).events).count
        Text.newline) ∧
    ∀ (ts : List Token) (e : Expr), (∀ t ∈ ts, t.WellFormed) → parse ts = .ok e →
      (∀ l r, binary .assign l r ∉ e.postorder) → ∀ env : Env,
        (e.eval env).env = env ∧
        (∀ d, (e.eval env).ok = true ↔ (e.eval env).written d = []) ∧
        (e.eval env).faults = e.postorder.filterMap (ownFault env) ∧
        (∀ d, (e.eval env).written d =
          (e.postorder.filterMap (ownFault env)).flatMap
            fun f => Text.ofString (d.faultLine f)) ∧
        ∀ f ∈ (e.eval env).faults, f.message ∈ ["VARIABLE NOT DEFINED", "DIVIDE BY ZERO"] := by
  constructor
  · intro e env d
    refine ⟨fun hok => ?_, fun answers => List.count_pos_iff.2 (Stmt.newline_mem_print e env _ d)⟩
    have hloud : (e.eval env).faults ≠ [] := e.loud_eval env hok
    exact ⟨hloud, (Evaluation.count_written _ d).symm ▸ List.length_pos_of_ne_nil hloud⟩
  · intro ts e hts hparse hassign env
    have htells := tells_eval (over_of_parse hts hparse hassign) env
    refine ⟨htells.env, fun d => ?_, htells.faults, fun d => ?_, fun f hf => ?_⟩
    · rw [htells.ok, ← htells.faults, Evaluation.written_eq_nil_iff]
    · rw [Evaluation.written_eq, htells.faults]
    · rw [htells.faults] at hf
      obtain ⟨node, -, hnode⟩ := List.mem_filterMap.1 hf
      exact message_of_ownFault hnode

set_option maxRecDepth 8000 in
/-- `Y / ( X - 3 ) + Z` where only `X` has a value, and that is 3. -/
theorem faults_are_reported_in_order :
    let ts := Token.ofLine (Text.ofString "Y / ( X - 3 ) + Z")
    let e := binary .add
      (binary .div (var "Y") (binary .sub (var "X") (const 3))) (var "Z")
    let env : Env := ⟨⟨[("X", 3)]⟩⟩
    parse ts = .ok e ∧ (e.eval env).env = env ∧
      (e.eval env).faults = [.undefined, .divideByZero, .undefined] ∧ (e.eval env).ok = false ∧
      (e.eval env).written {} =
        Text.ofString "VARIABLE NOT DEFINED\nDIVIDE BY ZERO\nVARIABLE NOT DEFINED\n" := by
  intro ts e env
  have htokens : ts = [⟨.word, "Y"⟩, ⟨.operator, "/"⟩, ⟨.operator, "("⟩, ⟨.word, "X"⟩,
      ⟨.operator, "-"⟩, ⟨.number, "3"⟩, ⟨.operator, ")"⟩, ⟨.operator, "+"⟩, ⟨.word, "Z"⟩] :=
    Token.ofLine_spaced (by decide) (by decide)
  have hparse : parse ts = .ok e := by
    rw [htokens]
    decide +kernel
  have hassign : ∀ l r, binary .assign l r ∉ e.postorder := by simp [e, postorder]
  obtain ⟨henv, hok, hfaults, hwritten, -⟩ := faults_are_reported.2 ts e
    (fun t => Token.wellFormed_of_mem_ofLine) hparse hassign env
  have hown : e.postorder.filterMap (ownFault env) =
      [.undefined, .divideByZero, .undefined] := by decide
  rw [hown] at hfaults hwritten
  refine ⟨hparse, henv, hfaults, ?_, (hwritten {}).trans (by decide)⟩
  cases h : (e.eval env).ok with
  | false => rfl
  | true =>
      have hnone := Evaluation.written_eq_nil_iff.1 ((hok {}).1 h)
      rw [hfaults] at hnone
      cases hnone

end Expr

end LineBasic
