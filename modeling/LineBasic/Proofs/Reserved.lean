import LineBasic.Proofs.History
import LineBasic.Proofs.Layout
import LineBasic.Proofs.Session.Variables

/-!
# Reserved words

A name comes into the environment from an assignment, at any depth of an
expression, or from `INPUT`, and in both places it was a word of a line
(`Form.word_of_mem_names`).  Any word is read as a name, a reserved one too, but
giving it a value is refused.  So what is bound is a word that is not reserved,
whatever has happened (`Worded.through`); and what is bound stays bound until
`CLEAR` or `QUIT` (`bound_through`).
-/

namespace LineBasic

/-! ### Names are words of the line -/

theorem Expr.Derives.word_of_mem_names {l : Expr.Level} {u : List Token} {e : Expr}
    (h : Expr.Derives l u e) {x : String} (hx : x ∈ e.names) : (⟨.word, x⟩ : Token) ∈ u := by
  induction h with
  | number _ => simp [names] at hx
  | word y =>
      obtain rfl : x = y := by simpa [names] using hx
      exact List.mem_singleton_self _
  | paren _ ih => exact List.mem_cons_of_mem _ (List.mem_append_left _ (ih hx))
  | minus _ ih =>
      simp only [names, List.nil_append] at hx
      exact List.mem_cons_of_mem _ (ih hx)
  | ofFactor _ ih => exact ih hx
  | ofTerm _ ih => exact ih hx
  | ofSum _ ih => exact ih hx
  | product _ _ _ iha ihb | sum _ _ _ iha ihb | assignment _ _ iha ihb =>
      rcases List.mem_append.1 hx with hx | hx
      · exact List.mem_append_left _ (iha hx)
      · exact List.mem_append_right _ (List.mem_cons_of_mem _ (ihb hx))

namespace Stmt

variable {ts : List Token} {st : Stmt} {x : String}

theorem JumpForm.word_of_mem_names {n : Nat} {make : LineNumber → Stmt} (h : JumpForm ts n make)
    {k : LineNumber} (hx : x ∈ (make k).names) : (⟨.word, x⟩ : Token) ∈ ts := by
  cases h with
  | jump s => simp [names] at hx
  | branch s ha _ _ hb _ =>
      refine List.mem_cons_of_mem _ ?_
      rcases List.mem_append.1 hx with hx | hx
      · exact List.mem_append_left _ (ha.word_of_mem_names hx)
      · exact List.mem_append_right _
          (List.mem_cons_of_mem _ (List.mem_append_left _ (hb.word_of_mem_names hx)))

theorem Form.word_of_mem_names (h : Form ts st) (hx : x ∈ st.names) :
    (⟨.word, x⟩ : Token) ∈ ts := by
  cases h with
  | remark ts => simp [names] at hx
  | stop => simp [names] at hx
  | assign he => exact List.mem_cons_of_mem _ (he.word_of_mem_names hx)
  | print he => exact List.mem_cons_of_mem _ (he.word_of_mem_names hx)
  | input y =>
      obtain rfl : x = y := by simpa [names] using hx
      exact List.mem_cons_of_mem _ (List.mem_singleton_self _)
  | target hform _ _ => exact hform.word_of_mem_names hx

/-- A name in a statement that was read from a line is a word. -/
theorem wellFormed_of_parse (hts : ∀ t ∈ ts, t.WellFormed) (h : parse ts = .ok st)
    (hx : x ∈ st.names) : (⟨.word, x⟩ : Token).WellFormed :=
  hts _ (((parse_eq_ok_iff hts).1 h).word_of_mem_names hx)

end Stmt

theorem Program.Legible.wellFormed_of_mem_names {p : Program} (h : p.Legible) {x : String}
    (hx : x ∈ p.names) : (⟨.word, x⟩ : Token).WellFormed := by
  obtain ⟨n, st, hst, hx⟩ := hx
  obtain ⟨l, hl, hlst⟩ := Option.bind_eq_some_iff.1 hst
  obtain ⟨numeral, tail, st', ht, -, hparse, hst'⟩ := (h.readsAs n l hl).scanned
  obtain rfl : st' = st := Option.some.inj (hst'.symm.trans hlst)
  have hwf : ∀ t ∈ Token.ofLine l.source, t.WellFormed := fun t => Token.wellFormed_of_mem_ofLine
  rw [ht] at hwf
  exact Stmt.wellFormed_of_parse (List.forall_mem_cons.1 hwf).2 hparse hx

theorem Asks.wellFormed_of_mem_names {text : Bytes} {st : Stmt} (h : Asks text (.execute st))
    {x : String} (hx : x ∈ st.names) : (⟨.word, x⟩ : Token).WellFormed := by
  cases h with
  | execute ht _ hparse =>
      have hwf : ∀ t ∈ Token.ofLine text, t.WellFormed := fun t => Token.wellFormed_of_mem_ofLine
      rw [ht] at hwf
      exact Stmt.wellFormed_of_parse hwf hparse hx

/-- A word is a letter followed by letters, digits and underscores. -/
theorem Token.WellFormed.word_chars {x : String} (h : (⟨.word, x⟩ : Token).WellFormed) :
    ∃ c cs, x.toList = c :: cs ∧ Text.isLetter c = true ∧
      ∀ d ∈ cs, Text.isLetter d = true ∨ d.isDigit = true ∨ d = '_' := by
  cases h.hasForm with
  | word hletter htail => exact ⟨_, _, String.toList_ofList, hletter, htail⟩

/-! ### What is bound -/

/-- Everything that is bound is a word that is not reserved. -/
def Env.Worded (env : Env) : Prop :=
  ∀ x, (env.get? x).isSome → (⟨.word, x⟩ : Token).WellFormed ∧ isReserved x = false

theorem Env.Worded.writes {env env' : Env} {ns : List String} (h : env.Worded)
    (hw : Env.Writes ns env env') (hns : ∀ x ∈ ns, (⟨.word, x⟩ : Token).WellFormed) :
    env'.Worded := by
  intro x hx
  rcases hw.isSome_get? hx with hold | ⟨hmem, hr⟩
  · exact h x hold
  · exact ⟨hns x hmem, hr⟩

theorem Env.worded_empty : Env.empty.Worded := by
  intro x hx
  cases hx

namespace Session

variable {s : Session}

theorem submit_worded (h : s.env.Worded) (text : Bytes) : (s.submit text).session.env.Worded := by
  have htouch := s.submit_variables text
  generalize (s.submit text).session.env = env at htouch
  cases htouch with
  | nothing => exact h
  | @execute st hasks =>
      exact h.writes (st.writes_execute _ _)
        fun x hx => hasks.wellFormed_of_mem_names (st.targets_subset_names hx)
  | clear | quit => exact Env.worded_empty

theorem pass_worded (hp : s.program.Legible) (h : s.env.Worded) : s.pass.session.env.Worded := by
  obtain ⟨ns, hns, hw⟩ := s.pass_writes
  exact h.writes hw fun x hx => hp.wellFormed_of_mem_names (Program.targets_subset_names (hns x hx))

end Session

/-- A line that takes the variables away. -/
def Happening.forgets : Happening → Prop
  | line text => Token.ofLine text = [⟨.word, "CLEAR"⟩] ∨ Token.ofLine text = [⟨.word, "QUIT"⟩]
  | _ => False

theorem Happening.forgets_of_asks {text : Bytes} {c : Command} (h : Asks text (.command c))
    (hc : c = .clear ∨ c = .quit) : (line text).forgets := by
  cases h with
  | @command w _ ht hw =>
      rcases hc with rfl | rfl
      · obtain rfl : w = "CLEAR" := by simpa [Command.words] using hw
        exact .inl ht
      · obtain rfl : w = "QUIT" := by simpa [Command.words] using hw
        exact .inr ht

namespace Machine

variable {m : Machine}

/-- The program reads as what is stored, and what is bound is a word that is not
reserved. -/
structure Worded (m : Machine) : Prop where
  legible : m.session.program.Legible
  env : m.session.env.Worded

theorem Worded.happen (h : m.Worded) (e : Happening) : (m.happen e).Worded := by
  refine ⟨legible_happen h.legible e, ?_⟩
  cases e with
  | line text =>
      rw [Machine.happen]
      split_ifs
      · exact h.env
      · exact Session.submit_worded h.env text
  | pass =>
      rw [Machine.happen]
      split_ifs
      · exact Session.pass_worded h.legible h.env
      · exact h.env
  | interrupt => exact h.env
  | input i => exact h.env
  | alarm a => exact h.env

theorem Worded.through (h : m.Worded) (hs : List Happening) : (m.through hs).Worded :=
  List.foldlRecOn hs Machine.happen h fun _ hm e _ => hm.happen e

theorem bound_happen {e : Happening} (he : ¬ e.forgets) {x : String}
    (hx : (m.session.env.get? x).isSome) : ((m.happen e).session.env.get? x).isSome := by
  cases e with
  | line text =>
      rw [happen]
      split_ifs
      · exact hx
      · have htouch := m.session.submit_variables text
        have henv : (m.submit text).1.session.env = (m.session.submit text).session.env := rfl
        rw [henv]
        generalize (m.session.submit text).session.env = env at htouch
        cases htouch with
        | nothing => exact hx
        | @execute st _ => exact (st.writes_execute _ _).bound x hx
        | clear hasks => exact absurd (Happening.forgets_of_asks hasks (.inl rfl)) he
        | quit hasks => exact absurd (Happening.forgets_of_asks hasks (.inr rfl)) he
  | pass =>
      rw [happen]
      split_ifs
      · obtain ⟨ns, -, hw⟩ := m.session.pass_writes
        exact hw.bound x hx
      · exact hx
  | interrupt => exact hx
  | input i => exact hx
  | alarm a => exact hx

theorem bound_through {hs : List Happening} (hf : ∀ e ∈ hs, ¬ e.forgets) {x : String}
    (hx : (m.session.env.get? x).isSome) : ((m.through hs).session.env.get? x).isSome :=
  List.foldlRecOn (motive := fun m => (m.session.env.get? x).isSome) hs happen hx
    fun _ hm e he => bound_happen (hf e he) hm

/-- After anything that can happen to a new machine, each name that is bound is
scanned as one word, a letter followed by letters, digits and underscores, and is
none of the reserved words; and whatever happens then, but for `CLEAR` and
`QUIT`, it is still bound. -/
theorem reserved_words_unbound (hs : List Happening) :
    let m := ({} : Machine).through hs
    ∀ x, (m.session.env.get? x).isSome →
      Token.ofLine (Text.ofString x) = [⟨.word, x⟩] ∧
      (∃ c cs, x.toList = c :: cs ∧ Text.isLetter c = true ∧
        ∀ d ∈ cs, Text.isLetter d = true ∨ d.isDigit = true ∨ d = '_') ∧
      x ∉ ["REM", "LET", "PRINT", "INPUT", "END", "GOTO", "IF", "THEN", "RUN", "LIST", "CLEAR",
        "QUIT", "HELP"] ∧
      ∀ hs', (∀ e ∈ hs', ¬ e.forgets) → ((m.through hs').session.env.get? x).isSome := by
  intro m x hx
  have hnew : ({} : Machine).Worded := ⟨Program.legible_empty, Env.worded_empty⟩
  obtain ⟨hword, hreserved⟩ := (hnew.through hs).env x hx
  exact ⟨hword.ofLine_text, hword.word_chars, by simpa [isReserved, reservedWords] using hreserved,
    fun hs' hf => bound_through hf hx⟩

set_option maxRecDepth 8000 in
/-- A name from an assignment within another one, and a run that tries to give a
value to `THEN`. -/
theorem reserved_words_unbound_nested :
    let m := ({} : Machine).through [.line (Text.ofString "LET A = B_1 = 2")]
    let hs' : List Happening :=
      [.line (Text.ofString "10 PRINT THEN = A"), .line (Text.ofString "RUN"), .pass, .interrupt,
        .pass]
    (m.session.env.get? "B_1").isSome ∧
      Token.ofLine (Text.ofString "B_1") = [⟨.word, "B_1"⟩] ∧
      ((m.through hs').session.env.get? "B_1").isSome := by
  intro m hs'
  let st : Stmt := .assign (.binary .assign (.var "A") (.binary .assign (.var "B_1") (.const 2)))
  have hlet : Token.ofLine (Text.ofString "LET A = B_1 = 2") =
      [⟨.word, "LET"⟩, ⟨.word, "A"⟩, ⟨.operator, "="⟩, ⟨.word, "B_1"⟩, ⟨.operator, "="⟩,
        ⟨.number, "2"⟩] := Token.ofLine_spaced (by decide) (by decide)
  have hparse : Stmt.parse [⟨.word, "LET"⟩, ⟨.word, "A"⟩, ⟨.operator, "="⟩, ⟨.word, "B_1"⟩,
      ⟨.operator, "="⟩, ⟨.number, "2"⟩] = .ok st := by decide +kernel
  have hrequest : Request.ofLine (Text.ofString "LET A = B_1 = 2") = .ok (.execute st) :=
    Request.ofLine_of_asks (.execute hlet (by decide) hparse)
  have hx : (m.session.env.get? "B_1").isSome := by
    have hm : m = (({} : Machine).submit (Text.ofString "LET A = B_1 = 2")).1 := rfl
    rw [hm, submit, Session.submit_eq_answer, hrequest]
    decide
  have hprint : Token.ofLine (Text.ofString "10 PRINT THEN = A") =
      [⟨.number, "10"⟩, ⟨.word, "PRINT"⟩, ⟨.word, "THEN"⟩, ⟨.operator, "="⟩, ⟨.word, "A"⟩] :=
    Token.ofLine_spaced (by decide) (by decide)
  have hrun : Token.ofLine (Text.ofString "RUN") = [⟨.word, "RUN"⟩] :=
    Token.ofLine_spaced (by decide) (by decide)
  have hf : ∀ e ∈ hs', ¬ e.forgets := by
    simp [hs', Happening.forgets, hprint, hrun]
  obtain ⟨hscan, -, -, hkeeps⟩ := reserved_words_unbound [.line (Text.ofString "LET A = B_1 = 2")]
    "B_1" hx
  exact ⟨hx, hscan, hkeeps hs' hf⟩

end Machine

end LineBasic
