import LineBasic.Proofs.Token

/-!
# How tokens lie in a line

A line is tokens with any number of blanks before, between and behind them, and
no token could be longer than it is.  That determines the tokens: they are
those that are scanned (`layout_iff`).  The tokens hold all the other characters
(`Layout.chars_eq`), and in front of a token and behind it there are the lines
of the tokens before and after it (`Layout.exists_place`).
-/

namespace LineBasic.Token

open Text

/-- What the text of a token consists of. -/
inductive HasForm : Token → Prop
  | word {c : Char} {cs : List Char} : isLetter c = true →
      (∀ d ∈ cs, isLetter d = true ∨ d.isDigit = true ∨ d = '_') →
      HasForm ⟨.word, String.ofList (c :: cs)⟩
  | number {ds : List Char} : ds ≠ [] → (∀ d ∈ ds, d.isDigit = true) →
      HasForm ⟨.number, String.ofList ds⟩
  | operator {c : Char} : isBlank c = false → isLetter c = false → c.isDigit = false →
      HasForm ⟨.operator, String.ofList [c]⟩

/-- Whether a token of the kind would go on with a character behind it. -/
def Kind.takes : Kind → Char → Bool
  | word => isWordChar
  | number => Char.isDigit
  | operator => fun _ => false

/-- The token cannot be longer in front of `cs`. -/
def EndsBefore (t : Token) (cs : List Char) : Prop :=
  ∀ d, cs.head? = some d → t.kind.takes d = false

/-- The line consists of the tokens and of blanks, no token being cut short. -/
inductive Layout : List Char → List Token → Prop
  | nil : Layout [] []
  | blank {c : Char} {cs : List Char} {ts : List Token} : isBlank c = true → Layout cs ts →
      Layout (c :: cs) ts
  | token {t : Token} {cs : List Char} {ts : List Token} : t.HasForm → t.EndsBefore cs →
      Layout cs ts → Layout (t.text.toList ++ cs) (t :: ts)

variable {t : Token} {cs : List Char} {ts us : List Token}

/-! ### Forms -/

theorem takes_kindOf (c : Char) : (kindOf c).takes = tailClass c := by
  unfold kindOf tailClass
  split_ifs <;> rfl

theorem isWordChar_iff {d : Char} :
    isWordChar d = true ↔ isLetter d = true ∨ d.isDigit = true ∨ d = '_' := by
  simp [isWordChar, or_assoc]

theorem WellFormed.hasForm (h : t.WellFormed) : t.HasForm := by
  obtain ⟨c, cs, rfl, hblank, hcs⟩ := h
  cases hletter : isLetter c with
  | true =>
      simp only [tailClass, hletter, if_pos, isWordChar_iff] at hcs
      simpa [kindOf, hletter] using HasForm.word hletter hcs
  | false =>
      cases hdigit : c.isDigit with
      | true =>
          simp only [tailClass, hletter, hdigit, if_pos] at hcs
          have hall : ∀ d ∈ c :: cs, d.isDigit = true := List.forall_mem_cons.2 ⟨hdigit, hcs⟩
          simpa [kindOf, hletter, hdigit] using HasForm.number (by simp) hall
      | false =>
          have hnil : cs = [] := by
            cases cs with
            | nil => rfl
            | cons d cs => simpa [tailClass, hletter, hdigit] using hcs d (by simp)
          simpa [hnil, kindOf, hletter, hdigit] using HasForm.operator hblank hletter hdigit

theorem HasForm.wellFormed (h : t.HasForm) : t.WellFormed := by
  cases h with
  | @word c cs hletter hcs =>
      have hblank : isBlank c = false := by
        by_contra hc
        simp [isLetter_of_isBlank (by simpa using hc)] at hletter
      refine ⟨c, cs, by simp [kindOf, hletter], hblank, fun d hd => ?_⟩
      simpa [tailClass, hletter, isWordChar_iff] using hcs d hd
  | @number ds hne hds =>
      exact wellFormed_number (by simpa [Decimal.isNatural, hne] using hds)
  | @operator c hblank hletter hdigit =>
      exact ⟨c, [], by simp [kindOf, hletter, hdigit], hblank, by simp⟩

/-- A token has no blank in it. -/
theorem WellFormed.not_blank (h : t.WellFormed) : ∀ d ∈ t.text.toList, isBlank d = false := by
  obtain ⟨c, cs, rfl, hblank, hcs⟩ := h
  intro d hd
  rw [String.toList_ofList] at hd
  rcases List.mem_cons.1 hd with rfl | hd
  · exact hblank
  · by_contra hd'
    have hword := isWordChar_of_isBlank (by simpa using hd')
    simpa [tailClass_of_not_isWordChar hword] using hcs d hd

/-! ### Scanned lines -/

theorem layout_scan (cs : List Char) : Layout cs (scan cs) := by
  fun_induction scan cs with
  | case1 => exact .nil
  | case2 c cs hblank ih => exact .blank hblank ih
  | case3 c cs hblank ih =>
      let t : Token := ⟨kindOf c, String.ofList (c :: cs.takeWhile (tailClass c))⟩
      have hform : t.WellFormed :=
        ⟨c, _, rfl, by simpa using hblank, fun d hd => List.mem_takeWhile_imp hd⟩
      have hends : t.EndsBefore (cs.dropWhile (tailClass c)) := by
        intro d hd
        have hstop := List.head?_dropWhile_not (tailClass c) cs
        rw [hd] at hstop
        rw [takes_kindOf]
        simpa using hstop
      have hlaid := Layout.token hform.hasForm hends ih
      rwa [String.toList_ofList, List.cons_append, List.takeWhile_append_dropWhile] at hlaid

theorem scan_append_of_endsBefore (h : t.WellFormed) (hcs : t.EndsBefore cs) :
    scan (t.text.toList ++ cs) = t :: scan cs := by
  obtain ⟨c, ds, rfl, hblank, hds⟩ := h
  have hstop : ∀ d, cs.head? = some d → tailClass c d = false := by
    intro d hd
    rw [← takes_kindOf]
    exact hcs d hd
  obtain ⟨htake, hdrop⟩ := takeWhile_append_of_head? hstop ds
  rw [String.toList_ofList, List.cons_append, scan_cons_of_not_blank hblank, htake, hdrop,
    List.takeWhile_eq_self_iff.2 hds, List.dropWhile_eq_nil_iff.2 hds, List.nil_append]

theorem Layout.scan_eq (h : Layout cs ts) : scan cs = ts := by
  induction h with
  | nil => exact scan_nil
  | blank hblank _ ih => rw [scan_cons_of_blank hblank, ih]
  | token hform hends _ ih => rw [scan_append_of_endsBefore hform.wellFormed hends, ih]

/-- A line is laid out in one way only, which is how it is scanned. -/
theorem layout_iff : Layout cs ts ↔ scan cs = ts :=
  ⟨Layout.scan_eq, fun h => h ▸ layout_scan cs⟩

/-- The tokens hold the characters of the line that are no blanks. -/
theorem Layout.chars_eq (h : Layout cs ts) :
    ts.flatMap (·.text.toList) = cs.filter (!isBlank ·) := by
  induction h with
  | nil => rfl
  | blank hblank _ ih => simpa [hblank] using ih
  | token hform _ _ ih =>
      have hclear := List.filter_eq_self (p := (!isBlank ·)).2 fun d hd => by
        simpa using hform.wellFormed.not_blank d hd
      rw [List.flatMap_cons, ih, List.filter_append, hclear]

theorem Layout.hasForm (h : Layout cs ts) (ht : t ∈ ts) : t.HasForm := by
  induction h with
  | nil => simp at ht
  | blank _ _ ih => exact ih ht
  | token hform _ _ ih =>
      rcases List.mem_cons.1 ht with rfl | ht
      · exact hform
      · exact ih ht

/-- Where a token stands: the tokens before it are laid out in what is before it,
those after it in what is after it, and there it ends. -/
theorem Layout.exists_place (h : Layout cs (ts ++ t :: us)) :
    ∃ u v, cs = u ++ (t.text.toList ++ v) ∧ Layout u ts ∧ Layout v us ∧ t.EndsBefore v := by
  generalize hall : ts ++ t :: us = all at h
  induction h generalizing ts with
  | nil => simp at hall
  | @blank c cs all hblank _ ih =>
      obtain ⟨u, v, rfl, hu, hv, hends⟩ := ih hall
      exact ⟨c :: u, v, rfl, .blank hblank hu, hv, hends⟩
  | @token t' cs all hform hends hcs ih =>
      cases ts with
      | nil =>
          obtain ⟨rfl, rfl⟩ := List.cons.inj hall
          exact ⟨[], cs, rfl, .nil, hcs, hends⟩
      | cons t'' ts =>
          rw [List.cons_append, List.cons.injEq] at hall
          obtain ⟨rfl, hall⟩ := hall
          obtain ⟨u, v, rfl, hu, hv, hends'⟩ := ih hall
          -- what follows the first token is the same in the front part, or nothing
          have hfront : t''.EndsBefore u := by
            intro d hd
            apply hends d
            rw [List.head?_append, hd]
            rfl
          exact ⟨t''.text.toList ++ u, v, by simp, .token hform hfront hu, hv, hends'⟩

/-- The tokens of a line hold its characters other than blanks, in their order.
Each has the form of its kind and stands in the line where nothing that follows
could belong to it.  They are the only such tokens, and written with a blank
between each two they are scanned again. -/
theorem tokens_cover_line (line : Bytes) :
    let cs := decode line
    let ts := ofLine line
    ts.flatMap (·.text.toList) = cs.filter (!isBlank ·) ∧
    (∀ t ∈ ts, t.HasForm) ∧
    (∀ ts₁ t ts₂, ts = ts₁ ++ t :: ts₂ →
      ∃ u v, cs = u ++ (t.text.toList ++ v) ∧ scan u = ts₁ ∧ scan v = ts₂ ∧
        ∀ d, v.head? = some d →
          (t.kind = .word → isWordChar d = false) ∧ (t.kind = .number → d.isDigit = false)) ∧
    (∀ ts', Layout cs ts' ↔ ts' = ts) ∧
    ofLine (encode ([' '].intercalate (ts.map (·.text.toList)))) = ts := by
  intro cs ts
  have hlaid : Layout cs ts := layout_scan cs
  refine ⟨hlaid.chars_eq, fun t ht => hlaid.hasForm ht, ?_, fun ts' => ?_, ?_⟩
  · intro ts₁ t ts₂ hts
    rw [hts] at hlaid
    obtain ⟨u, v, hcs, hu, hv, hends⟩ := hlaid.exists_place
    refine ⟨u, v, hcs, hu.scan_eq, hv.scan_eq, fun d hd => ⟨fun hkind => ?_, fun hkind => ?_⟩⟩
    · simpa [hkind, Kind.takes] using hends d hd
    · simpa [hkind, Kind.takes] using hends d hd
  · rw [layout_iff, eq_comm]
    rfl
  · rw [ofLine, decode_encode]
    exact scan_spaced fun t ht => (hlaid.hasForm ht).wellFormed

/-- A word right behind a number, and right before a byte that belongs to no character; an
underscore begins no word. -/
theorem tokens_cover_line_adjacent :
    let line : Bytes := ofString "_7up_2" ++ [0xFF]
    let before : List Token := [⟨.operator, "_"⟩, ⟨.number, "7"⟩]
    let stray : Token := ⟨.operator, String.ofList [replacement]⟩
    ofLine line = before ++ ⟨.word, "up_2"⟩ :: [stray] ∧
      ∃ u v, decode line = u ++ ("up_2".toList ++ v) ∧ scan u = before ∧ scan v = [stray] ∧
        ∀ d, v.head? = some d → isWordChar d = false := by
  intro line before stray
  have hdecode : decode (ofString "_7up_2" ++ [0xFF]) =
      ['_', '7', 'u', 'p', '_', '2', replacement] := by decide +kernel
  have hword : isWordChar replacement = false := by decide +kernel
  have hstray : stray.HasForm := .operator (by decide) (by decide +kernel) (by decide)
  have hlast : Layout [replacement] [stray] := by
    simpa [stray] using Layout.token hstray (by simp [EndsBefore]) .nil
  have hform (t : Token) (h : t.WellFormed) : t.HasForm := h.hasForm
  have hends (t : Token) (d : Char) (cs : List Char) (h : t.kind.takes d = false) :
      t.EndsBefore (d :: cs) := by simpa [EndsBefore] using h
  have hlaid : Layout ['_', '7', 'u', 'p', '_', '2', replacement]
      (before ++ ⟨.word, "up_2"⟩ :: [stray]) :=
    .token (hform ⟨.operator, "_"⟩ (by decide)) (hends _ '7' _ (by decide))
      (.token (hform ⟨.number, "7"⟩ (by decide)) (hends _ 'u' _ (by decide))
        (.token (hform ⟨.word, "up_2"⟩ (by decide)) (hends _ replacement _ hword)
          hlast))
  have htokens : ofLine line = before ++ ⟨.word, "up_2"⟩ :: [stray] := by
    rw [ofLine, hdecode, hlaid.scan_eq]
  obtain ⟨-, -, hplace, -⟩ := tokens_cover_line line
  obtain ⟨u, v, hline, hu, hv, hstop⟩ := hplace _ _ _ htokens
  exact ⟨htokens, u, v, hline, hu, hv, fun d hd => (hstop d hd).1 rfl⟩

end LineBasic.Token
