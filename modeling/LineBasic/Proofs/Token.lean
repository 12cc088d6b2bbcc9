import LineBasic.Proofs.Text.Squeeze
import LineBasic.Value

/-!
# Scanned tokens

A token that comes from a line is a first character with characters of its own
class behind it (`WellFormed`).  Written down alone it is scanned as itself, so
its text says what it is.  A number is a stretch of digits, and reading it as a
value or as a line number is a question of its size only.
-/

namespace LineBasic

namespace Token

open Text

/-- The token is a first character and characters that may go on behind it. -/
def WellFormed (t : Token) : Prop :=
  ∃ c cs, t = ⟨kindOf c, String.ofList (c :: cs)⟩ ∧ isBlank c = false ∧
    ∀ d ∈ cs, tailClass c d = true

/-- Whether a token of the given kind has the given characters. -/
def isWellFormed (kind : Kind) : List Char → Bool
  | [] => false
  | c :: cs => kind = kindOf c && !isBlank c && cs.all (tailClass c)

theorem isWellFormed_iff {t : Token} : isWellFormed t.kind t.text.toList = true ↔ t.WellFormed := by
  obtain ⟨kind, text⟩ := t
  constructor
  · intro h
    cases htext : text.toList with
    | nil => simp [htext, isWellFormed] at h
    | cons c cs =>
        obtain rfl : text = String.ofList (c :: cs) := by rw [← htext, String.ofList_toList]
        simp only [isWellFormed, String.toList_ofList, Bool.and_eq_true, decide_eq_true_eq,
          Bool.not_eq_true', List.all_eq_true] at h
        exact ⟨c, cs, by rw [h.1.1], h.1.2, h.2⟩
  · rintro ⟨c, cs, heq, hblank, hcs⟩
    obtain ⟨rfl, rfl⟩ := Token.mk.inj heq
    simpa [isWellFormed, hblank] using hcs

instance (t : Token) : Decidable t.WellFormed :=
  decidable_of_iff _ isWellFormed_iff

theorem wellFormed_of_mem_scan {cs : List Char} {t : Token} (h : t ∈ scan cs) : t.WellFormed := by
  fun_induction scan cs with
  | case1 => simp at h
  | case2 c cs hblank ih => exact ih h
  | case3 c cs hblank ih =>
      rcases List.mem_cons.1 h with rfl | h
      · exact ⟨c, cs.takeWhile (tailClass c), rfl, by simpa using hblank,
          fun d hd => List.mem_takeWhile_imp hd⟩
      · exact ih h

theorem wellFormed_of_mem_ofLine {line : Bytes} {t : Token} (h : t ∈ ofLine line) :
    t.WellFormed :=
  wellFormed_of_mem_scan h

/-- Alone, a token is scanned as itself. -/
theorem WellFormed.scan_text {t : Token} (h : t.WellFormed) : scan t.text.toList = [t] := by
  obtain ⟨c, cs, rfl, hblank, hcs⟩ := h
  have hdrop : cs.dropWhile (tailClass c) = [] := List.dropWhile_eq_nil_iff.2 hcs
  rw [String.toList_ofList, scan_cons_of_not_blank hblank, List.takeWhile_eq_self_iff.2 hcs, hdrop,
    scan_nil]

theorem WellFormed.ofLine_text {t : Token} (h : t.WellFormed) : ofLine (ofString t.text) = [t] := by
  rw [ofLine, ofString, decode_encode, h.scan_text]

/-- Written with a blank between each two, tokens are scanned as themselves. -/
theorem scan_spaced {ts : List Token} (h : ∀ t ∈ ts, t.WellFormed) :
    scan ([' '].intercalate (ts.map (·.text.toList))) = ts := by
  induction ts with
  | nil => simp
  | cons t ts ih =>
      obtain ⟨ht, hts⟩ := List.forall_mem_cons.1 h
      cases ts with
      | nil => simpa using ht.scan_text
      | cons u us =>
          have hblank : ∀ d, (' ' :: [' '].intercalate ((u :: us).map (·.text.toList))).head? =
              some d → isWordChar d = false := by
            rintro d ⟨⟩
            decide
          rw [List.map_cons, List.intercalate_cons_of_ne_nil (by simp), List.append_assoc,
            List.singleton_append, scan_append hblank, ht.scan_text, scan_cons_of_blank isBlank_space,
            ih hts, List.singleton_append]

theorem ofLine_spaced {s : String} {ts : List Token}
    (hs : s.toList = [' '].intercalate (ts.map (·.text.toList))) (h : ∀ t ∈ ts, t.WellFormed) :
    ofLine (ofString s) = ts := by
  rw [ofLine, ofString, decode_encode, hs, scan_spaced h]

theorem WellFormed.eq_of_text {t t' : Token} (h : t.WellFormed) (h' : t'.WellFormed)
    (ht : t.text = t'.text) : t = t' := by
  have hscan := h.scan_text
  rw [ht, h'.scan_text] at hscan
  exact (List.cons.inj hscan).1.symm

theorem WellFormed.isNatural {s : String} (h : (⟨.number, s⟩ : Token).WellFormed) :
    Decimal.isNatural s.toList = true := by
  obtain ⟨c, cs, hs, -, hcs⟩ := h
  rw [Token.mk.injEq] at hs
  obtain ⟨hkind, rfl⟩ := hs
  have hletter : isLetter c = false := by
    cases hc : isLetter c with
    | false => rfl
    | true => simp [kindOf, hc] at hkind
  have hdigit : c.isDigit = true := by
    cases hc : c.isDigit with
    | true => rfl
    | false => simp [kindOf, hletter, hc] at hkind
  have htail : tailClass c = Char.isDigit := by simp [tailClass, hletter, hdigit]
  rw [htail] at hcs
  simpa [Decimal.isNatural, hdigit] using hcs

theorem isLetter_of_isDigit {c : Char} (h : c.isDigit = true) : isLetter c = false := by
  simp only [Char.isDigit, Bool.and_eq_true, decide_eq_true_eq, ge_iff_le,
    UInt32.le_iff_toNat_le] at h
  have hlow : 48 ≤ c.toNat := h.1
  have hhigh : c.toNat ≤ 57 := h.2
  rw [isLetter_of_ascii (by omega), Bool.eq_false_iff, Ne, isAlpha_iff]
  omega

/-- A stretch of digits is a number. -/
theorem wellFormed_number {ds : List Char} (h : Decimal.isNatural ds = true) :
    (⟨.number, String.ofList ds⟩ : Token).WellFormed := by
  cases ds with
  | nil => simp [Decimal.isNatural] at h
  | cons c ds =>
      have hall : c.isDigit = true ∧ ∀ d ∈ ds, d.isDigit = true := by
        simpa [Decimal.isNatural] using h
      have hletter := isLetter_of_isDigit hall.1
      have hblank : isBlank c = false := by
        cases hc : isBlank c with
        | false => rfl
        | true => simp [isDigit_of_isBlank hc] at hall
      refine ⟨c, ds, ?_, hblank, ?_⟩
      · simp [kindOf, hletter, hall.1]
      · simpa [tailClass, hletter, hall.1] using hall.2

/-- Characters that are neither blanks nor of a word stand alone. -/
theorem scan_cons_operator {c : Char} (hblank : isBlank c = false) (hword : isWordChar c = false)
    (cs : List Char) : scan (c :: cs) = ⟨.operator, String.ofList [c]⟩ :: scan cs := by
  rw [isWordChar, Bool.or_eq_false_iff, Bool.or_eq_false_iff] at hword
  have htail : tailClass c = fun _ => false := by simp [tailClass, hword.1]
  have hdrop : cs.dropWhile (fun _ => false) = cs := by cases cs <;> rfl
  rw [scan_cons_of_not_blank hblank, htail, hdrop]
  simp [kindOf, hword.1]

end Token

/-! ### Numbers -/

namespace Decimal

theorem parse?_of_isNatural {ds : List Char} (h : isNatural ds = true) :
    parse? ds = some (value ds : Int) := by
  have hds : natural? ds = some (value ds) := by rw [natural?, if_pos h]
  -- a sign is no digit
  unfold parse?
  split
  · simp [isNatural] at h
  · simp [isNatural] at h
  · rw [hds]
    rfl

end Decimal

namespace Value

theorem ofNumeral?_of_isNatural {ds : List Char} (h : Decimal.isNatural ds = true) :
    ofNumeral? ds =
      if Decimal.value ds ≤ 2147483647 then some (Int32.ofNat (Decimal.value ds)) else none := by
  have hrange : InRange (Decimal.value ds) ↔ Decimal.value ds ≤ 2147483647 := by
    rw [InRange]
    omega
  rw [ofNumeral?, Decimal.parse?_of_isNatural h, Option.bind_some, ofInt?]
  simp only [hrange]
  rfl

end Value

namespace LineNumber

theorem ofNumeral_of_isNatural {s : String} (h : Decimal.isNatural s.toList = true) :
    ofNumeral s =
      if InRange (Decimal.value s.toList) then .ok (Decimal.value s.toList : Int)
      else .error .lineNumber := by
  rw [ofNumeral, Decimal.parse?_of_isNatural h]

end LineNumber

end LineBasic
