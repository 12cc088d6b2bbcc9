import LineBasic.Proofs.Conversation
import LineBasic.Proofs.Inquiry
import LineBasic.Proofs.Text.Encoding
import Mathlib.Data.List.DropRight
import Mathlib.Data.Nat.Digits.Defs

/-!
# Numbers on lines

A numeral is an optional sign and digits (`Decimal.Denotes`).  A line is taken as
a number if and only if it is the numeral of one that fits, with blanks around it
or not (`Value.ofLine_eq_ok_iff`).  What `PRINT` shows of a value is such a line,
so `INPUT` reads it back.
-/

namespace LineBasic

/-! ### Blanks at both ends -/

namespace Text

theorem exists_eq_append_trim (cs : List Char) :
    ∃ before after, (∀ c ∈ before ++ after, isBlank c = true) ∧
      cs = before ++ trim cs ++ after := by
  refine ⟨cs.takeWhile isBlank, (cs.dropWhile isBlank).rtakeWhile isBlank, ?_, ?_⟩
  · exact List.forall_mem_append.2
      ⟨fun c hc => List.mem_takeWhile_imp hc, fun c hc => List.mem_rtakeWhile_imp hc⟩
  · have htrim : trim cs = (cs.dropWhile isBlank).rdropWhile isBlank := rfl
    rw [htrim, List.append_assoc, List.rdropWhile_append_rtakeWhile,
      List.takeWhile_append_dropWhile]

theorem dropWhile_isBlank_append {before cs : List Char} (h : ∀ c ∈ before, isBlank c = true)
    (hne : cs ≠ []) (hcs : ∀ c ∈ cs, isBlank c = false) (after : List Char) :
    (before ++ (cs ++ after)).dropWhile isBlank = cs ++ after := by
  obtain ⟨c, cs, rfl⟩ := List.exists_cons_of_ne_nil hne
  rw [List.dropWhile_append_of_pos h, List.cons_append, List.dropWhile_cons_of_neg]
  simp [hcs c List.mem_cons_self]

theorem trim_append {before cs after : List Char} (h : ∀ c ∈ before ++ after, isBlank c = true)
    (hne : cs ≠ []) (hcs : ∀ c ∈ cs, isBlank c = false) : trim (before ++ cs ++ after) = cs := by
  obtain ⟨hbefore, hafter⟩ := List.forall_mem_append.1 h
  have hback : (after.reverse ++ (cs.reverse ++ [])).dropWhile isBlank = cs.reverse ++ [] :=
    dropWhile_isBlank_append (by simpa using hafter) (by simpa using hne) (by simpa using hcs) []
  rw [List.append_nil] at hback
  rw [trim, List.append_assoc, dropWhile_isBlank_append hbefore hne hcs, List.reverse_append,
    hback, List.reverse_reverse]

end Text

/-! ### Numerals -/

namespace Decimal

/-- At least one digit, and the number that the digits stand for in base ten. -/
structure Spells (ds : List Char) (n : Nat) : Prop where
  ne_nil : ds ≠ []
  digit : ∀ d ∈ ds, '0' ≤ d ∧ d ≤ '9'
  value_eq : n = Nat.ofDigits 10 (ds.reverse.map fun d => d.toNat - '0'.toNat)

/-- The characters are a numeral of the number. -/
inductive Denotes : List Char → Int → Prop
  | unsigned {ds : List Char} {n : Nat} : Spells ds n → Denotes ds n
  | plus {ds : List Char} {n : Nat} : Spells ds n → Denotes ('+' :: ds) n
  | minus {ds : List Char} {n : Nat} : Spells ds n → Denotes ('-' :: ds) (-n)

/-- The line is a numeral of the number, with blanks around it or not. -/
def Holds (line : Bytes) (n : Int) : Prop :=
  ∃ before cs after, (∀ c ∈ before ++ after, Text.isBlank c = true) ∧ Denotes cs n ∧
    line = Text.encode (before ++ cs ++ after)

variable {cs ds : List Char} {line : Bytes}

theorem value_eq_ofDigits (ds : List Char) :
    value ds = Nat.ofDigits 10 (ds.reverse.map fun d => d.toNat - '0'.toNat) := by
  induction ds using List.reverseRecOn with
  | nil => rfl
  | append_singleton ds d ih =>
      rw [value_append_singleton, ih, List.reverse_append, List.reverse_singleton,
        List.singleton_append, List.map_cons, Nat.ofDigits_cons, Nat.add_comm]
      rfl

theorem isDigit_iff {d : Char} : d.isDigit = true ↔ '0' ≤ d ∧ d ≤ '9' := by
  simp [Char.isDigit, Char.le_def]

theorem isNatural_iff : isNatural ds = true ↔ ds ≠ [] ∧ ∀ d ∈ ds, '0' ≤ d ∧ d ≤ '9' := by
  simp [isNatural, isDigit_iff]

theorem natural?_eq_some_iff {n : Nat} : natural? ds = some n ↔ Spells ds n := by
  rw [natural?]
  split_ifs with h
  · rw [isNatural_iff] at h
    rw [Option.some_inj, value_eq_ofDigits]
    exact ⟨fun hn => ⟨h.1, h.2, hn.symm⟩, fun hn => hn.value_eq.symm⟩
  · rw [isNatural_iff] at h
    exact iff_of_false (by simp) fun hn => h ⟨hn.ne_nil, hn.digit⟩

theorem parse?_minus {n : Nat} (h : natural? ds = some n) : parse? ('-' :: ds) = some (-n : Int) := by
  rw [parse?, h]
  rfl

theorem parse?_plus {n : Nat} (h : natural? ds = some n) : parse? ('+' :: ds) = some (n : Int) := by
  rw [parse?, h]
  rfl

theorem parse?_eq_some_iff {n : Int} : parse? cs = some n ↔ Denotes cs n := by
  constructor
  · intro h
    unfold parse? at h
    split at h
    case h_1 ds =>
      cases hds : natural? ds with
      | none => simp [hds] at h
      | some k =>
          obtain rfl : -(k : Int) = n := by simpa [hds] using h
          exact .minus (natural?_eq_some_iff.1 hds)
    case h_2 ds =>
      obtain ⟨k, hk, rfl⟩ := Option.map_eq_some_iff.1 h
      exact .plus (natural?_eq_some_iff.1 hk)
    case h_3 =>
      obtain ⟨k, hk, rfl⟩ := Option.map_eq_some_iff.1 h
      exact .unsigned (natural?_eq_some_iff.1 hk)
  · intro h
    cases h with
    | unsigned h =>
        have hds : isNatural cs = true := isNatural_iff.2 ⟨h.ne_nil, h.digit⟩
        rw [parse?_of_isNatural hds, value_eq_ofDigits, h.value_eq]
    | plus h => exact parse?_plus (natural?_eq_some_iff.2 h)
    | minus h => exact parse?_minus (natural?_eq_some_iff.2 h)

theorem Denotes.ne_nil {n : Int} (h : Denotes cs n) : cs ≠ [] := by
  cases h with
  | unsigned h => exact h.ne_nil
  | plus h => simp
  | minus h => simp

/-- A numeral is made of characters between the space and `0x80`. -/
theorem Denotes.toNat_of_mem {n : Int} (h : Denotes cs n) :
    ∀ c ∈ cs, 0x20 < c.toNat ∧ c.toNat < 0x80 := by
  have hdigits {ds : List Char} {k : Nat} (hds : Spells ds k) :
      ∀ d ∈ ds, 0x20 < d.toNat ∧ d.toNat < 0x80 := by
    intro d hd
    have hlow : 48 ≤ d.toNat := (hds.digit d hd).1
    have hhigh : d.toNat ≤ 57 := (hds.digit d hd).2
    omega
  cases h with
  | unsigned h => exact hdigits h
  | plus h => exact List.forall_mem_cons.2 ⟨by decide, hdigits h⟩
  | minus h => exact List.forall_mem_cons.2 ⟨by decide, hdigits h⟩

theorem Denotes.isBlank_of_mem {n : Int} (h : Denotes cs n) :
    ∀ c ∈ cs, Text.isBlank c = false := by
  intro c hc
  rw [Bool.eq_false_iff]
  intro hblank
  have := h.toNat_of_mem c hc
  have := Text.toNat_of_isBlank hblank
  omega

/-- Neither a blank nor a character of a numeral stands for a stray byte. -/
theorem Denotes.replacement_not_mem {n : Int} (h : Denotes cs n) {before after : List Char}
    (hblank : ∀ c ∈ before ++ after, Text.isBlank c = true) :
    Text.replacement ∉ before ++ cs ++ after := by
  intro hmem
  rw [List.append_assoc, List.mem_append, List.mem_append] at hmem
  rcases hmem with hmem | hmem | hmem
  · exact absurd (hblank _ (List.mem_append_left _ hmem)) (by decide)
  · exact absurd (h.toNat_of_mem _ hmem) (by decide)
  · exact absurd (hblank _ (List.mem_append_right _ hmem)) (by decide)

theorem parse?_trim_eq_some_iff {n : Int} :
    parse? (Text.trim (Text.decode line)) = some n ↔ Holds line n := by
  rw [parse?_eq_some_iff]
  constructor
  · intro h
    obtain ⟨before, after, hblank, hline⟩ := Text.exists_eq_append_trim (Text.decode line)
    have hread : Text.replacement ∉ Text.decode line := hline ▸ h.replacement_not_mem hblank
    exact ⟨before, _, after, hblank, h, by rw [← hline, Text.encode_decode hread]⟩
  · rintro ⟨before, cs, after, hblank, hcs, rfl⟩
    rwa [Text.decode_encode, Text.trim_append hblank hcs.ne_nil hcs.isBlank_of_mem]

theorem denotes_numeral (n : Int) : Denotes (numeral n) n := by
  have hdigits := natural?_eq_some_iff.1 (natural?_digits n.natAbs)
  rw [numeral]
  split_ifs with hn
  · have hminus := Denotes.minus hdigits
    rwa [Int.ofNat_natAbs_of_nonpos hn.le, neg_neg] at hminus
  · have hplain := Denotes.unsigned hdigits
    rwa [Int.natAbs_of_nonneg (not_lt.1 hn)] at hplain

end Decimal

namespace Value

open Decimal (Holds)

theorem ofInt?_eq_some_iff {n : Int} {v : Value} :
    ofInt? n = some v ↔ -2 ^ 31 ≤ n ∧ n ≤ 2 ^ 31 - 1 ∧ v.toInt = n := by
  have hrange : InRange n ↔ -2 ^ 31 ≤ n ∧ n ≤ 2 ^ 31 - 1 := Iff.rfl
  rw [ofInt?]
  split_ifs with h
  · rw [hrange] at h
    have hn : (Int32.ofInt n).toInt = n := Int32.toInt_ofInt_of_le h.1 (by omega)
    rw [Option.some_inj]
    constructor
    · rintro rfl
      exact ⟨h.1, h.2, hn⟩
    · rintro ⟨-, -, hv⟩
      rw [← hv, Int32.ofInt_toInt]
  · rw [hrange] at h
    exact iff_of_false (by simp) fun hn => h ⟨hn.1, hn.2.1⟩

theorem ofLine_eq_ok_iff {line : Bytes} {v : Value} :
    ofLine line = .ok v ↔ ∃ n, Holds line n ∧ -2 ^ 31 ≤ n ∧ n ≤ 2 ^ 31 - 1 ∧ v.toInt = n := by
  have hread : ofLine line = .ok v ↔ ofNumeral? (Text.trim (Text.decode line)) = some v := by
    rw [ofLine]
    cases ofNumeral? (Text.trim (Text.decode line)) <;> simp
  rw [hread, ofNumeral?, Option.bind_eq_some_iff]
  simp only [Decimal.parse?_trim_eq_some_iff, ofInt?_eq_some_iff]

/-! ### Values as they are shown -/

theorem ofLine_text (v : Value) : ofLine (Text.ofString v.text) = .ok v := by
  have hholds : Holds (Text.ofString v.text) v.toInt :=
    ⟨[], Decimal.numeral v.toInt, [], by simp, Decimal.denotes_numeral v.toInt, by
      simp [Text.ofString, text, Decimal.text]⟩
  have hlow := v.le_toInt
  have hhigh := v.toInt_lt
  exact ofLine_eq_ok_iff.2 ⟨v.toInt, hholds, hlow, by omega, rfl⟩

theorem toNat_of_mem_text {v : Value} {b : UInt8} (h : b ∈ Text.ofString v.text) :
    0x20 < b.toNat := by
  rw [Text.ofString, text, Decimal.text, String.toList_ofList, Text.encode, List.mem_flatMap] at h
  obtain ⟨c, hc, hb⟩ := h
  obtain ⟨hlow, hhigh⟩ := (Decimal.denotes_numeral v.toInt).toNat_of_mem c hc
  rw [Text.encodeChar_ascii hhigh, List.mem_singleton] at hb
  rwa [hb, Text.toNat_ofNat_byte (by omega)]

theorem newline_not_mem_text (v : Value) : Text.newline ∉ Text.ofString v.text :=
  fun h => absurd (toNat_of_mem_text h) (by decide)

/-- Shown on a line of its own, a value is one answer. -/
theorem ofBytes_text_newline (v : Value) :
    Source.ofBytes (Text.ofString v.text ++ [Text.newline]) = [.line (Text.ofString v.text)] := by
  have hclean : ∀ l ∈ [Text.ofString v.text],
      Text.newline ∉ l ∧ l.getLast? ≠ some Text.carriageReturn := by
    rw [List.forall_mem_singleton]
    exact ⟨newline_not_mem_text v,
      fun h => absurd (toNat_of_mem_text (List.mem_of_getLast? h)) (by decide)⟩
  simpa using Source.ofBytes_ended hclean

theorem renderAll_print {e : Expr} {env : Env} (h : (e.eval env).ok = true) (d : Display)
    (answers : Source) :
    Event.renderAll d ((Stmt.print e).execute env answers).events =
      Event.renderAll d ((e.eval env).faults.map .fault) ++
        (Text.ofString (e.eval env).value.text ++ [Text.newline]) := by
  have hline : Event.renderAll d [.value (e.eval env).value] =
      Text.ofString (e.eval env).value.text ++ [Text.newline] := by
    rw [Event.renderAll, List.flatMap_singleton, Event.render, Event.renderWith,
      Text.ofString_append]
    rfl
  rw [Stmt.execute]
  simp only [h, if_true]
  rw [Event.renderAll_append, hline]

theorem get?_execute_input {x : String} (hx : isReserved x = false) (v : Value) (env : Env) :
    ((Stmt.input x).execute env
      (Source.ofBytes (Text.ofString v.text ++ [Text.newline]))).env.get? x = some v := by
  have hb := Env.bind?_of_not_reserved hx env v
  obtain ⟨-, hget⟩ := Env.of_bind?_eq_some hb
  have hnone : ∀ l ∈ ([] : List Bytes), Refused l := by simp
  have hinput : (Stmt.input x).execute env [.line (Text.ofString v.text)] =
      Stmt.executeInput x env (List.map Reply.line [] ++ .line (Text.ofString v.text) :: []) := rfl
  rw [ofBytes_text_newline, hinput, Stmt.executeInput_of_bind? hnone (ofLine_text v) hb, hget,
    Function.update_self]

/-- A line is taken as a value exactly if it is a numeral of it, with blanks around it or not;
every other line is an invalid number.  For each value there is one line that `PRINT` shows
behind the faults of an expression, whichever expression has the value.  That line is taken as
the value, and `INPUT` gives it to its variable. -/
theorem numerals_are_read_exactly :
    (∀ (line : Bytes) (v : Value), ofLine line = .ok v ↔
      ∃ n : Int, Holds line n ∧ -2 ^ 31 ≤ n ∧ n ≤ 2 ^ 31 - 1 ∧ v.toInt = n) ∧
    (∀ line : Bytes, (¬∃ n : Int, Holds line n ∧ -2 ^ 31 ≤ n ∧ n ≤ 2 ^ 31 - 1) →
      ofLine line = .error .invalidNumber) ∧
    Fault.invalidNumber.message = "INVALID NUMBER" ∧
    ∀ v : Value,
      let line := Text.ofString v.text
      (∀ (d : Display) (e : Expr) (env : Env) (answers : Source),
        (e.eval env).ok = true → (e.eval env).value = v →
        Event.renderAll d ((Stmt.print e).execute env answers).events =
          Event.renderAll d ((e.eval env).faults.map .fault) ++ (line ++ [Text.newline])) ∧
      Text.newline ∉ line ∧ ofLine line = .ok v ∧
      ∀ (x : String) (env : Env), isReserved x = false →
        ((Stmt.input x).execute env
          (Source.ofBytes (line ++ [Text.newline]))).env.get? x = some v := by
  refine ⟨fun line v => ofLine_eq_ok_iff, ?_, rfl, ?_⟩
  · intro line h
    have hrefused : Refused line := by
      intro v hv
      obtain ⟨n, hn, hlow, hhigh, -⟩ := ofLine_eq_ok_iff.1 hv
      exact h ⟨n, hn, hlow, hhigh⟩
    exact hrefused.ofLine_eq
  · intro v line
    refine ⟨?_, newline_not_mem_text v, ofLine_text v, fun x env hx => get?_execute_input hx v env⟩
    rintro d e env answers hok rfl
    exact renderAll_print hok d answers

/-- The lowest value with blanks and leading zeros, a digit before a stray byte, and the lowest
value shown and read again. -/
theorem numerals_are_read_exactly_lowest :
    let lowest : Value := -2147483648
    ofLine (Text.ofString "\u3000 -002147483648\t") = .ok lowest ∧
    ofLine [0x35, 0xFF] = .error .invalidNumber ∧
    Event.renderAll {} ((Stmt.print (.const lowest)).execute .empty []).events =
      Text.ofString lowest.text ++ [Text.newline] ∧
    ((Stmt.input "N").execute .empty
      (Source.ofBytes (Text.ofString lowest.text ++ [Text.newline]))).env.get? "N" = some lowest := by
  intro lowest
  obtain ⟨htaken, hrefused, -, hshown⟩ := numerals_are_read_exactly
  obtain ⟨hprint, -, -, hinput⟩ := hshown lowest
  have hspells : Decimal.Spells "002147483648".toList 2147483648 :=
    Decimal.natural?_eq_some_iff.1 (by decide)
  have hholds : Holds (Text.ofString "\u3000 -002147483648\t") (-2147483648) :=
    ⟨['\u3000', ' '], _, ['\t'], by simp; decide, .minus hspells, by decide⟩
  have hstray : ¬∃ n : Int, Holds [0x35, 0xFF] n ∧ -2 ^ 31 ≤ n ∧ n ≤ 2 ^ 31 - 1 := by
    rintro ⟨n, ⟨before, cs, after, hblank, hcs, hline⟩, -⟩
    have hread : Text.decode [0x35, 0xFF] = ['5', Text.replacement] := by decide +kernel
    rw [hline, Text.decode_encode] at hread
    exact hcs.replacement_not_mem hblank (hread ▸ by simp)
  exact ⟨(htaken _ _).2 ⟨_, hholds, by decide, by decide, by decide⟩, hrefused _ hstray,
    hprint {} (.const lowest) .empty [] rfl rfl, hinput "N" .empty (by decide)⟩

end Value

end LineBasic
