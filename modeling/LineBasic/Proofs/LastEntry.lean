import LineBasic.Proofs.Session.Request
import LineBasic.Proofs.Start

/-!
# The last entry of a line

A line that begins with a number is entered under it, takes the line there away,
or has no effect.  What a program holds after such lines is, under each number,
what the last line left there that had an effect on it (`last_entry_wins`).  The
order in which lines with different numbers were typed does not matter, nor do
the lines without effect: the program is the same, its count and its cursor
included.
-/

namespace LineBasic

/-! ### Lines with an effect -/

def Numbered (text : Bytes) : Prop :=
  ∃ numeral tail, Token.ofLine text = ⟨.number, numeral⟩ :: tail

/-- What a line leaves under a number: itself with the statement it gives, or
nothing if it is bare. -/
inductive Leaves (text : Bytes) (n : LineNumber) : Option StoredLine → Prop
  | bare : Asks text (.remove n) → Leaves text n none
  | stored {source : Bytes} {st : Stmt} : Asks text (.store n source st) →
      Leaves text n (some ⟨source, some st⟩)

/-- A number with what a line leaves there, if it has an effect. -/
def effect? (text : Bytes) : Option (LineNumber × Option StoredLine) :=
  match Request.ofLine text with
  | .ok (.remove n) => some (n, none)
  | .ok (.store n source st) => some (n, some ⟨source, some st⟩)
  | _ => none

variable {text : Bytes} {n : LineNumber} {l : Option StoredLine}

theorem effect?_eq_some_iff : effect? text = some (n, l) ↔ Leaves text n l := by
  constructor
  · intro h
    unfold effect? at h
    split at h
    · rename_i hline
      cases h
      exact .bare (Request.asks_of_ofLine hline)
    · rename_i hline
      cases h
      exact .stored (Request.asks_of_ofLine hline)
    · cases h
  · intro h
    cases h with
    | bare hr => rw [effect?, Request.ofLine_of_asks hr]
    | stored hr => rw [effect?, Request.ofLine_of_asks hr]

/-- The line has an effect under the number. -/
def Effective (n : LineNumber) (text : Bytes) : Prop :=
  ∃ l, Leaves text n l

theorem effective_iff : Effective n text ↔ (effect? text).map Prod.fst = some n := by
  constructor
  · rintro ⟨l, hl⟩
    rw [effect?_eq_some_iff.2 hl]
    rfl
  · intro h
    obtain ⟨⟨m, l⟩, he, rfl⟩ := Option.map_eq_some_iff.1 h
    exact ⟨l, effect?_eq_some_iff.1 he⟩

theorem Leaves.effective_iff (h : Leaves text n l) {k : LineNumber} : Effective k text ↔ k = n := by
  rw [LineBasic.effective_iff, effect?_eq_some_iff.2 h, Option.map_some, Option.some.injEq, eq_comm]

instance : DecidablePred (Effective n) := fun _ =>
  decidable_of_iff _ effective_iff.symm

/-! ### Lines as edits of a map -/

/-- The map of the lines after one more line. -/
def enter (m : LineNumber → Option StoredLine) (text : Bytes) : LineNumber → Option StoredLine :=
  match effect? text with
  | some (n, l) => Function.update m n l
  | none => m

variable {m m' : LineNumber → Option StoredLine} {texts : List Bytes}

theorem enter_of_leaves (h : Leaves text n l) : enter m text n = l := by
  rw [enter, effect?_eq_some_iff.2 h]
  exact Function.update_self n l m

theorem enter_of_not_effective (h : ¬ Effective n text) : enter m text n = m n := by
  rw [enter]
  cases he : effect? text with
  | none => rfl
  | some e =>
      have hne : n ≠ e.1 := by
        rintro rfl
        exact h ⟨e.2, effect?_eq_some_iff.1 he⟩
      exact Function.update_of_ne hne e.2 m

theorem foldl_enter_of_not_effective (h : ∀ text ∈ texts, ¬ Effective n text) :
    texts.foldl enter m n = m n := by
  induction texts generalizing m with
  | nil => rfl
  | cons text texts ih =>
      obtain ⟨htext, htexts⟩ := List.forall_mem_cons.1 h
      rw [List.foldl_cons, ih htexts, enter_of_not_effective htext]

/-- Under a number only the lines count that have an effect there. -/
theorem foldl_enter_filter (texts : List Bytes) (h : m n = m' n) :
    texts.foldl enter m n = (texts.filter (Effective n)).foldl enter m' n := by
  induction texts generalizing m m' with
  | nil => exact h
  | cons text texts ih =>
      by_cases he : Effective n text
      · rw [List.filter_cons_of_pos (by simpa using he), List.foldl_cons, List.foldl_cons]
        obtain ⟨l, hl⟩ := he
        exact ih (by rw [enter_of_leaves hl, enter_of_leaves hl])
      · rw [List.filter_cons_of_neg (by simpa using he), List.foldl_cons]
        exact ih (by rw [enter_of_not_effective he, h])

/-! ### The program after such lines -/

/-- Where the cursor is on the first line, a program is known by its lines. -/
theorem Program.Placed.eq_of_line?_eq {p q : Program} (hp : p.Placed none) (hq : q.Placed none)
    (h : p.line? = q.line?) : p = q := by
  have hlines : p.lines = q.lines := by
    refine hp.consistent.ordered.eq_of_get?_eq hq.consistent.ordered ?_
    rw [← hp.consistent.line?_eq, ← hq.consistent.line?_eq, h]
  have hcount : p.count = q.count := by
    rw [hp.consistent.counted, hq.consistent.counted, hlines]
  have hcursor : p.cursor = q.cursor := by
    rw [hp.cursor_eq, hq.cursor_eq, if_neg (by simp), if_neg (by simp), hp.consistent.first?_eq,
      hq.consistent.first?_eq, hlines]
  cases p
  cases q
  simp_all

namespace Session

variable {s : Session}

/-- The session after lines that begin no run. -/
def submitAll (s : Session) (texts : List Bytes) : Session :=
  texts.foldl (fun s text => (s.submit text).session) s

theorem submitAll_cons (s : Session) (text : Bytes) (texts : List Bytes) :
    s.submitAll (text :: texts) = (s.submit text).session.submitAll texts := rfl

theorem submit_numbered (hs : s.program.Placed none) (h : Numbered text) :
    (s.submit text).stage = .idle ∧ (s.submit text).session.program.Placed none ∧
      (s.submit text).session.program.line? = enter s.program.line? text := by
  obtain ⟨numeral, tail, ht⟩ := h
  rw [submit_eq_answer, enter, effect?, Request.ofLine_of_number ht]
  split_ifs with hrange hnil
  · simp only [answer, grant]
    refine ⟨rfl, ?_, ?_⟩
    · rw [turn_program]
      exact hs.remove _
    · rw [turn_program]
      exact hs.consistent.remove_line? _
  · cases Stmt.parse tail with
    | error f =>
        refine ⟨rfl, ?_, ?_⟩
        · simpa [Except.map, answer] using hs
        · simp [Except.map, answer]
    | ok st =>
        obtain ⟨p, hp, hcon, -, hline⟩ :=
          hs.consistent.store?_spec (Decimal.value numeral.toList) ⟨Text.squeeze text, some st⟩
        simp only [Except.map, answer, grant, hp]
        refine ⟨rfl, ?_, ?_⟩
        · rw [turn_program]
          exact hcon.placed_rewind (by simp)
        · rw [turn_program]
          exact hline
  · refine ⟨rfl, ?_, ?_⟩
    · simpa [answer] using hs
    · simp [answer]

theorem submitAll_numbered (hs : s.program.Placed none) (h : ∀ text ∈ texts, Numbered text) :
    Takes s texts (s.submitAll texts) ∧ (s.submitAll texts).program.Placed none ∧
      (s.submitAll texts).program.line? = texts.foldl enter s.program.line? := by
  induction texts generalizing s with
  | nil => exact ⟨.nil s, hs, rfl⟩
  | cons text texts ih =>
      obtain ⟨htext, htexts⟩ := List.forall_mem_cons.1 h
      obtain ⟨hstage, hplaced, hline⟩ := submit_numbered hs htext
      obtain ⟨htakes, hplaced', hline'⟩ := ih hplaced htexts
      rw [submitAll_cons]
      refine ⟨.cons 0 ?_ htakes, hplaced', ?_⟩
      · rw [Turn.after_zero, hstage]
        simp
      · rw [hline', hline, List.foldl_cons]

/-- After lines that all begin with a number, typed into a new session, the program
holds under each number what the last line left that had an effect there, and
nothing if there was none.  Other lines with the same effective lines under each
number, in whatever order they come and whatever else is typed between them,
give the same program. -/
theorem last_entry_wins (input : Input) (alarm : Option Alarm)
    (h : ∀ text ∈ texts, Numbered text) :
    let s := submitAll { input, alarm } texts
    Takes { input, alarm } texts s ∧
      (∀ n before text after l, texts = before ++ text :: after → Leaves text n l →
        (∀ later ∈ after, ¬ Effective n later) → s.program.line? n = l) ∧
      (∀ n, (∀ text ∈ texts, ¬ Effective n text) → s.program.line? n = none) ∧
      ∀ (input' : Input) (alarm' : Option Alarm) (texts' : List Bytes),
        (∀ text ∈ texts', Numbered text) →
        (∀ n, texts.filter (Effective n) = texts'.filter (Effective n)) →
          (submitAll { input := input', alarm := alarm' } texts').program = s.program := by
  intro s
  obtain ⟨htakes, hplaced, hline⟩ :=
    submitAll_numbered (s := { input, alarm }) (Program.placed_empty none) h
  refine ⟨htakes, ?_, ?_, ?_⟩
  · rintro n before text after l rfl hl hafter
    rw [hline, List.foldl_append, List.foldl_cons, foldl_enter_of_not_effective hafter,
      enter_of_leaves hl]
  · intro n hn
    rw [hline, foldl_enter_of_not_effective hn]
    rfl
  · intro input' alarm' texts' h' hsame
    obtain ⟨-, hplaced', hline'⟩ := submitAll_numbered
      (s := { input := input', alarm := alarm' }) (Program.placed_empty none) h'
    refine hplaced'.eq_of_line?_eq hplaced ?_
    funext n
    rw [hline, hline', foldl_enter_filter texts rfl, foldl_enter_filter texts' rfl, hsame n]

/-- Two lines, one of which is taken away again; and the same with the lines the
other way round and a line that has no effect. -/
theorem last_entry_wins_reordered :
    let one : Bytes := Text.ofString "1 END"
    let two : Bytes := Text.ofString "2 END"
    let bare : Bytes := Text.ofString "1"
    let zero : Bytes := Text.ofString "0 END"
    let s := submitAll {} [one, two, bare]
    s.program.line? 1 = none ∧ s.program.line? 2 = some ⟨Text.squeeze two, some .stop⟩ ∧
      (submitAll {} [two, zero, one, bare]).program = s.program := by
  intro one two bare zero s
  have hone : Token.ofLine one = [⟨.number, "1"⟩, ⟨.word, "END"⟩] :=
    Token.ofLine_spaced (by decide) (by decide)
  have htwo : Token.ofLine two = [⟨.number, "2"⟩, ⟨.word, "END"⟩] :=
    Token.ofLine_spaced (by decide) (by decide)
  have hbare : Token.ofLine bare = [⟨.number, "1"⟩] :=
    Token.ofLine_spaced (by decide) (by decide)
  have hzero : Token.ofLine zero = [⟨.number, "0"⟩, ⟨.word, "END"⟩] :=
    Token.ofLine_spaced (by decide) (by decide)
  have leaves_one : Leaves one 1 (some ⟨Text.squeeze one, some .stop⟩) :=
    .stored (.store hone (by decide) rfl)
  have leaves_two : Leaves two 2 (some ⟨Text.squeeze two, some .stop⟩) :=
    .stored (.store htwo (by decide) rfl)
  have leaves_bare : Leaves bare 1 none := .bare (.remove hbare (by decide))
  have zero_refused (n : LineNumber) : ¬ Effective n zero := by
    rw [effective_iff, effect?, Request.ofLine_of_number hzero, if_neg (by decide)]
    simp
  have hnumbered : ∀ text ∈ [one, two, bare], Numbered text := by
    simp only [List.forall_mem_cons]
    exact ⟨⟨_, _, hone⟩, ⟨_, _, htwo⟩, ⟨_, _, hbare⟩, by simp⟩
  have hnumbered' : ∀ text ∈ [two, zero, one, bare], Numbered text := by
    simp only [List.forall_mem_cons]
    exact ⟨⟨_, _, htwo⟩, ⟨_, _, hzero⟩, ⟨_, _, hone⟩, ⟨_, _, hbare⟩, by simp⟩
  have hsame (n : LineNumber) : [one, two, bare].filter (Effective n) =
      [two, zero, one, bare].filter (Effective n) := by
    simp only [List.filter_cons, List.filter_nil, leaves_one.effective_iff,
      leaves_two.effective_iff, leaves_bare.effective_iff, zero_refused n]
    by_cases hn : n = 1
    · subst hn
      rfl
    · simp [hn]
  obtain ⟨-, hlast, -, hother⟩ := last_entry_wins (.shared []) none hnumbered
  refine ⟨?_, ?_, hother _ _ _ hnumbered' hsame⟩
  · exact hlast 1 [one, two] bare [] none rfl leaves_bare (by simp)
  · refine hlast 2 [one] two [bare] _ rfl leaves_two ?_
    simp [leaves_bare.effective_iff]

end Session

end LineBasic
