import LineBasic.Console.Input
import LineBasic.Proofs.Text.Lines

/-!
# Reading line by line

Whoever asks for lines gets the replies of the source in their order and then the
end of input, as often as there is a question (`Source.converse_eq_zip`).  A text
is the source of its lines, so with enough questions nothing of it is lost, the
carriage returns at the ends of the lines apart.
-/

namespace LineBasic.Source

open Text

variable {src : Source} {prompts : List String} {i : Nat} {p : String}

/-- Each question writes its prompt and takes the next reply; when none is left,
it gets the end of input. -/
theorem converse_eq_zip {n : Nat} (h : prompts.length ≤ n) (src : Source) :
    src.converse prompts = prompts.zip (src ++ List.replicate n .endOfInput) := by
  induction prompts generalizing src n with
  | nil => rfl
  | cons p prompts ih =>
      rw [List.length_cons] at h
      cases src with
      | nil =>
          obtain ⟨n, rfl⟩ : ∃ m, n = m + 1 := ⟨n - 1, by omega⟩
          rw [converse, next, ih (Nat.le_of_succ_le_succ h)]
          rfl
      | cons r src =>
          rw [converse, next, ih (Nat.le_of_succ_le h)]
          rfl

theorem length_converse (src : Source) (prompts : List String) :
    (src.converse prompts).length = prompts.length := by
  rw [converse_eq_zip le_rfl, List.length_zip, List.length_append, List.length_replicate]
  omega

theorem getElem?_converse_of_reply (hp : prompts[i]? = some p) {r : Reply}
    (hr : src[i]? = some r) : (src.converse prompts)[i]? = some (p, r) := by
  rw [converse_eq_zip le_rfl, List.getElem?_zip_eq_some]
  refine ⟨hp, ?_⟩
  rw [List.getElem?_append_left (List.getElem?_eq_some_iff.1 hr).1, hr]

theorem getElem?_converse_of_length_le (hp : prompts[i]? = some p) (hi : src.length ≤ i) :
    (src.converse prompts)[i]? = some (p, .endOfInput) := by
  have hlt : i < prompts.length := (List.getElem?_eq_some_iff.1 hp).1
  rw [converse_eq_zip le_rfl, List.getElem?_zip_eq_some]
  refine ⟨hp, ?_⟩
  rw [List.getElem?_append_right hi, List.getElem?_replicate_of_lt (by omega)]

theorem ofBytes_text (d : Division) :
    ofBytes d.text = d.lines.map fun l => .line (dropReturns l) := by
  rw [ofBytes, typedLines, d.lines_text, List.map_map]
  rfl

/-- A text of lines as they are typed is the source of these lines. -/
theorem ofBytes_ended {ls : List Bytes}
    (h : ∀ l ∈ ls, newline ∉ l ∧ l.getLast? ≠ some carriageReturn) :
    ofBytes (ls.flatMap (· ++ [newline])) = ls.map .line := by
  have hlines := typedLines_flatMap_newline_append h []
  rw [List.append_nil, typedLines_nil, List.append_nil] at hlines
  rw [ofBytes, hlines]

/-- Without its last newline such a text has the same lines, except that an empty
one is not seen at the end. -/
theorem ofBytes_dropLast {ls : List Bytes} {l : Bytes}
    (h : ∀ k ∈ ls ++ [l], newline ∉ k ∧ k.getLast? ≠ some carriageReturn) :
    ofBytes ((ls ++ [l]).flatMap (· ++ [newline])).dropLast =
      (if l = [] then ls else ls ++ [l]).map .line := by
  obtain ⟨hls, hl⟩ := List.forall_mem_append.1 h
  rw [List.forall_mem_singleton] at hl
  have htext : ((ls ++ [l]).flatMap (· ++ [newline])).dropLast =
      ls.flatMap (· ++ [newline]) ++ l := by
    rw [List.flatMap_append, List.flatMap_singleton, ← List.append_assoc, List.dropLast_concat]
  rw [htext, ofBytes, typedLines_flatMap_newline_append hls, typedLines,
    lines_of_newline_not_mem hl.1]
  split_ifs
  · simp
  · rw [List.map_singleton, dropReturns_of_last hl.2]

/-- Newlines divide a text in one way.  Every question writes its prompt; it gets
the line of its place without the carriage returns at the end, or the end of
input if there are not so many lines.  So lines that have no newline and do not
end with a carriage return come back as they were, each written with a newline
behind it, and also without the last newline unless the last line is empty, which
then is the only one missing. -/
theorem reading_loses_nothing (prompts : List String) :
    (∀ text : Bytes, (∃! d : Division, d.text = text) ∧
      ((ofBytes text).converse prompts).length = prompts.length ∧
      ∀ (d : Division) (i : Nat) (p : String), d.text = text → prompts[i]? = some p →
        (∀ l, d.lines[i]? = some l →
          ∃ line, Stripped l line ∧ ((ofBytes text).converse prompts)[i]? = some (p, .line line)) ∧
        (d.lines.length ≤ i → ((ofBytes text).converse prompts)[i]? = some (p, .endOfInput))) ∧
    (∀ ls : List Bytes, (∀ l ∈ ls, newline ∉ l ∧ l.getLast? ≠ some carriageReturn) →
      let text := ls.flatMap (· ++ [newline])
      let ends : List Reply := List.replicate prompts.length .endOfInput
      (ofBytes text).converse prompts = prompts.zip (ls.map .line ++ ends) ∧
      (ls.getLast? ≠ some [] →
        (ofBytes text.dropLast).converse prompts = (ofBytes text).converse prompts) ∧
      (ls.getLast? = some [] →
        (ofBytes text.dropLast).converse prompts =
          prompts.zip (ls.dropLast.map .line ++ ends))) := by
  constructor
  · intro text
    refine ⟨existsUnique_division text, length_converse _ prompts, ?_⟩
    rintro d i p rfl hp
    rw [ofBytes_text]
    constructor
    · intro l hl
      exact ⟨dropReturns l, stripped_dropReturns l,
        getElem?_converse_of_reply hp (by rw [List.getElem?_map, hl]; rfl)⟩
    · intro hi
      exact getElem?_converse_of_length_le hp (by simpa using hi)
  · intro ls hls text ends
    have htext : ofBytes text = ls.map .line := ofBytes_ended hls
    rw [htext]
    refine ⟨converse_eq_zip le_rfl _, ?_, ?_⟩
    · intro hlast
      cases ls using List.reverseRecOn with
      | nil => rfl
      | append_singleton ls l =>
          rw [ofBytes_dropLast hls, if_neg (by simpa using hlast)]
    · intro hlast
      obtain ⟨ls, rfl⟩ := List.getLast?_eq_some_iff.1 hlast
      rw [ofBytes_dropLast hls, if_pos rfl, List.dropLast_concat]
      exact converse_eq_zip le_rfl _

/-- A line of carriage returns only, an empty line, a rest and one question too many; then an
empty line that is lost with its newline, behind one that is not. -/
theorem reading_loses_nothing_ragged :
    let prompts : List String := ["% ", "", " ? ", " ? ", " ? "]
    let text : Bytes := [65, 13, 13, 10, 13, 10, 10, 66]
    let said := (ofBytes text).converse prompts
    (said.length = 5 ∧
      (∃ line, Stripped [65, 13, 13] line ∧ said[0]? = some ("% ", .line line)) ∧
      (∃ line, Stripped [13] line ∧ said[1]? = some ("", .line line)) ∧
      (∃ line, Stripped [66] line ∧ said[3]? = some (" ? ", .line line)) ∧
      said[4]? = some (" ? ", .endOfInput)) ∧
    (ofBytes [65, 10, 10, 66]).converse prompts = (ofBytes [65, 10, 10, 66, 10]).converse prompts ∧
    (ofBytes [65, 10]).converse prompts =
      [("% ", .line [65]), ("", .endOfInput), (" ? ", .endOfInput), (" ? ", .endOfInput),
        (" ? ", .endOfInput)] := by
  intro prompts text said
  let d : Division := ⟨[[65, 13, 13], [13], []], [66], by decide, by decide⟩
  obtain ⟨htexts, hlines⟩ := reading_loses_nothing prompts
  obtain ⟨-, hlength, hsaid⟩ := htexts text
  have hrest := (hlines [[65], [], [66]] (by decide)).2.1 (by decide)
  have hempty := (hlines [[65], []] (by decide)).2.2 (by decide)
  refine ⟨⟨hlength, ?_, ?_, ?_, ?_⟩, hrest, hempty⟩
  · exact (hsaid d 0 _ rfl rfl).1 _ rfl
  · exact (hsaid d 1 _ rfl rfl).1 _ rfl
  · exact (hsaid d 3 _ rfl rfl).1 _ rfl
  · exact (hsaid d 4 _ rfl rfl).2 (by decide)

end LineBasic.Source
