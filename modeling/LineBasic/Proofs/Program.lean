import LineBasic.Program
import LineBasic.Proofs.Table

/-!
# Consistent programs

A program is consistent when its lines are in order and were counted right.
Then no question about it is lost to the count: `line?` is what the table
holds, the first line is the lowest one, and the line after `n` is the lowest
one above `n`, whichever of its two ways `next?` goes (`next?_eq_find?`).

The map of a program is `line?`.  Each edit keeps a program consistent and
changes the map at its own number only.
-/

namespace LineBasic.Program

/-- The lines are in order, and there are as many as were counted.  So it is with
every program that starts empty and is only changed by its operations. -/
structure Consistent (p : Program) : Prop where
  ordered : p.lines.Ordered
  counted : p.count = p.lines.size

theorem consistent_empty : Program.empty.Consistent :=
  ⟨Table.ordered_empty, rfl⟩

variable {p q : Program} {n k : LineNumber}

/-- The cursor is no part of being consistent. -/
theorem Consistent.of_lines_eq (h : p.Consistent) (hl : q.lines = p.lines)
    (hc : q.count = p.count) : q.Consistent :=
  ⟨hl ▸ h.ordered, by rw [hc, hl, h.counted]⟩

theorem Consistent.entries_eq_nil (h : p.Consistent) (he : p.isEmpty = true) :
    p.lines.entries = [] := by
  have hcount : p.count = 0 := by simpa [isEmpty] using he
  rw [h.counted] at hcount
  exact List.eq_nil_of_length_eq_zero hcount

/-! ### The map of the lines -/

theorem Consistent.line?_eq (h : p.Consistent) : p.line? = p.lines.get? := by
  funext n
  rw [line?]
  split_ifs with he
  · simp [Table.get?, h.entries_eq_nil he]
  · rfl

theorem Consistent.isSome_line?_iff (h : p.Consistent) :
    (p.line? n).isSome ↔ n ∈ p.lines.keys := by
  rw [h.line?_eq, Table.isSome_get?_iff]

theorem Consistent.line?_eq_none_iff (h : p.Consistent) : p.line? n = none ↔ n ∉ p.lines.keys := by
  rw [h.line?_eq, Table.get?_eq_none_iff]

theorem Consistent.first?_eq (h : p.Consistent) : p.first? = p.lines.first? := by
  rw [first?]
  split_ifs with he
  · simp [Table.first?, Table.keys, h.entries_eq_nil he]
  · rfl

theorem Consistent.search?_eq (h : p.Consistent) :
    p.search? n = p.lines.keys.find? (n < ·) := by
  rw [search?]
  split_ifs with he
  · simp [Table.keys, h.entries_eq_nil he]
  · rfl

/-- Both ways of looking for the next line are one walk along the lines. -/
theorem Consistent.next?_eq_find? (h : p.Consistent) :
    p.next? n = p.lines.keys.find? (n < ·) := by
  rw [next?]
  cases hn : p.line? n with
  | none => exact h.search?_eq
  | some l =>
      have hmem : n ∈ p.lines.keys := h.isSome_line?_iff.1 (by simp [hn])
      exact Table.after?_eq_find? h.ordered hmem

theorem Consistent.first?_eq_some_iff (h : p.Consistent) :
    p.first? = some k ↔ IsLeast {j | (p.line? j).isSome} k := by
  simp only [h.first?_eq, h.isSome_line?_iff]
  exact Table.first?_eq_some_iff h.ordered

theorem Consistent.next?_eq_some_iff (h : p.Consistent) :
    p.next? n = some k ↔ IsLeast {j | (p.line? j).isSome ∧ n < j} k := by
  simp only [h.next?_eq_find?, h.isSome_line?_iff]
  exact Table.find?_eq_some_iff h.ordered

theorem Consistent.first?_eq_none_iff (h : p.Consistent) :
    p.first? = none ↔ ∀ j, p.line? j = none := by
  rw [h.first?_eq, Table.first?, List.head?_eq_none_iff, List.eq_nil_iff_forall_not_mem]
  exact forall_congr' fun j => h.line?_eq_none_iff.symm

theorem Consistent.next?_eq_none_iff (h : p.Consistent) :
    p.next? n = none ↔ ∀ j, (p.line? j).isSome → j ≤ n := by
  simp only [h.next?_eq_find?, h.isSome_line?_iff]
  exact Table.find?_eq_none_iff

/-- A line after another is a stored line. -/
theorem Consistent.isSome_line?_of_next? (h : p.Consistent) (hk : p.next? n = some k) :
    (p.line? k).isSome :=
  (h.next?_eq_some_iff.1 hk).1.1

theorem Consistent.isSome_line?_of_first? (h : p.Consistent) (hk : p.first? = some k) :
    (p.line? k).isSome :=
  (h.first?_eq_some_iff.1 hk).1

theorem Consistent.isEmpty_iff (h : p.Consistent) : p.isEmpty = true ↔ p.first? = none := by
  constructor
  · intro he
    rw [first?, if_pos he]
  · intro hf
    rw [h.first?_eq, Table.first?, List.head?_eq_none_iff, ← List.length_eq_zero_iff,
      Table.length_keys, ← h.counted] at hf
    simp [isEmpty, hf]

theorem Consistent.first?_ne_none_iff (h : p.Consistent) : p.first? ≠ none ↔ p.size ≠ 0 := by
  rw [Ne, ← h.isEmpty_iff]
  simp [isEmpty, size]

theorem Consistent.size_eq_ncard (h : p.Consistent) :
    p.size = {n | (p.line? n).isSome}.ncard := by
  rw [h.line?_eq, size, h.counted, Table.size_eq_ncard h.ordered]

/-! ### Edits -/

section Edit

variable {l : StoredLine}

theorem Consistent.set (h : p.Consistent) (hn : (p.line? n).isSome) (l : StoredLine) :
    { p with lines := p.lines.set n l }.Consistent :=
  ⟨h.ordered.set n l, by
    rw [Table.size_set_of_mem h.ordered (h.isSome_line?_iff.1 hn)]
    exact h.counted⟩

theorem Consistent.add (h : p.Consistent) (hn : p.line? n = none) (l : StoredLine) :
    { p with lines := p.lines.set n l, count := p.count + 1 }.Consistent :=
  ⟨h.ordered.set n l, by
    rw [Table.size_set_of_not_mem h.ordered (h.line?_eq_none_iff.1 hn)]
    exact congrArg (· + 1) h.counted⟩

theorem Consistent.insert?_of_some (h : p.Consistent) (hn : (p.line? n).isSome) (l : StoredLine) :
    p.insert? n l = none := by
  have hc : p.lines.contains n = true := Table.contains_iff.2 (h.isSome_line?_iff.1 hn)
  simp [insert?, Table.add?, hc]

theorem Consistent.insert?_of_none (h : p.Consistent) (hn : p.line? n = none) (l : StoredLine) :
    p.insert? n l = some { p with lines := p.lines.set n l, count := p.count + 1 } := by
  have hc : ¬ p.lines.contains n = true :=
    fun hc => h.line?_eq_none_iff.1 hn (Table.contains_iff.1 hc)
  simp [insert?, Table.add?, hc]

/-- A new line is added and nothing else changes. -/
theorem Consistent.insert?_spec (h : p.Consistent) (hq : p.insert? n l = some q) :
    q.Consistent ∧ q.line? = Function.update p.line? n (some l) ∧ q.cursor = p.cursor := by
  cases hn : p.line? n with
  | some m =>
      rw [h.insert?_of_some (by simp [hn])] at hq
      cases hq
  | none =>
      obtain rfl := Option.some.inj ((h.insert?_of_none hn l).symm.trans hq)
      have hcon := h.add hn l
      refine ⟨hcon, ?_, rfl⟩
      rw [hcon.line?_eq, h.line?_eq, Table.get?_set]

/-- Storing a line always succeeds. -/
theorem Consistent.store?_spec (h : p.Consistent) (n : LineNumber) (l : StoredLine) :
    ∃ q, p.store? n l = some q ∧ q.Consistent ∧
      q.lines = p.lines.set n l ∧ q.line? = Function.update p.line? n (some l) := by
  cases hn : p.line? n with
  | some m =>
      have hcon := h.set (n := n) (by simp [hn]) l
      refine ⟨_, by rw [store?, hn], hcon, rfl, ?_⟩
      rw [hcon.line?_eq, h.line?_eq, Table.get?_set]
  | none =>
      have hcon := h.add hn l
      refine ⟨_, by rw [store?, hn]; exact h.insert?_of_none hn l, hcon, rfl, ?_⟩
      rw [hcon.line?_eq, h.line?_eq, Table.get?_set]

theorem setStmt?_eq_none_iff {s : Option Stmt} : p.setStmt? n s = none ↔ p.line? n = none := by
  simp [setStmt?]

theorem Consistent.setStmt?_spec (h : p.Consistent) {s : Option Stmt} (hn : p.line? n = some l) :
    ∃ q, p.setStmt? n s = some q ∧ q.Consistent ∧
      q.line? = Function.update p.line? n (some { l with stmt := s }) ∧ q.cursor = p.cursor := by
  have hcon := h.set (n := n) (by simp [hn]) { l with stmt := s }
  refine ⟨_, by rw [setStmt?, hn]; rfl, hcon, ?_, rfl⟩
  rw [hcon.line?_eq, h.line?_eq, Table.get?_set]

theorem moveTo?_eq_none_iff : p.moveTo? n = none ↔ p.line? n = none := by
  simp [moveTo?]

theorem moveTo?_eq_some (hn : (p.line? n).isSome) :
    p.moveTo? n = some { p with cursor := some n } := by
  obtain ⟨l, hl⟩ := Option.isSome_iff_exists.1 hn
  simp [moveTo?, hl]

end Edit

/-! ### Removing -/

theorem remove_of_none (hn : p.line? n = none) : p.remove n = p := by
  rw [remove, hn]

theorem remove_lines (hn : (p.line? n).isSome) :
    (p.remove n).lines = p.lines.erase n ∧ (p.remove n).count = p.count - 1 := by
  obtain ⟨l, hl⟩ := Option.isSome_iff_exists.1 hn
  rw [remove, hl]
  dsimp only
  split_ifs <;> exact ⟨rfl, rfl⟩

theorem Consistent.lines_remove (h : p.Consistent) (n : LineNumber) :
    (p.remove n).lines = p.lines.erase n := by
  cases hn : p.line? n with
  | none => rw [remove_of_none hn, Table.erase_of_not_mem (h.line?_eq_none_iff.1 hn)]
  | some l => exact (remove_lines (by simp [hn])).1

theorem Consistent.remove (h : p.Consistent) (n : LineNumber) : (p.remove n).Consistent := by
  cases hn : p.line? n with
  | none => exact (remove_of_none hn).symm ▸ h
  | some l =>
      obtain ⟨hlines, hcount⟩ := remove_lines (p := p) (n := n) (by simp [hn])
      refine ⟨hlines ▸ h.ordered.erase n, ?_⟩
      rw [hcount, hlines, h.counted,
        Table.size_erase_of_mem h.ordered (h.isSome_line?_iff.1 (by simp [hn]))]

theorem Consistent.remove_line? (h : p.Consistent) (n : LineNumber) :
    (p.remove n).line? = Function.update p.line? n none := by
  rw [(h.remove n).line?_eq, h.lines_remove, h.line?_eq, Table.get?_erase]

/-- A cursor on the line that goes moves to the first line. -/
theorem remove_cursor_self (hn : (p.line? n).isSome) (hc : p.cursor = some n) :
    (p.remove n).cursor = (p.remove n).first? := by
  obtain ⟨l, hl⟩ := Option.isSome_iff_exists.1 hn
  rw [remove, hl]
  dsimp only
  rw [if_pos hc]
  rfl

theorem remove_cursor_of_ne (hc : p.cursor ≠ some n) : (p.remove n).cursor = p.cursor := by
  cases hn : p.line? n with
  | none => rw [remove_of_none hn]
  | some l =>
      rw [remove, hn]
      dsimp only
      rw [if_neg hc]

/-- Without another line the first one is still the first. -/
theorem Consistent.remove_first?_of_ne (h : p.Consistent) (hn : p.first? ≠ some n) :
    (p.remove n).first? = p.first? := by
  cases hf : p.first? with
  | none => rw [remove_of_none (h.first?_eq_none_iff.1 hf n), hf]
  | some m =>
      have hmn : m ≠ n := by
        rintro rfl
        exact hn hf
      obtain ⟨hm, hleast⟩ := h.first?_eq_some_iff.1 hf
      rw [(h.remove n).first?_eq_some_iff, h.remove_line? n]
      refine ⟨by simpa [Function.update_of_ne hmn] using hm, ?_⟩
      intro j hj
      apply hleast
      by_cases hjn : j = n
      · simp [hjn] at hj
      · simpa [Function.update_of_ne hjn] using hj

end LineBasic.Program
