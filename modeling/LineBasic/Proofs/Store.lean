import LineBasic.Proofs.Session.Operation

/-!
# The store is a sorted map

Whatever has been done to a program by hand, it answers every question as the
finite map of its lines does (`Program.Answers`), and both ways to go through it
meet each line once, in ascending order: from line to line by `next?`
(`Program.Walk`), and with the cursor (`Program.Tour`).
-/

namespace LineBasic

namespace Program

variable {p : Program} {c : Option LineNumber} {xs ys : List LineNumber}

/-- The lines met from the line `c` on, going to the next line each time. -/
inductive Walk (p : Program) : Option LineNumber → List LineNumber → Prop
  | done : Walk p none []
  | step {n : LineNumber} {xs : List LineNumber} :
      Walk p (p.next? n) xs → Walk p (some n) (n :: xs)

/-- The lines met by advancing the cursor until it is on none. -/
inductive Tour : Program → List LineNumber → Prop
  | done {p : Program} : p.advance.1 = none → Tour p []
  | step {p : Program} {n : LineNumber} {xs : List LineNumber} :
      p.advance.1 = some n → Tour p.advance.2 xs → Tour p (n :: xs)

theorem Walk.unique (hx : p.Walk c xs) (hy : p.Walk c ys) : xs = ys := by
  induction hx generalizing ys with
  | done =>
      cases hy
      rfl
  | step _ ih =>
      cases hy with
      | step hy => rw [ih hy]

/-- A walk and a tour meet the same lines. -/
theorem tour_iff_walk : Tour { p with cursor := c } xs ↔ p.Walk c xs := by
  constructor
  · intro h
    generalize hq : { p with cursor := c } = q at h
    induction h generalizing c with
    | done hc =>
        subst hq
        obtain rfl : c = none := hc
        exact .done
    | step hc _ ih =>
        subst hq
        obtain rfl := (hc : c = some _)
        exact .step (ih rfl)
  · intro h
    induction h with
    | done => exact .done rfl
    | step _ ih => exact .step rfl ih

theorem Consistent.walk_of_keys_eq (h : p.Consistent) (xs ys : List LineNumber)
    (hk : p.lines.keys = xs ++ ys) : p.Walk ys.head? ys := by
  induction ys generalizing xs with
  | nil => exact .done
  | cons n ys ih =>
      refine .step ?_
      rw [h.next?_eq_find?, Table.find?_eq_head?_of_keys_eq h.ordered hk]
      exact ih (xs ++ [n]) (by simp [hk])

theorem map_fst_toList (p : Program) : p.toList.map Prod.fst = p.lines.keys := by
  simp [toList, Table.keys]

theorem Consistent.walk_first?_iff (h : p.Consistent) :
    p.Walk p.first? xs ↔ xs = p.lines.keys := by
  have hwalk : p.Walk p.first? p.lines.keys := by
    rw [h.first?_eq]
    exact h.walk_of_keys_eq [] _ rfl
  constructor
  · intro hx
    exact hx.unique hwalk
  · rintro rfl
    exact hwalk

/-- The program answers every question as the map `m` of its lines does. -/
structure Answers (p : Program) (m : LineNumber → Option StoredLine) : Prop where
  /-- The line numbers ascend, so they are distinct. -/
  ascending : (p.toList.map Prod.fst).Pairwise (· < ·)
  mem_iff : ∀ n, n ∈ p.toList.map Prod.fst ↔ (m n).isSome
  size_eq : p.size = {n | (m n).isSome}.ncard
  source_some : ∀ n l, m n = some l → p.source n = l.source
  source_none : ∀ n, m n = none → p.source n = []
  stmt_some : ∀ n l, m n = some l → p.stmt? n = l.stmt
  stmt_none : ∀ n, m n = none → p.stmt? n = none
  first_iff : ∀ k, p.first? = some k ↔ IsLeast {j | (m j).isSome} k
  next_iff : ∀ n k, p.next? n = some k ↔ IsLeast {j | (m j).isSome ∧ n < j} k
  next_none_iff : ∀ n, p.next? n = none ↔ ∀ j, (m j).isSome → j ≤ n
  /-- At a stored line, searching finds what is listed after it. -/
  after_eq_search : ∀ n, (m n).isSome → p.lines.after? n = p.search? n
  walk_iff : ∀ xs, p.Walk p.first? xs ↔ xs = p.toList.map Prod.fst
  tour_iff : ∀ xs, Tour p.rewind xs ↔ xs = p.toList.map Prod.fst
  insert_some : ∀ n l, (m n).isSome → p.insert? n l = none

theorem Consistent.answers (h : p.Consistent) : p.Answers p.line? where
  ascending := by
    rw [map_fst_toList]
    exact h.ordered
  mem_iff n := by
    rw [map_fst_toList, h.isSome_line?_iff]
  size_eq := h.size_eq_ncard
  source_some n l hn := by simp [source, hn]
  source_none n hn := by simp [source, hn]
  stmt_some n l hn := by simp [stmt?, hn]
  stmt_none n hn := by simp [stmt?, hn]
  first_iff k := h.first?_eq_some_iff
  next_iff n k := h.next?_eq_some_iff
  next_none_iff n := h.next?_eq_none_iff
  after_eq_search n hn := by
    rw [h.search?_eq]
    exact Table.after?_eq_find? h.ordered (h.isSome_line?_iff.1 hn)
  walk_iff xs := by
    rw [map_fst_toList]
    exact h.walk_first?_iff
  tour_iff xs := by
    rw [map_fst_toList, rewind, tour_iff_walk]
    exact h.walk_first?_iff
  insert_some n l hn := h.insert?_of_some hn l

end Program

/-- After any operations on a new program, the program is the sorted map that the
operations describe.  A line inserted under a number in use is reported as a
duplicate, and changes nothing. -/
theorem performAll_answers (s : Session) (os : List Operation) :
    (Session.performAll { s with program := .empty } os).program.Answers (Operation.effects os) ∧
      ∀ n l, (Operation.effects os n).isSome →
        let t := Session.performAll { s with program := .empty } os
        (t.perform (.insert n l)).session = (t.tell [.duplicate n]).1 ∧
          (t.perform (.insert n l)).session.program = t.program ∧
          (t.perform (.insert n l)).events = [.duplicate n] ∧
          Event.crash? (.duplicate n) = some ("line " ++ Decimal.text n ++ " already in tree???") := by
  obtain ⟨hcon, hline⟩ := Session.performAll_line?
    (s := { s with program := .empty }) Program.consistent_empty os
  have hmap : (Session.performAll { s with program := .empty } os).program.line? =
      Operation.effects os := hline
  refine ⟨hmap ▸ hcon.answers, ?_⟩
  intro n l hn
  rw [← hmap] at hn
  have hins := Session.insertLine_of_some hcon hn l
  dsimp only [Session.perform]
  rw [hins]
  exact ⟨rfl, Session.tell_program _ _, rfl, rfl⟩

theorem performAll_answers_occupied :
    let os : List Operation :=
      [.enter 20 [] [⟨.word, "REM"⟩], .insert 10 ⟨[0x41], none⟩, .remove 20, .insert 20 ⟨[], none⟩]
    (Operation.effects os 20).isSome ∧
      ((Session.performAll { program := .empty } os).perform (.insert 20 ⟨[0x42], none⟩)).events =
        [.duplicate 20] := by
  refine ⟨by decide, ?_⟩
  exact ((performAll_answers {} _).2 20 ⟨[0x42], none⟩ (by decide)).2.2.1

end LineBasic
