import LineBasic.Proofs.Session.Operation

/-!
# Stores of lines

A program keeps its lines in a tree.  What it needs of that tree is an ordered
store: entries in ascending order, where `LineNumber.compare` is all that the store
knows of the order.  Tables are such a store (`Table.orderedStore`), and they stand
for every other one: after any operations on a program, the lines are in the table
what they are in any store that was edited in the same way
(`performAll_in_any_store`).
-/

namespace LineBasic

namespace LineNumber

variable {n k : LineNumber}

theorem compare_neg_iff : compare n k < 0 ↔ n < k := by
  rcases lt_trichotomy n k with h | rfl | h
  · simp [compare, h]
  · simp [compare]
  · simp [compare, h, h.not_gt]

theorem compare_eq_zero_iff : compare n k = 0 ↔ n = k := by
  rcases lt_trichotomy n k with h | rfl | h
  · simp [compare, h, h.ne]
  · simp [compare]
  · simp [compare, h, h.not_gt, h.ne']

end LineNumber

/-- A store of values under line numbers, and what is assumed of it.  `put` and
`erase` are only asked for where there is an entry. -/
structure OrderedStore (β : Type) where
  Tree : Type
  empty : Tree
  entries : Tree → List (LineNumber × β)
  get? : Tree → LineNumber → Option β
  first? : Tree → Option LineNumber
  after? : Tree → LineNumber → Option LineNumber
  add? : Tree → LineNumber → β → Option Tree
  put : Tree → LineNumber → β → Tree
  erase : Tree → LineNumber → Tree
  entries_empty : entries empty = []
  ascending : ∀ t, (entries t).Pairwise fun d e => LineNumber.compare d.1 e.1 < 0
  get?_eq_some_iff : ∀ t n v,
    get? t n = some v ↔ ∃ e ∈ entries t, LineNumber.compare n e.1 = 0 ∧ e.2 = v
  first?_eq : ∀ t, first? t = (entries t).head?.map Prod.fst
  /-- The next entry in order is the one behind. -/
  after?_eq : ∀ t front e back, entries t = front ++ e :: back →
    after? t e.1 = back.head?.map Prod.fst
  /-- A number that is taken is refused. -/
  add?_eq_none_iff : ∀ t n v,
    add? t n v = none ↔ ∃ e ∈ entries t, LineNumber.compare n e.1 = 0
  mem_add? : ∀ t n v t', add? t n v = some t' →
    ∀ e, e ∈ entries t' ↔ e = (n, v) ∨ e ∈ entries t
  mem_put : ∀ t n v, (get? t n).isSome → ∀ e,
    e ∈ entries (put t n v) ↔ e = (n, v) ∨ LineNumber.compare n e.1 ≠ 0 ∧ e ∈ entries t
  mem_erase : ∀ t n, (get? t n).isSome → ∀ e,
    e ∈ entries (erase t n) ↔ LineNumber.compare n e.1 ≠ 0 ∧ e ∈ entries t

namespace OrderedStore

variable {β : Type} (S : OrderedStore β) (t : S.Tree) (n : LineNumber) (v : β)

/-! ### The table of a store -/

/-- The entries as a table. -/
def table (t : S.Tree) : Table LineNumber β :=
  ⟨S.entries t⟩

theorem ordered_table : (S.table t).Ordered :=
  List.pairwise_map.2 ((S.ascending t).imp LineNumber.compare_neg_iff.1)

theorem table_empty : S.table S.empty = .empty :=
  congrArg Table.mk S.entries_empty

theorem get?_eq : S.get? t n = (S.table t).get? n := by
  ext w
  have hmem := (S.ordered_table t).mem_entries_iff (e := (n, w))
  rw [← hmem, S.get?_eq_some_iff]
  constructor
  · rintro ⟨⟨k, w⟩, he, hk, rfl⟩
    obtain rfl := LineNumber.compare_eq_zero_iff.1 hk
    exact he
  · intro he
    exact ⟨(n, w), he, LineNumber.compare_eq_zero_iff.2 rfl, rfl⟩

theorem first?_eq_table : S.first? t = (S.table t).first? := by
  rw [S.first?_eq, Table.first?, Table.keys, List.head?_map]
  rfl

theorem after?_eq_table (hn : n ∈ (S.table t).keys) : S.after? t n = (S.table t).after? n := by
  have hordered := S.ordered_table t
  obtain ⟨⟨k, w⟩, he, rfl⟩ := List.mem_map.1 hn
  obtain ⟨front, back, hsplit⟩ := List.append_of_mem he
  have hkeys : (S.table t).keys = front.map Prod.fst ++ k :: back.map Prod.fst := by
    rw [Table.keys, hsplit, List.map_append, List.map_cons]
  rw [S.after?_eq t front (k, w) back hsplit, Table.after?_eq_find? hordered hn,
    Table.find?_eq_head?_of_keys_eq hordered hkeys, List.head?_map]

theorem exists_compare_iff :
    (∃ e ∈ S.entries t, LineNumber.compare n e.1 = 0) ↔ (S.table t).contains n = true := by
  rw [Table.contains_iff]
  simp only [LineNumber.compare_eq_zero_iff, eq_comm (a := n)]
  exact List.mem_map.symm

theorem map_table_add? : (S.add? t n v).map S.table = (S.table t).add? n v := by
  have hordered := S.ordered_table t
  have htaken := S.add?_eq_none_iff t n v
  rw [S.exists_compare_iff] at htaken
  rw [Table.add?]
  cases hadd : S.add? t n v with
  | none => rw [if_pos (htaken.1 hadd), Option.map_none]
  | some u =>
      have hfree : ¬ (S.table t).contains n = true := fun hc => by
        rw [htaken.2 hc] at hadd
        cases hadd
      have hother (e : LineNumber × β) (he : e ∈ S.entries t) : e.1 ≠ n := by
        rintro rfl
        exact hfree (Table.contains_iff.2 (List.mem_map_of_mem he))
      rw [if_neg hfree, Option.map_some]
      refine congrArg some ((S.ordered_table u).eq_of_mem_iff (hordered.set n v) fun e => ?_)
      rw [hordered.mem_entries_set]
      refine (S.mem_add? t n v u hadd e).trans (or_congr_right ?_)
      exact ⟨fun he => ⟨hother e he, he⟩, And.right⟩

theorem table_put (hn : (S.get? t n).isSome) : S.table (S.put t n v) = (S.table t).set n v := by
  have hordered := S.ordered_table t
  refine (S.ordered_table _).eq_of_mem_iff (hordered.set n v) fun e => ?_
  rw [hordered.mem_entries_set]
  refine (S.mem_put t n v hn e).trans ?_
  rw [Ne, LineNumber.compare_eq_zero_iff, eq_comm (a := n)]
  rfl

theorem table_erase (hn : (S.get? t n).isSome) : S.table (S.erase t n) = (S.table t).erase n := by
  have hordered := S.ordered_table t
  refine (S.ordered_table _).eq_of_mem_iff (hordered.erase n) fun e => ?_
  rw [Table.mem_entries_erase]
  refine (S.mem_erase t n hn e).trans ?_
  rw [Ne, LineNumber.compare_eq_zero_iff, eq_comm (a := n)]
  rfl

end OrderedStore

/-- The tables in order are an ordered store. -/
def Table.orderedStore (β : Type) : OrderedStore β where
  Tree := { t : Table LineNumber β // t.Ordered }
  empty := ⟨.empty, ordered_empty⟩
  entries t := t.1.entries
  get? t := t.1.get?
  first? t := t.1.first?
  after? t := t.1.after?
  add? t n v := if t.1.contains n then none else some ⟨t.1.set n v, t.2.set n v⟩
  put t n v := ⟨t.1.set n v, t.2.set n v⟩
  erase t n := ⟨t.1.erase n, t.2.erase n⟩
  entries_empty := rfl
  ascending t := (List.pairwise_map.1 t.2).imp LineNumber.compare_neg_iff.2
  get?_eq_some_iff t n v := by
    simp only [LineNumber.compare_eq_zero_iff]
    constructor
    · intro h
      exact ⟨(n, v), t.2.mem_entries_iff.2 h, rfl, rfl⟩
    · rintro ⟨⟨k, w⟩, he, rfl, rfl⟩
      exact t.2.get?_of_mem he
  first?_eq t := List.head?_map
  after?_eq t front e back h := by
    have hkeys : t.1.keys = front.map Prod.fst ++ e.1 :: back.map Prod.fst := by
      rw [keys, h, List.map_append, List.map_cons]
    rw [after?_eq_find? t.2 (by simp [hkeys]), find?_eq_head?_of_keys_eq t.2 hkeys, List.head?_map]
  add?_eq_none_iff t n v := by
    have hcontains := contains_iff (t := t.1) (k := n)
    simp only [ite_eq_left_iff, LineNumber.compare_eq_zero_iff, reduceCtorEq, imp_false, not_not,
      hcontains]
    simp [keys, eq_comm]
  mem_add? t n v t' h e := by
    split_ifs at h with hn
    cases h
    rw [t.2.mem_entries_set]
    refine or_congr_right ⟨And.right, fun he => ⟨?_, he⟩⟩
    rintro rfl
    exact hn (contains_iff.2 (List.mem_map_of_mem he))
  mem_put t n v _ e := by
    rw [t.2.mem_entries_set, Ne, Ne, LineNumber.compare_eq_zero_iff, eq_comm (a := n)]
  mem_erase t n _ e := by
    rw [mem_entries_erase, Ne, Ne, LineNumber.compare_eq_zero_iff, eq_comm (a := n)]

namespace OrderedStore

/-! ### Editing -/

inductive Edit (β : Type)
  | clear
  | add (n : LineNumber) (v : β)
  | change (n : LineNumber) (f : β → β)
  | erase (n : LineNumber)

variable {β : Type}

/-- Does an edit.  An entry is looked up before it is changed or erased. -/
def edit (S : OrderedStore β) (t : S.Tree) : Edit β → S.Tree
  | .clear => S.empty
  | .add n v => (S.add? t n v).getD t
  | .change n f =>
    match S.get? t n with
    | some v => S.put t n (f v)
    | none => t
  | .erase n => if (S.get? t n).isSome then S.erase t n else t

/-- What an edit does to the table of a store. -/
def Edit.apply (t : Table LineNumber β) : Edit β → Table LineNumber β
  | clear => .empty
  | add n v => (t.add? n v).getD t
  | change n f =>
    match t.get? n with
    | some v => t.set n (f v)
    | none => t
  | erase n => t.erase n

theorem table_edit (S : OrderedStore β) (t : S.Tree) (e : Edit β) :
    S.table (S.edit t e) = e.apply (S.table t) := by
  cases e with
  | clear => exact S.table_empty
  | add n v =>
      rw [edit, Edit.apply, ← S.map_table_add?]
      cases S.add? t n v <;> rfl
  | change n f =>
      rw [edit, Edit.apply, ← S.get?_eq]
      cases hn : S.get? t n with
      | none => rfl
      | some v => exact S.table_put t n (f v) (by simp [hn])
  | erase n =>
      rw [edit, Edit.apply]
      split_ifs with hn
      · exact S.table_erase t n hn
      · have habsent : n ∉ (S.table t).keys := by
          rwa [S.get?_eq, Table.isSome_get?_iff] at hn
        exact (Table.erase_of_not_mem habsent).symm

/-- A line that is added where there is none and then changed is there as it should
be. -/
theorem Edit.apply_add_change {t : Table LineNumber β} (h : t.Ordered) (n : LineNumber) (v : β) :
    [Edit.add n v, .change n fun _ => v].foldl Edit.apply t = t.set n v := by
  simp only [List.foldl_cons, List.foldl_nil, Edit.apply, Table.add?]
  split_ifs with hc
  · obtain ⟨w, hw⟩ := Option.isSome_iff_exists.1 hc
    rw [Option.getD_none, hw]
  · rw [Option.getD_some, Table.get?_set_self]
    exact h.set_set n v v

theorem table_foldl_edit (S : OrderedStore β) (t : S.Tree) (es : List (Edit β)) :
    S.table (es.foldl S.edit t) = es.foldl Edit.apply (S.table t) := by
  induction es generalizing t with
  | nil => rfl
  | cons e es ih => rw [List.foldl_cons, List.foldl_cons, ih, table_edit]

end OrderedStore

open OrderedStore (Edit)

/-! ### Operations as edits -/

/-- What an operation does to the lines.  A line that is entered is added if its
number is free, and then it is given its text and its statement. -/
def Operation.edits : Operation → List (Edit StoredLine)
  | enter n _ [] => [.erase n]
  | enter n text (t :: ts) =>
    match Stmt.parse (t :: ts) with
    | .ok st =>
      let l : StoredLine := ⟨Text.squeeze text, some st⟩
      [.add n l, .change n fun _ => l]
    | .error _ => []
  | remove n => [.erase n]
  | insert n l => [.add n l]
  | setStmt n stmt => [.change n fun l => { l with stmt }]
  | erase => [.clear]
  | moveTo _ | advance | park | rewind => []

namespace Session

variable {s : Session}

theorem perform_lines (h : s.program.Consistent) (o : Operation) :
    (s.perform o).session.program.lines = o.edits.foldl Edit.apply s.program.lines := by
  cases o with
  | enter n text tail =>
      cases tail with
      | nil =>
          rw [perform, enterLine_nil, tell_program]
          exact h.lines_remove n
      | cons t ts =>
          rw [perform, Operation.edits]
          cases ht : Stmt.parse (t :: ts) with
          | error f => rw [enterLine_error (by simp) ht, tell_program]; rfl
          | ok st =>
              obtain ⟨p, -, hlines, -, he⟩ := enterLine_ok h ht n text
              rw [he, tell_program]
              exact hlines.trans (Edit.apply_add_change h.ordered n _).symm
  | remove n => exact h.lines_remove n
  | insert n l =>
      rw [perform, insertLine, Program.insert?, Operation.edits]
      simp only [List.foldl_cons, List.foldl_nil, Edit.apply]
      cases s.program.lines.add? n l with
      | none => rw [Option.map_none, tell_program]; rfl
      | some u => rw [Option.map_some, tell_program]; rfl
  | setStmt n stmt =>
      rw [perform, Program.setStmt?, h.line?_eq, Operation.edits]
      simp only [List.foldl_cons, List.foldl_nil, Edit.apply]
      cases s.program.lines.get? n with
      | none => rfl
      | some l => rfl
  | moveTo n =>
      rw [perform, Program.moveTo?]
      cases s.program.line? n with
      | none => rfl
      | some l => rfl
  | _ => rfl

theorem performAll_lines (h : s.program.Consistent) (os : List Operation) :
    (s.performAll os).program.lines =
      (os.flatMap Operation.edits).foldl Edit.apply s.program.lines := by
  induction os generalizing s with
  | nil => rfl
  | cons o os ih =>
      rw [performAll_cons, ih (perform_line? h o).1, perform_lines h, List.flatMap_cons,
        List.foldl_append]

/-- After any operations on a new program, its lines are what is in any ordered
store that was edited in the same way, and so are the answers to all that is asked
of them. -/
theorem performAll_in_any_store (S : OrderedStore StoredLine) (s : Session) (os : List Operation) :
    let t := (os.flatMap Operation.edits).foldl S.edit S.empty
    let lines := (Session.performAll { s with program := .empty } os).program.lines
    S.table t = lines ∧ (∀ n, S.get? t n = lines.get? n) ∧ S.first? t = lines.first? ∧
      (∀ n, lines.contains n = true → S.after? t n = lines.after? n) ∧
      ∀ n l, (S.add? t n l).map S.table = lines.add? n l := by
  intro t lines
  have htable : S.table t = lines := by
    rw [S.table_foldl_edit, S.table_empty]
    exact (performAll_lines (s := { s with program := .empty }) Program.consistent_empty os).symm
  rw [← htable]
  exact ⟨rfl, S.get?_eq t, S.first?_eq_table t,
    fun n hn => S.after?_eq_table t n (Table.contains_iff.1 hn), S.map_table_add? t⟩

end Session

end LineBasic
