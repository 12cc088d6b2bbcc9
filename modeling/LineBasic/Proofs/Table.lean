import LineBasic.Table
import Mathlib.Data.Set.Card
import Mathlib.Order.Bounds.Basic

/-!
# Tables in order

On a table in order the three ways to go along the keys agree with the order of
the keys themselves: the first key is the least one (`first?_eq_some_iff`), the
key found by walking until one lies above `n` is the least key above `n`
(`find?_eq_some_iff`), and it is also the key listed after `n` when `n` is a key
(`after?_eq_find?`).  Setting and erasing keep the order, and change the number
of entries by at most one.
-/

namespace LineBasic.Table

variable {κ β : Type} {t : Table κ β}

/-! ### Keys -/

theorem keys_cons (e : κ × β) (es : List (κ × β)) :
    (⟨e :: es⟩ : Table κ β).keys = e.1 :: (⟨es⟩ : Table κ β).keys := rfl

theorem length_keys (t : Table κ β) : t.keys.length = t.size := by
  simp [keys, size]

variable [LinearOrder κ]

theorem isSome_get?_iff {k : κ} : (t.get? k).isSome ↔ k ∈ t.keys := by
  simp [get?, keys]

theorem get?_eq_none_iff {k : κ} : t.get? k = none ↔ k ∉ t.keys := by
  rw [← isSome_get?_iff, Bool.not_eq_true, Option.isSome_eq_false_iff, Option.isNone_iff_eq_none]

theorem contains_iff {k : κ} : t.contains k = true ↔ k ∈ t.keys :=
  isSome_get?_iff

theorem mem_keys_set {k j : κ} {v : β} : j ∈ (t.set k v).keys ↔ j = k ∨ j ∈ t.keys := by
  rw [← isSome_get?_iff, ← isSome_get?_iff]
  by_cases h : j = k
  · subst h
    simp [get?_set_self]
  · simp [get?_set_of_ne t h, h]

theorem mem_keys_erase {k j : κ} : j ∈ (t.erase k).keys ↔ j ≠ k ∧ j ∈ t.keys := by
  rw [← isSome_get?_iff, ← isSome_get?_iff]
  by_cases h : j = k
  · subst h
    simp [get?_erase_self]
  · simp [get?_erase_of_ne t h, h]

/-- As a map, the table changes at the key that is set. -/
theorem get?_set (t : Table κ β) (k : κ) (v : β) :
    (t.set k v).get? = Function.update t.get? k (some v) := by
  funext j
  by_cases hj : j = k
  · subst hj
    rw [get?_set_self, Function.update_self]
  · rw [get?_set_of_ne _ hj, Function.update_of_ne hj]

theorem get?_erase (t : Table κ β) (k : κ) :
    (t.erase k).get? = Function.update t.get? k none := by
  funext j
  by_cases hj : j = k
  · subst hj
    rw [get?_erase_self, Function.update_self]
  · rw [get?_erase_of_ne _ hj, Function.update_of_ne hj]

/-! ### Order -/

theorem ordered_empty : (empty : Table κ β).Ordered :=
  List.Pairwise.nil

theorem ordered_cons {e : κ × β} {es : List (κ × β)} :
    (⟨e :: es⟩ : Table κ β).Ordered ↔
      (∀ k ∈ (⟨es⟩ : Table κ β).keys, e.1 < k) ∧ (⟨es⟩ : Table κ β).Ordered := by
  rw [Ordered, keys_cons, List.pairwise_cons]
  rfl

theorem Ordered.nodup (h : t.Ordered) : t.keys.Nodup :=
  h.imp ne_of_lt

theorem Ordered.get?_of_mem (h : t.Ordered) {e : κ × β} (he : e ∈ t.entries) :
    t.get? e.1 = some e.2 := by
  obtain ⟨es⟩ := t
  induction es with
  | nil => simp at he
  | cons d es ih =>
      obtain ⟨j, v⟩ := d
      obtain ⟨hlt, hes⟩ := ordered_cons.1 h
      rcases List.mem_cons.1 he with rfl | he
      · simp [get?_cons]
      · have hne : j ≠ e.1 := ne_of_lt (hlt e.1 (List.mem_map_of_mem he))
        rw [get?_cons, if_neg hne]
        exact ih hes he

theorem Ordered.mem_entries_iff (h : t.Ordered) {e : κ × β} :
    e ∈ t.entries ↔ t.get? e.1 = some e.2 := by
  refine ⟨h.get?_of_mem, ?_⟩
  intro hget
  obtain ⟨d, hd, hde⟩ := Option.map_eq_some_iff.1 hget
  have hkey : d.1 = e.1 := by simpa using List.find?_some hd
  have he : d = e := Prod.ext hkey hde
  exact he ▸ List.mem_of_find?_eq_some hd

/-- A table in order is known by its entries. -/
theorem Ordered.eq_of_mem_iff {u : Table κ β} (ht : t.Ordered) (hu : u.Ordered)
    (h : ∀ e, e ∈ t.entries ↔ e ∈ u.entries) : t = u := by
  have hperm : t.entries.Perm u.entries :=
    (List.perm_ext_iff_of_nodup (ht.nodup.of_map _) (hu.nodup.of_map _)).2 h
  have hasymm : ∀ d e : κ × β, d ∈ t.entries → e ∈ u.entries → d.1 < e.1 → e.1 < d.1 → d = e :=
    fun _ _ _ _ hlt hgt => absurd hgt hlt.not_gt
  have hentries : t.entries = u.entries :=
    hperm.eq_of_pairwise hasymm (List.pairwise_map.1 ht) (List.pairwise_map.1 hu)
  exact congrArg Table.mk hentries

theorem Ordered.eq_of_get?_eq {u : Table κ β} (ht : t.Ordered) (hu : u.Ordered)
    (h : t.get? = u.get?) : t = u :=
  ht.eq_of_mem_iff hu fun e => by rw [ht.mem_entries_iff, hu.mem_entries_iff, h]

theorem Ordered.set (h : t.Ordered) (k : κ) (v : β) : (t.set k v).Ordered := by
  obtain ⟨es⟩ := t
  induction es with
  | nil => simp [Table.set, setEntry, Ordered, keys]
  | cons e es ih =>
      obtain ⟨hlt, hes⟩ := ordered_cons.1 h
      simp only [Table.set, setEntry]
      split_ifs with hk he
      · refine ordered_cons.2 ⟨?_, h⟩
        intro j hj
        rw [keys_cons, List.mem_cons] at hj
        rcases hj with rfl | hj
        · exact hk
        · exact hk.trans (hlt j hj)
      · subst he
        exact ordered_cons.2 ⟨hlt, hes⟩
      · refine ordered_cons.2 ⟨?_, ih hes⟩
        intro j hj
        rcases mem_keys_set.1 hj with rfl | hj
        · exact lt_of_le_of_ne (not_lt.1 hk) (Ne.symm he)
        · exact hlt j hj

theorem Ordered.mem_entries_set (h : t.Ordered) {k : κ} {v : β} {e : κ × β} :
    e ∈ (t.set k v).entries ↔ e = (k, v) ∨ e.1 ≠ k ∧ e ∈ t.entries := by
  obtain ⟨j, w⟩ := e
  rw [(h.set k v).mem_entries_iff, h.mem_entries_iff, get?_set]
  by_cases hj : j = k
  · subst hj
    simp [eq_comm]
  · simp [hj]

theorem Ordered.set_set (h : t.Ordered) (k : κ) (v w : β) : (t.set k v).set k w = t.set k w := by
  refine ((h.set k v).set k w).eq_of_get?_eq (h.set k w) ?_
  rw [get?_set, get?_set, get?_set, Function.update_idem]

/-- A key above all the others goes to the end. -/
theorem entries_set_of_lt {k : κ} (h : ∀ j ∈ t.keys, j < k) (v : β) :
    (t.set k v).entries = t.entries ++ [(k, v)] := by
  obtain ⟨es⟩ := t
  induction es with
  | nil => rfl
  | cons e es ih =>
      rw [keys_cons, List.forall_mem_cons] at h
      simp only [set] at ih ⊢
      rw [setEntry, if_neg (not_lt_of_gt h.1), if_neg (ne_of_gt h.1), ih h.2, List.cons_append]

theorem keys_erase (t : Table κ β) (k : κ) : (t.erase k).keys = t.keys.filter (· ≠ k) := by
  simp [keys, erase, List.filter_map, Function.comp_def]

theorem Ordered.erase (h : t.Ordered) (k : κ) : (t.erase k).Ordered := by
  rw [Ordered, keys_erase]
  exact List.Pairwise.filter _ h

theorem erase_of_not_mem {k : κ} (hk : k ∉ t.keys) : t.erase k = t := by
  refine congrArg mk (List.filter_eq_self.2 fun e he => ?_)
  have hne : e.1 ≠ k := by
    rintro rfl
    exact hk (List.mem_map_of_mem he)
  simpa using hne

theorem mem_entries_erase {k : κ} {e : κ × β} :
    e ∈ (t.erase k).entries ↔ e.1 ≠ k ∧ e ∈ t.entries := by
  simp [erase, and_comm]

/-! ### Going along the keys -/

/-- The first key is the least one. -/
theorem first?_eq_some_iff (h : t.Ordered) {k : κ} :
    t.first? = some k ↔ IsLeast {j | j ∈ t.keys} k := by
  obtain ⟨es⟩ := t
  cases es with
  | nil => simp [first?, keys, IsLeast]
  | cons e es =>
      obtain ⟨hlt, -⟩ := ordered_cons.1 h
      have hleast : IsLeast {j | j ∈ (⟨e :: es⟩ : Table κ β).keys} e.1 := by
        refine ⟨List.mem_cons_self, ?_⟩
        intro j hj
        rcases List.mem_cons.1 hj with rfl | hj
        · exact le_rfl
        · exact (hlt j hj).le
      constructor
      · intro hk
        obtain rfl : e.1 = k := Option.some.inj hk
        exact hleast
      · intro hk
        exact congrArg some (hleast.unique hk)

/-- The first key above `n` on the way is the least key above `n`. -/
theorem find?_eq_some_iff (h : t.Ordered) {n k : κ} :
    t.keys.find? (n < ·) = some k ↔ IsLeast {j | j ∈ t.keys ∧ n < j} k := by
  obtain ⟨es⟩ := t
  induction es with
  | nil => simp [keys, IsLeast]
  | cons e es ih =>
      obtain ⟨hlt, hes⟩ := ordered_cons.1 h
      rw [keys_cons, List.find?_cons]
      by_cases hn : n < e.1
      · have hleast : IsLeast {j | j ∈ e.1 :: (⟨es⟩ : Table κ β).keys ∧ n < j} e.1 := by
          refine ⟨⟨List.mem_cons_self, hn⟩, ?_⟩
          rintro j ⟨hj, -⟩
          rcases List.mem_cons.1 hj with rfl | hj
          · exact le_rfl
          · exact (hlt j hj).le
        simp only [hn, decide_true, Option.some.injEq]
        exact ⟨fun hk => hk ▸ hleast, fun hk => hleast.unique hk⟩
      · -- below `n` the front key matters to neither side
        have hset : {j | j ∈ e.1 :: (⟨es⟩ : Table κ β).keys ∧ n < j} =
            {j | j ∈ (⟨es⟩ : Table κ β).keys ∧ n < j} := by
          ext j
          simp only [List.mem_cons, Set.mem_ofPred_eq]
          refine and_congr_left fun hj => or_iff_right ?_
          rintro rfl
          exact hn hj
        simp only [hn, decide_false, hset]
        exact ih hes

theorem find?_eq_none_iff {n : κ} :
    t.keys.find? (n < ·) = none ↔ ∀ j ∈ t.keys, j ≤ n := by
  simp [List.find?_eq_none]

/-- What is listed after a key is what a walk past it finds. -/
theorem after?_eq_find? (h : t.Ordered) {k : κ} (hk : k ∈ t.keys) :
    t.after? k = t.keys.find? (k < ·) := by
  obtain ⟨es⟩ := t
  induction es with
  | nil => simp [keys] at hk
  | cons e es ih =>
      obtain ⟨hlt, hes⟩ := ordered_cons.1 h
      rw [after?, keys_cons, List.dropWhile_cons, List.find?_cons]
      by_cases he : e.1 = k
      · subst he
        have hfind : (⟨es⟩ : Table κ β).keys.find? (e.1 < ·) = (⟨es⟩ : Table κ β).keys.head? := by
          cases hes' : (⟨es⟩ : Table κ β).keys with
          | nil => rfl
          | cons j js =>
              have hj : e.1 < j := hlt j (by simp [hes'])
              simp [hj]
        simp [hfind]
      · have hmem : k ∈ (⟨es⟩ : Table κ β).keys :=
          (List.mem_cons.1 (keys_cons e es ▸ hk)).resolve_left (Ne.symm he)
        have hnot : ¬ k < e.1 := (hlt k hmem).not_gt
        simp only [ne_eq, he, not_false_eq_true, decide_true, if_true, hnot, decide_false]
        exact ih hes hmem

/-- Above a key lies what is listed behind it. -/
theorem find?_eq_head?_of_keys_eq (h : t.Ordered) {k : κ} {xs ys : List κ}
    (hk : t.keys = xs ++ k :: ys) : t.keys.find? (k < ·) = ys.head? := by
  rw [Ordered, hk, List.pairwise_append] at h
  obtain ⟨-, hys, hxs⟩ := h
  have hbelow : ∀ x ∈ xs, ¬ k < x := by
    intro x hx
    exact (hxs x hx k List.mem_cons_self).not_gt
  have hskip : xs.find? (k < ·) = none := by
    rw [List.find?_eq_none]
    intro x hx
    simpa using hbelow x hx
  rw [hk, List.find?_append, hskip, Option.none_or, List.find?_cons]
  simp only [lt_irrefl, decide_false]
  cases ys with
  | nil => rfl
  | cons y ys =>
      have hy : k < y := List.rel_of_pairwise_cons hys List.mem_cons_self
      simp [hy]

/-! ### Counting -/

theorem size_set_of_mem {k : κ} (h : t.Ordered) (hk : k ∈ t.keys) (v : β) :
    (t.set k v).size = t.size := by
  rw [← length_keys, ← length_keys]
  refine ((List.perm_ext_iff_of_nodup (h.set k v).nodup h.nodup).2 fun j => ?_).length_eq
  rw [mem_keys_set]
  exact or_iff_right_of_imp fun hj => hj ▸ hk

theorem size_set_of_not_mem {k : κ} (h : t.Ordered) (hk : k ∉ t.keys) (v : β) :
    (t.set k v).size = t.size + 1 := by
  rw [← length_keys, ← length_keys, ← List.length_cons (a := k)]
  refine ((List.perm_ext_iff_of_nodup (h.set k v).nodup (h.nodup.cons hk)).2 fun j => ?_).length_eq
  rw [mem_keys_set, List.mem_cons]

theorem size_erase_of_mem {k : κ} (h : t.Ordered) (hk : k ∈ t.keys) :
    (t.erase k).size = t.size - 1 := by
  have hperm : t.keys.Perm (k :: (t.erase k).keys) := by
    refine (List.perm_ext_iff_of_nodup h.nodup ((h.erase k).nodup.cons ?_)).2 fun j => ?_
    · simp [mem_keys_erase]
    · rw [List.mem_cons, mem_keys_erase]
      by_cases hj : j = k
      · simp [hj, hk]
      · simp [hj]
  rw [← length_keys, ← length_keys t, hperm.length_eq, List.length_cons, Nat.add_sub_cancel]

/-- There are as many entries as keys. -/
theorem size_eq_ncard (h : t.Ordered) : t.size = {k | (t.get? k).isSome}.ncard := by
  have hset : {k | (t.get? k).isSome} = (t.keys.toFinset : Set κ) := by
    ext k
    simp [isSome_get?_iff]
  rw [hset, Set.ncard_coe_finset, List.toFinset_card_of_nodup h.nodup, length_keys]

end LineBasic.Table
