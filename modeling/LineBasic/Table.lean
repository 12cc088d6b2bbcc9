/-!
# Tables

A table holds values under keys and lists them in ascending order of the keys.
`set` keeps that order and puts one entry under each key, and `erase` drops
every entry under a key, so what `get?` finds after either needs no assumption
on the table before.  `Ordered` says that the order has been kept from the
start.
-/

namespace LineBasic

structure Table (κ β : Type) where
  entries : List (κ × β)
deriving DecidableEq, Repr

namespace Table

variable {κ β : Type}

def empty : Table κ β := ⟨[]⟩

def keys (t : Table κ β) : List κ :=
  t.entries.map Prod.fst

def size (t : Table κ β) : Nat :=
  t.entries.length

def first? (t : Table κ β) : Option κ :=
  t.keys.head?

/-- The keys ascend, so that there is one entry under each. -/
def Ordered [LT κ] (t : Table κ β) : Prop :=
  t.keys.Pairwise (· < ·)

section

variable [DecidableEq κ]

def get? (t : Table κ β) (k : κ) : Option β :=
  (t.entries.find? (·.1 = k)).map Prod.snd

def contains (t : Table κ β) (k : κ) : Bool :=
  (t.get? k).isSome

def erase (t : Table κ β) (k : κ) : Table κ β :=
  ⟨t.entries.filter (·.1 ≠ k)⟩

/-- The key listed right after `k`. -/
def after? (t : Table κ β) (k : κ) : Option κ :=
  (t.keys.dropWhile (· ≠ k)).tail.head?

variable [LT κ] [DecidableLT κ]

def setEntry (k : κ) (v : β) : List (κ × β) → List (κ × β)
  | [] => [(k, v)]
  | e :: es =>
    if k < e.1 then (k, v) :: e :: es
    else if k = e.1 then (k, v) :: es
    else e :: setEntry k v es

/-- Puts `v` under `k`, in place of what was there. -/
def set (t : Table κ β) (k : κ) (v : β) : Table κ β :=
  ⟨setEntry k v t.entries⟩

/-- Puts `v` under a key that is still free. -/
def add? (t : Table κ β) (k : κ) (v : β) : Option (Table κ β) :=
  if t.contains k then none else some (t.set k v)

end

/-! ### Looking up -/

section

variable [DecidableEq κ]

@[simp]
theorem get?_empty (k : κ) : (empty : Table κ β).get? k = none := rfl

theorem get?_cons (k j : κ) (v : β) (es : List (κ × β)) :
    (⟨(j, v) :: es⟩ : Table κ β).get? k = if j = k then some v else get? ⟨es⟩ k := by
  by_cases h : j = k <;> simp [get?, h]

theorem get?_erase_self (t : Table κ β) (k : κ) : (t.erase k).get? k = none := by
  simp [get?, erase]

theorem get?_erase_of_ne (t : Table κ β) {k j : κ} (h : j ≠ k) :
    (t.erase k).get? j = t.get? j := by
  obtain ⟨es⟩ := t
  induction es with
  | nil => rfl
  | cons e es ih =>
    obtain ⟨i, v⟩ := e
    simp only [erase, ne_eq, decide_not] at ih ⊢
    by_cases hi : i = k
    · subst hi
      simp [get?_cons, ih, Ne.symm h]
    · simp [get?_cons, ih, hi]

variable [LT κ] [DecidableLT κ]

theorem get?_set_self (t : Table κ β) (k : κ) (v : β) : (t.set k v).get? k = some v := by
  obtain ⟨es⟩ := t
  simp only [set]
  induction es with
  | nil => simp [setEntry, get?_cons]
  | cons e es ih =>
    obtain ⟨i, w⟩ := e
    simp only [setEntry]
    split
    · simp [get?_cons]
    split
    · simp [get?_cons]
    · rename_i h
      simp [get?_cons, ih, Ne.symm h]

theorem get?_set_of_ne (t : Table κ β) {k j : κ} (h : j ≠ k) (v : β) :
    (t.set k v).get? j = t.get? j := by
  obtain ⟨es⟩ := t
  simp only [set]
  induction es with
  | nil => simp [setEntry, Ne.symm h, get?]
  | cons e es ih =>
    obtain ⟨i, w⟩ := e
    simp only [setEntry]
    split
    · simp [get?_cons, Ne.symm h]
    split
    · rename_i hk
      subst hk
      simp [get?_cons, Ne.symm h]
    · simp [get?_cons, ih]

end

end Table

end LineBasic
