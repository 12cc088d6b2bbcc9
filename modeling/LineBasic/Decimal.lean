/-!
# Decimal numerals

Writing and reading whole numbers.  A numeral is an optional sign followed by at
least one ASCII digit, and nothing else; its value is exact, whatever its length.
-/

namespace LineBasic.Decimal

def digitChar (d : Nat) : Char :=
  Char.ofNat (48 + d)

def digitValue (c : Char) : Nat :=
  c.toNat - 48

/-- The digits of `n`, without leading zeros. -/
def digits (n : Nat) : List Char :=
  if n < 10 then [digitChar n]
  else digits (n / 10) ++ [digitChar (n % 10)]

/-- The number a list of digits stands for. -/
def value (ds : List Char) : Nat :=
  ds.foldl (fun n d => 10 * n + digitValue d) 0

/-- A minus sign where it is needed, then the digits. -/
def numeral (n : Int) : List Char :=
  if n < 0 then '-' :: digits n.natAbs else digits n.natAbs

def text (n : Int) : String :=
  String.ofList (numeral n)

def isNatural (cs : List Char) : Bool :=
  !cs.isEmpty && cs.all Char.isDigit

def natural? (cs : List Char) : Option Nat :=
  if isNatural cs then some (value cs) else none

/-- The value of a numeral. -/
def parse? : List Char → Option Int
  | '-' :: ds => (natural? ds).map fun n => -(n : Int)
  | '+' :: ds => (natural? ds).map Int.ofNat
  | ds => (natural? ds).map Int.ofNat

/-! ### Writing, then reading -/

theorem isDigit_digitChar {d : Nat} (h : d < 10) : (digitChar d).isDigit = true := by
  match d, h with
  | 0, _ | 1, _ | 2, _ | 3, _ | 4, _ | 5, _ | 6, _ | 7, _ | 8, _ | 9, _ => rfl

theorem digitValue_digitChar {d : Nat} (h : d < 10) : digitValue (digitChar d) = d := by
  match d, h with
  | 0, _ | 1, _ | 2, _ | 3, _ | 4, _ | 5, _ | 6, _ | 7, _ | 8, _ | 9, _ => rfl

theorem digits_ne_nil (n : Nat) : digits n ≠ [] := by
  rw [digits]
  split <;> simp

theorem all_isDigit_digits (n : Nat) : (digits n).all Char.isDigit = true := by
  fun_induction digits n with
  | case1 n h => simp [isDigit_digitChar h]
  | case2 n h ih => simp [ih, isDigit_digitChar (Nat.mod_lt n (by omega : 10 > 0))]

theorem value_append_singleton (ds : List Char) (d : Char) :
    value (ds ++ [d]) = 10 * value ds + digitValue d := by
  simp [value]

theorem value_digits (n : Nat) : value (digits n) = n := by
  fun_induction digits n with
  | case1 n h => simp [value, digitValue_digitChar h]
  | case2 n h ih =>
    rw [value_append_singleton, ih, digitValue_digitChar (Nat.mod_lt n (by omega))]
    omega

theorem natural?_digits (n : Nat) : natural? (digits n) = some n := by
  simp [natural?, isNatural, digits_ne_nil, all_isDigit_digits, value_digits]

end LineBasic.Decimal
