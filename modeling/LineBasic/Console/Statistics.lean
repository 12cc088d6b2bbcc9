import LineBasic.Decimal

/-!
# Statistics

What is said after a run: the time used and the number of statements executed.
-/

namespace LineBasic.Statistics

/-- The word for `n` things. -/
def plural (word : String) (n : Int) : String :=
  if n = 1 then word else word ++ "s"

/-- At least two characters, a minus sign included. -/
def twoPlaces (n : Int) : String :=
  if 0 ≤ n ∧ n < 10 then "0" ++ Decimal.text n else Decimal.text n

/-- Seconds as hours, minutes and seconds.  Less than nothing is all seconds. -/
def clock (t : Int) : String :=
  let hours := if 3600 ≤ t then t / 3600 else 0
  let belowHour := if 3600 ≤ t then t % 3600 else t
  let minutes := if 60 ≤ belowHour then belowHour / 60 else 0
  let seconds := if 60 ≤ belowHour then belowHour % 60 else belowHour
  twoPlaces hours ++ ":" ++ twoPlaces minutes ++ ":" ++ twoPlaces seconds

def report (usage : String) (executed : Nat) : String :=
  "\nCPU Usage: " ++ usage ++ "\n" ++ Decimal.text executed ++ " " ++
    plural "statement" executed ++ " executed\n"

end LineBasic.Statistics
