import LineBasic.Console.Event

/-!
# Alarms

An alarm fixes the moment of an interrupt: it rings once so much has been told,
counted in events or in lines on a display, and never again.
-/

namespace LineBasic

namespace Event

/-- The number of lines an event ends on the display. -/
def lineCount (d : Display) (e : Event) : Nat :=
  (e.render d).count Text.newline

end Event

namespace Alarm

inductive Measure
  | events
  | lines (d : Display)
deriving DecidableEq, Repr

def Measure.amount : Measure → Event → Nat
  | events, _ => 1
  | lines d, e => e.lineCount d

end Alarm

structure Alarm where
  left : Nat
  measure : Alarm.Measure
deriving DecidableEq, Repr

namespace Alarm

/-- An alarm after `n` lines on a display; none if `n` is zero. -/
def afterLines (n : Nat) (d : Display) : Option Alarm :=
  if n = 0 then none else some ⟨n, .lines d⟩

/-- Whether the alarm rings at the event, and the alarm that remains. -/
def hear (a : Alarm) (e : Event) : Bool × Option Alarm :=
  let n := a.measure.amount e
  if a.left ≤ n then (true, none) else (false, some { a with left := a.left - n })

end Alarm

end LineBasic
