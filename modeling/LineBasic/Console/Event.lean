import LineBasic.Console.Display
import LineBasic.Console.Help

/-!
# Events

A session tells what happens as a list of events, and always the same ones:
how an event looks, and whether it is shown at all, is up to the display.
-/

namespace LineBasic

inductive Event
  | commandPrompt
  | inputPrompt
  | value (v : Value)
  | fault (f : Fault)
  | listing (source : Bytes)
  | entered (s : Stmt)
  | statistics (executed : Nat)
  | help
  | duplicate (n : LineNumber)
deriving DecidableEq, Repr

namespace Event

/-- The bytes an event puts on the display.  `dump` lays out the fields of a
statement. -/
def renderWith (dump : Stmt → String) (d : Display) : Event → Bytes
  | commandPrompt => if d.interactive then Text.ofString "% " else []
  | inputPrompt => Text.ofString " ? "
  | value v => Text.ofString (v.text ++ "\n")
  | fault f => Text.ofString (d.faultLine f)
  | listing s => s ++ [Text.newline]
  | entered s => if d.dump then Text.ofString (dump s) else []
  | statistics n => if d.stats then Text.ofString (Statistics.report d.usage n) else []
  | help => Text.ofString Help.text
  | duplicate _ => []

def render (d : Display) (e : Event) : Bytes :=
  e.renderWith Dump.text d

/-- The message with which the tool gives up, for an event that ends it. -/
def crash? : Event → Option String
  | duplicate n => some n.takenMessage
  | _ => none

def renderAllWith (dump : Stmt → String) (d : Display) (events : List Event) : Bytes :=
  events.flatMap (renderWith dump d)

def renderAll (d : Display) (events : List Event) : Bytes :=
  events.flatMap (render d)

theorem renderAll_append (d : Display) (es fs : List Event) :
    renderAll d (es ++ fs) = renderAll d es ++ renderAll d fs := by
  simp [renderAll]

end Event

end LineBasic
