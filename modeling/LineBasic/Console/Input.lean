import LineBasic.Text.Lines

/-!
# Input

Reading a line either gives the line or says why there is none.  A source is
the list of replies still to come; when it is used up, every further reply is
the end of input.

Lines are read for two reasons, as commands and as answers to `INPUT`.  Both may
come from one source, so that an answer is the line after the command that asked
for it, or each from its own.
-/

namespace LineBasic

inductive Reply
  | line (text : Bytes)
  | interrupted
  | endOfInput
  | failed (message : String)
deriving DecidableEq, Repr

abbrev Source := List Reply

namespace Source

def ofBytes (s : Bytes) : Source :=
  (Text.typedLines s).map .line

/-- The next reply, and the source after it. -/
def next : Source → Reply × Source
  | [] => (.endOfInput, [])
  | r :: rs => (r, rs)

/-- Reads once for each prompt, writing the prompt first. -/
def converse : Source → List String → List (String × Reply)
  | _, [] => []
  | src, p :: ps => (p, src.next.1) :: converse src.next.2 ps

end Source

inductive Input
  | shared (source : Source)
  | separate (commands answers : Source)
deriving DecidableEq, Repr

namespace Input

def commands : Input → Source
  | shared src => src
  | separate cs _ => cs

def answers : Input → Source
  | shared src => src
  | separate _ as => as

def setCommands : Input → Source → Input
  | shared _, src => shared src
  | separate _ as, src => separate src as

def setAnswers : Input → Source → Input
  | shared _, src => shared src
  | separate cs _, src => separate cs src

theorem setAnswers_answers (i : Input) : i.setAnswers i.answers = i := by
  cases i <;> rfl

theorem setAnswers_setAnswers (i : Input) (a b : Source) :
    (i.setAnswers a).setAnswers b = i.setAnswers b := by
  cases i <;> rfl

theorem answers_setAnswers (i : Input) (a : Source) : (i.setAnswers a).answers = a := by
  cases i <;> rfl

end Input

end LineBasic
