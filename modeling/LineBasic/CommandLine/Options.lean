import LineBasic.Text.Glyph

/-!
# Options

Options are single characters behind a dash and may be put together.  They end
before the first argument that is empty, a lone dash, or has no dash in front,
and behind `--`.  These are the conventions of `getopt` for options without
arguments; the tool only names its four options.
-/

namespace LineBasic.CommandLine

structure Options where
  dump : Bool := false
  help : Bool := false
  plain : Bool := false
  stats : Bool := false
deriving DecidableEq, Repr

namespace Options

def add? (o : Options) : Char → Option Options
  | 'd' => some { o with dump := true }
  | 'h' => some { o with help := true }
  | 'n' => some { o with plain := true }
  | 's' => some { o with stats := true }
  | _ => none

/-- Adds options one after the other.  The first unknown one is the error. -/
def addAll (o : Options) : List Char → Except Char Options
  | [] => .ok o
  | c :: cs =>
    match o.add? c with
    | some o => o.addAll cs
    | none => .error c

/-- The options at the front of the arguments, and the arguments behind them. -/
def parse (o : Options) : List Bytes → Except Char (Options × List Bytes)
  | [] => .ok (o, [])
  | a :: as =>
    match Text.decode a with
    | ['-', '-'] => .ok (o, as)
    | '-' :: c :: cs =>
      match o.addAll (c :: cs) with
      | .ok o => o.parse as
      | .error c => .error c
    | _ => .ok (o, a :: as)

end Options

/-- Why a command line is refused. -/
inductive Refusal
  | unknownOption (c : Char)
  | tooManyArguments
deriving DecidableEq, Repr

/-- What a command line asks for. -/
inductive Invocation
  | usage
  | session (options : Options) (path : Option Bytes)
deriving DecidableEq, Repr

namespace Invocation

/-- All options are read before any of them counts, and asking for help comes
before the number of arguments. -/
def parse (args : List Bytes) : Except Refusal Invocation :=
  match Options.parse {} args with
  | .error c => .error (.unknownOption c)
  | .ok (o, rest) =>
    if o.help then .ok usage
    else
      match rest with
      | [] => .ok (session o none)
      | [path] => .ok (session o (some path))
      | _ => .error .tooManyArguments

end Invocation

def name : String := "minibasic"

def usage : String :=
  "Usage: " ++ name ++ " [-d] [-h] [-n] [-s] [program]"

namespace Refusal

def message : Refusal → String
  | unknownOption c => name ++ ": unknown option -" ++ String.singleton c ++ "\n" ++ usage
  | tooManyArguments => usage

end Refusal

end LineBasic.CommandLine
