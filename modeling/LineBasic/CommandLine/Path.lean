import LineBasic.Text.Bytes

/-!
# Paths

A path is a list of parts with slashes between them.  A place is where a path
leads from the working folder: so many levels up, then down by names.
-/

namespace LineBasic.CommandLine

def slash : UInt8 := 0x2F

/-- The parts of a path between its slashes. -/
def parts : Bytes → List Bytes
  | [] => [[]]
  | b :: s =>
    if b = slash then [] :: parts s
    else
      match parts s with
      | [] => [[b]]
      | p :: ps => (b :: p) :: ps

/-- An empty part and a dot stay where they are. -/
def isHere (part : Bytes) : Bool :=
  part = [] || part = Text.ofString "."

/-- Two dots go one level up. -/
def isAbove (part : Bytes) : Bool :=
  part = Text.ofString ".."

/-- The most bytes that a name, as a part of a path, can have. -/
def longestName : Nat := 255

/-- The most bytes that a path can have. -/
def longestPath : Nat := 4095

structure Place where
  above : Nat := 0
  names : List Bytes := []
deriving DecidableEq, Repr

namespace Place

def parent (a : Place) : Place :=
  if a.names.isEmpty then { a with above := a.above + 1 }
  else { a with names := a.names.dropLast }

def child (a : Place) (name : Bytes) : Place :=
  { a with names := a.names ++ [name] }

def step (a : Place) (part : Bytes) : Place :=
  if isHere part then a
  else if isAbove part then a.parent
  else a.child part

/-- The place that a path spells, whether or not there is anything on the way. -/
def ofPath (path : Bytes) : Place :=
  (parts path).foldl step {}

/-- Whether the way down to `b` leads through `a`. -/
def leadsTo (a b : Place) : Bool :=
  a.above = b.above && a.names.isPrefixOf b.names

end Place

end LineBasic.CommandLine
