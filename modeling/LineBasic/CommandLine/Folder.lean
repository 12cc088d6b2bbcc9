import LineBasic.CommandLine.Path

/-!
# Folders

The files a program can be read from.  A folder holds files and folders at
places, the one put there last in front.  Looking up a path goes from folder to
folder along its parts, and stops at the first part that is missing, is no
folder, or is too long to be a name.  Of what lies above the working folder
nothing is known but what was put there, and that there are folders all the way
up.
-/

namespace LineBasic.CommandLine

/-- Why a file cannot be read. -/
inductive FileFault
  | missing
  | notDirectory
  | isDirectory
  | nameTooLong
  | unreadable (reason : String)
deriving DecidableEq, Repr

namespace FileFault

/-- A directory can be opened, and fails only when it is read. -/
def message (path : Bytes) : FileFault → Bytes
  | missing => opening "no such file or directory"
  | notDirectory => opening "not a directory"
  | isDirectory =>
    Text.ofString "Unable to read " ++ path ++ Text.ofString " (read " ++ path ++
      Text.ofString ": is a directory)"
  | nameTooLong => opening "file name too long"
  | unreadable reason => opening reason
where
  opening (reason : String) : Bytes :=
    Text.ofString "Unable to open " ++ path ++ Text.ofString " (open " ++ path ++
      Text.ofString (": " ++ reason ++ ")")

end FileFault

namespace Folder

inductive Node
  | file (content : Bytes)
  | folder
deriving DecidableEq, Repr

end Folder

structure Folder where
  nodes : List (Place × Folder.Node) := []
deriving DecidableEq, Repr

namespace Folder

/-- What there is at a place.  Whatever lies on the way to something else is a
folder. -/
def node? (f : Folder) (a : Place) : Option Node :=
  match f.nodes.find? (·.1 = a) with
  | some e => some e.2
  | none => if a.names.isEmpty || f.nodes.any (a.leadsTo ·.1) then some .folder else none

def isFolder (f : Folder) (a : Place) : Bool :=
  f.node? a = some .folder

/-- Makes a folder where there is nothing yet. -/
def addFolder (f : Folder) (path : Bytes) : Folder :=
  let a := Place.ofPath path
  if (f.node? a).isSome then f else ⟨(a, .folder) :: f.nodes⟩

/-- Writes a file, over an older one at the same place.  A folder stays a
folder. -/
def addFile (f : Folder) (path content : Bytes) : Folder :=
  let a := Place.ofPath path
  if f.isFolder a then f else ⟨(a, .file content) :: f.nodes⟩

/-- The folder with all the given folders, and then all the files, put in. -/
def make (folders : List Bytes) (files : List (Bytes × Bytes)) : Folder :=
  files.foldl (fun f e => f.addFile e.1 e.2) (folders.foldl addFolder {})

/-- Goes on from a place, or from a folder of which nothing is known. -/
def walk (f : Folder) : Option Place → List Bytes → Except FileFault Node
  | none, [] => .ok .folder
  | none, p :: ps =>
    if isHere p || isAbove p then f.walk none ps
    else if longestName < p.length then .error .nameTooLong
    else .error .missing
  | some a, [] =>
    match f.node? a with
    | some n => .ok n
    | none => .error .missing
  | some a, p :: ps =>
    match f.node? a with
    | none => .error .missing
    | some (.file _) => .error .notDirectory
    | some .folder =>
      if longestName < p.length then .error .nameTooLong
      else f.walk (some (a.step p)) ps

/-- The content of the file at a path.  A path with a slash in front starts at a
folder of which nothing is known. -/
def read (f : Folder) (path : Bytes) : Except FileFault Bytes :=
  if path.isEmpty then .error .missing
  else if longestPath < path.length then .error .nameTooLong
  else
    match f.walk (if path.head? = some slash then none else some {}) (parts path) with
    | .ok (.file content) => .ok content
    | .ok .folder => .error .isDirectory
    | .error e => .error e

end Folder

end LineBasic.CommandLine
